import Lucha.Proofs.Combat.Log
import Lucha.Proofs.Json.RoundTrip
import Lucha.Report.Rendering
import Mathlib.Data.List.Forall2

/-!
# Data is read back

Records and results are read from JSON objects: their parts by their keys, from an object that has
just these keys. From what is written for a record that record is read, but for the round of a
turn's start, which is not written; the round of the record is taken for it. From what is written
for a result that result is read. So the lines that tell a fight as data tell exactly what was
recorded (`data_read_back`).
-/

namespace Lucha

namespace Json

variable {α : Type}

/-! ### Parts of objects -/

/-- What is read from the member of an object with a key. -/
def get? (v : Json) (key : String) (read : Json → Option α) : Option α :=
  match v with
  | .object members => (members.lookup key).bind read
  | _ => none

/-- Whether a value is an object with just these keys. -/
def hasKeys (v : Json) (keys : List String) : Bool :=
  match v with
  | .object members => members.map Prod.fst = keys
  | _ => false

/-- The string that a value is. -/
def text? : Json → Option String
  | .text value => some value
  | _ => none

/-- The number that a value is. -/
def number? : Json → Option Nat
  | .number value => some value
  | _ => none

/-- The truth value that a value is. -/
def flag? : Json → Option Bool
  | .flag value => some value
  | _ => none

@[simp]
theorem get?_object_cons (member : String × Json) (members : List (String × Json)) (key : String)
    (read : Json → Option α) :
    (object (member :: members)).get? key read
      = if key = member.1 then read member.2 else (object members).get? key read := by
  obtain ⟨name, value⟩ := member
  simp only [get?, List.lookup_cons]
  by_cases h : key = name
  · simp [h]
  · simp [h, beq_false_of_ne h]

@[simp]
theorem hasKeys_object (members : List (String × Json)) (keys : List String) :
    (object members).hasKeys keys = (members.map Prod.fst = keys) := by
  simp [hasKeys]

@[simp]
theorem text?_text (value : String) : (text value).text? = some value := rfl

@[simp]
theorem number?_number (value : Nat) : (number value).number? = some value := rfl

@[simp]
theorem flag?_flag (value : Bool) : (flag value).flag? = some value := rfl

end Json

/-- The kind of a name. -/
def ActionKind.ofName? : String → Option ActionKind
  | "strike" => some strike
  | "kick" => some kick
  | "block" => some block
  | _ => none

@[simp]
theorem ActionKind.ofName?_name (kind : ActionKind) : ofName? kind.name = some kind := by
  cases kind <;> rfl

namespace Combat

/-- The reason of a name. -/
def AbortReason.ofName? : String → Option AbortReason
  | "cycle" => some cycle
  | "depth-limit" => some depthLimit
  | "budget" => some budget
  | _ => none

@[simp]
theorem AbortReason.ofName?_name (reason : AbortReason) : ofName? reason.name = some reason := by
  cases reason <;> rfl

/-! ### The rounds of turn starts -/

/-- A record whose turn, if it is the start of one, starts in the round of the record. -/
def Record.told (r : Record) : Record :=
  { r with event := r.event.inRound r.round }

/-- If a record is the start of a turn, it carries the round of the record. -/
def Record.Timely (r : Record) : Prop :=
  ∀ actor round, r.event = .deed actor (.startTurn round) → round = r.round

/-- A record is told in full if a start of a turn is told in the round it belongs to. -/
theorem Record.Timely.told_eq {r : Record} (h : r.Timely) : r.told = r := by
  obtain ⟨id, round, event⟩ := r
  cases event with
  | deed actor deed =>
    cases deed with
    | startTurn started => rw [h actor started rfl]; rfl
    | _ => rfl
  | combatEnd fighterA fighterB outcome => rfl

end Combat

namespace Report

open Combat Json

/-! ### Reading records and results -/

/-- The quantity that a value is. -/
def quantityOf? (v : Json) : Option Quantity :=
  v.number?.bind Quantity.ofNat?

/-- The contender that an object tells of. -/
def snapshotOf? (v : Json) : Option Snapshot := do
  if v.hasKeys ["name", "hp", "stamina", "hp_max", "stamina_max"] then
    return ⟨← v.get? "name" text?, ← v.get? "hp" quantityOf?, ← v.get? "stamina" quantityOf?,
      ← v.get? "hp_max" quantityOf?, ← v.get? "stamina_max" quantityOf?⟩
  else none

/-- The outcome with the winner of this name, or without a winner for null. -/
def outcomeOf? : Json → Option Outcome
  | .text name => some (.winner name)
  | .null => some .tie
  | _ => none

/-- The type of the name that a value is. -/
def typeOf? (v : Json) : Option EventType :=
  v.text?.bind EventType.ofName?

/-- The kind of the name that a value is. -/
def kindOf? (v : Json) : Option ActionKind :=
  v.text?.bind ActionKind.ofName?

/-- The reason of the name that a value is. -/
def reasonOf? (v : Json) : Option AbortReason :=
  v.text?.bind AbortReason.ofName?

/-- The keys of what the events of a type say for themselves. -/
def eventKeys : EventType → List String
  | .turnStart => ["fighter"]
  | .actionApplied =>
    ["actor", "target", "action", "kind", "damage", "cost", "target_hp", "actor_stamina"]
  | .actionFailed => ["actor", "action", "cost", "stamina"]
  | .comboExecuted => ["actor", "combo", "cost", "actor_stamina"]
  | .comboFallback => ["actor", "combo", "cost", "stamina", "fallback"]
  | .blockUsed => ["actor", "action"]
  | .unknownAction => ["actor", "name"]
  | .comboAborted => ["actor", "combo", "reason"]
  | .combatEnd => ["fighter_a", "fighter_b", "winner"]

/-- The event of a type that an object tells for a round. -/
def eventOf? (v : Json) (round : Nat) : EventType → Option Event
  | .turnStart => do
    return .deed (← v.get? "fighter" text?) (.startTurn round)
  | .actionApplied => do
    return .deed (← v.get? "actor" text?)
      (.applyAction (← v.get? "target" text?) (← v.get? "action" text?) (← v.get? "kind" kindOf?)
        (← v.get? "damage" quantityOf?) (← v.get? "cost" quantityOf?)
        (← v.get? "target_hp" quantityOf?) (← v.get? "actor_stamina" quantityOf?))
  | .actionFailed => do
    return .deed (← v.get? "actor" text?)
      (.failAction (← v.get? "action" text?) (← v.get? "cost" quantityOf?)
        (← v.get? "stamina" quantityOf?))
  | .comboExecuted => do
    return .deed (← v.get? "actor" text?)
      (.executeCombo (← v.get? "combo" text?) (← v.get? "cost" quantityOf?)
        (← v.get? "actor_stamina" quantityOf?))
  | .comboFallback => do
    return .deed (← v.get? "actor" text?)
      (.fallBack (← v.get? "combo" text?) (← v.get? "cost" quantityOf?)
        (← v.get? "stamina" quantityOf?) (← v.get? "fallback" text?))
  | .blockUsed => do
    return .deed (← v.get? "actor" text?) (.useBlock (← v.get? "action" text?))
  | .unknownAction => do
    return .deed (← v.get? "actor" text?) (.failName (← v.get? "name" text?))
  | .comboAborted => do
    return .deed (← v.get? "actor" text?)
      (.abortCombo (← v.get? "combo" text?) (← v.get? "reason" reasonOf?))
  | .combatEnd => do
    return .combatEnd (← v.get? "fighter_a" snapshotOf?) (← v.get? "fighter_b" snapshotOf?)
      (← v.get? "winner" outcomeOf?)

/-- The record that an object tells. -/
def recordOf? (v : Json) : Option Record := do
  let type ← v.get? "type" typeOf?
  if v.hasKeys ("id" :: "round" :: "type" :: eventKeys type) then
    let round ← v.get? "round" number?
    return ⟨← v.get? "id" number?, round, ← eventOf? v round type⟩
  else none

/-- The result that an object tells. -/
def resultOf? (v : Json) : Option Result := do
  if v.hasKeys ["type", "fighter_a", "fighter_b", "winner", "rounds_played", "knockout"] ∧
      v.get? "type" text? = some "result" then
    return ⟨← v.get? "fighter_a" snapshotOf?, ← v.get? "fighter_b" snapshotOf?,
      ← v.get? "winner" outcomeOf?, ← v.get? "rounds_played" number?, ← v.get? "knockout" flag?⟩
  else none

/-! ### What is written is read -/

@[simp]
theorem quantityOf?_quantityData (q : Quantity) : quantityOf? (quantityData q) = some q :=
  Quantity.ofNat?_eq_some_iff.mpr rfl

@[simp]
theorem snapshotOf?_snapshotData (s : Snapshot) : snapshotOf? (snapshotData s) = some s := by
  simp [snapshotOf?, snapshotData]

@[simp]
theorem outcomeOf?_outcomeData (o : Outcome) : outcomeOf? (outcomeData o) = some o := by
  cases o <;> rfl

@[simp]
theorem typeOf?_text_name (type : EventType) : typeOf? (.text type.name) = some type :=
  EventType.ofName?_name type

@[simp]
theorem kindOf?_text_name (kind : ActionKind) : kindOf? (.text kind.name) = some kind :=
  kind.ofName?_name

@[simp]
theorem reasonOf?_text_name (reason : AbortReason) :
    reasonOf? (.text reason.name) = some reason :=
  reason.ofName?_name

/-- What an event says for itself has the keys of its type. -/
theorem map_fst_eventMembers (e : Event) :
    (eventMembers e).map Prod.fst = eventKeys e.type := by
  cases e with
  | deed actor deed => cases deed <;> rfl
  | combatEnd fighterA fighterB outcome => rfl

/-- From what is written for a record its event is read, for the round of the record. -/
theorem eventOf?_recordData (r : Record) :
    eventOf? (recordData r) r.round r.event.type = some (r.event.inRound r.round) := by
  obtain ⟨id, round, event⟩ := r
  cases event with
  | deed actor deed =>
    -- each part is found under its key, behind the parts that are written before it
    cases deed <;>
      simp [recordData, eventMembers, deedMembers, Event.type, Deed.type, eventOf?, Event.inRound]
  | combatEnd fighterA fighterB outcome =>
    simp [recordData, eventMembers, Event.type, eventOf?, Event.inRound]

/-- From what is written for a record it is read. -/
theorem recordOf?_recordData (r : Record) : recordOf? (recordData r) = some r.told := by
  have hkeys : (recordData r).hasKeys ("id" :: "round" :: "type" :: eventKeys r.event.type)
      = true := by
    simp [recordData, map_fst_eventMembers]
  have htype : (recordData r).get? "type" typeOf? = some r.event.type := by simp [recordData]
  have hround : (recordData r).get? "round" number? = some r.round := by simp [recordData]
  have hid : (recordData r).get? "id" number? = some r.id := by simp [recordData]
  simp [recordOf?, htype, hkeys, hround, hid, eventOf?_recordData, Record.told]

/-- From what is written for a result it is read. -/
theorem resultOf?_resultData (r : Result) : resultOf? (resultData r) = some r := by
  simp [resultOf?, resultData]

/-! ### Lines of data -/

/-- A text is a line that tells something: it has no control characters, and it is decoded to an
object from which that is read. -/
structure Line {α : Type} (read : Json → Option α) (line : String) (told : α) : Prop where
  noControl : ∀ c ∈ line.toList, isControl c = false
  decoded : ∃ members, decode line = some (.object members) ∧ read (.object members) = some told

theorem line_render {α : Type} {read : Json → Option α} {members : List (String × Json)} {told : α}
    (h : read (.object members) = some told) : Line read (Json.object members).render told where
  noControl := isControl_of_mem_render _
  decoded := ⟨members, decode_render _, h⟩

theorem line_recordData (r : Record) : Line recordOf? (recordData r).render r.told :=
  line_render (recordOf?_recordData r)

theorem line_resultData (r : Result) : Line resultOf? (resultData r).render r :=
  line_render (resultOf?_resultData r)

/-- Records are written as an array, on one line or on several. -/
theorem decode_recordsData (pretty : Bool) (rs : List Record) :
    decode (recordsData pretty rs) = some (.array (rs.map recordData)) := by
  cases pretty with
  | false => exact decode_render _
  | true =>
    have hgap : Blank ['\n', ' ', ' '] := by simp [Blank, isBlank]
    have hgap' : Blank ['\n'] := by simp [Blank, isBlank]
    refine decode_array hgap hgap' ?_
    simp [recordsData, String.toList_intercalate, Function.comp_def]

theorem outcomeData_eq_null_iff {o : Outcome} : outcomeData o = .null ↔ o = .tie := by
  cases o <;> simp [outcomeData]

/-- What is written for records whose turns start in their own rounds tells them apart. -/
theorem eq_of_render_recordData_eq {r r' : Record} (hr : r.Timely) (hr' : r'.Timely)
    (h : (recordData r).render = (recordData r').render) : r = r' := by
  have htold : some r.told = some r'.told := by
    rw [← recordOf?_recordData, ← recordOf?_recordData, render_injective h]
  rw [← hr.told_eq, Option.some.inj htold, hr'.told_eq]

/-- As data, a fight is printed with a line for each record that passes the filter, unless these are
left out, and one for the result. -/
theorem lines_of_data {rendering : Rendering} (h : rendering.format = .data) (f : Finished) :
    rendering.lines f
      = (if rendering.quiet then []
          else (f.log.records.filter rendering.filter.passes).map fun r => (recordData r).render)
        ++ [(resultData f.result).render] := by
  have hrecord : rendering.record = fun r => (recordData r).render := by
    funext r
    rw [Rendering.record, h]
  simp [Rendering.lines, Rendering.result, Filter.apply, h, hrecord]

/-- What is told as data is what was recorded. A record is one line of an object from which the
record is read, but for the round of a turn's start, and so is a result; there is no winner exactly
in a tie. Several records are an array of what they are by themselves, also where each has a line of
its own. Records whose turns start in their own rounds are told apart. A fight is told in a line for
every record that passes the filter, in their order, unless only the result is asked for, and then a
line for the result. -/
theorem data_read_back :
    (∀ r : Record, Line recordOf? (recordData r).render r.told) ∧
    (∀ r : Result, Line resultOf? (resultData r).render r) ∧
    (∀ id round fighterA fighterB outcome,
      (decode (recordData ⟨id, round, .combatEnd fighterA fighterB outcome⟩).render).bind
        (·.get? "winner" some) = some .null ↔ outcome = .tie) ∧
    (∀ r : Result,
      (decode (resultData r).render).bind (·.get? "winner" some) = some .null ↔
        r.outcome = .tie) ∧
    (∀ pretty (rs : List Record), ∃ items, decode (recordsData pretty rs) = some (.array items) ∧
      List.Forall₂ (fun r item => decode (recordData r).render = some item ∧
        recordOf? item = some r.told) rs items) ∧
    (∀ r r' : Record, r.Timely → r'.Timely →
      (recordData r).render = (recordData r').render → r = r') ∧
    ∀ (rendering : Rendering) (f : Finished), rendering.format = .data →
      rendering.lines f
        = (if rendering.quiet then []
            else (f.log.records.filter rendering.filter.passes).map fun r => (recordData r).render)
          ++ [(resultData f.result).render] := by
  refine ⟨line_recordData, line_resultData, fun id round a b outcome => ?_, fun r => ?_,
    fun pretty rs => ⟨_, decode_recordsData pretty rs, ?_⟩,
    fun _ _ => eq_of_render_recordData_eq, fun _ f hformat => lines_of_data hformat f⟩
  · rw [decode_render]
    simp [recordData, eventMembers, outcomeData_eq_null_iff]
  · rw [decode_render]
    simp [resultData, outcomeData_eq_null_iff]
  · rw [List.forall₂_map_right_iff]
    exact List.forall₂_same.mpr fun r _ => ⟨decode_render _, recordOf?_recordData r⟩

/-- A name with a line feed and one with a backslash in its place are told apart, and a quiet run
prints the result alone. -/
theorem data_read_back_escapes :
    let r : Record := ⟨0, 1, .deed "Ana\n" (.startTurn 1)⟩
    let r' : Record := ⟨0, 1, .deed "Ana\\n" (.startTurn 1)⟩
    let rendering : Rendering := { format := .data, quiet := true }
    let s : Snapshot := ⟨"\"Ana\"", 0, 1, 2, 3⟩
    let f : Finished := ⟨.empty, ⟨s, s, .tie, 1, true⟩⟩
    r.Timely ∧ r'.Timely ∧ (recordData r).render ≠ (recordData r').render ∧
      rendering.format = .data ∧ rendering.lines f = [(resultData f.result).render] := by
  intro r r' rendering s f
  have hr : r.Timely := by rintro _ _ ⟨⟩; rfl
  have hr' : r'.Timely := by rintro _ _ ⟨⟩; rfl
  obtain ⟨-, -, -, -, -, hinjective, hlines⟩ := data_read_back
  have hne : r ≠ r' := by decide
  exact ⟨hr, hr', fun h => hne (hinjective r r' hr hr' h), rfl, hlines rendering f rfl⟩

end Report

end Lucha
