import Lucha.Proofs.Registry
import Lucha.Proofs.Text.Trim
import Lucha.Report.Filter

/-!
# What filters let pass

A filter is made from a list of event types and then from what is added to it, type by type and
fighter by fighter. The names in a list are the texts between its commas without the white space
around them (`Filter.mem_namesIn_iff`), and the first of them that names no type is what the list is
refused for (`Filter.ofTypes_eq_error_iff`). Whatever is added in whatever order, the filter is the
sets of what was added (`Filter.contains_of_additions`), so only these sets decide about a record
(`Filter.passes_what_was_added`).
-/

namespace Lucha.Report

open Combat
open Text (Trims)

/-! ### Names of types -/

/-- A type of events has the name. -/
def IsTypeName (name : String) : Prop :=
  ∃ type : EventType, type.name = name

/-- A type is looked up under its own name only. -/
theorem ofName?_eq_none_iff {name : String} :
    EventType.ofName? name = none ↔ ¬ IsTypeName name := by
  constructor
  · rintro h ⟨type, rfl⟩
    exact Option.some_ne_none type ((EventType.ofName?_name type).symm.trans h)
  · intro h
    cases htype : EventType.ofName? name with
    | none => rfl
    | some type =>
      have hname := List.find?_some htype
      exact absurd ⟨type, beq_iff_eq.mp hname⟩ h

namespace Filter

theorem withType_of_isTypeName {name : String} (h : IsTypeName name) (f : Filter) :
    f.withType name = .ok { f with types := f.types.insert name () } := by
  obtain ⟨type, rfl⟩ := h
  rw [withType, EventType.ofName?_name]

theorem withType_of_not_isTypeName {name : String} (h : ¬ IsTypeName name) (f : Filter) :
    f.withType name = .error ⟨name⟩ := by
  rw [withType, ofName?_eq_none_iff.mpr h]

/-! ### Lists of types -/

/-- A name is in a list: it is what is left of a text between commas without the white space at its
ends, and it is not empty. -/
def Lists (list name : String) : Prop :=
  name ≠ "" ∧ ∃ piece ∈ list.toList.splitOn ',', Trims piece name.toList

/-- The name is what is left of the first text between commas that is neither white space nor the
name of a type. -/
def FirstUnknown (list name : String) : Prop :=
  ∃ earlier piece later, list.toList.splitOn ',' = earlier ++ piece :: later ∧
    (Trims piece name.toList ∧ name ≠ "" ∧ ¬ IsTypeName name) ∧
    ∀ other ∈ earlier, ∀ known : String, Trims other known.toList → known ≠ "" → IsTypeName known

/-- The name in a text between commas, unless that is white space. -/
private def nameIn? (piece : List Char) : Option String :=
  if (Text.trim piece).isEmpty then none else some (String.ofList (Text.trim piece))

/-- A piece of a list names what is left of it without white space at its ends, if anything is. -/
private theorem nameIn?_eq_some_iff {piece : List Char} {name : String} :
    nameIn? piece = some name ↔ Trims piece name.toList ∧ name ≠ "" := by
  rw [nameIn?, ← Text.trim_eq_iff]
  constructor
  · intro h
    split at h
    · cases h
    · rename_i hne
      cases h
      refine ⟨String.toList_ofList.symm, fun heq => hne ?_⟩
      rw [← String.toList_ofList (l := Text.trim piece), heq]
      rfl
  · rintro ⟨htrim, hne⟩
    have hfull : ¬ (name.toList.isEmpty = true) := by simpa using hne
    rw [htrim, if_neg hfull, String.ofList_toList]

private theorem namesIn_eq (list : String) :
    namesIn list = (list.toList.splitOn ',').filterMap nameIn? := by
  rw [namesIn, Text.splitAt_eq_splitOn, List.filterMap_map]
  rfl

/-- The names in a list are what stands between its commas, without the white space around. -/
theorem mem_namesIn_iff {list name : String} : name ∈ namesIn list ↔ Lists list name := by
  rw [namesIn_eq, List.mem_filterMap]
  simp only [nameIn?_eq_some_iff, Lists]
  constructor
  · rintro ⟨piece, hpiece, htrims, hne⟩
    exact ⟨hne, piece, hpiece, htrims⟩
  · rintro ⟨hne, piece, hpiece, htrims⟩
    exact ⟨piece, hpiece, htrims, hne⟩

end Filter

/-! ### Additions -/

/-- What is added to a filter. -/
inductive Addition where
  | type (name : String)
  | fighter (name : String)
deriving DecidableEq

namespace Filter

/-- The filter with an addition, unless that is a type there is not. -/
def add (f : Filter) : Addition → Except UnknownEventType Filter
  | .type name => f.withType name
  | .fighter name => .ok (f.withFighter name)

variable {f g : Filter} {additions : List Addition} {list : String}

/-- One addition puts its name into the set it belongs to. -/
theorem contains_of_add {a : Addition} (h : f.add a = .ok g) (name : String) :
    (g.types.contains name = true ↔ .type name = a ∨ f.types.contains name = true) ∧
      (g.fighters.contains name = true ↔ .fighter name = a ∨ f.fighters.contains name = true) := by
  cases a with
  | type added =>
    by_cases hknown : IsTypeName added
    · cases (withType_of_isTypeName hknown f).symm.trans h
      simp [Table.contains_insert]
    · cases (withType_of_not_isTypeName hknown f).symm.trans h
  | fighter added =>
    cases h
    simp [withFighter, Table.contains_insert]

/-- The sets of a filter are what was there and what was added. -/
theorem contains_of_additions (h : additions.foldlM add f = .ok g) (name : String) :
    (g.types.contains name = true ↔ .type name ∈ additions ∨ f.types.contains name = true) ∧
      (g.fighters.contains name = true ↔
        .fighter name ∈ additions ∨ f.fighters.contains name = true) := by
  induction additions generalizing f with
  | nil =>
    cases h
    simp
  | cons a additions ih =>
    obtain ⟨mid, hadd, hrest⟩ := foldlM_cons_eq_ok_iff.mp h
    obtain ⟨htypes, hfighters⟩ := contains_of_add hadd name
    obtain ⟨htypes', hfighters'⟩ := ih hrest
    rw [htypes', hfighters', htypes, hfighters, List.mem_cons, List.mem_cons]
    exact ⟨or_left_comm.trans or_assoc.symm, or_left_comm.trans or_assoc.symm⟩

/-- Additions are accepted if all types are there. -/
theorem exists_of_additions_iff : (∃ g, additions.foldlM add f = .ok g) ↔
    ∀ name, .type name ∈ additions → IsTypeName name := by
  induction additions generalizing f with
  | nil => simp [pure, Except.pure]
  | cons a additions ih =>
    simp only [foldlM_cons_eq_ok_iff]
    cases a with
    | fighter added =>
      simp only [add, Except.ok.injEq, exists_eq_left', ih]
      simp
    | type added =>
      by_cases hknown : IsTypeName added
      · simp [add, withType_of_isTypeName hknown, hknown, ih]
      · simp [add, withType_of_not_isTypeName hknown, hknown]

private theorem foldlM_withType (f : Filter) (names : List String) :
    names.foldlM withType f = (names.map .type).foldlM add f := by
  rw [List.foldlM_map]
  rfl

theorem exists_foldlM_withType_iff {names : List String} :
    (∃ g, names.foldlM withType f = .ok g) ↔ ∀ name ∈ names, IsTypeName name := by
  rw [foldlM_withType, exists_of_additions_iff]
  simp

/-- Types are added one after the other up to the first that there is not. -/
private theorem foldlM_withType_eq_error_iff {names : List String} {name : String} :
    names.foldlM withType f = .error ⟨name⟩ ↔ ∃ earlier later, names = earlier ++ name :: later ∧
      ¬ IsTypeName name ∧ ∀ known ∈ earlier, IsTypeName known := by
  rw [foldlM_eq_error_iff]
  constructor
  · rintro ⟨earlier, item, later, mid, rfl, hearlier, hitem⟩
    by_cases hknown : IsTypeName item
    · cases (withType_of_isTypeName hknown mid).symm.trans hitem
    · cases (withType_of_not_isTypeName hknown mid).symm.trans hitem
      exact ⟨earlier, later, rfl, hknown, exists_foldlM_withType_iff.mp ⟨mid, hearlier⟩⟩
  · rintro ⟨earlier, later, rfl, hunknown, hearlier⟩
    obtain ⟨mid, hmid⟩ := exists_foldlM_withType_iff.mpr hearlier
    exact ⟨earlier, name, later, mid, rfl, hmid, withType_of_not_isTypeName hunknown mid⟩

/-- A list is refused for the first name in it that is not the name of a type. -/
theorem ofTypes_eq_error_iff {name : String} :
    ofTypes list = .error ⟨name⟩ ↔ FirstUnknown list name := by
  rw [ofTypes, foldlM_withType_eq_error_iff, namesIn_eq]
  constructor
  · rintro ⟨earlier, later, hnames, hunknown, hearlier⟩
    obtain ⟨front, rest, hsplit, rfl, hrest⟩ := List.filterMap_eq_append_iff.mp hnames
    obtain ⟨blank, piece, later, rfl, hblank, hpiece, -⟩ := List.filterMap_eq_cons_iff.mp hrest
    obtain ⟨htrims, hne⟩ := nameIn?_eq_some_iff.mp hpiece
    refine ⟨front ++ blank, piece, later, ?_, ⟨htrims, hne, hunknown⟩,
      fun other hother known htrims hne => ?_⟩
    · rw [hsplit, List.append_assoc]
    · have hknown := nameIn?_eq_some_iff.mpr ⟨htrims, hne⟩
      obtain hfront | hmem := List.mem_append.mp hother
      · exact hearlier known (List.mem_filterMap.mpr ⟨other, hfront, hknown⟩)
      · cases (hblank other hmem).symm.trans hknown
  · rintro ⟨earlier, piece, later, hsplit, ⟨htrims, hne, hunknown⟩, hearlier⟩
    have hpiece := nameIn?_eq_some_iff.mpr ⟨htrims, hne⟩
    refine ⟨earlier.filterMap nameIn?, later.filterMap nameIn?, ?_, hunknown, fun known hmem => ?_⟩
    · rw [hsplit, List.filterMap_append, List.filterMap_cons_some hpiece]
    · obtain ⟨other, hother, hknown⟩ := List.mem_filterMap.mp hmem
      obtain ⟨htrims, hne⟩ := nameIn?_eq_some_iff.mp hknown
      exact hearlier other hother known htrims hne

/-- A list is refused if a name in it is not the name of a type. -/
theorem exists_ofTypes_eq_error_iff :
    (∃ e, ofTypes list = .error e) ↔ ∃ name, Lists list name ∧ ¬ IsTypeName name := by
  have haccepted : (∃ f, ofTypes list = .ok f) ↔ ∀ name, Lists list name → IsTypeName name := by
    simp only [← mem_namesIn_iff]
    exact exists_foldlM_withType_iff
  have hrefused : (∃ e, ofTypes list = .error e) ↔ ¬ ∃ f, ofTypes list = .ok f := by
    cases ofTypes list <;> simp
  rw [hrefused, haccepted]
  simp

/-! ### Filters that are made -/

/-- The filter is made from a list and then from additions. -/
def Made (list : String) (additions : List Addition) (g : Filter) : Prop :=
  ∃ f, ofTypes list = .ok f ∧ additions.foldlM add f = .ok g

/-- A type is named in the list or added. -/
def NamesType (list : String) (additions : List Addition) (name : String) : Prop :=
  Lists list name ∨ .type name ∈ additions

/-- A record passes where some types and some fighters are named: its type is named or none is, and
so is the fighter whose deed it is, if it is anybody's. -/
def PassesFor (types fighters : String → Prop) (r : Record) : Prop :=
  ((∀ name, ¬ types name) ∨ types r.event.type.name) ∧
    ((∀ name, ¬ fighters name) ∨ r.event.actor? = none ∨
      ∃ actor, r.event.actor? = some actor ∧ fighters actor)

/-- A filter that is made from a list is made from nothing by additions. -/
theorem made_iff : Made list additions g ↔
    ((namesIn list).map Addition.type ++ additions).foldlM add {} = .ok g := by
  rw [Made, ofTypes, foldlM_withType, List.foldlM_append]
  cases ((namesIn list).map Addition.type).foldlM add {} <;> simp [bind, Except.bind]

theorem exists_made_iff :
    (∃ g, Made list additions g) ↔ ∀ name, NamesType list additions name → IsTypeName name := by
  simp only [made_iff, exists_of_additions_iff, List.mem_append, List.mem_map, mem_namesIn_iff,
    NamesType]
  simp

/-- The sets of a filter are those of what was named. -/
theorem Made.contains_iff (h : Made list additions g) (name : String) :
    (g.types.contains name = true ↔ NamesType list additions name) ∧
      (g.fighters.contains name = true ↔ .fighter name ∈ additions) := by
  obtain ⟨htypes, hfighters⟩ := contains_of_additions (made_iff.mp h) name
  rw [htypes, hfighters]
  simp [NamesType, mem_namesIn_iff, Table.contains]

/-- What a filter lets pass is said by the names in its sets. -/
theorem passes_iff {r : Record} : g.passes r = true ↔
    PassesFor (g.types.contains · = true) (g.fighters.contains · = true) r := by
  rw [passes, PassesFor]
  cases r.event.actor? <;> simp [Table.size_eq_zero_iff]

/-- A filter that is made lets a record pass for what was named. -/
theorem Made.passes_iff (h : Made list additions g) (r : Record) :
    g.passes r = true ↔ PassesFor (NamesType list additions) (.fighter · ∈ additions) r := by
  have htypes := funext fun name => propext (h.contains_iff name).1
  have hfighters := funext fun name => propext (h.contains_iff name).2
  rw [Filter.passes_iff, htypes, hfighters]

/-- Sets of the same names are the same. -/
theorem nameSet_ext {s t : NameSet}
    (h : ∀ name, s.contains name = true ↔ t.contains name = true) : s = t := by
  refine Table.ext_find? fun name => ?_
  have hsome := h name
  simp only [Table.contains] at hsome
  cases hs : s.find? name <;> cases ht : t.find? name <;> simp_all

/-- Filters that are made by naming the same are the same. -/
theorem Made.unique {list' : String} {additions' : List Addition} {g' : Filter}
    (h : Made list additions g) (h' : Made list' additions' g')
    (htypes : ∀ name, NamesType list additions name ↔ NamesType list' additions' name)
    (hfighters : ∀ name, .fighter name ∈ additions ↔ .fighter name ∈ additions') : g = g' := by
  have htypes' : g.types = g'.types := nameSet_ext fun name =>
    (h.contains_iff name).1.trans ((htypes name).trans (h'.contains_iff name).1.symm)
  have hfighters' : g.fighters = g'.fighters := nameSet_ext fun name =>
    (h.contains_iff name).2.trans ((hfighters name).trans (h'.contains_iff name).2.symm)
  cases g
  cases g'
  simp_all

open Classical in
/-- A list is refused if a text between its commas is neither white space nor the name of a type,
and for the first of these. Otherwise types and fighters can be added to its filter, which is
accepted if the types are there. The filter lets a record pass if its type was named or none was,
and so was the fighter whose deed it is, if it is anybody's; applied to some records it keeps those
in their order. Where the same was named, in whatever order and however often, the filters are the
same. -/
theorem passes_what_was_added (list : String) :
    (∀ name, ofTypes list = .error ⟨name⟩ ↔ FirstUnknown list name) ∧
    ((∃ e, ofTypes list = .error e) ↔ ∃ name, Lists list name ∧ ¬ IsTypeName name) ∧
    ∀ additions,
      ((∃ g, Made list additions g) ↔ ∀ name, NamesType list additions name → IsTypeName name) ∧
      ∀ g, Made list additions g →
        (∀ r, g.passes r = true ↔
          PassesFor (NamesType list additions) (.fighter · ∈ additions) r) ∧
        (∀ records, g.apply records = records.filter fun r =>
          PassesFor (NamesType list additions) (.fighter · ∈ additions) r) ∧
        ∀ list' additions' g', Made list' additions' g' →
          (∀ name, NamesType list additions name ↔ NamesType list' additions' name) →
          (∀ name, .fighter name ∈ additions ↔ .fighter name ∈ additions') → g = g' := by
  refine ⟨fun _ => ofTypes_eq_error_iff, exists_ofTypes_eq_error_iff, fun additions =>
    ⟨exists_made_iff, fun g h => ⟨h.passes_iff, fun records => ?_, fun _ _ _ => h.unique⟩⟩⟩
  refine List.filter_congr fun r _ => ?_
  rw [Bool.eq_iff_iff, h.passes_iff r, decide_eq_true_iff]

/-- Blank texts between commas are no names, and the first name that is unknown is told. -/
example : ofTypes " , block-used\t, punch,,kick" = .error ⟨"punch"⟩ :=
  rfl

end Filter

end Lucha.Report
