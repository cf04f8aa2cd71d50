import Lucha.Proofs.Combat.Structure

/-!
# Chains of fallbacks

A combo that cannot be paid for falls back to its first step, and if that is a combo again, a chain
of fallbacks begins. The deeds of a turn show the chains (`Linked`): after a fallback comes a deed
about its step, the combos of a chain are distinct, they fall back with the same stamina, and a
combo is abandoned for a cycle only if it is on the chain that leads to it. What comes of a name is
linked (`Resolves.linked`), by induction on how it comes of it, with the chain that leads to the
name as the invariant; so are the deeds of a turn, also where the budget breaks them off
(`Structured.linked`).
-/

namespace Lucha.Combat

/-! ### Fallbacks that follow each other -/

/-- The name that a deed is about: that of an action or a combo, or one that is neither. -/
def Deed.name? : Deed → Option String
  | .startTurn _ => none
  | .applyAction _ action .. => some action
  | .failAction action .. => some action
  | .executeCombo combo .. => some combo
  | .fallBack combo .. => some combo
  | .useBlock action => some action
  | .failName name => some name
  | .abortCombo combo _ => some combo

theorem Deed.name?_of_combo? {deed : Deed} {combo : String} (h : deed.combo? = some combo) :
    deed.name? = some combo := by
  cases deed <;> first | exact h | cases h

/-- What is told of a combo that cannot be paid for. -/
structure Fallback where
  combo : String
  cost : Quantity
  stamina : Quantity
  /-- The first step of the combo, which is done instead. -/
  step : String

/-- The deed that tells of a fallback. -/
def Fallback.deed (b : Fallback) : Deed :=
  .fallBack b.combo b.cost b.stamina b.step

/-- The deeds go on from a chain of fallbacks, the latest first, and each fallback among them is
followed by a deed about its step. The combos of a chain are distinct, they fall back with the same
stamina, and a combo that is abandoned for a cycle is on the chain. -/
inductive Linked : List Fallback → List Deed → Prop
  | nil : Linked [] []
  | fallBack {chain : List Fallback} {b : Fallback} {deeds : List Deed}
      (hlast : ∀ last ∈ chain.head?, last.step = b.combo)
      (hnew : ∀ other ∈ chain, other.combo ≠ b.combo ∧ other.stamina = b.stamina)
      (h : Linked (b :: chain) deeds) : Linked chain (b.deed :: deeds)
  | other {chain : List Fallback} {deed : Deed} {deeds : List Deed}
      (htype : deed.type ≠ .comboFallback)
      (hlast : ∀ last ∈ chain.head?, deed.name? = some last.step)
      (hcycle : ∀ combo, deed = .abortCombo combo .cycle → ∃ b ∈ chain, b.combo = combo)
      (h : Linked [] deeds) : Linked chain (deed :: deeds)

namespace Linked

variable {chain : List Fallback} {deeds : List Deed}

/-- Deeds that go on from a chain and then from another one. -/
theorem exists_of_append {earlier later : List Deed} (h : Linked chain (earlier ++ later)) :
    ∃ chain', Linked chain' later := by
  induction earlier generalizing chain with
  | nil => exact ⟨chain, h⟩
  | cons deed earlier ih =>
    cases h with
    | fallBack _ _ h => exact ih h
    | other _ _ _ h => exact ih h

/-- Where the deeds go on with a fallback, that continues the chain. -/
theorem of_fallback {b : Fallback} (h : Linked chain (b.deed :: deeds)) :
    (∀ last ∈ chain.head?, last.step = b.combo) ∧
      (∀ other ∈ chain, other.combo ≠ b.combo ∧ other.stamina = b.stamina) ∧
        Linked (b :: chain) deeds := by
  generalize hdeed : b.deed = deed at h
  cases h with
  | fallBack hlast hnew h =>
    obtain ⟨combo, cost, stamina, step⟩ := b
    cases hdeed
    exact ⟨hlast, hnew, h⟩
  | other htype => exact absurd (hdeed ▸ rfl) htype

/-- A fallback is not the last deed: the next one is about its step. -/
theorem exists_next {b : Fallback} (h : Linked (b :: chain) deeds) :
    ∃ next rest, deeds = next :: rest ∧ next.name? = some b.step := by
  cases h with
  | fallBack hlast _ _ => exact ⟨_, _, rfl, congrArg some (hlast b rfl).symm⟩
  | other _ hlast _ _ => exact ⟨_, _, rfl, hlast b rfl⟩

/-- Fallbacks that come one after the other are of distinct combos, with the same stamina, and each
leads to the next. -/
theorem of_run {run : List Fallback} (h : Linked chain (run.map Fallback.deed ++ deeds)) :
    (∀ last ∈ chain.head?, ∀ b ∈ run.head?, last.step = b.combo) ∧
      (∀ other ∈ chain, ∀ b ∈ run, other.combo ≠ b.combo ∧ other.stamina = b.stamina) ∧
        run.Pairwise (fun b b' => b.combo ≠ b'.combo ∧ b.stamina = b'.stamina) ∧
          run.IsChain fun b next => b.step = next.combo := by
  induction run generalizing chain with
  | nil => simp
  | cons b run ih =>
    obtain ⟨hlast, hnew, hrest⟩ := of_fallback h
    obtain ⟨hnext, hlater, hdistinct, hchain⟩ := ih hrest
    refine ⟨fun last hmem b' hb' => ?_, fun other hother => ?_, ?_, ?_⟩
    · cases hb'
      exact hlast last hmem
    · exact List.forall_mem_cons.mpr ⟨hnew other hother,
        hlater other (List.mem_cons_of_mem b hother)⟩
    · exact List.pairwise_cons.mpr ⟨hlater b List.mem_cons_self, hdistinct⟩
    · exact List.isChain_cons.mpr ⟨hnext b rfl, hchain⟩

/-- Where the budget breaks off linked deeds, they stay linked. -/
theorem breakOff {done rest : List Deed} {next : Deed} {combo : String}
    (h : Linked chain (done ++ next :: rest)) (hcombo : next.combo? = some combo) :
    Linked chain (done ++ [.abortCombo combo .budget]) := by
  induction done generalizing chain with
  | nil =>
    have hname : ∀ last ∈ chain.head?, some combo = some last.step := by
      rw [← Deed.name?_of_combo? hcombo]
      generalize hdeeds : next :: rest = deeds at h
      cases h with
      | nil => cases hdeeds
      | fallBack hlast =>
        cases hdeeds
        exact fun last hmem => congrArg some (hlast last hmem).symm
      | other _ hlast =>
        cases hdeeds
        exact hlast
    exact .other (by simp [Deed.type]) hname (by simp) .nil
  | cons deed done ih =>
    cases h with
    | fallBack hlast hnew h => exact .fallBack hlast hnew (ih h)
    | other htype hlast hcycle h => exact .other htype hlast hcycle (ih h)

end Linked

/-! ### What comes of a name is linked -/

/-- A chain of fallbacks of some combos leads to a name where there is so much stamina. -/
structure LeadsTo (combos : List String) (name : String) (stamina : Quantity)
    (chain : List Fallback) : Prop where
  combos : chain.map Fallback.combo = combos
  last : ∀ last ∈ chain.head?, last.step = name
  stamina : ∀ b ∈ chain, b.stamina = stamina

namespace LeadsTo

variable {combos : List String} {name : String} {stamina : Quantity} {chain : List Fallback}

theorem nil (name : String) (stamina : Quantity) : LeadsTo [] name stamina [] :=
  ⟨rfl, by simp, by simp⟩

/-- A deed about the name goes on from the chain and closes it. -/
theorem close (h : LeadsTo combos name stamina chain) {deed : Deed}
    (htype : deed.type ≠ .comboFallback) (hname : deed.name? = some name)
    (hcycle : ∀ combo, deed = .abortCombo combo .cycle → combo ∈ combos) {deeds : List Deed}
    (hdeeds : Linked [] deeds) : Linked chain (deed :: deeds) := by
  refine .other htype (fun last hlast => ?_) (fun combo heq => ?_) hdeeds
  · rw [hname, h.last last hlast]
  · have hmem := hcycle combo heq
    rw [← h.combos] at hmem
    exact List.mem_map.mp hmem

/-- The fallback of another combo of that name goes on with the chain. -/
theorem fallBack (h : LeadsTo combos name stamina chain) (hnew : name ∉ combos) (cost : Quantity)
    (step : String) {deeds : List Deed}
    (hdeeds : ∀ {chain}, LeadsTo (name :: combos) step stamina chain → Linked chain deeds) :
    Linked chain (.fallBack name cost stamina step :: deeds) := by
  let b : Fallback := ⟨name, cost, stamina, step⟩
  have hleads : LeadsTo (name :: combos) step stamina (b :: chain) :=
    ⟨congrArg (name :: ·) h.combos, by simp [b], List.forall_mem_cons.mpr ⟨rfl, h.stamina⟩⟩
  refine .fallBack (b := b) h.last (fun other hother => ⟨?_, h.stamina other hother⟩)
    (hdeeds hleads)
  rintro rfl
  exact hnew (h.combos ▸ List.mem_map_of_mem hother)

end LeadsTo

section

variable {f : Fighter} {target : String} {limit : Nat}

/-- What comes of an action is about it and no fallback. -/
theorem Standing.name?_attempt (s : Standing) (actor target : String) (a : Action) :
    (s.attempt actor target a).name? = some a.name ∧
      (s.attempt actor target a).type ≠ .comboFallback ∧
        ∀ combo, s.attempt actor target a ≠ .abortCombo combo .cycle := by
  rw [attempt]
  split
  · simp [Deed.name?, Deed.type]
  · split <;> simp [Deed.name?, Deed.type]

mutual

/-- What comes of a name goes on from the chain that leads to it and leaves no chain open. -/
theorem Resolves.linked (hkeyed : f.Keyed) {depth : Nat} {combos : List String} {name : String}
    {s : Standing} {deeds : List Deed} (h : Resolves f target limit depth combos name s deeds)
    {chain : List Fallback} (hchain : LeadsTo combos name (s f.name).stamina chain)
    {more : List Deed} (hmore : Linked [] more) : Linked chain (deeds ++ more) := by
  match h with
  | .tooDeep hc _ =>
    obtain rfl := hkeyed.combos hc
    exact hchain.close (by simp [Deed.type]) rfl (by simp) hmore
  | .paid hc _ _ hsteps =>
    obtain rfl := hkeyed.combos hc
    exact hchain.close (by simp [Deed.type, Standing.execute]) rfl (by simp [Standing.execute])
      (hsteps.linked hkeyed hmore)
  | .fallsBack hc _ _ hnew _ hstep =>
    obtain rfl := hkeyed.combos hc
    exact hchain.fallBack hnew _ _ fun hleads => hstep.linked hkeyed hleads hmore
  | .cycle hc _ _ hmem =>
    obtain rfl := hkeyed.combos hc
    exact hchain.close (by simp [Deed.type]) rfl (fun combo heq => by cases heq; exact hmem) hmore
  | .action ha =>
    obtain ⟨hname, htype, hcycle⟩ := s.name?_attempt f.name target _
    exact hchain.close htype (hname.trans (congrArg some (hkeyed.actions ha.1)))
      (fun combo heq => absurd heq (hcycle combo)) hmore
  | .unknown _ _ => exact hchain.close (by simp [Deed.type]) rfl (by simp) hmore
termination_by structural h

/-- What comes of some names leaves no chain open. -/
theorem ResolvesAll.linked (hkeyed : f.Keyed) {depth : Nat} {names : List String} {s : Standing}
    {deeds : List Deed} (h : ResolvesAll f target limit depth names s deeds) {more : List Deed}
    (hmore : Linked [] more) : Linked [] (deeds ++ more) := by
  match h with
  | .nil => exact hmore
  | .cons hname hnames =>
    rw [List.append_assoc]
    exact hname.linked hkeyed (.nil _ _) (hnames.linked hkeyed hmore)
termination_by structural h

end

/-- What comes of a script leaves no chain open. -/
theorem Follows.linked (hkeyed : f.Keyed) {b : Block} {s : Standing}
    {uses : List (String × List Deed)} (h : Follows f target limit b s uses) {more : List Deed}
    (hmore : Linked [] more) : Linked [] (uses.flatMap Prod.snd ++ more) := by
  induction h generalizing more with
  | done => exact hmore
  | use hname _ ih =>
    rw [List.flatMap_cons, List.append_assoc]
    exact hname.linked hkeyed (.nil _ _) (ih hmore)
  | choose _ _ ihChosen ihNext =>
    rw [List.flatMap_append, List.append_assoc]
    exact ihChosen (ihNext hmore)

end

/-- The deeds of a turn are linked. -/
theorem Structured.linked {rules : Rules} {f : Fighter} {target : String} {round : Nat}
    {script : Block} {s : Standing} {deeds : List Deed} (hkeyed : f.Keyed)
    (h : Structured rules f target round script s deeds) : Linked [] deeds := by
  obtain ⟨acted, uses, rfl, huses, hacted⟩ := h
  have hwhole : Linked [] (uses.flatMap Prod.snd) := by
    simpa using huses.linked hkeyed Linked.nil
  have hlinked : Linked [] acted := by
    obtain ⟨-, rfl⟩ | ⟨done, next, rest, combo, heq, hcombo, rfl, -⟩ := hacted
    · exact hwhole
    · exact (heq ▸ hwhole).breakOff hcombo
  split
  · exact .other (by simp [Deed.type]) (by simp) (by simp) hlinked
  · exact hlinked

/-- The fallbacks among the deeds of a turn make chains. After each of them comes a deed about its
step; and where some come one after the other, they are of distinct combos with the same stamina,
and each leads to the next. -/
structure InChains (deeds : List Deed) : Prop where
  next : ∀ earlier b later, deeds = earlier ++ Fallback.deed b :: later →
    ∃ next rest, later = next :: rest ∧ next.name? = some b.step
  run : ∀ earlier (run : List Fallback) later, deeds = earlier ++ (run.map Fallback.deed ++ later) →
    run.Pairwise (fun b b' => b.combo ≠ b'.combo ∧ b.stamina = b'.stamina) ∧
      run.IsChain fun b next => b.step = next.combo

/-- Deeds that are linked make chains of their fallbacks. -/
theorem Linked.inChains {deeds : List Deed} (h : Linked [] deeds) : InChains deeds where
  next := by
    rintro earlier b later rfl
    obtain ⟨chain, hlinked⟩ := h.exists_of_append
    exact hlinked.of_fallback.2.2.exists_next
  run := by
    rintro earlier run later rfl
    obtain ⟨chain, hlinked⟩ := h.exists_of_append
    exact hlinked.of_run.2.2

end Lucha.Combat
