import Lucha.Table

/-!
# What tables hold

A table *holds* some items when its entries are these items, each once and under its own key, in
whatever order the items come (`Table.Holds`). That fixes the table (`Holds.unique`) and its lookups
(`Holds.find?_eq_some_iff`), and it makes the keys distinct (`Holds.nodup`). `declareAll_eq_ok_iff`
says what a run of declarations does, each of which refuses a key that is taken: it succeeds exactly
if all keys are new and distinct, and then the table holds what was declared.
-/

namespace Lucha

namespace Table

variable {α β : Type}

/-! ### Lookups and entries -/

/-- In a list with ascending keys a value is looked up under a name exactly if the two are in the
list. -/
private theorem lookup_eq_some_iff_mem {name : String} {value : α} {entries : List (String × α)}
    (h : entries.Pairwise fun a b => a.1 < b.1) :
    entries.lookup name = some value ↔ (name, value) ∈ entries := by
  induction entries with
  | nil => simp
  | cons first rest ih =>
    rw [List.lookup_cons, List.mem_cons]
    by_cases hname : name = first.1
    · -- the other keys are greater, so the name is found nowhere else
      have hrest : (name, value) ∉ rest := fun hmem =>
        String.lt_irrefl _ (hname ▸ List.rel_of_pairwise_cons h hmem)
      rw [hname, BEq.rfl]
      simp only [Option.some.injEq]
      constructor
      · rintro rfl
        exact .inl rfl
      · rintro (heq | hmem)
        · rw [← heq]
        · exact absurd (hname ▸ hmem) hrest
    · rw [beq_false_of_ne hname]
      simp only [ih h.of_cons]
      constructor
      · exact .inr
      · rintro (heq | hmem)
        · exact absurd (congrArg Prod.fst heq) hname
        · exact hmem

/-- A value is found under a name if and only if the two are an entry. -/
theorem find?_eq_some_iff_mem (t : Table α) {name : String} {value : α} :
    t.find? name = some value ↔ (name, value) ∈ t.entries :=
  lookup_eq_some_iff_mem t.sorted

/-- A table contains the names under which there is a value. -/
theorem contains_eq_true_iff (t : Table α) {name : String} :
    t.contains name = true ↔ ∃ value, t.find? name = some value :=
  Option.isSome_iff_exists

theorem contains_eq_false_iff (t : Table α) {name : String} :
    t.contains name = false ↔ t.find? name = none := by
  rw [contains, Option.isSome_eq_false_iff, Option.isNone_iff_eq_none]

/-- After an insertion a table contains one name more, if it is new. -/
theorem contains_insert {t : Table α} {name other : String} {value : α} :
    (t.insert other value).contains name = true ↔ name = other ∨ t.contains name = true := by
  rw [contains, find?_insert]
  by_cases h : name = other
  · simp [h]
  · simp [h, contains]

/-- After a change a table contains the name whose value was changed. -/
theorem contains_adjust {t : Table α} {name other : String} {initial : α} {change : α → α} :
    (t.adjust other initial change).contains name = true ↔
      name = other ∨ t.contains name = true :=
  contains_insert

/-- A table without values has none under any name. -/
theorem size_eq_zero_iff {t : Table α} : t.size = 0 ↔ ∀ name, t.contains name = false := by
  simp only [contains_eq_false_iff]
  constructor
  · intro h name
    rw [find?, List.eq_nil_of_length_eq_zero h]
    rfl
  · intro h
    have hempty : t = empty := ext_find? h
    rw [hempty]
    rfl

/-! ### Tables of changed values -/

/-- The table with every value changed. -/
def map (f : α → β) (t : Table α) : Table β where
  entries := t.entries.map fun entry => (entry.1, f entry.2)
  sorted := List.pairwise_map.mpr t.sorted

@[simp]
theorem values_map (f : α → β) (t : Table α) : (t.map f).values = t.values.map f := by
  simp [values, map]

/-- The values of a table may be changed before one is looked up or after. -/
theorem find?_map (f : α → β) (t : Table α) (name : String) :
    (t.map f).find? name = (t.find? name).map f := by
  change (t.entries.map fun entry => (entry.1, f entry.2)).lookup name
    = (t.entries.lookup name).map f
  induction t.entries with
  | nil => rfl
  | cons first rest ih =>
    rw [List.map_cons, List.lookup_cons, List.lookup_cons]
    split
    · rfl
    · exact ih

theorem contains_map (f : α → β) (t : Table α) (name : String) :
    (t.map f).contains name = t.contains name := by
  rw [contains, find?_map, Option.isSome_map, contains]

/-- The values of a table may be changed before one is inserted or after. -/
theorem map_insert (f : α → β) (t : Table α) (name : String) (value : α) :
    (t.insert name value).map f = (t.map f).insert name (f value) := by
  refine ext_find? fun other => ?_
  rw [find?_map, find?_insert, find?_insert, find?_map]
  split <;> rfl

/-! ### Holding items -/

/-- The entries of the table are the items, each once and under its own key. -/
def Holds (t : Table α) (key : α → String) (items : List α) : Prop :=
  t.entries.Perm (items.map fun item => (key item, item))

namespace Holds

variable {t u : Table α} {key : α → String} {items : List α}

theorem empty : (Table.empty : Table α).Holds key [] :=
  .nil

/-- What a table that holds items has under a name is the item with that key. -/
theorem find?_eq_some_iff (h : t.Holds key items) {name : String} {item : α} :
    t.find? name = some item ↔ item ∈ items ∧ key item = name := by
  rw [find?_eq_some_iff_mem, h.mem_iff, List.mem_map]
  constructor
  · rintro ⟨other, hmem, heq⟩
    obtain ⟨hkey, rfl⟩ := Prod.mk.inj heq
    exact ⟨hmem, hkey⟩
  · rintro ⟨hmem, rfl⟩
    exact ⟨item, hmem, rfl⟩

/-- A table that holds items contains their keys. -/
theorem contains_eq_true_iff (h : t.Holds key items) {name : String} :
    t.contains name = true ↔ name ∈ items.map key := by
  rw [Table.contains_eq_true_iff, List.mem_map]
  exact exists_congr fun item => h.find?_eq_some_iff

/-- The keys of what a table holds are distinct. -/
theorem nodup (h : t.Holds key items) : (items.map key).Nodup := by
  have hkeys : (t.entries.map Prod.fst).Nodup :=
    List.pairwise_map.mpr (t.sorted.imp fun {a b} hlt (heq : a.1 = b.1) =>
      String.lt_irrefl _ (heq ▸ hlt))
  have hperm := h.map Prod.fst
  rw [List.map_map] at hperm
  exact hperm.nodup_iff.mp hkeys

/-- What a table holds determines the table. -/
theorem unique (ht : t.Holds key items) (hu : u.Holds key items) : t = u :=
  ext_find? fun name => by
    apply Option.ext
    intro item
    rw [ht.find?_eq_some_iff, hu.find?_eq_some_iff]

/-- A table of changed values holds the changed items, if the change keeps their keys. -/
theorem mapValues (h : t.Holds key items) {f : α → β} {key' : β → String}
    (hkey : ∀ item, key' (f item) = key item) : (t.map f).Holds key' (items.map f) := by
  have hperm := List.Perm.map (fun entry : String × α => (entry.1, f entry.2)) h
  rw [List.map_map] at hperm
  rw [Holds, Table.map, List.map_map]
  refine hperm.trans (List.Perm.of_eq (List.map_congr_left fun item _ => ?_))
  exact Prod.ext (hkey item).symm rfl

/-- The items in the order of their keys. -/
theorem values_perm (h : t.Holds key items) : t.values.Perm items := by
  have hperm := h.map Prod.snd
  rw [List.map_map] at hperm
  simpa [values, Function.comp_def] using hperm

end Holds

/-! ### Tables by key -/

/-- The values of a table stand under their own keys. -/
def Keyed (t : Table α) (key : α → String) : Prop :=
  ∀ ⦃name value⦄, t.find? name = some value → key value = name

/-- That values stand under their own keys is checked entry by entry. -/
theorem keyed_iff_entries {t : Table α} {key : α → String} :
    t.Keyed key ↔ ∀ entry ∈ t.entries, key entry.2 = entry.1 :=
  ⟨fun h _ hmem => h (t.find?_eq_some_iff_mem.mpr hmem),
    fun h _ _ hfind => h _ (t.find?_eq_some_iff_mem.mp hfind)⟩

instance {t : Table α} {key : α → String} : Decidable (t.Keyed key) :=
  decidable_of_iff _ keyed_iff_entries.symm

/-- A table that holds items has them under their own keys. -/
theorem Holds.keyed {t : Table α} {key : α → String} {items : List α} (h : t.Holds key items) :
    t.Keyed key :=
  fun _ _ hfind => (h.find?_eq_some_iff.mp hfind).2

/-- A table with its values under their own keys holds its values. -/
theorem Keyed.holds_values {t : Table α} {key : α → String} (h : t.Keyed key) :
    t.Holds key t.values := by
  have hentries : t.entries = t.values.map fun item => (key item, item) := by
    rw [values, List.map_map]
    refine (List.map_id t.entries).symm.trans (List.map_congr_left fun entry hmem => ?_)
    exact Prod.ext (keyed_iff_entries.mp h entry hmem).symm rfl
  rw [Holds, ← hentries]

/-- A key is the key of one value only. -/
theorem Keyed.filter_values {t : Table α} {key : α → String} (h : t.Keyed key) {value : α}
    (hvalue : value ∈ t.values) : t.values.filter (key · = key value) = [value] := by
  obtain ⟨before, after, hsplit⟩ := List.append_of_mem hvalue
  have hdistinct := List.pairwise_map.mp h.holds_values.nodup
  rw [hsplit, List.pairwise_append, List.pairwise_cons] at hdistinct
  obtain ⟨-, ⟨hafter, -⟩, hbefore⟩ := hdistinct
  have hbefore' : before.filter (key · = key value) = [] :=
    List.filter_eq_nil_iff.mpr fun other hother heq =>
      hbefore other hother value List.mem_cons_self (of_decide_eq_true heq)
  have hafter' : after.filter (key · = key value) = [] :=
    List.filter_eq_nil_iff.mpr fun other hother heq =>
      hafter other hother (of_decide_eq_true heq).symm
  rw [hsplit, List.filter_append, hbefore', List.filter_cons, hafter', if_pos (decide_eq_true rfl),
    List.nil_append]

/-! ### Declarations -/

/-- An entry with a new name is inserted once, and no entry is lost. -/
private theorem insertInto_perm {name : String} {value : α} {entries : List (String × α)}
    (h : ∀ entry ∈ entries, entry.1 ≠ name) :
    (insertInto name value entries).Perm ((name, value) :: entries) := by
  induction entries with
  | nil => exact .refl _
  | cons first rest ih =>
    rw [insertInto]
    split
    · exact .refl _
    · rename_i hge
      have hlt : first.1 < name := Decidable.byContradiction fun hle =>
        h first List.mem_cons_self
          (String.le_antisymm (String.not_lt.mp hge) (String.not_lt.mp hle))
      rw [if_pos hlt]
      exact ((ih fun entry hmem => h entry (List.mem_cons_of_mem _ hmem)).cons first).trans
        (.swap _ _ _)

/-- After an insertion under a new key a table holds one item more. -/
theorem Holds.insert {t : Table α} {key : α → String} {items : List α} {item : α}
    (h : t.Holds key items) (hnew : t.find? (key item) = none) :
    (t.insert (key item) item).Holds key (items ++ [item]) := by
  have hfresh : ∀ entry ∈ t.entries, entry.1 ≠ key item := by
    intro entry hmem heq
    have hfind := t.find?_eq_some_iff_mem.mpr hmem
    rw [heq, hnew] at hfind
    exact Option.some_ne_none _ hfind.symm
  rw [Holds, List.map_append]
  exact ((insertInto_perm hfresh).trans (h.cons _)).trans (List.perm_append_singleton _ _).symm

/-- The table after the insertion of some items, each under its key. -/
def insertAll (t : Table α) (key : α → String) (items : List α) : Table α :=
  items.foldl (fun t item => t.insert (key item) item) t

/-- An insertion leaves the other names that are not there. -/
private theorem find?_insert_eq_none_iff (t : Table α) {name other : String} {value : α} :
    (t.insert name value).find? other = none ↔ other ≠ name ∧ t.find? other = none := by
  rw [find?_insert]
  split <;> simp_all

/-- Items with distinct new keys are all held once they are inserted. -/
theorem Holds.insertAll {t : Table α} {key : α → String} {held items : List α}
    (h : t.Holds key held) (hdistinct : (items.map key).Nodup)
    (hnew : ∀ item ∈ items, t.find? (key item) = none) :
    (t.insertAll key items).Holds key (held ++ items) := by
  induction items generalizing t held with
  | nil => rwa [List.append_nil]
  | cons item rest ih =>
    rw [List.map_cons, List.nodup_cons] at hdistinct
    rw [List.append_cons]
    refine ih (h.insert (hnew item List.mem_cons_self)) hdistinct.2 fun other hmem => ?_
    rw [find?_insert_eq_none_iff]
    exact ⟨fun heq => hdistinct.1 (heq ▸ List.mem_map_of_mem hmem),
      hnew other (List.mem_cons_of_mem _ hmem)⟩

end Table

/-- A fold that may fail succeeds if its first step does and the fold from there on. -/
theorem foldlM_cons_eq_ok_iff {σ α ε : Type} {f : σ → α → Except ε σ} {item : α} {items : List α}
    {s s' : σ} :
    (item :: items).foldlM f s = .ok s' ↔
      ∃ mid, f s item = .ok mid ∧ items.foldlM f mid = .ok s' := by
  rw [List.foldlM_cons]
  cases f s item <;> simp [bind, Except.bind]

section Declarations

variable {σ α ε : Type} {key : α → String} (table : σ → Table α) (put : σ → Table α → σ)
  {declare : σ → α → Except ε σ}

/-- Declarations one after the other into a table of a state, where each refuses a key that is
taken: they succeed if and only if the keys are distinct and new. -/
theorem declareAll_eq_ok_iff
    (hdeclare : ∀ s item s', declare s item = .ok s' ↔
      (table s).find? (key item) = none ∧ put s ((table s).insert (key item) item) = s')
    (htable : ∀ s t, table (put s t) = t) (hput : ∀ s t u, put (put s t) u = put s u)
    (hsame : ∀ s, put s (table s) = s) {items : List α} {s s' : σ} :
    items.foldlM declare s = .ok s' ↔
      ((items.map key).Nodup ∧ ∀ item ∈ items, (table s).find? (key item) = none) ∧
        put s ((table s).insertAll key items) = s' := by
  induction items generalizing s with
  | nil => simp [Table.insertAll, hsame, pure, Except.pure]
  | cons item rest ih =>
    rw [foldlM_cons_eq_ok_iff]
    simp only [hdeclare, ih]
    constructor
    · rintro ⟨_, ⟨hfree, rfl⟩, ⟨hdistinct, hnew⟩, rfl⟩
      rw [htable] at hnew ⊢
      refine ⟨⟨?_, ?_⟩, (hput _ _ _).symm⟩
      · -- a later item with the key of the first would find it taken
        rw [List.map_cons, List.nodup_cons]
        refine ⟨fun hmem => ?_, hdistinct⟩
        obtain ⟨other, hother, heq⟩ := List.mem_map.mp hmem
        have hnone := hnew other hother
        rw [heq, Table.find?_insert_self] at hnone
        exact Option.some_ne_none _ hnone
      · rintro other (_ | ⟨_, hother⟩)
        · exact hfree
        · have hnone := hnew other hother
          rw [Table.find?_insert] at hnone
          split at hnone
          · exact absurd hnone (Option.some_ne_none _)
          · exact hnone
    · rintro ⟨⟨hdistinct, hnew⟩, rfl⟩
      rw [List.map_cons, List.nodup_cons] at hdistinct
      refine ⟨_, ⟨hnew item List.mem_cons_self, rfl⟩, ⟨hdistinct.2, fun other hother => ?_⟩, ?_⟩
      · rw [htable, Table.find?_insert_of_ne]
        · exact hnew other (List.mem_cons_of_mem _ hother)
        · exact fun heq => hdistinct.1 (heq ▸ List.mem_map_of_mem hother)
      · rw [htable, hput]
        rfl

end Declarations

end Lucha
