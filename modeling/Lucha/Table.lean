/-!
# Tables of named things

A `Table` holds at most one value under each name and lists its entries in the order of their names,
compared by code points. The order is part of the type, so nothing about a table but its lookups can
be observed: `Table.ext_find?` says that two tables with the same lookups are the same table, and
`find?_insert` and `find?_erase` say what the two changes do to the lookups.
-/

namespace Lucha

/-- Values under distinct names, in the order of the names. -/
structure Table (α : Type) where
  /-- The names with their values. -/
  entries : List (String × α)
  /-- Each name comes before all later ones. -/
  sorted : entries.Pairwise fun a b => a.1 < b.1
deriving DecidableEq

namespace Table

variable {α : Type}

/-- The table that holds nothing. -/
def empty : Table α := ⟨[], .nil⟩

instance : Inhabited (Table α) := ⟨empty⟩

/-- The value under a name. -/
def find? (t : Table α) (name : String) : Option α :=
  t.entries.lookup name

/-- Whether there is a value under a name. -/
def contains (t : Table α) (name : String) : Bool :=
  (t.find? name).isSome

/-- The names, in order. -/
def names (t : Table α) : List String :=
  t.entries.map Prod.fst

/-- The values, in the order of their names. -/
def values (t : Table α) : List α :=
  t.entries.map Prod.snd

/-- The number of values. -/
def size (t : Table α) : Nat :=
  t.entries.length

/-- Entries with a value put at its place in the order, instead of one of the same name. -/
def insertInto (name : String) (value : α) : List (String × α) → List (String × α)
  | [] => [(name, value)]
  | entry :: rest =>
    if name < entry.1 then (name, value) :: entry :: rest
    else if entry.1 < name then entry :: insertInto name value rest
    else (name, value) :: rest

/-- The entries after an insertion are those from before and the new one. -/
theorem mem_insertInto {name : String} {value : α} {entry : String × α} :
    ∀ {entries : List (String × α)}, entry ∈ insertInto name value entries →
      entry = (name, value) ∨ entry ∈ entries
  | [], h => by simp_all [insertInto]
  | first :: rest, h => by
    rw [insertInto] at h
    split at h
    · simpa using h
    · split at h
      · rcases List.mem_cons.mp h with h | h
        · simp [h]
        · rcases mem_insertInto h with h | h <;> simp [h]
      · rcases List.mem_cons.mp h with h | h <;> simp [h]

/-- An insertion keeps the keys ascending, and no two of them equal. -/
theorem pairwise_insertInto (name : String) (value : α) {entries : List (String × α)}
    (h : entries.Pairwise fun a b => a.1 < b.1) :
    (insertInto name value entries).Pairwise fun a b => a.1 < b.1 := by
  induction entries with
  | nil => simp [insertInto]
  | cons first rest ih =>
    have hfirst : ∀ {entry}, entry ∈ rest → first.1 < entry.1 := List.rel_of_pairwise_cons h
    rw [insertInto]
    split
    · rename_i hlt
      refine .cons (fun entry hentry => ?_) h
      rcases List.mem_cons.mp hentry with rfl | hentry
      · exact hlt
      · exact String.lt_trans hlt (hfirst hentry)
    · split
      · rename_i hlt
        refine .cons (fun entry hentry => ?_) (ih h.of_cons)
        rcases mem_insertInto hentry with rfl | hentry
        · exact hlt
        · exact hfirst hentry
      · rename_i hge hle
        have heq : first.1 = name :=
          String.le_antisymm (String.not_lt.mp hge) (String.not_lt.mp hle)
        exact .cons (fun entry hentry => heq ▸ hfirst hentry) h.of_cons

/-- The table with a value under a name, instead of the one that was there. -/
def insert (t : Table α) (name : String) (value : α) : Table α :=
  ⟨insertInto name value t.entries, pairwise_insertInto name value t.sorted⟩

/-- The table without the value under a name. -/
def erase (t : Table α) (name : String) : Table α :=
  ⟨t.entries.filter (·.1 != name), t.sorted.filter _⟩

/-- The table with the value under a name replaced by `change` of it, or of `initial` where there
is none. -/
def adjust (t : Table α) (name : String) (initial : α) (change : α → α) : Table α :=
  t.insert name (change ((t.find? name).getD initial))

/-- The names are those under which there is a value. -/
theorem mem_names_iff (t : Table α) {name : String} :
    name ∈ t.names ↔ t.contains name = true := by
  rw [contains, find?, List.lookup_isSome_iff, names, List.mem_map]
  exact exists_congr fun entry => and_congr_right fun _ => by rw [beq_iff_eq, eq_comm]

/-! ### What the changes do to the lookups -/

@[simp]
theorem find?_empty (name : String) : (empty : Table α).find? name = none := rfl

private theorem lookup_cons_eq (entry : String × α) (entries : List (String × α)) (name : String) :
    (entry :: entries).lookup name
      = if name = entry.1 then some entry.2 else entries.lookup name := by
  rw [List.lookup_cons]
  by_cases h : name = entry.1
  · simp [h]
  · rw [if_neg h, beq_false_of_ne h]

/-- After an insertion the new value is found under its name, and the old ones under theirs. -/
private theorem lookup_insertInto (name other : String) (value : α)
    {entries : List (String × α)} (h : entries.Pairwise fun a b => a.1 < b.1) :
    (insertInto name value entries).lookup other
      = if other = name then some value else entries.lookup other := by
  induction entries with
  | nil => rw [insertInto, lookup_cons_eq]
  | cons first rest ih =>
    rw [insertInto]
    split
    · rw [lookup_cons_eq]
    · split
      · rename_i hlt
        rw [lookup_cons_eq, ih h.of_cons, lookup_cons_eq]
        by_cases hother : other = first.1
        · have hne : other ≠ name := fun he => String.lt_irrefl _ (he ▸ hother ▸ hlt)
          rw [if_pos hother, if_neg hne, if_pos hother]
        · rw [if_neg hother, if_neg hother]
      · rename_i hge hle
        have heq : first.1 = name :=
          String.le_antisymm (String.not_lt.mp hge) (String.not_lt.mp hle)
        rw [lookup_cons_eq, lookup_cons_eq, heq]
        split <;> rfl

/-- After an insertion the name has the new value, and every other name what it had. -/
theorem find?_insert (t : Table α) (name other : String) (value : α) :
    (t.insert name value).find? other = if other = name then some value else t.find? other :=
  lookup_insertInto name other value t.sorted

theorem find?_insert_self (t : Table α) (name : String) (value : α) :
    (t.insert name value).find? name = some value := by
  rw [find?_insert, if_pos rfl]

theorem find?_insert_of_ne (t : Table α) {name other : String} (value : α) (h : other ≠ name) :
    (t.insert name value).find? other = t.find? other := by
  rw [find?_insert, if_neg h]

/-- Without the entries of a name that name is not found, and the other names are. -/
private theorem lookup_filter_ne (name other : String) (entries : List (String × α)) :
    (entries.filter (·.1 != name)).lookup other
      = if other = name then none else entries.lookup other := by
  induction entries with
  | nil => simp
  | cons first rest ih =>
    by_cases hfirst : first.1 = name
    · rw [List.filter_cons_of_neg (by simp [hfirst]), ih, lookup_cons_eq]
      split
      · rfl
      · rename_i hother
        rw [if_neg (hfirst ▸ hother)]
    · rw [List.filter_cons_of_pos (by simp [hfirst]), lookup_cons_eq, ih, lookup_cons_eq]
      by_cases hother : other = first.1
      · rw [if_pos hother, if_neg (hother ▸ hfirst), if_pos hother]
      · rw [if_neg hother, if_neg hother]

/-- After an erasure the name has no value, and every other name what it had. -/
theorem find?_erase (t : Table α) (name other : String) :
    (t.erase name).find? other = if other = name then none else t.find? other :=
  lookup_filter_ne name other t.entries

/-! ### Tables with the same lookups -/

/-- A name before all keys is not found. -/
private theorem lookup_eq_none_of_lt {name : String} {entries : List (String × α)}
    (h : ∀ entry ∈ entries, name < entry.1) : entries.lookup name = none := by
  induction entries with
  | nil => rfl
  | cons first rest ih =>
    have hne : name ≠ first.1 := fun he => String.lt_irrefl _ (he ▸ h first (by simp))
    rw [lookup_cons_eq, if_neg hne]
    exact ih fun entry hentry => h entry (List.mem_cons_of_mem _ hentry)

/-- The first key of a list is found in any list with the same lookups, so it does not come before
the first key there. -/
private theorem not_lt_of_lookup_eq {a b : String × α} {as bs : List (String × α)}
    (hb : (b :: bs).Pairwise fun a b => a.1 < b.1)
    (h : ∀ name, (a :: as).lookup name = (b :: bs).lookup name) : ¬ a.1 < b.1 := by
  intro hlt
  have hnone : (b :: bs).lookup a.1 = none := lookup_eq_none_of_lt fun entry hentry => by
    rcases List.mem_cons.mp hentry with rfl | hentry
    · exact hlt
    · exact String.lt_trans hlt (List.rel_of_pairwise_cons hb hentry)
  have hsome := h a.1
  rw [hnone, lookup_cons_eq, if_pos rfl] at hsome
  exact Option.some_ne_none _ hsome

/-- Lists with ascending keys and the same lookups are the same. -/
private theorem eq_of_lookup_eq {as bs : List (String × α)}
    (ha : as.Pairwise fun a b => a.1 < b.1) (hb : bs.Pairwise fun a b => a.1 < b.1)
    (h : ∀ name, as.lookup name = bs.lookup name) : as = bs := by
  induction as generalizing bs with
  | nil =>
    cases bs with
    | nil => rfl
    | cons b bs => simpa [lookup_cons_eq] using h b.1
  | cons a as ih =>
    cases bs with
    | nil => simpa [lookup_cons_eq] using h a.1
    | cons b bs =>
      have hname : a.1 = b.1 := String.le_antisymm
        (String.not_lt.mp (not_lt_of_lookup_eq ha fun name => (h name).symm))
        (String.not_lt.mp (not_lt_of_lookup_eq hb h))
      have hvalue : a.2 = b.2 := by simpa [lookup_cons_eq, hname] using h a.1
      have hrest : as = bs := ih ha.of_cons hb.of_cons fun name => by
        by_cases hn : name = a.1
        · subst hn
          rw [lookup_eq_none_of_lt fun entry => List.rel_of_pairwise_cons ha,
            hname, lookup_eq_none_of_lt fun entry => List.rel_of_pairwise_cons hb]
        · simpa [lookup_cons_eq, ← hname, hn] using h name
      rw [hrest, Prod.ext hname hvalue]

/-- Tables with the same lookups are the same. -/
theorem ext_find? {t u : Table α} (h : ∀ name, t.find? name = u.find? name) : t = u := by
  have := eq_of_lookup_eq t.sorted u.sorted h
  cases t
  cases u
  simp_all

end Table

end Lucha
