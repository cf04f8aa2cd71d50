/-!
# Quantities

Hit points, stamina, damage, costs, limits and totals are whole numbers below `2 ^ 32`. They are
never added or subtracted as machine words: an amount is *taken* from another and stops at nothing,
is *paid* from another if there is enough of it, or is *put* on a total that stops at the largest
quantity. Each operation is characterised by its value as a natural number.
-/

namespace Lucha

/-- A whole number below `2 ^ 32`. -/
abbrev Quantity := UInt32

namespace Quantity

/-- The largest quantity. -/
def largest : Quantity := 4294967295

/-- The quantity with the value `n`, if there is one. -/
def ofNat? (n : Nat) : Option Quantity :=
  if n ≤ largest.toNat then some (UInt32.ofNat n) else none

/-- What is left of `a` after `b` is taken from it: nothing, if `b` is more than there is. -/
def take (a b : Quantity) : Quantity :=
  if b ≤ a then a - b else 0

/-- What is left of `a` after `cost` is paid from it, if `a` is enough. -/
def pay? (a cost : Quantity) : Option Quantity :=
  if cost ≤ a then some (a - cost) else none

/-- The total of `a` and `b`, or the largest quantity where the total is no quantity. -/
def put (a b : Quantity) : Quantity :=
  if a.toNat + b.toNat ≤ largest.toNat then a + b else largest

theorem toNat_largest : largest.toNat = 4294967295 := rfl

theorem toNat_le_largest (a : Quantity) : a.toNat ≤ largest.toNat := by
  have := a.toNat_lt
  rw [toNat_largest]
  omega

/-- A quantity has a number for its value if it is the quantity of that number. -/
theorem ofNat?_eq_some_iff {n : Nat} {a : Quantity} : ofNat? n = some a ↔ a.toNat = n := by
  constructor
  · intro h
    rw [ofNat?] at h
    split at h
    · rename_i hn
      cases h
      exact UInt32.toNat_ofNat_of_lt' (Nat.lt_of_le_of_lt hn (by decide))
    · cases h
  · rintro rfl
    rw [ofNat?, if_pos (toNat_le_largest a), UInt32.ofNat_toNat]

/-- Only numbers beyond the largest quantity are the value of none. -/
theorem ofNat?_eq_none_iff {n : Nat} : ofNat? n = none ↔ largest.toNat < n := by
  rw [ofNat?]
  split <;> simp <;> omega

/-- What is taken is subtracted, and nothing is less than nothing. -/
theorem toNat_take (a b : Quantity) : (a.take b).toNat = a.toNat - b.toNat := by
  rw [take]
  split
  · rename_i h
    exact UInt32.toNat_sub_of_le a b h
  · rename_i h
    rw [UInt32.le_iff_toNat_le] at h
    simp only [UInt32.toNat_zero]
    omega

theorem take_le (a b : Quantity) : a.take b ≤ a := by
  rw [UInt32.le_iff_toNat_le, toNat_take]
  omega

/-- A payment leaves the difference, and is made if there is enough. -/
theorem pay?_eq_some_iff {a cost rest : Quantity} :
    a.pay? cost = some rest ↔ cost ≤ a ∧ rest.toNat + cost.toNat = a.toNat := by
  rw [pay?]
  split
  · rename_i h
    have hle := UInt32.le_iff_toNat_le.mp h
    have hsub := UInt32.toNat_sub_of_le a cost h
    rw [Option.some.injEq]
    constructor
    · rintro rfl
      exact ⟨h, by omega⟩
    · rintro ⟨-, hr⟩
      exact UInt32.toNat_inj.mp (by omega)
  · rename_i h
    simp [h]

/-- A payment is not made if there is too little. -/
theorem pay?_eq_none_iff {a cost : Quantity} : a.pay? cost = none ↔ a < cost := by
  rw [pay?]
  split <;> simp_all [UInt32.not_le]

/-- What is put on a total is added, up to the largest quantity. -/
theorem toNat_put (a b : Quantity) :
    (a.put b).toNat = min (a.toNat + b.toNat) largest.toNat := by
  rw [put]
  split
  · rename_i h
    rw [toNat_largest] at h
    rw [UInt32.toNat_add, Nat.mod_eq_of_lt (by omega), toNat_largest, Nat.min_eq_left h]
  · rename_i h
    rw [Nat.min_eq_right (by omega)]

end Quantity

end Lucha
