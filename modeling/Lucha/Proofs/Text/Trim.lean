import Lucha.Proofs.Token.Fit
import Lucha.Text.Blank

/-!
# White space at the ends of texts, and separators within

What is left of a text without the white space at its ends is the stretch of it that neither begins
nor ends with white space and has nothing but white space on both sides (`Text.trim_eq_iff`); there
is one such stretch. The texts between separators are those that `List.splitOn` finds
(`Text.splitAt_eq_splitOn`).
-/

namespace Lucha.Text

/-- A text and a stretch of it that neither begins nor ends with white space, with nothing but white
space on both sides. -/
structure Trims (text core : List Char) : Prop where
  stretch : ∃ left right, text = left ++ core ++ right ∧ (∀ c ∈ left, isBlank c = true) ∧
    ∀ c ∈ right, isBlank c = true
  first : ∀ c ∈ core.head?, isBlank c = false
  last : ∀ c ∈ core.getLast?, isBlank c = false

variable {text core : List Char}

/-- A text is white space and then what is left without it. -/
private theorem exists_dropWhile (text : List Char) : ∃ left,
    text = left ++ text.dropWhile isBlank ∧ ∀ c ∈ left, isBlank c = true :=
  ⟨_, List.takeWhile_append_dropWhile.symm, fun c hc =>
    List.all_eq_true.mp List.all_takeWhile c hc⟩

/-- What is left of a text without the white space at its ends is such a stretch of it. -/
theorem trims_trim (text : List Char) : Trims text (trim text) := by
  obtain ⟨left, htext, hleft⟩ := exists_dropWhile text
  generalize hrest : text.dropWhile isBlank = rest at htext
  obtain ⟨right, hright, hblank⟩ := exists_dropWhile rest.reverse
  have hcore : trim text = (rest.reverse.dropWhile isBlank).reverse := by rw [trim, hrest]
  have happend : rest = trim text ++ right.reverse := by
    rw [hcore, ← List.reverse_append, ← hright, List.reverse_reverse]
  refine ⟨⟨left, right.reverse, ?_, hleft, fun c hc => hblank c (List.mem_reverse.mp hc)⟩,
    fun c hc => ?_, fun c hc => ?_⟩
  · rw [List.append_assoc, ← happend]
    exact htext
  · -- what begins the core begins the text without the white space in front
    refine head?_dropWhile isBlank text c ?_
    obtain ⟨tail, htail⟩ := List.head?_eq_some_iff.mp hc
    rw [hrest, happend, htail]
    rfl
  · rw [hcore, List.getLast?_reverse] at hc
    exact head?_dropWhile isBlank rest.reverse c hc

/-- There is one such stretch only. -/
theorem Trims.trim_eq (h : Trims text core) : trim text = core := by
  obtain ⟨⟨left, right, rfl, hleft, hright⟩, hfirst, hlast⟩ := h
  have hright' : ∀ c ∈ right.reverse, isBlank c = true :=
    fun c hc => hright c (List.mem_reverse.mp hc)
  rw [trim, List.append_assoc, List.dropWhile_append_of_pos hleft]
  by_cases hcore : core = []
  · subst hcore
    have hnone : right.dropWhile isBlank = [] := by
      rw [← List.append_nil right, List.dropWhile_append_of_pos hright, List.dropWhile_nil]
    rw [List.nil_append, hnone]
    rfl
  · have hhead : ∀ c ∈ (core ++ right).head?, isBlank c = false := by
      obtain ⟨c, tail, rfl⟩ := List.exists_cons_of_ne_nil hcore
      exact hfirst
    have hkept : (core ++ right).dropWhile isBlank = core ++ right :=
      (takeWhile_of_run (List.forall_mem_nil _) hhead).2
    have hdropped : (right.reverse ++ core.reverse).dropWhile isBlank = core.reverse := by
      refine (takeWhile_of_run hright' fun c hc => hlast c ?_).2
      rwa [List.head?_reverse] at hc
    rw [hkept, List.reverse_append, hdropped, List.reverse_reverse]

/-- A text without the white space at its ends is the one stretch of it that is so. -/
theorem trim_eq_iff : trim text = core ↔ Trims text core :=
  ⟨fun h => h ▸ trims_trim text, Trims.trim_eq⟩

/-- The texts between separators are those that `List.splitOn` finds. -/
theorem splitAt_eq_splitOn (separator : Char) (cs : List Char) :
    splitAt separator cs = cs.splitOn separator := by
  induction cs with
  | nil => rfl
  | cons c cs ih =>
    obtain ⟨first, rest, hrest⟩ := List.exists_cons_of_ne_nil (List.splitOn_ne_nil separator cs)
    have hcons : (c :: cs).splitOn separator = if (c == separator) = true then
        [] :: cs.splitOn separator else (cs.splitOn separator).modifyHead (c :: ·) :=
      List.splitOnP_cons_eq_if_modifyHead c cs
    rw [splitAt, ih, hcons, hrest]
    simp only [beq_iff_eq, List.modifyHead_cons]

end Lucha.Text
