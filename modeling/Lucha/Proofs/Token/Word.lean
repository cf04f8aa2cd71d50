import Lucha.Token.Piece

/-!
# Words and numerals

The characters of words and numerals are none of blanks and comments. A word is reserved in whatever
case, or else it is a name (`IsName`). A numeral has the value of its digits, or the largest value
if that is less (`numeralValue_eq`).
-/

namespace Lucha

/-! ### Classes of characters -/

/-- What holds of all characters of a range holds of every character in it. -/
theorem of_mem_range {P : Char → Prop} {low count : Nat} {c : Char}
    (h : ∀ k < count, P (Char.ofNat (low + k))) (hlow : low ≤ c.toNat)
    (hhigh : c.toNat < low + count) : P c := by
  rw [← Char.ofNat_toNat c, ← Nat.add_sub_cancel' hlow]
  exact h _ (by omega)

private theorem of_isDigit {P : Char → Prop} (h : ∀ k < 10, P (Char.ofNat (48 + k))) {c : Char}
    (hc : c.isDigit = true) : P c := by
  simp only [Char.isDigit, Bool.and_eq_true, decide_eq_true_eq, ge_iff_le,
    UInt32.le_iff_toNat_le] at hc
  exact of_mem_range h hc.1 (Nat.lt_succ_of_le hc.2)

theorem isDigit_classes {c : Char} (h : c.isDigit = true) :
    isSpacing c = false ∧ c ≠ '/' ∧ isLetter c = false ∧ c ≠ '=' :=
  of_isDigit (P := fun c => isSpacing c = false ∧ c ≠ '/' ∧ isLetter c = false ∧ c ≠ '=')
    (by decide) h

/-- No letter is white space, a slash, a digit or an equals sign. -/
theorem isLetter_classes {c : Char} (h : isLetter c = true) :
    isSpacing c = false ∧ c ≠ '/' ∧ c.isDigit = false ∧ c ≠ '=' := by
  refine ⟨?_, ?_, ?_, ?_⟩
  · rw [Bool.eq_false_iff]
    intro hspacing
    simp only [isSpacing, Bool.or_eq_true, beq_iff_eq] at hspacing
    obtain ((rfl | rfl) | rfl) | rfl := hspacing <;> exact absurd h (by decide)
  · rintro rfl
    exact absurd h (by decide)
  · rw [Bool.eq_false_iff]
    intro hdigit
    exact absurd h (Bool.eq_false_iff.mp (isDigit_classes hdigit).2.2.1)
  · rintro rfl
    exact absurd h (by decide)

theorem isNameChar_classes {c : Char} (h : isNameChar c = true) :
    isSpacing c = false ∧ c ≠ '/' := by
  obtain hletter | hdigit := (Bool.or_eq_true _ _).mp h
  · exact ⟨(isLetter_classes hletter).1, (isLetter_classes hletter).2.1⟩
  · exact ⟨(isDigit_classes hdigit).1, (isDigit_classes hdigit).2.1⟩

/-! ### Words -/

/-- A name: an identifier that is no reserved word, in whatever case. -/
structure IsName (name : String) : Prop where
  letters : ∃ c cs, name.toList = c :: cs ∧ isLetter c = true ∧ ∀ d ∈ cs, isNameChar d = true
  free : ∀ k : Keyword, String.ofList (name.toList.map lowerLetter) ≠ k.text

theorem IsName.wordKind_eq {name : String} (h : IsName name) :
    wordKind name.toList = .ident name := by
  have hnone : Keyword.ofText? (String.ofList (name.toList.map lowerLetter)) = none :=
    Option.eq_none_iff_forall_ne_some.mpr fun k hk => h.free k (Keyword.ofText?_eq_some_iff.mp hk)
  rw [wordKind, hnone, String.ofList_toList]

/-- A word that is no reserved word is a name. -/
theorem IsName.of_wordKind {c : Char} {cs : List Char} (hc : isLetter c = true)
    (hcs : ∀ d ∈ cs, isNameChar d = true) {name : String}
    (h : wordKind (c :: cs) = .ident name) : IsName name := by
  rw [wordKind] at h
  split at h
  · cases h
  · rename_i hnone
    cases h
    refine ⟨⟨c, cs, String.toList_ofList, hc, hcs⟩, fun k hk => ?_⟩
    rw [String.toList_ofList] at hk
    exact Option.some_ne_none k ((Keyword.ofText?_eq_some_iff.mpr hk).symm.trans hnone)

/-- A text is a name if it begins with a letter, goes on with characters of names and is no reserved
word. -/
theorem isName_iff {name : String} :
    IsName name ↔ name.toList.head?.any isLetter = true ∧ name.toList.tail.all isNameChar = true ∧
      wordKind name.toList = .ident name := by
  constructor
  · intro h
    obtain ⟨c, cs, htext, hc, hcs⟩ := h.letters
    refine ⟨?_, ?_, h.wordKind_eq⟩
    · rw [htext]
      exact hc
    · rw [htext]
      exact List.all_eq_true.mpr hcs
  · rintro ⟨hhead, hcs, hkind⟩
    obtain ⟨c, hc, hletter⟩ := (Option.any_eq_true _ _).mp hhead
    obtain ⟨cs, htext⟩ := List.head?_eq_some_iff.mp hc
    rw [htext] at hcs hkind
    exact .of_wordKind hletter (List.all_eq_true.mp hcs) hkind

instance (name : String) : Decidable (IsName name) :=
  decidable_of_iff _ isName_iff.symm

theorem Keyword.lower_text (k : Keyword) :
    String.ofList (k.text.toList.map lowerLetter) = k.text := by
  cases k <;> rfl

theorem Keyword.letters_text (k : Keyword) :
    ∃ c cs, k.text.toList = c :: cs ∧ isLetter c = true ∧ ∀ d ∈ cs, isNameChar d = true := by
  cases k <;> exact ⟨_, _, rfl, by decide, List.all_eq_true.mp (by decide)⟩

/-! ### Numerals -/

/-- Reading digit by digit with a bound at every step is reading with a bound at the end. -/
private theorem foldl_numeral (digits : List Char) (value : Nat) :
    digits.foldl (fun value digit => min (10 * value + (digit.toNat - '0'.toNat)) largestNumeral)
        (min value largestNumeral)
      = min (Nat.ofDigitChars 10 digits value) largestNumeral := by
  induction digits generalizing value with
  | nil => rfl
  | cons digit digits ih =>
    -- the bound is kept by every step, because no step makes a value smaller
    have hstep : min (10 * min value largestNumeral + (digit.toNat - '0'.toNat)) largestNumeral
        = min (10 * value + (digit.toNat - '0'.toNat)) largestNumeral := by
      omega
    rw [List.foldl_cons, hstep, ih, Nat.ofDigitChars_cons]

/-- The value of some digits is that of the decimal number, or the largest one. -/
theorem numeralValue_eq (digits : List Char) :
    numeralValue digits = min (Nat.ofDigitChars 10 digits 0) largestNumeral :=
  foldl_numeral digits 0

end Lucha
