import Lucha.Proofs.Json.Reading

/-!
# Written values are read back

The reader gives back every value from the text that is written for it (`decode_render`), also an
array whose items have white space around them (`decode_array`). What is read from a text does not
depend on what follows, unless that goes on with a number (`Reads`). No written text has a control
character (`isControl_of_mem_render`).
-/

namespace Lucha.Json

/-- What holds of the simple values, of arrays of what it holds of, and of objects of what it holds
of, holds of all values. -/
@[elab_as_elim]
theorem induction {P : Json → Prop} (null : P .null) (flag : ∀ value, P (.flag value))
    (number : ∀ value, P (.number value)) (text : ∀ value, P (.text value))
    (array : ∀ items, (∀ item ∈ items, P item) → P (.array items))
    (object : ∀ members, (∀ member ∈ members, P member.2) → P (.object members)) (v : Json) : P v :=
  Json.rec null flag number text (fun items h => array items h) (fun members h => object members h)
    (fun _ h => nomatch h) (fun _ _ hitem hitems => List.forall_mem_cons.mpr ⟨hitem, hitems⟩)
    (fun _ h => nomatch h)
    (fun _ _ hmember hmembers => List.forall_mem_cons.mpr ⟨hmember, hmembers⟩) (fun _ _ h => h) v

/-! ### Texts as lists of characters -/

/-- A quoted text is its escaped characters between two quotation marks. -/
theorem toList_quote (s : String) :
    (quote s).toList = '"' :: (s.toList.flatMap escape ++ ['"']) := by
  simp [quote]

/-- A number is written with its decimal digits. -/
theorem toList_render_number (value : Nat) :
    (number value).render.toList = Nat.toDigits 10 value :=
  Nat.toList_repr

theorem toList_renderItems (items : List Json) :
    (renderItems items).toList = [','].intercalate (items.map fun item => item.render.toList) := by
  induction items with
  | nil => rfl
  | cons first rest ih =>
    rw [renderItems]
    cases rest with
    | nil => simp [renderItems]
    | cons second rest => simp [ih]

/-- An array is its items between brackets. -/
theorem toList_render_array (items : List Json) : (array items).render.toList
    = '[' :: ([','].intercalate (items.map fun item => item.render.toList) ++ [']']) := by
  simp [render, toList_renderItems]

/-- A member on one line. -/
def memberText (member : String × Json) : List Char :=
  (quote member.1).toList ++ ':' :: member.2.render.toList

theorem toList_renderMembers (members : List (String × Json)) :
    (renderMembers members).toList = [','].intercalate (members.map memberText) := by
  induction members with
  | nil => rfl
  | cons first rest ih =>
    rw [renderMembers]
    cases rest with
    | nil => simp [renderMembers, memberText]
    | cons second rest => simp [ih, memberText]

/-- An object is its members between braces. -/
theorem toList_render_object (members : List (String × Json)) : (object members).render.toList
    = '\x7b' :: ([','].intercalate (members.map memberText) ++ ['\x7d']) := by
  simp [render, toList_renderMembers]

/-! ### Reading what is followed by something else -/

/-- The text does not go on with a number. -/
def Ends (rest : List Char) : Prop :=
  ∀ c ∈ rest.head?, c.isDigit = false ∧ c ≠ '.' ∧ c ≠ 'e' ∧ c ≠ 'E'

/-- A text is white space. -/
def Blank (text : List Char) : Prop :=
  ∀ c ∈ text, isBlank c = true

/-- A text can be an item of a list: it starts neither with white space nor with a closing
bracket. -/
def Opens (text : List Char) : Prop :=
  ∃ c cs, text = c :: cs ∧ isBlank c = false ∧ c ≠ ']' ∧ c ≠ '\x7d'

/-- The reader takes a text for a value, whatever follows that does not go on with a number. -/
def Reads {α : Type} (read : Reader α) (text : List Char) (value : α) : Prop :=
  ∀ rest, Ends rest → read (text ++ rest) = some (value, rest)

theorem blank_nil : Blank [] := fun _ h => nomatch h

theorem ends_nil : Ends [] := fun _ h => nomatch h

theorem ends_cons {c : Char} {cs : List Char} :
    Ends (c :: cs) ↔ c.isDigit = false ∧ c ≠ '.' ∧ c ≠ 'e' ∧ c ≠ 'E' := by
  simp [Ends]

/-- White space in front of what can be an item is skipped, and nothing else. -/
theorem Opens.skipBlanks_append {gap text : List Char} (h : Opens text) (hgap : Blank gap)
    (rest : List Char) : skipBlanks (gap ++ (text ++ rest)) = text ++ rest := by
  obtain ⟨c, cs, rfl, hc, -⟩ := h
  rw [skipBlanks, List.dropWhile_append_of_pos hgap, List.cons_append,
    List.dropWhile_cons_of_neg (by simp [hc])]

/-! ### Strings -/

/-- The digit for a number below sixteen has that number for its value. -/
theorem hexValue?_digitChar {n : Nat} (h : n < 16) : hexValue? n.digitChar = some n := by
  revert n
  decide

/-- The four digits of a number below `2 ^ 16` are read back. -/
theorem readUnit_hex4 {n : Nat} (h : n < 0x10000) (rest : List Char) :
    readUnit (hex4 n ++ rest) = some (n, rest) := by
  have hdigit (k : Nat) : hexValue? (Nat.digitChar (k % 16)) = some (k % 16) :=
    hexValue?_digitChar (Nat.mod_lt _ (by decide))
  have hsum : ((n / 4096 % 16 * 16 + n / 256 % 16) * 16 + n / 16 % 16) * 16 + n % 16 = n := by
    omega
  simp [hex4, readUnit, hdigit, hsum]

/-- A character is escaped by a letter or a sign, or by its code point, or it stands for itself. -/
theorem escape_cases (c : Char) :
    (∃ d, escape c = ['\\', d] ∧ isControl d = false ∧
      ∀ rest, readEscape (d :: rest) = some (c, rest)) ∨
    (isControl c = true ∧ escape c = '\\' :: 'u' :: hex4 c.toNat) ∨
    (isControl c = false ∧ c ≠ '\\' ∧ c ≠ '"' ∧ escape c = [c]) := by
  -- the characters with an escape of their own
  by_cases hshort : c ∈ ['\\', '"', '\n', '\r', '\t']
  · simp only [List.mem_cons, List.not_mem_nil, or_false] at hshort
    rcases hshort with rfl | rfl | rfl | rfl | rfl <;> exact .inl ⟨_, rfl, rfl, fun _ => rfl⟩
  · simp only [List.mem_cons, List.not_mem_nil, or_false, not_or] at hshort
    obtain ⟨hbackslash, hquote, hlf, hcr, htab⟩ := hshort
    rw [escape, if_neg hbackslash, if_neg hquote, if_neg hlf, if_neg hcr, if_neg htab]
    cases hcontrol : isControl c
    · exact .inr (.inr ⟨rfl, hbackslash, hquote, rfl⟩)
    · exact .inr (.inl ⟨rfl, rfl⟩)

/-- Control characters have small code points, so four digits are enough for them. -/
theorem toNat_le_of_isControl {c : Char} (h : isControl c = true) : c.toNat ≤ 0x9f := by
  simp only [isControl, Bool.or_eq_true, Bool.and_eq_true, decide_eq_true_eq] at h
  omega

/-- An escaped character is read back. -/
theorem readChar_escape (c : Char) (rest : List Char) :
    readChar (escape c ++ rest) = some (c, rest) := by
  obtain ⟨d, hescape, -, hread⟩ | ⟨hcontrol, hescape⟩ | ⟨hcontrol, hbackslash, -, hescape⟩ :=
    escape_cases c <;> rw [hescape]
  · exact hread rest
  · have hle := toNat_le_of_isControl hcontrol
    have hunit := readUnit_hex4 (n := c.toNat) (by omega) rest
    have hscalar : c.toNat < 0xd800 ∨ 0xdfff < c.toNat := .inl (by omega)
    simp [readChar, readEscape, readUnicode, hunit, hscalar]
  · have hlarge : ¬ c.toNat < 0x20 := by
      simp only [isControl, Bool.or_eq_false_iff, decide_eq_false_iff_not] at hcontrol
      omega
    simp [readChar, hlarge]

/-- What stands for a character is not the end of the string. -/
theorem exists_escape_eq_cons (c : Char) : ∃ d ds, escape c = d :: ds ∧ d ≠ '"' := by
  obtain ⟨d, hescape, -⟩ | ⟨-, hescape⟩ | ⟨-, -, hquote, hescape⟩ := escape_cases c
  · exact ⟨_, _, hescape, by decide⟩
  · exact ⟨_, _, hescape, by decide⟩
  · exact ⟨_, _, hescape, hquote⟩

/-- Escaping makes no text shorter. -/
theorem length_le_length_escaped (cs : List Char) : cs.length ≤ (cs.flatMap escape).length := by
  induction cs with
  | nil => exact Nat.le_refl _
  | cons c cs ih =>
    obtain ⟨d, ds, hescape, -⟩ := exists_escape_eq_cons c
    simp only [List.flatMap_cons, List.length_append, List.length_cons, hescape]
    omega

/-- The escaped characters of a text are read back up to the closing quotation mark. -/
theorem readChars_escaped (cs rest : List Char) {bound : Nat} (h : cs.length < bound) :
    readChars bound (cs.flatMap escape ++ '"' :: rest) = some (cs, rest) := by
  induction cs generalizing bound with
  | nil =>
    obtain ⟨bound, rfl⟩ := Nat.exists_eq_add_of_lt h
    rfl
  | cons c cs ih =>
    obtain ⟨bound, rfl⟩ : ∃ smaller, bound = smaller + 1 := ⟨bound - 1, by omega⟩
    have hmore := ih (Nat.lt_of_succ_lt_succ h)
    obtain ⟨d, ds, hescape, hquote⟩ := exists_escape_eq_cons c
    have hfirst := readChar_escape c (cs.flatMap escape ++ '"' :: rest)
    rw [hescape, List.cons_append] at hfirst
    rw [List.flatMap_cons, hescape, List.append_assoc, List.cons_append, readChars]
    · simp [hfirst, hmore]
    · exact fun _ heq => hquote (List.cons.inj heq).1

/-- A written string is read back. -/
theorem readText_quote (s : String) (rest : List Char) :
    readText ((quote s).toList ++ rest) = some (s, rest) := by
  have hlength : s.toList.length < (s.toList.flatMap escape ++ '"' :: rest).length := by
    have hle := length_le_length_escaped s.toList
    simp only [List.length_append, List.length_cons]
    omega
  rw [toList_quote, List.cons_append, List.append_assoc, List.singleton_append, readText,
    readChars_escaped _ rest hlength]
  exact congrArg (fun text => some (text, rest)) String.ofList_toList

/-! ### Numbers -/

theorem ne_of_isDigit {c d : Char} (hc : c.isDigit = true) (hd : d.isDigit = false) : c ≠ d := by
  rintro rfl
  exact absurd hc (Bool.eq_false_iff.mp hd)

theorem isDigit_of_mem_toDigits {n : Nat} {c : Char} (h : c ∈ Nat.toDigits 10 n) :
    c.isDigit = true :=
  Nat.isDigit_of_mem_toDigits (by decide) (by decide) h

/-- Every number has a first digit. -/
theorem exists_toDigits_eq_cons (n : Nat) :
    ∃ c cs, Nat.toDigits 10 n = c :: cs ∧ c.isDigit = true := by
  obtain ⟨c, cs, htext⟩ := List.exists_cons_of_ne_nil (Nat.toDigits_ne_nil (n := n) (b := 10))
  have hc : c ∈ Nat.toDigits 10 n := htext ▸ List.mem_cons_self
  exact ⟨c, cs, htext, isDigit_of_mem_toDigits hc⟩

/-- Only zero is written with a zero at the start. -/
theorem exists_toDigits_eq_cons_of_pos {n : Nat} (h : 0 < n) :
    ∃ c cs, Nat.toDigits 10 n = c :: cs ∧ c ≠ '0' := by
  induction n using Nat.strongRecOn with
  | ind n ih =>
    by_cases hsmall : n < 10
    · refine ⟨_, _, Nat.toDigits_of_lt_base hsmall, fun hzero => ?_⟩
      exact Nat.ne_of_gt h (Nat.digitChar_eq_zero.mp hzero)
    · obtain ⟨c, cs, hdigits, hc⟩ := ih (n / 10) (by omega) (by omega)
      exact ⟨c, _, by rw [Nat.toDigits_of_base_le (by decide) (by omega), hdigits]; rfl, hc⟩

/-- Digits are read up to what does not go on with a number. -/
theorem Ends.readDigits {rest : List Char} (h : Ends rest) {digits : List Char}
    (hdigits : ∀ c ∈ digits, c.isDigit = true) (hne : digits ≠ []) :
    readDigits (digits ++ rest) = some (digits, rest) := by
  have htake : (digits ++ rest).takeWhile Char.isDigit = digits := by
    rw [List.takeWhile_append_of_pos hdigits]
    cases rest with
    | nil => simp
    | cons c cs => simp [ends_cons.mp h]
  have hdrop : (digits ++ rest).dropWhile Char.isDigit = rest := by
    rw [List.dropWhile_append_of_pos hdigits]
    cases rest with
    | nil => rfl
    | cons c cs => simp [ends_cons.mp h]
  rw [Json.readDigits, htake, hdrop, if_neg (by simpa using hne)]

/-- What does not go on with a number has no fraction. -/
theorem Ends.readFraction {rest : List Char} (h : Ends rest) :
    readFraction rest = some ([], rest) := by
  cases rest with
  | nil => rfl
  | cons c cs => simp [Json.readFraction, ends_cons.mp h]

/-- What does not go on with a number has no exponent. -/
theorem Ends.readExponent {rest : List Char} (h : Ends rest) :
    readExponent rest = some (0, rest) := by
  cases rest with
  | nil => rfl
  | cons c cs => simp [Json.readExponent, ends_cons.mp h]

/-- The digits of a number are read as its whole part: none but zero starts with a zero. -/
theorem readWhole_toDigits (n : Nat) : Reads readWhole (Nat.toDigits 10 n) (Nat.toDigits 10 n) := by
  intro rest h
  rcases Nat.eq_zero_or_pos n with rfl | hpos
  · rfl
  · obtain ⟨c, cs, htext, hc⟩ := exists_toDigits_eq_cons_of_pos hpos
    have hread := h.readDigits (fun _ => isDigit_of_mem_toDigits) (Nat.toDigits_ne_nil (n := n))
    rw [htext, List.cons_append] at hread ⊢
    rw [readWhole, hread]
    exact fun _ heq => hc (List.cons.inj heq).1

/-- A written number is read back. -/
theorem readNumber_toDigits (n : Nat) : Reads readNumber (Nat.toDigits 10 n) n := by
  intro rest h
  have hwhole := readWhole_toDigits n rest h
  have hunsigned : readUnsigned false (Nat.toDigits 10 n ++ rest) = some (⟨false, n, 0⟩, rest) := by
    simp [readUnsigned, hwhole, h.readFraction, h.readExponent]
  have hdecimal : readDecimal (Nat.toDigits 10 n ++ rest) = some (⟨false, n, 0⟩, rest) := by
    rw [readDecimal, hunsigned]
    -- a number without a sign does not start with one
    intro cs heq
    obtain ⟨d, ds, htext, hd⟩ := exists_toDigits_eq_cons n
    rw [htext] at heq
    exact ne_of_isDigit hd rfl (List.cons.inj heq).1
  simp [readNumber, hdecimal, Decimal.toNat?]

/-! ### Lists -/

/-- What is written for items is at least as long as their number and as what is written for any of
them. -/
theorem length_le_intercalate {α : Type} (separator : List Char) {text : α → List Char}
    {items : List α} (hopens : ∀ item ∈ items, Opens (text item)) :
    items.length ≤ (separator.intercalate (items.map text)).length ∧
      ∀ item ∈ items, (text item).length ≤ (separator.intercalate (items.map text)).length := by
  induction items with
  | nil => exact ⟨Nat.zero_le _, fun _ h => nomatch h⟩
  | cons first rest ih =>
    obtain ⟨hfirst, hrest⟩ := List.forall_mem_cons.mp hopens
    obtain ⟨hcount, hlengths⟩ := ih hrest
    have hpos : 1 ≤ (text first).length := by
      obtain ⟨c, cs, htext, -⟩ := hfirst
      simp [htext]
    cases rest with
    | nil => simpa using hpos
    | cons second rest =>
      rw [List.map_cons] at hcount hlengths
      rw [List.map_cons, List.map_cons, List.intercalate_cons_cons, List.length_append,
        List.length_append, List.length_cons, List.forall_mem_cons]
      refine ⟨by omega, by omega, fun item hitem => ?_⟩
      have hlength := hlengths item hitem
      omega

/-- Texts with something between them start like the first of them. -/
theorem opens_intercalate (separator : List Char) {first : List Char} (h : Opens first)
    (rest : List (List Char)) : Opens (separator.intercalate (first :: rest)) := by
  obtain ⟨c, cs, rfl, hc⟩ := h
  cases rest with
  | nil => exact ⟨c, cs, List.intercalate_singleton, hc⟩
  | cons second rest => exact ⟨c, _, by rw [List.intercalate_cons_cons]; rfl, hc⟩

section Lists

variable {α : Type} {element : Reader α} {close : Char} {text : α → List Char}
  {gap gap' : List Char} (hclose : close = ']' ∨ close = '\x7d') (hgap : Blank gap)
  (hgap' : Blank gap')

include hclose hgap'

/-- What follows the last item of a list does not go on with a number. -/
theorem ends_gap (rest : List Char) : Ends (gap' ++ close :: rest) := by
  cases gap' with
  | nil => rcases hclose with rfl | rfl <;> exact ends_cons.mpr (by decide)
  | cons c cs =>
    have hc := hgap' c List.mem_cons_self
    simp only [isBlank, Bool.or_eq_true, decide_eq_true_eq] at hc
    rcases hc with ((rfl | rfl) | rfl) | rfl <;> exact ends_cons.mpr (by decide)

/-- White space in front of a closing bracket is skipped. -/
theorem skipBlanks_gap (rest : List Char) :
    skipBlanks (gap' ++ close :: rest) = close :: rest := by
  have hblank : isBlank close = false := by rcases hclose with rfl | rfl <;> rfl
  rw [skipBlanks, List.dropWhile_append_of_pos hgap', List.dropWhile_cons_of_neg (by simp [hblank])]

include hgap

/-- One or more items, with the same white space after each comma, are read back. -/
theorem readMore_intercalate {first : α} {more : List α}
    (hitems : ∀ item ∈ first :: more, Opens (text item) ∧ Reads element (text item) item)
    {bound : Nat} (hbound : more.length < bound) (rest : List Char) :
    readMore element close bound
        ((',' :: gap).intercalate ((first :: more).map text) ++ (gap' ++ close :: rest))
      = some (first :: more, rest) := by
  obtain ⟨bound, rfl⟩ : ∃ smaller, bound = smaller + 1 := ⟨bound - 1, by omega⟩
  induction more generalizing first bound with
  | nil =>
    have hcomma : close ≠ ',' := by rcases hclose with rfl | rfl <;> decide
    have hread := (hitems first List.mem_cons_self).2 _ (ends_gap hclose hgap' rest)
    have hskip := skipBlanks_gap hclose hgap' rest
    simp [readMore, hread, hskip, hcomma]
  | cons second more ih =>
    obtain ⟨hfirst, hitems⟩ := List.forall_mem_cons.mp hitems
    obtain ⟨bound, rfl⟩ : ∃ smaller, bound = smaller + 1 := ⟨bound - 1, by simp at hbound; omega⟩
    have hmore := ih hitems bound (Nat.lt_of_succ_lt_succ hbound)
    -- the text of the other items is kept together: all that is needed is how it starts
    have hopens : Opens ((',' :: gap).intercalate ((second :: more).map text)) :=
      opens_intercalate _ (hitems second List.mem_cons_self).1 _
    have htext : (',' :: gap).intercalate ((first :: second :: more).map text)
        = text first ++ ',' :: (gap ++ (',' :: gap).intercalate ((second :: more).map text)) := by
      simp
    rw [htext, List.append_assoc, List.cons_append, List.append_assoc]
    generalize (',' :: gap).intercalate ((second :: more).map text) = tail at hmore hopens
    have hread := hfirst.2 (',' :: (gap ++ (tail ++ (gap' ++ close :: rest))))
      (ends_cons.mpr (by decide))
    have hcomma (cs : List Char) : skipBlanks (',' :: cs) = ',' :: cs := rfl
    have hskip := hopens.skipBlanks_append hgap (gap' ++ close :: rest)
    rw [readMore, hread]
    simp [hcomma, hskip, hmore]

/-- Items with the same white space around each of them are read back. -/
theorem readList_intercalate {items : List α}
    (hitems : ∀ item ∈ items, Opens (text item) ∧ Reads element (text item) item)
    {bound : Nat} (hbound : items.length ≤ bound) (rest : List Char) :
    readList element close bound
        (gap ++ ((',' :: gap).intercalate (items.map text) ++ (gap' ++ close :: rest)))
      = some (items, rest) := by
  cases items with
  | nil =>
    have hblank : Blank (gap ++ gap') := List.forall_mem_append.mpr ⟨hgap, hgap'⟩
    have hskip := skipBlanks_gap hclose hblank rest
    simp only [readList, List.map_nil, List.intercalate_nil, List.nil_append, ← List.append_assoc,
      hskip, if_true]
  | cons first more =>
    have hopens := opens_intercalate (',' :: gap) (hitems first List.mem_cons_self).1
      (more.map text)
    have hskip := hopens.skipBlanks_append hgap (gap' ++ close :: rest)
    have hmore := readMore_intercalate hclose hgap hgap' hitems hbound rest
    obtain ⟨c, cs, htext, -, hbracket, hbrace⟩ := hopens
    have hc : c ≠ close := by rcases hclose with rfl | rfl <;> assumption
    rw [List.map_cons] at hmore ⊢
    rw [htext, List.cons_append] at hskip hmore ⊢
    simp only [readList, hskip, hc, if_false, hmore]

end Lists

/-! ### Values -/

theorem opens_quote (s : String) (rest : List Char) : Opens ((quote s).toList ++ rest) :=
  ⟨'"', _, by rw [toList_quote]; rfl, by decide⟩

theorem opens_memberText (member : String × Json) : Opens (memberText member) :=
  opens_quote member.1 _

theorem opens_render (v : Json) : Opens v.render.toList := by
  cases v with
  | null => exact ⟨'n', ['u', 'l', 'l'], rfl, by decide⟩
  | flag value => cases value <;> exact ⟨_, _, rfl, by decide⟩
  | number value =>
    obtain ⟨c, cs, htext, hc⟩ := exists_toDigits_eq_cons value
    refine ⟨c, cs, (toList_render_number value).trans htext, ?_, ne_of_isDigit hc rfl,
      ne_of_isDigit hc rfl⟩
    simp [isBlank, ne_of_isDigit hc]
  | text value => exact List.append_nil (quote value).toList ▸ opens_quote value []
  | array items => exact ⟨'[', _, toList_render_array items, by decide⟩
  | object members => exact ⟨'\x7b', _, toList_render_object members, by decide⟩

/-- A written member is read back if its value is. -/
theorem reads_memberText {value : Reader Json} {member : String × Json}
    (h : Reads value member.2.render.toList member.2) :
    Reads (readMember value) (memberText member) member := by
  intro rest hends
  have hkey := readText_quote member.1 (':' :: (member.2.render.toList ++ rest))
  have hcolon (cs : List Char) : skipBlanks (':' :: cs) = ':' :: cs := rfl
  have hskip : skipBlanks (member.2.render.toList ++ rest) = member.2.render.toList ++ rest :=
    (opens_render member.2).skipBlanks_append blank_nil rest
  rw [memberText, List.append_assoc, List.cons_append, readMember, hkey]
  simp [hcolon, hskip, h rest hends]

section Values

variable {bound : Nat}

/-- A written number is read back as a value. -/
theorem reads_number (value : Nat) :
    Reads (readValue (bound + 1)) (number value).render.toList (.number value) := by
  intro rest hends
  obtain ⟨c, cs, htext, hc⟩ := exists_toDigits_eq_cons value
  have hread := readNumber_toDigits value rest hends
  rw [toList_render_number]
  rw [htext, List.cons_append] at hread ⊢
  simp [readValue, ne_of_isDigit hc, hread]

theorem reads_text (value : String) :
    Reads (readValue (bound + 1)) (text value).render.toList (.text value) := by
  intro rest _
  have hread := readText_quote value rest
  rw [toList_quote, List.cons_append] at hread
  rw [render, toList_quote, List.cons_append, readValue, hread]
  rfl

/-- Items that are read back are read back from an array with white space around them. -/
theorem readValue_array {gap gap' : List Char} (hgap : Blank gap) (hgap' : Blank gap')
    {items : List Json}
    (hitems : ∀ item ∈ items, Reads (readValue bound) item.render.toList item)
    (hbound : items.length ≤ bound) (rest : List Char) :
    readValue (bound + 1) ('[' :: (gap ++ ((',' :: gap).intercalate
        (items.map fun item => item.render.toList) ++ (gap' ++ ']' :: rest))))
      = some (.array items, rest) := by
  have hread := readList_intercalate (.inl rfl) hgap hgap'
    (fun item hitem => ⟨opens_render item, hitems item hitem⟩) hbound rest
  rw [readValue, hread]
  rfl

/-- Members whose values are read back are read back from an object. -/
theorem readValue_object {members : List (String × Json)}
    (hmembers : ∀ member ∈ members, Reads (readValue bound) member.2.render.toList member.2)
    (hbound : members.length ≤ bound) (rest : List Char) :
    readValue (bound + 1)
        ('\x7b' :: ([','].intercalate (members.map memberText) ++ '\x7d' :: rest))
      = some (.object members, rest) := by
  have hread := readList_intercalate (.inr rfl) blank_nil blank_nil
    (fun member hmember => ⟨opens_memberText member, reads_memberText (hmembers member hmember)⟩)
    hbound rest
  rw [List.nil_append, List.nil_append] at hread
  rw [readValue, hread]
  rfl

/-- What can be an item is not empty, so a bound on its length is positive. -/
theorem Opens.exists_bound {text : List Char} (h : Opens text) (hlength : text.length ≤ bound) :
    ∃ smaller, bound = smaller + 1 := by
  obtain ⟨c, cs, rfl, -⟩ := h
  rw [List.length_cons] at hlength
  exact ⟨bound - 1, by omega⟩

/-- What is written is read back, with a bound that is no less than the length of the text. -/
theorem reads_render (v : Json) (h : v.render.toList.length ≤ bound) :
    Reads (readValue bound) v.render.toList v := by
  induction v using induction generalizing bound with
  | null =>
    obtain ⟨bound, rfl⟩ := (opens_render _).exists_bound h
    exact fun _ _ => rfl
  | flag value =>
    obtain ⟨bound, rfl⟩ := (opens_render _).exists_bound h
    cases value <;> exact fun _ _ => rfl
  | number value =>
    obtain ⟨bound, rfl⟩ := (opens_render _).exists_bound h
    exact reads_number value
  | text value =>
    obtain ⟨bound, rfl⟩ := (opens_render _).exists_bound h
    exact reads_text value
  | array items ih =>
    obtain ⟨bound, rfl⟩ := (opens_render _).exists_bound h
    obtain ⟨hcount, hlengths⟩ :=
      length_le_intercalate [','] fun item (_ : item ∈ items) => opens_render item
    rw [toList_render_array, List.length_cons, List.length_append, List.length_singleton] at h
    intro rest _
    have hitems : ∀ item ∈ items, Reads (readValue bound) item.render.toList item := by
      intro item hitem
      have hlength := hlengths item hitem
      exact ih item hitem (by omega)
    have hread := readValue_array blank_nil blank_nil hitems (by omega) rest
    simpa [toList_render_array] using hread
  | object members ih =>
    obtain ⟨bound, rfl⟩ := (opens_render _).exists_bound h
    obtain ⟨hcount, hlengths⟩ :=
      length_le_intercalate [','] fun member (_ : member ∈ members) => opens_memberText member
    rw [toList_render_object, List.length_cons, List.length_append, List.length_singleton] at h
    have hmembers : ∀ member ∈ members,
        Reads (readValue bound) member.2.render.toList member.2 := by
      intro member hmember
      have hlength := hlengths member hmember
      simp only [memberText, List.length_append, List.length_cons] at hlength
      exact ih member hmember (by omega)
    intro rest _
    have hread := readValue_object hmembers (by omega) rest
    simpa [toList_render_object] using hread

end Values

/-! ### Whole texts -/

/-- A text is decoded to the value that is read from it. -/
theorem decode_eq_some {text : String} {v : Json} (hopens : Opens text.toList)
    (h : readValue text.toList.length text.toList = some (v, [])) : decode text = some v := by
  have hskip := hopens.skipBlanks_append blank_nil []
  rw [List.append_nil, List.nil_append] at hskip
  rw [decode, hskip, ← String.length_toList, h]
  rfl

/-- What is written for a value is decoded to it. -/
theorem decode_render (v : Json) : decode v.render = some v := by
  have hread := reads_render v (Nat.le_refl _) [] ends_nil
  rw [List.append_nil] at hread
  exact decode_eq_some (opens_render v) hread

/-- Different values are written differently. -/
theorem render_injective {v w : Json} (h : v.render = w.render) : v = w :=
  Option.some.inj ((decode_render v).symm.trans (h ▸ decode_render w))

/-- Items with the same white space around each of them are decoded to an array. -/
theorem decode_array {gap gap' : List Char} (hgap : Blank gap) (hgap' : Blank gap')
    {items : List Json} {text : String} (htext : text.toList = '[' :: (gap ++
      ((',' :: gap).intercalate (items.map fun item => item.render.toList) ++ (gap' ++ [']'])))) :
    decode text = some (.array items) := by
  obtain ⟨hcount, hlengths⟩ :=
    length_le_intercalate (',' :: gap) fun item (_ : item ∈ items) => opens_render item
  obtain ⟨bound, hbound⟩ : ∃ bound, text.toList.length = bound + 1 := ⟨_, by rw [htext]; rfl⟩
  have hinner := hbound
  simp only [htext, List.length_cons, List.length_append] at hinner
  have hitems : ∀ item ∈ items, Reads (readValue bound) item.render.toList item := by
    intro item hitem
    have hlength := hlengths item hitem
    exact reads_render item (by omega)
  refine decode_eq_some ⟨'[', _, htext, by decide⟩ ?_
  rw [hbound, htext]
  exact readValue_array hgap hgap' hitems (by omega) []

/-! ### Control characters -/

/-- What holds of the characters of some texts and of what is between them holds of the whole. -/
theorem forall_mem_intercalate {P : Char → Prop} {separator : List Char}
    {texts : List (List Char)} (hseparator : ∀ c ∈ separator, P c)
    (htexts : ∀ text ∈ texts, ∀ c ∈ text, P c) : ∀ c ∈ separator.intercalate texts, P c := by
  induction texts with
  | nil => exact fun _ h => nomatch h
  | cons first rest ih =>
    obtain ⟨hfirst, hrest⟩ := List.forall_mem_cons.mp htexts
    cases rest with
    | nil => rwa [List.intercalate_singleton]
    | cons second rest =>
      rw [List.intercalate_cons_cons, List.forall_mem_append, List.forall_mem_append]
      exact ⟨⟨hfirst, hseparator⟩, ih hrest⟩

theorem isControl_of_isDigit {c : Char} (h : c.isDigit = true) : isControl c = false := by
  simp only [Char.isDigit, Bool.and_eq_true, decide_eq_true_eq, ge_iff_le,
    UInt32.le_iff_toNat_le] at h
  have hlow : 48 ≤ c.toNat := h.1
  have hhigh : c.toNat ≤ 57 := h.2
  simp only [isControl, Bool.or_eq_false_iff, Bool.and_eq_false_iff, decide_eq_false_iff_not]
  omega

/-- The digits of a code point are no control characters. -/
theorem isControl_of_mem_hex4 (n : Nat) : ∀ c ∈ hex4 n, isControl c = false := by
  have hdigit : ∀ k < 16, isControl (Nat.digitChar k) = false := by decide
  refine List.forall_mem_map.mpr fun k hk => hdigit k ?_
  simp only [List.mem_cons, List.not_mem_nil, or_false] at hk
  omega

/-- What stands for a character has no control character, whatever the character is. -/
theorem isControl_of_mem_escape (c : Char) : ∀ d ∈ escape c, isControl d = false := by
  obtain ⟨d, hescape, hd, -⟩ | ⟨-, hescape⟩ | ⟨hc, -, -, hescape⟩ := escape_cases c <;>
    simp only [hescape, List.forall_mem_cons]
  · exact ⟨rfl, hd, fun _ h => nomatch h⟩
  · exact ⟨rfl, rfl, isControl_of_mem_hex4 _⟩
  · exact ⟨hc, fun _ h => nomatch h⟩

/-- A quoted text has no control character. -/
theorem isControl_of_mem_quote (s : String) : ∀ c ∈ (quote s).toList, isControl c = false := by
  rw [toList_quote, List.forall_mem_cons, List.forall_mem_append, List.forall_mem_flatMap]
  exact ⟨rfl, fun c _ => isControl_of_mem_escape c, List.forall_mem_singleton.mpr rfl⟩

/-- No written text has a control character. -/
theorem isControl_of_mem_render (v : Json) : ∀ c ∈ v.render.toList, isControl c = false := by
  induction v using induction with
  | null => simp [render, isControl]
  | flag value => cases value <;> simp [render, isControl]
  | number value =>
    rw [toList_render_number]
    exact fun c hc => isControl_of_isDigit (isDigit_of_mem_toDigits hc)
  | text value => exact isControl_of_mem_quote value
  | array items ih =>
    rw [toList_render_array, List.forall_mem_cons, List.forall_mem_append]
    exact ⟨rfl, forall_mem_intercalate (List.forall_mem_singleton.mpr rfl)
      (List.forall_mem_map.mpr ih), List.forall_mem_singleton.mpr rfl⟩
  | object members ih =>
    rw [toList_render_object, List.forall_mem_cons, List.forall_mem_append]
    refine ⟨rfl, forall_mem_intercalate (List.forall_mem_singleton.mpr rfl)
      (List.forall_mem_map.mpr fun m hm => ?_), List.forall_mem_singleton.mpr rfl⟩
    rw [memberText, List.forall_mem_append, List.forall_mem_cons]
    exact ⟨isControl_of_mem_quote m.1, rfl, ih m hm⟩

end Lucha.Json
