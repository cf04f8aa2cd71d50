import Lucha.Proofs.Token.Word

/-!
# Where each piece of a text stops

A text spells a kind of token (`TokenKind.SpelledBy`), one at most. The scan takes the longest
stretch of a text that spells a kind (`TokenKind.Longest`), and for that it looks no further than to
the next character (`longest_iff`). So the first piece of a text is the one that fits there
(`Piece.first_eq_iff`), and the pieces of a text are the only ones that make up the text and each
fit where they stand (`Piece.ofChars_eq_iff`).
-/

namespace Lucha

/-! ### What a text spells -/

/-- A letter of names and characters of names behind it. -/
def IsWord (text : List Char) : Prop :=
  ∃ c cs, text = c :: cs ∧ isLetter c = true ∧ ∀ d ∈ cs, isNameChar d = true

namespace Symbol

/-- A symbol of one character is looked up by that character. -/
theorem ofChar?_eq_some_iff {c : Char} {m : Symbol} :
    ofChar? c = some m ↔ m.text.toList = [c] := by
  constructor
  · intro h
    unfold ofChar? at h
    split at h <;> cases h <;> rfl
  · intro h
    cases m <;> cases h <;> rfl

/-- A symbol of two characters ends with an equals sign, and is looked up by the first one. -/
theorem ofCharEquals?_eq_some_iff {c : Char} {m : Symbol} :
    ofCharEquals? c = some m ↔ m.text.toList = [c, '='] := by
  constructor
  · intro h
    unfold ofCharEquals? at h
    split at h <;> cases h <;> rfl
  · intro h
    cases m <;> cases h <;> rfl

/-- A symbol is one character, or one and an equals sign. -/
theorem text_cases (m : Symbol) : ∃ c, m.text.toList = [c] ∨ m.text.toList = [c, '='] := by
  cases m with
  | atMost => exact ⟨_, .inr rfl⟩
  | atLeast => exact ⟨_, .inr rfl⟩
  | equal => exact ⟨_, .inr rfl⟩
  | unequal => exact ⟨_, .inr rfl⟩
  | _ => exact ⟨_, .inl rfl⟩

theorem text_injective {m m' : Symbol} (h : m.text.toList = m'.text.toList) : m = m' := by
  obtain ⟨c, hc | hc⟩ := m.text_cases
  · exact Option.some.inj
      ((ofChar?_eq_some_iff.mpr hc).symm.trans (ofChar?_eq_some_iff.mpr (h.symm.trans hc)))
  · exact Option.some.inj ((ofCharEquals?_eq_some_iff.mpr hc).symm.trans
      (ofCharEquals?_eq_some_iff.mpr (h.symm.trans hc)))

/-- No symbol has a character of words, numerals, blanks or comments. -/
theorem classes {m : Symbol} {c : Char} (h : c ∈ m.text.toList) :
    isLetter c = false ∧ c.isDigit = false ∧ isSpacing c = false ∧ c ≠ '/' := by
  have hall : m.text.toList.all fun c =>
      !isLetter c && !c.isDigit && !isSpacing c && c ≠ '/' := by
    cases m <;> decide
  simpa [and_assoc] using List.all_eq_true.mp hall c h

end Symbol

namespace TokenKind

/-- The kind is what a text spells. A word is reserved if it is a reserved word in lower case, and
else it is an identifier; a numeral has its decimal value, or the largest one if that is less. -/
def SpelledBy (kind : TokenKind) (text : List Char) : Prop :=
  match kind with
  | keyword k => IsWord text ∧ String.ofList (text.map lowerLetter) = k.text
  | ident name => IsWord text ∧ (∀ k : Keyword, String.ofList (text.map lowerLetter) ≠ k.text) ∧
      name = String.ofList text
  | number value => text ≠ [] ∧ (∀ c ∈ text, c.isDigit = true) ∧
      value = min (Nat.ofDigitChars 10 text 0) largestNumeral
  | symbol m => text = m.text.toList
  | endOfInput => False

/-- No longer stretch of the text that goes on with some more spells a kind of token. -/
def Longest (text rest : List Char) : Prop :=
  ∀ more, more ≠ [] → more <+: rest → ∀ kind : TokenKind, ¬ kind.SpelledBy (text ++ more)

/-- Whether a character behind a token of the kind belongs to the token. -/
def goesOn (kind : TokenKind) (c : Char) : Bool :=
  match kind with
  | keyword _ => isNameChar c
  | ident _ => isNameChar c
  | number _ => c.isDigit
  | symbol m => (m = .less || m = .greater || m = .assign) && c = '='
  | endOfInput => false

variable {kind kind' : TokenKind} {text rest more cs : List Char} {c d : Char}

theorem goesOn_wordKind (text : List Char) (d : Char) :
    (wordKind text).goesOn d = isNameChar d := by
  rw [wordKind]
  split <;> rfl

/-- No token goes on with a blank or a comment. -/
theorem goesOn_classes (h : kind.goesOn d = true) : isSpacing d = false ∧ d ≠ '/' := by
  cases kind with
  | keyword k => exact isNameChar_classes h
  | ident name => exact isNameChar_classes h
  | number value => exact ⟨(isDigit_classes h).1, (isDigit_classes h).2.1⟩
  | symbol m =>
    obtain rfl : d = '=' := of_decide_eq_true ((Bool.and_eq_true _ _).mp h).2
    decide
  | endOfInput => cases h

/-- Nothing goes on with a symbol of two characters. -/
theorem goesOn_symbol_pair {m : Symbol} (h : m.text.toList = [c, '=']) (d : Char) :
    (symbol m).goesOn d = false := by
  cases m with
  | less => cases h
  | greater => cases h
  | assign => cases h
  | _ => rfl

/-- A word spells a reserved word or an identifier. -/
theorem spelledBy_wordKind (h : IsWord text) : (wordKind text).SpelledBy text := by
  rw [wordKind]
  split
  · rename_i k hk
    exact ⟨h, Keyword.ofText?_eq_some_iff.mp hk⟩
  · rename_i hnone
    exact ⟨h, fun k hk => Option.some_ne_none k
      ((Keyword.ofText?_eq_some_iff.mpr hk).symm.trans hnone), rfl⟩

theorem spelledBy_number (hne : text ≠ []) (hdigits : ∀ c ∈ text, c.isDigit = true) :
    (number (numeralValue text)).SpelledBy text :=
  ⟨hne, hdigits, numeralValue_eq text⟩

/-- What begins with a letter is spelled by a word only. -/
theorem SpelledBy.of_letter (h : kind.SpelledBy (c :: cs)) (hc : isLetter c = true) :
    IsWord (c :: cs) ∧ kind = wordKind (c :: cs) := by
  cases kind with
  | keyword k => exact ⟨h.1, by rw [wordKind, h.2, Keyword.ofText?_text]⟩
  | ident name =>
    obtain ⟨hword, hfree, rfl⟩ := h
    have hname : IsName (String.ofList (c :: cs)) :=
      ⟨by rwa [String.toList_ofList], by rwa [String.toList_ofList]⟩
    have hkind := hname.wordKind_eq
    rw [String.toList_ofList] at hkind
    exact ⟨hword, hkind.symm⟩
  | number value =>
    have hdigit := h.2.1 c List.mem_cons_self
    rw [(isLetter_classes hc).2.2.1] at hdigit
    cases hdigit
  | symbol m =>
    have hsymbol := (Symbol.classes (h ▸ List.mem_cons_self)).1
    rw [hc] at hsymbol
    cases hsymbol
  | endOfInput => exact h.elim

/-- What begins with a digit is spelled by a numeral only. -/
theorem SpelledBy.of_digit (h : kind.SpelledBy (c :: cs)) (hc : c.isDigit = true) :
    (∀ d ∈ c :: cs, d.isDigit = true) ∧ kind = number (numeralValue (c :: cs)) := by
  have hletter : ¬ IsWord (c :: cs) := by
    rintro ⟨_, _, ⟨⟩, hletter, -⟩
    rw [(isDigit_classes hc).2.2.1] at hletter
    cases hletter
  cases kind with
  | keyword k => exact absurd h.1 hletter
  | ident name => exact absurd h.1 hletter
  | number value => exact ⟨h.2.1, by rw [numeralValue_eq, h.2.2]⟩
  | symbol m =>
    have hsymbol := (Symbol.classes (h ▸ List.mem_cons_self)).2.1
    rw [hc] at hsymbol
    cases hsymbol
  | endOfInput => exact h.elim

/-- What begins otherwise is spelled by a symbol only. -/
theorem SpelledBy.of_other (h : kind.SpelledBy (c :: cs)) (hletter : isLetter c = false)
    (hdigit : c.isDigit = false) : ∃ m, kind = symbol m ∧ m.text.toList = c :: cs := by
  have hword : ¬ IsWord (c :: cs) := by
    rintro ⟨_, _, ⟨⟩, hc, -⟩
    rw [hletter] at hc
    cases hc
  cases kind with
  | keyword k => exact absurd h.1 hword
  | ident name => exact absurd h.1 hword
  | number value =>
    have hc := h.2.1 c List.mem_cons_self
    rw [hdigit] at hc
    cases hc
  | symbol m => exact ⟨m, rfl, h.symm⟩
  | endOfInput => exact h.elim

theorem SpelledBy.ne_nil (h : kind.SpelledBy text) : text ≠ [] := by
  cases kind with
  | keyword k =>
    obtain ⟨⟨c, cs, rfl, -⟩, -⟩ := h
    exact List.cons_ne_nil c cs
  | ident name =>
    obtain ⟨⟨c, cs, rfl, -⟩, -⟩ := h
    exact List.cons_ne_nil c cs
  | number value => exact h.1
  | symbol m =>
    obtain ⟨c, hc | hc⟩ := m.text_cases <;> exact h.trans hc ▸ List.cons_ne_nil _ _
  | endOfInput => exact h.elim

/-- No token has a character of blanks or comments. -/
theorem SpelledBy.classes (h : kind.SpelledBy text) (hc : c ∈ text) :
    isSpacing c = false ∧ c ≠ '/' := by
  have hword (hword : IsWord text) : isSpacing c = false ∧ c ≠ '/' := by
    obtain ⟨d, ds, rfl, hd, hds⟩ := hword
    obtain rfl | hmem := List.mem_cons.mp hc
    · exact isNameChar_classes ((Bool.or_eq_true _ _).mpr (.inl hd))
    · exact isNameChar_classes (hds c hmem)
  cases kind with
  | keyword k => exact hword h.1
  | ident name => exact hword h.1
  | number value =>
    have hdigit := isDigit_classes (h.2.1 c hc)
    exact ⟨hdigit.1, hdigit.2.1⟩
  | symbol m => exact (Symbol.classes (h ▸ hc)).2.2
  | endOfInput => exact h.elim

/-- A text spells one kind at most. -/
theorem SpelledBy.unique (h : kind.SpelledBy text) (h' : kind'.SpelledBy text) : kind = kind' := by
  obtain ⟨c, cs, rfl⟩ := List.exists_cons_of_ne_nil h.ne_nil
  cases hletter : isLetter c with
  | true => exact (h.of_letter hletter).2.trans (h'.of_letter hletter).2.symm
  | false =>
    cases hdigit : c.isDigit with
    | true => exact (h.of_digit hdigit).2.trans (h'.of_digit hdigit).2.symm
    | false =>
      obtain ⟨m, rfl, hm⟩ := h.of_other hletter hdigit
      obtain ⟨m', rfl, hm'⟩ := h'.of_other hletter hdigit
      rw [Symbol.text_injective (hm.trans hm'.symm)]

/-- A token goes on with the character that makes a longer token of it. -/
theorem SpelledBy.goesOn (h : kind.SpelledBy text) (h' : kind'.SpelledBy (text ++ d :: more)) :
    kind.goesOn d = true := by
  obtain ⟨c, cs, rfl⟩ := List.exists_cons_of_ne_nil h.ne_nil
  rw [List.cons_append] at h'
  have hmem : d ∈ cs ++ d :: more := List.mem_append_right _ List.mem_cons_self
  cases hletter : isLetter c with
  | true =>
    obtain ⟨⟨_, _, ⟨⟩, -, hnames⟩, -⟩ := h'.of_letter hletter
    rw [(h.of_letter hletter).2, goesOn_wordKind]
    exact hnames d hmem
  | false =>
    cases hdigit : c.isDigit with
    | true =>
      rw [(h.of_digit hdigit).2]
      exact (h'.of_digit hdigit).1 d (List.mem_cons_of_mem _ hmem)
    | false =>
      obtain ⟨m, rfl, hm⟩ := h.of_other hletter hdigit
      obtain ⟨m', rfl, hm'⟩ := h'.of_other hletter hdigit
      -- the longer symbol is the shorter one and an equals sign
      obtain ⟨e, he | he⟩ := m'.text_cases
      · obtain ⟨-, hnil⟩ := List.cons.inj (hm'.symm.trans he)
        simp at hnil
      · obtain ⟨rfl, hpair⟩ := List.cons.inj (hm'.symm.trans he)
        obtain ⟨rfl, rfl, -⟩ : cs = [] ∧ d = '=' ∧ more = [] := by
          simpa [List.append_eq_singleton_iff] using hpair
        cases m' <;> cases he <;> cases m <;> cases hm <;> rfl

/-- A character that a token goes on with makes a longer token of it. -/
theorem SpelledBy.exists_concat (h : kind.SpelledBy text) (hd : kind.goesOn d = true) :
    ∃ kind' : TokenKind, kind'.SpelledBy (text ++ [d]) := by
  have hword (hword : IsWord text) (hd : isNameChar d = true) :
      ∃ kind' : TokenKind, kind'.SpelledBy (text ++ [d]) := by
    obtain ⟨c, cs, rfl, hc, hcs⟩ := hword
    exact ⟨_, spelledBy_wordKind ⟨c, cs ++ [d], rfl, hc,
      List.forall_mem_append.mpr ⟨hcs, List.forall_mem_singleton.mpr hd⟩⟩⟩
  cases kind with
  | keyword k => exact hword h.1 hd
  | ident name => exact hword h.1 hd
  | number value =>
    exact ⟨_, spelledBy_number (by simp)
      (List.forall_mem_append.mpr ⟨h.2.1, List.forall_mem_singleton.mpr hd⟩)⟩
  | symbol m =>
    obtain rfl : text = m.text.toList := h
    simp only [TokenKind.goesOn, Bool.and_eq_true, Bool.or_eq_true, decide_eq_true_eq] at hd
    obtain ⟨(rfl | rfl) | rfl, rfl⟩ := hd
    · exact ⟨symbol .atMost, rfl⟩
    · exact ⟨symbol .atLeast, rfl⟩
    · exact ⟨symbol .equal, rfl⟩
  | endOfInput => exact h.elim

/-- A token is the longest one if the next character does not go on with it. -/
theorem longest_iff (h : kind.SpelledBy text) :
    Longest text rest ↔ ∀ d ∈ rest.head?, kind.goesOn d = false := by
  constructor
  · intro hlongest d hd
    obtain ⟨tail, rfl⟩ := List.head?_eq_some_iff.mp hd
    rw [Bool.eq_false_iff]
    intro hgoes
    obtain ⟨kind', h'⟩ := h.exists_concat hgoes
    exact hlongest [d] (by simp) ⟨tail, rfl⟩ kind' h'
  · rintro hstop (_ | ⟨d, more⟩) hne ⟨tail, rfl⟩ kind' h'
    · exact hne rfl
    · have hgoes := hstop d rfl
      rw [h.goesOn h'] at hgoes
      cases hgoes

end TokenKind

/-! ### The first piece of a text -/

/-- A stretch of characters of a class ends where none follows. -/
theorem takeWhile_of_run {p : Char → Bool} {run rest : List Char} (hrun : ∀ c ∈ run, p c = true)
    (hrest : ∀ d ∈ rest.head?, p d = false) :
    (run ++ rest).takeWhile p = run ∧ (run ++ rest).dropWhile p = rest := by
  rw [List.takeWhile_append_of_pos hrun, List.dropWhile_append_of_pos hrun]
  cases rest with
  | nil => simp
  | cons d rest =>
    have hd := hrest d rfl
    simp [hd]

theorem head?_dropWhile (p : Char → Bool) (cs : List Char) :
    ∀ d ∈ (cs.dropWhile p).head?, p d = false := by
  intro d hd
  have hnot := List.head?_dropWhile_not p cs
  rw [hd] at hnot
  simpa using hnot

namespace Piece

/-- The piece belongs where it stands before some text. Blanks and comments go on as far as they
can, a lexeme is the longest stretch there that spells a kind of token, and with a stray character
neither begins. -/
def Fits (piece : Piece) (rest : List Char) : Prop :=
  match piece with
  | spacing text => text ≠ [] ∧ (∀ c ∈ text, isSpacing c = true) ∧
      ∀ d ∈ rest.head?, isSpacing d = false
  | comment text => (∃ body, text = '/' :: '/' :: body ∧ '\n' ∉ body) ∧ ∀ d ∈ rest.head?, d = '\n'
  | lexeme kind text => kind.SpelledBy text ∧ TokenKind.Longest text rest
  | stray c => isSpacing c = false ∧ ¬ (c = '/' ∧ rest.head? = some '/') ∧
      ∀ (text : List Char) (kind : TokenKind), text <+: c :: rest → ¬ kind.SpelledBy text

open TokenKind (longest_iff spelledBy_wordKind spelledBy_number goesOn_wordKind goesOn_symbol_pair)

variable {piece : Piece} {c : Char} {cs rest : List Char}

/-- A symbol of two characters comes before one of a single character. -/
private theorem firstMark_cases (c : Char) (cs : List Char) :
    (∃ m rest, m.text.toList = [c, '='] ∧ cs = '=' :: rest ∧
      firstMark c cs = (lexeme (.symbol m) [c, '='], rest)) ∨
    (∀ m : Symbol, m.text.toList = [c, '='] → cs.head? ≠ some '=') ∧
      ((∃ m, m.text.toList = [c] ∧ firstMark c cs = (lexeme (.symbol m) [c], cs)) ∨
        (∀ m : Symbol, m.text.toList ≠ [c]) ∧ firstMark c cs = (stray c, cs)) := by
  simp only [← Symbol.ofChar?_eq_some_iff, ← Symbol.ofCharEquals?_eq_some_iff, ne_eq]
  unfold firstMark
  split
  · rename_i m rest hm
    exact .inl ⟨m, rest, hm, rfl, rfl⟩
  · rename_i hpair
    refine .inr ⟨fun m hm hhead => ?_, ?_⟩
    · obtain ⟨tail, rfl⟩ := List.head?_eq_some_iff.mp hhead
      exact hpair m tail hm rfl
    · cases hm : Symbol.ofChar? c with
      | some m => exact .inl ⟨m, rfl, rfl⟩
      | none => exact .inr ⟨nofun, rfl⟩

/-- Where no white space, comment, numeral or word begins, the first piece is the longest symbol
there or a stray character, and fits. -/
private theorem fits_firstMark (hspacing : isSpacing c = false)
    (hcomment : ¬ (c = '/' ∧ cs.head? = some '/')) (hdigit : c.isDigit = false)
    (hletter : isLetter c = false) : (firstMark c cs).1.Fits (firstMark c cs).2 := by
  obtain ⟨m, rest, hm, rfl, hfirst⟩ | ⟨hpair, ⟨m, hm, hfirst⟩ | ⟨hsingle, hfirst⟩⟩ :=
    firstMark_cases c cs
  · rw [hfirst]
    have hspelled : (TokenKind.symbol m).SpelledBy [c, '='] := hm.symm
    exact ⟨hspelled, (longest_iff hspelled).mpr fun d _ => goesOn_symbol_pair hm d⟩
  · rw [hfirst]
    refine ⟨hm.symm, fun more hne hmore kind hkind => ?_⟩
    obtain ⟨m', -, hm'⟩ := hkind.of_other hletter hdigit
    -- a longer symbol would have the equals sign that does not follow
    obtain ⟨e, he | he⟩ := m'.text_cases
    · exact hne (List.cons.inj (hm'.symm.trans he)).2
    · obtain ⟨rfl, rfl⟩ : c = e ∧ more = ['='] := List.cons.inj (hm'.symm.trans he)
      obtain ⟨tail, rfl⟩ := hmore
      exact hpair m' he rfl
  · rw [hfirst]
    refine ⟨hspacing, hcomment, fun text kind hprefix hkind => ?_⟩
    obtain ⟨d, ds, rfl⟩ := List.exists_cons_of_ne_nil hkind.ne_nil
    obtain ⟨rfl, hds⟩ := List.cons_prefix_cons.mp hprefix
    obtain ⟨m, -, hm⟩ := hkind.of_other hletter hdigit
    obtain ⟨e, he | he⟩ := m.text_cases
    · obtain ⟨rfl, rfl⟩ := List.cons.inj (hm.symm.trans he)
      exact hsingle m hm
    · obtain ⟨rfl, rfl⟩ := List.cons.inj (hm.symm.trans he)
      obtain ⟨tail, rfl⟩ := hds
      exact hpair m hm rfl

/-- The first piece of a text belongs there. -/
theorem fits_first (c : Char) (cs : List Char) : (first c cs).1.Fits (first c cs).2 := by
  rw [first]
  split
  · rename_i hspacing
    exact ⟨List.cons_ne_nil _ _, List.forall_mem_cons.mpr
      ⟨hspacing, fun d hd => List.all_eq_true.mp List.all_takeWhile d hd⟩, head?_dropWhile _ _⟩
  · rename_i hspacing
    split
    · rename_i hcomment
      obtain ⟨rfl, hslash⟩ := hcomment
      obtain ⟨tail, rfl⟩ := List.head?_eq_some_iff.mp hslash
      refine ⟨⟨tail.takeWhile (· ≠ '\n'), rfl, fun hmem => ?_⟩, fun d hd => ?_⟩
      · simpa using List.all_eq_true.mp List.all_takeWhile _ hmem
      · simpa using head?_dropWhile _ _ d hd
    · rename_i hcomment
      split
      · rename_i hdigit
        have hdigits : ∀ d ∈ c :: cs.takeWhile Char.isDigit, d.isDigit = true :=
          List.forall_mem_cons.mpr
            ⟨hdigit, fun d hd => List.all_eq_true.mp List.all_takeWhile d hd⟩
        have hspelled := spelledBy_number (List.cons_ne_nil _ _) hdigits
        exact ⟨hspelled, (longest_iff hspelled).mpr (head?_dropWhile _ _)⟩
      · rename_i hdigit
        split
        · rename_i hletter
          have hspelled : (wordKind (c :: cs.takeWhile isNameChar)).SpelledBy
              (c :: cs.takeWhile isNameChar) :=
            spelledBy_wordKind ⟨c, _, rfl, hletter,
              fun d hd => List.all_eq_true.mp List.all_takeWhile d hd⟩
          refine ⟨hspelled, (longest_iff hspelled).mpr fun d hd => ?_⟩
          rw [goesOn_wordKind]
          exact head?_dropWhile _ _ d hd
        · rename_i hletter
          exact fits_firstMark (by simpa using hspacing) hcomment (by simpa using hdigit)
            (by simpa using hletter)

/-- A symbol is the first piece where no longer stretch spells a kind of token. -/
private theorem first_of_symbol {kind : TokenKind} {text : List Char}
    (hspelled : kind.SpelledBy (c :: text)) (hlongest : TokenKind.Longest (c :: text) rest)
    (hdigit : c.isDigit = false) (hletter : isLetter c = false) :
    firstMark c (text ++ rest) = (lexeme kind (c :: text), rest) := by
  obtain ⟨m, rfl, hm⟩ := hspelled.of_other hletter hdigit
  obtain ⟨m', tail, hm', htail, hfirst⟩ | ⟨hpair, ⟨m', hm', hfirst⟩ | ⟨hsingle, hfirst⟩⟩ :=
    firstMark_cases c (text ++ rest)
  · obtain ⟨e, he | he⟩ := m.text_cases
    · -- the equals sign would make a longer symbol
      obtain ⟨rfl, rfl⟩ := List.cons.inj (hm.symm.trans he)
      rw [List.nil_append] at htail
      subst htail
      exact absurd hm'.symm
        (hlongest ['='] (by simp) ⟨tail, rfl⟩ (.symbol m'))
    · obtain ⟨rfl, rfl⟩ := List.cons.inj (hm.symm.trans he)
      obtain rfl : rest = tail := (List.cons.inj htail).2
      rw [hfirst, Symbol.text_injective (hm'.trans hm.symm)]
  · obtain ⟨e, he | he⟩ := m.text_cases
    · obtain ⟨rfl, rfl⟩ := List.cons.inj (hm.symm.trans he)
      rw [hfirst, Symbol.text_injective (hm'.trans hm.symm)]
      rfl
    · obtain ⟨rfl, rfl⟩ := List.cons.inj (hm.symm.trans he)
      exact absurd rfl (hpair m hm)
  · obtain ⟨e, he | he⟩ := m.text_cases
    · obtain ⟨rfl, rfl⟩ := List.cons.inj (hm.symm.trans he)
      exact absurd hm (hsingle m)
    · obtain ⟨rfl, rfl⟩ := List.cons.inj (hm.symm.trans he)
      exact absurd rfl (hpair m hm)

/-- A piece that belongs at the start of a text is the first one. -/
theorem first_of_fits (h : piece.Fits rest) (htext : piece.text ++ rest = c :: cs) :
    first c cs = (piece, rest) := by
  rw [first]
  cases piece with
  | spacing text =>
    obtain ⟨hne, hrun, hrest⟩ := h
    obtain ⟨d, ds, rfl⟩ := List.exists_cons_of_ne_nil hne
    obtain ⟨rfl, rfl⟩ : d = c ∧ ds ++ rest = cs := List.cons.inj htext
    obtain ⟨hd, hds⟩ := List.forall_mem_cons.mp hrun
    obtain ⟨htake, hdrop⟩ := takeWhile_of_run hds hrest
    rw [if_pos hd, htake, hdrop]
  | comment text =>
    obtain ⟨⟨body, rfl, hbody⟩, hrest⟩ := h
    obtain ⟨rfl, rfl⟩ : '/' = c ∧ '/' :: body ++ rest = cs := List.cons.inj htext
    have hrun : ∀ d ∈ '/' :: body, decide (d ≠ '\n') = true := by
      refine List.forall_mem_cons.mpr ⟨by decide, fun d hd => decide_eq_true ?_⟩
      rintro rfl
      exact hbody hd
    obtain ⟨htake, hdrop⟩ := takeWhile_of_run hrun fun d hd => by simpa using hrest d hd
    rw [if_neg (by decide), if_pos ⟨rfl, rfl⟩, htake, hdrop]
  | lexeme kind text =>
    obtain ⟨hspelled, hlongest⟩ := h
    obtain ⟨d, ds, rfl⟩ := List.exists_cons_of_ne_nil hspelled.ne_nil
    obtain ⟨rfl, rfl⟩ : d = c ∧ ds ++ rest = cs := List.cons.inj htext
    obtain ⟨hspacing, hslash⟩ := hspelled.classes List.mem_cons_self
    have hstop := (longest_iff hspelled).mp hlongest
    rw [if_neg (by simp [hspacing]), if_neg fun hcomment => hslash hcomment.1]
    split
    · rename_i hdigit
      obtain ⟨hdigits, rfl⟩ := hspelled.of_digit hdigit
      obtain ⟨htake, hdrop⟩ := takeWhile_of_run (List.forall_mem_cons.mp hdigits).2 hstop
      simp only [htake, hdrop]
    · rename_i hdigit
      split
      · rename_i hletter
        obtain ⟨⟨_, _, ⟨⟩, -, hnames⟩, rfl⟩ := hspelled.of_letter hletter
        obtain ⟨htake, hdrop⟩ := takeWhile_of_run hnames fun e he =>
          (goesOn_wordKind _ e).symm.trans (hstop e he)
        simp only [htake, hdrop]
      · rename_i hletter
        exact first_of_symbol hspelled hlongest (by simpa using hdigit) (by simpa using hletter)
  | stray d =>
    obtain ⟨hspacing, hcomment, hnone⟩ := h
    obtain ⟨rfl, rfl⟩ : d = c ∧ rest = cs := List.cons.inj htext
    have hsingle : [d] <+: d :: rest := ⟨rest, rfl⟩
    rw [if_neg (by simp [hspacing]), if_neg hcomment, if_neg, if_neg]
    · obtain ⟨m, tail, hm, rfl, -⟩ | ⟨-, ⟨m, hm, -⟩ | ⟨-, hfirst⟩⟩ := firstMark_cases d rest
      · exact absurd hm.symm (hnone [d, '='] (.symbol m) ⟨tail, rfl⟩)
      · exact absurd hm.symm (hnone [d] (.symbol m) hsingle)
      · exact hfirst
    · intro hletter
      exact hnone [d] _ hsingle (spelledBy_wordKind ⟨d, [], rfl, hletter, List.forall_mem_nil _⟩)
    · intro hdigit
      exact hnone [d] _ hsingle
        (spelledBy_number (by simp) (List.forall_mem_singleton.mpr hdigit))

/-- A piece that fits is not empty. -/
theorem Fits.text_ne_nil (h : piece.Fits rest) : piece.text ≠ [] := by
  cases piece with
  | spacing text => exact h.1
  | comment text =>
    obtain ⟨⟨body, rfl, -⟩, -⟩ := h
    exact List.cons_ne_nil _ _
  | lexeme kind text => exact h.1.ne_nil
  | stray c => exact List.cons_ne_nil c []

/-- A piece that belongs before some text belongs before less of it. -/
theorem Fits.of_append {more : List Char} (h : piece.Fits (rest ++ more)) : piece.Fits rest := by
  have hhead {d : Char} (hd : d ∈ rest.head?) : d ∈ (rest ++ more).head? := by
    obtain ⟨tail, rfl⟩ := List.head?_eq_some_iff.mp hd
    rfl
  cases piece with
  | spacing text => exact ⟨h.1, h.2.1, fun d hd => h.2.2 d (hhead hd)⟩
  | comment text => exact ⟨h.1, fun d hd => h.2 d (hhead hd)⟩
  | lexeme kind text =>
    exact ⟨h.1, fun ds hne hds => h.2 ds hne (hds.trans (List.prefix_append _ _))⟩
  | stray c =>
    exact ⟨h.1, fun hcomment => h.2.1 ⟨hcomment.1, hhead hcomment.2⟩, fun text kind htext =>
      h.2.2 text kind (htext.trans (List.prefix_append (c :: rest) more))⟩

/-- The first piece of a text is the one that belongs there. -/
theorem first_eq_iff :
    first c cs = (piece, rest) ↔ piece.text ++ rest = c :: cs ∧ piece.Fits rest := by
  constructor
  · intro h
    have hfits := fits_first c cs
    have htext := text_first_append c cs
    rw [h] at hfits htext
    exact ⟨htext, hfits⟩
  · rintro ⟨htext, hfits⟩
    exact first_of_fits hfits htext

/-! ### The pieces of a text -/

/-- The pieces each belong where they stand, before those behind them. -/
def FitTogether : List Piece → Prop
  | [] => True
  | piece :: rest => piece.Fits (rest.flatMap text) ∧ FitTogether rest

theorem fitTogether_append {xs ys : List Piece} (h : FitTogether (xs ++ ys)) : FitTogether ys := by
  induction xs with
  | nil => exact h
  | cons x xs ih => exact ih h.2

/-- Pieces that fit together do so without those behind them. -/
theorem FitTogether.of_append {xs ys : List Piece} (h : FitTogether (xs ++ ys)) :
    FitTogether xs := by
  induction xs with
  | nil => trivial
  | cons x xs ih =>
    obtain ⟨hfits, hrest⟩ := h
    rw [List.append_eq, List.flatMap_append] at hfits
    exact ⟨hfits.of_append, ih hrest⟩

/-- The pieces of a text fit together, by induction on the text. -/
theorem fitTogether_ofChars (cs : List Char) : FitTogether (ofChars cs) := by
  -- a piece may take many characters, so the induction is on their number
  induction hn : cs.length using Nat.strongRecOn generalizing cs with
  | _ n ih =>
    cases cs with
    | nil => trivial
    | cons c cs =>
      have hle := length_first_le c cs
      rw [List.length_cons] at hn
      rw [ofChars_cons]
      refine ⟨?_, ih _ (by omega) _ rfl⟩
      rw [flatMap_text_ofChars]
      exact fits_first c cs

/-- A piece of a text belongs where it stands. -/
theorem exists_fits_of_mem {cs : List Char} {piece : Piece} (h : piece ∈ ofChars cs) :
    ∃ rest, piece.Fits rest := by
  obtain ⟨xs, ys, hcut⟩ := List.append_of_mem h
  have hbehind : FitTogether (piece :: ys) := fitTogether_append (hcut ▸ fitTogether_ofChars cs)
  exact ⟨_, hbehind.1⟩

theorem text_ne_nil_of_mem_ofChars {cs : List Char} {piece : Piece} (h : piece ∈ ofChars cs) :
    piece.text ≠ [] := by
  obtain ⟨rest, hfits⟩ := exists_fits_of_mem h
  exact hfits.text_ne_nil

/-- Pieces that fit together are the pieces of their text. -/
theorem ofChars_of_fitTogether {pieces : List Piece} (h : FitTogether pieces) :
    ofChars (pieces.flatMap text) = pieces := by
  induction pieces with
  | nil => rfl
  | cons piece pieces ih =>
    obtain ⟨hfits, hrest⟩ := h
    rw [List.flatMap_cons]
    cases htext : piece.text ++ pieces.flatMap text with
    | nil => exact absurd (List.append_eq_nil_iff.mp htext).1 hfits.text_ne_nil
    | cons c cs => rw [ofChars_cons, first_of_fits hfits htext, ih hrest]

/-- The pieces of a text are the only ones that make up the text and fit together. -/
theorem ofChars_eq_iff {cs : List Char} {pieces : List Piece} :
    ofChars cs = pieces ↔ pieces.flatMap text = cs ∧ FitTogether pieces := by
  constructor
  · rintro rfl
    exact ⟨flatMap_text_ofChars cs, fitTogether_ofChars cs⟩
  · rintro ⟨rfl, h⟩
    exact ofChars_of_fitTogether h

end Piece

end Lucha
