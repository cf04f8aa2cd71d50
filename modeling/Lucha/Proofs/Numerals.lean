import Lucha.Proofs.Grammar.Quantities
import Lucha.Proofs.Misfit
import Lucha.Proofs.Parser.Numeral
import Lucha.Proofs.Program.Tree
import Lucha.Proofs.Token.Numeral

/-!
# Numerals are read exactly

A numeral of a source text, however long and with whatever zeros in front, is one token, and where
the grammar expects a number the reader of programs takes that token if and only if the value of the
digits is a quantity. A program that the text holds has that quantity where the numeral stands; and
a larger value is refused as out of range at the first digit (`Program.numerals_read_exactly`).
-/

namespace Lucha

open Grammar (Tree)

/-- Some program goes on from tokens of these kinds with a numeral. -/
def Grammar.ExpectsNumber (kinds : List TokenKind) : Prop :=
  ∃ value, Viable (kinds ++ [.number value])

open Grammar (ExpectsNumber viable_iff)

/-- A value above the largest one of a token is no quantity, and neither is that one. -/
theorem Quantity.ofNat?_min (value : Nat) :
    ofNat? (min value 18446744073709551615) = ofNat? value := by
  by_cases h : value ≤ 18446744073709551615
  · rw [Nat.min_eq_left h]
  · have hmin : largest.toNat < min value 18446744073709551615 := by
      rw [toNat_largest]
      omega
    have hvalue : largest.toNat < value := Nat.lt_of_lt_of_le hmin (Nat.min_le_left ..)
    rw [ofNat?_eq_none_iff.mpr hmin, ofNat?_eq_none_iff.mpr hvalue]

/-! ### The reader of programs where a number is expected -/

namespace Parser

variable {value : Nat} {token : Token} {before : List Token}

/-- A numeral whose value fits into a quantity is read as that quantity. -/
theorem number_of_some {quantity : Quantity} (what : String) (ts : List Token)
    (hkind : token.kind = .number (min value 18446744073709551615))
    (h : Quantity.ofNat? value = some quantity) :
    number what (token :: ts) = .ok quantity ts := by
  simp only [number, hkind, Quantity.ofNat?_min, h]

/-- A numeral whose value fits into no quantity is refused as out of range, and is not taken. -/
theorem number_of_none (what : String) (ts : List Token)
    (hkind : token.kind = .number (min value 18446744073709551615))
    (h : Quantity.ofNat? value = none) :
    number what (token :: ts) = .error (.at (.outOfRange what) token) (token :: ts) := by
  simp only [number, hkind, Quantity.ofNat?_min, h, refuseFor]

/-- Where a number is expected, the reader of programs reads the numeral as one, unless a name is
declared twice before it. -/
theorem program_of_expectsNumber (h : ExpectsNumber (before.map Token.kind)) :
    (∃ i behind, i.fault.IsDuplicate ∧
      ∀ more, program (before ++ more) = .error (.inconsistent i) (behind ++ more)) ∨
    ∃ what k, (∀ value, Leaves (k value)) ∧
      ∀ rest, OnNumeral rest → program (before ++ rest) = (number what >>= k) rest := by
  obtain ⟨rest, hrest, hok⟩ : ∃ rest, OnNumeral rest ∧ outline (before ++ rest) = .ok () [] := by
    obtain ⟨value, hviable⟩ := h
    have hkinds : before.map Token.kind ++ [.number value]
        = (before ++ [(⟨.number value, .none⟩ : Token)]).map Token.kind := by simp
    obtain ⟨more, hok⟩ := viable_iff.mp (hkinds ▸ hviable)
    rw [List.append_assoc] at hok
    exact ⟨_, onNumeral_cons rfl more, hok⟩
  cases numerate_program.meets before with
  | reads what k leaves run => exact .inr ⟨what, k, leaves, run⟩
  | passes p behind run =>
    -- a program that is read leaves nothing, so not the numeral
    have hnil := (program_eq_ok_iff.mp (run hrest)).2
    exact absurd (List.append_eq_nil_iff.mp hnil).2 hrest.ne_nil
  | stops run =>
    obtain ⟨fault, behind, hfails⟩ := run hrest
    cases verdict (before ++ rest) with
    | misfit houtline => cases hok.symm.trans houtline
    | whole _ hprogram =>
      obtain ⟨p, hprogram⟩ | ⟨i, -, hprogram⟩ := hprogram
      · cases hfails.symm.trans hprogram
      · have hnil := (EStateM.Result.error.inj (hfails.symm.trans hprogram)).2
        exact absurd (List.append_eq_nil_iff.mp hnil).2 hrest.ne_nil
    | @duplicate i _ hfighters htwice hprogram =>
      obtain ⟨-, rfl⟩ := EStateM.Result.error.inj (hfails.symm.trans hprogram)
      have hrun : manyFighters .empty _ = .error (.inconsistent i) _ := hfighters
      obtain ⟨taken, happend, -, hreread⟩ := rereads_manyFighters .empty _
      rw [hrun] at happend hreread
      have htaken : taken ++ behind = before :=
        List.append_cancel_right ((List.append_assoc ..).trans happend)
      refine .inl ⟨i, behind, htwice, fun more => program_of_fighters_eq_error ?_⟩
      rw [← htaken, List.append_assoc]
      exact @hreread (behind ++ more) trivial

end Parser

/-! ### Numerals in source texts -/

namespace Program

open Lucha.Parser (Leaves left)

variable {source : String} {before digits behind : List Char} {token : Token}
  {earlier later : List Token}

/-- How a numeral behind some text is read: its token, and the tokens behind that. -/
structure NumeralRead (source : String) (before digits : List Char) (token : Token)
    (later : List Token) : Prop where
  /-- The numeral is one token, and the tokens before it are those of the text before it. -/
  tokens : tokensOf source = tokensOf (String.ofList before) ++ token :: later
  /-- The token has the value of the digits, or `2 ^ 64 - 1` if that is less. -/
  kind : token.kind = .number (min (Nat.ofDigitChars 10 digits 0) 18446744073709551615)
  /-- The token covers the digits. -/
  span : token.span = .covering (Position.start.after before) digits
  /-- No other token covers any of them. -/
  apart : (∀ other ∈ tokensOf (String.ofList before), other.span.stop ≤ token.span.start) ∧
    ∀ other ∈ later, token.span.stop ≤ other.span.start
  /-- Where a number is expected, the reader takes the token exactly if the value of the digits is
  below `2 ^ 32`, and otherwise the text is refused at the first digit; unless the text before the
  numeral is refused already for a name that is declared twice, and so is the whole text. -/
  expected : ExpectsNumber ((tokensOf (String.ofList before)).map Token.kind) →
    (∃ i, i.fault.IsDuplicate ∧
      (∃ strays, parse (String.ofList before) = .error ⟨.semantic i, strays⟩) ∧
      ∃ strays, parse source = .error ⟨.semantic i, strays⟩) ∨
    ((Reading.ofSource source).program.2.ahead <:+ later ↔
      Nat.ofDigitChars 10 digits 0 ≤ 4294967295) ∧
    (4294967295 < Nat.ofDigitChars 10 digits 0 → ∃ what strays, parse source = .error
      ⟨.syntactic (.outOfRange what) (Position.start.after before).line
        (Position.start.after before).column (token.span.lineText source), strays⟩)
  /-- A program that the text holds has the value of the digits where the numeral stands among all
  numerals. -/
  stored : ∀ p, parse source = .ok p → ∃ t : Tree, t.Derives (tokensOf source) ∧ t.Denotes p ∧
    ∃ quantity : Quantity, quantity.toNat = Nat.ofDigitChars 10 digits 0 ∧
      t.quantities[((tokensOf (String.ofList before)).filterMap Token.numeral?).length]?
        = some quantity

/-- The quantity that a program has where a numeral stands is what the numeral says. -/
theorem exists_quantity {p : Program} (h : parse source = .ok p) {value : Nat}
    (htokens : tokensOf source = earlier ++ token :: later) (hkind : token.kind = .number value) :
    ∃ t : Tree, t.Derives (tokensOf source) ∧ t.Denotes p ∧ ∃ quantity : Quantity,
      quantity.toNat = value ∧
        t.quantities[(earlier.filterMap Token.numeral?).length]? = some quantity := by
  obtain ⟨t, hderives, -, hdenotes⟩ := parse_eq_ok_iff.mp h
  have hnumerals := hderives.numerals_eq
  have hvalue : token.numeral? = some value := by
    rw [Token.numeral?, hkind]
    rfl
  rw [htokens, List.filterMap_append, List.filterMap_cons_some hvalue] at hnumerals
  have hat := congrArg (·[(earlier.filterMap Token.numeral?).length]?) hnumerals
  rw [List.getElem?_append_right (Nat.le_refl _), Nat.sub_self, List.getElem?_cons_zero,
    List.getElem?_map] at hat
  obtain ⟨quantity, hquantity, hsame⟩ := Option.map_eq_some_iff.mp hat.symm
  exact ⟨t, hderives, hdenotes, quantity, hsame, hquantity⟩

/-- The tokens that are left when a program has been read. -/
theorem ahead_program (source : String) :
    (Reading.ofSource source).program.2.ahead = left (Parser.program (tokensOf source)) := by
  rw [Reading.program, tokensOf_eq, Reading.ofSource]
  cases Parser.program (Scan.ofSource source).tokens <;> rfl

/-- Where the reader of programs reads a numeral as a number, it takes the token exactly if the
value is a quantity. -/
theorem ahead_isSuffix_iff {what : String} {k : Quantity → Parser Program} {value : Nat}
    (hleaves : ∀ quantity, Leaves (k quantity))
    (hkind : token.kind = .number (min value 18446744073709551615))
    (hread : Parser.program (tokensOf source) = (Parser.number what >>= k) (token :: later)) :
    (Reading.ofSource source).program.2.ahead <:+ later ↔ value ≤ 4294967295 := by
  rw [ahead_program, hread]
  cases hvalue : Quantity.ofNat? value with
  | some quantity =>
    have hle : value ≤ 4294967295 :=
      Quantity.ofNat?_eq_some_iff.mp hvalue ▸ quantity.toNat_le_largest
    rw [Parser.bind_of_ok (Parser.number_of_some what later hkind hvalue)]
    exact iff_of_true (hleaves quantity later) hle
  | none =>
    have hlarge : 4294967295 < value := Quantity.ofNat?_eq_none_iff.mp hvalue
    rw [Parser.bind_of_error (Parser.number_of_none what later hkind hvalue)]
    refine iff_of_false (fun hsuffix => ?_) (Nat.not_le.mpr hlarge)
    -- the refused token is left, and it is not behind itself
    have hle : (token :: later).length ≤ later.length := hsuffix.length_le
    exact Nat.not_succ_le_self _ hle

/-- What becomes of a text where a number is expected and a numeral stands: a name is declared twice
before that, or the token is taken exactly if its value is a quantity, and refused otherwise. -/
theorem parse_of_expectsNumber {front : String} {value : Nat}
    (htokens : tokensOf source = tokensOf front ++ token :: later)
    (hkind : token.kind = .number (min value 18446744073709551615))
    (hexpects : ExpectsNumber ((tokensOf front).map Token.kind)) :
    (∃ i, i.fault.IsDuplicate ∧ (∃ strays, parse front = .error ⟨.semantic i, strays⟩) ∧
      ∃ strays, parse source = .error ⟨.semantic i, strays⟩) ∨
    ((Reading.ofSource source).program.2.ahead <:+ later ↔ value ≤ 4294967295) ∧
    (4294967295 < value → ∃ what strays, parse source = .error
      ⟨.syntactic (.outOfRange what) token.span.line token.span.column
        (token.span.lineText source), strays⟩) := by
  obtain ⟨i, rest, htwice, hprogram⟩ | ⟨what, k, hleaves, hprogram⟩ :=
    Parser.program_of_expectsNumber hexpects
  · have hfront := hprogram []
    have hwhole := hprogram (token :: later)
    rw [List.append_nil] at hfront
    rw [← htokens] at hwhole
    exact .inl ⟨i, htwice, exists_parse_eq_error hfront, exists_parse_eq_error hwhole⟩
  · have hread := hprogram _ (Parser.onNumeral_cons hkind later)
    rw [← htokens] at hread
    refine .inr ⟨ahead_isSuffix_iff hleaves hkind hread, fun hlarge => ⟨what, ?_⟩⟩
    have hvalue := Quantity.ofNat?_eq_none_iff.mpr hlarge
    have hfails := Parser.number_of_none what later hkind hvalue
    exact exists_parse_eq_error (hread.trans (Parser.bind_of_error hfails))

/-- No other token of a source text covers any part of one. -/
theorem apart_of_tokens (h : tokensOf source = earlier ++ token :: later) :
    (∀ other ∈ earlier, other.span.stop ≤ token.span.start) ∧
      ∀ other ∈ later, token.span.stop ≤ other.span.start := by
  have hpairs := (List.pairwise_append.mp (Scan.pairwise_tokens_endToken source.toList)).1
  rw [← Scan.ofSource, ← tokensOf_eq, h, List.pairwise_append, List.pairwise_cons] at hpairs
  obtain ⟨-, ⟨hlater, -⟩, hearlier⟩ := hpairs
  exact ⟨fun other hother => (hearlier other hother _ List.mem_cons_self).2,
    fun other hother => (hlater other hother).2⟩

/-- Every numeral of a source text is read in one of the two ways. -/
theorem exists_numeralRead (h : NumeralAt source.toList before digits behind) :
    ∃ token later, NumeralRead source before digits token later := by
  obtain ⟨later, htokens⟩ := h.exists_tokens_eq
  have hbefore : tokensOf (String.ofList before) = (Scan.ofChars before).tokens := by
    rw [tokensOf_eq, Scan.ofSource, String.toList_ofList]
  have hsource : tokensOf source
      = tokensOf (String.ofList before) ++ numeralToken before digits :: later := by
    rw [tokensOf_eq, Scan.ofSource, htokens, hbefore]
  have hkind : (numeralToken before digits).kind
      = .number (min (Nat.ofDigitChars 10 digits 0) 18446744073709551615) := rfl
  refine ⟨numeralToken before digits, later, hsource, hkind, rfl, apart_of_tokens hsource,
    parse_of_expectsNumber hsource hkind, fun p hparse => ?_⟩
  obtain ⟨t, hderives, hdenotes, quantity, hvalue, hquantity⟩ :=
    exists_quantity hparse hsource hkind
  refine ⟨t, hderives, hdenotes, quantity, ?_, hquantity⟩
  -- a quantity is below the largest value of a token, so that is not the value here
  have hle := quantity.toNat_le_largest
  rw [Quantity.toNat_largest] at hle
  omega

/-- Numerals are read exactly. Each numeral of a source text is one token, with the value of its
digits or the largest one of a token if that is less. Where the grammar expects a number, the reader
of programs takes the token if and only if the value of the digits is below `2 ^ 32`, and else the
text is refused as out of range at the first digit; and a program that the text holds has exactly
that value there. No other token is a number. -/
theorem numerals_read_exactly (source : String) :
    (∀ before digits behind, NumeralAt source.toList before digits behind →
      ∃ token later, NumeralRead source before digits token later) ∧
    ∀ token ∈ tokensOf source, ∀ value, token.kind = .number value →
      ∃ before digits behind, NumeralAt source.toList before digits behind ∧
        token = numeralToken before digits := by
  refine ⟨fun before digits behind => exists_numeralRead, fun token htoken value hkind => ?_⟩
  rw [tokensOf_eq] at htoken
  exact exists_numeralAt_of_mem_tokens htoken hkind

/-- A numeral with zeros in front whose value is above the largest one of a token. -/
theorem numerals_read_exactly_saturated :
    ExpectsNumber ((tokensOf "luchador Ana \x7b stats(hp=").map Token.kind) ∧
      ∃ what strays, parse "luchador Ana \x7b stats(hp=0099999999999999999999" = .error
        ⟨.syntactic (.outOfRange what) 1 25 "luchador Ana \x7b stats(hp=0099999999999999999999",
          strays⟩ := by
  have hwritten : duel.tree.Written := Printable.written_tree (by decide +kernel)
  have hexpects : ExpectsNumber ((tokensOf "luchador Ana \x7b stats(hp=").map Token.kind) :=
    ⟨20, (duel.tree.leaves.map Leaf.kind).drop 8, duel.tree, hwritten, by decide +kernel⟩
  have hnumeral : NumeralAt "luchador Ana \x7b stats(hp=0099999999999999999999".toList
      "luchador Ana \x7b stats(hp=".toList "0099999999999999999999".toList [] := by
    refine ⟨by decide +kernel, by decide +kernel, List.all_eq_true.mp (by decide +kernel),
      fun c hc => ?_, nofun, not_commentOpen_of_slash_notMem (by decide +kernel)⟩
    obtain rfl : '=' = c := Option.some.inj hc
    rfl
  obtain ⟨token, later, hread⟩ := (numerals_read_exactly _).1 _ _ _ hnumeral
  have hexpected := hread.expected
  rw [String.ofList_toList, hread.span] at hexpected
  obtain ⟨i, -, ⟨strays, hrefused⟩, -⟩ | ⟨-, hlarge⟩ := hexpected hexpects
  · have hend : parse "luchador Ana \x7b stats(hp="
        = .error ⟨.unexpectedEnd "hit points", []⟩ := rfl
    cases hend.symm.trans hrefused
  · exact ⟨hexpects, hlarge (by decide +kernel)⟩

/-- The largest quantity is taken, also with zeros in front, and the next value is not. -/
example : parse "luchador Ana \x7b stats(hp=0004294967295" = .error ⟨.unexpectedEnd "','", []⟩ ∧
    parse "luchador Ana \x7b stats(hp=4294967296" = .error
      ⟨.syntactic (.outOfRange "hit points") 1 25 "luchador Ana \x7b stats(hp=4294967296", []⟩ :=
  ⟨rfl, rfl⟩

end Program

end Lucha
