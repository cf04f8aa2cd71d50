import Lucha.Text.Padding
import Lucha.Proofs.Token.Spelling

/-!
# Texts on one line

A text without line feeds stands on one line (`Text.OneLine`). Numbers do, and tokens as messages
show them; a quoted character does whatever it is, since the line feed has a backslash form. Where
such texts are joined by line feeds, each is a line of the whole (`Text.splitOn_join`).
-/

namespace Lucha

namespace Text

/-- A text without line feeds. -/
def OneLine (text : String) : Prop :=
  '\n' ∉ text.toList

instance (text : String) : Decidable (OneLine text) :=
  inferInstanceAs (Decidable (¬ '\n' ∈ text.toList))

@[simp]
theorem oneLine_append {a b : String} : OneLine (a ++ b) ↔ OneLine a ∧ OneLine b := by
  simp [OneLine]

@[simp]
theorem oneLine_ofList {cs : List Char} : OneLine (String.ofList cs) ↔ '\n' ∉ cs := by
  simp [OneLine]

theorem oneLine_fill {c : Char} (h : c ≠ '\n') (count : Nat) : OneLine (fill count c) := by
  rw [fill, oneLine_ofList, List.mem_replicate]
  exact fun hmem => h hmem.2.symm

theorem oneLine_spaces (count : Nat) : OneLine (spaces count) :=
  oneLine_fill (by decide) count

/-- The digits of a number, by induction on how many there are. -/
private theorem newline_notMem_toDigits {base : Nat} (h : 1 < base) (n : Nat) :
    '\n' ∉ Nat.toDigits base n := by
  have hdigit (k : Nat) : '\n' ≠ k.digitChar := (Nat.digitChar_ne '\n' (by decide)).symm
  induction n using Nat.strongRecOn with
  | _ n ih =>
    obtain hlt | hle := Nat.lt_or_ge n base
    · rw [Nat.toDigits_of_lt_base hlt, List.mem_singleton]
      exact hdigit n
    · rw [Nat.toDigits_of_base_le h hle, List.mem_append, List.mem_singleton, not_or]
      exact ⟨ih _ (Nat.div_lt_self (by omega) h), hdigit _⟩

@[simp]
theorem oneLine_repr (n : Nat) : OneLine n.repr := by
  rw [OneLine, Nat.toList_repr]
  exact newline_notMem_toDigits (by decide) n

/-- A quoted character stands on one line, the line feed as well. -/
theorem oneLine_quoteBody (c : Char) : OneLine (quoteBody c) := by
  have hhex : OneLine (hex c.toNat) := by
    rw [hex, oneLine_ofList]
    exact newline_notMem_toDigits (by decide) _
  unfold quoteBody
  split_ifs with _ _ _ hnewline
  · decide
  · decide
  · decide
  · decide
  · decide
  · decide
  · exact oneLine_append.mpr ⟨oneLine_append.mpr ⟨by decide, hhex⟩, by decide⟩
  · rw [OneLine, Char.toString, String.toList_singleton, List.mem_singleton]
    exact Ne.symm hnewline

@[simp]
theorem oneLine_quote (c : Char) : OneLine (quote c) :=
  oneLine_append.mpr ⟨oneLine_append.mpr ⟨by decide, oneLine_quoteBody c⟩, by decide⟩

/-- Texts that are joined by line feeds are the lines of the whole. -/
theorem splitOn_join {first : String} {more : List String}
    (h : ∀ line ∈ first :: more, OneLine line) :
    (first ++ String.join (more.map ("\n" ++ ·))).toList.splitOn '\n'
      = (first :: more).map String.toList := by
  induction more generalizing first with
  | nil => simpa using List.splitOn_eq_singleton (h first List.mem_cons_self)
  | cons second more ih =>
    obtain ⟨hfirst, hmore⟩ := List.forall_mem_cons.mp h
    have happend : (first ++ String.join ((second :: more).map ("\n" ++ ·))).toList
        = first.toList ++ '\n' :: (second ++ String.join (more.map ("\n" ++ ·))).toList := by
      simp
    rw [happend, List.splitOn_append_cons_self_of_not_mem hfirst, ih hmore]
    rfl

end Text

/-! ### What messages show -/

@[simp]
theorem Keyword.oneLine_text (k : Keyword) : Text.OneLine k.text := by
  cases k <;> decide

@[simp]
theorem Symbol.oneLine_text (m : Symbol) : Text.OneLine m.text := by
  cases m <;> decide

@[simp]
theorem TokenKind.oneLine_name (kind : TokenKind) : Text.OneLine kind.name := by
  cases kind <;> simp +decide [name]

/-- No name has a line feed. -/
theorem IsName.oneLine {name : String} (h : IsName name) : Text.OneLine name := by
  obtain ⟨c, cs, htext, hc, hcs⟩ := h.letters
  rw [Text.OneLine, htext, List.mem_cons, not_or]
  refine ⟨?_, fun hmem => absurd (hcs _ hmem) (by decide)⟩
  rintro rfl
  exact absurd hc (by decide)

/-- Tokens are shown on one line. -/
theorem TokenKind.oneLine_display {kind : TokenKind} (h : kind.Legible) :
    Text.OneLine kind.display := by
  cases kind with
  | ident name => simp +decide [display, IsName.oneLine h]
  | number value => simp +decide [display]
  | _ => exact oneLine_name _

/-- The message about a stray character is one line, whatever the character is. -/
theorem Stray.oneLine_message (s : Stray) : Text.OneLine s.message := by
  unfold message
  simp only [Text.oneLine_append]
  exact ⟨⟨⟨⟨⟨by decide, Text.oneLine_quote s.char⟩, by decide⟩, Text.oneLine_repr s.line⟩,
    by decide⟩, Text.oneLine_repr s.column⟩

end Lucha
