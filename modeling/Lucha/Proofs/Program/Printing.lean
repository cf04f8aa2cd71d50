import Lucha.Proofs.Program.Lines
import Lucha.Proofs.Program.Tree

/-!
# What the text of a program holds

The text of a printable program holds the kinds of tokens of its tree and no stray characters
(`Program.Printable.content_render`). The lines are taken one construct at a time, as the tree is.
-/

namespace Lucha

open Grammar (ActionLine Definition Strike Tree)
open Lucha.Parser (Trait)

/-! ### The lines of an action -/

@[simp]
theorem ActionKind.text_word (kind : ActionKind) : kind.word.text = kind.keyword := by
  cases kind <;> rfl

@[simp]
theorem Height.text_word (height : Height) : height.word.text = height.keyword := by
  cases height <;> rfl

@[simp]
theorem Shape.text_word (shape : Shape) : shape.word.text = shape.keyword := by
  cases shape <;> rfl

@[simp]
theorem Subject.text_word (subject : Subject) : subject.word.text = subject.keyword := by
  cases subject <;> rfl

@[simp]
theorem Stat.text_word (stat : Stat) : stat.word.text = stat.keyword := by
  cases stat <;> rfl

@[simp]
theorem Comparison.text_symbol (comparison : Comparison) :
    comparison.symbol.text = comparison.text := by
  cases comparison <;> rfl

namespace Parser.Trait

/-- The word for what an attribute sets. -/
def word : Trait → Keyword
  | damage _ => .dano
  | cost _ => .costo
  | height _ => .altura
  | shape _ => .forma
  | spinning _ => .giratoria

/-- The value of an attribute. -/
def value : Trait → TokenKind
  | damage amount => .number amount.toNat
  | cost amount => .number amount.toNat
  | height aim => .keyword aim.word
  | shape path => .keyword path.word
  | spinning answer => .keyword (Grammar.answerWord answer)

/-- An attribute as it is written. -/
def text : Trait → String
  | damage amount => s!"daño={amount}"
  | cost amount => s!"costo={amount}"
  | height aim => "altura=" ++ aim.keyword
  | shape path => "forma=" ++ path.keyword
  | spinning answer => "giratoria=" ++ (Grammar.answerWord answer).text

/-- An attribute is its key and its value around an equals sign. -/
theorem spelled (t : Trait) :
    Spelled t.text.toList
      [.close (.keyword t.word), .close (.symbol .assign), .close t.value] t.leaves where
  text := by
    cases t <;>
      simp only [List.flatMap_cons, List.flatMap_nil, Chunk.text_close, TokenKind.spelling, text,
        word, value, Height.text_word, Shape.text_word, String.toList_append, List.append_nil] <;>
      simp only [Keyword.text, Symbol.text] <;>
      rfl
  legible := by cases t <;> simp [value]
  joins := by cases t <;> simp [value, TokenKind.isApart]
  kinds := by cases t <;> rfl

end Parser.Trait

/-- The text of an action that is no block. -/
theorem Action.text_eq {a : Action} (h : a.kind ≠ .block) :
    a.text = s!"{a.kind.keyword}: {a.name}(" ++ ", ".intercalate (a.strike.traits.map Trait.text)
      ++ ");" := by
  obtain ⟨kind, name, damage, cost, height, shape, spinning, span⟩ := a
  rw [text, isBlock, decide_eq_false h, if_neg Bool.false_ne_true]
  cases height <;> cases shape <;> cases spinning <;> rfl

/-- The line of a block holds its name. -/
private theorem Action.Printable.prints_block {a : Action} (h : a.Printable)
    (hblock : a.kind = .block) (level : Nat) : Prints [⟨level, a.text⟩] a.line.leaves := by
  have htext : a.text = s!"bloqueo: {a.name};" := by rw [text, isBlock, hblock]; rfl
  have hspelled : Spelled (s!"bloqueo: {a.name};").toList
      [.close (.keyword .bloqueo), .close (.symbol .colon), .apart (.ident a.name),
        .close (.symbol .semicolon)] (ActionLine.bloqueo a.name a.span).leaves :=
    ⟨by simp [TokenKind.spelling, Keyword.text, Symbol.text, toString], by simp [h.name],
      by simp [TokenKind.isApart], rfl⟩
  rw [htext, line, hblock]
  exact hspelled.prints level

/-- The line of a strike or a kick holds its name and its values. -/
private theorem Action.Printable.prints_strike {a : Action} (h : a.Printable)
    (hblock : a.kind ≠ .block) (level : Nat) : Prints [⟨level, a.text⟩] a.line.leaves := by
  have hleaves : a.line.leaves = [.word a.kind.word, .mark .colon, .identAt a.name a.span,
      .mark .openParen] ++ Grammar.separated Trait.leaves a.strike.traits
        ++ [.mark .closeParen, .mark .semicolon] := by
    rw [line]
    cases hkind : a.kind with
    | block => exact absurd hkind hblock
    | _ => simp [ActionLine.leaves, Grammar.separated, Strike.leaves, ActionKind.word, strike]
  have hhead : Spelled (s!"{a.kind.keyword}: {a.name}(").toList
      [.close (.keyword a.kind.word), .close (.symbol .colon), .apart (.ident a.name),
        .close (.symbol .openParen)]
      [.word a.kind.word, .mark .colon, .identAt a.name a.span, .mark .openParen] :=
    ⟨by simp [TokenKind.spelling, Symbol.text, toString], by simp [h.name],
      by simp [TokenKind.isApart], rfl⟩
  have hvalues : Spelled (", ".intercalate (a.strike.traits.map Trait.text)).toList _
      (Grammar.separated Trait.leaves a.strike.traits) :=
    Spelled.separated fun t _ => t.spelled
  have hlast : Spelled ");".toList [.close (.symbol .closeParen), .close (.symbol .semicolon)]
      [.mark .closeParen, .mark .semicolon] :=
    ⟨by simp [TokenKind.spelling, Symbol.text], by simp, by simp [TokenKind.isApart], rfl⟩
  -- what is behind an opening parenthesis needs no blank, and neither does a closing one
  have hfront := hhead.append hvalues (by simp [TokenKind.isApart])
  have hall := hfront.append hlast fun b _ c hc => by
    cases hc
    exact Chunk.free_symbol (by decide) b
  rw [← String.toList_append, ← String.toList_append] at hall
  rw [text_eq hblock, hleaves]
  exact hall.prints level

theorem Action.Printable.prints {a : Action} (h : a.Printable) (level : Nat) :
    Prints [⟨level, a.text⟩] a.line.leaves := by
  by_cases hblock : a.kind = .block
  · exact h.prints_block hblock level
  · exact h.prints_strike hblock level

/-! ### The lines of combos and fighters -/

/-- A combo is printed on one line, with its steps between commas. -/
theorem Combo.Printable.prints {c : Combo} (h : c.Printable) (level : Nat) :
    Prints [⟨level, c.text⟩] c.leaves := by
  have hhead : Spelled (s!"{c.name}(st_req={c.cost}) \x7b").toList
      [.close (.ident c.name), .close (.symbol .openParen), .close (.keyword .stReq),
        .close (.symbol .assign), .close (.number c.cost.toNat), .close (.symbol .closeParen),
        .apart (.symbol .openBrace)]
      [.identAt c.name c.span, .mark .openParen, .word .stReq, .mark .assign, .number c.cost,
        .mark .closeParen, .mark .openBrace] :=
    ⟨by simp [TokenKind.spelling, Keyword.text, Symbol.text, toString], by simp [h.name],
      by simp [TokenKind.isApart], rfl⟩
  have hstep : ∀ step ∈ c.steps, Spelled (id step).toList [.close (.ident step)] [.ident step] :=
    fun step hmem => ⟨List.flatMap_singleton .., by simp [h.steps step hmem], .singleton _, rfl⟩
  have hlast : Spelled " \x7d".toList [.apart (.symbol .closeBrace)] [.mark .closeBrace] :=
    ⟨rfl, by simp, .singleton _, rfl⟩
  obtain ⟨first, rest, hsteps⟩ := List.exists_cons_of_ne_nil h.written
  rw [hsteps] at hstep
  have hfront := hhead.append (Spelled.separated hstep).spaced (by simp)
  have hall := hfront.append hlast (by simp)
  have htext : c.text.toList = (s!"{c.name}(st_req={c.cost}) \x7b").toList
      ++ ' ' :: (", ".intercalate ((first :: rest).map id)).toList ++ " \x7d".toList := by
    simp [text, hsteps, toString]
  rw [← htext] at hall
  have hline := hall.prints level
  simpa [leaves, Grammar.braced, hsteps] using hline

/-- The statistics are printed on one line. -/
theorem Fighter.spelled_stats (f : Fighter) :
    Spelled (s!"stats(hp={f.hpMax}, st={f.staminaMax});").toList
      [.close (.keyword .stats), .close (.symbol .openParen), .close (.keyword .hp),
        .close (.symbol .assign), .close (.number f.hpMax.toNat), .close (.symbol .comma),
        .apart (.keyword .st), .close (.symbol .assign), .close (.number f.staminaMax.toNat),
        .close (.symbol .closeParen), .close (.symbol .semicolon)]
      (Definition.statsLeaves f.hpMax f.staminaMax) where
  text := by simp [TokenKind.spelling, Keyword.text, Symbol.text, toString]
  legible := by simp
  joins := by simp [TokenKind.isApart]
  kinds := rfl

/-- A header of one word. -/
theorem Prints.word (k : Keyword) (level : Nat) :
    Prints [⟨level, k.text ++ " \x7b"⟩] ([.word k] ++ [.mark .openBrace]) := by
  have hspelled : Spelled (k.text ++ " \x7b").toList
      [.close (.keyword k), .apart (.symbol .openBrace)] [.word k, .mark .openBrace] :=
    ⟨by simp [TokenKind.spelling, Symbol.text], by simp, by simp, rfl⟩
  exact hspelled.prints level

/-- A header of a word and a name. -/
theorem Prints.named {name : String} (h : IsName name) (k : Keyword) (level : Nat)
    {leaves : List Leaf} (hkinds : leaves.map Leaf.kind = [.keyword k, .ident name]) :
    Prints [⟨level, k.text ++ " " ++ name ++ " \x7b"⟩] (leaves ++ [.mark .openBrace]) := by
  have hspelled : Spelled (k.text ++ " " ++ name ++ " \x7b").toList
      [.close (.keyword k), .apart (.ident name), .apart (.symbol .openBrace)]
      (leaves ++ [.mark .openBrace]) :=
    ⟨by simp [TokenKind.spelling, Symbol.text], by simp [h], by simp, by simp [hkinds]; rfl⟩
  exact hspelled.prints level

/-- A fighter is printed with its actions and then its combos, in the order of its tables. -/
theorem Fighter.Printable.prints {f : Fighter} (h : f.Printable) :
    Prints f.lines f.definition.leaves := by
  have hactions : Prints (f.actions.values.map fun a => ⟨2, a.text⟩)
      (f.definition.lines.flatMap ActionLine.leaves) := by
    rw [definition, List.flatMap_map, List.map_eq_flatMap]
    exact Prints.flatMap fun a ha => (h.actions.2 a ha).prints 2
  have hcombos : Prints (f.combos.values.map fun c => ⟨2, c.text⟩)
      (f.definition.combos.flatMap Combo.leaves) := by
    rw [definition, List.map_eq_flatMap]
    exact Prints.flatMap fun c hc => (h.combos.2 c hc).prints 2
  have hfront := (f.spelled_stats.prints 1).append ((Prints.word .acciones 1).braced hactions)
  have hbody := hfront.append ((Prints.word .combos 1).braced hcombos)
  have hheader : Prints [⟨0, "luchador " ++ f.name ++ " \x7b"⟩]
      ([.word .luchador, .identAt f.name f.span] ++ [.mark .openBrace]) :=
    Prints.named h.name .luchador 0 rfl
  exact hheader.braced hbody

/-! ### The lines of blocks and scripts -/

/-- The header of a conditional. -/
theorem Condition.spelled (c : Condition) :
    Spelled (s!"si ({c.text})" ++ " \x7b").toList
      [.close (.keyword .si), .apart (.symbol .openParen), .close (.keyword c.subject.word),
        .close (.symbol .dot), .close (.keyword c.stat.word), .apart (.symbol c.comparison.symbol),
        .apart (.number c.threshold.toNat), .close (.symbol .closeParen),
        .apart (.symbol .openBrace)]
      ((.word .si :: .mark .openParen :: (c.leaves ++ [.mark .closeParen]))
        ++ [.mark .openBrace]) where
  text := by
    -- the words are rewritten first: unfolding their texts would leave matches on variables
    simp only [List.flatMap_cons, List.flatMap_nil, Chunk.text_close, Chunk.text_apart,
      TokenKind.spelling, Subject.text_word, Stat.text_word, Comparison.text_symbol]
    simp [Keyword.text, Symbol.text, text, toString]
  legible := by simp
  joins := by simp [TokenKind.isApart]
  kinds := rfl

namespace Block

theorem prints_use {name : String} (h : IsName name) (span : Span) (level : Nat) :
    Prints [⟨level, s!"usa {name};"⟩] [.word .usa, .identAt name span, .mark .semicolon] := by
  have hspelled : Spelled (s!"usa {name};").toList
      [.close (.keyword .usa), .apart (.ident name), .close (.symbol .semicolon)]
      [.word .usa, .identAt name span, .mark .semicolon] :=
    ⟨by simp [TokenKind.spelling, Keyword.text, Symbol.text, toString], by simp [h],
      by simp [TokenKind.isApart], rfl⟩
  exact hspelled.prints level

/-- The line between the two blocks of a conditional. -/
theorem prints_otherwise (level : Nat) :
    Prints [⟨level, "\x7d sino \x7b"⟩] [.mark .closeBrace, .word .sino, .mark .openBrace] := by
  have hspelled : Spelled "\x7d sino \x7b".toList
      [.close (.symbol .closeBrace), .apart (.keyword .sino), .apart (.symbol .openBrace)]
      [.mark .closeBrace, .word .sino, .mark .openBrace] :=
    ⟨by simp [TokenKind.spelling, Keyword.text, Symbol.text], by simp, by simp, rfl⟩
  exact hspelled.prints level

/-- The lines of a block hold its tokens. A closing brace and what comes after it share a line, so
the braces of a conditional are matched here and not line by line. -/
theorem prints {b : Block} (h : ∀ use ∈ b.uses, IsName use.1) (level : Nat) :
    Prints (b.lines level) b.leaves := by
  induction b generalizing level with
  | done => exact Prints.nil
  | use name span next ih =>
    obtain ⟨hname, hnext⟩ := List.forall_mem_cons.mp h
    exact (prints_use hname span level).append (ih hnext level)
  | choose condition yes no next hyes hno hnext =>
    rw [uses, List.forall_mem_append, List.forall_mem_append] at h
    obtain ⟨huses, husesNo, husesNext⟩ := h
    have hotherwise : Prints
        (if no = done then [] else ⟨level, "\x7d sino \x7b"⟩ :: no.lines (level + 1))
        (if no = done then [] else
          [.mark .closeBrace, .word .sino, .mark .openBrace] ++ no.leaves) := by
      split
      · exact Prints.nil
      · exact (prints_otherwise level).append (hno husesNo (level + 1))
    have hbody := (hyes huses (level + 1)).append hotherwise
    have hall := ((condition.spelled.prints level).braced hbody).append (hnext husesNext level)
    have hleaves : (Block.choose condition yes no next).leaves
        = (.word .si :: .mark .openParen :: (condition.leaves ++ [.mark .closeParen]))
          ++ Grammar.braced (yes.leaves ++ if no = done then [] else
            [.mark .closeBrace, .word .sino, .mark .openBrace] ++ no.leaves) ++ next.leaves := by
      rw [leaves]
      split <;> simp [Grammar.braced]
    rwa [hleaves]

end Block

theorem Script.Printable.prints {s : Script} (h : s.Printable) : Prints s.lines s.leaves := by
  have hheader : Prints [⟨2, "turno " ++ s.fighter ++ " \x7b"⟩]
      ([.wordAt .turno s.span, .ident s.fighter] ++ [.mark .openBrace]) :=
    Prints.named h.fighter .turno 2 rfl
  exact hheader.braced (Block.prints h.uses 3)

/-! ### The lines of a program -/

/-- A matchup is printed on the lines of its block, one for each setting. -/
theorem Matchup.prints {m : Matchup} (hfighterA : IsName m.fighterA) (hfighterB : IsName m.fighterB)
    (hstarter : IsName m.starter) : Prints m.lines m.leaves := by
  have hheader : Prints [⟨1, "config" ++ " \x7b"⟩]
      ([.wordAt .config m.span] ++ [.mark .openBrace]) :=
    Prints.word .config 1
  have hfighters : Spelled (s!"luchadores: {m.fighterA} vs {m.fighterB};").toList
      [.close (.keyword .luchadores), .close (.symbol .colon), .apart (.ident m.fighterA),
        .apart (.keyword .vs), .apart (.ident m.fighterB), .close (.symbol .semicolon)]
      [.word .luchadores, .mark .colon, .ident m.fighterA, .word .vs, .ident m.fighterB,
        .mark .semicolon] :=
    ⟨by simp [TokenKind.spelling, Keyword.text, Symbol.text, toString], by simp [*],
      by simp [TokenKind.isApart], rfl⟩
  have hstarter : Spelled (s!"inicia: {m.starter};").toList
      [.close (.keyword .inicia), .close (.symbol .colon), .apart (.ident m.starter),
        .close (.symbol .semicolon)]
      [.word .inicia, .mark .colon, .ident m.starter, .mark .semicolon] :=
    ⟨by simp [TokenKind.spelling, Keyword.text, Symbol.text, toString], by simp [hstarter],
      by simp [TokenKind.isApart], rfl⟩
  have hturns : Spelled (s!"turnos_max: {m.maxTurns};").toList
      [.close (.keyword .turnosMax), .close (.symbol .colon), .apart (.number m.maxTurns.toNat),
        .close (.symbol .semicolon)]
      [.word .turnosMax, .mark .colon, .number m.maxTurns, .mark .semicolon] :=
    ⟨by simp [TokenKind.spelling, Keyword.text, Symbol.text, toString], by simp,
      by simp [TokenKind.isApart], rfl⟩
  exact hheader.braced ((hfighters.prints 2).append ((hstarter.prints 2).append (hturns.prints 2)))

/-- The lines of fighters, in whatever order, hold the tokens of their definitions. -/
theorem Fighter.prints_all {fs : List Fighter} (h : ∀ f ∈ fs, f.Printable) :
    Prints (fs.flatMap fun f => f.lines ++ [⟨0, ""⟩])
      ((fs.map Fighter.definition).flatMap Definition.leaves) := by
  rw [List.flatMap_map]
  refine Prints.flatMap fun f hf => ?_
  have hlines := (h f hf).prints.append (Prints.blank 0)
  rwa [List.append_nil] at hlines

namespace Program

/-- The lines of a program with its fighters in some order. -/
def linesWith (p : Program) (fs : List Fighter) : List Line :=
  (fs.flatMap fun f => f.lines ++ [⟨0, ""⟩])
    ++ Line.braced 0 "simulacion" (p.matchup.lines
      ++ Line.braced 1 "pelea" (p.scripts.flatMap Script.lines))

/-- The tree of a program with its fighters in some order. -/
def treeWith (p : Program) (fs : List Fighter) : Tree :=
  { p.tree with definitions := fs.map Fighter.definition }

namespace Printable

variable {p : Program}

/-- A program is printed with whichever printable fighters, and then its simulation. -/
theorem prints_linesWith (h : p.Printable) {fs : List Fighter} (hfs : ∀ f ∈ fs, f.Printable) :
    Prints (p.linesWith fs) (p.treeWith fs).leaves := by
  have hscripts : Prints (p.scripts.flatMap Script.lines) (p.scripts.flatMap Script.leaves) :=
    Prints.flatMap fun s hs => (h.scripts.2 s hs).prints
  have hmatchup := Matchup.prints h.fighterA h.fighterB h.starter
  have hbody := hmatchup.append ((Prints.word .pelea 1).braced hscripts)
  exact (Fighter.prints_all hfs).append ((Prints.word .simulacion 0).braced hbody)

/-- The lines of a printable program hold the tokens of its tree. -/
theorem prints (h : p.Printable) : Prints p.lines p.tree.leaves :=
  h.prints_linesWith h.fighters

/-- The text of a printable program holds the tokens of its tree and no stray characters. -/
theorem content_render (h : p.Printable) (width : Nat) :
    Text.content (p.render width).toList = (p.tree.leaves.map Leaf.kind).map .inl :=
  h.prints.content width

end Printable

end Program

end Lucha
