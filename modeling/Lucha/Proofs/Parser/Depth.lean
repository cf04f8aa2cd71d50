import Lucha.Parser.Program

/-!
# Counting the levels of nesting

An instruction is read with the number of levels that are left. The reader of programs may as well
keep the number of conditionals that are open: it counts up before the blocks of a conditional and
down behind them, whether or not they are read, and refuses a conditional where the count has come
to the limit. That is a reader with a counter (`Counting`). Whatever it reads and wherever it fails, it
leaves the counter as it was, and otherwise it comes out as the reader that it follows
(`Counting.Follows`, `Counting.follows_program`).
-/

namespace Lucha

/-- Tokens to take, and how many conditionals are open. -/
structure Nested where
  depth : Nat
  ahead : List Token

/-- A reader of tokens that counts the conditionals that are open. -/
abbrev Counting := EStateM Fault Nested

open Lucha.Parser (nestingLimit skip peek word mark ident refuse refuseFor fighters atEnd
  consistent)

namespace Counting

open EStateM (Result)

variable {α β : Type}

/-! ### Readers with a counter -/

/-- A reader that does not look at the counter. -/
def plain (p : Parser α) : Counting α := fun s =>
  match p s.ahead with
  | .ok a rest => .ok a { s with ahead := rest }
  | .error fault rest => .error fault { s with ahead := rest }

instance : MonadLift Parser Counting := ⟨plain⟩

/-- A reader one level down. It comes up again also if it fails. -/
def deeper (c : Counting α) : Counting α := fun s =>
  match c { s with depth := s.depth + 1 } with
  | .ok a s => .ok a { s with depth := s.depth - 1 }
  | .error fault s => .error fault { s with depth := s.depth - 1 }

/-- More items up to a closing brace, up to a number of times. -/
def upToBrace (item : Counting α) : Nat → Counting (List α)
  | 0 => do
    let first ← item
    return [first]
  | bound + 1 => do
    if ← skip (.symbol .closeBrace) then return []
    else
      let first ← item
      let rest ← upToBrace item bound
      return first :: rest

/-- Items between braces, at least one. -/
def braced (item : Counting α) : Counting (List α) := do
  let _ ← mark .openBrace
  let first ← item
  let rest ← upToBrace item (← get).ahead.length
  return first :: rest

/-- `instruction+`, between braces, with a reader for one instruction. -/
def block (instruction : Counting Instruction) : Counting Block :=
  Block.ofList <$> braced instruction

/-- `block ["sino" block]`, with a reader for an instruction. -/
def branches (instruction : Counting Instruction) : Counting (Block × Block) := do
  let yes ← block instruction
  let no ← if ← skip (.keyword .sino) then block instruction else pure .done
  return (yes, no)

/-- `"si" "(" condition ")" block ["sino" block]`, unless too many conditionals are open, with a
reader for an instruction in the blocks. -/
def choose (instruction : Counting Instruction) : Counting Instruction := do
  if nestingLimit ≤ (← get).depth then refuseFor (.tooDeep nestingLimit)
  else
    let _ ← word .si
    let _ ← mark .openParen
    let condition ← Parser.condition
    let _ ← mark .closeParen
    let (yes, no) ← deeper (branches instruction)
    return .choose condition yes no

/-- One instruction, with a reader for the conditional. -/
def instructionWith (conditional : Counting Instruction) : Counting Instruction := do
  if ← peek (.keyword .usa) then Parser.use
  else if ← peek (.keyword .si) then conditional
  else refuse "'usa' or 'si'"

/-- `instruction := "usa" ID ";" | "si" "(" condition ")" block ["sino" block]`. The bound is one on
the recursion, which ends by itself at the limit of the nesting: any bound that is as large as the
number of levels left reads the same (`follows_instruction`). -/
def instruction : Nat → Counting Instruction
  | 0 => instructionWith (refuseFor (.tooDeep nestingLimit))
  | bound + 1 => instructionWith (choose (instruction bound))

/-- `script := "turno" ID block` -/
def script : Counting Script := do
  let span ← word .turno
  let (fighter, _) ← ident "fighter name"
  let body ← block (instruction nestingLimit)
  return { fighter, body, span }

/-- `fight := "pelea" "{" script+ "}"` -/
def fight : Counting (List Script) := do
  let _ ← word .pelea
  braced script

/-- `simulation := "simulacion" "{" matchup fight "}"` -/
def simulation : Counting (Matchup × List Script) := do
  let _ ← word .simulacion
  let _ ← mark .openBrace
  let matchup ← Parser.matchup
  let scripts ← fight
  let _ ← mark .closeBrace
  return (matchup, scripts)

/-- `program := fighter+ simulation` -/
def program : Counting Program := do
  let library ← fighters .empty ((← get).ahead.length + 1)
  let (matchup, scripts) ← simulation
  atEnd
  consistent (Program.assemble library matchup scripts)

/-! ### Readers that are followed -/

/-- How a run comes out with so many conditionals open. -/
def withDepth (d : Nat) : Result Fault (List Token) α → Result Fault Nested α
  | .ok a rest => .ok a ⟨d, rest⟩
  | .error fault rest => .error fault ⟨d, rest⟩

/-- Started with so many conditionals open, a reader with a counter comes out as one without, and
leaves the counter as it was. -/
def Follows (d : Nat) (c : Counting α) (p : Parser α) : Prop :=
  ∀ ts, c ⟨d, ts⟩ = withDepth d (p ts)

variable {d : Nat} {c item : Counting α} {p item' : Parser α} {f : α → Counting β}
  {f' : α → Parser β}

theorem follows_plain (p : Parser α) : Follows d (plain p) p := by
  intro ts
  rw [plain]
  cases p ts <;> rfl

theorem follows_pure (a : α) : Follows d (pure a) (pure a) :=
  fun _ => rfl

/-- Counting readers one after the other, each with the counter as the first one found it. -/
theorem Follows.bind (hc : Follows d c p) (hf : ∀ a, Follows d (f a) (f' a)) :
    Follows d (c >>= f) (p >>= f') := by
  intro ts
  have hrun := hc ts
  show EStateM.bind c f _ = withDepth d (EStateM.bind p f' ts)
  rw [EStateM.bind, EStateM.bind, hrun]
  cases p ts with
  | ok a mid => exact hf a mid
  | error fault rest => rfl

/-- A reader that does not look at the counter, before both. -/
theorem follows_bind (hf : ∀ a, Follows d (f a) (f' a)) : Follows d (plain p >>= f) (p >>= f') :=
  (follows_plain p).bind hf

theorem Follows.map (hc : Follows d c p) (g : α → β) : Follows d (g <$> c) (g <$> p) := by
  rw [map_eq_pure_bind, map_eq_pure_bind]
  exact hc.bind fun a => follows_pure (g a)

theorem follows_ite {found : Bool} {c' : Counting α} {p' : Parser α} (hc : Follows d c p)
    (hc' : Follows d c' p') : Follows d (if found = true then c else c')
      (if found = true then p else p') := by
  split
  · exact hc
  · exact hc'

/-- A reader that looks at the counter or the tokens left. -/
theorem follows_get {f : Nested → Counting α} {f' : List Token → Parser α}
    (h : ∀ ts, Follows d (f ⟨d, ts⟩) (f' ts)) : Follows d (get >>= f) (get >>= f') :=
  fun ts => h ts ts

/-- A reader that looks at the counter. -/
theorem follows_depth {f : Nested → Counting α} (h : ∀ ts, Follows d (f ⟨d, ts⟩) p) :
    Follows d (get >>= f) p :=
  fun ts => h ts ts

/-- The counter goes up and comes down again. -/
theorem Follows.deeper (hc : Follows (d + 1) c p) : Follows d (deeper c) p := by
  intro ts
  rw [Counting.deeper, hc ts]
  cases p ts <;> rfl

/-! ### Productions -/

/-- Items up to a closing brace leave the counter as it is if each item does. -/
theorem follows_upToBrace (h : Follows d item item') (bound : Nat) :
    Follows d (upToBrace item bound) (Parser.upToBrace item' bound) := by
  induction bound with
  | zero => exact h.bind fun first => follows_pure _
  | succ bound ih =>
    refine follows_bind fun found => follows_ite (follows_pure _) ?_
    exact h.bind fun first => ih.bind fun rest => follows_pure _

theorem follows_braced (h : Follows d item item') :
    Follows d (braced item) (Parser.braced item') := by
  refine follows_bind fun _ => h.bind fun first => ?_
  exact follows_get fun ts => (follows_upToBrace h _).bind fun rest => follows_pure (first :: rest)

variable {reader : Counting Instruction} {reader' : Parser Instruction}

theorem follows_block (h : Follows d reader reader') :
    Follows d (block reader) (Parser.block reader') :=
  (follows_braced h).map Block.ofList

/-- The blocks of a conditional, read without a counter. -/
def branchesOf (instruction : Parser Instruction) : Parser (Block × Block) := do
  let yes ← Parser.block instruction
  let no ← if ← skip (.keyword .sino) then Parser.block instruction else pure .done
  return (yes, no)

/-- The two blocks of a conditional are read one after the other, the second one after `sino`
only. -/
theorem branchesOf_bind (f : Block × Block → Parser α) : (branchesOf reader' >>= f) = (do
    let yes ← Parser.block reader'
    if ← skip (.keyword .sino) then
      let no ← Parser.block reader'
      f (yes, no)
    else f (yes, .done)) := by
  simp only [branchesOf, bind_assoc]
  refine bind_congr fun yes => bind_congr fun found => ?_
  cases found <;> simp

theorem follows_branches (h : Follows d reader reader') :
    Follows d (branches reader) (branchesOf reader') := by
  refine (follows_block h).bind fun yes => follows_bind fun found => follows_ite ?_ ?_
  · exact (follows_block h).bind fun no => follows_pure _
  · exact follows_pure _

/-- Below the limit a conditional is read with its blocks one level down. -/
theorem follows_choose (hd : d < nestingLimit) (h : Follows (d + 1) reader reader') :
    Follows d (choose reader) (Parser.choose reader') := by
  refine follows_depth fun _ => ?_
  rw [if_neg (Nat.not_le.mpr hd)]
  refine follows_bind fun _ => follows_bind fun _ => follows_bind fun condition => ?_
  refine follows_bind fun _ => ?_
  have hblocks := (follows_branches h).deeper.bind fun blocks =>
    follows_pure (Instruction.choose condition blocks.1 blocks.2)
  rwa [branchesOf_bind] at hblocks

/-- At the limit a conditional is refused. -/
theorem follows_choose_refused (hd : nestingLimit ≤ d) :
    Follows d (choose reader) (refuseFor (.tooDeep nestingLimit)) := by
  refine follows_depth fun _ => ?_
  rw [if_pos hd]
  exact follows_plain _

theorem follows_instructionWith (h : Follows d reader reader') :
    Follows d (instructionWith reader) (Parser.instructionWith reader') := by
  refine follows_bind fun found => follows_ite (follows_plain _) ?_
  exact follows_bind fun found => follows_ite h (follows_plain _)

/-- With some conditionals open an instruction is read as with the levels that are left, whatever
the bound on the recursion. -/
theorem follows_instruction {levels bound : Nat} (hlevels : d + levels = nestingLimit)
    (hbound : levels ≤ bound) : Follows d (instruction bound) (Parser.instruction levels) := by
  induction bound generalizing d levels with
  | zero =>
    obtain rfl := Nat.le_zero.mp hbound
    exact follows_instructionWith (follows_plain _)
  | succ bound ih =>
    cases levels with
    | zero => exact follows_instructionWith (follows_choose_refused (Nat.le_of_eq hlevels.symm))
    | succ levels =>
      have hinner : Follows (d + 1) (instruction bound) (Parser.instruction levels) :=
        ih (by omega) (by omega)
      exact follows_instructionWith (follows_choose (by omega) hinner)

/-- A script begins where no conditional is open. -/
theorem follows_script : Follows 0 script Parser.script := by
  refine follows_bind fun span => follows_bind fun (fighter, _) => ?_
  exact (follows_block (follows_instruction (Nat.zero_add _) (Nat.le_refl _))).bind fun body =>
    follows_pure _

theorem follows_fight : Follows 0 fight Parser.fight :=
  follows_bind fun _ => follows_braced follows_script

theorem follows_simulation : Follows 0 simulation Parser.simulation := by
  refine follows_bind fun _ => follows_bind fun _ => follows_bind fun matchup => ?_
  exact follows_fight.bind fun scripts => follows_bind fun _ => follows_pure _

/-- Where no conditional is open, a program is read as without a counter, and none is open behind
it, whether or not reading fails. -/
theorem follows_program : Follows 0 program Parser.program := by
  refine follows_get fun ts => follows_bind fun library => ?_
  refine follows_simulation.bind fun (matchup, scripts) => follows_bind fun _ => ?_
  exact follows_plain _

end Counting

end Lucha
