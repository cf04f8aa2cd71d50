import Lucha.Quantity
import Lucha.Source.Span

/-!
# Conditions and blocks of instructions

A `Block` is a sequence of instructions: each uses an action or combo by its name, or chooses
between two blocks by a condition on the quantities of a fighter.
-/

namespace Lucha

/-! ### Conditions -/

/-- The fighter a condition is about. -/
inductive Subject where
  /-- The fighter whose turn it is. -/
  | actor
  | opponent
deriving DecidableEq

/-- The word for a subject. -/
def Subject.keyword : Subject → String
  | actor => "self"
  | opponent => "oponente"

/-- The quantity of a fighter that a condition is about. -/
inductive Stat where
  | hp | stamina
deriving DecidableEq

/-- The word for a quantity of a fighter. -/
def Stat.keyword : Stat → String
  | hp => "hp"
  | stamina => "st"

/-- A way to compare two quantities. -/
inductive Comparison where
  | less | greater | atMost | atLeast | equal | unequal
deriving DecidableEq

namespace Comparison

/-- The sign for a comparison. -/
def text : Comparison → String
  | less => "<"
  | greater => ">"
  | atMost => "<="
  | atLeast => ">="
  | equal => "=="
  | unequal => "!="

/-- Whether a comparison holds. -/
def holds : Comparison → Quantity → Quantity → Bool
  | less, a, b => a < b
  | greater, a, b => b < a
  | atMost, a, b => a ≤ b
  | atLeast, a, b => b ≤ a
  | equal, a, b => a = b
  | unequal, a, b => a ≠ b

end Comparison

/-- A comparison of a fighter's hit points or stamina with a number. -/
structure Condition where
  subject : Subject
  stat : Stat
  comparison : Comparison
  threshold : Quantity
deriving DecidableEq

namespace Condition

/-- Whether a condition holds for a value of what it is about. -/
def holdsFor (c : Condition) (value : Quantity) : Bool :=
  c.comparison.holds value c.threshold

/-- A condition as it is written. -/
def text (c : Condition) : String :=
  s!"{c.subject.keyword}.{c.stat.keyword} {c.comparison.text} {c.threshold}"

end Condition

/-! ### Instructions -/

/-- Instructions, one after the other. -/
inductive Block where
  /-- No more instructions. -/
  | done
  /-- Use an action or combo, then go on. -/
  | use (name : String) (span : Span) (next : Block)
  /-- Do one block or the other, then go on. -/
  | choose (condition : Condition) (yes no : Block) (next : Block)
deriving DecidableEq, Inhabited

/-- The first instruction of a block, taken by itself. -/
inductive Instruction where
  | use (name : String) (span : Span)
  | choose (condition : Condition) (yes no : Block)
deriving DecidableEq

namespace Block

/-- A block with an instruction before it. -/
def cons : Instruction → Block → Block
  | .use name span, next => use name span next
  | .choose condition yes no, next => choose condition yes no next

/-- The block of some instructions. -/
def ofList (instructions : List Instruction) : Block :=
  instructions.foldr cons done

/-- The names used anywhere in a block, in order, and where they are written. -/
def uses : Block → List (String × Span)
  | done => []
  | use name span next => (name, span) :: next.uses
  | choose _ yes no next => yes.uses ++ (no.uses ++ next.uses)

end Block

end Lucha
