import Lucha.Command.Help
import Lucha.Command.Options
import Lucha.Program.Printer
import Lucha.Report.Check
import Lucha.Report.Diagnostic

/-!
# Running the command line

What the program prints for its arguments, given what each file holds. The files are done in
order, and the first one that cannot be read or does not hold a program ends the run; what was
printed before it stays printed. A run that goes wrong says why, unless the report of the error
cannot be laid out: then the program breaks off and says nothing of its own.
-/

namespace Lucha.Command

/-- Why a file cannot be read. -/
inductive ReadFailure where
  | missing
  | directory
  /-- The file holds bytes that are no UTF-8 text. -/
  | notText
  /-- Another reason, as the system puts it. -/
  | other (reason : String)
deriving DecidableEq

/-- The reason as the system puts it. -/
def ReadFailure.reason : ReadFailure → String
  | missing => "No such file or directory (os error 2)"
  | directory => "Is a directory (os error 21)"
  | notText => "stream did not contain valid UTF-8"
  | other reason => reason

/-- How a run goes wrong. -/
inductive Failure where
  /-- With a message that says why. -/
  | told (message : String)
  /-- Broken off before there is a message. -/
  | brokenOff
deriving DecidableEq

/-- A run goes wrong with the report of an error, or it is broken off while laying that out. -/
def Failure.ofError (origin : String) (e : Error) : Failure :=
  match Report.errorReport? origin e with
  | some message => told message
  | none => brokenOff

/-- What was printed, and what went wrong. -/
structure Output where
  printed : String
  failure : Option Failure
deriving DecidableEq

namespace Output

/-- Something printed, and nothing wrong. -/
def text (printed : String) : Output := ⟨printed, none⟩

/-- Nothing printed, and something wrong. -/
def fail (failure : Failure) : Output := ⟨"", some failure⟩

/-- The exit code. -/
def code (o : Output) : UInt8 :=
  match o.failure with
  | none => 0
  | some (.told _) => 1
  | some .brokenOff => 101

/-- What the program prints about what went wrong, in red. -/
def complaint (o : Output) : String :=
  match o.failure with
  | some (.told message) => s!"\x1b[31mError: {message}\x1b[0m\n"
  | _ => ""

end Output

/-- What files hold. -/
abbrev Files := String → Except ReadFailure String

/-- The program in a file. -/
def load (files : Files) (path : String) : Except Error Parsed :=
  match files path with
  | .ok source => Parsed.ofSource source
  | .error failure => .error ⟨.unreadable path failure.reason, []⟩

/-- What is printed for a fight. -/
def tell (o : Options) (p : Program) : Except Error String :=
  match Combat.run o.rules p with
  | .ok finished => .ok (String.join ((o.rendering.lines finished).map (· ++ "\n")))
  | .error cause => .error ⟨cause, []⟩

/-- What is printed for the program in a file. -/
def present (o : Options) (path : String) (p : Parsed) : Except Error String :=
  if o.check then .ok (Report.checkReport path p ++ "\n")
  else if o.pretty then .ok p.program.render
  else tell o p.program

/-- The line between several files; there is none between lines of data. -/
def heading (o : Options) (many : Bool) (path : String) : String :=
  if many ∧ o.rendering.format = .plain then s!"\x1b[1;36m=== {path} ===\x1b[0m\n" else ""

/-- What is printed for files one after the other. -/
def presentAll (o : Options) (files : Files) (many : Bool) : List String → Output
  | [] => .text ""
  | path :: rest =>
    match load files path with
    | .error error => .fail (.ofError path error)
    | .ok parsed =>
      let heading := heading o many path
      match present o path parsed with
      | .error error => ⟨heading, some (.ofError path error)⟩
      | .ok printed =>
        let others := presentAll o files many rest
        ⟨heading ++ printed ++ others.printed, others.failure⟩

/-- What is printed for options. -/
def follow (o : Options) (files : Files) : Output :=
  if o.help then .text (helpText ++ "\n")
  else if o.version then .text (versionText ++ "\n")
  else if o.files.isEmpty then .fail (.told UsageError.noFiles.message)
  else presentAll o files (decide (1 < o.files.length)) o.files

/-- What is printed for arguments. -/
def run (arguments : List String) (files : Files) : Output :=
  match Options.ofArguments arguments with
  | .ok options => follow options files
  | .error error => .fail (.told error.message)

end Lucha.Command
