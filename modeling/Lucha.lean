import Lucha.Main
import Lucha.Proofs.Combat.Record
import Lucha.Proofs.Combat.Structure
import Lucha.Proofs.Combat.Nesting
import Lucha.Proofs.Combat.Rounds
import Lucha.Proofs.Combat.Limits
import Lucha.Proofs.Combat.Budget
import Lucha.Proofs.Combat.Carryover
import Lucha.Proofs.Combat.Extension
import Lucha.Proofs.Combat.Essence
import Lucha.Proofs.Combat.UnknownNames
import Lucha.Proofs.Combat.Cycle
import Lucha.Proofs.Misfit
import Lucha.Proofs.Report.Data
import Lucha.Proofs.Report.Diagnostic
import Lucha.Proofs.Report.Tally
import Lucha.Proofs.Command.Run
import Lucha.Proofs.Combat.TurnStarts
import Lucha.Proofs.Combat.Exchange
import Lucha.Proofs.Token.Partition
import Lucha.Proofs.Program.Layout
import Lucha.Proofs.Program.Order
import Lucha.Proofs.Strays
import Lucha.Proofs.Combat.Refusal
import Lucha.Proofs.Token.Places
import Lucha.Proofs.Token.Requests
import Lucha.Proofs.ReadingOn
import Lucha.Proofs.Report.Filter
import Lucha.Proofs.Program.FallbackCycle
import Lucha.Proofs.Numerals
