import Lucha.Report.Data
import Lucha.Report.Filter
import Lucha.Report.Plain
import Lucha.Report.Tally

/-!
# Rendering fights

A fight that is over is told in lines: the records that pass a filter, the result, and on demand the
tally. A line may hold line feeds.
-/

namespace Lucha.Report

open Combat

/-- How a fight is told. -/
inductive Format where
  /-- In words. -/
  | plain
  /-- As data. -/
  | data
deriving DecidableEq

/-- What is told of a fight, and how. -/
structure Rendering where
  format : Format := .plain
  filter : Filter := {}
  /-- Whether only the result is told. -/
  quiet : Bool := false
  /-- Whether the tally is told after the result; only in words. -/
  showStats : Bool := false
  /-- Whether the numbers of the records are told; only in words. -/
  showIds : Bool := false
deriving DecidableEq, Inhabited

namespace Rendering

/-- A record as the format has it. -/
def record (r : Rendering) (record : Record) : String :=
  match r.format with
  | .plain => PlainStyle.record { showIds := r.showIds } record
  | .data => (recordData record).render

/-- A result as the format has it. -/
def result (r : Rendering) (result : Result) : String :=
  match r.format with
  | .plain => resultLines result
  | .data => (resultData result).render

/-- The lines that tell a fight. -/
def lines (r : Rendering) (f : Finished) : List String :=
  let records := if r.quiet then [] else (r.filter.apply f.log.records).map r.record
  let tally := if r.showStats ∧ r.format = .plain then [(Tally.ofLog f.log).text] else []
  records ++ [r.result f.result] ++ tally

end Rendering

end Lucha.Report
