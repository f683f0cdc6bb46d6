import SyntaxCoverage.Analysis.Entries
import SyntaxCoverage.Analysis.Lines
import SyntaxCoverage.Arena.Builder
import SyntaxCoverage.Report.Basic

/-!
The analysis of one unit: lay out its tree, project its lines, enter its branches, and check that
no id stands for two things.
-/

namespace SyntaxCoverage

namespace Ledger

def report (s : Settings) (unit : String) (t : Arena) (r : Recording) (l : Ledger) :
    Except Failure Report × Ledger :=
  match l.projectLines s t r with
  | (.error e, l) => (.error (.recording unit e), l)
  | (.ok lines, l) =>
    match l.entries s t r with
    | (.error e, l) => (.error (.recording unit e), l)
    | (.ok branches, l) =>
      let checked := if s.verifyUnique then Branch.verifyUnique branches else .ok ()
      (checked.map fun _ => ⟨lines, branches, t.size⟩, l)

end Ledger

def anonymousUnit : String := "<unit>"

def Settings.analyse (s : Settings) (unit : String) (t : Tree) (r : Recording) :
    Except Failure Report := do
  s.validate
  let (arena, ledger) := Ledger.empty.build t
  (ledger.report s unit arena r).1

end SyntaxCoverage
