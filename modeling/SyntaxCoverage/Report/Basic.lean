import SyntaxCoverage.Report.Branches
import SyntaxCoverage.Report.Figures
import SyntaxCoverage.Report.LineHits

/-! The coverage report of one unit: its lines, its branches and the number of its nodes. -/

namespace SyntaxCoverage

structure Report where
  lines : LineHits
  branches : List Branch.Entry
  nodeCount : Nat
deriving DecidableEq, Inhabited

namespace Report

def figures (r : Report) : Figures where
  linesRelevant := .ofNat r.lines.relevant
  linesCovered := .ofNat r.lines.covered
  branchesTotal := .ofNat (Branch.totalOutcomes r.branches)
  branchesCovered := .ofNat (Branch.coveredOutcomes r.branches)

end Report

end SyntaxCoverage
