import SyntaxCoverage.Json.Decimal

/-!
Figures: how many lines and outcomes there are, and how many of them were covered. Figures are
words of 64 bits, and their sums wrap around.
-/

namespace SyntaxCoverage

structure Figures where
  linesRelevant : UInt64
  linesCovered : UInt64
  branchesTotal : UInt64
  branchesCovered : UInt64
deriving DecidableEq, Inhabited

namespace Figures

def zero : Figures := ⟨0, 0, 0, 0⟩

def add (a b : Figures) : Figures :=
  ⟨a.linesRelevant + b.linesRelevant, a.linesCovered + b.linesCovered,
    a.branchesTotal + b.branchesTotal, a.branchesCovered + b.branchesCovered⟩

/-- The covered part in percent, all of it when there is nothing to cover. -/
def percent (covered total : UInt64) : Binary64 :=
  .ofFloat (if total = 0 then 100 else covered.toFloat / total.toFloat * 100)

def linePercent (f : Figures) : Binary64 := percent f.linesCovered f.linesRelevant

def branchPercent (f : Figures) : Binary64 := percent f.branchesCovered f.branchesTotal

end Figures

end SyntaxCoverage
