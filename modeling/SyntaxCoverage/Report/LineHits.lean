import SyntaxCoverage.SortedMap

/-!
Line coverage: how often each relevant line ran. A line without executable code has no entry.
-/

namespace SyntaxCoverage

abbrev LineHits := SortedMap Nat Nat

namespace LineHits

def relevant (lines : LineHits) : Nat := lines.size

def covered (lines : LineHits) : Nat := (lines.entries.filter fun e => decide (0 < e.2)).length

def dense (lines : LineHits) (lineCount : Nat) : List (Option Nat) :=
  (List.range lineCount).map fun i => lines.find? (i + 1)

end LineHits

end SyntaxCoverage
