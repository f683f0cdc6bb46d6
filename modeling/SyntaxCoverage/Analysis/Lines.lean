import SyntaxCoverage.Arena.Runs
import SyntaxCoverage.Arena.Walk
import SyntaxCoverage.Ledger
import SyntaxCoverage.Report.LineHits
import SyntaxCoverage.Settings.Basic

/-!
From the runs of nodes to the hits of lines. A node counts for the line it starts on, and a line
has the highest count of its nodes. What was entered before a failure stays in the ledger.
-/

namespace SyntaxCoverage

def Node.countedLine? (n : Node) : Option Nat :=
  if n.isExecutable then n.span?.map Span.firstLine else none

namespace Ledger

def enterRuns (s : Settings) (l : Ledger) (line runs : Nat) : Ledger :=
  let l := l.addRuns line runs
  if s.allowPartial = false ∧ runs = 0 then l.markMissed line else l

def enterNodes (s : Settings) (t : Arena) (r : Recording) :
    List Node → Ledger → Except RecordingError Unit × Ledger
  | [], l => (.ok (), l)
  | n :: ns, l =>
    match n.countedLine? with
    | none => enterNodes s t r ns l
    | some line =>
      match t.runs r n with
      | .error e => (.error e, l)
      | .ok runs => enterNodes s t r ns (l.enterRuns s line runs)

def enterLines (s : Settings) (t : Arena) (r : Recording) (l : Ledger) :
    Except RecordingError Unit × Ledger :=
  enterNodes s t r (t.walkAll .pre) l

def hitsOfLines (s : Settings) (lines : SortedMap Nat LineMark) : LineHits :=
  (lines.filterKeys fun line => decide (s.firstLine ≤ line)).mapValues fun mark =>
    if mark.missed then 0 else mark.runs

def projectLines (s : Settings) (t : Arena) (r : Recording) (l : Ledger) :
    Except RecordingError LineHits × Ledger :=
  match l.enterLines s t r with
  | (.error e, l) => (.error e, l)
  | (.ok (), l) =>
    let (lines, l) := l.takeLines
    (.ok (hitsOfLines s lines), l)

end Ledger

end SyntaxCoverage
