import SyntaxCoverage.Arena.Basic
import SyntaxCoverage.Recording

/-!
How often the nodes of an arena ran. A marker never runs. A sequence is not watched itself: it is
entered as often as its first located child, and left normally as often as its last one. Every
other node has the counts recorded for its extent, and never completes more often than it runs.
-/

namespace SyntaxCoverage

namespace Arena

def recordedHits (r : Recording) (n : Node) : Except RecordingError (Option Nat) :=
  match n.extent? with
  | some e => r.hits e
  | none => .ok none

def recordedCompletions (r : Recording) (n : Node) : Except RecordingError (Option Nat) :=
  match n.extent? with
  | some e => r.completions e
  | none => .ok none

def recordedRuns (r : Recording) (n : Node) : Except RecordingError Nat :=
  (recordedHits r n).map (·.getD 0)

/-- The runs of a node, found within `depth` steps from sequence to child. -/
def runsWithin (t : Arena) (r : Recording) : Nat → Node → Except RecordingError Nat
  | 0, n => recordedRuns r n
  | depth + 1, n =>
    match n.construct with
    | .marker => .ok 0
    | .sequence =>
      match (t.locatedChildren n).head? with
      | some first => t.runsWithin r depth first
      | none => recordedRuns r n
    | _ => recordedRuns r n

def runs (t : Arena) (r : Recording) (n : Node) : Except RecordingError Nat :=
  t.runsWithin r (t.size + 1) n

/-- The runs of a node less those known to have been cut short. -/
def completedRuns (t : Arena) (r : Recording) (n : Node) : Except RecordingError Nat := do
  let runs ← t.runs r n
  match ← recordedCompletions r n with
  | some completions => return min completions runs
  | none => return runs

def fullRunsWithin (t : Arena) (r : Recording) : Nat → Node → Except RecordingError Nat
  | 0, n => t.completedRuns r n
  | depth + 1, n =>
    match n.construct with
    | .marker => .ok 0
    | .sequence =>
      match (t.locatedChildren n).getLast? with
      | some last => t.fullRunsWithin r depth last
      | none => t.completedRuns r n
    | _ => t.completedRuns r n

def fullRuns (t : Arena) (r : Recording) (n : Node) : Except RecordingError Nat :=
  t.fullRunsWithin r (t.size + 1) n

def wasExecuted (t : Arena) (r : Recording) (n : Node) : Except RecordingError Bool :=
  if n.isExecutable then (t.runs r n).map fun runs => decide (0 < runs) else .ok false

def interrupts (t : Arena) (r : Recording) (n : Node) : Except RecordingError Nat := do
  let runs ← t.runs r n
  let full ← t.fullRuns r n
  return runs - full

end Arena

end SyntaxCoverage
