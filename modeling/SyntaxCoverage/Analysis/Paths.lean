import SyntaxCoverage.Arena.Runs
import SyntaxCoverage.Report.Branches
import SyntaxCoverage.Settings.Basic

/-!
The ways through a construct and how often each was taken. A way with a clause has the runs of the
clause; a way without one has what is left of the evaluations of the construct, and nothing when
the counts contradict each other.
-/

namespace SyntaxCoverage

structure Path where
  label : Branch.Label
  span : Span
  hits : Nat
deriving DecidableEq, Inhabited

namespace Arena

def spanOr (n : Option Node) (fallback : Span) : Span := (n.bind Node.span?).getD fallback

def runsOf? (t : Arena) (r : Recording) : Option Node → Except RecordingError (Option Nat)
  | some n => (t.runs r n).map some
  | none => .ok none

/-- How often the operand in control of a construct was evaluated to its end. An operand that is
not watched counts as often as the construct ran. -/
def evaluations (t : Arena) (r : Recording) (n : Node) (operand : Option Node) :
    Except RecordingError Nat :=
  match operand with
  | none => t.runs r n
  | some operand => do
    match ← recordedHits r operand with
    | some _ => t.fullRuns r operand
    | none => t.runs r n

def conditionalPaths (t : Arena) (r : Recording) (n : Node) (span : Span)
    (thenSlot elseSlot : Nat) : Except RecordingError (List Path) := do
  let total ← t.evaluations r n (t.locatedAt? n 0)
  let thenClause := t.locatedAt? n thenSlot
  let elseClause := t.locatedAt? n elseSlot
  let thenRuns ← t.runsOf? r thenClause
  let elseRuns ← t.runsOf? r elseClause
  let thenHits :=
    match thenRuns, elseRuns with
    | some hits, _ => hits
    | none, some other => total - other
    | none, none => 0
  let elseHits := elseRuns.getD (total - thenHits)
  return [⟨.thenPath, spanOr thenClause span, thenHits⟩,
    ⟨.elsePath, spanOr elseClause span, elseHits⟩]

/-- The then path is the one on which the left operand is true. -/
def shortCircuitPaths (t : Arena) (r : Recording) (n : Node) (span : Span) (op : Connective)
    (lhs rhs : Nat) : Except RecordingError (List Path) := do
  let total ← t.evaluations r n (t.locatedAt? n lhs)
  let right := t.locatedAt? n rhs
  let rightRuns := (← t.runsOf? r right).getD 0
  match op with
  | .and =>
    return [⟨.thenPath, spanOr right span, rightRuns⟩, ⟨.elsePath, span, total - rightRuns⟩]
  | .or =>
    return [⟨.thenPath, span, total - rightRuns⟩, ⟨.elsePath, spanOr right span, rightRuns⟩]

/-- The call was made as often as its selector was reached. -/
def safeCallPaths (t : Arena) (r : Recording) (n : Node) (span : Span) (receiver : Nat) :
    Except RecordingError (List Path) := do
  let total ← t.evaluations r n (t.locatedAt? n receiver)
  let calls ← match n.selector? with
    | some selector => (r.hits selector.extent).map (·.getD 0)
    | none => pure 0
  return [⟨.thenPath, span, calls⟩, ⟨.elsePath, span, total - calls⟩]

def lastClause? (t : Arena) (n : Node) : Option Node :=
  if 2 ≤ n.items.length then t.locatedAt? n (n.items.length - 1) else none

def isWhen (n : Node) : Bool := n.construct == .whenClause

def whenClauses (t : Arena) (n : Node) : List Node := (t.children n).filter isWhen

def elseBody? (t : Arena) (n : Node) : Option Node :=
  (t.lastClause? n).filter fun last => !isWhen last

def reach (t : Arena) (r : Recording) (clause : Node) : Except RecordingError Nat :=
  t.runs r ((t.locatedAt? clause 0).getD clause)

/-- How often control went on from an empty clause to the `next` one, or to the else body. -/
def reachAfter (t : Arena) (r : Recording) (next : Option Node) (elseBody : Option Node) :
    Except RecordingError (Option Nat) :=
  match next with
  | some next => (t.reach r next).map some
  | none => t.runsOf? r elseBody

def clausePath (t : Arena) (r : Recording) (span : Span) (elseBody : Option Node) (index : Nat)
    (clause : Node) (next : Option Node) : Except RecordingError Path :=
  match t.lastClause? clause with
  | some body => do return ⟨.clause index, spanOr (some body) span, ← t.runs r body⟩
  | none => do
    let hits ← match ← t.reachAfter r next elseBody with
      | some after => do pure ((← t.reach r clause) - after)
      | none => pure 0
    return ⟨.clause index, spanOr (some clause) span, hits⟩

def clausePaths (t : Arena) (r : Recording) (span : Span) (elseBody : Option Node) :
    Nat → List Node → Except RecordingError (List Path)
  | _, [] => .ok []
  | index, clause :: clauses => do
    let path ← t.clausePath r span elseBody index clause clauses.head?
    return path :: (← t.clausePaths r span elseBody (index + 1) clauses)

def casePaths (t : Arena) (r : Recording) (n : Node) (span : Span) :
    Except RecordingError (List Path) := do
  let elseBody := t.elseBody? n
  let paths ← t.clausePaths r span elseBody 0 (t.whenClauses n)
  match elseBody with
  | some body => return paths ++ [⟨.elsePath, spanOr (some body) span, ← t.runs r body⟩]
  | none => return paths

/-- A loop that tests first leaves out its body on some entries; how many is known exactly when
no entry runs the body more than once. -/
def loopPaths (t : Arena) (s : Settings) (r : Recording) (n : Node) (span : Span) :
    Except RecordingError (List Path) := do
  let entries ← t.runs r n
  let body := t.locatedAt? n 1
  let iterations ← match body with
    | some body => t.runs r body
    | none => do pure ((← t.evaluations r n (t.locatedAt? n 0)) - entries)
  let skip : List Path := if s.includeSkip then [⟨.skip, span, entries - iterations⟩] else []
  return ⟨.body, spanOr body span, iterations⟩ :: skip

/-- A loop that tests last runs its body on every entry, so an empty body counts as the loop. -/
def loopAfterPaths (t : Arena) (r : Recording) (n : Node) (span : Span) :
    Except RecordingError (List Path) := do
  let body := t.locatedAt? n 1
  let iterations ← match body with
    | none => t.runs r n
    | some body =>
      if (t.locatedChildren body).isEmpty then do
        match ← recordedHits r body with
        | some hits => pure hits
        | none => t.runs r n
      else t.runs r body
  return [⟨.body, spanOr body span, iterations⟩]

def paths (t : Arena) (s : Settings) (r : Recording) (n : Node) (span : Span) :
    Except RecordingError (List Path) :=
  match n.construct with
  | .conditional thenSlot elseSlot => t.conditionalPaths r n span thenSlot elseSlot
  | .caseOf => t.casePaths r n span
  | .shortCircuit op lhs rhs => t.shortCircuitPaths r n span op lhs rhs
  | .safeCall receiver => t.safeCallPaths r n span receiver
  | .loop .before _ => t.loopPaths s r n span
  | .loop .after _ => t.loopAfterPaths r n span
  | .generic => .ok []
  | .marker => .ok []
  | .sequence => .ok []
  | .whenClause => .ok []

end Arena

end SyntaxCoverage
