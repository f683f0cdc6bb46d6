import SyntaxCoverage.Source.Extent

/-!
Recordings: what is known of the execution of a source text. A recording answers, for one exact
extent, how often control reached it and how often control left it normally; no answer means that
the extent was not watched. Asking may fail.

Whatever answers these questions is a recording, and a tally of hits is only one of them. A record of
hits alone is one (`withoutCompletions`, what a recording answers that says nothing about completions),
and so is a record of which parts cannot be read (`withFaults`).
-/

namespace SyntaxCoverage

inductive RecordingError where
  | unreadable (reason : String)
  | encoding (reason : String)
  | outOfBounds (extent : Extent)
deriving DecidableEq

def RecordingError.message : RecordingError → String
  | .unreadable reason => "Hit counts unreadable: " ++ reason
  | .encoding reason => "Incompatible encoding: " ++ reason
  | .outOfBounds extent => "Range " ++ extent.toText ++ " outside the instrumented source"

structure Recording where
  hits : Extent → Except RecordingError (Option Nat)
  completions : Extent → Except RecordingError (Option Nat)

namespace Recording

/-- The same hits with completions not tracked, so that every run counts as complete. -/
def withoutCompletions (r : Recording) : Recording := { r with completions := fun _ => .ok none }

inductive Question where
  | hits
  | completions
  | any
deriving DecidableEq

/-- An extent at which one of the questions, or any of them, fails. -/
structure Fault where
  extent : Extent
  question : Question
  error : RecordingError
deriving DecidableEq

def faultAt? (faults : List Fault) (question : Question) (e : Extent) : Option RecordingError :=
  (faults.find? fun f => f.extent == e && (f.question == question || f.question == .any)).map
    (·.error)

/-- The same recording where it can be read. -/
def withFaults (r : Recording) (faults : List Fault) : Recording where
  hits e :=
    match faultAt? faults .hits e with
    | some error => .error error
    | none => r.hits e
  completions e :=
    match faultAt? faults .completions e with
    | some error => .error error
    | none => r.completions e

end Recording

end SyntaxCoverage
