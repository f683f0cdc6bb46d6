import SyntaxCoverage.Failure
import SyntaxCoverage.Source.Position

/-!
Branch coverage: one entry for each construct with alternatives, and in it one outcome for each
way through. Nodes and outcomes share one space of ids, which `verifyUnique` checks.
-/

namespace SyntaxCoverage.Branch

inductive Label where
  | thenPath
  | elsePath
  | clause (index : Nat)
  | body
  | skip
deriving DecidableEq, Inhabited

namespace Label

def tag : Label → String
  | thenPath => "then"
  | elsePath => "else"
  | clause _ => "when"
  | body => "body"
  | skip => "skip"

def toText : Label → String
  | clause index => "when[" ++ toString index ++ "]"
  | label => label.tag

end Label

structure Key where
  kind : Kind
  id : Nat
  span : Span
deriving DecidableEq, Inhabited

/-- The span is that of the clause, or that of the construct for a way without a clause. -/
structure Outcome where
  label : Label
  id : Nat
  span : Span
  hits : Nat
deriving DecidableEq, Inhabited

structure Entry where
  key : Key
  outcomes : List Outcome
deriving DecidableEq, Inhabited

namespace Entry

def outcome? (e : Entry) (label : Label) : Option Outcome :=
  e.outcomes.find? fun o => o.label == label

def covered (e : Entry) : Nat := (e.outcomes.filter fun o => decide (0 < o.hits)).length

def ids (e : Entry) : List Nat := e.key.id :: e.outcomes.map (·.id)

def sameKey (a b : Entry) : Bool :=
  a.key.kind == b.key.kind && a.key.span.extent == b.key.span.extent && a.key.id == b.key.id

end Entry

def totalOutcomes (es : List Entry) : Nat := (es.map fun e => e.outcomes.length).foldr (· + ·) 0

def coveredOutcomes (es : List Entry) : Nat := (es.map Entry.covered).foldr (· + ·) 0

def entryOf? (es : List Entry) (id : Nat) : Option Entry := es.find? fun e => e.key.id == id

def ofKind (es : List Entry) (kind : Kind) : List Entry := es.filter fun e => e.key.kind == kind

/-- The first id of a list that is among `seen` or stands earlier in the list. -/
def firstRepeat? (seen : List Nat) : List Nat → Option Nat
  | [] => none
  | id :: ids => if id ∈ seen then some id else firstRepeat? (id :: seen) ids

/-- Checks entries one after the other against those before: first the key, then all ids. -/
def verifyAfter (earlier : List Entry) : List Entry → Except Failure Unit
  | [] => .ok ()
  | e :: es =>
    match earlier.findIdx? e.sameKey with
    | some first =>
      .error (.sharedKey e.key.kind e.key.span.extent e.key.id first earlier.length)
    | none =>
      match firstRepeat? (earlier.flatMap Entry.ids) e.ids with
      | some id => .error (.repeatedIndex id)
      | none => verifyAfter (earlier ++ [e]) es

def verifyUnique (es : List Entry) : Except Failure Unit := verifyAfter [] es

end SyntaxCoverage.Branch
