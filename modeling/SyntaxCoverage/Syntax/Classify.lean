import SyntaxCoverage.Syntax.Construct
import SyntaxCoverage.Syntax.Tree

/-!
Which construct a tree is. Its parent and its slot decide first, then its kind, and a tree that is
generic by both may still be refined by the operator among its leaves.
-/

namespace SyntaxCoverage

namespace Construct

def markerKinds : List String :=
  ["args", "arg", "restarg", "kwrestarg", "blockarg", "shadowarg", "end", "then", "do"]

def kindTable : List (String × Construct) :=
  [("if", conditional 1 2), ("ternary", conditional 1 2), ("unless", conditional 2 1),
   ("case", caseOf), ("and", shortCircuit .and 0 1), ("or", shortCircuit .or 0 1),
   ("csend", safeCall 0), ("while", loop .before false), ("until", loop .before true),
   ("while_post", loop .after false), ("until_post", loop .after true),
   ("begin", sequence), ("kwbegin", sequence)] ++ markerKinds.map fun kind => (kind, marker)

def ofKind (kind : String) : Construct := (kindTable.lookup kind).getD generic

def inParent (parent : Option Construct) (kind : String) (slot : Nat) : Construct :=
  match parent with
  | some caseOf => if kind = "when" ∧ 1 ≤ slot then whenClause else ofKind kind
  | some (loop .after _) =>
    if (kind = "kwbegin" ∨ kind = "begin") ∧ slot = 1 then sequence else ofKind kind
  | _ => ofKind kind

def connectiveOf? (text : String) : Option Connective :=
  if text = "&&" ∨ text = "and" ∨ text = "&&=" then some .and
  else if text = "||" ∨ text = "or" ∨ text = "||=" then some .or
  else none

/-- The short circuit spelled by the first operator among the leaves, between the first two trees
among the items. -/
def operation? (t : Tree) : Option Construct :=
  match t.texts.findSome? connectiveOf?, t.treeSlots with
  | some op, lhs :: rhs :: _ => some (shortCircuit op lhs rhs)
  | _, _ => none

def safeCall? (t : Tree) : Option Construct :=
  if t.texts.contains "&." then t.treeSlots.head?.map safeCall else none

def refined? (c : Construct) (t : Tree) : Option Construct :=
  if c ≠ generic then none
  else if t.kind = "binary" ∨ t.kind = "operator_assignment" then operation? t
  else if t.kind = "call" ∨ t.kind = "send" then safeCall? t
  else none

def ofTree (parent : Option Construct) (t : Tree) (slot : Nat) : Construct :=
  let placed := inParent parent t.kind slot
  (placed.refined? t).getD placed

end Construct

end SyntaxCoverage
