import SyntaxCoverage.Arena.Basic

/-!
Walks through an arena from one node down. A walk keeps a stack of ids; in post-order an id is put
back, marked as open, below its children. `walk` ends when the stack is empty; in an arena laid out
from a tree it visits every node of the subtree once.
-/

namespace SyntaxCoverage

inductive WalkOrder where
  | pre
  | post
deriving DecidableEq, Inhabited

namespace Arena

def childIds (t : Arena) (n : Node) : List Nat := (t.children n).map (·.id)

def walkStack (t : Arena) (order : WalkOrder) : Nat → List (Nat × Bool) → List Node
  | 0, _ => []
  | _ + 1, [] => []
  | fuel + 1, (id, opened) :: stack =>
    match t.node? id with
    | none => []
    | some n =>
      let below := (t.childIds n).map fun child => (child, false)
      match order, opened with
      | .pre, _ => n :: t.walkStack order fuel (below ++ stack)
      | .post, true => n :: t.walkStack order fuel stack
      | .post, false => t.walkStack order fuel (below ++ (id, true) :: stack)

/-- The nodes at and below `n`; twice the size of the arena is enough for every stack. -/
def walk (t : Arena) (order : WalkOrder) (n : Node) : List Node :=
  t.walkStack order (2 * t.size + 1) [(n.id, false)]

def walkBranches (t : Arena) (order : WalkOrder) (n : Node) : List Node :=
  (t.walk order n).filter Node.isBranch

def walkAll (t : Arena) (order : WalkOrder) : List Node :=
  match t.root? with
  | some root => t.walk order root
  | none => []

def walkAllBranches (t : Arena) (order : WalkOrder) : List Node :=
  (t.walkAll order).filter Node.isBranch

end Arena

end SyntaxCoverage
