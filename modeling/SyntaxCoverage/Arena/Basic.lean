import SyntaxCoverage.Source.OffsetSet
import SyntaxCoverage.Syntax.Construct
import SyntaxCoverage.Syntax.Tree

/-!
Arenas: a syntax tree laid out as a row of nodes. The nodes of an arena have consecutive ids from
`base` on, and refer to their parent and to their children by id.
-/

namespace SyntaxCoverage

/-- An item of a node: another node of the arena, or a leaf kept as it is. -/
inductive Ref where
  | node (id : Nat)
  | leaf (l : Leaf)
deriving DecidableEq, Inhabited

def Ref.node? : Ref → Option Nat
  | .node id => some id
  | .leaf _ => none

structure Node where
  id : Nat
  kind : String
  construct : Construct
  parent : Option Nat
  slot : Nat
  items : List Ref
  site : Option Site
deriving DecidableEq, Inhabited

namespace Node

def isLocated (n : Node) : Bool := n.site.isSome

def span? (n : Node) : Option Span := n.site.map (·.whole)

def extent? (n : Node) : Option Extent := n.site.map (·.extent)

def selector? (n : Node) : Option Span := n.site.bind (·.selector)

def isExecutable (n : Node) : Bool := n.construct.isExecutable

def isBranch (n : Node) : Bool := n.construct.isBranch

/-- The kind, followed by the construct when that is not generic and has another name. -/
def displayKind (n : Node) : String :=
  if n.construct = .generic ∨ n.kind.map Char.toLower = n.construct.name.map Char.toLower then
    n.kind
  else n.kind ++ "[" ++ n.construct.name ++ "]"

end Node

structure Arena where
  base : Nat
  nodes : Array Node
deriving DecidableEq, Inhabited

namespace Arena

def size (t : Arena) : Nat := t.nodes.size

def isEmpty (t : Arena) : Bool := t.nodes.isEmpty

def root? (t : Arena) : Option Node := t.nodes[0]?

def node? (t : Arena) (id : Nat) : Option Node :=
  if t.base ≤ id then t.nodes[id - t.base]? else none

def parent? (t : Arena) (n : Node) : Option Node := n.parent.bind t.node?

def children (t : Arena) (n : Node) : List Node :=
  n.items.filterMap fun item => item.node?.bind t.node?

def childAt? (t : Arena) (n : Node) (slot : Nat) : Option Node :=
  n.items[slot]?.bind fun item => item.node?.bind t.node?

def locatedAt? (t : Arena) (n : Node) (slot : Nat) : Option Node :=
  (t.childAt? n slot).filter Node.isLocated

def locatedChildren (t : Arena) (n : Node) : List Node := (t.children n).filter Node.isLocated

def ownOffsets (t : Arena) (n : Node) : OffsetSet :=
  match n.extent? with
  | some e => e.without ((t.children n).filterMap Node.extent?)
  | none => .empty

end Arena

end SyntaxCoverage
