import SyntaxCoverage.Arena.Basic
import SyntaxCoverage.Ledger
import SyntaxCoverage.Syntax.Classify

/-!
Building the arena of a tree. The nodes of a tree take their ids from the ledger as they are added,
each in front of what is below it.
-/

namespace SyntaxCoverage

structure Parent where
  id : Nat
  construct : Construct
deriving DecidableEq, Inhabited

/-- An arena that is being built, and the ledger that its ids come from. -/
structure Builder where
  ledger : Ledger
  nodes : Array Node

namespace Builder

mutual

/-- Adds a tree and gives the id of its root. The root takes its place before its items are added,
and is told what they are once they have their ids. -/
def add (b : Builder) (parent : Option Parent) (slot : Nat) : Tree → Nat × Builder
  | .node kind items site =>
    let construct := Construct.ofTree (parent.map (·.construct)) (.node kind items site) slot
    let (id, ledger) := b.ledger.allocate
    let index := b.nodes.size
    let root : Node := { id, kind, construct, parent := parent.map (·.id), slot, items := [], site }
    let (refs, b) := addItems ⟨ledger, b.nodes.push root⟩ ⟨id, construct⟩ 0 items
    (id, { b with nodes := b.nodes.modify index fun n => { n with items := refs } })

def addItems (b : Builder) (parent : Parent) (slot : Nat) : List Item → List Ref × Builder
  | [] => ([], b)
  | item :: items =>
    let (ref, b) := addItem b parent slot item
    let (refs, b) := addItems b parent (slot + 1) items
    (ref :: refs, b)

def addItem (b : Builder) (parent : Parent) (slot : Nat) : Item → Ref × Builder
  | .tree t =>
    let (id, b) := add b (some parent) slot t
    (.node id, b)
  | .leaf l => (.leaf l, b)

end

end Builder

def Ledger.build (l : Ledger) (t : Tree) : Arena × Ledger :=
  let (_, b) := Builder.add ⟨l, #[]⟩ none 0 t
  (⟨l.nextId, b.nodes⟩, b.ledger)

end SyntaxCoverage
