import SyntaxCoverage.Json.Decimal
import SyntaxCoverage.Source.Position

/-!
Syntax trees as a parser hands them over. A tree has a kind, items in order, each of which is a
tree or a leaf, and a site unless it is synthetic.
-/

namespace SyntaxCoverage

/-- A value without structure. In the place of a clause, `absent` says that there is none. -/
inductive Leaf where
  | absent
  | bool (b : Bool)
  | int (i : Int)
  | real (x : Binary64)
  | text (s : String)
deriving DecidableEq, Inhabited

namespace Leaf

def text? : Leaf → Option String
  | .text s => some s
  | _ => none

def isAbsent : Leaf → Bool
  | .absent => true
  | _ => false

end Leaf

mutual

inductive Tree where
  | node (kind : String) (items : List Item) (site : Option Site)

inductive Item where
  | tree (t : Tree)
  | leaf (l : Leaf)

end

namespace Item

def tree? : Item → Option Tree
  | .tree t => some t
  | .leaf _ => none

def leaf? : Item → Option Leaf
  | .tree _ => none
  | .leaf l => some l

def isTree : Item → Bool
  | .tree _ => true
  | .leaf _ => false

end Item

namespace Tree

instance : Inhabited Tree := ⟨.node "" [] none⟩

def kind : Tree → String
  | .node kind _ _ => kind

def items : Tree → List Item
  | .node _ items _ => items

def site : Tree → Option Site
  | .node _ _ site => site

mutual

def size : Tree → Nat
  | .node _ items _ => sizes items + 1

def itemSize : Item → Nat
  | .tree t => t.size
  | .leaf _ => 0

def sizes : List Item → Nat
  | [] => 0
  | item :: items => itemSize item + sizes items

end

def treeAt? (t : Tree) (slot : Nat) : Option Tree := t.items[slot]?.bind Item.tree?

def texts (t : Tree) : List String := t.items.filterMap fun item => item.leaf?.bind Leaf.text?

def treeSlots (t : Tree) : List Nat :=
  (t.items.zipIdx.filter fun entry => entry.1.isTree).map (·.2)

def withItem (t : Tree) (item : Item) : Tree := .node t.kind (t.items ++ [item]) t.site

def withSelector (t : Tree) (selector : Span) : Tree :=
  .node t.kind t.items (t.site.map fun site => { site with selector := some selector })

end Tree

end SyntaxCoverage
