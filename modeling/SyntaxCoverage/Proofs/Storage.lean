import Mathlib.Data.List.ReduceOption
import SyntaxCoverage.Proofs.Constructs
import SyntaxCoverage.Proofs.Layout

/-!
Reading a laid-out tree back from its arena. An arena that stores the layout of a tree answers
every question about the root of that tree, and about the roots of its items, from the tree alone.
-/

namespace SyntaxCoverage

namespace Tree

def rootNode (parent : Option Parent) (slot id : Nat) (t : Tree) : Node where
  id := id
  kind := t.kind
  construct := Construct.ofTree (parent.map (·.construct)) t slot
  parent := parent.map (·.id)
  slot := slot
  items := refs (id + 1) t.items
  site := t.site

def asParent (parent : Option Parent) (slot id : Nat) (t : Tree) : Parent :=
  ⟨id, Construct.ofTree (parent.map (·.construct)) t slot⟩

theorem layout_eq (parent : Option Parent) (slot id : Nat) (t : Tree) :
    t.layout parent slot id =
      t.rootNode parent slot id :: layoutItems (t.asParent parent slot id) 0 (id + 1) t.items := by
  cases t
  rfl

theorem size_eq (t : Tree) : t.size = sizes t.items + 1 := by
  cases t
  rfl

def itemRoot (parent : Parent) (slot id : Nat) : Item → Option Node
  | .tree t => some (t.rootNode (some parent) slot id)
  | .leaf _ => none

def itemRoots (parent : Parent) (slot id : Nat) : List Item → List (Option Node)
  | [] => []
  | item :: items =>
    itemRoot parent slot id item :: itemRoots parent (slot + 1) (id + itemSize item) items

end Tree

namespace Arena

open SyntaxCoverage.Tree

/-- The nodes of a list stand in the arena one after the other, from the id `id` on. -/
def Stores (a : Arena) (id : Nat) : List Node → Prop
  | [] => True
  | n :: ns => a.node? id = some n ∧ Stores a (id + 1) ns

theorem stores_append {a : Arena} {id : Nat} {ms ns : List Node} :
    a.Stores id (ms ++ ns) ↔ a.Stores id ms ∧ a.Stores (id + ms.length) ns := by
  induction ms generalizing id with
  | nil => simp [Stores]
  | cons m ms ih =>
    simp only [List.cons_append, Stores, ih, List.length_cons, and_assoc]
    rw [show id + 1 + ms.length = id + (ms.length + 1) by omega]

theorem stores_mk (base : Nat) (ms ns : List Node) :
    Stores ⟨base, (ms ++ ns).toArray⟩ (base + ms.length) ns := by
  induction ns generalizing ms with
  | nil => trivial
  | cons n ns ih =>
    refine ⟨?_, ?_⟩
    · have hle : base ≤ base + ms.length := Nat.le_add_right ..
      simp [node?, hle]
    · simpa [Nat.add_assoc] using ih (ms ++ [n])

def Holds (a : Arena) (parent : Option Parent) (slot id : Nat) (t : Tree) : Prop :=
  a.Stores id (t.layout parent slot id)

theorem holds_ofTree (base : Nat) (t : Tree) : (ofTree base t).Holds none 0 base t :=
  stores_mk base [] (t.layout none 0 base)

def resolve (a : Arena) (item : Ref) : Option Node := item.node?.bind a.node?

def slots (a : Arena) (n : Node) : List (Option Node) := n.items.map a.resolve

theorem children_eq (a : Arena) (n : Node) : a.children n = (a.slots n).reduceOption := by
  rw [slots, List.reduceOption, List.filterMap_map]
  rfl

theorem childAt?_eq (a : Arena) (n : Node) (k : Nat) :
    a.childAt? n k = (a.slots n)[k]?.join := by
  rw [childAt?, slots, List.getElem?_map]
  cases n.items[k]? <;> rfl

theorem length_slots (a : Arena) (n : Node) : (a.slots n).length = n.items.length :=
  List.length_map _

section Holds

variable {a : Arena} {parent : Option Parent} {slot id : Nat} {t : Tree}

theorem Holds.node? (h : a.Holds parent slot id t) :
    a.node? id = some (t.rootNode parent slot id) := by
  rw [Holds, layout_eq] at h
  exact h.1

theorem Holds.items (h : a.Holds parent slot id t) :
    a.Stores (id + 1) (layoutItems (t.asParent parent slot id) 0 (id + 1) t.items) := by
  rw [Holds, layout_eq] at h
  exact h.2

theorem stores_layoutItems_cons {parent : Parent} {item : Item} {items : List Item} :
    a.Stores id (layoutItems parent slot id (item :: items)) ↔
      a.Stores id (layoutItem parent slot id item) ∧
        a.Stores (id + itemSize item)
          (layoutItems parent (slot + 1) (id + itemSize item) items) := by
  rw [layoutItems, stores_append, length_layoutItem]

theorem resolve_ref {parent : Parent} {item : Item}
    (h : a.Stores id (layoutItem parent slot id item)) :
    a.resolve (ref id item) = itemRoot parent slot id item := by
  cases item with
  | tree t =>
    have ht : a.Holds (some parent) slot id t := h
    exact ht.node?
  | leaf l => rfl

theorem resolve_refs {parent : Parent} {items : List Item}
    (h : a.Stores id (layoutItems parent slot id items)) :
    (refs id items).map a.resolve = itemRoots parent slot id items := by
  induction items generalizing slot id with
  | nil => rfl
  | cons item items ih =>
    obtain ⟨hitem, hitems⟩ := stores_layoutItems_cons.1 h
    rw [refs, List.map_cons, resolve_ref hitem, ih hitems, itemRoots]

theorem Holds.slots (h : a.Holds parent slot id t) :
    a.slots (t.rootNode parent slot id) =
      itemRoots (t.asParent parent slot id) 0 (id + 1) t.items :=
  resolve_refs h.items

end Holds

end Arena

end SyntaxCoverage
