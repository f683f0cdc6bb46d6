import SyntaxCoverage.Arena.Builder

/-!
The layout of a tree: the nodes of its arena, each with the id that follows from the sizes of the
trees in front of it. Building an arena step by step comes to this layout. Main statement:
`Ledger.build_eq`.
-/

namespace SyntaxCoverage

namespace Tree

mutual

/-- The nodes of a tree whose root takes the id `id`. -/
def layout (parent : Option Parent) (slot id : Nat) : Tree → List Node
  | .node kind items site =>
    let construct := Construct.ofTree (parent.map (·.construct)) (.node kind items site) slot
    { id, kind, construct, parent := parent.map (·.id), slot, items := refs (id + 1) items, site } ::
      layoutItems ⟨id, construct⟩ 0 (id + 1) items

def layoutItems (parent : Parent) (slot id : Nat) : List Item → List Node
  | [] => []
  | item :: items =>
    layoutItem parent slot id item ++
      layoutItems parent (slot + 1) (id + itemSize item) items

def layoutItem (parent : Parent) (slot id : Nat) : Item → List Node
  | .tree t => t.layout (some parent) slot id
  | .leaf _ => []

def refs (id : Nat) : List Item → List Ref
  | [] => []
  | item :: items => ref id item :: refs (id + itemSize item) items

def ref (id : Nat) : Item → Ref
  | .tree _ => .node id
  | .leaf l => .leaf l

end

mutual

theorem length_layout (parent : Option Parent) (slot id : Nat) :
    (t : Tree) → (t.layout parent slot id).length = t.size
  | .node kind items site => by
    simp only [layout, List.length_cons, size]
    rw [length_layoutItems]

theorem length_layoutItems (parent : Parent) (slot id : Nat) :
    (items : List Item) → (layoutItems parent slot id items).length = sizes items
  | [] => rfl
  | item :: items => by
    simp only [layoutItems, List.length_append, sizes]
    rw [length_layoutItem, length_layoutItems]

theorem length_layoutItem (parent : Parent) (slot id : Nat) :
    (item : Item) → (layoutItem parent slot id item).length = itemSize item
  | .tree t => by
    simp only [layoutItem, itemSize]
    exact length_layout (some parent) slot id t
  | .leaf _ => rfl

end

mutual

theorem ids_layout (parent : Option Parent) (slot id : Nat) :
    (t : Tree) → (t.layout parent slot id).map Node.id = List.range' id t.size
  | .node kind items site => by
    simp only [layout, List.map_cons, size]
    rw [ids_layoutItems, List.range'_succ]

theorem ids_layoutItems (parent : Parent) (slot id : Nat) :
    (items : List Item) →
      (layoutItems parent slot id items).map Node.id = List.range' id (sizes items)
  | [] => rfl
  | item :: items => by
    simp only [layoutItems, List.map_append, sizes]
    rw [ids_layoutItem, ids_layoutItems, List.range'_append_1]

theorem ids_layoutItem (parent : Parent) (slot id : Nat) :
    (item : Item) →
      (layoutItem parent slot id item).map Node.id = List.range' id (itemSize item)
  | .tree t => by
    simp only [layoutItem, itemSize]
    exact ids_layout (some parent) slot id t
  | .leaf _ => rfl

end

end Tree

namespace Arena

def ofTree (base : Nat) (t : Tree) : Arena := ⟨base, (t.layout none 0 base).toArray⟩

theorem size_ofTree (base : Nat) (t : Tree) : (ofTree base t).size = t.size :=
  Tree.length_layout none 0 base t

end Arena

def Ledger.advance (l : Ledger) (k : Nat) : Ledger := { l with nextId := l.nextId + k }

@[simp]
theorem Ledger.nextId_advance (l : Ledger) (k : Nat) : (l.advance k).nextId = l.nextId + k := rfl

@[simp]
theorem Ledger.lines_advance (l : Ledger) (k : Nat) : (l.advance k).lines = l.lines := rfl

theorem Ledger.allocate_eq (l : Ledger) : l.allocate = (l.nextId, l.advance 1) := rfl

theorem Ledger.advance_advance (l : Ledger) (j k : Nat) :
    (l.advance j).advance k = l.advance (j + k) := by
  rw [advance, advance, advance, Nat.add_assoc]

namespace Builder

open SyntaxCoverage.Tree

theorem modify_push_append {α : Type} (xs : Array α) (x : α) (ys : List α) (f : α → α) :
    (xs.push x ++ ys.toArray).modify xs.size f = xs ++ (f x :: ys).toArray := by
  have hlt : xs.size < (xs.push x ++ ys.toArray).toList.length := by simp
  rw [← Array.toList_inj, Array.toList_modify, List.modify_eq_take_cons_drop hlt]
  simp [List.drop_append]

mutual

-- The nodes that a tree adds are those of its layout from the next free id on; below the root,
-- the same holds of the items one after the other.
theorem add_eq (b : Builder) (parent : Option Parent) (slot : Nat) : (t : Tree) →
    b.add parent slot t = (b.ledger.nextId, ⟨b.ledger.advance t.size,
      b.nodes ++ (t.layout parent slot b.ledger.nextId).toArray⟩)
  | .node kind items site => by
    simp only [add, Ledger.allocate_eq, addItems_eq, modify_push_append, Ledger.advance_advance]
    rw [layout, size, Nat.add_comm]
    rfl

theorem addItems_eq (b : Builder) (parent : Parent) (slot : Nat) : (items : List Item) →
    b.addItems parent slot items = (refs b.ledger.nextId items, ⟨b.ledger.advance (sizes items),
      b.nodes ++ (layoutItems parent slot b.ledger.nextId items).toArray⟩)
  | [] => by
    simp [addItems, refs, layoutItems, sizes, Ledger.advance]
  | item :: items => by
    simp only [addItems, addItem_eq, addItems_eq, Ledger.advance_advance]
    rw [refs, layoutItems, sizes, ← List.append_toArray, Array.append_assoc]
    rfl

theorem addItem_eq (b : Builder) (parent : Parent) (slot : Nat) : (item : Item) →
    b.addItem parent slot item = (ref b.ledger.nextId item, ⟨b.ledger.advance (itemSize item),
      b.nodes ++ (layoutItem parent slot b.ledger.nextId item).toArray⟩)
  | .tree t => by
    rw [addItem, add_eq b (some parent) slot t]
    rfl
  | .leaf l => by
    simp [addItem, ref, layoutItem, itemSize, Ledger.advance]

end

end Builder

/-- Building a tree lays it out from the next free id on, and takes as many ids as it has nodes. -/
theorem Ledger.build_eq (l : Ledger) (t : Tree) :
    l.build t = (.ofTree l.nextId t, l.advance t.size) := by
  rw [build, Builder.add_eq]
  simp [Arena.ofTree]

end SyntaxCoverage
