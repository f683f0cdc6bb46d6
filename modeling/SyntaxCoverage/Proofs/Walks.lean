import Mathlib.Data.List.Nodup
import Mathlib.Data.List.Range
import SyntaxCoverage.Arena.Walk
import SyntaxCoverage.Proofs.Storage

/-!
What a walk through a laid-out tree visits. A walk in pre-order yields the layout itself and a walk
in post-order a permutation of it, so no walk visits a node twice or leaves one out.
-/

namespace SyntaxCoverage

namespace Tree

mutual

def postorder (parent : Option Parent) (slot id : Nat) : Tree → List Node
  | .node kind items site =>
    let t : Tree := .node kind items site
    postorderItems (t.asParent parent slot id) 0 (id + 1) items ++ [t.rootNode parent slot id]

def postorderItems (parent : Parent) (slot id : Nat) : List Item → List Node
  | [] => []
  | item :: items =>
    postorderItem parent slot id item ++
      postorderItems parent (slot + 1) (id + itemSize item) items

def postorderItem (parent : Parent) (slot id : Nat) : Item → List Node
  | .tree t => t.postorder (some parent) slot id
  | .leaf _ => []

end

theorem postorder_eq (parent : Option Parent) (slot id : Nat) (t : Tree) :
    t.postorder parent slot id =
      postorderItems (t.asParent parent slot id) 0 (id + 1) t.items ++
        [t.rootNode parent slot id] := by
  cases t
  rfl

mutual

theorem postorder_perm (parent : Option Parent) (slot id : Nat) :
    (t : Tree) → (t.postorder parent slot id).Perm (t.layout parent slot id)
  | .node kind items site => by
    rw [postorder_eq, layout_eq]
    have h := postorderItems_perm (asParent parent slot id (.node kind items site)) 0 (id + 1) items
    exact (List.perm_append_singleton _ _).trans (h.cons _)

theorem postorderItems_perm (parent : Parent) (slot id : Nat) :
    (items : List Item) →
      (postorderItems parent slot id items).Perm (layoutItems parent slot id items)
  | [] => .refl _
  | item :: items => by
    rw [postorderItems, layoutItems]
    exact (postorderItem_perm parent slot id item).append
      (postorderItems_perm parent (slot + 1) (id + itemSize item) items)

theorem postorderItem_perm (parent : Parent) (slot id : Nat) :
    (item : Item) → (postorderItem parent slot id item).Perm (layoutItem parent slot id item)
  | .tree t => by
    rw [postorderItem, layoutItem]
    exact postorder_perm (some parent) slot id t
  | .leaf _ => .refl _

end

def rootIds (id : Nat) (items : List Item) : List Nat :=
  (refs id items).filterMap Ref.node?

theorem rootIds_tree (id : Nat) (t : Tree) (items : List Item) :
    rootIds id (.tree t :: items) = id :: rootIds (id + t.size) items := rfl

theorem rootIds_leaf (id : Nat) (l : Leaf) (items : List Item) :
    rootIds id (.leaf l :: items) = rootIds id items := rfl

theorem ids_itemRoots (parent : Parent) (slot id : Nat) (items : List Item) :
    (itemRoots parent slot id items).reduceOption.map Node.id = rootIds id items := by
  induction items generalizing slot id with
  | nil => rfl
  | cons item items ih =>
    cases item with
    | tree t =>
      rw [itemRoots, itemRoot, List.reduceOption_cons_of_some, List.map_cons, ih]
      rfl
    | leaf l =>
      rw [itemRoots, itemRoot, List.reduceOption_cons_of_none, ih]
      rfl

end Tree

namespace Arena

open SyntaxCoverage.Tree

def closed (ids : List Nat) : List (Nat × Bool) := ids.map fun id => (id, false)

/-- From a stack, the walk takes this many steps to the end and visits these nodes on the way. There
is a step for each id on top of the stack, and only for ids that have a node. -/
inductive Visits (a : Arena) : WalkOrder → Nat → List (Nat × Bool) → List Node → Prop
  | done {order : WalkOrder} : Visits a order 0 [] []
  | pre {id steps : Nat} {opened : Bool} {n : Node} {stack : List (Nat × Bool)} {ns : List Node}
    (hn : a.node? id = some n) (h : Visits a .pre steps (closed (a.childIds n) ++ stack) ns) :
    Visits a .pre (steps + 1) ((id, opened) :: stack) (n :: ns)
  | opening {id steps : Nat} {n : Node} {stack : List (Nat × Bool)} {ns : List Node}
    (hn : a.node? id = some n)
    (h : Visits a .post steps (closed (a.childIds n) ++ (id, true) :: stack) ns) :
    Visits a .post (steps + 1) ((id, false) :: stack) ns
  | opened {id steps : Nat} {n : Node} {stack : List (Nat × Bool)} {ns : List Node}
    (hn : a.node? id = some n) (h : Visits a .post steps stack ns) :
    Visits a .post (steps + 1) ((id, true) :: stack) (n :: ns)

namespace Visits

variable {a : Arena} {order : WalkOrder} {steps steps' : Nat} {stack stack' : List (Nat × Bool)}
  {ns ns' : List Node}

theorem append (h : a.Visits order steps stack ns) (h' : a.Visits order steps' stack' ns') :
    a.Visits order (steps + steps') (stack ++ stack') (ns ++ ns') := by
  induction h with
  | done => simpa using h'
  | pre hn _ ih =>
    rw [Nat.add_right_comm, List.cons_append, List.cons_append]
    refine .pre hn ?_
    rw [← List.append_assoc]
    exact ih h'
  | opening hn _ ih =>
    rw [Nat.add_right_comm, List.cons_append]
    refine .opening hn ?_
    rw [← List.cons_append, ← List.append_assoc]
    exact ih h'
  | opened hn _ ih =>
    rw [Nat.add_right_comm]
    exact .opened hn (ih h')

theorem walkStack_eq (h : a.Visits order steps stack ns) {fuel : Nat} (hfuel : steps ≤ fuel) :
    a.walkStack order fuel stack = ns := by
  induction h generalizing fuel with
  | done => cases fuel <;> rfl
  | pre hn _ ih =>
    obtain ⟨fuel, rfl⟩ := Nat.exists_eq_add_one.2 (Nat.zero_lt_of_lt hfuel)
    rw [walkStack, hn]
    exact congrArg _ (ih (Nat.le_of_succ_le_succ hfuel))
  | opening hn _ ih =>
    obtain ⟨fuel, rfl⟩ := Nat.exists_eq_add_one.2 (Nat.zero_lt_of_lt hfuel)
    rw [walkStack, hn]
    exact ih (Nat.le_of_succ_le_succ hfuel)
  | opened hn _ ih =>
    obtain ⟨fuel, rfl⟩ := Nat.exists_eq_add_one.2 (Nat.zero_lt_of_lt hfuel)
    rw [walkStack, hn]
    exact congrArg _ (ih (Nat.le_of_succ_le_succ hfuel))

theorem unique (h : a.Visits order steps stack ns) (h' : a.Visits order steps' stack ns') :
    ns = ns' := by
  rw [← h.walkStack_eq (Nat.le_max_left steps steps'),
    ← h'.walkStack_eq (Nat.le_max_right steps steps')]

end Visits

theorem Holds.childIds {a : Arena} {parent : Option Parent} {slot id : Nat} {t : Tree}
    (h : a.Holds parent slot id t) :
    a.childIds (t.rootNode parent slot id) = rootIds (id + 1) t.items := by
  rw [Arena.childIds, children_eq, h.slots, ids_itemRoots]

-- A walk takes one step for each node in pre-order and two in post-order.
mutual

theorem visits_layout {a : Arena} (parent : Option Parent) (slot id : Nat) :
    (t : Tree) → a.Holds parent slot id t →
      a.Visits .pre t.size [(id, false)] (t.layout parent slot id)
  | .node kind items site, h => by
    rw [layout_eq, Tree.size]
    refine .pre h.node? ?_
    rw [h.childIds, List.append_nil]
    exact visits_layoutItems _ 0 (id + 1) items h.items

theorem visits_layoutItems {a : Arena} (parent : Parent) (slot id : Nat) :
    (items : List Item) → a.Stores id (layoutItems parent slot id items) →
      a.Visits .pre (sizes items) (closed (rootIds id items)) (layoutItems parent slot id items)
  | [], _ => .done
  | .leaf l :: items, h => by
    rw [rootIds_leaf, layoutItems, sizes, itemSize, Nat.zero_add]
    exact visits_layoutItems parent (slot + 1) id items (stores_layoutItems_cons.1 h).2
  | .tree t :: items, h => by
    obtain ⟨ht, hitems⟩ := stores_layoutItems_cons.1 h
    rw [rootIds_tree, layoutItems, sizes]
    exact (visits_layout (some parent) slot id t ht).append
      (visits_layoutItems parent (slot + 1) (id + t.size) items hitems)

end

mutual

theorem visits_postorder {a : Arena} (parent : Option Parent) (slot id : Nat) :
    (t : Tree) → a.Holds parent slot id t →
      a.Visits .post (2 * t.size) [(id, false)] (t.postorder parent slot id)
  | .node kind items site, h => by
    have hsteps : 2 * Tree.size (.node kind items site) = 2 * sizes items + 1 + 1 := by
      rw [Tree.size, Nat.mul_add]
    rw [postorder_eq, hsteps]
    refine .opening h.node? ?_
    rw [h.childIds]
    -- once the items are done, the root lies open on the stack
    exact (visits_postorderItems _ 0 (id + 1) items h.items).append (.opened h.node? .done)

theorem visits_postorderItems {a : Arena} (parent : Parent) (slot id : Nat) :
    (items : List Item) → a.Stores id (layoutItems parent slot id items) →
      a.Visits .post (2 * sizes items) (closed (rootIds id items))
        (postorderItems parent slot id items)
  | [], _ => .done
  | .leaf l :: items, h => by
    rw [rootIds_leaf, postorderItems, sizes, itemSize, Nat.zero_add]
    exact visits_postorderItems parent (slot + 1) id items (stores_layoutItems_cons.1 h).2
  | .tree t :: items, h => by
    obtain ⟨ht, hitems⟩ := stores_layoutItems_cons.1 h
    rw [rootIds_tree, postorderItems, sizes, Nat.mul_add]
    exact (visits_postorder (some parent) slot id t ht).append
      (visits_postorderItems parent (slot + 1) (id + t.size) items hitems)

end

theorem root?_ofTree (base : Nat) (t : Tree) :
    (ofTree base t).root? = some (t.rootNode none 0 base) := by
  rw [root?, ofTree, layout_eq]
  rfl

theorem walkAll_pre (base : Nat) (t : Tree) :
    (ofTree base t).walkAll .pre = t.layout none 0 base := by
  rw [walkAll, root?_ofTree]
  refine (visits_layout none 0 base t (holds_ofTree base t)).walkStack_eq ?_
  rw [size_ofTree]
  omega

theorem walkAll_post (base : Nat) (t : Tree) :
    (ofTree base t).walkAll .post = t.postorder none 0 base := by
  rw [walkAll, root?_ofTree]
  refine (visits_postorder none 0 base t (holds_ofTree base t)).walkStack_eq ?_
  rw [size_ofTree]
  omega

def ids (a : Arena) : List Nat := a.nodes.toList.map Node.id

theorem ids_ofTree (base : Nat) (t : Tree) : (ofTree base t).ids = List.range' base t.size :=
  ids_layout none 0 base t

/-- A walk visits every node exactly once, in whichever order. -/
theorem walkAll_perm (order : WalkOrder) (base : Nat) (t : Tree) :
    ((ofTree base t).walkAll order).Perm (ofTree base t).nodes.toList := by
  cases order with
  | pre => rw [walkAll_pre]; rfl
  | post => rw [walkAll_post]; exact postorder_perm none 0 base t

theorem nodup_ids_walkAll (order : WalkOrder) (base : Nat) (t : Tree) :
    (((ofTree base t).walkAll order).map Node.id).Nodup := by
  have hperm := (walkAll_perm order base t).map Node.id
  have hids : ((ofTree base t).nodes.toList.map Node.id).Nodup := by
    rw [← ids, ids_ofTree]
    exact List.nodup_range'
  exact hperm.nodup_iff.2 hids

end Arena

end SyntaxCoverage
