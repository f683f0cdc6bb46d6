import Mathlib.Data.List.Nodup
import Mathlib.Logic.Relation
import SyntaxCoverage.Proofs.Storage

/-!
The parts of a laid-out tree: the trees at and below it, each with its place in the arena. The
children of a node are the roots of the parts at its slots, and what can be reached from it by way
of children is the layout of its own part.
-/

namespace SyntaxCoverage

open Relation

namespace Tree

variable {parent : Parent} {slot id k : Nat} {items : List Item} {u : Tree}

theorem refs_getElem? : (refs id items)[k]? = items[k]?.map (ref (id + sizes (items.take k))) := by
  induction items generalizing id k with
  | nil => rfl
  | cons item items ih =>
    cases k with
    | zero => rfl
    | succ k =>
      rw [refs, List.getElem?_cons_succ, List.getElem?_cons_succ, ih, List.take_succ_cons, sizes,
        Nat.add_assoc]

theorem mem_layoutItems {n : Node} : n ∈ layoutItems parent slot id items ↔
    ∃ (k : Nat) (u : Tree), items[k]? = some (.tree u) ∧
      n ∈ u.layout (some parent) (slot + k) (id + sizes (items.take k)) := by
  induction items generalizing slot id with
  | nil => simp [layoutItems]
  | cons item items ih =>
    have hfirst : n ∈ layoutItem parent slot id item ↔
        ∃ u, item = .tree u ∧ n ∈ u.layout (some parent) slot id := by
      cases item <;> simp [layoutItem]
    rw [layoutItems, List.mem_append, hfirst, ih]
    refine Iff.trans ?_ Nat.or_exists_add_one
    simp [sizes, Nat.add_assoc, Nat.add_comm 1]

theorem sizes_take_add_size_le (h : items[k]? = some (.tree u)) :
    sizes (items.take k) + u.size ≤ sizes items := by
  induction items generalizing k with
  | nil => simp at h
  | cons item items ih =>
    cases k with
    | zero =>
      obtain rfl : item = .tree u := by simpa using h
      simp [sizes, itemSize]
    | succ k =>
      have hrest := ih (by simpa using h)
      rw [List.take_succ_cons, sizes, sizes]
      omega

end Tree

open SyntaxCoverage.Tree

/-- A tree and where it is laid out. -/
structure Placed where
  parent : Option Parent
  slot : Nat
  id : Nat
  tree : Tree

namespace Placed

def root (p : Placed) : Node := p.tree.rootNode p.parent p.slot p.id

def nodes (p : Placed) : List Node := p.tree.layout p.parent p.slot p.id

def part? (p : Placed) (k : Nat) : Option Placed :=
  (p.tree.treeAt? k).map fun u =>
    ⟨some (p.tree.asParent p.parent p.slot p.id), k, p.id + 1 + sizes (p.tree.items.take k), u⟩

def HasPart (p q : Placed) : Prop := ∃ k, p.part? k = some q

variable {p q : Placed} {k : Nat}

theorem part?_eq_some_iff : p.part? k = some q ↔
    p.tree.items[k]? = some (.tree q.tree) ∧
      q.parent = some (p.tree.asParent p.parent p.slot p.id) ∧ q.slot = k ∧
      q.id = p.id + 1 + sizes (p.tree.items.take k) := by
  have htree : ∀ item : Item, ∀ u, item.tree? = some u ↔ item = .tree u := by
    rintro (t | l) u <;> simp [Item.tree?]
  obtain ⟨parent, slot, id, u⟩ := q
  simp only [part?, Option.map_eq_some_iff, treeAt?, Option.bind_eq_some_iff, htree, mk.injEq]
  constructor
  · rintro ⟨u, ⟨item, hitem, rfl⟩, hparent, hslot, hid, rfl⟩
    exact ⟨hitem, hparent.symm, hslot.symm, hid.symm⟩
  · rintro ⟨hitem, hparent, hslot, hid⟩
    exact ⟨u, ⟨_, hitem, rfl⟩, hparent.symm, hslot.symm, hid.symm, rfl⟩

theorem parent?_of_part? (h : p.part? k = some q) :
    q.root.parent = some p.id ∧ q.root.slot = k ∧
      q.root.construct = .ofTree (some p.root.construct) q.tree q.root.slot := by
  obtain ⟨-, hparent, rfl, -⟩ := part?_eq_some_iff.1 h
  rw [root, hparent]
  exact ⟨rfl, rfl, rfl⟩

theorem treeAt?_of_part? (h : p.part? k = some q) : p.tree.treeAt? k = some q.tree := by
  rw [treeAt?, (part?_eq_some_iff.1 h).1]
  rfl

theorem items_root_eq_some_iff {id : Nat} :
    p.root.items[k]? = some (.node id) ↔ ∃ q, p.part? k = some q ∧ q.id = id := by
  have href : ∀ item : Item, ∀ i, ref i item = .node id ↔ ∃ u, item = .tree u ∧ i = id := by
    rintro (t | l) i <;> simp [ref]
  show (refs (p.id + 1) p.tree.items)[k]? = _ ↔ _
  rw [refs_getElem?, Option.map_eq_some_iff]
  simp only [href]
  constructor
  · rintro ⟨_, hitem, u, rfl, hid⟩
    exact ⟨⟨_, k, _, u⟩, part?_eq_some_iff.2 ⟨hitem, rfl, rfl, rfl⟩, hid⟩
  · rintro ⟨q, hq, rfl⟩
    obtain ⟨hitem, -, -, hid⟩ := part?_eq_some_iff.1 hq
    exact ⟨_, hitem, q.tree, rfl, hid.symm⟩

theorem nodes_eq (p : Placed) :
    p.nodes = p.root :: layoutItems (p.tree.asParent p.parent p.slot p.id) 0 (p.id + 1)
      p.tree.items := layout_eq ..

theorem mem_nodes_iff {n : Node} : n ∈ p.nodes ↔ n = p.root ∨ ∃ q, p.HasPart q ∧ n ∈ q.nodes := by
  rw [nodes_eq, List.mem_cons, mem_layoutItems]
  refine or_congr_right ⟨?_, ?_⟩
  · rintro ⟨k, u, hitem, hn⟩
    rw [Nat.zero_add] at hn
    exact ⟨⟨_, k, _, u⟩, ⟨k, part?_eq_some_iff.2 ⟨hitem, rfl, rfl, rfl⟩⟩, hn⟩
  · rintro ⟨q, ⟨k, hk⟩, hn⟩
    obtain ⟨hitem, hparent, hslot, hid⟩ := part?_eq_some_iff.1 hk
    refine ⟨k, q.tree, hitem, ?_⟩
    rw [Nat.zero_add, ← hparent, ← hid, ← hslot]
    exact hn

theorem HasPart.bounds (h : p.HasPart q) :
    p.id < q.id ∧ q.id + q.tree.size ≤ p.id + p.tree.size := by
  obtain ⟨k, hk⟩ := h
  obtain ⟨hitem, -, -, hid⟩ := part?_eq_some_iff.1 hk
  have hle := sizes_take_add_size_le hitem
  rw [hid, p.tree.size_eq]
  omega

theorem HasPart.size_lt (h : p.HasPart q) : q.tree.size < p.tree.size := by
  have hbounds := h.bounds
  omega

theorem bounds_of_reflTransGen (h : ReflTransGen HasPart p q) :
    p.id ≤ q.id ∧ q.id + q.tree.size ≤ p.id + p.tree.size := by
  induction h with
  | refl => exact ⟨Nat.le_refl _, Nat.le_refl _⟩
  | tail _ hpart ih =>
    have hbounds := hpart.bounds
    omega

theorem mem_nodes_of_reflTransGen (h : ReflTransGen HasPart p q) : q.root ∈ p.nodes := by
  induction h using ReflTransGen.head_induction_on with
  | refl => exact mem_nodes_iff.2 (.inl rfl)
  | head hpart _ ih => exact mem_nodes_iff.2 (.inr ⟨_, hpart, ih⟩)

theorem part_induction {P : Placed → Prop} (step : ∀ p, (∀ q, p.HasPart q → P q) → P p)
    (p : Placed) : P p :=
  (measure fun p : Placed => p.tree.size).wf.induction p fun p ih =>
    step p fun q hpart => ih q hpart.size_lt

theorem exists_of_mem_nodes {n : Node} (h : n ∈ p.nodes) :
    ∃ q, ReflTransGen HasPart p q ∧ n = q.root := by
  induction p using part_induction with
  | step p ih =>
    rcases mem_nodes_iff.1 h with rfl | ⟨c, hpart, hc⟩
    · exact ⟨p, .refl, rfl⟩
    · obtain ⟨q, hq, rfl⟩ := ih c hpart hc
      exact ⟨q, .head hpart hq, rfl⟩

theorem mem_ids {n : Node} (h : n ∈ p.nodes) : p.id ≤ n.id ∧ n.id < p.id + p.tree.size := by
  have hid := List.mem_map_of_mem (f := Node.id) h
  rw [nodes, ids_layout] at hid
  exact List.mem_range'_1.1 hid

theorem nodup_nodes (p : Placed) : p.nodes.Nodup := by
  have hids : (p.nodes.map Node.id).Nodup := by
    rw [nodes, ids_layout]
    exact List.nodup_range'
  exact hids.of_map _

theorem root_mem (p : Placed) : p.root ∈ p.nodes := mem_nodes_iff.2 (.inl rfl)

theorem HasPart.nodes_subset (h : p.HasPart q) : q.nodes ⊆ p.nodes :=
  fun _ hm => mem_nodes_iff.2 (.inr ⟨q, h, hm⟩)

theorem nodes_subset_of_reflTransGen (h : ReflTransGen HasPart p q) : q.nodes ⊆ p.nodes := by
  induction h with
  | refl => exact List.Subset.refl _
  | tail _ hpart ih => exact List.Subset.trans hpart.nodes_subset ih

theorem HasPart.eq_of_root_eq {q' : Placed} (h : p.HasPart q) (h' : p.HasPart q')
    (hroot : q.root = q'.root) : q = q' := by
  obtain ⟨k, hk⟩ := h
  obtain ⟨k', hk'⟩ := h'
  obtain rfl : k = k' := by
    rw [← (parent?_of_part? hk).2.1, hroot, (parent?_of_part? hk').2.1]
  exact Option.some.inj (hk.symm.trans hk')

def whole (base : Nat) (t : Tree) : Placed := ⟨none, 0, base, t⟩

end Placed

namespace Arena

variable {a : Arena}

def Child (a : Arena) (n m : Node) : Prop := m ∈ a.children n

theorem holds_of_getElem? {parent : Parent} {slot id k : Nat} {items : List Item} {u : Tree}
    (h : a.Stores id (layoutItems parent slot id items)) (hk : items[k]? = some (.tree u)) :
    a.Holds (some parent) (slot + k) (id + sizes (items.take k)) u := by
  induction items generalizing slot id k with
  | nil => simp at hk
  | cons item items ih =>
    obtain ⟨hfirst, hrest⟩ := stores_layoutItems_cons.1 h
    cases k with
    | zero =>
      obtain rfl : item = .tree u := by simpa using hk
      exact hfirst
    | succ k =>
      have hu := ih hrest (by simpa using hk)
      rwa [Nat.add_assoc, Nat.add_comm 1, Nat.add_assoc id] at hu

/-- The nodes of the tree stand in the arena where they are laid out. -/
def Stands (a : Arena) (p : Placed) : Prop := a.Holds p.parent p.slot p.id p.tree

namespace Stands

variable {p q : Placed}

theorem part (h : a.Stands p) (hpart : p.HasPart q) : a.Stands q := by
  obtain ⟨k, hk⟩ := hpart
  obtain ⟨hitem, hparent, hslot, hid⟩ := Placed.part?_eq_some_iff.1 hk
  have hq := holds_of_getElem? (Holds.items h) hitem
  rwa [Nat.zero_add, ← hparent, ← hid, ← hslot] at hq

theorem of_reflTransGen (h : a.Stands p) (hparts : ReflTransGen Placed.HasPart p q) :
    a.Stands q := by
  induction hparts with
  | refl => exact h
  | tail _ hpart ih => exact ih.part hpart

theorem node? (h : a.Stands p) : a.node? p.id = some p.root := Holds.node? h

theorem node?_of_mem (h : a.Stands p) {n : Node} (hn : n ∈ p.nodes) : a.node? n.id = some n := by
  obtain ⟨q, hq, rfl⟩ := Placed.exists_of_mem_nodes hn
  exact (h.of_reflTransGen hq).node?

theorem child_iff (h : a.Stands p) {n : Node} :
    a.Child p.root n ↔ ∃ q, p.HasPart q ∧ n = q.root := by
  have hitem : ∀ item : Ref, item.node?.bind a.node? = some n ↔
      ∃ id, item = .node id ∧ a.node? id = some n := by
    rintro (id | l) <;> simp [Ref.node?]
  simp only [Child, children, List.mem_filterMap, hitem]
  constructor
  · rintro ⟨_, hmem, id, rfl, hn⟩
    obtain ⟨k, hk⟩ := List.mem_iff_getElem?.1 hmem
    obtain ⟨q, hq, rfl⟩ := Placed.items_root_eq_some_iff.1 hk
    rw [(h.part ⟨k, hq⟩).node?] at hn
    exact ⟨q, ⟨k, hq⟩, (Option.some.inj hn).symm⟩
  · rintro ⟨q, ⟨k, hq⟩, rfl⟩
    have hk := Placed.items_root_eq_some_iff.2 ⟨q, hq, rfl⟩
    exact ⟨_, List.mem_iff_getElem?.2 ⟨k, hk⟩, q.id, rfl, (h.part ⟨k, hq⟩).node?⟩

/-- What can be reached from a node by way of children is the layout of its tree. -/
theorem reaches_iff (h : a.Stands p) {n : Node} :
    ReflTransGen a.Child p.root n ↔ n ∈ p.nodes := by
  constructor
  · intro hreach
    induction hreach with
    | refl => exact Placed.mem_nodes_of_reflTransGen .refl
    | tail _ hchild ih =>
      obtain ⟨q, hq, rfl⟩ := Placed.exists_of_mem_nodes ih
      obtain ⟨c, hc, rfl⟩ := (h.of_reflTransGen hq).child_iff.1 hchild
      exact Placed.mem_nodes_of_reflTransGen (hq.tail hc)
  · intro hn
    obtain ⟨q, hq, rfl⟩ := Placed.exists_of_mem_nodes hn
    clear hn
    induction hq with
    | refl => exact .refl
    | tail hq hc ih => exact ih.tail ((h.of_reflTransGen hq).child_iff.2 ⟨_, hc, rfl⟩)

theorem children_subset (h : a.Stands p) {n : Node} (hn : n ∈ p.nodes) :
    ∀ m ∈ a.children n, m ∈ p.nodes :=
  fun _ hm => h.reaches_iff.1 ((h.reaches_iff.2 hn).tail hm)

theorem id_lt_of_transGen (h : a.Stands p) {n : Node} (hreach : TransGen a.Child p.root n) :
    p.id < n.id := by
  obtain ⟨m, hchild, hreach⟩ := TransGen.head'_iff.1 hreach
  obtain ⟨q, hq, rfl⟩ := h.child_iff.1 hchild
  exact Nat.lt_of_lt_of_le hq.bounds.1 (Placed.mem_ids ((h.part hq).reaches_iff.1 hreach)).1

theorem parent?_part (h : a.Stands p) {k : Nat} (hk : p.part? k = some q) :
    a.parent? q.root = some p.root := by
  rw [parent?, (Placed.parent?_of_part? hk).1]
  exact h.node?

end Stands

end Arena

end SyntaxCoverage
