import SyntaxCoverage.Proofs.Parts
import SyntaxCoverage.Proofs.Walks

/-!
Reading a tree back from its arena. Every node of the arena stands for one part of the tree, its
references lead to the parts below, and from the root the whole tree can be recovered. Main
statement: `Ledger.build_faithful`.
-/

namespace SyntaxCoverage

open SyntaxCoverage.Tree Relation

namespace Arena

def itemWith (a : Arena) (read : Node → Option Tree) : Ref → Option Item
  | .node id => ((a.node? id).bind read).map .tree
  | .leaf l => some (.leaf l)

def treeWithin (a : Arena) : Nat → Node → Option Tree
  | 0, _ => none
  | depth + 1, n =>
    (n.items.mapM (a.itemWith (a.treeWithin depth))).map fun items => .node n.kind items n.site

def tree? (a : Arena) (n : Node) : Option Tree := a.treeWithin a.size n

variable {a : Arena}

-- A bound that is not below the size of a tree leaves room for all its levels, and what is left of
-- it one level down for those of every item.
mutual

theorem Holds.treeWithin {parent : Option Parent} {slot id depth : Nat} :
    {t : Tree} → a.Holds parent slot id t → t.size ≤ depth →
      a.treeWithin depth (t.rootNode parent slot id) = some t
  | .node kind items site, h, hdepth => by
    rw [Tree.size] at hdepth
    obtain ⟨depth, rfl⟩ := Nat.exists_eq_add_one.2 (Nat.zero_lt_of_lt hdepth)
    have hitems : (refs (id + 1) items).mapM (a.itemWith (a.treeWithin depth)) = some items :=
      mapM_refs h.items (Nat.le_of_succ_le_succ hdepth)
    simp only [Arena.treeWithin, rootNode, Tree.items, hitems]
    rfl

theorem mapM_refs {parent : Parent} {slot id depth : Nat} :
    {items : List Item} → a.Stores id (layoutItems parent slot id items) →
      sizes items ≤ depth →
      (refs id items).mapM (a.itemWith (a.treeWithin depth)) = some items
  | [], _, _ => rfl
  | .leaf l :: items, h, hdepth => by
    rw [sizes, itemSize, Nat.zero_add] at hdepth
    have hrest : (refs id items).mapM (a.itemWith (a.treeWithin depth)) = some items :=
      mapM_refs (stores_layoutItems_cons.1 h).2 hdepth
    simp only [refs, List.mapM_cons, ref, itemSize, Nat.add_zero, hrest]
    rfl
  | .tree t :: items, h, hdepth => by
    obtain ⟨ht, hrest⟩ := stores_layoutItems_cons.1 h
    rw [sizes, itemSize] at hdepth
    have hnode : a.node? id = some (t.rootNode (some parent) slot id) := Holds.node? ht
    have htree : a.treeWithin depth (t.rootNode (some parent) slot id) = some t :=
      Holds.treeWithin ht (by omega)
    have hitems : (refs (id + t.size) items).mapM (a.itemWith (a.treeWithin depth)) = some items :=
      mapM_refs hrest (by omega)
    simp only [refs, List.mapM_cons, ref, itemWith, hnode, Option.bind_some, htree,
      Option.map_some, itemSize, hitems]
    rfl

end

/-- The node is the root of this part of the tree: it reads back as the part, and the nodes below it
have the ids that follow its own. -/
structure StandsFor (a : Arena) (n : Node) (u : Tree) : Prop where
  read : a.tree? n = some u
  within : ∀ p, a.parent? n = some p → ∃ v, a.tree? p = some v ∧ v.treeAt? n.slot = some u
  construct : n.construct = .ofTree ((a.parent? n).map (·.construct)) u n.slot
  below : ∀ m ∈ a.nodes.toList,
    ReflTransGen a.Child n m ↔ n.id ≤ m.id ∧ m.id < n.id + u.size

/-- The arena is the tree, numbered in pre-order from `base` on. -/
structure Faithful (a : Arena) (base : Nat) (t : Tree) : Prop where
  size : a.size = t.size
  isSome_node? : ∀ id, (a.node? id).isSome ↔ base ≤ id ∧ id < base + t.size
  id_of_node? : ∀ id n, a.node? id = some n → n.id = id
  ids : a.ids = List.range' base t.size
  preorder : a.walkAll .pre = a.nodes.toList
  ascending : ∀ n ∈ a.nodes.toList, ∀ m, TransGen a.Child n m → n.id < m.id
  root : ∃ n, a.root? = some n ∧ n.id = base ∧ n.parent = none ∧ n.slot = 0 ∧ a.tree? n = some t
  parent : ∀ n ∈ a.nodes.toList, n.id ≠ base →
    ∃ p, a.parent? n = some p ∧ p.items[n.slot]? = some (.node n.id)
  references : ∀ p ∈ a.nodes.toList, ∀ k id, p.items[k]? = some (.node id) →
    ∃ n, a.node? id = some n ∧ a.parent? n = some p ∧ n.slot = k
  parts : ∀ n ∈ a.nodes.toList, ∃ u, a.StandsFor n u

section Whole

variable {base : Nat} {t : Tree}

theorem stands_ofTree (base : Nat) (t : Tree) : (ofTree base t).Stands (.whole base t) :=
  holds_ofTree base t

theorem exists_placed {n : Node} (hn : n ∈ (ofTree base t).nodes.toList) :
    ∃ q, ReflTransGen Placed.HasPart (.whole base t) q ∧ n = q.root :=
  Placed.exists_of_mem_nodes (p := .whole base t) hn

theorem node?_ofTree (base : Nat) (t : Tree) (id : Nat) : (ofTree base t).node? id =
    if base ≤ id then (Placed.whole base t).nodes[id - base]? else none := by
  rw [Arena.node?, ofTree, List.getElem?_toArray]
  rfl

theorem node?_ofTree_eq_some_iff {id : Nat} {n : Node} :
    (ofTree base t).node? id = some n ↔ n ∈ (Placed.whole base t).nodes ∧ n.id = id := by
  constructor
  · intro h
    rw [node?_ofTree, Option.ite_none_right_eq_some] at h
    obtain ⟨hle, hn⟩ := h
    have hid : ((Placed.whole base t).nodes.map Node.id)[id - base]? = some n.id := by
      rw [List.getElem?_map, hn]
      rfl
    rw [Placed.nodes, ids_layout] at hid
    obtain ⟨hlt, heq⟩ := List.getElem?_eq_some_iff.1 hid
    rw [List.getElem_range'_1] at heq
    refine ⟨List.mem_of_getElem? hn, heq.symm.trans ?_⟩
    exact Nat.add_sub_of_le hle
  · rintro ⟨hn, rfl⟩
    exact (stands_ofTree base t).node?_of_mem hn

variable {q : Placed}

theorem mem_nodes_of_id (hq : ReflTransGen Placed.HasPart (.whole base t) q) {m : Node}
    (hm : m ∈ (Placed.whole base t).nodes) (hid : q.id ≤ m.id ∧ m.id < q.id + q.tree.size) :
    m ∈ q.nodes := by
  have hmem : m.id ∈ q.nodes.map Node.id := by
    rw [Placed.nodes, ids_layout]
    exact List.mem_range'_1.2 hid
  obtain ⟨m', hm', heq⟩ := List.mem_map.1 hmem
  -- an id belongs to one node only
  have hsame : (ofTree base t).node? m'.id = (ofTree base t).node? m.id := by rw [heq]
  have hstands := stands_ofTree base t
  rw [(hstands.of_reflTransGen hq).node?_of_mem hm', hstands.node?_of_mem hm] at hsame
  rwa [← Option.some.inj hsame]

theorem tree?_of_reflTransGen (hq : ReflTransGen Placed.HasPart (.whole base t) q) :
    (ofTree base t).tree? q.root = some q.tree := by
  refine Holds.treeWithin ((stands_ofTree base t).of_reflTransGen hq) ?_
  have hbounds := Placed.bounds_of_reflTransGen hq
  have hsize : (ofTree base t).size = t.size := size_ofTree base t
  simp only [Placed.whole] at hbounds
  omega

theorem standsFor_of_reflTransGen (hq : ReflTransGen Placed.HasPart (.whole base t) q) :
    (ofTree base t).StandsFor q.root q.tree where
  read := tree?_of_reflTransGen hq
  within p hp := by
    rcases hq.cases_tail with rfl | ⟨v, hv, k, hk⟩
    · simp [parent?, Placed.root, Placed.whole, rootNode] at hp
    · rw [((stands_ofTree base t).of_reflTransGen hv).parent?_part hk] at hp
      obtain rfl := Option.some.inj hp
      refine ⟨v.tree, tree?_of_reflTransGen hv, ?_⟩
      rw [(Placed.parent?_of_part? hk).2.1]
      exact Placed.treeAt?_of_part? hk
  construct := by
    rcases hq.cases_tail with rfl | ⟨v, hv, k, hk⟩
    · rfl
    · rw [((stands_ofTree base t).of_reflTransGen hv).parent?_part hk]
      exact (Placed.parent?_of_part? hk).2.2
  below m hm := by
    rw [((stands_ofTree base t).of_reflTransGen hq).reaches_iff]
    exact ⟨Placed.mem_ids, mem_nodes_of_id hq hm⟩

theorem faithful_ofTree (base : Nat) (t : Tree) : (ofTree base t).Faithful base t where
  size := size_ofTree base t
  isSome_node? id := by
    rw [node?_ofTree]
    have hlength : (Placed.whole base t).nodes.length = t.size := length_layout none 0 base t
    split
    · next hle =>
      rw [Option.isSome_iff_ne_none, ne_eq, List.getElem?_eq_none_iff, hlength]
      omega
    · next hlt => simp [hlt]
  id_of_node? id n h := (node?_ofTree_eq_some_iff.1 h).2
  ids := ids_ofTree base t
  preorder := walkAll_pre base t
  ascending n hn m hreach := by
    obtain ⟨q, hq, rfl⟩ := exists_placed hn
    exact ((stands_ofTree base t).of_reflTransGen hq).id_lt_of_transGen hreach
  root := ⟨t.rootNode none 0 base, root?_ofTree base t, rfl, rfl, rfl,
    tree?_of_reflTransGen .refl⟩
  parent n hn hbase := by
    obtain ⟨q, hq, rfl⟩ := exists_placed hn
    rcases hq.cases_tail with rfl | ⟨p, hp, k, hk⟩
    · exact absurd rfl hbase
    · refine ⟨p.root, ((stands_ofTree base t).of_reflTransGen hp).parent?_part hk, ?_⟩
      rw [(Placed.parent?_of_part? hk).2.1]
      exact Placed.items_root_eq_some_iff.2 ⟨q, hk, rfl⟩
  references n hn k id hitem := by
    obtain ⟨p, hp, rfl⟩ := exists_placed hn
    obtain ⟨q, hk, rfl⟩ := Placed.items_root_eq_some_iff.1 hitem
    have hstands := (stands_ofTree base t).of_reflTransGen hp
    exact ⟨q.root, (hstands.part ⟨k, hk⟩).node?, hstands.parent?_part hk,
      (Placed.parent?_of_part? hk).2.1⟩
  parts n hn := by
    obtain ⟨q, hq, rfl⟩ := exists_placed hn
    exact ⟨q.tree, standsFor_of_reflTransGen hq⟩

end Whole

end Arena

/-- Building a tree takes as many ids as it has nodes, and leaves an arena that is the tree. -/
theorem Ledger.build_faithful (l : Ledger) (t : Tree) :
    (l.build t).2 = { l with nextId := l.nextId + t.size } ∧
      (l.build t).1.Faithful l.nextId t := by
  rw [build_eq]
  exact ⟨rfl, Arena.faithful_ofTree l.nextId t⟩

end SyntaxCoverage
