import SyntaxCoverage.Proofs.Descent
import SyntaxCoverage.Proofs.Readback

/-!
Walks from any node of a tree. They come to an end with an empty stack, never meet an id without a
node, and visit the nodes of the subtree in the order of the recursive traversals. Main statement:
`Arena.walks_traverse`.
-/

namespace SyntaxCoverage.Arena

open SyntaxCoverage.Tree Relation

variable {a : Arena} {p : Placed}

namespace Visits

variable {order : WalkOrder} {steps : Nat} {n : Node} {ns : List Node}

theorem walk_eq (h : a.Visits order steps [(n.id, false)] ns) (hsteps : steps ≤ 2 * a.size) :
    a.walk order n = ns :=
  h.walkStack_eq (Nat.le_succ_of_le hsteps)

theorem closed_map {cs : List Node}
    (h : ∀ c ∈ cs, ∃ steps, a.Visits order steps [(c.id, false)] (a.walk order c)) :
    ∃ steps, a.Visits order steps (closed (cs.map Node.id)) (cs.flatMap (a.walk order)) := by
  induction cs with
  | nil => exact ⟨0, .done⟩
  | cons c cs ih =>
    obtain ⟨hc, hcs⟩ := List.forall_mem_cons.1 h
    obtain ⟨steps, hsteps⟩ := hc
    obtain ⟨steps', hsteps'⟩ := ih hcs
    exact ⟨steps + steps', hsteps.append hsteps'⟩

end Visits

namespace Stands

variable (h : a.Stands p)

include h

theorem walk_pre : a.walk .pre p.root = p.nodes := by
  have hsize : p.tree.size ≤ a.size := Holds.size_le h
  have hvisits : a.Visits .pre p.tree.size [(p.root.id, false)] p.nodes :=
    visits_layout p.parent p.slot p.id p.tree h
  apply hvisits.walk_eq
  omega

theorem walk_post : a.walk .post p.root = p.tree.postorder p.parent p.slot p.id := by
  have hsize : p.tree.size ≤ a.size := Holds.size_le h
  have hvisits : a.Visits .post (2 * p.tree.size) [(p.root.id, false)]
      (p.tree.postorder p.parent p.slot p.id) :=
    visits_postorder p.parent p.slot p.id p.tree h
  apply hvisits.walk_eq
  omega

theorem visits_walk : a.Visits .pre p.tree.size [(p.root.id, false)] (a.walk .pre p.root) ∧
    a.Visits .post (2 * p.tree.size) [(p.root.id, false)] (a.walk .post p.root) := by
  rw [h.walk_pre, h.walk_post]
  exact ⟨visits_layout p.parent p.slot p.id p.tree h,
    visits_postorder p.parent p.slot p.id p.tree h⟩

theorem exists_visits_walk (order : WalkOrder) {n : Node} (hn : n ∈ p.nodes) :
    ∃ steps, a.Visits order steps [(n.id, false)] (a.walk order n) := by
  obtain ⟨q, hq, rfl⟩ := Placed.exists_of_mem_nodes hn
  have hvisits := (h.of_reflTransGen hq).visits_walk
  cases order with
  | pre => exact ⟨_, hvisits.1⟩
  | post => exact ⟨_, hvisits.2⟩

theorem exists_visits_children (order : WalkOrder) : ∃ steps, a.Visits order steps
    (closed (a.childIds p.root)) ((a.children p.root).flatMap (a.walk order)) := by
  apply Visits.closed_map
  intro c hc
  obtain ⟨q, hpart, rfl⟩ := h.child_iff.1 hc
  exact h.exists_visits_walk order (hpart.nodes_subset q.root_mem)

theorem walk_pre_eq :
    a.walk .pre p.root = p.root :: (a.children p.root).flatMap (a.walk .pre) := by
  obtain ⟨steps, hchildren⟩ := h.exists_visits_children .pre
  have hvisits : a.Visits .pre (steps + 1) [(p.root.id, false)]
      (p.root :: (a.children p.root).flatMap (a.walk .pre)) := by
    apply Visits.pre h.node?
    rwa [List.append_nil]
  exact h.visits_walk.1.unique hvisits

theorem walk_post_eq :
    a.walk .post p.root = (a.children p.root).flatMap (a.walk .post) ++ [p.root] := by
  obtain ⟨steps, hchildren⟩ := h.exists_visits_children .post
  have hvisits : a.Visits .post (steps + 1 + 1) [(p.root.id, false)]
      ((a.children p.root).flatMap (a.walk .post) ++ [p.root]) := by
    apply Visits.opening h.node?
    exact hchildren.append (.opened h.node? .done)
  exact h.visits_walk.2.unique hvisits

theorem ids_walk_pre : (a.walk .pre p.root).map Node.id = List.range' p.root.id p.tree.size := by
  rw [h.walk_pre]
  exact ids_layout p.parent p.slot p.id p.tree

theorem walk_post_perm : (a.walk .post p.root).Perm (a.walk .pre p.root) := by
  rw [h.walk_pre, h.walk_post]
  exact postorder_perm p.parent p.slot p.id p.tree

end Stands

/-- The walks from a node, at which the tree `u` is laid out. Both end with an empty stack, after a
step or two for each node of the tree, and are the recursive traversals. -/
structure Traverses (a : Arena) (n : Node) (u : Tree) : Prop where
  read : a.tree? n = some u
  visits_pre : a.Visits .pre u.size [(n.id, false)] (a.walk .pre n)
  visits_post : a.Visits .post (2 * u.size) [(n.id, false)] (a.walk .post n)
  ids_pre : (a.walk .pre n).map Node.id = List.range' n.id u.size
  pre : a.walk .pre n = n :: (a.children n).flatMap (a.walk .pre)
  post : a.walk .post n = (a.children n).flatMap (a.walk .post) ++ [n]
  perm : (a.walk .post n).Perm (a.walk .pre n)
  ids_post : ((a.walk .post n).map Node.id).Perm (List.range' n.id u.size)
  branches : ∀ order, a.walkBranches order n =
    (a.walk order n).filter fun m => m.construct.branchKind?.isSome

/-- From every node of a tree, the walks visit each node of its subtree once: in pre-order those with
the ids from its own on, in post-order the nodes below each child and then the node itself. -/
theorem walks_traverse (base : Nat) (t : Tree) :
    ∀ n ∈ (ofTree base t).nodes.toList, ∃ u, (ofTree base t).Traverses n u := by
  intro n hn
  obtain ⟨q, hq, rfl⟩ := exists_placed hn
  have h := (stands_ofTree base t).of_reflTransGen hq
  have hids := h.walk_post_perm.map Node.id
  rw [h.ids_walk_pre] at hids
  exact ⟨q.tree, tree?_of_reflTransGen hq, h.visits_walk.1, h.visits_walk.2, h.ids_walk_pre,
    h.walk_pre_eq, h.walk_post_eq, h.walk_post_perm, hids, fun _ => rfl⟩

def branchingLoop : Tree :=
  let span (start stop : Nat) : Span := ⟨⟨start, stop⟩, ⟨1, start⟩, ⟨1, stop⟩⟩
  let name (start : Nat) : Item := .tree (.node "lvar" [] (some ⟨span start (start + 1), none⟩))
  .node "while" [name 6, .tree (.node "begin" [.leaf (.int 3),
      .tree (.node "if" [name 12, .leaf .absent, .tree (.node "send" [name 20, name 22] none)]
        (some ⟨span 9 24, none⟩)), name 26] none)] (some ⟨span 0 30, none⟩)

theorem walks_traverse_branchingLoop :
    let a := ofTree 5 branchingLoop
    ∃ n ∈ a.nodes.toList, n.id = 7 ∧ (∃ u, u.size = 7 ∧ a.Traverses n u) ∧
      (a.walk .pre n).map Node.id = [7, 8, 9, 10, 11, 12, 13] ∧
      (a.walk .post n).map Node.id = [9, 11, 12, 10, 8, 13, 7] ∧
      (a.walkBranches .post n).map Node.id = [8] := by
  intro a
  have hnode : ∃ n ∈ a.nodes.toList, n.id = 7 ∧
      (a.walk .pre n).map Node.id = [7, 8, 9, 10, 11, 12, 13] ∧
      (a.walk .post n).map Node.id = [9, 11, 12, 10, 8, 13, 7] ∧
      (a.walkBranches .post n).map Node.id = [8] := by decide +kernel
  obtain ⟨n, hn, hid, hpre, hpost, hbranches⟩ := hnode
  obtain ⟨u, hu⟩ := walks_traverse 5 branchingLoop n hn
  have hsize : u.size = 7 := by
    have hids : List.range' n.id u.size = [7, 8, 9, 10, 11, 12, 13] := hu.ids_pre.symm.trans hpre
    simpa using congrArg List.length hids
  exact ⟨n, hn, hid, ⟨u, hsize, hu⟩, hpre, hpost, hbranches⟩

end SyntaxCoverage.Arena
