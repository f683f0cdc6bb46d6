import Mathlib.Algebra.GroupWithZero.Nat
import SyntaxCoverage.Proofs.Offsets
import SyntaxCoverage.Proofs.Traversal

/-!
Whom an offset belongs to. A node owns the offsets of its extent that none of its children has, so
every offset of a node is owned at or below it. Where children stay within their parents and apart
from each other, each offset has one owner. Main statement: `Arena.ownOffsets_partition`.
-/

namespace SyntaxCoverage

namespace Node

def Covers (n : Node) (o : Nat) : Prop := ∃ e ∈ n.extent?, e.contains o = true

def IsOrdered (n : Node) : Prop := ∀ e ∈ n.extent?, e.Ordered

theorem covers_iff {n : Node} {e : Extent} (he : n.extent? = some e) {o : Nat} :
    n.Covers o ↔ e.contains o = true := by
  simp [Covers, he]

end Node

namespace Arena

variable {a : Arena} {p q : Placed} {n m m' : Node} {o : Nat}

def Owns (a : Arena) (n : Node) (o : Nat) : Prop := (a.ownOffsets n).contains o = true

section Own

variable (hn : n.IsOrdered) (hchildren : ∀ c ∈ a.children n, c.IsOrdered)

include hn hchildren

theorem normal_ownOffsets :
    OffsetSet.Normal (a.ownOffsets n).extents ∧ ∀ o,
      OffsetSet.Covers (a.ownOffsets n).extents o ↔
        n.Covers o ∧ ∀ c ∈ a.children n, ¬c.Covers o := by
  rw [ownOffsets]
  cases he : n.extent? with
  | none => exact ⟨OffsetSet.normal_nil, fun o => by simp [Node.Covers, he, OffsetSet.empty,
      OffsetSet.Covers]⟩
  | some e =>
    have hothers : ∀ d ∈ (a.children n).filterMap Node.extent?, d.Ordered := by
      intro d hd
      obtain ⟨c, hc, hd⟩ := List.mem_filterMap.1 hd
      exact hchildren c hc d hd
    obtain ⟨hnormal, hcovers⟩ := Extent.normal_without (hn e he) hothers
    refine ⟨hnormal, fun o => ?_⟩
    have hchild : OffsetSet.Covers ((a.children n).filterMap Node.extent?) o ↔
        ∃ c ∈ a.children n, c.Covers o := by
      simp only [OffsetSet.Covers, List.mem_filterMap, Node.Covers, Option.mem_def]
      constructor
      · rintro ⟨d, ⟨c, hc, hd⟩, ho⟩
        exact ⟨c, hc, d, hd, ho⟩
      · rintro ⟨c, hc, d, hd, ho⟩
        exact ⟨d, ⟨c, hc, hd⟩, ho⟩
    rw [hcovers, hchild, Node.covers_iff he]
    simp

theorem owns_iff : a.Owns n o ↔ n.Covers o ∧ ∀ c ∈ a.children n, ¬c.Covers o := by
  obtain ⟨hnormal, hcovers⟩ := normal_ownOffsets hn hchildren
  rw [Owns, OffsetSet.contains_iff_covers hnormal, hcovers]

end Own

section Stands

variable (h : a.Stands p) (hordered : ∀ m ∈ p.nodes, m.IsOrdered)

include h hordered

theorem Stands.owns_iff (hm : m ∈ p.nodes) :
    a.Owns m o ↔ m.Covers o ∧ ∀ c ∈ a.children m, ¬c.Covers o :=
  Arena.owns_iff (hordered m hm) fun c hc => hordered c (h.children_subset hm c hc)

theorem Stands.exists_owner (ho : p.root.Covers o) : ∃ m ∈ p.nodes, a.Owns m o := by
  induction p using Placed.part_induction with
  | step p ih =>
    by_cases hchild : ∃ c ∈ a.children p.root, c.Covers o
    · obtain ⟨c, hc, hcovers⟩ := hchild
      obtain ⟨q, hpart, rfl⟩ := h.child_iff.1 hc
      have hparts : ∀ m ∈ q.nodes, m.IsOrdered := fun m hm => hordered m (hpart.nodes_subset hm)
      obtain ⟨m, hm, howns⟩ := ih q hpart (h.part hpart) hparts hcovers
      exact ⟨m, hpart.nodes_subset hm, howns⟩
    · refine ⟨p.root, p.root_mem, (h.owns_iff hordered p.root_mem).2 ⟨ho, ?_⟩⟩
      exact fun c hc hcovers => hchild ⟨c, hc, hcovers⟩

theorem Stands.root_not_owns (hpart : p.HasPart q) (ho : q.root.Covers o) :
    ¬a.Owns p.root o := by
  intro hroot
  have hnone := ((h.owns_iff hordered p.root_mem).1 hroot).2
  exact hnone q.root (h.child_iff.2 ⟨q, hpart, rfl⟩) ho

end Stands

/-- All children have their offsets from their parent, and none in common with each other. -/
structure Nested (a : Arena) (ns : List Node) : Prop where
  within : ∀ n ∈ ns, ∀ c ∈ a.children n, ∀ o, c.Covers o → n.Covers o
  apart : ∀ n ∈ ns, ∀ c ∈ a.children n, ∀ d ∈ a.children n, c ≠ d →
    ∀ o, c.Covers o → ¬d.Covers o

theorem Nested.of_subset {ns ns' : List Node} (h : a.Nested ns) (hsub : ns' ⊆ ns) :
    a.Nested ns' :=
  ⟨fun n hn => h.within n (hsub hn), fun n hn => h.apart n (hsub hn)⟩

section Nested

variable (h : a.Stands p) (hnested : a.Nested p.nodes)

include h hnested

theorem Stands.root_covers (hm : m ∈ p.nodes) (ho : m.Covers o) : p.root.Covers o := by
  induction p using Placed.part_induction with
  | step p ih =>
    rcases Placed.mem_nodes_iff.1 hm with rfl | ⟨q, hpart, hm⟩
    · exact ho
    · have hroot := ih q hpart (h.part hpart) (hnested.of_subset hpart.nodes_subset) hm
      have hchild : q.root ∈ a.children p.root := h.child_iff.2 ⟨q, hpart, rfl⟩
      exact hnested.within p.root p.root_mem q.root hchild o hroot

variable (hordered : ∀ m ∈ p.nodes, m.IsOrdered)

include hordered

theorem Stands.owner_unique (hm : m ∈ p.nodes) (hm' : m' ∈ p.nodes) (ho : a.Owns m o)
    (ho' : a.Owns m' o) : m = m' := by
  induction p using Placed.part_induction with
  | step p ih =>
    have hcovers : ∀ {q m}, p.HasPart q → m ∈ q.nodes → a.Owns m o → q.root.Covers o := by
      intro q m hpart hm ho
      have hown := ((h.owns_iff hordered (hpart.nodes_subset hm)).1 ho).1
      exact (h.part hpart).root_covers (hnested.of_subset hpart.nodes_subset) hm hown
    rcases Placed.mem_nodes_iff.1 hm with rfl | ⟨q, hpart, hm⟩
    · rcases Placed.mem_nodes_iff.1 hm' with rfl | ⟨q', hpart', hm'⟩
      · rfl
      · exact absurd ho (h.root_not_owns hordered hpart' (hcovers hpart' hm' ho'))
    · rcases Placed.mem_nodes_iff.1 hm' with rfl | ⟨q', hpart', hm'⟩
      · exact absurd ho' (h.root_not_owns hordered hpart (hcovers hpart hm ho))
      · -- different parts have different roots, and those would share the offset
        obtain rfl : q = q' := by
          refine hpart.eq_of_root_eq hpart' (Classical.byContradiction fun hne => ?_)
          exact hnested.apart p.root p.root_mem q.root (h.child_iff.2 ⟨q, hpart, rfl⟩) q'.root
            (h.child_iff.2 ⟨q', hpart', rfl⟩) hne o (hcovers hpart hm ho) (hcovers hpart' hm' ho')
        exact ih q hpart (h.part hpart) (hnested.of_subset hpart.nodes_subset)
          (fun m hm => hordered m (hpart.nodes_subset hm)) hm hm'

theorem Stands.sum_ownOffsets {e : Extent} (he : p.root.extent? = some e) :
    (p.nodes.map fun m => (a.ownOffsets m).size).sum = e.length := by
  have hspec : ∀ m ∈ p.nodes, OffsetSet.Normal (a.ownOffsets m).extents := fun m hm =>
    (normal_ownOffsets (hordered m hm) fun c hc => hordered c (h.children_subset hm c hc)).1
  have howns : ∀ m ∈ p.nodes, ∀ o, o ∈ (a.ownOffsets m).offsets ↔ a.Owns m o := by
    intro m hm o
    rw [OffsetSet.mem_offsets, Owns, OffsetSet.contains_iff_covers (hspec m hm)]
  have hnodup : (p.nodes.flatMap fun m => (a.ownOffsets m).offsets).Nodup := by
    refine List.nodup_flatMap.2 ⟨fun m hm => OffsetSet.nodup_offsets (hspec m hm), ?_⟩
    refine p.nodup_nodes.pairwise_of_forall_ne fun m hm m' hm' hne o ho ho' => hne ?_
    exact h.owner_unique hnested hordered hm hm' ((howns m hm o).1 ho) ((howns m' hm' o).1 ho')
  have hperm : (p.nodes.flatMap fun m => (a.ownOffsets m).offsets).Perm e.offsets := by
    refine (List.perm_ext_iff_of_nodup hnodup e.nodup_offsets).2 fun o => ?_
    rw [List.mem_flatMap, Extent.mem_offsets, ← Node.covers_iff he]
    constructor
    · rintro ⟨m, hm, ho⟩
      have hcovers := ((h.owns_iff hordered hm).1 ((howns m hm o).1 ho)).1
      exact h.root_covers hnested hm hcovers
    · intro ho
      obtain ⟨m, hm, hown⟩ := h.exists_owner hordered ho
      exact ⟨m, hm, (howns m hm o).2 hown⟩
  have hlength := hperm.length_eq
  rw [List.length_flatMap, e.length_offsets] at hlength
  simp only [OffsetSet.length_offsets] at hlength
  exact hlength

end Nested

/-- Whom the offsets of a node belong to, of the nodes at and below it. -/
structure Partitions (a : Arena) (n : Node) : Prop where
  own : ∀ o, a.Owns n o ↔ n.Covers o ∧ ∀ c ∈ a.children n, ¬c.Covers o
  unlocated : n.isLocated = false → a.ownOffsets n = .empty
  owned : ∀ o, n.Covers o → ∃ m ∈ a.walk .pre n, a.Owns m o
  unique : a.Nested (a.walk .pre n) →
    ∀ o, n.Covers o → ∃! m, m ∈ a.walk .pre n ∧ a.Owns m o
  total : a.Nested (a.walk .pre n) → ∀ e ∈ n.extent?,
    ((a.walk .pre n).map fun m => (a.ownOffsets m).size).sum = e.length

/-- The own offsets of the nodes of a tree cover the extent of each node by those at and below it,
and cover it once where the tree is nested. -/
theorem ownOffsets_partition (base : Nat) (t : Tree)
    (hordered : ∀ n ∈ (ofTree base t).nodes.toList, n.IsOrdered) :
    ∀ n ∈ (ofTree base t).nodes.toList, (ofTree base t).Partitions n := by
  intro n hn
  obtain ⟨p, hp, rfl⟩ := exists_placed hn
  have hstands := (stands_ofTree base t).of_reflTransGen hp
  have hparts : ∀ m ∈ p.nodes, m.IsOrdered :=
    fun m hm => hordered m (Placed.nodes_subset_of_reflTransGen hp hm)
  have hwalk := hstands.walk_pre
  refine ⟨fun o => hstands.owns_iff hparts p.root_mem, fun hsite => ?_, fun o ho => ?_,
    fun hnested o ho => ?_, fun hnested e he => ?_⟩
  · have hextent : p.root.extent? = none := by
      simpa [Node.isLocated, Node.extent?] using hsite
    rw [ownOffsets, hextent]
  · rw [hwalk]
    exact hstands.exists_owner hparts ho
  · rw [hwalk] at hnested ⊢
    obtain ⟨m, hm, hown⟩ := hstands.exists_owner hparts ho
    refine ⟨m, ⟨hm, hown⟩, fun m' hm' => ?_⟩
    exact hstands.owner_unique hnested hparts hm'.1 hm hm'.2 hown
  · rw [hwalk] at hnested ⊢
    exact hstands.sum_ownOffsets hnested hparts he

theorem nested_of_extents {ns : List Node} (hlocated : ∀ n ∈ ns, n.isLocated = true)
    (hwithin : ∀ n ∈ ns, ∀ c ∈ a.children n, ∀ e ∈ n.extent?, ∀ d ∈ c.extent?,
      e.start ≤ d.start ∧ d.stop ≤ e.stop)
    (hapart : ∀ n ∈ ns, ∀ c ∈ a.children n, ∀ c' ∈ a.children n, c ≠ c' →
      ∀ d ∈ c.extent?, ∀ d' ∈ c'.extent?, min d.stop d'.stop ≤ max d.start d'.start) :
    a.Nested ns where
  within n hn c hc o := by
    rintro ⟨d, hd, ho⟩
    have hsite := hlocated n hn
    rw [Node.isLocated, Option.isSome_iff_exists] at hsite
    obtain ⟨site, hsite⟩ := hsite
    have he : n.extent? = some site.extent := by
      rw [Node.extent?, hsite]
      rfl
    have hle := hwithin n hn c hc site.extent he d hd
    have hin := Extent.contains_iff.1 ho
    exact ⟨site.extent, he, Extent.contains_iff.2 (by omega)⟩
  apart n hn c hc c' hc' hne o := by
    rintro ⟨d, hd, ho⟩ ⟨d', hd', ho'⟩
    have hle := hapart n hn c hc c' hc' hne d hd d' hd'
    have hin := Extent.contains_iff.1 ho
    have hin' := Extent.contains_iff.1 ho'
    omega

def seams : Tree :=
  let span (start stop : Nat) : Span := ⟨⟨start, stop⟩, ⟨1, start⟩, ⟨1, stop⟩⟩
  let name (start stop : Nat) : Item := .tree (.node "lvar" [] (some ⟨span start stop, none⟩))
  .node "send" [name 0 0, name 0 5, .leaf (.text "f"), name 5 9, name 7 7,
    .tree (.node "array" [name 12 13, name 13 13, name 15 18] (some ⟨span 12 18, none⟩))]
    (some ⟨span 0 20, none⟩)

theorem ownOffsets_partition_seams :
    let a := ofTree 3 seams
    (∀ n ∈ a.nodes.toList, n.IsOrdered) ∧
      ∃ n ∈ a.nodes.toList, n.extent? = some ⟨0, 20⟩ ∧ a.Nested (a.walk .pre n) ∧
        (∀ o < 20, ∃! m, m ∈ a.walk .pre n ∧ a.Owns m o) ∧
        (a.walk .pre n).map (fun m => (a.ownOffsets m).size) = [5, 0, 5, 4, 0, 2, 1, 0, 3] ∧
        ((a.walk .pre n).map fun m => (a.ownOffsets m).size).sum = 20 := by
  intro a
  have hordered : ∀ n ∈ a.nodes.toList, n.IsOrdered := by
    show ∀ n ∈ a.nodes.toList, ∀ e ∈ n.extent?, e.Ordered
    decide +kernel
  have hroot : seams.rootNode none 0 3 ∈ a.nodes.toList := by
    decide +kernel
  have hnested : a.Nested (a.walk .pre (seams.rootNode none 0 3)) := by
    refine nested_of_extents ?_ ?_ ?_
    · decide +kernel
    · decide +kernel
    · decide +kernel
  have hpartition := ownOffsets_partition 3 seams hordered _ hroot
  refine ⟨hordered, _, hroot, rfl, hnested, fun o ho => ?_, by decide +kernel, ?_⟩
  · refine hpartition.unique hnested o ⟨_, rfl, Extent.contains_iff.2 ?_⟩
    exact ⟨Nat.zero_le o, ho⟩
  · exact hpartition.total hnested ⟨0, 20⟩ rfl

end Arena

end SyntaxCoverage
