import SyntaxCoverage.Analysis.Paths
import SyntaxCoverage.Proofs.Readback

/-!
The clauses of a construct, read off its tree. What stands in a slot of a node is the root of the
part at that slot, so the clauses of a case and the body that closes a clause can be found in the
tree itself.
-/

namespace SyntaxCoverage

open Relation

namespace Construct

theorem ofKind_ne_whenClause (kind : String) : ofKind kind ≠ whenClause := by
  refine ofKind_of_kindTable (P := (· ≠ whenClause)) nofun ?_ kind
  decide

theorem refined?_ne_whenClause (c : Construct) (t : Tree) : c.refined? t ≠ some whenClause := by
  unfold refined? operation? safeCall?
  split
  · exact nofun
  · split
    · split <;> simp
    · split
      · split <;> simp
      · exact nofun

/-- Under a case, the trees of kind `when` behind the first slot are its clauses, and no others. -/
theorem ofTree_eq_whenClause_iff {parent : Option Construct} {t : Tree} {slot : Nat} :
    ofTree parent t slot = whenClause ↔ parent = some caseOf ∧ t.kind = "when" ∧ 1 ≤ slot := by
  constructor
  · intro h
    have hplaced : inParent parent t.kind slot = whenClause := by
      rw [ofTree] at h
      cases hrefined : (inParent parent t.kind slot).refined? t with
      | none => rwa [hrefined] at h
      | some c =>
        rw [hrefined, Option.getD_some] at h
        exact absurd (h ▸ hrefined) (refined?_ne_whenClause _ t)
    unfold inParent at hplaced
    split at hplaced
    · split at hplaced
      · next hwhen => exact ⟨rfl, hwhen⟩
      · exact absurd hplaced (ofKind_ne_whenClause t.kind)
    · split at hplaced
      · cases hplaced
      · exact absurd hplaced (ofKind_ne_whenClause t.kind)
    · exact absurd hplaced (ofKind_ne_whenClause t.kind)
  · rintro ⟨rfl, hwhen⟩
    simp [ofTree, inParent, hwhen, refined?]

end Construct

namespace Tree

def whenSlots (t : Tree) : List Nat :=
  (List.range t.items.length).filter fun k =>
    decide (1 ≤ k) && (t.treeAt? k).any fun u => u.kind == "when"

theorem length_refs (id : Nat) (items : List Item) : (refs id items).length = items.length := by
  induction items generalizing id with
  | nil => rfl
  | cons item items ih => rw [refs, List.length_cons, List.length_cons, ih]

def lastTree? (t : Tree) : Option Tree :=
  if 2 ≤ t.items.length then (t.treeAt? (t.items.length - 1)).filter fun u => u.site.isSome
  else none

end Tree

namespace Placed

variable {p q : Placed} {k : Nat}

def isLocated (p : Placed) : Bool := p.tree.site.isSome

def parts (p : Placed) : List Placed := (List.range p.tree.items.length).filterMap p.part?

def clauses (p : Placed) : List Placed := p.tree.whenSlots.filterMap p.part?

def last? (p : Placed) : Option Placed :=
  if 2 ≤ p.tree.items.length then (p.part? (p.tree.items.length - 1)).filter isLocated else none

def elseBody? (p : Placed) : Option Placed := p.last?.filter fun q => q.tree.kind != "when"

theorem map_tree_part? (p : Placed) (k : Nat) :
    (p.part? k).map (·.tree) = p.tree.treeAt? k := by
  rw [part?, Option.map_map]
  exact Option.map_id'

theorem map_tree_last? (p : Placed) : p.last?.map (·.tree) = p.tree.lastTree? := by
  rw [last?, Tree.lastTree?]
  split
  · rw [← map_tree_part?]
    cases p.part? (p.tree.items.length - 1) with
    | none => rfl
    | some q =>
      rw [Option.map_some, Option.filter_some, Option.filter_some]
      cases h : q.isLocated <;> simp [isLocated] at h <;> simp [h]
  · rfl

theorem length_clauses (p : Placed) : p.clauses.length = p.tree.whenSlots.length := by
  have hpart : ∀ k ∈ p.tree.whenSlots, (p.part? k).isSome := by
    intro k hk
    have htree := (Bool.and_eq_true_iff.1 (List.mem_filter.1 hk).2).2
    rw [← map_tree_part?] at htree
    cases h : p.part? k with
    | none => simp [h] at htree
    | some q => rfl
  rw [clauses, List.length_filterMap_eq_countP, List.countP_eq_length]
  exact hpart

theorem hasPart_of_mem_clauses (h : q ∈ p.clauses) : p.HasPart q := by
  obtain ⟨k, -, hk⟩ := List.mem_filterMap.1 h
  exact ⟨k, hk⟩

theorem last?_eq_some_iff : p.last? = some q ↔
    2 ≤ p.tree.items.length ∧ p.part? (p.tree.items.length - 1) = some q ∧ q.isLocated := by
  rw [last?, Option.ite_none_right_eq_some, Option.filter_eq_some_iff]

theorem length_items_root (p : Placed) : p.root.items.length = p.tree.items.length :=
  Tree.length_refs ..

end Placed

namespace Arena.Stands

variable {a : Arena} {p q : Placed} {k : Nat} (h : a.Stands p)

include h

theorem childAt?_root (k : Nat) : a.childAt? p.root k = (p.part? k).map Placed.root := by
  refine Option.ext fun n => ?_
  have hitem : ∀ item : Ref, item.node?.bind a.node? = some n ↔
      ∃ id, item = .node id ∧ a.node? id = some n := by
    rintro (id | l) <;> simp [Ref.node?]
  simp only [childAt?, Option.bind_eq_some_iff, hitem, Option.map_eq_some_iff]
  constructor
  · rintro ⟨_, hk, id, rfl, hn⟩
    obtain ⟨q, hq, rfl⟩ := Placed.items_root_eq_some_iff.1 hk
    rw [(h.part ⟨k, hq⟩).node?] at hn
    exact ⟨q, hq, Option.some.inj hn⟩
  · rintro ⟨q, hq, rfl⟩
    exact ⟨_, Placed.items_root_eq_some_iff.2 ⟨q, hq, rfl⟩, q.id, rfl, (h.part ⟨k, hq⟩).node?⟩

theorem locatedAt?_root (k : Nat) :
    a.locatedAt? p.root k = ((p.part? k).filter Placed.isLocated).map Placed.root := by
  rw [locatedAt?, h.childAt?_root]
  cases p.part? k with
  | none => rfl
  | some q =>
    have hlocated : q.root.isLocated = q.isLocated := rfl
    rw [Option.map_some, Option.filter_some, Option.filter_some, hlocated]
    cases q.isLocated <;> rfl

theorem children_root : a.children p.root = p.parts.map Placed.root := by
  have hchildren : a.children p.root =
      (List.range p.root.items.length).filterMap (a.childAt? p.root) := by
    have hitems : p.root.items.map some =
        (List.range p.root.items.length).map fun k => p.root.items[k]? := by
      refine List.ext_getElem? fun k => ?_
      rw [List.getElem?_map, List.getElem?_map]
      by_cases hk : k < p.root.items.length
      · simp [hk]
      · simp [hk]
    have hbind := congrArg
      (List.filterMap fun item => item.bind fun item : Ref => item.node?.bind a.node?) hitems
    simp only [List.filterMap_map] at hbind
    exact hbind
  rw [hchildren, Placed.length_items_root, Placed.parts, List.map_filterMap]
  exact List.filterMap_congr fun k _ => h.childAt?_root k

theorem lastClause?_root : a.lastClause? p.root = p.last?.map Placed.root := by
  rw [lastClause?, Placed.last?, Placed.length_items_root]
  split
  · exact h.locatedAt?_root _
  · rfl

section Case

variable (hcase : p.root.construct = .caseOf)

include hcase

omit h in
theorem isWhen_root_iff (hk : p.part? k = some q) :
    isWhen q.root = true ↔ q.tree.kind = "when" ∧ 1 ≤ k := by
  rw [isWhen, beq_iff_eq, (Placed.parent?_of_part? hk).2.2, (Placed.parent?_of_part? hk).2.1, hcase,
    Construct.ofTree_eq_whenClause_iff]
  exact and_iff_right rfl

theorem whenClauses_root : a.whenClauses p.root = p.clauses.map Placed.root := by
  rw [whenClauses, h.children_root, List.filter_map, Placed.parts, List.filter_filterMap,
    Placed.clauses, Tree.whenSlots, List.filterMap_filter]
  refine congrArg (List.map Placed.root) (List.filterMap_congr fun k _ => ?_)
  rw [← Placed.map_tree_part?]
  cases hk : p.part? k with
  | none => simp
  | some q =>
    have hwhen : isWhen q.root = (decide (1 ≤ k) && q.tree.kind == "when") := by
      rw [Bool.eq_iff_iff, isWhen_root_iff hcase hk, Bool.and_eq_true, decide_eq_true_iff,
        beq_iff_eq, and_comm]
    rw [Option.map_some, Option.any_some, ← hwhen]
    rfl

theorem elseBody?_root : a.elseBody? p.root = p.elseBody?.map Placed.root := by
  rw [elseBody?, h.lastClause?_root, Placed.elseBody?]
  cases hlast : p.last? with
  | none => rfl
  | some q =>
    obtain ⟨hlength, hk, -⟩ := Placed.last?_eq_some_iff.1 hlast
    have hwhen : (!isWhen q.root) = (q.tree.kind != "when") := by
      have hbehind : 1 ≤ p.tree.items.length - 1 := by omega
      rw [Bool.eq_iff_iff, Bool.not_eq_true', ← Bool.not_eq_true, isWhen_root_iff hcase hk,
        bne_iff_ne]
      simp [hbehind]
    rw [Option.map_some, Option.filter_some, Option.filter_some, hwhen]
    split <;> rfl

end Case

end Arena.Stands

end SyntaxCoverage
