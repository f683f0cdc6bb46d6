import SyntaxCoverage.Proofs.Clauses
import SyntaxCoverage.Proofs.Slots

/-!
The construct of a tree, by its place, its kind and its items. Operations and calls become short
circuits and safe calls when an operator stands among their leaves and there are trees for it to
work on; the slots that such a construct remembers are those of these trees. Main statement:
`Arena.constructs_classified`.
-/

namespace SyntaxCoverage

open Relation

namespace Tree

variable {t : Tree} {k : Nat} {op : Connective}

def textAt? (t : Tree) (k : Nat) : Option String :=
  t.items[k]?.bind fun item => item.leaf?.bind Leaf.text?

structure SpellsFirst (t : Tree) (k : Nat) (op : Connective) : Prop where
  here : ∃ text ∈ op.operators, t.textAt? k = some text
  first : ∀ j < k, ∀ text, t.textAt? j = some text → ∀ op' : Connective, text ∉ op'.operators

theorem mem_texts {text : String} : text ∈ t.texts ↔ ∃ k, t.textAt? k = some text := by
  rw [texts, List.mem_filterMap]
  constructor
  · rintro ⟨item, hitem, htext⟩
    obtain ⟨k, hk⟩ := List.mem_iff_getElem?.1 hitem
    exact ⟨k, Option.bind_eq_some_iff.2 ⟨item, hk, htext⟩⟩
  · rintro ⟨k, hk⟩
    obtain ⟨item, hitem, htext⟩ := Option.bind_eq_some_iff.1 hk
    exact ⟨item, List.mem_of_getElem? hitem, htext⟩

theorem firstAt_connective_iff :
    FirstAt (fun k => (t.textAt? k).bind Construct.connectiveOf?) k op ↔ t.SpellsFirst k op := by
  constructor
  · rintro ⟨hhere, hfirst⟩
    obtain ⟨text, htext, hop⟩ := Option.bind_eq_some_iff.1 hhere
    refine ⟨⟨text, Construct.connectiveOf?_eq_some_iff.1 hop, htext⟩, fun j hj text' htext' => ?_⟩
    have hnone := Option.bind_eq_none_iff.1 (hfirst j hj) text' htext'
    exact Construct.connectiveOf?_eq_none_iff.1 hnone
  · rintro ⟨⟨text, hop, htext⟩, hfirst⟩
    refine ⟨Option.bind_eq_some_iff.2 ⟨text, htext, Construct.connectiveOf?_eq_some_iff.2 hop⟩,
      fun j hj => Option.bind_eq_none_iff.2 fun text' htext' => ?_⟩
    exact Construct.connectiveOf?_eq_none_iff.2 (hfirst j hj text' htext')

theorem findSome?_texts_eq_some_iff :
    t.texts.findSome? Construct.connectiveOf? = some op ↔ ∃ k, t.SpellsFirst k op := by
  rw [← List.head?_filterMap, texts, List.filterMap_filterMap, head?_filterMap_eq_some_iff]
  refine exists_congr fun k => ?_
  rw [← firstAt_connective_iff]
  simp only [textAt?, Option.bind_assoc]

end Tree

namespace Construct

variable {t : Tree} {c : Construct} {parent : Option Construct} {slot : Nat}

/-- What a tree is made by its own items: an operation is a short circuit between the first two
trees in it, by the first operator among its leaves, and a call is a safe one on the first tree. -/
inductive ShapedAs (t : Tree) : Construct → Prop
  | operation {k x y : Nat} {op : Connective} (hkind : t.kind ∈ operationKinds)
    (hop : t.SpellsFirst k op) (htrees : t.FirstTrees x y) : ShapedAs t (shortCircuit op x y)
  | call {k x : Nat} {u : Tree} (hkind : t.kind ∈ callKinds) (htext : t.textAt? k = some "&.")
    (htree : FirstAt t.treeAt? x u) : ShapedAs t (safeCall x)

theorem operation?_eq_some_iff : operation? t = some c ↔
    ∃ k op x y, t.SpellsFirst k op ∧ t.FirstTrees x y ∧ shortCircuit op x y = c := by
  unfold operation?
  constructor
  · intro h
    split at h
    · next op x y slots hop hslots =>
      obtain ⟨k, hk⟩ := Tree.findSome?_texts_eq_some_iff.1 hop
      exact ⟨k, op, x, y, hk, Tree.treeSlots_eq_cons_cons_iff.1 ⟨slots, hslots⟩, Option.some.inj h⟩
    · exact nomatch h
  · rintro ⟨k, op, x, y, hop, htrees, rfl⟩
    obtain ⟨slots, hslots⟩ := Tree.treeSlots_eq_cons_cons_iff.2 htrees
    rw [Tree.findSome?_texts_eq_some_iff.2 ⟨k, hop⟩, hslots]

theorem safeCall?_eq_some_iff : safeCall? t = some c ↔
    ∃ k x u, t.textAt? k = some "&." ∧ FirstAt t.treeAt? x u ∧ safeCall x = c := by
  rw [safeCall?, Option.ite_none_right_eq_some, List.contains_iff_mem, Tree.mem_texts]
  simp only [Option.map_eq_some_iff, Tree.head?_treeSlots_eq_some_iff]
  constructor
  · rintro ⟨⟨k, htext⟩, x, ⟨u, hu⟩, hc⟩
    exact ⟨k, x, u, htext, hu, hc⟩
  · rintro ⟨k, x, u, htext, hu, hc⟩
    exact ⟨⟨k, htext⟩, x, ⟨u, hu⟩, hc⟩

theorem refined?_eq_some_iff (parent : Option Construct) (slot : Nat) :
    (inParent parent t.kind slot).refined? t = some c ↔ ShapedAs t c := by
  constructor
  · intro h
    by_cases hoperation : t.kind ∈ operationKinds
    · rw [inParent_eq_generic (List.mem_append_left _ hoperation), refined?_operation hoperation,
        operation?_eq_some_iff] at h
      obtain ⟨k, op, x, y, hop, htrees, rfl⟩ := h
      exact .operation hoperation hop htrees
    · by_cases hcall : t.kind ∈ callKinds
      · rw [inParent_eq_generic (List.mem_append_right _ hcall), refined?_call hcall,
          safeCall?_eq_some_iff] at h
        obtain ⟨k, x, u, htext, htree, rfl⟩ := h
        exact .call hcall htext htree
      · rw [refined?_eq_none hoperation hcall] at h
        exact nomatch h
  · rintro (⟨hkind, hop, htrees⟩ | ⟨hkind, htext, htree⟩)
    · rw [inParent_eq_generic (List.mem_append_left _ hkind), refined?_operation hkind]
      exact operation?_eq_some_iff.2 ⟨_, _, _, _, hop, htrees, rfl⟩
    · rw [inParent_eq_generic (List.mem_append_right _ hkind), refined?_call hkind]
      exact safeCall?_eq_some_iff.2 ⟨_, _, _, htext, htree, rfl⟩

theorem exists_operation_iff : (∃ op x y, ShapedAs t (shortCircuit op x y)) ↔
    t.kind ∈ operationKinds ∧ (∃ k text, ∃ op : Connective, t.textAt? k = some text ∧
      text ∈ op.operators) ∧ ∃ x y, x ≠ y ∧ (t.treeAt? x).isSome ∧ (t.treeAt? y).isSome := by
  constructor
  · rintro ⟨op, x, y, h⟩
    cases h with
    | operation hkind hop htrees =>
      obtain ⟨text, htext, hk⟩ := hop.here
      exact ⟨hkind, ⟨_, text, op, hk, htext⟩, x, y, Nat.ne_of_lt htrees.lt, htrees.left,
        htrees.right⟩
  · rintro ⟨hkind, ⟨k, text, op, hk, htext⟩, x, y, hne, hx, hy⟩
    have hsome : (t.texts.findSome? connectiveOf?).isSome := by
      refine List.findSome?_isSome_iff.2 ⟨text, Tree.mem_texts.2 ⟨k, hk⟩, ?_⟩
      rw [connectiveOf?_eq_some_iff.2 htext]
      rfl
    obtain ⟨first, hfirst⟩ := Option.isSome_iff_exists.1 hsome
    obtain ⟨j, hj⟩ := Tree.findSome?_texts_eq_some_iff.1 hfirst
    obtain ⟨x', y', slots, hslots⟩ := Tree.exists_treeSlots_eq_cons_cons hx hy hne
    exact ⟨first, x', y', .operation hkind hj (Tree.firstTrees_of_treeSlots hslots)⟩

theorem exists_call_iff : (∃ x, ShapedAs t (safeCall x)) ↔
    t.kind ∈ callKinds ∧ (∃ k, t.textAt? k = some "&.") ∧ ∃ x, (t.treeAt? x).isSome := by
  constructor
  · rintro ⟨x, h⟩
    cases h with
    | call hkind htext htree =>
      exact ⟨hkind, ⟨_, htext⟩, x, Option.isSome_iff_exists.2 ⟨_, htree.here⟩⟩
  · rintro ⟨hkind, ⟨k, hk⟩, x, hx⟩
    obtain ⟨x', slots, hslots⟩ :=
      List.exists_cons_of_ne_nil (List.ne_nil_of_mem (Tree.mem_treeSlots.2 hx))
    obtain ⟨u, hu⟩ := Tree.firstAt_of_treeSlots hslots
    exact ⟨x', .call hkind hk hu⟩

theorem ShapedAs.ofTree_eq (h : ShapedAs t c) (parent : Option Construct) (slot : Nat) :
    ofTree parent t slot = c := by
  rw [ofTree, (refined?_eq_some_iff parent slot).2 h, Option.getD_some]

theorem ofTree_eq_inParent (h : ∀ c, ¬ShapedAs t c) (parent : Option Construct) (slot : Nat) :
    ofTree parent t slot = inParent parent t.kind slot := by
  have hnone : (inParent parent t.kind slot).refined? t = none :=
    Option.eq_none_iff_forall_ne_some.2 fun c hc => h c ((refined?_eq_some_iff parent slot).1 hc)
  rw [ofTree, hnone, Option.getD_none]

def slots : Construct → List Nat
  | conditional thenSlot elseSlot => [thenSlot, elseSlot]
  | shortCircuit _ lhs rhs => [lhs, rhs]
  | safeCall receiver => [receiver]
  | _ => []

theorem ShapedAs.isSome_treeAt? (h : ShapedAs t c) : ∀ k ∈ c.slots, (t.treeAt? k).isSome := by
  cases h with
  | operation _ _ htrees => simp [slots, htrees.left, htrees.right]
  | call _ _ htree => simp [slots, htree.here]

/-- What is made of a tree at its place. The place decides about clauses, the items about operations
and calls, and in all else the construct is the one of the place and the kind. -/
structure Classified (parent : Option Construct) (t : Tree) (slot : Nat) : Prop where
  whenClause_iff : ofTree parent t slot = whenClause ↔
    parent = some caseOf ∧ t.kind = "when" ∧ 1 ≤ slot
  refined_iff : ∀ c, (inParent parent t.kind slot).refined? t = some c ↔ ShapedAs t c
  operation_iff : (∃ op x y, ShapedAs t (shortCircuit op x y)) ↔
    t.kind ∈ operationKinds ∧ (∃ k text, ∃ op : Connective, t.textAt? k = some text ∧
      text ∈ op.operators) ∧ ∃ x y, x ≠ y ∧ (t.treeAt? x).isSome ∧ (t.treeAt? y).isSome
  call_iff : (∃ x, ShapedAs t (safeCall x)) ↔
    t.kind ∈ callKinds ∧ (∃ k, t.textAt? k = some "&.") ∧ ∃ x, (t.treeAt? x).isSome
  shaped : ∀ c, ShapedAs t c → ofTree parent t slot = c
  kept : (∀ c, ¬ShapedAs t c) → ofTree parent t slot = inParent parent t.kind slot

theorem classified (parent : Option Construct) (t : Tree) (slot : Nat) :
    Classified parent t slot where
  whenClause_iff := ofTree_eq_whenClause_iff
  refined_iff _ := refined?_eq_some_iff parent slot
  operation_iff := exists_operation_iff
  call_iff := exists_call_iff
  shaped _ h := h.ofTree_eq parent slot
  kept h := ofTree_eq_inParent h parent slot

end Construct

namespace Arena

open Construct

def Refined (a : Arena) (n : Node) : Prop :=
  n.construct ≠ inParent ((a.parent? n).map (·.construct)) n.kind n.slot

instance (a : Arena) (n : Node) : Decidable (a.Refined n) := inferInstanceAs (Decidable (_ ≠ _))

theorem exists_shapedAs_of_refined {base : Nat} {t : Tree} {q : Placed}
    (hq : ReflTransGen Placed.HasPart (.whole base t) q)
    (h : (ofTree base t).Refined q.root) : ShapedAs q.tree q.root.construct := by
  have hconstruct := (standsFor_of_reflTransGen hq).construct
  by_contra hnone
  refine h (hconstruct.trans (ofTree_eq_inParent (fun c hc => hnone ?_) _ _))
  rwa [hconstruct, hc.ofTree_eq]

theorem Stands.exists_childAt? {a : Arena} {p : Placed} (h : a.Stands p) {k : Nat}
    (hk : (p.tree.treeAt? k).isSome) : ∃ q, p.HasPart q ∧ a.childAt? p.root k = some q.root ∧
      a.parent? q.root = some p.root ∧ q.root.slot = k := by
  rw [← Placed.map_tree_part?, Option.isSome_map] at hk
  obtain ⟨q, hq⟩ := Option.isSome_iff_exists.1 hk
  refine ⟨q, ⟨k, hq⟩, ?_, h.parent?_part hq, (Placed.parent?_of_part? hq).2.1⟩
  rw [h.childAt?_root, hq, Option.map_some]

/-- The constructs of trees, and those of the nodes that are built from them: where the items of a
node decide, a child stands at every slot that its construct remembers. -/
theorem constructs_classified :
    (∀ parent t slot, Classified parent t slot) ∧
    ∀ base t, ∀ n ∈ (Arena.ofTree base t).nodes.toList, (Arena.ofTree base t).Refined n →
      (∃ u, (Arena.ofTree base t).tree? n = some u ∧ ShapedAs u n.construct) ∧
      ∀ k ∈ n.construct.slots, ∃ m ∈ (Arena.ofTree base t).nodes.toList,
        (Arena.ofTree base t).childAt? n k = some m ∧
          (Arena.ofTree base t).parent? m = some n ∧ m.slot = k := by
  refine ⟨classified, fun base t n hn hrefined => ?_⟩
  obtain ⟨q, hq, rfl⟩ := exists_placed hn
  have hshaped := exists_shapedAs_of_refined hq hrefined
  refine ⟨⟨q.tree, tree?_of_reflTransGen hq, hshaped⟩, fun k hk => ?_⟩
  have hstands := (stands_ofTree base t).of_reflTransGen hq
  obtain ⟨c, hpart, hchild⟩ := hstands.exists_childAt? (hshaped.isSome_treeAt? k hk)
  exact ⟨c.root, Placed.mem_nodes_of_reflTransGen (hq.tail hpart), hchild⟩

def scatteredOperands : Tree :=
  let name : Item := .tree (.node "lvar" [] none)
  let leaf (text : String) : Item := .leaf (.text text)
  .node "case" [.tree (.node "when" [] none), .tree (.node "when" [
    .tree (.node "operator_assignment" [leaf "x", name, leaf "||=", .leaf .absent, leaf "&&", name,
      name] none),
    .tree (.node "send" [leaf "f", leaf "&.", name, name] none)] none)] none

theorem constructs_classified_scatteredOperands :
    let a := Arena.ofTree 2 scatteredOperands
    a.nodes.toList.map (·.construct) = [.caseOf, .generic, .whenClause, .shortCircuit .or 1 5,
      .generic, .generic, .generic, .safeCall 2, .generic, .generic] ∧
    ∃ n m, n ∈ a.nodes.toList ∧ m ∈ a.nodes.toList ∧ a.Refined n ∧ a.Refined m ∧
      n.construct = .shortCircuit .or 1 5 ∧ (∀ k ∈ [1, 5], ∃ c, a.childAt? n k = some c) ∧
      m.construct = .safeCall 2 ∧ ∃ c, a.childAt? m 2 = some c := by
  intro a
  have hn : a.Refined a.nodes[3] := by decide +kernel
  have hm : a.Refined a.nodes[7] := by decide +kernel
  have hoperation : a.nodes[3].construct = .shortCircuit .or 1 5 := by decide +kernel
  have hcall : a.nodes[7].construct = .safeCall 2 := by decide +kernel
  obtain ⟨-, hnodes⟩ := constructs_classified
  obtain ⟨-, hoperands⟩ := hnodes 2 scatteredOperands _ (Array.getElem_mem_toList _) hn
  obtain ⟨-, hreceiver⟩ := hnodes 2 scatteredOperands _ (Array.getElem_mem_toList _) hm
  rw [hoperation] at hoperands
  rw [hcall] at hreceiver
  refine ⟨by decide +kernel, _, _, Array.getElem_mem_toList _, Array.getElem_mem_toList _, hn, hm,
    hoperation, fun k hk => ?_, hcall, ?_⟩
  · obtain ⟨c, -, hc, -⟩ := hoperands k hk
    exact ⟨c, hc⟩
  · obtain ⟨c, -, hc, -⟩ := hreceiver 2 (List.mem_singleton_self 2)
    exact ⟨c, hc⟩

end Arena

end SyntaxCoverage
