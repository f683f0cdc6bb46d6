import SyntaxCoverage.Syntax.Classify

/-!
What decides the construct of a tree: its kind and its leaves, and its place in the few places that
matter. Only operations and calls get a construct from their leaves.
-/

namespace SyntaxCoverage

namespace Tree

theorem texts_eq (t : Tree) :
    t.texts = (t.items.map Item.leaf?).filterMap fun l => l.bind Leaf.text? := by
  rw [texts, List.filterMap_map]
  rfl

theorem treeSlots_eq (t : Tree) :
    t.treeSlots =
      ((t.items.map Item.leaf?).zipIdx.filter fun entry => entry.1.isNone).map (·.2) := by
  have hisTree : ∀ item : Item, item.isTree = item.leaf?.isNone := by
    rintro (t | l) <;> rfl
  rw [treeSlots, List.zipIdx_map, List.filter_map, List.map_map]
  simp only [hisTree]
  rfl

end Tree

def Connective.operators : Connective → List String
  | .and => ["&&", "and", "&&="]
  | .or => ["||", "or", "||="]

namespace Construct

theorem connectiveOf?_eq_some_iff {text : String} {op : Connective} :
    connectiveOf? text = some op ↔ text ∈ op.operators := by
  constructor
  · intro h
    unfold connectiveOf? at h
    split at h
    · next htext =>
      obtain rfl := Option.some.inj h
      simpa [Connective.operators] using htext
    · obtain ⟨htext, h⟩ := Option.ite_none_right_eq_some.1 h
      obtain rfl := Option.some.inj h
      simpa [Connective.operators] using htext
  · revert text
    cases op <;> decide +kernel

theorem connectiveOf?_eq_none_iff {text : String} :
    connectiveOf? text = none ↔ ∀ op : Connective, text ∉ op.operators := by
  rw [Option.eq_none_iff_forall_ne_some]
  exact forall_congr' fun op => not_congr connectiveOf?_eq_some_iff

def operationKinds : List String := ["binary", "operator_assignment"]

def callKinds : List String := ["call", "send"]

/-- True of the kinds that spell the same construct in every place and with all leaves. -/
def FixedKind (kind : String) : Prop :=
  kind ≠ "when" ∧ kind ∉ operationKinds ∧ kind ∉ callKinds

instance (kind : String) : Decidable (FixedKind kind) := inferInstanceAs (Decidable (_ ∧ _))

/-- Two places that make the same of every kind. -/
def SamePlace (parent : Option Construct) (slot : Nat) (parent' : Option Construct)
    (slot' : Nat) : Prop :=
  ∀ kind, inParent parent' kind slot' = inParent parent kind slot

theorem ofKind_of_kindTable {P : Construct → Prop} (hgeneric : P generic)
    (htable : ∀ entry ∈ kindTable, P entry.2) (kind : String) : P (ofKind kind) := by
  rw [ofKind]
  cases hfound : kindTable.lookup kind with
  | none => exact hgeneric
  | some c =>
    obtain ⟨before, after, hsplit, -⟩ := List.lookup_eq_some_iff.1 hfound
    exact htable (kind, c) (by simp [hsplit])

section Shape

variable {t t' : Tree} {parent parent' : Option Construct} {slot slot' : Nat}

theorem operation?_congr (hleaves : t'.items.map Item.leaf? = t.items.map Item.leaf?) :
    operation? t' = operation? t := by
  rw [operation?, operation?, t.texts_eq, t'.texts_eq, t.treeSlots_eq, t'.treeSlots_eq, hleaves]

theorem safeCall?_congr (hleaves : t'.items.map Item.leaf? = t.items.map Item.leaf?) :
    safeCall? t' = safeCall? t := by
  rw [safeCall?, safeCall?, t.texts_eq, t'.texts_eq, t.treeSlots_eq, t'.treeSlots_eq, hleaves]

theorem ofTree_congr (hplace : inParent parent' t.kind slot' = inParent parent t.kind slot)
    (hkind : t'.kind = t.kind) (hleaves : t'.items.map Item.leaf? = t.items.map Item.leaf?) :
    ofTree parent' t' slot' = ofTree parent t slot := by
  rw [ofTree, ofTree, hkind, hplace, refined?, refined?, hkind, operation?_congr hleaves,
    safeCall?_congr hleaves]

-- Where a loop body stands, the kinds for which the place decides are sequences by themselves.
theorem inParent_eq_ofKind {kind : String} (hkind : kind ≠ "when") (parent : Option Construct)
    (slot : Nat) : inParent parent kind slot = ofKind kind := by
  unfold inParent
  split
  · rw [if_neg fun h => hkind h.1]
  · split
    · next h =>
      rcases h.1 with rfl | rfl
      · rfl
      · rfl
    · rfl
  · rfl

theorem refined?_eq_none (hoperation : t.kind ∉ operationKinds) (hcall : t.kind ∉ callKinds)
    (c : Construct) : c.refined? t = none := by
  simp only [operationKinds, callKinds, List.mem_cons, List.not_mem_nil, or_false]
    at hoperation hcall
  rw [refined?, if_neg hoperation, if_neg hcall, ite_self]

theorem ofTree_eq_ofKind (hkind : FixedKind t.kind) (parent : Option Construct) (slot : Nat) :
    ofTree parent t slot = ofKind t.kind := by
  obtain ⟨hwhen, hoperation, hcall⟩ := hkind
  rw [ofTree, inParent_eq_ofKind hwhen, refined?_eq_none hoperation hcall]
  rfl

theorem inParent_eq_generic {kind : String} (hkind : kind ∈ operationKinds ++ callKinds)
    (parent : Option Construct) (slot : Nat) : inParent parent kind slot = generic := by
  have hkinds : ∀ kind ∈ operationKinds ++ callKinds, kind ≠ "when" ∧ ofKind kind = generic := by
    decide +kernel
  obtain ⟨hwhen, hgeneric⟩ := hkinds kind hkind
  rw [inParent_eq_ofKind hwhen, hgeneric]

theorem refined?_operation (hkind : t.kind ∈ operationKinds) :
    generic.refined? t = operation? t := by
  have hshape : t.kind = "binary" ∨ t.kind = "operator_assignment" := by
    simpa [operationKinds] using hkind
  simp only [refined?, if_pos hshape]
  rfl

theorem refined?_call (hkind : t.kind ∈ callKinds) : generic.refined? t = safeCall? t := by
  have hother : ∀ kind ∈ callKinds, ¬(kind = "binary" ∨ kind = "operator_assignment") := by
    decide +kernel
  have hshape : t.kind = "call" ∨ t.kind = "send" := by
    simpa [callKinds] using hkind
  simp only [refined?, if_neg (hother _ hkind), if_pos hshape]
  rfl

theorem ofTree_operation (hkind : t.kind ∈ operationKinds) (parent : Option Construct)
    (slot : Nat) : ofTree parent t slot = (operation? t).getD generic := by
  rw [ofTree, inParent_eq_generic (List.mem_append_left _ hkind), refined?_operation hkind]

theorem ofTree_call (hkind : t.kind ∈ callKinds) (parent : Option Construct) (slot : Nat) :
    ofTree parent t slot = (safeCall? t).getD generic := by
  rw [ofTree, inParent_eq_generic (List.mem_append_right _ hkind), refined?_call hkind]

end Shape

end Construct

end SyntaxCoverage
