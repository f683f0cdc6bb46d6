import SyntaxCoverage.Proofs.Transport

/-!
Spellings. Some kinds mean the same, and a connective or a safe call may be spelled by a kind of its
own or by an operator among the leaves. A tree has one report in all its spellings.
-/

namespace SyntaxCoverage

def Connective.ownKind : Connective → String
  | .and => "and"
  | .or => "or"

namespace Construct

def spellings : List (List String) :=
  [["if", "ternary"], ["while", "until"], ["while_post", "until_post"], ["begin", "kwbegin"],
    markerKinds]

def IsPlain (kind : String) : Prop := kindTable.lookup kind = none ∧ FixedKind kind

instance (kind : String) : Decidable (IsPlain kind) := inferInstanceAs (Decidable (_ ∧ _))

inductive Synonyms (kind kind' : String) : Prop
  | spelling {kinds : List String} (hkinds : kinds ∈ spellings) (hk : kind ∈ kinds)
    (hk' : kind' ∈ kinds)
  | operation (hk : kind ∈ operationKinds) (hk' : kind' ∈ operationKinds)
  | call (hk : kind ∈ callKinds) (hk' : kind' ∈ callKinds)
  | plain (hk : IsPlain kind) (hk' : IsPlain kind')

end Construct

namespace Tree

open Construct

mutual

/-- The second tree spells the first: any of the nodes may be spelled in another way. -/
inductive Respelt : Tree → Tree → Prop
  | kept {kind : String} {site : Option Site} {items items' : List Item}
    (hitems : RespeltItems items items') :
    Respelt (.node kind items site) (.node kind items' site)
  | renamed {kind kind' : String} {site : Option Site} {items items' : List Item}
    (hkind : Synonyms kind kind') (hitems : RespeltItems items items') :
    Respelt (.node kind items site) (.node kind' items' site)
  | connective {op : Connective} {kind text : String} {site : Option Site} {l l' r r' : Tree}
    {rest rest' : List Item} (hkind : kind ∈ operationKinds) (htext : text ∈ op.operators)
    (hl : Respelt l l') (hr : Respelt r r') (hrest : RespeltItems rest rest') :
    Respelt (.node op.ownKind (.tree l :: .tree r :: rest) site)
      (.node kind (.tree l' :: .leaf (.text text) :: .tree r' :: rest') site)
  | safeCall {kind : String} {site : Option Site} {l l' : Tree} {rest rest' : List Item}
    (hkind : kind ∈ callKinds) (hl : Respelt l l') (hrest : RespeltItems rest rest') :
    Respelt (.node "csend" (.tree l :: rest) site)
      (.node kind (.tree l' :: .leaf (.text "&.") :: rest') site)

inductive RespeltItems : List Item → List Item → Prop
  | nil : RespeltItems [] []
  | tree {t t' : Tree} {items items' : List Item} (ht : Respelt t t')
    (hitems : RespeltItems items items') :
    RespeltItems (.tree t :: items) (.tree t' :: items')
  | leaf {l : Leaf} {items items' : List Item} (hitems : RespeltItems items items') :
    RespeltItems (.leaf l :: items) (.leaf l :: items')

end

mutual

theorem Respelt.size_eq {t t' : Tree} : t.Respelt t' → t'.size = t.size
  | .kept hitems => by
    rw [size, size, hitems.sizes_eq]
  | .renamed _ hitems => by
    rw [size, size, hitems.sizes_eq]
  | .connective _ _ hl hr hrest => by
    simp only [size, sizes, itemSize, hl.size_eq, hr.size_eq, hrest.sizes_eq, Nat.zero_add]
  | .safeCall _ hl hrest => by
    simp only [size, sizes, itemSize, hl.size_eq, hrest.sizes_eq, Nat.zero_add]

theorem RespeltItems.sizes_eq {items items' : List Item} :
    RespeltItems items items' → sizes items' = sizes items
  | .nil => rfl
  | .tree ht hitems => by
    rw [sizes, sizes, itemSize, itemSize, ht.size_eq, hitems.sizes_eq]
  | .leaf hitems => by
    rw [sizes, sizes, hitems.sizes_eq]

end

theorem RespeltItems.leaves_eq {items items' : List Item} (h : RespeltItems items items') :
    items'.map Item.leaf? = items.map Item.leaf? := by
  induction items generalizing items' with
  | nil =>
    cases h
    rfl
  | cons item items ih =>
    cases h with
    | tree _ hitems =>
      rw [List.map_cons, List.map_cons, ih hitems]
      rfl
    | leaf hitems => rw [List.map_cons, List.map_cons, ih hitems]

theorem RespeltItems.refs_eq {items items' : List Item} (h : RespeltItems items items')
    (id : Nat) : refs id items' = refs id items := by
  induction items generalizing items' id with
  | nil =>
    cases h
    rfl
  | cons item items ih =>
    cases h with
    | tree ht hitems => simp only [refs, itemSize, ref, ht.size_eq, ih hitems]
    | leaf hitems => simp only [refs, itemSize, ref, ih hitems]

end Tree

namespace Construct

def ways : Construct → Construct
  | loop test _ => loop test false
  | c => c

theorem sameWays_ways (c : Construct) : c.SameWays c.ways ∧ c.ways.SameWays c := by
  cases c with
  | loop test negated => exact ⟨.loop .., .loop ..⟩
  | _ => exact ⟨.refl _, .refl _⟩

theorem SameWays.trans {c₁ c₂ c₃ : Construct} (h : c₁.SameWays c₂) (h' : c₂.SameWays c₃) :
    c₁.SameWays c₃ := by
  cases h with
  | refl => exact h'
  | loop test negated negated' =>
    cases h' with
    | refl => exact .loop ..
    | loop => exact .loop ..

theorem sameWays_of_ways {c c' : Construct} (h : c.ways = c'.ways) : c.SameWays c' := by
  have hc := (sameWays_ways c).1
  rw [h] at hc
  exact hc.trans (sameWays_ways c').2

theorem sameWays_ofKind : ∀ kinds ∈ spellings, ∀ kind ∈ kinds, ∀ kind' ∈ kinds,
    (ofKind kind).SameWays (ofKind kind') := by
  have hways : ∀ kinds ∈ spellings, ∀ kind ∈ kinds, ∀ kind' ∈ kinds,
      (ofKind kind).ways = (ofKind kind').ways := by
    decide +kernel
  intro kinds hkinds kind hk kind' hk'
  exact sameWays_of_ways (hways kinds hkinds kind hk kind' hk')

theorem sameWays_ofTree_renamed {t t' : Tree} (hkind : Synonyms t.kind t'.kind)
    (hleaves : t'.items.map Item.leaf? = t.items.map Item.leaf?) (parent parent' : Option Construct)
    (slot slot' : Nat) : (ofTree parent t slot).SameWays (ofTree parent' t' slot') := by
  cases hkind with
  | @spelling kinds hkinds hk hk' =>
    have hfixed : ∀ kinds ∈ spellings, ∀ kind ∈ kinds, FixedKind kind := by
      decide +kernel
    rw [ofTree_eq_ofKind (hfixed _ hkinds _ hk), ofTree_eq_ofKind (hfixed _ hkinds _ hk')]
    exact sameWays_ofKind _ hkinds _ hk _ hk'
  | operation hk hk' =>
    rw [ofTree_operation hk, ofTree_operation hk', operation?_congr hleaves]
    exact .refl _
  | call hk hk' =>
    rw [ofTree_call hk, ofTree_call hk', safeCall?_congr hleaves]
    exact .refl _
  | plain hk hk' =>
    rw [ofTree_eq_ofKind hk.2, ofTree_eq_ofKind hk'.2, ofKind, ofKind, hk.1, hk'.1]
    exact .refl _

theorem ofTree_ownKind (op : Connective) (items : List Item) (site : Option Site)
    (parent : Option Construct) (slot : Nat) :
    ofTree parent (.node op.ownKind items site) slot = shortCircuit op 0 1 := by
  have hkind : FixedKind op.ownKind ∧ ofKind op.ownKind = shortCircuit op 0 1 := by
    cases op <;> decide +kernel
  rw [← hkind.2]
  exact ofTree_eq_ofKind (t := .node op.ownKind items site) hkind.1 parent slot

theorem ofTree_connective {op : Connective} {kind text : String} (hkind : kind ∈ operationKinds)
    (htext : text ∈ op.operators) (l r : Tree) (rest : List Item) (site : Option Site)
    (parent : Option Construct) (slot : Nat) :
    ofTree parent (.node kind (.tree l :: .leaf (.text text) :: .tree r :: rest) site) slot =
      shortCircuit op 0 2 := by
  have htexts : Tree.texts (.node kind (.tree l :: .leaf (.text text) :: .tree r :: rest) site) =
      text :: Tree.texts (.node kind rest site) := rfl
  have hslots : ∃ slots, Tree.treeSlots
      (.node kind (.tree l :: .leaf (.text text) :: .tree r :: rest) site) = 0 :: 2 :: slots :=
    ⟨_, rfl⟩
  obtain ⟨slots, hslots⟩ := hslots
  refine (ofTree_operation (t := .node kind _ site) hkind parent slot).trans ?_
  rw [operation?, htexts, hslots, List.findSome?_cons, connectiveOf?_eq_some_iff.2 htext]
  rfl

theorem ofTree_csend (items : List Item) (site : Option Site) (parent : Option Construct)
    (slot : Nat) : ofTree parent (.node "csend" items site) slot = safeCall 0 := by
  have hkind : FixedKind "csend" := by
    decide +kernel
  exact ofTree_eq_ofKind (t := .node "csend" items site) hkind parent slot

theorem ofTree_safeCall {kind : String} (hkind : kind ∈ callKinds) (l : Tree) (rest : List Item)
    (site : Option Site) (parent : Option Construct) (slot : Nat) :
    ofTree parent (.node kind (.tree l :: .leaf (.text "&.") :: rest) site) slot = safeCall 0 := by
  have htexts : Tree.texts (.node kind (.tree l :: .leaf (.text "&.") :: rest) site) =
      "&." :: Tree.texts (.node kind rest site) := rfl
  have hslots : ∃ slots, Tree.treeSlots
      (.node kind (.tree l :: .leaf (.text "&.") :: rest) site) = 0 :: slots :=
    ⟨_, rfl⟩
  obtain ⟨slots, hslots⟩ := hslots
  refine (ofTree_call (t := .node kind _ site) hkind parent slot).trans ?_
  rw [safeCall?, htexts, hslots]
  simp

theorem SameWays.samePlace {c c' : Construct} (h : c.SameWays c') (slot : Nat) :
    SamePlace (some c) slot (some c') slot := by
  cases h with
  | refl => exact fun _ => rfl
  | loop test => cases test <;> exact fun _ => rfl

theorem SameWays.isWhen {n n' : Node} (h : n.construct.SameWays n'.construct) :
    Arena.isWhen n' = Arena.isWhen n := by
  unfold Arena.isWhen
  generalize n.construct = c, n'.construct = c' at h ⊢
  cases h with
  | refl => rfl
  | loop => rfl

theorem samePlace_shortCircuit (op : Connective) (x y x' y' slot slot' : Nat) :
    SamePlace (some (shortCircuit op x y)) slot (some (shortCircuit op x' y')) slot' :=
  fun _ => rfl

theorem samePlace_safeCall (x x' slot slot' : Nat) :
    SamePlace (some (safeCall x)) slot (some (safeCall x')) slot' :=
  fun _ => rfl

end Construct

namespace Node

inductive SameShape (n n' : Node) : Prop
  | kept (hc : n.construct.SameWays n'.construct) (hitems : n'.items = n.items)
  | shortCircuit {op : Connective} {x y x' y' : Nat} (hc : n.construct = .shortCircuit op x y)
    (hc' : n'.construct = .shortCircuit op x' y') (left : n'.items[x']? = n.items[x]?)
    (right : n'.items[y']? = n.items[y]?)
  | safeCall {x x' : Nat} (hc : n.construct = .safeCall x) (hc' : n'.construct = .safeCall x')
    (receiver : n'.items[x']? = n.items[x]?)

structure Respelt (n n' : Node) : Prop where
  id : n'.id = n.id
  site : n'.site = n.site
  children : n'.items.filterMap Ref.node? = n.items.filterMap Ref.node?
  shape : n.SameShape n'

end Node

namespace Tree

open Construct

theorem respelt_layout {t t' : Tree} (parent parent' : Option Parent) (slot slot' id : Nat)
    (hitems : RespeltItems t.items t'.items) (hsite : t'.site = t.site)
    (hways : (t.asParent parent slot id).construct.SameWays
      (t'.asParent parent' slot' id).construct)
    (hbelow : List.Forall₂ Node.Respelt
      (layoutItems (t.asParent parent slot id) 0 (id + 1) t.items)
      (layoutItems (t'.asParent parent' slot' id) 0 (id + 1) t'.items)) :
    List.Forall₂ Node.Respelt (t.layout parent slot id) (t'.layout parent' slot' id) := by
  have hrefs : refs (id + 1) t'.items = refs (id + 1) t.items := hitems.refs_eq _
  rw [layout_eq, layout_eq]
  exact .cons ⟨rfl, hsite, congrArg (List.filterMap Ref.node?) hrefs, .kept hways hrefs⟩ hbelow

mutual

theorem Respelt.layout {t t' : Tree} (parent parent' : Option Parent) (slot slot' id : Nat)
    (hplace : SamePlace (parent.map (·.construct)) slot (parent'.map (·.construct)) slot') :
    t.Respelt t' →
      List.Forall₂ Node.Respelt (t.layout parent slot id) (t'.layout parent' slot' id)
  | @Respelt.kept kind site items items' hitems => by
    have hconstruct : ofTree (parent'.map (·.construct)) (.node kind items' site) slot' =
        ofTree (parent.map (·.construct)) (.node kind items site) slot :=
      ofTree_congr (hplace _) rfl hitems.leaves_eq
    have hways := SameWays.refl (ofTree (parent.map (·.construct)) (.node kind items site) slot)
    nth_rewrite 2 [← hconstruct] at hways
    exact respelt_layout parent parent' slot slot' id hitems rfl hways
      (hitems.layout _ _ 0 0 (id + 1) fun i => hways.samePlace (0 + i))
  | @Respelt.renamed kind kind' site items items' hkind hitems => by
    have hways := @sameWays_ofTree_renamed (.node kind items site) (.node kind' items' site) hkind
      hitems.leaves_eq (parent.map (·.construct)) (parent'.map (·.construct)) slot slot'
    exact respelt_layout parent parent' slot slot' id hitems rfl hways
      (hitems.layout _ _ 0 0 (id + 1) fun i => hways.samePlace (0 + i))
  | @Respelt.connective op kind text site l l' r r' rest rest' hkind htext hl hr hrest => by
    have hc := ofTree_ownKind op (.tree l :: .tree r :: rest) site (parent.map (·.construct)) slot
    have hc' := ofTree_connective hkind htext l' r' rest' site (parent'.map (·.construct)) slot'
    -- the operator takes no id, and below a short circuit all slots are alike
    have hplaces := samePlace_shortCircuit op 0 1 0 2
    have hsizes : l'.size = l.size ∧ r'.size = r.size := ⟨hl.size_eq, hr.size_eq⟩
    simp only [Tree.layout, layoutItems, layoutItem, hc, hc', itemSize, hsizes, Nat.add_zero,
      List.nil_append]
    refine .cons ⟨rfl, rfl, ?_, ?_⟩ (List.rel_append ?_ (List.rel_append ?_ ?_))
    · simp only [refs, ref, itemSize, hsizes, hrest.refs_eq, Nat.add_zero]
      rfl
    · refine .shortCircuit rfl rfl rfl ?_
      simp only [refs, ref, itemSize, hsizes, Nat.add_zero]
      rfl
    · exact hl.layout _ _ _ _ _ (hplaces _ _)
    · exact hr.layout _ _ _ _ _ (hplaces _ _)
    · exact hrest.layout _ _ _ _ _ fun i => hplaces _ _
  | @Respelt.safeCall kind site l l' rest rest' hkind hl hrest => by
    have hc := ofTree_csend (.tree l :: rest) site (parent.map (·.construct)) slot
    have hc' := ofTree_safeCall hkind l' rest' site (parent'.map (·.construct)) slot'
    have hplaces := samePlace_safeCall 0 0
    simp only [Tree.layout, layoutItems, layoutItem, hc, hc', itemSize, hl.size_eq, Nat.add_zero,
      List.nil_append]
    refine .cons ⟨rfl, rfl, ?_, .safeCall rfl rfl rfl⟩ (List.rel_append ?_ ?_)
    · simp only [refs, ref, itemSize, hl.size_eq, hrest.refs_eq, Nat.add_zero]
      rfl
    · exact hl.layout _ _ _ _ _ (hplaces _ _)
    · exact hrest.layout _ _ _ _ _ fun i => hplaces _ _

theorem RespeltItems.layout {items items' : List Item} (parent parent' : Parent)
    (slot slot' id : Nat) (hplace : ∀ i, SamePlace (some parent.construct) (slot + i)
      (some parent'.construct) (slot' + i)) : RespeltItems items items' →
    List.Forall₂ Node.Respelt (layoutItems parent slot id items)
      (layoutItems parent' slot' id items')
  | .nil => .nil
  | .tree ht hitems => by
    have hnext : ∀ i, SamePlace (some parent.construct) (slot + 1 + i)
        (some parent'.construct) (slot' + 1 + i) := by
      intro i
      simpa only [Nat.add_assoc] using hplace (1 + i)
    simp only [layoutItems, layoutItem, itemSize, ht.size_eq]
    exact List.rel_append (ht.layout (some parent) (some parent') slot slot' id (hplace 0))
      (hitems.layout parent parent' (slot + 1) (slot' + 1) _ hnext)
  | .leaf hitems => by
    have hnext : ∀ i, SamePlace (some parent.construct) (slot + 1 + i)
        (some parent'.construct) (slot' + 1 + i) := by
      intro i
      simpa only [Nat.add_assoc] using hplace (1 + i)
    simp only [layoutItems, layoutItem, List.nil_append]
    exact hitems.layout parent parent' (slot + 1) (slot' + 1) _ hnext

end

end Tree

theorem Branch.Entry.relocate_id (e : Entry) : e.relocate id = e := by
  have houtcome : Outcome.relocate id = id := rfl
  rw [relocate, houtcome, List.map_id]
  rfl

theorem Report.Relocated.eq {p q : Report} (h : Relocated id id p q) : q = p := by
  obtain ⟨hcount, hbranches, hlines⟩ := h
  have hentry : Branch.Entry.relocate id = id := funext Branch.Entry.relocate_id
  rw [hentry, List.map_id] at hbranches
  rw [Prod.map_id, List.map_id] at hlines
  cases p
  cases q
  simp only [mk.injEq]
  exact ⟨SortedMap.ext hlines, hbranches, hcount⟩

theorem SameOutcome.eq {ε α : Type} {P : α → α → Prop} {x y : Except ε α}
    (h : SameOutcome P x y) (hP : ∀ u v, P u v → v = u) : y = x := by
  cases x with
  | error e =>
    cases y with
    | error e' => exact congrArg Except.error h.symm
    | ok v => exact h.elim
  | ok u =>
    cases y with
    | error e' => exact h.elim
    | ok v => exact congrArg Except.ok (hP u v h)

namespace Arena

variable {t t' : Tree}

theorem respelt_nodes (h : t.Respelt t') :
    List.Forall₂ Node.Respelt (ofTree 0 t).nodes.toList (ofTree 0 t').nodes.toList :=
  h.layout none none 0 0 0 fun _ => rfl

theorem aligned_respelt (h : t.Respelt t') (r : Recording) :
    Aligned (ofTree 0 t) (ofTree 0 t') r r id Node.Respelt := by
  have hnodes := respelt_nodes h
  have hnode : ∀ id, Option.Rel Node.Respelt ((ofTree 0 t).node? id) ((ofTree 0 t').node? id) :=
    rel_node? rfl hnodes
  have hsite : ∀ {n n' : Node}, n.Respelt n' → n'.site = n.site.map (Site.relocate id) := by
    intro n n' hn
    rw [hn.site, funext Site.relocate_id, Option.map_id']
  have hlocated : ∀ {n n' : Node}, n.Respelt n' → n'.isLocated = n.isLocated :=
    fun hn => isLocated_of_site (hsite hn)
  have hwhen : ∀ {n n' : Node}, n.Respelt n' → isWhen n' = isWhen n := by
    intro n n' hn
    cases hn.shape with
    | kept hc hitems => exact hc.isWhen
    | shortCircuit hc hc' =>
      rw [isWhen, isWhen, hc, hc']
      rfl
    | safeCall hc hc' =>
      rw [isWhen, isWhen, hc, hc']
      rfl
  refine aligned_of_nodes rfl hnodes Node.Respelt.id hsite Node.Respelt.children ?_ ?_
  · exact fun _ _ _ _ _ => ⟨rfl, rfl⟩
  · intro n n' hn
    cases hn.shape with
    | kept hc hitems => exact alike_of_slots hc hlocated hwhen (rel_slots hnode hitems)
    | shortCircuit hc hc' left right =>
      exact .shortCircuit hc hc' (rel_locatedAt? hlocated hnode left)
        (rel_locatedAt? hlocated hnode right)
    | safeCall hc hc' receiver =>
      exact .safeCall hc hc' (rel_locatedAt? hlocated hnode receiver)

end Arena

namespace Settings

/-- All spellings of a tree have the same analysis. -/
theorem analyse_respelt {t t' : Tree} (h : t.Respelt t') (s : Settings) (unit : String)
    (r : Recording) : s.analyse unit t' r = s.analyse unit t r := by
  have hcut : s.CutAlike id Set.univ s := ⟨rfl, rfl, rfl, fun _ _ => Iff.rfl⟩
  have hsame := analyse_aligned (Arena.aligned_respelt h r) (strictMono_id.strictMonoOn Set.univ)
    hcut (fun _ span _ => ⟨Set.mem_univ _, rfl⟩) unit
  exact hsame.eq fun _ _ hpq => hpq.eq

def guardedCall : Tree :=
  let span (start stop : Nat) : Span := ⟨⟨start, stop⟩, ⟨1, start⟩, ⟨1, stop⟩⟩
  let name (start : Nat) : Item := .tree (.node "lvar" [] (some ⟨span start (start + 1), none⟩))
  .node "if" [name 3, .tree (.node "and" [name 5, .tree (.node "csend" [name 10, .leaf (.text "f")]
    (some ⟨span 10 14, some (span 13 14)⟩))] (some ⟨span 5 14, none⟩)), .leaf .absent]
    (some ⟨span 0 20, none⟩)

def guardedCallOperators : Tree :=
  let span (start stop : Nat) : Span := ⟨⟨start, stop⟩, ⟨1, start⟩, ⟨1, stop⟩⟩
  let name (start : Nat) : Item :=
    .tree (.node "identifier" [] (some ⟨span start (start + 1), none⟩))
  .node "ternary" [name 3, .tree (.node "binary" [name 5, .leaf (.text "&&"),
    .tree (.node "call" [name 10, .leaf (.text "&."), .leaf (.text "f")]
      (some ⟨span 10 14, some (span 13 14)⟩))] (some ⟨span 5 14, none⟩)), .leaf .absent]
    (some ⟨span 0 20, none⟩)

theorem analyse_respelt_guardedCall :
    let r : Recording := ⟨fun e => .ok (some (20 - e.start)), fun _ => .ok none⟩
    guardedCall.Respelt guardedCallOperators ∧
      (Settings.default.analyse "guard" guardedCall r).map (·.branches.length) = .ok 3 ∧
      Settings.default.analyse "guard" guardedCallOperators r =
        Settings.default.analyse "guard" guardedCall r := by
  intro r
  have hplain : Construct.Synonyms "lvar" "identifier" :=
    .plain (by decide +kernel) (by decide +kernel)
  have htext : "&&" ∈ Connective.operators .and := by decide
  have h : guardedCall.Respelt guardedCallOperators := by
    refine .renamed (.spelling (List.mem_cons_self ..) (by decide) (by decide))
      (.tree (.renamed hplain .nil) (.tree ?_ (.leaf .nil)))
    refine .connective (by decide) htext (.renamed hplain .nil) ?_ .nil
    exact .safeCall (by decide) (.renamed hplain .nil) (.leaf .nil)
  have hbranches : (default.analyse "guard" guardedCall r).map (·.branches.length) = .ok 3 := by
    rw [analyse_eq]
    rfl
  exact ⟨h, hbranches, analyse_respelt h default "guard" r⟩

end Settings

end SyntaxCoverage
