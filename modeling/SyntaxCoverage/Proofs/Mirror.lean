import Mathlib.Data.Multiset.Filter
import SyntaxCoverage.Proofs.Alignment
import SyntaxCoverage.Proofs.Answered

/-!
Mirrored conditionals. An `if` with its clauses exchanged is an `unless`, and mirroring any of the
conditionals in a tree renumbers its nodes and reorders its branches, but changes no count.
-/

namespace SyntaxCoverage

namespace Tree

open Construct

mutual

/-- The second tree is the first with some of its conditionals mirrored. -/
inductive Mirrored : Tree → Tree → Prop
  | kept {kind : String} {site : Option Site} {items items' : List Item}
    (hitems : MirroredItems items items') :
    Mirrored (.node kind items site) (.node kind items' site)
  | swapped {site : Option Site} {c c' x x' y y' : Item} (hc : MirroredItem c c')
    (hx : MirroredItem x x') (hy : MirroredItem y y') :
    Mirrored (.node "if" [c, x, y] site) (.node "unless" [c', y', x'] site)

inductive MirroredItems : List Item → List Item → Prop
  | nil : MirroredItems [] []
  | cons {item item' : Item} {items items' : List Item} (hitem : MirroredItem item item')
    (hitems : MirroredItems items items') : MirroredItems (item :: items) (item' :: items')

inductive MirroredItem : Item → Item → Prop
  | tree {t t' : Tree} (ht : Mirrored t t') : MirroredItem (.tree t) (.tree t')
  | leaf (l : Leaf) : MirroredItem (.leaf l) (.leaf l)

end

mutual

theorem Mirrored.size_eq {t t' : Tree} : t.Mirrored t' → t'.size = t.size
  | .kept hitems => by
    rw [size, size, hitems.sizes_eq]
  | .swapped hc hx hy => by
    simp only [size, sizes, hc.itemSize_eq, hx.itemSize_eq, hy.itemSize_eq]
    omega

theorem MirroredItems.sizes_eq {items items' : List Item} :
    MirroredItems items items' → sizes items' = sizes items
  | .nil => rfl
  | .cons hitem hitems => by
    rw [sizes, sizes, hitem.itemSize_eq, hitems.sizes_eq]

theorem MirroredItem.itemSize_eq {item item' : Item} :
    MirroredItem item item' → itemSize item' = itemSize item
  | .tree ht => ht.size_eq
  | .leaf _ => rfl

end

mutual

theorem Mirrored.sites_perm {t t' : Tree} : t.Mirrored t' → t'.sites.Perm t.sites
  | .kept hitems => by
    rw [sites, sites]
    exact hitems.sitesOf_perm.append_left _
  | .swapped hc hx hy => by
    simp only [sites, sitesOf, List.append_nil]
    refine .append_left _ (hc.itemSites_perm.append ?_)
    exact List.perm_append_comm.trans (hx.itemSites_perm.append hy.itemSites_perm)

theorem MirroredItems.sitesOf_perm {items items' : List Item} :
    MirroredItems items items' → (sitesOf items').Perm (sitesOf items)
  | .nil => .nil
  | .cons hitem hitems => by
    rw [sitesOf, sitesOf]
    exact hitem.itemSites_perm.append hitems.sitesOf_perm

theorem MirroredItem.itemSites_perm {item item' : Item} :
    MirroredItem item item' → (itemSites item').Perm (itemSites item)
  | .tree ht => ht.sites_perm
  | .leaf _ => .refl _

end

mutual

theorem Mirrored.refl : (t : Tree) → t.Mirrored t
  | .node _ items _ => .kept (MirroredItems.refl items)

theorem MirroredItems.refl : (items : List Item) → MirroredItems items items
  | [] => .nil
  | item :: items => .cons (MirroredItem.refl item) (MirroredItems.refl items)

theorem MirroredItem.refl : (item : Item) → MirroredItem item item
  | .tree t => .tree (Mirrored.refl t)
  | .leaf l => .leaf l

end

theorem MirroredItem.leaf?_eq {item item' : Item} (h : MirroredItem item item') :
    item'.leaf? = item.leaf? := by
  cases h <;> rfl

theorem MirroredItems.leaves_eq {items items' : List Item} (h : MirroredItems items items') :
    items'.map Item.leaf? = items.map Item.leaf? := by
  induction items generalizing items' with
  | nil =>
    cases h
    rfl
  | cons item items ih =>
    cases h with
    | cons hitem hitems => rw [List.map_cons, List.map_cons, hitem.leaf?_eq, ih hitems]

theorem ofTree_if (items : List Item) (site : Option Site) (parent : Option Construct)
    (slot : Nat) : ofTree parent (.node "if" items site) slot = conditional 1 2 := by
  have hkind : FixedKind "if" := by
    decide +kernel
  exact ofTree_eq_ofKind (t := .node "if" items site) hkind parent slot

theorem ofTree_unless (items : List Item) (site : Option Site) (parent : Option Construct)
    (slot : Nat) : ofTree parent (.node "unless" items site) slot = conditional 2 1 := by
  have hkind : FixedKind "unless" := by
    decide +kernel
  exact ofTree_eq_ofKind (t := .node "unless" items site) hkind parent slot

section Places

variable {parent parent' : Option Parent} {slot slot' : Nat} {kind : String}
  {items items' : List Item} {site : Option Site}

theorem construct_kept
    (hplace : SamePlace (parent.map (·.construct)) slot (parent'.map (·.construct)) slot')
    (h : MirroredItems items items') (id id' : Nat) :
    (asParent parent' slot' id' (.node kind items' site)).construct =
      (asParent parent slot id (.node kind items site)).construct :=
  ofTree_congr (hplace _) rfl h.leaves_eq

theorem samePlace_kept
    (hplace : SamePlace (parent.map (·.construct)) slot (parent'.map (·.construct)) slot')
    (h : MirroredItems items items') (id id' i : Nat) :
    SamePlace (some (asParent parent slot id (.node kind items site)).construct) i
      (some (asParent parent' slot' id' (.node kind items' site)).construct) i := by
  rw [construct_kept hplace h id id']
  exact fun _ => rfl

-- No kind stands out below a conditional, so the clauses may change their slots.
theorem samePlace_swapped (parent parent' : Option Parent) (slot slot' id id' : Nat)
    (items items' : List Item) (site : Option Site) (i j : Nat) :
    SamePlace (some (asParent parent slot id (.node "if" items site)).construct) i
      (some (asParent parent' slot' id' (.node "unless" items' site)).construct) j := by
  rw [asParent, asParent, ofTree_if, ofTree_unless]
  exact fun _ => rfl

end Places

end Tree

namespace Arena

open SyntaxCoverage.Tree Construct

/-- The roots of a tree and of its image, wherever the two are laid out. -/
inductive Mirrors (a a' : Arena) : Node → Node → Prop
  | mk {parent parent' : Option Parent} {slot slot' id id' : Nat} {t t' : Tree}
    (h : t.Mirrored t')
    (hplace : SamePlace (parent.map (·.construct)) slot (parent'.map (·.construct)) slot')
    (ha : a.Holds parent slot id t) (ha' : a'.Holds parent' slot' id' t') :
    Mirrors a a' (t.rootNode parent slot id) (t'.rootNode parent' slot' id')

variable {a a' : Arena}

theorem rel_itemRoot {p p' : Parent} {slot slot' id id' : Nat} {item item' : Item}
    (h : MirroredItem item item')
    (hplace : SamePlace (some p.construct) slot (some p'.construct) slot')
    (ha : a.Stores id (layoutItem p slot id item))
    (ha' : a'.Stores id' (layoutItem p' slot' id' item')) :
    Option.Rel (Mirrors a a') (itemRoot p slot id item) (itemRoot p' slot' id' item') := by
  cases h with
  | tree ht => exact .some (.mk ht hplace ha ha')
  | leaf l => exact .none

theorem rel_itemRoots {p p' : Parent} {slot id id' : Nat} {items items' : List Item}
    (h : MirroredItems items items')
    (hplace : ∀ slot, SamePlace (some p.construct) slot (some p'.construct) slot)
    (ha : a.Stores id (layoutItems p slot id items))
    (ha' : a'.Stores id' (layoutItems p' slot id' items')) :
    List.Forall₂ (Option.Rel (Mirrors a a')) (itemRoots p slot id items)
      (itemRoots p' slot id' items') := by
  induction items generalizing items' slot id id' with
  | nil =>
    cases h
    exact .nil
  | cons item items ih =>
    cases h with
    | cons hitem hitems =>
      obtain ⟨hfirst, hrest⟩ := stores_layoutItems_cons.1 ha
      obtain ⟨hfirst', hrest'⟩ := stores_layoutItems_cons.1 ha'
      exact .cons (rel_itemRoot hitem (hplace slot) hfirst hfirst') (ih hitems hrest hrest')

theorem locatedAt?_of_slots {n : Node} {os : List (Option Node)} (h : a.slots n = os) (k : Nat) :
    a.locatedAt? n k = os[k]?.join.filter Node.isLocated := by
  rw [locatedAt?, childAt?_eq, h]

theorem locatedChildren_of_slots {n : Node} {os : List (Option Node)} (h : a.slots n = os) :
    a.locatedChildren n = os.reduceOption.filter Node.isLocated := by
  rw [locatedChildren, children_eq, h]

theorem stores_triple {p : Parent} {id : Nat} {x y z : Item}
    (h : a.Stores id (layoutItems p 0 id [x, y, z])) :
    a.Stores id (layoutItem p 0 id x) ∧
      a.Stores (id + itemSize x) (layoutItem p 1 (id + itemSize x) y) ∧
      a.Stores (id + itemSize x + itemSize y)
        (layoutItem p 2 (id + itemSize x + itemSize y) z) := by
  obtain ⟨hx, hrest⟩ := stores_layoutItems_cons.1 h
  obtain ⟨hy, hrest⟩ := stores_layoutItems_cons.1 hrest
  obtain ⟨hz, -⟩ := stores_layoutItems_cons.1 hrest
  exact ⟨hx, hy, hz⟩

structure Swapped (a a' : Arena) (n n' : Node) (oc ox oy oc' ox' oy' : Option Node) : Prop where
  slots : a.slots n = [oc, ox, oy]
  slots' : a'.slots n' = [oc', oy', ox']
  test : Option.Rel (Mirrors a a') oc oc'
  thenClause : Option.Rel (Mirrors a a') ox ox'
  elseClause : Option.Rel (Mirrors a a') oy oy'

theorem swapped_of_holds {parent parent' : Option Parent} {slot slot' id id' : Nat}
    {site : Option Site} {c c' x x' y y' : Item} (hc : MirroredItem c c')
    (hx : MirroredItem x x') (hy : MirroredItem y y')
    (ha : a.Holds parent slot id (.node "if" [c, x, y] site))
    (ha' : a'.Holds parent' slot' id' (.node "unless" [c', y', x'] site)) :
    ∃ oc ox oy oc' ox' oy', Swapped a a' (rootNode parent slot id (.node "if" [c, x, y] site))
      (rootNode parent' slot' id' (.node "unless" [c', y', x'] site)) oc ox oy oc' ox' oy' := by
  have hplaces :=
    samePlace_swapped parent parent' slot slot' id id' [c, x, y] [c', y', x'] site
  obtain ⟨hac, hax, hay⟩ := stores_triple ha.items
  obtain ⟨hac', hay', hax'⟩ := stores_triple ha'.items
  exact ⟨_, _, _, _, _, _, ha.slots, ha'.slots, rel_itemRoot hc (hplaces _ _) hac hac',
    rel_itemRoot hx (hplaces _ _) hax hax', rel_itemRoot hy (hplaces _ _) hay hay'⟩

namespace Mirrors

variable {n n' : Node}

theorem site (h : Mirrors a a' n n') : n'.site = n.site := by
  obtain ⟨h, -, -, -⟩ := h
  cases h <;> rfl

theorem isLocated (h : Mirrors a a' n n') : n'.isLocated = n.isLocated := by
  rw [Node.isLocated, h.site, Node.isLocated]

theorem kept_or_swapped (h : Mirrors a a' n n') :
    (n'.construct = n.construct ∧
      List.Forall₂ (Option.Rel (Mirrors a a')) (a.slots n) (a'.slots n')) ∨
    (n.construct = .conditional 1 2 ∧ n'.construct = .conditional 2 1 ∧
      ∃ oc ox oy oc' ox' oy', Swapped a a' n n' oc ox oy oc' ox' oy') := by
  obtain @⟨_, _, _, _, id, id', _, _, h, hplace, ha, ha'⟩ := h
  cases h with
  | kept hitems =>
    refine .inl ⟨construct_kept hplace hitems id id', ?_⟩
    rw [ha.slots, ha'.slots]
    exact rel_itemRoots hitems (samePlace_kept hplace hitems id id') ha.items ha'.items
  | swapped hc hx hy =>
    exact .inr ⟨ofTree_if _ _ _ _, ofTree_unless _ _ _ _, swapped_of_holds hc hx hy ha ha'⟩

theorem isWhen (h : Mirrors a a' n n') : isWhen n' = isWhen n := by
  rw [Arena.isWhen, Arena.isWhen]
  rcases h.kept_or_swapped with ⟨hconstruct, -⟩ | ⟨hc, hc', -⟩
  · rw [hconstruct]
  · rw [hc, hc']
    rfl

theorem alike (h : Mirrors a a' n n') : Alike a a' (Mirrors a a') n n' := by
  rcases h.kept_or_swapped with ⟨hconstruct, hslots⟩ | ⟨hc, hc', _, _, _, _, _, _, hs⟩
  · have hways : n.construct.SameWays n'.construct := hconstruct ▸ .refl _
    exact alike_of_slots hways isLocated isWhen hslots
  · refine .conditional hc hc' ?_ ?_ ?_
    · rw [locatedAt?_of_slots hs.slots, locatedAt?_of_slots hs.slots']
      exact rel_filter? isLocated hs.test
    · rw [locatedAt?_of_slots hs.slots, locatedAt?_of_slots hs.slots']
      exact rel_filter? isLocated hs.thenClause
    · rw [locatedAt?_of_slots hs.slots, locatedAt?_of_slots hs.slots']
      exact rel_filter? isLocated hs.elseClause

theorem bare (h : Mirrors a a' n n') :
    (a'.locatedChildren n').isEmpty = (a.locatedChildren n).isEmpty := by
  rcases h.kept_or_swapped with ⟨-, hslots⟩ | ⟨-, -, oc, ox, oy, oc', ox', oy', hs⟩
  · exact isEmpty_locatedChildren isLocated (rel_children hslots)
  · have hrel : List.Forall₂ (Option.Rel (Mirrors a a')) [oc, ox, oy] [oc', ox', oy'] :=
      .cons hs.test (.cons hs.thenClause (.cons hs.elseClause .nil))
    have hperm : [oc', oy', ox'].Perm [oc', ox', oy'] := (List.Perm.swap ..).cons oc'
    rw [locatedChildren_of_slots hs.slots, locatedChildren_of_slots hs.slots']
    refine ((hperm.filterMap id).filter Node.isLocated).isEmpty_eq.trans ?_
    exact isEmpty_of_rel (rel_filter_list isLocated (rel_reduceOption hrel))

theorem sameDepth (h : Mirrors a a' n n') (r : Recording) : SameDepth a a' r n' := by
  obtain ⟨h, hplace, ha, ha'⟩ := h
  have hsize := ha.size_le
  rw [← h.size_eq] at hsize
  exact ⟨(ha'.runsWithin_eq_runs (hsize.trans (Nat.le_succ _))).symm,
    (ha'.fullRunsWithin_eq_fullRuns (hsize.trans (Nat.le_succ _))).symm⟩

end Mirrors

theorem pairing_mirrors (a a' : Arena) (r : Recording) :
    Pairing a a' r r id (Mirrors a a') where
  depth h := h.sameDepth r
  site h := by
    have hid : Site.relocate id = id := by
      funext site
      exact site.relocate_id
    rw [h.site, hid, Option.map_id]
    rfl
  agrees _ _ _ _ _ := ⟨rfl, rfl⟩
  alike h := h.alike
  bare h := h.bare

mutual

/-- Up to their order, the nodes of a tree are those of its image. -/
theorem rel_layout {t t' : Tree} {parent parent' : Option Parent} {slot slot' id id' : Nat}
    (hplace : SamePlace (parent.map (·.construct)) slot (parent'.map (·.construct)) slot')
    (ha : a.Holds parent slot id t) (ha' : a'.Holds parent' slot' id' t') : t.Mirrored t' →
    Multiset.Rel (Mirrors a a') (t.layout parent slot id) (t'.layout parent' slot' id')
  | .kept hitems => by
    rw [layout_eq, layout_eq, ← Multiset.cons_coe, ← Multiset.cons_coe]
    refine .cons (.mk (.kept hitems) hplace ha ha') ?_
    exact rel_layoutItems (samePlace_kept hplace hitems id id') ha.items ha'.items hitems
  | @Mirrored.swapped site c c' x x' y y' hc hx hy => by
    have hplaces :=
      samePlace_swapped parent parent' slot slot' id id' [c, x, y] [c', y', x'] site
    obtain ⟨hac, hax, hay⟩ := stores_triple ha.items
    obtain ⟨hac', hay', hax'⟩ := stores_triple ha'.items
    rw [layout_eq, layout_eq, ← Multiset.cons_coe, ← Multiset.cons_coe]
    refine .cons (.mk (.swapped hc hx hy) hplace ha ha') ?_
    simp only [items, layoutItems, List.append_nil, ← Multiset.coe_add]
    refine (rel_layoutItem (hplaces _ _) hac hac' hc).add ?_
    -- the clauses stand in the other order, which a multiset does not show
    rw [Multiset.add_comm (layoutItem _ _ _ y' : Multiset Node)]
    exact (rel_layoutItem (hplaces _ _) hax hax' hx).add (rel_layoutItem (hplaces _ _) hay hay' hy)

theorem rel_layoutItems {items items' : List Item} {p p' : Parent} {slot id id' : Nat}
    (hplace : ∀ slot, SamePlace (some p.construct) slot (some p'.construct) slot)
    (ha : a.Stores id (layoutItems p slot id items))
    (ha' : a'.Stores id' (layoutItems p' slot id' items')) : MirroredItems items items' →
    Multiset.Rel (Mirrors a a') (layoutItems p slot id items) (layoutItems p' slot id' items')
  | .nil => .zero
  | .cons hitem hitems => by
    obtain ⟨hfirst, hrest⟩ := stores_layoutItems_cons.1 ha
    obtain ⟨hfirst', hrest'⟩ := stores_layoutItems_cons.1 ha'
    rw [layoutItems, layoutItems, ← Multiset.coe_add, ← Multiset.coe_add]
    exact (rel_layoutItem (hplace slot) hfirst hfirst' hitem).add
      (rel_layoutItems hplace hrest hrest' hitems)

theorem rel_layoutItem {item item' : Item} {p p' : Parent} {slot slot' id id' : Nat}
    (hplace : SamePlace (some p.construct) slot (some p'.construct) slot')
    (ha : a.Stores id (layoutItem p slot id item))
    (ha' : a'.Stores id' (layoutItem p' slot' id' item')) : MirroredItem item item' →
    Multiset.Rel (Mirrors a a') (layoutItem p slot id item) (layoutItem p' slot' id' item')
  | .tree ht => rel_layout hplace ha ha' ht
  | .leaf _ => .zero

end

theorem perm_filterMap_of_rel {α β γ : Type} {R : α → β → Prop} {xs : List α} {ys : List β}
    (h : Multiset.Rel R xs ys) {F : α → Option γ} {G : β → Option γ}
    (hFG : ∀ {x y}, R x y → G y = F x) : (ys.filterMap G).Perm (xs.filterMap F) := by
  have hmap : ∀ {ms : Multiset α} {ns : Multiset β}, Multiset.Rel R ms ns →
      ns.filterMap G = ms.filterMap F := by
    intro ms ns hrel
    induction hrel with
    | zero => rfl
    | cons hxy _ ih => rw [Multiset.filterMap_cons, Multiset.filterMap_cons, ih, hFG hxy]
  exact Multiset.coe_eq_coe.1 (hmap h)

variable {r : Recording} {n n' : Node}

theorem Mirrors.countedRuns (h : Mirrors a a' n n') :
    Ledger.countedRuns a' r n' = Ledger.countedRuns a r n := by
  have hp := pairing_mirrors a a' r
  have hline : n'.countedLine? = n.countedLine? := hp.countedLine? h
  rw [Ledger.countedRuns, Ledger.countedRuns, hline, hp.runs h]

theorem Mirrors.ways? (h : Mirrors a a' n n') (s : Settings) :
    a'.ways? s r n' = a.ways? s r n := by
  have hp := pairing_mirrors a a' r
  have hspan : n'.span? = n.span? := by
    rw [hp.span? h, Option.map_id]
    rfl
  rw [Arena.ways?, Arena.ways?, hp.branchKind? h, hspan]
  cases n.construct.branchKind? with
  | none => rfl
  | some kind =>
    cases n.span? with
    | none => rfl
    | some span =>
      have hid : Path.relocate id = id := rfl
      have hpaths := hp.paths (s := s) rfl h span
      rw [hid, List.map_id_fun, id_eq] at hpaths
      simp only [hpaths]
      cases a.paths s r n span <;> rfl

end Arena

/-- Reports that differ at most in the ids and in the order of their branches. -/
structure Report.SameUpToIds (p q : Report) : Prop where
  lines : q.lines = p.lines
  nodeCount : q.nodeCount = p.nodeCount
  branches : (q.branches.map Branch.Entry.ways).Perm (p.branches.map Branch.Entry.ways)

theorem Settings.analyse_mirrored {t t' : Tree} (h : t.Mirrored t') {s : Settings}
    (hfirst : 1 ≤ s.firstLine) {r : Recording} (hr : r.AnswersFor t) (unit : String) :
    ∃ p q, s.analyse unit t r = .ok p ∧ s.analyse unit t' r = .ok q ∧ p.SameUpToIds q := by
  have hr' : r.AnswersFor t' := hr.of_sites_subset h.sites_perm.subset
  obtain ⟨es, hes, hways⟩ := Settings.analyse_of_answersFor hr hfirst unit
  obtain ⟨es', hes', hways'⟩ := Settings.analyse_of_answersFor hr' hfirst unit
  have hlayout := Arena.rel_layout (a := .ofTree 0 t) (fun _ => rfl) (Arena.holds_ofTree 0 t)
    (Arena.holds_ofTree 0 t') h
  have hpostorder : Multiset.Rel (Arena.Mirrors (.ofTree 0 t) (.ofTree 0 t'))
      (t.postorder none 0 0) (t'.postorder none 0 0) := by
    rw [Multiset.coe_eq_coe.2 (t.postorder_perm none 0 0),
      Multiset.coe_eq_coe.2 (t'.postorder_perm none 0 0)]
    exact hlayout
  have hledger : Ledger.afterBuild t' = Ledger.afterBuild t := by
    rw [Ledger.afterBuild, h.size_eq, Ledger.afterBuild]
  have hcounted := Arena.perm_filterMap_of_rel hlayout fun hn => hn.countedRuns (r := r)
  refine ⟨_, _, hes, hes', ?_, h.size_eq, ?_⟩
  · simp only
    rw [hledger, Ledger.enterPairs_perm hcounted]
  · simp only
    rw [hways, hways']
    exact Arena.perm_filterMap_of_rel hpostorder fun hn => hn.ways? s

end SyntaxCoverage
