import Mathlib.Algebra.GroupWithZero.Nat
import SyntaxCoverage.Proofs.Mirror
import SyntaxCoverage.Proofs.Relocation

/-!
Trees side by side. The nodes of a tree say the same wherever the tree is laid out, and the hits of
a line can be taken part by part, so a sequence without a site of its own reports what its parts
report by themselves.
-/

namespace SyntaxCoverage

namespace Settings

variable {s : Settings} {α : Type}

theorem max?_flatMap (f : α → List Nat) (xs : List α) :
    (xs.flatMap f).max? = (xs.filterMap fun x => (f x).max?).max? := by
  refine Option.ext fun v => ?_
  simp only [List.max?_eq_some_iff, List.mem_flatMap, List.mem_filterMap]
  constructor
  · rintro ⟨⟨x, hx, hv⟩, hle⟩
    refine ⟨⟨x, hx, hv, fun k hk => hle k ⟨x, hx, hk⟩⟩, ?_⟩
    rintro w ⟨y, hy, hw, -⟩
    exact hle w ⟨y, hy, hw⟩
  · rintro ⟨⟨x, hx, hv, -⟩, hle⟩
    refine ⟨⟨x, hx, hv⟩, ?_⟩
    rintro k ⟨y, hy, hk⟩
    -- the greatest number of the part of `k` stands between the two
    obtain ⟨w, hw⟩ := Option.isSome_iff_exists.1 (List.isSome_max?_iff.2 (List.ne_nil_of_mem hk))
    obtain ⟨hmem, hbound⟩ := List.max?_eq_some_iff.1 hw
    exact (hbound k hk).trans (hle w ⟨y, hy, hmem, hbound⟩)

theorem lineTotal?_eq_zero_iff (hs : s.allowPartial = false) {runs : List Nat} :
    s.lineTotal? runs = some 0 ↔ 0 ∈ runs := by
  rw [lineTotal?]
  split
  · next h => simp [h.2]
  · next h =>
    constructor
    · intro hmax
      exact (List.max?_eq_some_iff.1 hmax).1
    · intro hzero
      exact absurd ⟨hs, hzero⟩ h

theorem lineTotal?_flatMap (s : Settings) (f : α → List Nat) (xs : List α) :
    s.lineTotal? (xs.flatMap f) = s.lineTotal? (xs.filterMap fun x => s.lineTotal? (f x)) := by
  have hzero : s.allowPartial = false →
      (0 ∈ xs.flatMap f ↔ 0 ∈ xs.filterMap fun x => s.lineTotal? (f x)) := by
    intro hs
    simp only [List.mem_flatMap, List.mem_filterMap, lineTotal?_eq_zero_iff hs]
  by_cases h : s.allowPartial = false ∧ 0 ∈ xs.flatMap f
  · rw [lineTotal?, if_pos h, lineTotal?, if_pos ⟨h.1, (hzero h.1).1 h.2⟩]
  · have hparts : (xs.filterMap fun x => s.lineTotal? (f x)) =
        xs.filterMap fun x => (f x).max? := by
      refine List.filterMap_congr fun x hx => if_neg fun hmissed => ?_
      exact h ⟨hmissed.1, List.mem_flatMap.2 ⟨x, hx, hmissed.2⟩⟩
    have hrest : ¬(s.allowPartial = false ∧ 0 ∈ xs.filterMap fun x => s.lineTotal? (f x)) :=
      fun hmissed => h ⟨hmissed.1, (hzero hmissed.1).2 hmissed.2⟩
    rw [lineTotal?, if_neg h, lineTotal?, if_neg hrest, hparts, max?_flatMap]

end Settings

theorem Ledger.runsOnLine_flatMap {α : Type} (line : Nat) (f : α → List (Nat × Nat))
    (xs : List α) : runsOnLine line (xs.flatMap f) = xs.flatMap fun x => runsOnLine line (f x) := by
  rw [runsOnLine, List.filterMap_flatMap]
  rfl

namespace Arena

open SyntaxCoverage.Tree Construct

variable {a a' : Arena}

-- In two places that make the same of every kind, a tree has the same nodes in the same order.
mutual

theorem rel_postorder {parent parent' : Option Parent} {slot slot' id id' : Nat} :
    (t : Tree) →
      SamePlace (parent.map (·.construct)) slot (parent'.map (·.construct)) slot' →
      a.Holds parent slot id t → a'.Holds parent' slot' id' t →
      List.Forall₂ (Mirrors a a') (t.postorder parent slot id) (t.postorder parent' slot' id')
  | .node kind items site, hplace, ha, ha' => by
    rw [postorder_eq, postorder_eq]
    have hitems := rel_postorderItems items (samePlace_kept hplace (.refl items) id id') ha.items
      ha'.items
    exact List.rel_append hitems (.cons (.mk (.refl _) hplace ha ha') .nil)

theorem rel_postorderItems {p p' : Parent} {slot id id' : Nat} :
    (items : List Item) → (∀ slot, SamePlace (some p.construct) slot (some p'.construct) slot) →
      a.Stores id (layoutItems p slot id items) → a'.Stores id' (layoutItems p' slot id' items) →
      List.Forall₂ (Mirrors a a') (postorderItems p slot id items)
        (postorderItems p' slot id' items)
  | [], _, _, _ => .nil
  | .leaf l :: items, hplace, ha, ha' =>
    rel_postorderItems items hplace (stores_layoutItems_cons.1 ha).2
      (stores_layoutItems_cons.1 ha').2
  | .tree t :: items, hplace, ha, ha' => by
    obtain ⟨ht, hrest⟩ := stores_layoutItems_cons.1 ha
    obtain ⟨ht', hrest'⟩ := stores_layoutItems_cons.1 ha'
    rw [postorderItems, postorderItems]
    have htree : List.Forall₂ (Mirrors a a') (t.postorder (some p) slot id)
        (t.postorder (some p') slot id') := rel_postorder t (hplace slot) ht ht'
    exact List.rel_append htree (rel_postorderItems items hplace hrest hrest')

end

end Arena

namespace Tree

theorem sizes_eq_sum (items : List Item) :
    sizes items = ((items.filterMap Item.tree?).map size).sum := by
  induction items with
  | nil => rfl
  | cons item items ih =>
    rw [sizes, ih]
    cases item with
    | tree t => rfl
    | leaf l => exact Nat.zero_add _

theorem ofTree_begin (items : List Item) (site : Option Site) (parent : Option Construct)
    (slot : Nat) : Construct.ofTree parent (.node "begin" items site) slot = .sequence := by
  have hkind : Construct.FixedKind "begin" := by
    decide +kernel
  exact Construct.ofTree_eq_ofKind (t := .node "begin" items site) hkind parent slot

def yields {γ : Type} (t : Tree) (F : Arena → Node → Option γ) : List γ :=
  (t.postorder none 0 0).filterMap (F (.ofTree 0 t))

section Yields

variable {γ : Type} {F : Arena → Node → Option γ}
  (hF : ∀ {a a' n n'}, Arena.Mirrors a a' n n' → F a' n' = F a n)

include hF

theorem filterMap_postorderItems {a : Arena} {p : Parent}
    (hplace : ∀ slot, Construct.SamePlace none 0 (some p.construct) slot) {slot id : Nat}
    {items : List Item} (h : a.Stores id (layoutItems p slot id items)) :
    (postorderItems p slot id items).filterMap (F a) =
      (items.filterMap Item.tree?).flatMap fun t => t.yields F := by
  induction items generalizing slot id with
  | nil => rfl
  | cons item items ih =>
    obtain ⟨hitem, hrest⟩ := Arena.stores_layoutItems_cons.1 h
    rw [postorderItems, List.filterMap_append, ih hrest]
    cases item with
    | tree t =>
      have hcopy : List.Forall₂ (Arena.Mirrors (.ofTree 0 t) a) (t.postorder none 0 0)
          (t.postorder (some p) slot id) :=
        Arena.rel_postorder t (hplace slot) (Arena.holds_ofTree 0 t) hitem
      rw [postorderItem, filterMap_eq_of_rel hcopy hF]
      rfl
    | leaf l => rfl

theorem yields_sequence (items : List Item)
    (hroot : ∀ a n, n.construct = .sequence → F a n = none) :
    (Tree.node "begin" items none).yields F =
      (items.filterMap Item.tree?).flatMap fun t => t.yields F := by
  let t : Tree := .node "begin" items none
  have hconstruct : Construct.ofTree none t 0 = .sequence := ofTree_begin items none none 0
  have hplace : ∀ slot, Construct.SamePlace none 0 (some (t.asParent none 0 0).construct) slot := by
    intro slot
    show Construct.SamePlace none 0 (some (Construct.ofTree none t 0)) slot
    rw [hconstruct]
    exact fun _ => rfl
  have hitems := filterMap_postorderItems hF hplace (Arena.holds_ofTree 0 t).items
  have hnone : F (.ofTree 0 t) (t.rootNode none 0 0) = none := hroot _ _ hconstruct
  show (t.postorder none 0 0).filterMap _ = _
  rw [postorder_eq, List.filterMap_append, hitems, List.filterMap_cons_none hnone,
    List.filterMap_nil, List.append_nil]
  rfl

end Yields

end Tree

namespace Report

open Branch

variable {s : Settings} {r : Recording}

structure ReadOff (p : Report) (s : Settings) (r : Recording) (t : Tree) : Prop where
  nodeCount : p.nodeCount = t.size
  branches : p.branches.map Entry.ways = t.yields fun a => a.ways? s r
  lines : ∀ line, p.lines.find? line = if s.firstLine ≤ line then
    s.lineTotal? (Ledger.runsOnLine line (t.yields fun a => Ledger.countedRuns a r)) else none

/-- The report puts other reports together: the branches one after the other but for their ids, and
on each line the hits of all of them. -/
structure Joins (p : Report) (s : Settings) (ps : List Report) : Prop where
  nodeCount : p.nodeCount = 1 + (ps.map (·.nodeCount)).sum
  branches : p.branches.map Entry.ways = ps.flatMap fun q => q.branches.map Entry.ways
  keys : ∀ line, (p.lines.find? line).isSome ↔ ∃ q ∈ ps, (q.lines.find? line).isSome
  hits : ∀ line, p.lines.find? line = s.lineTotal? (ps.filterMap fun q => q.lines.find? line)

theorem exists_readOff {t : Tree} (hfirst : 1 ≤ s.firstLine) (hr : r.AnswersFor t)
    (unit : String) : ∃ p, s.analyse unit t r = .ok p ∧ p.ReadOff s r t := by
  obtain ⟨es, hes, hways⟩ := Settings.analyse_of_answersFor hr hfirst unit
  refine ⟨_, hes, rfl, hways, fun line => ?_⟩
  have hperm := (t.postorder_perm none 0 0).filterMap (Ledger.countedRuns (.ofTree 0 t) r)
  rw [← Ledger.enterPairs_perm hperm, Ledger.afterBuild, Ledger.find?_hitsOfLines_enterPairs]
  rfl

section Join

variable {items : List Item} {p : Report} {ps : List Report}
  (hp : p.ReadOff s r (.node "begin" items none))
  (hps : List.Forall₂ (fun t q => q.ReadOff s r t) (items.filterMap Item.tree?) ps)

include hp hps

theorem nodeCount_of_readOff : p.nodeCount = 1 + (ps.map (·.nodeCount)).sum := by
  have hcounts : ps.map (·.nodeCount) = (items.filterMap Item.tree?).map Tree.size :=
    map_eq_of_rel hps fun h => h.nodeCount
  rw [hp.nodeCount, hcounts, Tree.size, Tree.sizes_eq_sum, Nat.add_comm]

theorem branches_of_readOff :
    p.branches.map Entry.ways = ps.flatMap fun q => q.branches.map Entry.ways := by
  have hroot : ∀ (a : Arena) (n : Node), n.construct = .sequence → a.ways? s r n = none := by
    intro a n hn
    refine Arena.ways?_eq_none ?_
    rw [Node.isBranch, hn]
    rfl
  have hways := map_eq_of_rel hps fun h => h.branches
  rw [hp.branches, Tree.yields_sequence (fun h => h.ways? s) items hroot, List.flatMap_def,
    List.flatMap_def, hways]

theorem hits_of_readOff (line : Nat) :
    p.lines.find? line = s.lineTotal? (ps.filterMap fun q => q.lines.find? line) := by
  have hroot : ∀ (a : Arena) (n : Node), n.construct = .sequence →
      Ledger.countedRuns a r n = none := by
    intro a n hn
    rw [Ledger.countedRuns, Node.countedLine?, Node.isExecutable, hn]
    rfl
  have hparts := filterMap_eq_of_rel hps fun h => h.lines line
  rw [hparts, hp.lines]
  split
  · rw [Tree.yields_sequence (fun h => h.countedRuns) items hroot, Ledger.runsOnLine_flatMap,
      Settings.lineTotal?_flatMap]
  · rw [List.filterMap_none, Settings.lineTotal?_nil]

theorem Joins.of_readOff : p.Joins s ps where
  nodeCount := nodeCount_of_readOff hp hps
  branches := branches_of_readOff hp hps
  keys line := by
    rw [hits_of_readOff hp hps, Settings.isSome_lineTotal?, ne_eq, List.filterMap_eq_nil_iff]
    simp only [not_forall, exists_prop, Option.isSome_iff_ne_none, ne_eq]
  hits := hits_of_readOff hp hps

end Join

end Report

/-- A sequence without a site reports what the trees in it report by themselves, one after the
other. -/
theorem Settings.analyse_sequence {s : Settings} (hfirst : 1 ≤ s.firstLine) {items : List Item}
    {r : Recording} (hr : r.AnswersFor (.node "begin" items none)) (unit : String) :
    ∃ p ps, s.analyse unit (.node "begin" items none) r = .ok p ∧
      List.Forall₂ (fun t q => s.analyse unit t r = .ok q) (items.filterMap Item.tree?) ps ∧
      p.Joins s ps := by
  obtain ⟨p, hrun, hp⟩ := Report.exists_readOff hfirst hr unit
  obtain ⟨ps, hps⟩ := exists_rel_of_forall fun t ht =>
    Report.exists_readOff hfirst (hr.part ht) unit
  refine ⟨p, ps, hrun, hps.imp fun t q h => h.1, ?_⟩
  exact .of_readOff hp (hps.imp fun t q h => h.2)

def sharedLines : List Item :=
  let site (line start stop : Nat) : Option Site :=
    some ⟨⟨⟨start, stop⟩, ⟨line, start⟩, ⟨line, stop⟩⟩, none⟩
  let name (line start : Nat) : Item := .tree (.node "lvar" [] (site line start (start + 1)))
  [.leaf (.text "("), .tree (.node "while" [name 1 1, name 2 4] (site 1 2 9)), .leaf .absent,
    .tree (.node "if" [name 2 11, name 2 13, .leaf .absent] (site 1 10 20)),
    .tree (.node "int" [] (site 3 22 23)), .leaf (.text ")")]

theorem Settings.analyse_sequence_sharedLines :
    let bounded (n : Option Nat) (e : Extent) : Except RecordingError (Option Nat) :=
      if e.stop ≤ 23 then .ok n else .error (.outOfBounds e)
    let r : Recording := ⟨fun e => bounded (some (e.start % 4)) e, bounded none⟩
    let s : Settings := { Settings.default with allowPartial := false }
    (1 ≤ s.firstLine ∧ r.AnswersFor (.node "begin" sharedLines none)) ∧
    ∃ p ps, s.analyse "shared" (.node "begin" sharedLines none) r = .ok p ∧
      p.lines.entries = [(1, 2), (2, 0), (3, 2)] ∧ p.nodeCount = 8 ∧
      List.Forall₂ (fun t q => s.analyse "shared" t r = .ok q)
        (sharedLines.filterMap Item.tree?) ps ∧ p.Joins s ps := by
  intro bounded r s
  have hfirst : 1 ≤ s.firstLine := by
    decide
  have hstop : ∀ site ∈ (Tree.node "begin" sharedLines none).sites, site.extent.stop ≤ 23 ∧
      ∀ span ∈ site.spans, span.extent.stop ≤ 23 := by
    decide +kernel
  have hr : r.AnswersFor (.node "begin" sharedLines none) :=
    ⟨fun site hsite span hspan => ⟨_, if_pos ((hstop site hsite).2 span hspan)⟩,
      fun site hsite => ⟨_, if_pos (hstop site hsite).1⟩⟩
  obtain ⟨p, ps, hrun, hparts, hjoins⟩ := analyse_sequence hfirst hr "shared"
  have hreport : (s.analyse "shared" (.node "begin" sharedLines none) r).map
      (fun q => (q.lines.entries, q.nodeCount)) = .ok ([(1, 2), (2, 0), (3, 2)], 8) := by
    rw [Settings.analyse_eq]
    rfl
  rw [hrun] at hreport
  obtain ⟨hlines, hcount⟩ := Prod.mk.inj (Except.ok.inj hreport)
  exact ⟨⟨hfirst, hr⟩, p, ps, hrun, hlines, hcount, hparts, hjoins⟩

end SyntaxCoverage
