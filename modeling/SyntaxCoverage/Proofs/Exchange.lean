import SyntaxCoverage.Proofs.Mirror

/-!
One conditional, read with `if` and with `unless`. As long as one of the clauses is there, the two
readings report the same outcomes with the spans and hits exchanged. Main statement:
`if_mirrors_unless`, for one conditional and for all those of a tree.
-/

namespace SyntaxCoverage

/-- A then path and an else path, each with its span and its hits. -/
def Path.pair (u v : Span × Nat) : List Path :=
  [⟨.thenPath, u.1, u.2⟩, ⟨.elsePath, v.1, v.2⟩]

theorem Path.pair_inj {u v u' v' : Span × Nat} : pair u v = pair u' v' ↔ u = u' ∧ v = v' := by
  simp [pair, Prod.ext_iff]

def Item.isLocated : Item → Bool
  | .tree t => t.site.isSome
  | .leaf _ => false

namespace Arena

open SyntaxCoverage.Tree

variable {a a' : Arena} {r : Recording} {n n' : Node}

def clauseHits (total : Nat) (thenRuns elseRuns : Option Nat) : Nat × Nat :=
  let thenHits :=
    match thenRuns, elseRuns with
    | some hits, _ => hits
    | none, some other => total - other
    | none, none => 0
  (thenHits, elseRuns.getD (total - thenHits))

theorem clauseHits_swap (total : Nat) {thenRuns elseRuns : Option Nat}
    (h : thenRuns.isSome ∨ elseRuns.isSome) :
    clauseHits total elseRuns thenRuns = (clauseHits total thenRuns elseRuns).swap := by
  cases thenRuns with
  | none =>
    cases elseRuns with
    -- without any clause the else path gets everything, whichever way it is read
    | none => simp at h
    | some other => rfl
  | some hits => cases elseRuns <;> rfl

def clausePair (span : Span) (thenClause elseClause : Option Node) (hits : Nat × Nat) :
    List Path :=
  Path.pair (spanOr thenClause span, hits.1) (spanOr elseClause span, hits.2)

theorem conditionalPaths_eq_ok_iff {span : Span} {x y : Nat} {ps : List Path} :
    a.conditionalPaths r n span x y = .ok ps ↔
      ∃ total thenRuns elseRuns, a.evaluations r n (a.locatedAt? n 0) = .ok total ∧
        a.runsOf? r (a.locatedAt? n x) = .ok thenRuns ∧
        a.runsOf? r (a.locatedAt? n y) = .ok elseRuns ∧
        clausePair span (a.locatedAt? n x) (a.locatedAt? n y)
          (clauseHits total thenRuns elseRuns) = ps := by
  have hunfold : a.conditionalPaths r n span x y = (do
      let total ← a.evaluations r n (a.locatedAt? n 0)
      let thenRuns ← a.runsOf? r (a.locatedAt? n x)
      let elseRuns ← a.runsOf? r (a.locatedAt? n y)
      .ok (clausePair span (a.locatedAt? n x) (a.locatedAt? n y)
        (clauseHits total thenRuns elseRuns))) := rfl
  simp only [hunfold, bind_eq_ok_iff, Except.ok.injEq, exists_and_left]

theorem isSome_runs {o : Option Node} {runs : Option Nat} (h : a.runsOf? r o = .ok runs) :
    runs.isSome = o.isSome := by
  cases o with
  | none =>
    obtain rfl := Except.ok.inj h
    rfl
  | some m =>
    obtain ⟨k, -, rfl⟩ := map_eq_ok_iff.1 h
    rfl

theorem conditionalPaths_exchange {R : Node → Node → Prop} (hp : Pairing a a' r r id R)
    (hruns : a'.runs r n' = a.runs r n)
    (hat : ∀ k, Option.Rel R (a.locatedAt? n k) (a'.locatedAt? n' k)) {x y : Nat}
    (hclause : (a.locatedAt? n x).isSome ∨ (a.locatedAt? n y).isSome) (span : Span)
    (ps : List Path) :
    a'.conditionalPaths r n' span y x = .ok ps ↔
      ∃ u v, a.conditionalPaths r n span x y = .ok (Path.pair u v) ∧ Path.pair v u = ps := by
  have hspan : ∀ k, spanOr (a'.locatedAt? n' k) span = spanOr (a.locatedAt? n k) span :=
    fun k => hp.spanOr (hat k) span
  have hswap : ∀ {total : Nat} {thenRuns elseRuns : Option Nat},
      a.runsOf? r (a.locatedAt? n x) = .ok thenRuns →
      a.runsOf? r (a.locatedAt? n y) = .ok elseRuns →
      clauseHits total elseRuns thenRuns = (clauseHits total thenRuns elseRuns).swap := by
    intro total thenRuns elseRuns hthen helse
    refine clauseHits_swap total ?_
    rw [isSome_runs hthen, isSome_runs helse]
    exact hclause
  simp only [conditionalPaths_eq_ok_iff, hp.evaluations_of_runs hruns (hat 0), hp.runsOf? (hat x),
    hp.runsOf? (hat y), clausePair, hspan]
  constructor
  · rintro ⟨total, elseRuns, thenRuns, htotal, helse, hthen, rfl⟩
    refine ⟨_, _, ⟨total, thenRuns, elseRuns, htotal, hthen, helse, rfl⟩, ?_⟩
    rw [hswap hthen helse]
    rfl
  · rintro ⟨u, v, ⟨total, thenRuns, elseRuns, htotal, hthen, helse, hpair⟩, rfl⟩
    refine ⟨total, elseRuns, thenRuns, htotal, helse, hthen, ?_⟩
    obtain ⟨rfl, rfl⟩ := Path.pair_inj.1 hpair
    rw [hswap hthen helse]
    rfl

theorem conditionalPaths_eq_pair {span : Span} {x y : Nat} {ps : List Path}
    (h : a.conditionalPaths r n span x y = .ok ps) : ∃ u v, ps = Path.pair u v := by
  obtain ⟨total, thenRuns, elseRuns, -, -, -, rfl⟩ := conditionalPaths_eq_ok_iff.1 h
  exact ⟨_, _, rfl⟩

end Arena

namespace Ledger

def Reports (l : Ledger) (s : Settings) (a : Arena) (r : Recording) (n : Node)
    (w : Branch.Ways) : Prop :=
  ∃ e, (l.entry s a r n).1 = .ok (some e) ∧ e.ways = w

theorem reports_iff {l : Ledger} {s : Settings} {a : Arena} {r : Recording} {n : Node}
    {kind : Branch.Kind} {span : Span} (hkind : n.construct.branchKind? = some kind)
    (hspan : n.span? = some span) (w : Branch.Ways) :
    l.Reports s a r n w ↔ ∃ ps, a.paths s r n span = .ok ps ∧ ⟨kind, span, ps⟩ = w := by
  rw [Reports, entry_eq]
  simp only [hkind, hspan]
  cases a.paths s r n span with
  | error e => simp
  | ok ps => simp [Branch.Entry.ways, Path.path_number]

end Ledger

namespace Arena

open SyntaxCoverage.Tree

/-- The node is the root of the tree, laid out somewhere in the arena. -/
def RootOf (a : Arena) (t : Tree) (n : Node) : Prop :=
  ∃ parent slot id, a.Holds parent slot id t ∧ n = t.rootNode parent slot id

theorem rootOf_ofTree (t : Tree) : (ofTree 0 t).RootOf t (t.rootNode none 0 0) :=
  ⟨none, 0, 0, holds_ofTree 0 t, rfl⟩

theorem isSome_itemRoot (p : Parent) (slot id : Nat) (item : Item) :
    ((itemRoot p slot id item).filter Node.isLocated).isSome = item.isLocated := by
  cases item with
  | tree t =>
    have hlocated : (t.rootNode (some p) slot id).isLocated = t.site.isSome := rfl
    rw [itemRoot, Option.filter_some, Item.isLocated, hlocated]
    cases t.site.isSome <;> rfl
  | leaf l => rfl

section Conditional

variable {a a' : Arena} {r : Recording} {n n' : Node} {c x y : Item} {site : Site}

theorem RootOf.isSome_clauses {kind : String}
    (h : a.RootOf (.node kind [c, x, y] (some site)) n) :
    (a.locatedAt? n 1).isSome = x.isLocated ∧ (a.locatedAt? n 2).isSome = y.isLocated := by
  obtain ⟨parent, slot, id, ha, rfl⟩ := h
  rw [locatedAt?_of_slots ha.slots, locatedAt?_of_slots ha.slots]
  exact ⟨isSome_itemRoot _ _ _ x, isSome_itemRoot _ _ _ y⟩

theorem RootOf.construct_if (h : a.RootOf (.node "if" [c, x, y] (some site)) n) :
    n.construct = .conditional 1 2 := by
  obtain ⟨parent, slot, id, -, rfl⟩ := h
  exact ofTree_if ..

theorem RootOf.construct_unless (h : a.RootOf (.node "unless" [c, x, y] (some site)) n) :
    n.construct = .conditional 2 1 := by
  obtain ⟨parent, slot, id, -, rfl⟩ := h
  exact ofTree_unless ..

theorem RootOf.site_eq {t : Tree} (h : a.RootOf t n) : n.site = t.site := by
  obtain ⟨parent, slot, id, -, rfl⟩ := h
  rfl

theorem RootOf.rel_slots (h : a.RootOf (.node "if" [c, x, y] (some site)) n)
    (h' : a'.RootOf (.node "unless" [c, x, y] (some site)) n') :
    List.Forall₂ (Option.Rel (Mirrors a a')) (a.slots n) (a'.slots n') := by
  obtain ⟨parent, slot, id, ha, rfl⟩ := h
  obtain ⟨parent', slot', id', ha', rfl⟩ := h'
  rw [ha.slots, ha'.slots]
  exact rel_itemRoots (.refl _) (fun i => samePlace_swapped _ _ _ _ _ _ _ _ _ i i) ha.items
    ha'.items

theorem runs_conditional {i j : Nat} (hc : n.construct = .conditional i j) (r : Recording) :
    a.runs r n = recordedRuns r n := by
  rw [runs, runsWithin, hc]

theorem RootOf.runs_eq (h : a.RootOf (.node "if" [c, x, y] (some site)) n)
    (h' : a'.RootOf (.node "unless" [c, x, y] (some site)) n') (r : Recording) :
    a'.runs r n' = a.runs r n := by
  rw [runs_conditional h'.construct_unless, runs_conditional h.construct_if]
  rw [recordedRuns, recordedRuns, recordedHits, recordedHits, Node.extent?, Node.extent?, h.site_eq,
    h'.site_eq]
  rfl

theorem RootOf.paths_exchange (h : a.RootOf (.node "if" [c, x, y] (some site)) n)
    (h' : a'.RootOf (.node "unless" [c, x, y] (some site)) n')
    (hclause : x.isLocated ∨ y.isLocated) (s : Settings) (r : Recording) (ps : List Path) :
    a'.paths s r n' site.whole = .ok ps ↔
      ∃ u v, a.paths s r n site.whole = .ok (Path.pair u v) ∧ Path.pair v u = ps := by
  simp only [Arena.paths, h.construct_if, h'.construct_unless]
  refine conditionalPaths_exchange (pairing_mirrors a a' r) (h.runs_eq h' r) (fun k => ?_) ?_ _ ps
  · exact rel_filter? Mirrors.isLocated (rel_childAt? (h.rel_slots h') k)
  · rwa [h.isSome_clauses.1, h.isSome_clauses.2]

theorem RootOf.reports_iff {kind : String} {i j : Nat}
    (h : a.RootOf (.node kind [c, x, y] (some site)) n) (hc : n.construct = .conditional i j)
    (l : Ledger) (s : Settings) (r : Recording) (w : Branch.Ways) :
    l.Reports s a r n w ↔
      ∃ ps, a.paths s r n site.whole = .ok ps ∧ ⟨.conditional, site.whole, ps⟩ = w := by
  refine Ledger.reports_iff ?_ ?_ w
  · rw [hc]
    rfl
  · rw [Node.span?, h.site_eq]
    rfl

theorem RootOf.reports_pair (h : a.RootOf (.node "if" [c, x, y] (some site)) n) {l : Ledger}
    {s : Settings} {r : Recording} {w : Branch.Ways} (hw : l.Reports s a r n w) :
    ∃ u v, w = ⟨.conditional, site.whole, Path.pair u v⟩ := by
  obtain ⟨ps, hps, rfl⟩ := (h.reports_iff h.construct_if l s r w).1 hw
  rw [Arena.paths, h.construct_if] at hps
  obtain ⟨u, v, rfl⟩ := conditionalPaths_eq_pair hps
  exact ⟨u, v, rfl⟩

theorem RootOf.reports_exchanged (h : a.RootOf (.node "if" [c, x, y] (some site)) n)
    (h' : a'.RootOf (.node "unless" [c, x, y] (some site)) n')
    (hclause : x.isLocated ∨ y.isLocated) (l l' : Ledger) (s : Settings) (r : Recording)
    (w : Branch.Ways) : l'.Reports s a' r n' w ↔
      ∃ u v, l.Reports s a r n ⟨.conditional, site.whole, Path.pair u v⟩ ∧
        w = ⟨.conditional, site.whole, Path.pair v u⟩ := by
  simp only [h.reports_iff h.construct_if, h'.reports_iff h'.construct_unless,
    h.paths_exchange h' hclause]
  constructor
  · rintro ⟨_, ⟨u, v, hps, rfl⟩, rfl⟩
    exact ⟨u, v, ⟨_, hps, rfl⟩, rfl⟩
  · rintro ⟨u, v, ⟨ps, hps, hpair⟩, rfl⟩
    obtain rfl : ps = Path.pair u v := congrArg Branch.Ways.paths hpair
    exact ⟨_, ⟨u, v, hps, rfl⟩, rfl⟩

theorem RootOf.reading {t : Tree} (h : a.RootOf t n) (hr : r.AnswersFor t) :
    ∃ N : Node → Prop, a.Reading r N (fun _ => False) ∧ N n := by
  obtain ⟨parent, slot, id, ha, rfl⟩ := h
  have hstands : a.Stands ⟨parent, slot, id, t⟩ := ha
  exact ⟨_, hstands.answered hr, Placed.root_mem _⟩

theorem RootOf.exists_reports (h : a.RootOf (.node "if" [c, x, y] (some site)) n)
    (l : Ledger) (s : Settings) (hr : r.AnswersFor (.node "if" [c, x, y] (some site))) :
    ∃ w, l.Reports s a r n w := by
  obtain ⟨N, hread, hn⟩ := h.reading hr
  obtain ⟨ps, hps⟩ := hread.paths_ok s hn site.whole
  exact ⟨_, (h.reports_iff h.construct_if l s r _).2 ⟨ps, hps, rfl⟩⟩

end Conditional

end Arena

/-- Mirroring conditionals keeps the report of a tree up to the ids and the order of its branches.
One conditional with a clause reports a then path and an else path, and as an `unless` it reports the
same two with their spans and hits exchanged. -/
theorem if_mirrors_unless :
    (∀ {t t' : Tree}, t.Mirrored t' → ∀ {s : Settings}, 1 ≤ s.firstLine → ∀ {r : Recording},
      r.AnswersFor t → ∀ unit, ∃ p q, s.analyse unit t r = .ok p ∧ s.analyse unit t' r = .ok q ∧
        p.SameUpToIds q) ∧
    ∀ {a a' : Arena} {n n' : Node} {c x y : Item} {site : Site},
      a.RootOf (.node "if" [c, x, y] (some site)) n →
      a'.RootOf (.node "unless" [c, x, y] (some site)) n' → x.isLocated ∨ y.isLocated →
      ∀ (l l' : Ledger) (s : Settings) (r : Recording),
        (r.AnswersFor (.node "if" [c, x, y] (some site)) → ∃ w, l.Reports s a r n w) ∧
        (∀ w, l.Reports s a r n w → ∃ u v, w = ⟨.conditional, site.whole, Path.pair u v⟩) ∧
        ∀ w, l'.Reports s a' r n' w ↔
          ∃ u v, l.Reports s a r n ⟨.conditional, site.whole, Path.pair u v⟩ ∧
            w = ⟨.conditional, site.whole, Path.pair v u⟩ := by
  constructor
  · intro t t' h s hfirst r hr unit
    exact Settings.analyse_mirrored h hfirst hr unit
  · intro a a' n n' c x y site h h' hclause l l' s r
    exact ⟨h.exists_reports l s, fun w => h.reports_pair, h.reports_exchanged h' hclause l l' s r⟩

def nestedIf : Tree :=
  let span (start stop : Nat) : Span := ⟨⟨start, stop⟩, ⟨1, start⟩, ⟨1, stop⟩⟩
  let name (start : Nat) : Item := .tree (.node "lvar" [] (some ⟨span start (start + 1), none⟩))
  .node "if" [name 3, .tree (.node "if" [name 8, .leaf .absent, name 10] (some ⟨span 5 12, none⟩)),
    name 14] (some ⟨span 0 16, none⟩)

def nestedUnless : Tree :=
  let span (start stop : Nat) : Span := ⟨⟨start, stop⟩, ⟨1, start⟩, ⟨1, stop⟩⟩
  let name (start : Nat) : Item := .tree (.node "lvar" [] (some ⟨span start (start + 1), none⟩))
  .node "unless" [name 3, name 14,
    .tree (.node "unless" [name 8, name 10, .leaf .absent] (some ⟨span 5 12, none⟩))]
    (some ⟨span 0 16, none⟩)

def oneArmed (kind : String) : Tree :=
  let span (start stop : Nat) : Span := ⟨⟨start, stop⟩, ⟨1, start⟩, ⟨1, stop⟩⟩
  let name (start : Nat) : Item := .tree (.node "lvar" [] (some ⟨span start (start + 1), none⟩))
  .node kind [name 3, name 5, .leaf .absent] (some ⟨span 0 8, none⟩)

theorem if_mirrors_unless_nested :
    let span (start stop : Nat) : Span := ⟨⟨start, stop⟩, ⟨1, start⟩, ⟨1, stop⟩⟩
    let bounded (n : Option Nat) (e : Extent) : Except RecordingError (Option Nat) :=
      if e.stop ≤ 16 then .ok n else .error (.outOfBounds e)
    let r : Recording := ⟨fun e => bounded (some (20 - e.start)) e, bounded none⟩
    let s := Settings.default
    (nestedIf.Mirrored nestedUnless ∧ r.AnswersFor nestedIf ∧ r.AnswersFor (oneArmed "if")) ∧
    (∃ p q, s.analyse "nested" nestedIf r = .ok p ∧ s.analyse "nested" nestedUnless r = .ok q ∧
      p.SameUpToIds q) ∧
    (∃ w, Ledger.empty.Reports s (.ofTree 0 (oneArmed "if")) r
      ((oneArmed "if").rootNode none 0 0) w) ∧
    Ledger.empty.Reports s (.ofTree 0 (oneArmed "unless")) r
      ((oneArmed "unless").rootNode none 0 0)
      ⟨.conditional, span 0 8, Path.pair (span 0 8, 2) (span 5 6, 15)⟩ := by
  intro span bounded r s
  have hnested : ∀ site ∈ nestedIf.sites, site.extent.stop ≤ 16 ∧
      ∀ span ∈ site.spans, span.extent.stop ≤ 16 := by
    decide +kernel
  have hone : ∀ site ∈ (oneArmed "if").sites, site.extent.stop ≤ 16 ∧
      ∀ span ∈ site.spans, span.extent.stop ≤ 16 := by
    decide +kernel
  have hr : ∀ {t : Tree}, (∀ site ∈ t.sites, site.extent.stop ≤ 16 ∧
      ∀ span ∈ site.spans, span.extent.stop ≤ 16) → r.AnswersFor t := fun h =>
    ⟨fun site hsite span hspan => ⟨_, if_pos ((h site hsite).2 span hspan)⟩,
      fun site hsite => ⟨_, if_pos (h site hsite).1⟩⟩
  have h : nestedIf.Mirrored nestedUnless :=
    .swapped (.refl _) (.tree (.swapped (.refl _) (.refl _) (.refl _))) (.refl _)
  obtain ⟨hreports, -, hexchanged⟩ := if_mirrors_unless.2 (Arena.rootOf_ofTree (oneArmed "if"))
    (Arena.rootOf_ofTree (oneArmed "unless")) (.inl rfl) .empty .empty s r
  refine ⟨⟨h, hr hnested, hr hone⟩, if_mirrors_unless.1 h (by decide) (hr hnested) "nested",
    hreports (hr hone), (hexchanged _).2 ⟨(span 5 6, 15), (span 0 8, 2), ?_, rfl⟩⟩
  exact ⟨_, rfl, rfl⟩

end SyntaxCoverage
