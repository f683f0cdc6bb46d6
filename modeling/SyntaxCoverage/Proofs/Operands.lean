import SyntaxCoverage.Proofs.Balance
import SyntaxCoverage.Proofs.Slots

/-!
The operand in control of a construct. The ways through a construct follow from the counts of its
clauses and from how often it is taken to have been evaluated; the operand has no part in them but for
the number of evaluations. Main statement: `Arena.Unwatched.exists_reports`.
-/

namespace SyntaxCoverage

open Branch

namespace Tree

theorem nodup_treeSlots (t : Tree) : t.treeSlots.Nodup :=
  t.ascending_treeSlots.imp Nat.ne_of_lt

end Tree

namespace Construct

def operandSlot? : Construct → Option Nat
  | conditional _ _ => some 0
  | shortCircuit _ lhs _ => some lhs
  | safeCall receiver => some receiver
  | loop _ _ => some 0
  | _ => none

def clauseSlots : Construct → List Nat
  | conditional thenSlot elseSlot => [thenSlot, elseSlot]
  | shortCircuit _ _ rhs => [rhs]
  | loop _ _ => [1]
  | _ => []

def Separate (c : Construct) : Prop := ∀ k ∈ c.operandSlot?, k ∉ c.clauseSlots

instance (c : Construct) : Decidable c.Separate :=
  inferInstanceAs (Decidable (∀ k ∈ c.operandSlot?, k ∉ c.clauseSlots))

theorem separate_refined? {c c' : Construct} {t : Tree} (h : c.refined? t = some c') :
    c'.Separate := by
  unfold refined? operation? safeCall? at h
  split at h
  · exact nomatch h
  · split at h
    · split at h
      · next op lhs rhs slots hop hslots =>
        obtain rfl := Option.some.inj h
        have hnodup := t.nodup_treeSlots
        rw [hslots, List.nodup_cons, List.mem_cons, not_or] at hnodup
        simpa [Separate, operandSlot?, clauseSlots] using hnodup.1.1
      · exact nomatch h
    · split at h
      · obtain ⟨receiver, -, rfl⟩ := Option.map_eq_some_iff.1 (Option.ite_none_right_eq_some.1 h).2
        simp [Separate, clauseSlots]
      · exact nomatch h

theorem separate_ofTree (parent : Option Construct) (t : Tree) (slot : Nat) :
    (ofTree parent t slot).Separate := by
  have hkind : (ofKind t.kind).Separate := by
    refine ofKind_of_kindTable (P := Separate) ?_ ?_ t.kind
    · decide
    · decide
  have hplaced : (inParent parent t.kind slot).Separate := by
    unfold inParent
    split
    · split
      · decide
      · exact hkind
    · split
      · decide
      · exact hkind
    · exact hkind
  rw [ofTree]
  cases hrefined : (inParent parent t.kind slot).refined? t with
  | none => exact hplaced
  | some c => exact separate_refined? hrefined

theorem kind_ne_when_of_operandSlot? {parent : Option Construct} {t : Tree} {slot k : Nat}
    (h : (ofTree parent t slot).operandSlot? = some k) : t.kind ≠ "when" := by
  intro hkind
  have hrefined : ∀ c : Construct, c.refined? t = none := by
    intro c
    simp [refined?, hkind]
  have hplaced : (inParent parent t.kind slot).operandSlot? = none := by
    rw [hkind]
    unfold inParent
    split
    · split <;> rfl
    · split <;> rfl
    · rfl
  simp [ofTree, hrefined, hplaced] at h

theorem exists_branchKind? {c : Construct} {k : Nat} (h : c.operandSlot? = some k) :
    ∃ kind, c.branchKind? = some kind := by
  cases c with
  | conditional | shortCircuit | safeCall | loop => exact ⟨_, rfl⟩
  | _ => exact nomatch h

end Construct

namespace Arena

variable {a a' : Arena} {r : Recording} {k : Nat} {n n' : Node} {s : Settings} {span : Span}

/-- The count that is taken off the evaluations of a construct to get the hits of a way that is not
counted by itself, if there is such a way. -/
def Deducted (a : Arena) (r : Recording) (n : Node) (seen : Nat) : Prop :=
  match n.construct with
  | .conditional x y => (a.locatedAt? n x = none ∨ a.locatedAt? n y = none) ∧
      a.Seen r ((a.locatedAt? n x).or (a.locatedAt? n y)) seen
  | .shortCircuit _ _ y => a.Seen r (a.locatedAt? n y) seen
  | .safeCall _ => Called r n.selector? seen
  | .loop .before _ => a.locatedAt? n 1 = none ∧ a.runs r n = .ok seen
  | _ => False

/-- Two nodes of one construct with the same clauses. The operand in control of the second one has no
counts of its own. -/
structure Unwatched (a a' : Arena) (r : Recording) (k : Nat) (n n' : Node) : Prop where
  slot : n.construct.operandSlot? = some k
  construct : n'.construct = n.construct
  site : n'.site = n.site
  clauses : ∀ j ∈ n.construct.clauseSlots,
    Option.Rel (Mirrors a a') (a.locatedAt? n j) (a'.locatedAt? n' j)
  operand : ∃ m, a'.locatedAt? n' k = some m ∧ recordedHits r m = .ok none

structure WaysBy (a a' : Arena) (s : Settings) (r : Recording) (k : Nat) (n n' : Node) (span : Span)
    (ways : Nat → List Path) : Prop where
  first : ∀ total, a.evaluations r n (a.locatedAt? n k) = .ok total →
    a.paths s r n span = .ok (ways total)
  second : ∀ runs, a.runs r n = .ok runs → a'.paths s r n' span = .ok (ways runs)
  labels : ∀ u v, (ways u).map (·.label) = (ways v).map (·.label)
  spans : ∀ u v, (ways u).map (·.span) = (ways v).map (·.span)
  eq_iff : ∀ u v, ways u = ways v ↔ ∀ seen, a.Deducted r n seen → u - seen = v - seen

/-- The ways of a construct that is taken to have been evaluated `runs` times, and not `total` times.
They differ in nothing but their hits, and in these only if what is left for a way is another count. -/
structure Reweighed (a : Arena) (r : Recording) (n : Node) (total runs : Nat) (w w' : Ways) :
    Prop where
  kind : w'.kind = w.kind
  span : w'.span = w.span
  labels : w'.paths.map (·.label) = w.paths.map (·.label)
  spans : w'.paths.map (·.span) = w.paths.map (·.span)
  eq_iff : w' = w ↔ ∀ seen, a.Deducted r n seen → runs - seen = total - seen

theorem seen_iff {o : Option Node} {seen : Nat} {runs : Option Nat}
    (hruns : a.runsOf? r o = .ok runs) : a.Seen r o seen ↔ seen = runs.getD 0 := by
  constructor
  · intro h
    cases h with
    | absent =>
      obtain rfl := Except.ok.inj hruns
      rfl
    | clause hk =>
      obtain ⟨k, hk', rfl⟩ := runsOf?_some_eq_ok_iff.1 hruns
      exact Except.ok.inj (hk.symm.trans hk')
  · rintro rfl
    exact seen_of_runsOf? hruns

theorem called_iff {selector : Option Span} {seen calls : Nat} (h : Called r selector calls) :
    Called r selector seen ↔ seen = calls := by
  constructor
  · intro hseen
    cases h with
    | absent =>
      cases hseen
      rfl
    | selector hhits =>
      cases hseen with
      | selector hhits' => rw [Except.ok.inj (hhits'.symm.trans hhits)]
  · rintro rfl
    exact h

theorem runsOf?_or {o o' : Option Node} {runs runs' : Option Nat} (h : a.runsOf? r o = .ok runs)
    (h' : a.runsOf? r o' = .ok runs') : a.runsOf? r (o.or o') = .ok (runs.or runs') := by
  cases o with
  | none =>
    obtain rfl := Except.ok.inj h
    exact h'
  | some m =>
    obtain ⟨k, hk, rfl⟩ := runsOf?_some_eq_ok_iff.1 h
    exact h

theorem clauseHits_eq_iff (u v : Nat) (thenRuns elseRuns : Option Nat) :
    clauseHits u thenRuns elseRuns = clauseHits v thenRuns elseRuns ↔
      (thenRuns = none ∨ elseRuns = none →
        u - (thenRuns.or elseRuns).getD 0 = v - (thenRuns.or elseRuns).getD 0) := by
  cases thenRuns <;> cases elseRuns <;> simp [clauseHits]

theorem paths_of_iterated {negated : Bool} {entries iterations : Nat}
    (hc : n.construct = .loop .before negated) (hentries : a.runs r n = .ok entries)
    (hiterated : a.Iterated r n entries (a.locatedAt? n 1) iterations) :
    a.paths s r n span =
      .ok (loopPair s span (spanOr (a.locatedAt? n 1) span) entries iterations) := by
  simp only [Arena.paths, hc]
  exact loopPaths_eq_ok_iff.2 ⟨entries, iterations, hentries, hiterated, rfl⟩

theorem labels_loopPair (s : Settings) (span body : Span) (entries iterations : Nat) :
    (loopPair s span body entries iterations).map (·.label) =
      .body :: if s.includeSkip then [.skip] else [] := by
  cases hs : s.includeSkip <;> simp [loopPair, hs]

theorem spans_loopPair (s : Settings) (span body : Span) (entries iterations : Nat) :
    (loopPair s span body entries iterations).map (·.span) =
      body :: if s.includeSkip then [span] else [] := by
  cases hs : s.includeSkip <;> simp [loopPair, hs]

theorem loopPair_inj {body : Span} {entries u v : Nat} :
    loopPair s span body entries u = loopPair s span body entries v ↔ u = v := by
  constructor
  · intro h
    exact congrArg Path.hits (List.cons.inj h).1
  · rintro rfl
    rfl

section Reading

variable {N : Node → Prop} (hread : a.Reading r N fun _ => False) (hn : N n)

include hread hn

theorem Reading.runsAt?_ok (j : Nat) : ∃ runs, a.runsOf? r (a.locatedAt? n j) = .ok runs :=
  (hread.runsOf? (hread.locatedAt? hn j)).exists_ok

theorem Reading.called_ok : ∃ calls, Called r n.selector? calls := by
  cases hselector : n.selector? with
  | none => exact ⟨0, .absent⟩
  | some span =>
    obtain ⟨site, hsite, hmem⟩ := Option.bind_eq_some_iff.1 hselector
    have hspan : span ∈ site.spans := by simp [Site.spans, hmem]
    obtain ⟨hits, hhits⟩ := (hread.hits hn site hsite span hspan).exists_ok
    exact ⟨_, .selector hhits⟩

end Reading

namespace Unwatched

variable (h : a.Unwatched a' r k n n')

include h

theorem isExecutable : n.isExecutable = true := by
  have hslot := h.slot
  rw [Node.isExecutable]
  cases hc : n.construct <;> simp [hc, Construct.operandSlot?] at hslot <;> rfl

theorem runs : a'.runs r n' = a.runs r n := by
  have hexec : n'.isExecutable = true := by
    rw [Node.isExecutable, h.construct]
    exact h.isExecutable
  rw [runs_of_isExecutable hexec, runs_of_isExecutable h.isExecutable, recordedRuns, recordedRuns,
    recordedHits, recordedHits, Node.extent?, Node.extent?, h.site]

theorem evaluations : a'.evaluations r n' (a'.locatedAt? n' k) = a.runs r n := by
  obtain ⟨m, hm, hhits⟩ := h.operand
  rw [hm, Arena.evaluations, hhits, ← h.runs]
  rfl

theorem runsOf? {j : Nat} (hj : j ∈ n.construct.clauseSlots) :
    a'.runsOf? r (a'.locatedAt? n' j) = a.runsOf? r (a.locatedAt? n j) :=
  (pairing_mirrors a a' r).runsOf? (h.clauses j hj)

theorem spanOr {j : Nat} (hj : j ∈ n.construct.clauseSlots) (span : Span) :
    spanOr (a'.locatedAt? n' j) span = Arena.spanOr (a.locatedAt? n j) span :=
  (pairing_mirrors a a' r).spanOr (h.clauses j hj) span

theorem slot_eq {c : Construct} {j : Nat} (hc : n.construct = c)
    (hj : c.operandSlot? = some j) : k = j := by
  have hslot := h.slot
  rw [hc, hj] at hslot
  exact (Option.some.inj hslot).symm

section Reading

variable {N : Node → Prop} (hread : a.Reading r N fun _ => False) (hn : N n)

include hread hn

theorem conditional {x y : Nat} (hc : n.construct = .conditional x y) :
    ∃ ways, a.WaysBy a' s r k n n' span ways := by
  obtain ⟨thenRuns, hthen⟩ := hread.runsAt?_ok hn x
  obtain ⟨elseRuns, helse⟩ := hread.runsAt?_ok hn y
  have hx : x ∈ n.construct.clauseSlots := by simp [hc, Construct.clauseSlots]
  have hy : y ∈ n.construct.clauseSlots := by simp [hc, Construct.clauseSlots]
  have hevaluations := h.evaluations
  obtain rfl := h.slot_eq hc rfl
  refine ⟨fun total => clausePair span (a.locatedAt? n x) (a.locatedAt? n y)
    (clauseHits total thenRuns elseRuns), ?_, ?_, fun _ _ => rfl, fun _ _ => rfl, ?_⟩
  · intro total htotal
    simp only [Arena.paths, hc]
    exact conditionalPaths_eq_ok_iff.2 ⟨total, thenRuns, elseRuns, htotal, hthen, helse, rfl⟩
  · intro runs hruns
    simp only [Arena.paths, h.construct, hc]
    refine conditionalPaths_eq_ok_iff.2 ⟨runs, thenRuns, elseRuns, hevaluations.trans hruns,
      (h.runsOf? hx).trans hthen, (h.runsOf? hy).trans helse, ?_⟩
    rw [clausePair, h.spanOr hx, h.spanOr hy, clausePair]
  · intro u v
    have hpair : ∀ hits hits' : Nat × Nat, clausePair span (a.locatedAt? n x) (a.locatedAt? n y)
        hits = clausePair span (a.locatedAt? n x) (a.locatedAt? n y) hits' ↔ hits = hits' := by
      intro hits hits'
      simp [clausePair, Path.pair_inj, Prod.ext_iff]
    have hnone : ∀ {o : Option Node} {runs : Option Nat}, a.runsOf? r o = .ok runs →
        (o = none ↔ runs = none) := by
      intro o runs hruns
      rw [← Option.not_isSome_iff_eq_none, ← isSome_runs hruns, Option.not_isSome_iff_eq_none]
    simp only [hpair, clauseHits_eq_iff, Deducted, hc, hnone hthen, hnone helse,
      seen_iff (runsOf?_or hthen helse)]
    simp

theorem shortCircuit {op : Connective} {x y : Nat} (hc : n.construct = .shortCircuit op x y) :
    ∃ ways, a.WaysBy a' s r k n n' span ways := by
  obtain ⟨runs, hruns⟩ := hread.runsAt?_ok hn y
  have hy : y ∈ n.construct.clauseSlots := by simp [hc, Construct.clauseSlots]
  have hevaluations := h.evaluations
  obtain rfl := h.slot_eq hc rfl
  refine ⟨fun total => connectivePair op span (Arena.spanOr (a.locatedAt? n y) span) total
    (runs.getD 0), ?_, ?_, fun _ _ => ?_, fun _ _ => ?_, ?_⟩
  · intro total htotal
    simp only [Arena.paths, hc]
    exact shortCircuitPaths_eq_ok_iff.2 ⟨total, runs, htotal, hruns, rfl⟩
  · intro total htotal
    simp only [Arena.paths, h.construct, hc]
    refine shortCircuitPaths_eq_ok_iff.2 ⟨total, runs, hevaluations.trans htotal,
      (h.runsOf? hy).trans hruns, ?_⟩
    rw [h.spanOr hy]
  · cases op <;> rfl
  · cases op <;> rfl
  · intro u v
    simp only [Deducted, hc, seen_iff hruns, forall_eq]
    cases op <;> simp [connectivePair]

theorem safeCall {x : Nat} (hc : n.construct = .safeCall x) :
    ∃ ways, a.WaysBy a' s r k n n' span ways := by
  obtain ⟨calls, hcalls⟩ := hread.called_ok hn
  have hselector : n'.selector? = n.selector? := by rw [Node.selector?, h.site, Node.selector?]
  have hevaluations := h.evaluations
  obtain rfl := h.slot_eq hc rfl
  refine ⟨fun total => [⟨.thenPath, span, calls⟩, ⟨.elsePath, span, total - calls⟩], ?_, ?_,
    fun _ _ => rfl, fun _ _ => rfl, ?_⟩
  · intro total htotal
    simp only [Arena.paths, hc]
    exact safeCallPaths_eq_ok_iff.2 ⟨total, calls, htotal, hcalls, rfl⟩
  · intro total htotal
    simp only [Arena.paths, h.construct, hc]
    refine safeCallPaths_eq_ok_iff.2 ⟨total, calls, hevaluations.trans htotal, ?_, rfl⟩
    rwa [hselector]
  · intro u v
    simp [Deducted, hc, called_iff hcalls]

-- Every evaluation beyond the entries counts as an iteration of an empty body.
theorem emptyLoop {negated : Bool} (hc : n.construct = .loop .before negated)
    (hbody : a.locatedAt? n 1 = none) : ∃ ways, a.WaysBy a' s r k n n' span ways := by
  obtain ⟨entries, hentries⟩ := hread.runs_ok hn
  have hslot : 1 ∈ n.construct.clauseSlots := by simp [hc, Construct.clauseSlots]
  have hbody' : a'.locatedAt? n' 1 = none := by
    have hclause := h.clauses 1 hslot
    rw [hbody] at hclause
    generalize a'.locatedAt? n' 1 = body' at hclause
    cases hclause with
    | none => rfl
  have hevaluations := h.evaluations
  obtain rfl := h.slot_eq hc rfl
  refine ⟨fun total => loopPair s span (Arena.spanOr (a.locatedAt? n 1) span) entries
    (total - entries), ?_, ?_, fun _ _ => ?_, fun _ _ => ?_, fun u v => ?_⟩
  · intro total htotal
    refine paths_of_iterated hc hentries ?_
    rw [hbody]
    exact .empty htotal
  · intro runs hruns
    rw [← h.spanOr hslot span]
    refine paths_of_iterated (h.construct.trans hc) (h.runs.trans hentries) ?_
    rw [hbody']
    exact .empty (hevaluations.trans hruns)
  · rw [labels_loopPair, labels_loopPair]
  · rw [spans_loopPair, spans_loopPair]
  · rw [loopPair_inj]
    simp [Deducted, hc, hbody, hentries]

theorem loopWithBody {negated : Bool} {m : Node} (hc : n.construct = .loop .before negated)
    (hbody : a.locatedAt? n 1 = some m) : ∃ ways, a.WaysBy a' s r k n n' span ways := by
  obtain ⟨entries, hentries⟩ := hread.runs_ok hn
  obtain ⟨iterations, hiterations⟩ := hread.runs_ok (hread.locatedAt? hn 1 m hbody)
  have hslot : 1 ∈ n.construct.clauseSlots := by simp [hc, Construct.clauseSlots]
  refine ⟨fun _ => loopPair s span (Arena.spanOr (a.locatedAt? n 1) span) entries iterations,
    fun _ _ => ?_, fun _ _ => ?_, fun _ _ => rfl, fun _ _ => rfl, fun u v => ?_⟩
  · refine paths_of_iterated hc hentries ?_
    rw [hbody]
    exact .body hiterations
  · rw [← h.spanOr hslot span]
    refine paths_of_iterated (h.construct.trans hc) (h.runs.trans hentries) ?_
    have hclause := h.clauses 1 hslot
    rw [hbody] at hclause
    generalize a'.locatedAt? n' 1 = body' at hclause
    cases hclause with
    | some hm => exact .body (((pairing_mirrors a a' r).runs hm).trans hiterations)
  · simp [Deducted, hc, hbody]

theorem loop {negated : Bool} (hc : n.construct = .loop .before negated) :
    ∃ ways, a.WaysBy a' s r k n n' span ways := by
  cases hbody : a.locatedAt? n 1 with
  | none => exact h.emptyLoop hread hn hc hbody
  | some m => exact h.loopWithBody hread hn hc hbody

theorem loopAfter {negated : Bool} (hc : n.construct = .loop .after negated) :
    ∃ ways, a.WaysBy a' s r k n n' span ways := by
  obtain ⟨ps, hps⟩ := hread.paths_ok s hn span
  refine ⟨fun _ => ps, fun _ _ => hps, ?_, fun _ _ => rfl, fun _ _ => rfl, ?_⟩
  · intro _ _
    have hslot : 1 ∈ n.construct.clauseSlots := by simp [hc, Construct.clauseSlots]
    simp only [Arena.paths, h.construct, hc] at hps ⊢
    have hloop := (pairing_mirrors a a' r).loopAfterPaths h.runs (h.clauses 1 hslot) span
    rw [hps] at hloop
    have hid : Path.relocate id = id := rfl
    rw [hid, List.map_id_fun] at hloop
    exact hloop
  · intro u v
    simp [Deducted, hc]

theorem waysBy (s : Settings) (span : Span) : ∃ ways, a.WaysBy a' s r k n n' span ways := by
  have hslot := h.slot
  cases hc : n.construct with
  | conditional x y => exact h.conditional hread hn hc
  | shortCircuit op x y => exact h.shortCircuit hread hn hc
  | safeCall x => exact h.safeCall hread hn hc
  | loop test negated =>
    cases test with
    | before => exact h.loop hread hn hc
    | after => exact h.loopAfter hread hn hc
  | _ => simp [hc, Construct.operandSlot?] at hslot

/-- Both nodes are reported, each with its own number of evaluations. -/
theorem exists_reports (hlocated : n.isLocated = true) (s : Settings) (l l' : Ledger) : ∃ total runs w w', a.Evaluated r n (a.locatedAt? n k) total ∧
      a'.Evaluated r n' (a'.locatedAt? n' k) runs ∧ a.runs r n = .ok runs ∧
      l.Reports s a r n w ∧ l'.Reports s a' r n' w' ∧ a.Reweighed r n total runs w w' := by
  obtain ⟨total, htotal⟩ : ∃ total, a.evaluations r n (a.locatedAt? n k) = .ok total :=
    (hread.evaluations hn (hread.locatedAt? hn k)).exists_ok
  obtain ⟨runs, hruns⟩ := hread.runs_ok hn
  obtain ⟨site, hsite⟩ := Option.isSome_iff_exists.1 hlocated
  have hspan : n.span? = some site.whole := congrArg (Option.map _) hsite
  have hspan' : n'.span? = some site.whole := by rw [Node.span?, h.site, ← hspan, Node.span?]
  obtain ⟨kind, hkind⟩ := Construct.exists_branchKind? h.slot
  have hkind' : n'.construct.branchKind? = some kind := by rw [h.construct, hkind]
  obtain ⟨ways, hways⟩ := h.waysBy hread hn s site.whole
  have hreports : l.Reports s a r n ⟨kind, site.whole, ways total⟩ :=
    (Ledger.reports_iff hkind hspan _).2 ⟨_, hways.first total htotal, rfl⟩
  have hreports' : l'.Reports s a' r n' ⟨kind, site.whole, ways runs⟩ :=
    (Ledger.reports_iff hkind' hspan' _).2 ⟨_, hways.second runs hruns, rfl⟩
  refine ⟨total, runs, _, _, evaluations_eq_ok_iff.1 htotal,
    evaluations_eq_ok_iff.1 (h.evaluations.trans hruns), hruns, hreports, hreports', rfl, rfl,
    hways.labels runs total, hways.spans runs total, ?_⟩
  rw [← hways.eq_iff, Ways.mk.injEq]
  simp only [true_and]

end Reading

end Unwatched

end Arena

end SyntaxCoverage
