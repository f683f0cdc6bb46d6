import SyntaxCoverage.Analysis.Entries
import SyntaxCoverage.Analysis.Lines
import SyntaxCoverage.Proofs.Pairing

/-!
What an analysis can fail with. It asks the recording for the spans of nodes and for nothing else,
so an error that comes out of it is one of the errors of the recording there.
-/

namespace SyntaxCoverage

def FailsWith {ε α : Type} (P : ε → Prop) : Except ε α → Prop
  | .error e => P e
  | .ok _ => True

namespace FailsWith

variable {ε α β : Type} {P : ε → Prop}

theorem bind {x : Except ε α} {k : α → Except ε β} (h : FailsWith P x)
    (hk : ∀ v, FailsWith P (k v)) : FailsWith P (x >>= k) := by
  cases x with
  | error e => exact h
  | ok v => exact hk v

theorem imp {Q : ε → Prop} {x : Except ε α} (h : FailsWith P x) (hPQ : ∀ e, P e → Q e) :
    FailsWith Q x := by
  cases x with
  | error e => exact hPQ e h
  | ok v => trivial

theorem map {x : Except ε α} (f : α → β) (h : FailsWith P x) : FailsWith P (x.map f) := by
  cases x with
  | error e => exact h
  | ok v => trivial

theorem mapError {ε' : Type} {Q : ε' → Prop} {x : Except ε α} {f : ε → ε'} (h : FailsWith P x)
    (hf : ∀ e, P e → Q (f e)) : FailsWith Q (x.mapError f) := by
  cases x with
  | error e => exact hf e h
  | ok v => trivial

theorem of_eq_error {x : Except ε α} (h : ∀ e, x = .error e → P e) : FailsWith P x := by
  cases x with
  | error e => exact h e rfl
  | ok v => trivial

theorem exists_ok {x : Except ε α} (h : FailsWith (fun _ => False) x) : ∃ v, x = .ok v := by
  cases x with
  | error e => exact h.elim
  | ok v => exact ⟨v, rfl⟩

end FailsWith

namespace Arena

/-- The nodes of `N` have all their children in `N`, and what the recording fails with at their
spans has `P`. -/
structure Reading (a : Arena) (r : Recording) (N : Node → Prop) (P : RecordingError → Prop) :
    Prop where
  children : ∀ {n}, N n → ∀ m ∈ a.children n, N m
  hits : ∀ {n}, N n → ∀ site ∈ n.site, ∀ span ∈ site.spans, FailsWith P (r.hits span.extent)
  completions : ∀ {n}, N n → ∀ site ∈ n.site, FailsWith P (r.completions site.extent)

namespace Reading

variable {a : Arena} {r : Recording} {N : Node → Prop} {P : RecordingError → Prop}
  (h : Reading a r N P) {n : Node} {o : Option Node}

include h

theorem imp {Q : RecordingError → Prop} (hPQ : ∀ e, P e → Q e) : a.Reading r N Q where
  children := h.children
  hits hn site hsite span hspan := (h.hits hn site hsite span hspan).imp hPQ
  completions hn site hsite := (h.completions hn site hsite).imp hPQ

theorem childAt? (hn : N n) (slot : Nat) : ∀ m ∈ a.childAt? n slot, N m := by
  intro m hm
  obtain ⟨item, hitem, hm⟩ := Option.bind_eq_some_iff.1 hm
  exact h.children hn m (List.mem_filterMap.2 ⟨item, List.mem_of_getElem? hitem, hm⟩)

theorem locatedAt? (hn : N n) (slot : Nat) : ∀ m ∈ a.locatedAt? n slot, N m :=
  fun m hm => h.childAt? hn slot m ((Option.mem_filter_iff.1 hm).1)

theorem locatedChildren (hn : N n) : ∀ m ∈ a.locatedChildren n, N m :=
  fun m hm => h.children hn m (List.mem_of_mem_filter hm)

theorem recordedHits (hn : N n) : FailsWith P (recordedHits r n) := by
  have hhits := h.hits hn
  unfold Arena.recordedHits Node.extent?
  cases hsite : n.site with
  | none => trivial
  | some site => exact hhits site hsite site.whole (List.mem_cons_self ..)

theorem recordedCompletions (hn : N n) : FailsWith P (recordedCompletions r n) := by
  have hcompletions := h.completions hn
  unfold Arena.recordedCompletions Node.extent?
  cases hsite : n.site with
  | none => trivial
  | some site => exact hcompletions site hsite

theorem recordedRuns (hn : N n) : FailsWith P (recordedRuns r n) :=
  (h.recordedHits hn).map _

theorem descend {pick : List Node → Option Node} {count : Node → Except RecordingError Nat}
    (hpick : ∀ ns, ∀ m ∈ pick ns, m ∈ ns) (hcount : ∀ {n}, N n → FailsWith P (count n))
    (depth : Nat) (hn : N n) : FailsWith P (a.descend pick count depth n) := by
  induction depth generalizing n with
  | zero => exact hcount hn
  | succ depth ih =>
    rw [Arena.descend]
    split
    · trivial
    · split
      · next m hm => exact ih (h.locatedChildren hn m (hpick _ m hm))
      · exact hcount hn
    · exact hcount hn

theorem runs (hn : N n) : FailsWith P (a.runs r n) := by
  rw [Arena.runs, runsWithin_eq_descend]
  exact h.descend (fun _ _ => List.mem_of_mem_head?) h.recordedRuns _ hn

theorem completedRuns (hn : N n) : FailsWith P (a.completedRuns r n) := by
  unfold Arena.completedRuns
  refine (h.runs hn).bind fun runs => (h.recordedCompletions hn).bind fun completions => ?_
  cases completions <;> trivial

theorem fullRuns (hn : N n) : FailsWith P (a.fullRuns r n) := by
  rw [Arena.fullRuns, fullRunsWithin_eq_descend]
  exact h.descend (fun _ _ => List.mem_of_getLast?) h.completedRuns _ hn

theorem runsOf? (ho : ∀ m ∈ o, N m) : FailsWith P (a.runsOf? r o) := by
  cases o with
  | none => trivial
  | some m => exact (h.runs (ho m rfl)).map some

theorem evaluations (hn : N n) (ho : ∀ m ∈ o, N m) : FailsWith P (a.evaluations r n o) := by
  cases o with
  | none => exact h.runs hn
  | some m =>
    refine (h.recordedHits (ho m rfl)).bind fun hits => ?_
    cases hits with
    | none => exact h.runs hn
    | some _ => exact h.fullRuns (ho m rfl)

variable (span : Span)

theorem conditionalPaths (hn : N n) (x y : Nat) :
    FailsWith P (a.conditionalPaths r n span x y) := by
  refine (h.evaluations hn (h.locatedAt? hn 0)).bind fun total => ?_
  refine (h.runsOf? (h.locatedAt? hn x)).bind fun thenRuns => ?_
  exact (h.runsOf? (h.locatedAt? hn y)).bind fun elseRuns => trivial

theorem shortCircuitPaths (hn : N n) (op : Connective) (x y : Nat) :
    FailsWith P (a.shortCircuitPaths r n span op x y) := by
  refine (h.evaluations hn (h.locatedAt? hn x)).bind fun total => ?_
  refine (h.runsOf? (h.locatedAt? hn y)).bind fun rightRuns => ?_
  cases op <;> trivial

theorem safeCallPaths (hn : N n) (x : Nat) : FailsWith P (a.safeCallPaths r n span x) := by
  have hhits := h.hits hn
  refine (h.evaluations hn (h.locatedAt? hn x)).bind fun total => ?_
  cases hselector : n.selector? with
  | none => trivial
  | some selector =>
    obtain ⟨site, hsite, hmem⟩ := Option.bind_eq_some_iff.1 hselector
    have hspan : selector ∈ site.spans := by simp [Site.spans, hmem]
    exact ((hhits site hsite selector hspan).map _).bind fun calls => trivial

theorem loopPaths (hn : N n) (s : Settings) : FailsWith P (a.loopPaths s r n span) := by
  have hbody := h.locatedAt? hn 1
  refine (h.runs hn).bind fun entries => ?_
  simp only
  cases hb : a.locatedAt? n 1 with
  | none =>
    exact (h.evaluations hn (h.locatedAt? hn 0)).bind fun tests => trivial
  | some body => exact (h.runs (hbody body hb)).bind fun iterations => trivial

theorem loopAfterPaths (hn : N n) : FailsWith P (a.loopAfterPaths r n span) := by
  have hbody := h.locatedAt? hn 1
  unfold Arena.loopAfterPaths
  simp only
  cases hb : a.locatedAt? n 1 with
  | none => exact (h.runs hn).bind fun iterations => trivial
  | some body =>
    simp only
    split
    · refine (h.recordedHits (hbody body hb)).bind fun hits => ?_
      cases hits with
      | none => exact (h.runs hn).bind fun iterations => trivial
      | some _ => trivial
    · exact (h.runs (hbody body hb)).bind fun iterations => trivial

theorem lastClause? (hn : N n) : ∀ m ∈ a.lastClause? n, N m := by
  unfold Arena.lastClause?
  split
  · exact h.locatedAt? hn _
  · simp

theorem elseBody? (hn : N n) : ∀ m ∈ a.elseBody? n, N m :=
  fun m hm => h.lastClause? hn m ((Option.mem_filter_iff.1 hm).1)

theorem reach (hn : N n) : FailsWith P (a.reach r n) := by
  refine h.runs ?_
  cases htest : a.locatedAt? n 0 with
  | none => exact hn
  | some test => exact h.locatedAt? hn 0 test htest

theorem reachAfter {next : Option Node} (hnext : ∀ m ∈ next, N m) (ho : ∀ m ∈ o, N m) :
    FailsWith P (a.reachAfter r next o) := by
  cases next with
  | none => exact h.runsOf? ho
  | some m => exact (h.reach (hnext m rfl)).map some

theorem clausePath {next : Option Node} (ho : ∀ m ∈ o, N m) (index : Nat) (hn : N n)
    (hnext : ∀ m ∈ next, N m) : FailsWith P (a.clausePath r span o index n next) := by
  have hlast := h.lastClause? hn
  unfold Arena.clausePath
  cases hbody : a.lastClause? n with
  | some body => exact (h.runs (hlast body hbody)).bind fun runs => trivial
  | none =>
    refine (h.reachAfter hnext ho).bind fun after => ?_
    cases after with
    | none => trivial
    | some _ => exact (h.reach hn).bind fun runs => trivial

theorem clausePaths {clauses : List Node} (ho : ∀ m ∈ o, N m) (index : Nat)
    (hclauses : ∀ m ∈ clauses, N m) : FailsWith P (a.clausePaths r span o index clauses) := by
  induction clauses generalizing index with
  | nil => trivial
  | cons clause clauses ih =>
    have hnext : ∀ m ∈ clauses.head?, N m :=
      fun m hm => hclauses m (List.mem_cons_of_mem _ (List.mem_of_mem_head? hm))
    refine (h.clausePath span ho index (hclauses clause (List.mem_cons_self ..)) hnext).bind
      fun path => ?_
    exact (ih (index + 1) fun m hm => hclauses m (List.mem_cons_of_mem _ hm)).bind
      fun paths => trivial

theorem casePaths (hn : N n) : FailsWith P (a.casePaths r n span) := by
  have hbody := h.elseBody? hn
  have hclauses : ∀ m ∈ a.whenClauses n, N m :=
    fun m hm => h.children hn m (List.mem_of_mem_filter hm)
  refine (h.clausePaths span hbody 0 hclauses).bind fun paths => ?_
  cases helse : a.elseBody? n with
  | none => trivial
  | some body => exact (h.runs (hbody body helse)).bind fun runs => trivial

theorem paths (hn : N n) (s : Settings) : FailsWith P (a.paths s r n span) := by
  unfold Arena.paths
  split
  · exact h.conditionalPaths span hn _ _
  · exact h.casePaths span hn
  · exact h.shortCircuitPaths span hn _ _ _
  · exact h.safeCallPaths span hn _
  · exact h.loopPaths span hn s
  · exact h.loopAfterPaths span hn
  all_goals trivial

end Reading

end Arena

end SyntaxCoverage
