import Mathlib.Data.List.Forall2
import SyntaxCoverage.Analysis.Entries
import SyntaxCoverage.Analysis.Lines
import SyntaxCoverage.Proofs.Descent

/-!
Two arenas side by side. Where the nodes of one are paired off with nodes of the other, and paired
nodes show the analysis the same up to a map of spans, paired nodes run equally often and have the
same ways through them.
-/

namespace SyntaxCoverage

def Site.relocate (f : Span → Span) (s : Site) : Site := ⟨f s.whole, s.selector.map f⟩

theorem Site.relocate_id (s : Site) : s.relocate id = s := by
  rw [relocate, Option.map_id_fun]
  rfl

def Site.spans (s : Site) : List Span := s.whole :: s.selector.toList

def Path.relocate (f : Span → Span) (p : Path) : Path := { p with span := f p.span }

/-- One recording knows of a span what the other knows of its image. -/
structure Recording.AgreesAt (r r' : Recording) (f : Span → Span) (span : Span) : Prop where
  hits : r'.hits (f span).extent = r.hits span.extent
  completions : r'.completions (f span).extent = r.completions span.extent

theorem map_bind_except {ε α β γ : Type} (f : β → γ) (x : Except ε α) (g : α → Except ε β) :
    (x >>= g).map f = x >>= fun v => (g v).map f := by
  cases x <;> rfl

theorem rel_head? {α β : Type} {R : α → β → Prop} {as : List α} {bs : List β}
    (h : List.Forall₂ R as bs) : Option.Rel R as.head? bs.head? := by
  cases h with
  | nil => exact .none
  | cons hab _ => exact .some hab

theorem rel_getLast? {α β : Type} {R : α → β → Prop} {as : List α} {bs : List β}
    (h : List.Forall₂ R as bs) : Option.Rel R as.getLast? bs.getLast? := by
  rw [← List.head?_reverse, ← List.head?_reverse]
  exact rel_head? (List.rel_reverse h)

theorem rel_getD {α β : Type} {R : α → β → Prop} {o : Option α} {o' : Option β} {x : α} {y : β}
    (h : Option.Rel R o o') (hxy : R x y) : R (o.getD x) (o'.getD y) := by
  cases h with
  | none => exact hxy
  | some hab => exact hab

namespace Arena

/-- The analysis finds paired nodes at corresponding places below the two. -/
inductive Alike (a a' : Arena) (R : Node → Node → Prop) (n n' : Node) : Prop
  | generic (hc : n.construct = .generic) (hc' : n'.construct = .generic)
  | marker (hc : n.construct = .marker) (hc' : n'.construct = .marker)
  | sequence (hc : n.construct = .sequence) (hc' : n'.construct = .sequence)
      (parts : List.Forall₂ R (a.locatedChildren n) (a'.locatedChildren n'))
  | conditional {x y x' y' : Nat} (hc : n.construct = .conditional x y)
      (hc' : n'.construct = .conditional x' y')
      (test : Option.Rel R (a.locatedAt? n 0) (a'.locatedAt? n' 0))
      (thenClause : Option.Rel R (a.locatedAt? n x) (a'.locatedAt? n' x'))
      (elseClause : Option.Rel R (a.locatedAt? n y) (a'.locatedAt? n' y'))
  | caseOf (hc : n.construct = .caseOf) (hc' : n'.construct = .caseOf)
      (clauses : List.Forall₂ R (a.whenClauses n) (a'.whenClauses n'))
      (elseBody : Option.Rel R (a.elseBody? n) (a'.elseBody? n'))
  | whenClause (hc : n.construct = .whenClause) (hc' : n'.construct = .whenClause)
      (test : Option.Rel R (a.locatedAt? n 0) (a'.locatedAt? n' 0))
      (body : Option.Rel R (a.lastClause? n) (a'.lastClause? n'))
  | shortCircuit {op : Connective} {x y x' y' : Nat} (hc : n.construct = .shortCircuit op x y)
      (hc' : n'.construct = .shortCircuit op x' y')
      (left : Option.Rel R (a.locatedAt? n x) (a'.locatedAt? n' x'))
      (right : Option.Rel R (a.locatedAt? n y) (a'.locatedAt? n' y'))
  | safeCall {x x' : Nat} (hc : n.construct = .safeCall x) (hc' : n'.construct = .safeCall x')
      (receiver : Option.Rel R (a.locatedAt? n x) (a'.locatedAt? n' x'))
  | loop {test : LoopTest} {negated negated' : Bool} (hc : n.construct = .loop test negated)
      (hc' : n'.construct = .loop test negated')
      (condition : Option.Rel R (a.locatedAt? n 0) (a'.locatedAt? n' 0))
      (body : Option.Rel R (a.locatedAt? n 1) (a'.locatedAt? n' 1))

/-- The size of the other arena is as good a bound for the counts of a node. -/
structure SameDepth (a a' : Arena) (r' : Recording) (n' : Node) : Prop where
  runs : a'.runs r' n' = a'.runsWithin r' (a.size + 1) n'
  fullRuns : a'.fullRuns r' n' = a'.fullRunsWithin r' (a.size + 1) n'

theorem sameDepth_of_size {a a' : Arena} (hsize : a'.size = a.size) (r' : Recording) (n' : Node) :
    SameDepth a a' r' n' := by
  constructor
  · rw [← hsize]
    rfl
  · rw [← hsize]
    rfl

structure Pairing (a a' : Arena) (r r' : Recording) (f : Span → Span)
    (R : Node → Node → Prop) : Prop where
  depth : ∀ {n n'}, R n n' → SameDepth a a' r' n'
  site : ∀ {n n'}, R n n' → n'.site = n.site.map (Site.relocate f)
  agrees : ∀ {n n'}, R n n' → ∀ site ∈ n.site, ∀ span ∈ site.spans, r.AgreesAt r' f span
  alike : ∀ {n n'}, R n n' → Alike a a' R n n'
  bare : ∀ {n n'}, R n n' →
    (a'.locatedChildren n').isEmpty = (a.locatedChildren n).isEmpty

namespace Pairing

variable {a a' : Arena} {r r' : Recording} {f : Span → Span} {R : Node → Node → Prop}
  (h : Pairing a a' r r' f R) {n n' : Node} {o o' : Option Node}

include h

theorem span? (hn : R n n') : n'.span? = n.span?.map f := by
  rw [Node.span?, Node.span?, h.site hn, Option.map_map, Option.map_map]
  rfl

theorem recordedHits (hn : R n n') : recordedHits r' n' = recordedHits r n := by
  have hagrees := h.agrees hn
  unfold Arena.recordedHits Node.extent?
  rw [h.site hn]
  cases hsite : n.site with
  | none => rfl
  | some site => exact (hagrees site hsite site.whole (List.mem_cons_self ..)).hits

theorem recordedCompletions (hn : R n n') :
    recordedCompletions r' n' = recordedCompletions r n := by
  have hagrees := h.agrees hn
  unfold Arena.recordedCompletions Node.extent?
  rw [h.site hn]
  cases hsite : n.site with
  | none => rfl
  | some site => exact (hagrees site hsite site.whole (List.mem_cons_self ..)).completions

theorem recordedRuns (hn : R n n') : recordedRuns r' n' = recordedRuns r n := by
  rw [Arena.recordedRuns, h.recordedHits hn, Arena.recordedRuns]

theorem descend {pick : List Node → Option Node} {count count' : Node → Except RecordingError Nat}
    (hpick : ∀ {ns ns'}, List.Forall₂ R ns ns' → Option.Rel R (pick ns) (pick ns'))
    (hcount : ∀ {n n'}, R n n' → count' n' = count n) (depth : Nat) (hn : R n n') :
    a'.descend pick count' depth n' = a.descend pick count depth n := by
  induction depth generalizing n n' with
  | zero => exact hcount hn
  | succ depth ih =>
    cases h.alike hn with
    | marker hc hc' => simp only [Arena.descend, hc, hc']
    | sequence hc hc' parts =>
      simp only [Arena.descend, hc, hc']
      have hpicked := hpick parts
      generalize pick (a.locatedChildren n) = o, pick (a'.locatedChildren n') = o' at hpicked ⊢
      cases hpicked with
      | none => exact hcount hn
      | some hm => exact ih hm
    | _ hc hc' => simp only [Arena.descend, hc, hc', hcount hn]

theorem runsWithin (depth : Nat) (hn : R n n') :
    a'.runsWithin r' depth n' = a.runsWithin r depth n := by
  rw [runsWithin_eq_descend, runsWithin_eq_descend]
  exact h.descend rel_head? h.recordedRuns depth hn

theorem runs (hn : R n n') : a'.runs r' n' = a.runs r n := by
  rw [(h.depth hn).runs, h.runsWithin _ hn, Arena.runs]

theorem completedRuns (hn : R n n') : a'.completedRuns r' n' = a.completedRuns r n := by
  rw [Arena.completedRuns, h.runs hn, h.recordedCompletions hn, Arena.completedRuns]

theorem fullRunsWithin (depth : Nat) (hn : R n n') :
    a'.fullRunsWithin r' depth n' = a.fullRunsWithin r depth n := by
  rw [fullRunsWithin_eq_descend, fullRunsWithin_eq_descend]
  exact h.descend rel_getLast? h.completedRuns depth hn

theorem fullRuns (hn : R n n') : a'.fullRuns r' n' = a.fullRuns r n := by
  rw [(h.depth hn).fullRuns, h.fullRunsWithin _ hn, Arena.fullRuns]

theorem runsOf? (ho : Option.Rel R o o') : a'.runsOf? r' o' = a.runsOf? r o := by
  cases ho with
  | none => rfl
  | some hn => rw [Arena.runsOf?, h.runs hn, Arena.runsOf?]

theorem evaluations_of_runs (hruns : a'.runs r' n' = a.runs r n) (ho : Option.Rel R o o') :
    a'.evaluations r' n' o' = a.evaluations r n o := by
  cases ho with
  | none => exact hruns
  | some hm =>
    simp only [Arena.evaluations, h.recordedHits hm, h.fullRuns hm, hruns]

theorem evaluations (hn : R n n') (ho : Option.Rel R o o') :
    a'.evaluations r' n' o' = a.evaluations r n o :=
  h.evaluations_of_runs (h.runs hn) ho

theorem spanOr (ho : Option.Rel R o o') (span : Span) :
    spanOr o' (f span) = f (spanOr o span) := by
  cases ho with
  | none => rfl
  | some hn =>
    unfold Arena.spanOr
    rw [Option.bind_some, Option.bind_some, h.span? hn]
    exact Option.getD_map f span _

theorem conditionalPaths {x y x' y' : Nat} (hn : R n n')
    (test : Option.Rel R (a.locatedAt? n 0) (a'.locatedAt? n' 0))
    (thenClause : Option.Rel R (a.locatedAt? n x) (a'.locatedAt? n' x'))
    (elseClause : Option.Rel R (a.locatedAt? n y) (a'.locatedAt? n' y')) (span : Span) :
    a'.conditionalPaths r' n' (f span) x' y' =
      (a.conditionalPaths r n span x y).map (List.map (Path.relocate f)) := by
  unfold Arena.conditionalPaths
  simp only [h.evaluations hn test, h.runsOf? thenClause, h.runsOf? elseClause,
    h.spanOr thenClause, h.spanOr elseClause, map_bind_except]
  rfl

theorem shortCircuitPaths {op : Connective} {x y x' y' : Nat} (hn : R n n')
    (left : Option.Rel R (a.locatedAt? n x) (a'.locatedAt? n' x'))
    (right : Option.Rel R (a.locatedAt? n y) (a'.locatedAt? n' y')) (span : Span) :
    a'.shortCircuitPaths r' n' (f span) op x' y' =
      (a.shortCircuitPaths r n span op x y).map (List.map (Path.relocate f)) := by
  unfold Arena.shortCircuitPaths
  simp only [h.evaluations hn left, h.runsOf? right, h.spanOr right, map_bind_except]
  cases op <;> rfl

theorem selector? (hn : R n n') :
    Option.Rel (fun span span' => r'.hits span'.extent = r.hits span.extent)
      n.selector? n'.selector? := by
  have hagrees := h.agrees hn
  unfold Node.selector?
  rw [h.site hn]
  cases hsite : n.site with
  | none => exact .none
  | some site =>
    show Option.Rel _ site.selector (site.selector.map f)
    cases hselector : site.selector with
    | none => exact .none
    | some selector =>
      have hmem : selector ∈ site.spans := by simp [Site.spans, hselector]
      exact .some (hagrees site hsite selector hmem).hits

theorem safeCallPaths {x x' : Nat} (hn : R n n')
    (receiver : Option.Rel R (a.locatedAt? n x) (a'.locatedAt? n' x')) (span : Span) :
    a'.safeCallPaths r' n' (f span) x' =
      (a.safeCallPaths r n span x).map (List.map (Path.relocate f)) := by
  unfold Arena.safeCallPaths
  simp only [h.evaluations hn receiver, map_bind_except]
  have hselector := h.selector? hn
  generalize n.selector? = o, n'.selector? = o' at hselector ⊢
  cases hselector with
  | none => rfl
  | some hhits =>
    simp only [hhits, map_bind_except]
    rfl

theorem loopPaths {s s' : Settings} (hs : s'.includeSkip = s.includeSkip) (hn : R n n')
    (condition : Option.Rel R (a.locatedAt? n 0) (a'.locatedAt? n' 0))
    (body : Option.Rel R (a.locatedAt? n 1) (a'.locatedAt? n' 1)) (span : Span) :
    a'.loopPaths s' r' n' (f span) =
      (a.loopPaths s r n span).map (List.map (Path.relocate f)) := by
  unfold Arena.loopPaths
  simp only [h.runs hn, h.evaluations hn condition, h.spanOr body, hs, map_bind_except]
  generalize a.locatedAt? n 1 = o, a'.locatedAt? n' 1 = o' at body ⊢
  cases body with
  | none =>
    simp only [map_bind_except]
    cases s.includeSkip <;> rfl
  | some hbody =>
    simp only [h.runs hbody, map_bind_except]
    cases s.includeSkip <;> rfl

theorem loopAfterPaths (hruns : a'.runs r' n' = a.runs r n)
    (body : Option.Rel R (a.locatedAt? n 1) (a'.locatedAt? n' 1)) (span : Span) :
    a'.loopAfterPaths r' n' (f span) =
      (a.loopAfterPaths r n span).map (List.map (Path.relocate f)) := by
  unfold Arena.loopAfterPaths
  simp only [hruns, h.spanOr body]
  generalize a.locatedAt? n 1 = o, a'.locatedAt? n' 1 = o' at body ⊢
  cases body with
  | none =>
    simp only [map_bind_except]
    rfl
  | some hbody =>
    simp only [h.runs hbody, h.recordedHits hbody, h.bare hbody]
    split
    · rw [map_bind_except]
      refine bind_congr fun hits => ?_
      cases hits with
      | none =>
        simp only [map_bind_except]
        rfl
      | some _ => rfl
    · simp only [map_bind_except]
      rfl

theorem reach (hn : R n n')
    (test : Option.Rel R (a.locatedAt? n 0) (a'.locatedAt? n' 0)) :
    a'.reach r' n' = a.reach r n :=
  h.runs (rel_getD test hn)

theorem whenClause (hn : R n n') (hw : isWhen n = true) :
    Option.Rel R (a.locatedAt? n 0) (a'.locatedAt? n' 0) ∧
      Option.Rel R (a.lastClause? n) (a'.lastClause? n') := by
  have hwhen : n.construct = .whenClause := by simpa [isWhen] using hw
  cases h.alike hn with
  | whenClause hc hc' test body => exact ⟨test, body⟩
  | _ hc => simp [hwhen] at hc

theorem reachAfter {next next' : Option Node} (hnext : Option.Rel R next next')
    (hw : ∀ m ∈ next, isWhen m = true) (ho : Option.Rel R o o') :
    a'.reachAfter r' next' o' = a.reachAfter r next o := by
  cases hnext with
  | none => exact h.runsOf? ho
  | some hm =>
    have htest := (h.whenClause hm (hw _ rfl)).1
    simp only [Arena.reachAfter, h.reach hm htest]

theorem clausePath (index : Nat) {next next' : Option Node} (hn : R n n')
    (hnw : isWhen n = true) (hnext : Option.Rel R next next') (hw : ∀ m ∈ next, isWhen m = true)
    (ho : Option.Rel R o o') (span : Span) :
    a'.clausePath r' (f span) o' index n' next' =
      (a.clausePath r span o index n next).map (Path.relocate f) := by
  obtain ⟨test, body⟩ := h.whenClause hn hnw
  have hspan := h.spanOr (.some hn) span
  unfold Arena.clausePath
  simp only [h.reachAfter hnext hw ho, h.reach hn test, hspan]
  generalize a.lastClause? n = last, a'.lastClause? n' = last' at body ⊢
  cases body with
  | none =>
    simp only [map_bind_except]
    refine bind_congr fun after => ?_
    cases after with
    | none => rfl
    | some _ =>
      simp only [map_bind_except]
      rfl
  | some hbody =>
    simp only [h.runs hbody, h.spanOr (.some hbody), map_bind_except]
    rfl

theorem clausePaths {clauses clauses' : List Node} (hcs : List.Forall₂ R clauses clauses')
    (hw : ∀ m ∈ clauses, isWhen m = true) (ho : Option.Rel R o o') (span : Span) (index : Nat) :
    a'.clausePaths r' (f span) o' index clauses' =
      (a.clausePaths r span o index clauses).map (List.map (Path.relocate f)) := by
  induction hcs generalizing index with
  | nil => rfl
  | @cons m m' ms ms' hm hms ih =>
    -- a clause looks no further than to the head of the clauses behind it
    have hnext : ∀ x ∈ ms.head?, isWhen x = true :=
      fun x hx => hw x (List.mem_cons_of_mem _ (List.mem_of_mem_head? hx))
    have hpath := h.clausePath index hm (hw m (List.mem_cons_self ..))
      (rel_head? hms) hnext ho span
    have hpaths := ih (fun x hx => hw x (List.mem_cons_of_mem _ hx)) (index + 1)
    simp only [Arena.clausePaths, hpath, hpaths]
    cases a.clausePath r span o index m ms.head? with
    | error e => rfl
    | ok path => cases a.clausePaths r span o (index + 1) ms <;> rfl

theorem casePaths (clauses : List.Forall₂ R (a.whenClauses n) (a'.whenClauses n'))
    (elseBody : Option.Rel R (a.elseBody? n) (a'.elseBody? n')) (span : Span) :
    a'.casePaths r' n' (f span) =
      (a.casePaths r n span).map (List.map (Path.relocate f)) := by
  have hw : ∀ m ∈ a.whenClauses n, isWhen m = true := fun m hm => (List.mem_filter.1 hm).2
  unfold Arena.casePaths
  simp only [h.clausePaths clauses hw elseBody span 0]
  generalize a.elseBody? n = body, a'.elseBody? n' = body' at elseBody ⊢
  cases elseBody with
  | none => cases a.clausePaths r span none 0 (a.whenClauses n) <;> rfl
  | @some m m' hbody =>
    simp only [h.runs hbody, h.spanOr (.some hbody)]
    cases a.clausePaths r span (some m) 0 (a.whenClauses n) with
    | error e => rfl
    | ok paths =>
      cases a.runs r m with
      | error e => rfl
      | ok runs =>
        refine congrArg Except.ok ?_
        rw [List.map_append]
        rfl

theorem paths {s s' : Settings} (hs : s'.includeSkip = s.includeSkip) (hn : R n n')
    (span : Span) :
    a'.paths s' r' n' (f span) = (a.paths s r n span).map (List.map (Path.relocate f)) := by
  cases h.alike hn with
  | conditional hc hc' test thenClause elseClause =>
    simp only [Arena.paths, hc, hc']
    exact h.conditionalPaths hn test thenClause elseClause span
  | caseOf hc hc' clauses elseBody =>
    simp only [Arena.paths, hc, hc']
    exact h.casePaths clauses elseBody span
  | shortCircuit hc hc' left right =>
    simp only [Arena.paths, hc, hc']
    exact h.shortCircuitPaths hn left right span
  | safeCall hc hc' receiver =>
    simp only [Arena.paths, hc, hc']
    exact h.safeCallPaths hn receiver span
  | @loop test _ _ hc hc' condition body =>
    simp only [Arena.paths, hc, hc']
    cases test with
    | before => exact h.loopPaths hs hn condition body span
    | after => exact h.loopAfterPaths (h.runs hn) body span
  | _ hc hc' =>
    simp only [Arena.paths, hc, hc']
    rfl

theorem branchKind? (hn : R n n') : n'.construct.branchKind? = n.construct.branchKind? := by
  cases h.alike hn with
  | _ hc hc' => simp only [hc, hc', Construct.branchKind?]

theorem isExecutable (hn : R n n') : n'.isExecutable = n.isExecutable := by
  cases h.alike hn with
  | _ hc hc' => simp only [Node.isExecutable, hc, hc', Construct.isExecutable]

theorem countedLine? (hn : R n n') :
    n'.countedLine? =
      if n.isExecutable then n.span?.map fun span => (f span).firstLine else none := by
  rw [Node.countedLine?, h.isExecutable hn, h.span? hn, Option.map_map]
  rfl

end Pairing

end Arena

end SyntaxCoverage
