import SyntaxCoverage.Proofs.Composition
import SyntaxCoverage.Proofs.Emission
import SyntaxCoverage.Proofs.Exchange

/-!
The balance of outcomes. Where only one way through a construct has been counted, the other one gets
what is left of the evaluations, so the two add up to all of them. More hits than evaluations are
not made up for by the other way. Main statement: `Ledger.entry_conserved`.
-/

namespace SyntaxCoverage

open Branch

def Recording.Bounded (r : Recording) : Prop := ∀ e k, r.hits e = .ok (some k) → k ≤ maxCount

/-- The outcomes are those of two ways through a construct. Together they have all evaluations, or
as many hits as have been seen on one of the ways when those are more. -/
structure Branch.Entry.SharesOut (e : Entry) (r : Recording) (first second : Label)
    (total seen : Nat) : Prop where
  labels : e.outcomes.map (·.label) = [first, second]
  sum : (e.outcomes.map (·.hits)).sum = max total seen
  balanced : seen ≤ total → (e.outcomes.map (·.hits)).sum = total
  bounded : r.Bounded → (e.outcomes.map (·.hits)).sum ≤ maxCount

theorem Branch.sharesOut_pair {r : Recording} {total seen id : Nat} {key : Key} {p q : Path}
    (hsum : p.hits + q.hits = max total seen)
    (hbound : r.Bounded → total ≤ maxCount ∧ seen ≤ maxCount) :
    Entry.SharesOut ⟨key, Path.number id [p, q]⟩ r p.label q.label total seen := by
  have hhits : ((Path.number id [p, q]).map (·.hits)).sum = max total seen := by
    simp only [Path.number, List.map_cons, List.map_nil, List.sum_cons, List.sum_nil, Nat.add_zero]
    exact hsum
  refine ⟨rfl, hhits, fun hle => hhits.trans (Nat.max_eq_left hle), fun hr => ?_⟩
  have hle := hbound hr
  exact hhits.trans_le (Nat.max_le.2 hle)

namespace Arena

variable {a : Arena} {r : Recording} {n : Node} {o : Option Node} {k : Nat}

/-- How often a construct was evaluated: as often as the operand in control came to its end when that
is watched, and as often as the construct ran when it is not or when there is no such operand. -/
inductive Evaluated (a : Arena) (r : Recording) (n : Node) : Option Node → Nat → Prop
  | watched {m : Node} {hits k : Nat} (hm : recordedHits r m = .ok (some hits))
    (hk : a.fullRuns r m = .ok k) : Evaluated a r n (some m) k
  | unwatched {m : Node} {k : Nat} (hm : recordedHits r m = .ok none)
    (hk : a.runs r n = .ok k) : Evaluated a r n (some m) k
  | absent {k : Nat} (hk : a.runs r n = .ok k) : Evaluated a r n none k

inductive Seen (a : Arena) (r : Recording) : Option Node → Nat → Prop
  | clause {m : Node} {k : Nat} (hk : a.runs r m = .ok k) : Seen a r (some m) k
  | absent : Seen a r none 0

inductive Called (r : Recording) : Option Span → Nat → Prop
  | selector {span : Span} {hits : Option Nat} (h : r.hits span.extent = .ok hits) :
    Called r (some span) (hits.getD 0)
  | absent : Called r none 0

theorem descend_le {pick : List Node → Option Node} {count : Node → Except RecordingError Nat}
    {bound : Nat} (hcount : ∀ n k, count n = .ok k → k ≤ bound) {depth : Nat}
    (h : a.descend pick count depth n = .ok k) : k ≤ bound := by
  induction depth generalizing n with
  | zero => exact hcount n k h
  | succ depth ih =>
    rw [descend] at h
    split at h
    · obtain rfl := Except.ok.inj h
      exact Nat.zero_le _
    · split at h
      · exact ih h
      · exact hcount n k h
    · exact hcount n k h

theorem evaluations_eq_ok_iff : a.evaluations r n o = .ok k ↔ a.Evaluated r n o k := by
  cases o with
  | none =>
    constructor
    · exact .absent
    · rintro ⟨hk⟩
      assumption
  | some m =>
    rw [evaluations, bind_eq_ok_iff]
    constructor
    · rintro ⟨hits, hm, hk⟩
      cases hits with
      | none => exact .unwatched hm hk
      | some hits => exact .watched hm hk
    · intro h
      cases h with
      | watched hm hk => exact ⟨_, hm, hk⟩
      | unwatched hm hk => exact ⟨_, hm, hk⟩

theorem runsOf?_some_eq_ok_iff {m : Node} {runs : Option Nat} :
    a.runsOf? r (some m) = .ok runs ↔ ∃ k, a.runs r m = .ok k ∧ some k = runs :=
  map_eq_ok_iff

theorem seen_of_runsOf? {runs : Option Nat} (h : a.runsOf? r o = .ok runs) :
    a.Seen r o (runs.getD 0) := by
  cases o with
  | none =>
    obtain rfl := Except.ok.inj h
    exact .absent
  | some m =>
    obtain ⟨k, hk, rfl⟩ := runsOf?_some_eq_ok_iff.1 h
    exact .clause hk

def connectivePair (op : Connective) (span right : Span) (total runs : Nat) : List Path :=
  match op with
  | .and => [⟨.thenPath, right, runs⟩, ⟨.elsePath, span, total - runs⟩]
  | .or => [⟨.thenPath, span, total - runs⟩, ⟨.elsePath, right, runs⟩]

theorem shortCircuitPaths_eq_ok_iff {op : Connective} {x y : Nat} {span : Span} {ps : List Path} :
    a.shortCircuitPaths r n span op x y = .ok ps ↔
      ∃ total runs, a.evaluations r n (a.locatedAt? n x) = .ok total ∧
        a.runsOf? r (a.locatedAt? n y) = .ok runs ∧
        connectivePair op span (spanOr (a.locatedAt? n y) span) total (runs.getD 0) = ps := by
  have hunfold : a.shortCircuitPaths r n span op x y = (do
      let total ← a.evaluations r n (a.locatedAt? n x)
      let runs ← a.runsOf? r (a.locatedAt? n y)
      .ok (connectivePair op span (spanOr (a.locatedAt? n y) span) total (runs.getD 0))) := by
    cases op <;> rfl
  simp only [hunfold, bind_eq_ok_iff, Except.ok.injEq, exists_and_left]

theorem safeCallPaths_eq_ok_iff {x : Nat} {span : Span} {ps : List Path} :
    a.safeCallPaths r n span x = .ok ps ↔
      ∃ total calls, a.evaluations r n (a.locatedAt? n x) = .ok total ∧
        Called r n.selector? calls ∧
        [⟨.thenPath, span, calls⟩, ⟨.elsePath, span, total - calls⟩] = ps := by
  rw [safeCallPaths, bind_eq_ok_iff]
  constructor
  · rintro ⟨total, htotal, h⟩
    cases hselector : n.selector? with
    | none =>
      simp only [hselector] at h
      exact ⟨total, 0, htotal, .absent, Except.ok.inj h⟩
    | some selector =>
      simp only [hselector] at h
      obtain ⟨calls, hcalls, h⟩ := bind_eq_ok_iff.1 h
      obtain ⟨hits, hhits, rfl⟩ := map_eq_ok_iff.1 hcalls
      exact ⟨total, _, htotal, .selector hhits, Except.ok.inj h⟩
  · rintro ⟨total, calls, htotal, hcalls, rfl⟩
    refine ⟨total, htotal, ?_⟩
    generalize n.selector? = selector at hcalls
    cases hcalls with
    | absent => rfl
    | selector hhits =>
      simp only [hhits]
      rfl

/-- How often the body of a loop ran. An empty body ran on every evaluation beyond the entries. -/
inductive Iterated (a : Arena) (r : Recording) (n : Node) (entries : Nat) : Option Node → Nat → Prop
  | body {m : Node} {k : Nat} (hk : a.runs r m = .ok k) : Iterated a r n entries (some m) k
  | empty {tests : Nat} (h : a.evaluations r n (a.locatedAt? n 0) = .ok tests) :
    Iterated a r n entries none (tests - entries)

def loopPair (s : Settings) (span body : Span) (entries iterations : Nat) : List Path :=
  ⟨.body, body, iterations⟩ ::
    if s.includeSkip then [⟨.skip, span, entries - iterations⟩] else []

theorem loopPaths_eq_ok_iff {s : Settings} {span : Span} {ps : List Path} :
    a.loopPaths s r n span = .ok ps ↔
      ∃ entries iterations, a.runs r n = .ok entries ∧
        a.Iterated r n entries (a.locatedAt? n 1) iterations ∧
        loopPair s span (spanOr (a.locatedAt? n 1) span) entries iterations = ps := by
  rw [loopPaths, bind_eq_ok_iff]
  constructor
  · rintro ⟨entries, hentries, h⟩
    cases hbody : a.locatedAt? n 1 with
    | none =>
      simp only [hbody] at h
      obtain ⟨tests, htests, h⟩ := bind_eq_ok_iff.1 h
      exact ⟨entries, _, hentries, .empty htests, Except.ok.inj h⟩
    | some body =>
      simp only [hbody] at h
      obtain ⟨iterations, hruns, h⟩ := bind_eq_ok_iff.1 h
      exact ⟨entries, _, hentries, .body hruns, Except.ok.inj h⟩
  · rintro ⟨entries, iterations, hentries, hiterated, rfl⟩
    refine ⟨entries, hentries, ?_⟩
    generalize a.locatedAt? n 1 = body at hiterated
    cases hiterated with
    | body hk =>
      simp only [hk]
      rfl
    | empty htests =>
      simp only [htests]
      rfl

section Bounded

variable (hr : r.Bounded)

include hr

theorem recordedRuns_le (h : recordedRuns r n = .ok k) : k ≤ maxCount := by
  obtain ⟨hits, hhits, rfl⟩ := map_eq_ok_iff.1 h
  rw [recordedHits] at hhits
  split at hhits
  · next e he =>
    cases hits with
    | none => exact Nat.zero_le _
    | some hits => exact hr e hits hhits
  · obtain rfl := Except.ok.inj hhits
    exact Nat.zero_le _

theorem runs_le (h : a.runs r n = .ok k) : k ≤ maxCount := by
  rw [runs, runsWithin_eq_descend] at h
  exact descend_le (fun _ _ => recordedRuns_le hr) h

theorem completedRuns_le (h : a.completedRuns r n = .ok k) : k ≤ maxCount := by
  obtain ⟨runs, hruns, h⟩ := bind_eq_ok_iff.1 h
  have hle := runs_le hr hruns
  obtain ⟨completions, -, h⟩ := bind_eq_ok_iff.1 h
  cases completions with
  | none =>
    obtain rfl := Except.ok.inj h
    exact hle
  | some completions =>
    obtain rfl := Except.ok.inj h
    exact (Nat.min_le_right ..).trans hle

theorem fullRuns_le (h : a.fullRuns r n = .ok k) : k ≤ maxCount := by
  rw [fullRuns, fullRunsWithin_eq_descend] at h
  exact descend_le (fun _ _ => completedRuns_le hr) h

theorem Evaluated.le (h : a.Evaluated r n o k) : k ≤ maxCount := by
  cases h with
  | watched _ hk => exact fullRuns_le hr hk
  | unwatched _ hk => exact runs_le hr hk
  | absent hk => exact runs_le hr hk

theorem Seen.le (h : a.Seen r o k) : k ≤ maxCount := by
  cases h with
  | clause hk => exact runs_le hr hk
  | absent => exact Nat.zero_le _

theorem Called.le {span : Option Span} (h : Called r span k) : k ≤ maxCount := by
  cases h with
  | @selector span hits h =>
    cases hits with
    | none => exact Nat.zero_le _
    | some hits => exact hr _ hits h
  | absent => exact Nat.zero_le _

theorem Iterated.le {entries : Nat} (h : a.Iterated r n entries o k) : k ≤ maxCount := by
  cases h with
  | body hk => exact runs_le hr hk
  | empty htests => exact (Nat.sub_le ..).trans ((evaluations_eq_ok_iff.1 htests).le hr)

end Bounded

/-- What the counts of an entry add up to, for the constructs of which one way is not counted by
itself. -/
def Conserved (a : Arena) (s : Settings) (r : Recording) (n : Node) (e : Entry) : Prop :=
  match n.construct with
  | .conditional x y =>
    a.locatedAt? n x = none ∨ a.locatedAt? n y = none → ∃ total seen,
      a.Evaluated r n (a.locatedAt? n 0) total ∧
        a.Seen r ((a.locatedAt? n x).or (a.locatedAt? n y)) seen ∧
        e.SharesOut r .thenPath .elsePath total seen
  | .shortCircuit _ x y => ∃ total seen,
      a.Evaluated r n (a.locatedAt? n x) total ∧ a.Seen r (a.locatedAt? n y) seen ∧
        e.SharesOut r .thenPath .elsePath total seen
  | .safeCall x => ∃ total seen,
      a.Evaluated r n (a.locatedAt? n x) total ∧ Called r n.selector? seen ∧
        e.SharesOut r .thenPath .elsePath total seen
  | .loop .before _ =>
    s.includeSkip = true → ∃ total body, a.runs r n = .ok total ∧
      e.outcome? .body = some body ∧ e.SharesOut r .body .skip total body.hits
  | _ => True

section Conserved

variable {span : Span} {ps : List Path} {key : Key} {id : Nat}

theorem sharesOut_conditionalPaths {x y : Nat} (h : a.conditionalPaths r n span x y = .ok ps)
    (hclause : a.locatedAt? n x = none ∨ a.locatedAt? n y = none) :
    ∃ total seen, a.Evaluated r n (a.locatedAt? n 0) total ∧
      a.Seen r ((a.locatedAt? n x).or (a.locatedAt? n y)) seen ∧
      Entry.SharesOut ⟨key, Path.number id ps⟩ r .thenPath .elsePath total seen := by
  obtain ⟨total, thenRuns, elseRuns, htotal, hthen, helse, rfl⟩ := conditionalPaths_eq_ok_iff.1 h
  have heval := evaluations_eq_ok_iff.1 htotal
  have hsplit : ∃ seen, a.Seen r ((a.locatedAt? n x).or (a.locatedAt? n y)) seen ∧
      (clauseHits total thenRuns elseRuns).1 + (clauseHits total thenRuns elseRuns).2 =
        max total seen := by
    rcases hclause with hx | hy
    · rw [hx] at hthen ⊢
      obtain rfl := Except.ok.inj hthen
      refine ⟨elseRuns.getD 0, seen_of_runsOf? helse, ?_⟩
      cases elseRuns with
      | none => simp [clauseHits]
      | some runs =>
        show total - runs + runs = max total runs
        omega
    · rw [hy] at helse ⊢
      obtain rfl := Except.ok.inj helse
      rw [Option.or_none]
      refine ⟨thenRuns.getD 0, seen_of_runsOf? hthen, ?_⟩
      cases thenRuns with
      | none => simp [clauseHits]
      | some runs =>
        show runs + (total - runs) = max total runs
        omega
  obtain ⟨seen, hseen, hsum⟩ := hsplit
  exact ⟨total, seen, heval, hseen, sharesOut_pair hsum fun hr => ⟨heval.le hr, hseen.le hr⟩⟩

theorem sharesOut_shortCircuitPaths {op : Connective} {x y : Nat}
    (h : a.shortCircuitPaths r n span op x y = .ok ps) :
    ∃ total seen, a.Evaluated r n (a.locatedAt? n x) total ∧ a.Seen r (a.locatedAt? n y) seen ∧
      Entry.SharesOut ⟨key, Path.number id ps⟩ r .thenPath .elsePath total seen := by
  obtain ⟨total, runs, htotal, hruns, rfl⟩ := shortCircuitPaths_eq_ok_iff.1 h
  have heval := evaluations_eq_ok_iff.1 htotal
  have hseen := seen_of_runsOf? hruns
  refine ⟨total, runs.getD 0, heval, hseen, ?_⟩
  have hbound : r.Bounded → total ≤ maxCount ∧ runs.getD 0 ≤ maxCount :=
    fun hr => ⟨heval.le hr, hseen.le hr⟩
  cases op with
  | and =>
    refine sharesOut_pair ?_ hbound
    show runs.getD 0 + (total - runs.getD 0) = _
    omega
  | or =>
    refine sharesOut_pair ?_ hbound
    show total - runs.getD 0 + runs.getD 0 = _
    omega

theorem sharesOut_safeCallPaths {x : Nat} (h : a.safeCallPaths r n span x = .ok ps) :
    ∃ total seen, a.Evaluated r n (a.locatedAt? n x) total ∧ Called r n.selector? seen ∧
      Entry.SharesOut ⟨key, Path.number id ps⟩ r .thenPath .elsePath total seen := by
  obtain ⟨total, calls, htotal, hcalled, rfl⟩ := safeCallPaths_eq_ok_iff.1 h
  have heval := evaluations_eq_ok_iff.1 htotal
  refine ⟨total, calls, heval, hcalled, sharesOut_pair ?_ fun hr => ⟨heval.le hr, hcalled.le hr⟩⟩
  show calls + (total - calls) = max total calls
  omega

theorem sharesOut_loopPaths {s : Settings} (hs : s.includeSkip = true)
    (h : a.loopPaths s r n span = .ok ps) :
    ∃ total body, a.runs r n = .ok total ∧
      Entry.outcome? ⟨key, Path.number id ps⟩ .body = some body ∧
      Entry.SharesOut ⟨key, Path.number id ps⟩ r .body .skip total body.hits := by
  obtain ⟨total, iterations, htotal, hiterated, rfl⟩ := loopPaths_eq_ok_iff.1 h
  rw [loopPair, if_pos hs]
  refine ⟨total, _, htotal, rfl, sharesOut_pair ?_ fun hr => ⟨runs_le hr htotal, hiterated.le hr⟩⟩
  show iterations + (total - iterations) = max total iterations
  omega

theorem conserved_paths {s : Settings} (h : a.paths s r n span = .ok ps) :
    a.Conserved s r n ⟨key, Path.number id ps⟩ := by
  unfold paths at h
  unfold Conserved
  split
  · next x y hc =>
    rw [hc] at h
    exact sharesOut_conditionalPaths h
  · next op x y hc =>
    rw [hc] at h
    exact sharesOut_shortCircuitPaths h
  · next x hc =>
    rw [hc] at h
    exact sharesOut_safeCallPaths h
  · next negated hc =>
    rw [hc] at h
    exact fun hs => sharesOut_loopPaths hs h
  · trivial

end Conserved

end Arena

namespace Ledger

variable {s : Settings} {a : Arena} {r : Recording} {l : Ledger} {n : Node} {e : Entry}

theorem paths_of_entry (h : (l.entry s a r n).1 = .ok (some e)) :
    n.ReportedAs e ∧ ∃ ps, a.paths s r n e.key.span = .ok ps ∧
      e = ⟨e.key, Path.number l.nextId ps⟩ := by
  have hcases := entry_cases s a r n l
  generalize l.entry s a r n = made at h hcases
  cases hcases with
  | none _ => simp at h
  | failed _ _ _ => simp at h
  | made hkind hspan hpaths =>
    obtain rfl := Option.some.inj (Except.ok.inj h)
    exact ⟨⟨hkind, rfl, hspan⟩, _, hpaths, rfl⟩

theorem conserved_of_entry (h : (l.entry s a r n).1 = .ok (some e)) : a.Conserved s r n e := by
  obtain ⟨-, ps, hps, he⟩ := paths_of_entry h
  rw [he]
  exact Arena.conserved_paths hps

theorem exists_entry_of_mem {ns : List Node} {es : List Entry} {l' : Ledger}
    (h : entriesOf s a r ns l = (.ok es, l')) (he : e ∈ es) :
    ∃ n ∈ ns, ∃ l : Ledger, (l.entry s a r n).1 = .ok (some e) := by
  induction ns generalizing l l' es with
  | nil =>
    obtain rfl := Except.ok.inj (Prod.mk.inj h).1
    exact absurd he List.not_mem_nil
  | cons n ns ih =>
    obtain ⟨found, l₁, rest, hfound, hrest, rfl⟩ := entriesOf_cons_eq_ok_iff.1 h
    rcases List.mem_append.1 he with hhere | hlater
    · obtain rfl := Option.mem_toList.1 hhere
      exact ⟨n, List.mem_cons_self .., l, by rw [hfound]⟩
    · obtain ⟨m, hm, hentry⟩ := ih hrest hlater
      exact ⟨m, List.mem_cons_of_mem _ hm, hentry⟩

theorem exists_entry_of_paths {kind : Kind} {P : Entry → Prop}
    (hkind : n.construct.branchKind? = some kind) (hlocated : n.isLocated = true)
    (hpaths : ∀ span, ∃ ps, a.paths s r n span = .ok ps ∧ ∀ key id, P ⟨key, Path.number id ps⟩)
    (l : Ledger) : ∃ e, (l.entry s a r n).1 = .ok (some e) ∧ n.ReportedAs e ∧ P e := by
  obtain ⟨site, hsite⟩ := Option.isSome_iff_exists.1 hlocated
  have hspan : n.span? = some site.whole := by rw [Node.span?, hsite]; rfl
  obtain ⟨ps, hps, hP⟩ := hpaths site.whole
  simp only [entry_eq, hkind, hspan, hps]
  exact ⟨_, rfl, ⟨hkind, rfl, hspan⟩, hP _ _⟩

theorem exists_entry {base : Nat} {t : Tree} (hr : r.AnswersFor t)
    (hn : n ∈ t.layout none 0 base) (hreported : n.isReported = true) (l : Ledger) :
    ∃ e, (l.entry s (.ofTree base t) r n).1 = .ok (some e) := by
  obtain ⟨kind, -, hkind, -⟩ := Node.isReported_iff.1 hreported
  have hlocated := (Bool.and_eq_true_iff.1 hreported).1
  have hpaths : ∀ span, ∃ ps, (Arena.ofTree base t).paths s r n span = .ok ps :=
    ((Arena.stands_ofTree base t).answered hr).paths_ok s hn
  obtain ⟨e, he, -⟩ := exists_entry_of_paths (P := fun _ => True) hkind hlocated
    (fun span => (hpaths span).imp fun ps hps => ⟨hps, fun _ _ => trivial⟩) l
  exact ⟨e, he⟩

/-- Where one way through a construct is not counted by itself, no evaluation is lost and none is
counted twice, in the entry of a single node as in all those of a report. -/
theorem entry_conserved (s : Settings) (t : Tree) (r : Recording) :
    (∀ base, ∀ n ∈ (Arena.ofTree base t).nodes.toList, ∀ l : Ledger,
      (r.AnswersFor t → n.isReported = true →
        ∃ e, (l.entry s (.ofTree base t) r n).1 = .ok (some e)) ∧
      ∀ e, (l.entry s (.ofTree base t) r n).1 = .ok (some e) →
        (Arena.ofTree base t).Conserved s r n e) ∧
    ∀ unit p, s.analyse unit t r = .ok p → ∀ e ∈ p.branches,
      ∃ n ∈ (Arena.ofTree 0 t).nodes.toList, n.ReportedAs e ∧
        (Arena.ofTree 0 t).Conserved s r n e := by
  constructor
  · intro base n hn l
    exact ⟨fun hr hreported => exists_entry hr hn hreported l, fun e => conserved_of_entry⟩
  · intro unit p hp e he
    obtain ⟨-, -, hentries, -⟩ := Settings.analyse_eq_ok_iff.1 hp
    obtain ⟨n, hn, l, hentry⟩ := exists_entry_of_mem (Prod.ext hentries rfl) he
    have hmem := (Arena.walkAll_perm .post 0 t).subset (List.mem_of_mem_filter hn)
    exact ⟨n, hmem, (paths_of_entry hentry).1, conserved_of_entry hentry⟩

def guardedLoop : Tree :=
  let span (start stop : Nat) : Span := ⟨⟨start, stop⟩, ⟨1, start⟩, ⟨1, stop⟩⟩
  let name (start : Nat) : Item := .tree (.node "lvar" [] (some ⟨span start (start + 1), none⟩))
  .node "while" [.tree (.node "or" [name 6, name 11] (some ⟨span 6 12, none⟩)),
    .tree (.node "if" [name 16, .tree (.node "csend" [name 20, .leaf (.text "f")]
      (some ⟨span 20 24, some (span 23 24)⟩)), .leaf .absent] (some ⟨span 16 28, none⟩))]
    (some ⟨span 0 32, none⟩)

theorem entry_conserved_guardedLoop :
    let r : Recording := ⟨fun e => .ok (some (e.start % 5)), fun _ => .ok none⟩
    let s := Settings.default
    (r.AnswersFor guardedLoop ∧ r.Bounded) ∧
    (∀ n ∈ (Arena.ofTree 4 guardedLoop).nodes.toList, n.isReported = true →
      ∃ e, (entry s (.ofTree 4 guardedLoop) r n ⟨20, ∅⟩).1 = .ok (some e) ∧
        (Arena.ofTree 4 guardedLoop).Conserved s r n e) ∧
    ∃ p, s.analyse "loop" guardedLoop r = .ok p ∧
      p.branches.map (fun e => (e.outcomes.map (·.hits)).sum) = [1, 3, 1, 1] ∧
      ∀ e ∈ p.branches, ∃ n ∈ (Arena.ofTree 0 guardedLoop).nodes.toList, n.ReportedAs e ∧
        (Arena.ofTree 0 guardedLoop).Conserved s r n e := by
  intro r s
  have hr : r.AnswersFor guardedLoop := ⟨fun _ _ _ _ => ⟨_, rfl⟩, fun _ _ => ⟨_, rfl⟩⟩
  have hbounded : r.Bounded := by
    intro e k h
    obtain rfl := Option.some.inj (Except.ok.inj h)
    exact (Nat.le_of_lt (Nat.mod_lt _ (by decide))).trans (by decide)
  obtain ⟨hnodes, hreport⟩ := entry_conserved s guardedLoop r
  refine ⟨⟨hr, hbounded⟩, fun n hn hreported => ?_, ?_⟩
  · obtain ⟨hexists, hconserved⟩ := hnodes 4 n hn ⟨20, ∅⟩
    obtain ⟨e, he⟩ := hexists hr hreported
    exact ⟨e, he, hconserved e he⟩
  · have hsums : (s.analyse "loop" guardedLoop r).map
        (·.branches.map fun e => (e.outcomes.map (·.hits)).sum) = .ok [1, 3, 1, 1] := by
      rw [Settings.analyse_eq]
      rfl
    obtain ⟨p, hp, hsums⟩ := map_eq_ok_iff.1 hsums
    exact ⟨p, hp, hsums, hreport "loop" p hp⟩

end Ledger

end SyntaxCoverage
