import Mathlib.Algebra.BigOperators.Group.List.Basic
import SyntaxCoverage.Proofs.Completions
import SyntaxCoverage.Proofs.Labels

/-!
The iterations of a loop that tests first. On every entry the test is evaluated once more than the
body runs, so the body of a loop is counted even when it is empty; how many entries left it out is
known up to those that repeated it. Main statement: `Ledger.entry_iterations`.
-/

namespace SyntaxCoverage

open Branch Relation

theorem sum_add_count_zero (ks : List Nat) :
    ks.sum + ks.count 0 = ks.length + (ks.map (· - 1)).sum := by
  induction ks with
  | nil => rfl
  | cons k ks ih =>
    rw [List.sum_cons, List.length_cons, List.map_cons, List.sum_cons]
    cases k with
    | zero =>
      rw [List.count_cons_self]
      omega
    | succ k =>
      rw [List.count_cons_of_ne (Nat.succ_ne_zero k)]
      omega

theorem length_sub_sum_le (ks : List Nat) : ks.length - ks.sum ≤ ks.count 0 := by
  have hsum := sum_add_count_zero ks
  omega

theorem length_sub_sum_of_le_one {ks : List Nat} (h : ∀ k ∈ ks, k ≤ 1) :
    ks.length - ks.sum = ks.count 0 := by
  have hrepeated : (ks.map (· - 1)).sum = 0 := by
    refine List.sum_eq_zero fun k hk => ?_
    obtain ⟨m, hm, rfl⟩ := List.mem_map.1 hk
    exact Nat.sub_eq_zero_of_le (h m hm)
  have hsum := sum_add_count_zero ks
  omega

theorem length_sub_sum_of_length_le_one {ks : List Nat} (h : ks.length ≤ 1) :
    ks.length - ks.sum = ks.count 0 := by
  match ks, h with
  | [], _ => rfl
  | [0], _ => rfl
  | [k + 1], _ => simp

/-- A loop that was entered once for each of `ks`, which tell how often its body ran on that entry.
The test was evaluated once more than that on each, and was never cut short. -/
structure Placed.Iterates (p : Placed) (a : Arena) (r : Recording) (ks : List Nat) : Prop where
  entered : Arena.recordedHits r p.root = .ok (some ks.length)
  tested : ∃ test, p.part? 0 = some test ∧ test.isLocated = true ∧ test.root.isExecutable = true ∧
    Arena.recordedHits r test.root = .ok (some (ks.map (· + 1)).sum) ∧
    Arena.recordedCompletions r test.root = .ok none
  repeated : ∀ body, p.part? 1 = some body → body.isLocated = true →
    a.runs r body.root = .ok ks.sum

/-- The entry has all runs of the body. As many entries as it says left out the body, or more when
some entries repeated it. -/
structure Branch.Entry.CountsIterations (e : Entry) (s : Settings) (ks : List Nat) : Prop where
  outcomes : e.outcomes.map (fun o => (o.label, o.hits)) =
    (.body, ks.sum) :: if s.includeSkip then [(.skip, ks.length - ks.sum)] else []
  atMost : ∀ o ∈ e.outcomes, o.label = .skip → o.hits ≤ ks.count 0
  exact : ks.length ≤ 1 ∨ (∀ k ∈ ks, k ≤ 1) →
    ∀ o ∈ e.outcomes, o.label = .skip → o.hits = ks.count 0

namespace Branch.Entry.CountsIterations

variable {e : Entry} {s : Settings} {ks : List Nat}

theorem of_outcomes (h : e.outcomes.map (fun o => (o.label, o.hits)) =
    (.body, ks.sum) :: if s.includeSkip then [(.skip, ks.length - ks.sum)] else []) :
    e.CountsIterations s ks := by
  have hskip : ∀ o ∈ e.outcomes, o.label = .skip → o.hits = ks.length - ks.sum := by
    intro o ho hlabel
    have hmem := List.mem_map_of_mem (f := fun o => (o.label, o.hits)) ho
    rw [h, hlabel] at hmem
    split at hmem
    · simpa using hmem
    · simp at hmem
  refine ⟨h, fun o ho hlabel => ?_, fun hfew o ho hlabel => ?_⟩
  · rw [hskip o ho hlabel]
    exact length_sub_sum_le ks
  · rw [hskip o ho hlabel]
    rcases hfew with hone | hsimple
    · exact length_sub_sum_of_length_le_one hone
    · exact length_sub_sum_of_le_one hsimple

end Branch.Entry.CountsIterations

namespace Arena

variable {a : Arena} {r : Recording} {n : Node} {k : Nat}

theorem runs_of_recordedHits (hn : n.isExecutable = true)
    (hhits : recordedHits r n = .ok (some k)) : a.runs r n = .ok k := by
  rw [runs_of_isExecutable hn, recordedRuns, hhits]
  rfl

theorem fullRuns_of_recordedHits (hn : n.isExecutable = true)
    (hhits : recordedHits r n = .ok (some k)) (hcompletions : recordedCompletions r n = .ok none) :
    a.fullRuns r n = .ok k := by
  rw [fullRuns_of_isExecutable hn, completedRuns, runs_of_recordedHits hn hhits]
  simp only [hcompletions]
  rfl

theorem evaluations_of_recordedHits {m : Node} (hm : m.isExecutable = true)
    (hhits : recordedHits r m = .ok (some k)) (hcompletions : recordedCompletions r m = .ok none) :
    a.evaluations r n (some m) = .ok k := by
  rw [evaluations]
  simp only [hhits, fullRuns_of_recordedHits hm hhits hcompletions]
  rfl

end Arena

namespace Placed.Iterates

variable {p : Placed} {a : Arena} {r : Recording} {ks : List Nat}

theorem loopPaths (h : p.Iterates a r ks) (hp : a.Stands p) (hexec : p.root.isExecutable = true)
    (s : Settings) (span : Span) :
    a.loopPaths s r p.root span = .ok (⟨.body, Arena.spanOr (a.locatedAt? p.root 1) span, ks.sum⟩ ::
      if s.includeSkip then [⟨.skip, span, ks.length - ks.sum⟩] else []) := by
  obtain ⟨test, htest, hlocated, htestExec, hhits, hcompletions⟩ := h.tested
  have hentries := Arena.runs_of_recordedHits (a := a) hexec h.entered
  have hcondition : a.locatedAt? p.root 0 = some test.root := by
    rw [hp.locatedAt?_root, htest, Option.filter_some_pos hlocated]
    rfl
  have htests : a.evaluations r p.root (some test.root) = .ok (ks.map (· + 1)).sum :=
    Arena.evaluations_of_recordedHits htestExec hhits hcompletions
  refine Arena.loopPaths_eq_ok_iff.2 ⟨ks.length, ks.sum, hentries, ?_, rfl⟩
  cases hbody : a.locatedAt? p.root 1 with
  | some n =>
    rw [hp.locatedAt?_root] at hbody
    obtain ⟨body, hpart, rfl⟩ := Option.map_eq_some_iff.1 hbody
    obtain ⟨hpart, hbodyLocated⟩ := Option.filter_eq_some_iff.1 hpart
    exact .body (h.repeated body hpart hbodyLocated)
  | none =>
    have hiterations : (ks.map (· + 1)).sum - ks.length = ks.sum := by
      rw [List.sum_map_add, List.map_id', List.map_const', List.sum_replicate_nat, Nat.mul_one,
        Nat.add_sub_cancel]
    rw [← hiterations]
    rw [← hcondition] at htests
    exact .empty htests

end Placed.Iterates

theorem Placed.construct_of_loop {p : Placed} (hloop : p.tree.kind ∈ ["while", "until"]) :
    ∃ negated, p.root.construct = .loop .before negated := by
  have hkind : ∀ kind ∈ ["while", "until"], Construct.FixedKind kind ∧
      ∃ negated, Construct.ofKind kind = .loop .before negated := by
    decide +kernel
  obtain ⟨hfixed, negated, hnegated⟩ := hkind _ hloop
  exact ⟨negated, (Construct.ofTree_eq_ofKind hfixed ..).trans hnegated⟩

namespace Ledger

/-- The entry of a loop that tests first tells how often its body ran, whether or not it has one, and
how many entries left it out as far as that can be known. -/
theorem entry_iterations (s : Settings) (t : Tree) (r : Recording) (base : Nat) (q : Placed)
    (hq : ReflTransGen Placed.HasPart (.whole base t) q) (hloop : q.tree.kind ∈ ["while", "until"])
    (hlocated : q.isLocated = true) (ks : List Nat) (hks : q.Iterates (.ofTree base t) r ks)
    (l : Ledger) :
    ∃ e, (l.entry s (.ofTree base t) r q.root).1 = .ok (some e) ∧
      q.root.ReportedAs e ∧ e.CountsIterations s ks := by
  have hstands := (Arena.stands_ofTree base t).of_reflTransGen hq
  obtain ⟨negated, hconstruct⟩ := Placed.construct_of_loop hloop
  have hkind : q.root.construct.branchKind? = some .loop := by
    rw [hconstruct]
    rfl
  have hexec : q.root.isExecutable = true := by
    rw [Node.isExecutable, hconstruct]
    rfl
  refine exists_entry_of_paths hkind hlocated (fun span => ?_) l
  rw [Arena.paths, hconstruct]
  refine ⟨_, hks.loopPaths hstands hexec s span, fun key id => .of_outcomes ?_⟩
  refine (Path.map_number (fun p => (p.label, p.hits)) id _).trans ?_
  cases s.includeSkip <;> rfl

def pollingLoop (kind : String) (body : Item) : Tree :=
  let span (start stop : Nat) : Span := ⟨⟨start, stop⟩, ⟨1, start⟩, ⟨1, stop⟩⟩
  .node kind [.tree (.node "lvar" [] (some ⟨span 6 7, none⟩)), body] (some ⟨span 0 20, none⟩)

theorem entry_iterations_pollingLoop :
    let body : Item := .tree (.node "lvar" [] (some ⟨⟨⟨10, 11⟩, ⟨1, 10⟩, ⟨1, 11⟩⟩, none⟩))
    let r (ks : List Nat) : Recording :=
      ⟨fun e => .ok
        ([(0, ks.length), (6, (ks.map (· + 1)).sum), (10, ks.sum)].lookup e.start),
        fun _ => .ok none⟩
    let idle := pollingLoop "while" (.leaf .absent)
    let busy := pollingLoop "until" body
    ((Placed.whole 2 idle).Iterates (.ofTree 2 idle) (r [3, 0, 2, 0]) [3, 0, 2, 0] ∧
      ∃ e, (entry .default (.ofTree 2 idle) (r [3, 0, 2, 0]) (Placed.whole 2 idle).root
          ⟨9, ∅⟩).1 = .ok (some e) ∧
        e.outcomes.map (fun o => (o.label, o.hits)) = [(.body, 5), (.skip, 0)] ∧
        e.CountsIterations .default [3, 0, 2, 0]) ∧
    (Placed.whole 2 busy).Iterates (.ofTree 2 busy) (r [1, 0, 1, 0, 0]) [1, 0, 1, 0, 0] ∧
      ∃ e, (entry .default (.ofTree 2 busy) (r [1, 0, 1, 0, 0]) (Placed.whole 2 busy).root
          ⟨9, ∅⟩).1 = .ok (some e) ∧
        e.outcomes.map (fun o => (o.label, o.hits)) = [(.body, 2), (.skip, 3)] ∧
        e.CountsIterations .default [1, 0, 1, 0, 0] := by
  intro body r idle busy
  have hidle : (Placed.whole 2 idle).Iterates (.ofTree 2 idle) (r [3, 0, 2, 0]) [3, 0, 2, 0] :=
    ⟨rfl, ⟨_, rfl, rfl, by decide +kernel, rfl, rfl⟩, nofun⟩
  have hbusy : (Placed.whole 2 busy).Iterates (.ofTree 2 busy) (r [1, 0, 1, 0, 0])
      [1, 0, 1, 0, 0] := by
    refine ⟨rfl, ⟨_, rfl, rfl, by decide +kernel, rfl, rfl⟩, ?_⟩
    rintro _ ⟨⟩ -
    rfl
  obtain ⟨e, he, -, hcounts⟩ := entry_iterations .default idle (r [3, 0, 2, 0]) 2 (.whole 2 idle)
    .refl (List.mem_cons_self ..) rfl [3, 0, 2, 0] hidle ⟨9, ∅⟩
  obtain ⟨e', he', -, hcounts'⟩ := entry_iterations .default busy (r [1, 0, 1, 0, 0]) 2
    (.whole 2 busy) .refl (List.mem_cons_of_mem _ (List.mem_cons_self ..)) rfl [1, 0, 1, 0, 0] hbusy
    ⟨9, ∅⟩
  exact ⟨⟨hidle, e, he, hcounts.outcomes, hcounts⟩, hbusy, e', he', hcounts'.outcomes, hcounts'⟩

end Ledger

end SyntaxCoverage
