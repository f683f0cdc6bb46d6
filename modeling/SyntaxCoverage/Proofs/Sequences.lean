import SyntaxCoverage.Proofs.Descent
import SyntaxCoverage.Proofs.Readback

/-!
Counts of sequences. A sequence is counted at the node where the way down from it ends: along the
first located children for its runs, along the last ones for its completions. What is counted there
is the record of that node's own extent, so a count can fail only with the questions asked about one
extent. Main statement: `Arena.counts_resolve`.
-/

namespace SyntaxCoverage.Arena

open Relation

section Counts

variable {a : Arena} {r : Recording} {n : Node} {x : Except RecordingError Nat}

theorem Terminal.runs_eq (h : a.Terminal n) : a.runs r n = ownCount (recordedRuns r) n :=
  Descends.runsWithin_eq (.stop h) (Nat.succ_pos _)

inductive RunsAt (r : Recording) (n : Node) : Except RecordingError Nat → Prop
  | marker (h : n.construct = .marker) : RunsAt r n (.ok 0)
  | unlocated (hn : n.construct ≠ .marker) (h : n.extent? = none) : RunsAt r n (.ok 0)
  | unrecorded {extent : Extent} (hn : n.construct ≠ .marker) (hextent : n.extent? = some extent)
    (h : r.hits extent = .ok none) : RunsAt r n (.ok 0)
  | recorded {extent : Extent} {k : Nat} (hn : n.construct ≠ .marker)
    (hextent : n.extent? = some extent) (h : r.hits extent = .ok (some k)) : RunsAt r n (.ok k)
  | failed {extent : Extent} {error : RecordingError} (hn : n.construct ≠ .marker)
    (hextent : n.extent? = some extent) (h : r.hits extent = .error error) :
    RunsAt r n (.error error)

/-- The completions of a node by the record of its own extent: no more than its runs, and all of
them where completions are not tracked. -/
inductive FullRunsAt (r : Recording) (n : Node) : Except RecordingError Nat → Prop
  | marker (h : n.construct = .marker) : FullRunsAt r n (.ok 0)
  | uncounted {error : RecordingError} (hn : n.construct ≠ .marker)
    (hruns : RunsAt r n (.error error)) : FullRunsAt r n (.error error)
  | untracked {runs : Nat} (hn : n.construct ≠ .marker) (hruns : RunsAt r n (.ok runs))
    (h : ∀ extent, n.extent? = some extent → r.completions extent = .ok none) :
    FullRunsAt r n (.ok runs)
  | tracked {runs k : Nat} {extent : Extent} (hn : n.construct ≠ .marker)
    (hruns : RunsAt r n (.ok runs)) (hextent : n.extent? = some extent)
    (h : r.completions extent = .ok (some k)) : FullRunsAt r n (.ok (min k runs))
  | failed {runs : Nat} {extent : Extent} {error : RecordingError} (hn : n.construct ≠ .marker)
    (hruns : RunsAt r n (.ok runs)) (hextent : n.extent? = some extent)
    (h : r.completions extent = .error error) : FullRunsAt r n (.error error)

theorem ownCount_recordedRuns {extent : Extent} (hn : n.construct ≠ .marker)
    (hextent : n.extent? = some extent) :
    ownCount (recordedRuns r) n = (r.hits extent).map (·.getD 0) := by
  rw [ownCount, if_neg hn, recordedRuns, recordedHits, hextent]

theorem runsAt_ownCount (r : Recording) (n : Node) : RunsAt r n (ownCount (recordedRuns r) n) := by
  by_cases hn : n.construct = .marker
  · rw [ownCount, if_pos hn]
    exact .marker hn
  · cases hextent : n.extent? with
    | none =>
      rw [ownCount, if_neg hn, recordedRuns, recordedHits, hextent]
      exact .unlocated hn hextent
    | some extent =>
      rw [ownCount_recordedRuns hn hextent]
      cases hhits : r.hits extent with
      | error error => exact .failed hn hextent hhits
      | ok hits =>
        cases hits with
        | none => exact .unrecorded hn hextent hhits
        | some k => exact .recorded hn hextent hhits

theorem RunsAt.ownCount_eq (h : RunsAt r n x) : ownCount (recordedRuns r) n = x := by
  cases h with
  | marker h => exact if_pos h
  | unlocated hn h =>
    rw [ownCount, if_neg hn, recordedRuns, recordedHits, h]
    rfl
  | unrecorded hn hextent h =>
    rw [ownCount_recordedRuns hn hextent, h]
    rfl
  | recorded hn hextent h =>
    rw [ownCount_recordedRuns hn hextent, h]
    rfl
  | failed hn hextent h =>
    rw [ownCount_recordedRuns hn hextent, h]
    rfl

theorem ownCount_recordedRuns_eq_iff : ownCount (recordedRuns r) n = x ↔ RunsAt r n x := by
  constructor
  · rintro rfl
    exact runsAt_ownCount r n
  · exact RunsAt.ownCount_eq

theorem Terminal.runs_eq_iff (h : a.Terminal n) : a.runs r n = x ↔ RunsAt r n x := by
  rw [h.runs_eq, ownCount_recordedRuns_eq_iff]

theorem ownCount_completedRuns {runs : Nat} (hn : n.construct ≠ .marker)
    (h : a.runs r n = .ok runs) : ownCount (a.completedRuns r) n =
      (recordedCompletions r n).map fun completions => completions.elim runs (min · runs) := by
  rw [ownCount, if_neg hn, completedRuns, h]
  cases recordedCompletions r n with
  | error error => rfl
  | ok completions => cases completions <;> rfl

theorem recordedCompletions_of_extent {extent : Extent} (h : n.extent? = some extent) :
    recordedCompletions r n = r.completions extent := by
  rw [recordedCompletions, h]

theorem Terminal.fullRunsAt_ownCount (h : a.Terminal n) :
    FullRunsAt r n (ownCount (a.completedRuns r) n) := by
  by_cases hn : n.construct = .marker
  · rw [ownCount, if_pos hn]
    exact .marker hn
  · cases hruns : a.runs r n with
    | error error =>
      rw [ownCount, if_neg hn, completedRuns, hruns]
      exact .uncounted hn (h.runs_eq_iff.1 hruns)
    | ok runs =>
      have hrunsAt := h.runs_eq_iff.1 hruns
      rw [ownCount_completedRuns hn hruns]
      cases hextent : n.extent? with
      | none =>
        rw [recordedCompletions, hextent]
        refine .untracked hn hrunsAt fun _ hsome => ?_
        rw [hextent] at hsome
        cases hsome
      | some extent =>
        rw [recordedCompletions_of_extent hextent]
        cases hcompletions : r.completions extent with
        | error error => exact .failed hn hrunsAt hextent hcompletions
        | ok completions =>
          cases completions with
          | none =>
            refine .untracked hn hrunsAt fun extent' hsome => ?_
            rwa [← Option.some.inj (hextent.symm.trans hsome)]
          | some k => exact .tracked hn hrunsAt hextent hcompletions

theorem FullRunsAt.ownCount_eq (hat : FullRunsAt r n x) (h : a.Terminal n) :
    ownCount (a.completedRuns r) n = x := by
  cases hat with
  | marker hn => exact if_pos hn
  | uncounted hn hruns =>
    rw [ownCount, if_neg hn, completedRuns, h.runs_eq_iff.2 hruns]
    rfl
  | untracked hn hruns hcompletions =>
    rw [ownCount_completedRuns hn (h.runs_eq_iff.2 hruns)]
    cases hextent : n.extent? with
    | none =>
      rw [recordedCompletions, hextent]
      rfl
    | some extent =>
      rw [recordedCompletions_of_extent hextent, hcompletions extent hextent]
      rfl
  | tracked hn hruns hextent hcompletions =>
    rw [ownCount_completedRuns hn (h.runs_eq_iff.2 hruns), recordedCompletions_of_extent hextent,
      hcompletions]
    rfl
  | failed hn hruns hextent hcompletions =>
    rw [ownCount_completedRuns hn (h.runs_eq_iff.2 hruns), recordedCompletions_of_extent hextent,
      hcompletions]
    rfl

theorem Terminal.ownCount_completedRuns_eq_iff (h : a.Terminal n) :
    ownCount (a.completedRuns r) n = x ↔ FullRunsAt r n x := by
  constructor
  · rintro rfl
    exact h.fullRunsAt_ownCount
  · exact fun hat => hat.ownCount_eq h

end Counts

/-- The way down from one node ends at another, and nowhere else. -/
structure ResolvesTo (a : Arena) (e : SequenceEnd) (n t : Node) (steps : Nat) : Prop where
  descends : a.Descends e steps n t
  unique : ∀ steps' t', a.Descends e steps' n t' → steps' = steps ∧ t' = t
  terminal : a.Terminal t
  reaches : ReflTransGen a.Child n t
  ascends : n.id + steps ≤ t.id
  bounded : steps < a.size

theorem exists_resolvesTo {base : Nat} {t : Tree} {n : Node}
    (hn : n ∈ (ofTree base t).nodes.toList) (e : SequenceEnd) :
    ∃ m steps, (ofTree base t).ResolvesTo e n m steps := by
  obtain ⟨p, hp, rfl⟩ := exists_placed hn
  have hstands := (stands_ofTree base t).of_reflTransGen hp
  obtain ⟨steps, q, hsteps, hq, hle, hdescends⟩ := hstands.exists_descends e
  exact ⟨q.root, steps, hdescends, fun _ _ h => hdescends.unique h, hdescends.terminal,
    hstands.reaches_iff.2 (Placed.mem_nodes_of_reflTransGen hq), hle,
    hsteps.trans_le (Holds.size_le hstands)⟩

/-- The counts of every node are those of one node: its runs are those of the node where the first
children of sequences lead, and its completions those of the node where the last ones lead. No count
depends on the room for steps, once there is enough of it. -/
theorem counts_resolve (base : Nat) (t : Tree) (r : Recording) :
    ∀ n ∈ (ofTree base t).nodes.toList,
      (∃ m steps, (ofTree base t).ResolvesTo .first n m steps ∧
        (∀ depth, steps < depth →
          (ofTree base t).runsWithin r depth n = (ofTree base t).runs r n) ∧
        ∀ x, (ofTree base t).runs r n = x ↔ RunsAt r m x) ∧
      ∃ m steps, (ofTree base t).ResolvesTo .last n m steps ∧
        (∀ depth, steps < depth →
          (ofTree base t).fullRunsWithin r depth n = (ofTree base t).fullRuns r n) ∧
        (∀ x, (ofTree base t).runs r m = x ↔ RunsAt r m x) ∧
        ∀ x, (ofTree base t).fullRuns r n = x ↔ FullRunsAt r m x := by
  intro n hn
  constructor
  · obtain ⟨m, steps, hm⟩ := exists_resolvesTo hn .first
    have hruns := hm.descends.runsWithin_eq (r := r) (Nat.lt_succ_of_lt hm.bounded)
    refine ⟨m, steps, hm, fun depth hdepth => ?_, fun x => ?_⟩
    · exact (hm.descends.runsWithin_eq hdepth).trans hruns.symm
    · rw [runs, hruns, ownCount_recordedRuns_eq_iff]
  · obtain ⟨m, steps, hm⟩ := exists_resolvesTo hn .last
    have hfull := hm.descends.fullRunsWithin_eq (r := r) (Nat.lt_succ_of_lt hm.bounded)
    refine ⟨m, steps, hm, fun depth hdepth => ?_, fun x => hm.terminal.runs_eq_iff, fun x => ?_⟩
    · exact (hm.descends.fullRunsWithin_eq hdepth).trans hfull.symm
    · rw [fullRuns, hfull, hm.terminal.ownCount_completedRuns_eq_iff]

def markedSequence : Tree :=
  let site (start stop : Nat) : Option Site :=
    some ⟨⟨⟨start, stop⟩, ⟨1, start⟩, ⟨1, stop⟩⟩, none⟩
  .node "begin" [.tree (.node "int" [] none), .tree (.node "kwbegin" [.leaf .absent,
    .tree (.node "begin" [.leaf (.text "x")] (site 2 4)), .tree (.node "send" [] (site 5 9)),
    .tree (.node "int" [] none)] (site 2 9)), .tree (.node "end" [] (site 10 13))] none

theorem counts_resolve_markedSequence :
    let r : Recording := ⟨fun e => .ok (some (e.start + 1)), fun e =>
      if e.start = 5 then .ok (some 3) else .error (.unreadable "lost")⟩
    let a := ofTree 7 markedSequence
    ∃ n inner, n ∈ a.nodes.toList ∧ inner ∈ a.nodes.toList ∧
      (∃ m steps, a.ResolvesTo .first n m steps ∧ RunsAt r m (.ok 3)) ∧
      (∃ m steps, a.ResolvesTo .last n m steps ∧ FullRunsAt r m (.ok 0)) ∧
      ∃ m steps, a.ResolvesTo .last inner m steps ∧ FullRunsAt r m (.ok 3) := by
  intro r a
  have hn : a.nodes[0] ∈ a.nodes.toList := Array.getElem_mem_toList _
  have hinner : a.nodes[2] ∈ a.nodes.toList := Array.getElem_mem_toList _
  obtain ⟨⟨m, steps, hm, -, hruns⟩, m', steps', hm', -, -, hfull⟩ :=
    counts_resolve 7 markedSequence r _ hn
  obtain ⟨-, k, count, hk, -, -, hcount⟩ := counts_resolve 7 markedSequence r _ hinner
  refine ⟨_, _, hn, hinner, ⟨m, steps, hm, (hruns _).1 ?_⟩, ⟨m', steps', hm', (hfull _).1 ?_⟩,
    k, count, hk, (hcount _).1 ?_⟩
  · rfl
  · rfl
  · rfl

end SyntaxCoverage.Arena
