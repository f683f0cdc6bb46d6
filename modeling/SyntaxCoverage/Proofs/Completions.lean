import SyntaxCoverage.Proofs.Clauses
import SyntaxCoverage.Proofs.Composition

/-!
Runs and completions of a node. A node with counts of its own never completes more often than it runs.
A sequence has its runs from the beginning and its completions from the end, so the runs divide into
completions and interrupts as long as control comes to the end at most as often as to the beginning.
Main statement: `Arena.runs_divide`.
-/

namespace SyntaxCoverage

open Relation

namespace Placed

def located (p : Placed) : List Placed := p.parts.filter isLocated

theorem hasPart_of_mem_located {p q : Placed} (h : q ∈ p.located) : p.HasPart q := by
  obtain ⟨k, -, hk⟩ := List.mem_filterMap.1 (List.mem_of_mem_filter h)
  exact ⟨k, hk⟩

end Placed

namespace Arena

variable {a : Arena} {r : Recording} {n : Node} {p first last : Placed} {runs full : Nat}

namespace Stands

variable (h : a.Stands p)

include h

theorem locatedChildren_root : a.locatedChildren p.root = p.located.map Placed.root := by
  rw [locatedChildren, h.children_root, List.filter_map]
  rfl

section Sequence

variable (hsequence : p.root.construct = .sequence)

include hsequence

theorem runs_sequence (hfirst : p.located.head? = some first) :
    a.runs r p.root = a.runs r first.root := by
  have hpart := h.part (Placed.hasPart_of_mem_located (List.mem_of_mem_head? hfirst))
  rw [Arena.runs, runsWithin, hsequence]
  simp only [h.locatedChildren_root, List.head?_map, hfirst, Option.map_some]
  exact Holds.runsWithin_eq_runs hpart (Holds.size_le hpart)

theorem fullRuns_sequence (hlast : p.located.getLast? = some last) :
    a.fullRuns r p.root = a.fullRuns r last.root := by
  have hpart := h.part (Placed.hasPart_of_mem_located (List.mem_of_getLast? hlast))
  rw [fullRuns, fullRunsWithin, hsequence]
  simp only [h.locatedChildren_root, List.getLast?_map, hlast, Option.map_some]
  exact Holds.fullRunsWithin_eq_fullRuns hpart (Holds.size_le hpart)

theorem fullRuns_of_located_eq_nil (hnil : p.located = []) :
    a.fullRuns r p.root = a.completedRuns r p.root := by
  rw [fullRuns, fullRunsWithin, hsequence]
  simp only [h.locatedChildren_root, hnil, List.map_nil, List.getLast?_nil]

end Sequence

end Stands

theorem fullRuns_of_isExecutable (hn : n.isExecutable = true) :
    a.fullRuns r n = a.completedRuns r n := by
  rw [fullRuns, fullRunsWithin]
  rw [Node.isExecutable] at hn
  cases hc : n.construct with
  | marker => simp [hc, Construct.isExecutable] at hn
  | sequence => simp [hc, Construct.isExecutable] at hn
  | _ => rfl

theorem completedRuns_le_runs (hfull : a.completedRuns r n = .ok full)
    (hruns : a.runs r n = .ok runs) : full ≤ runs := by
  obtain ⟨_, hruns', hfull⟩ := bind_eq_ok_iff.1 hfull
  obtain rfl := Except.ok.inj (hruns'.symm.trans hruns)
  obtain ⟨completions, -, hfull⟩ := bind_eq_ok_iff.1 hfull
  cases completions with
  | none => exact (Except.ok.inj hfull).ge
  | some completions => exact (Except.ok.inj hfull).ge.trans (Nat.min_le_right ..)

theorem fullRuns_le_runs (hn : n.construct ≠ .sequence) (hfull : a.fullRuns r n = .ok full)
    (hruns : a.runs r n = .ok runs) : full ≤ runs := by
  rw [fullRuns, fullRunsWithin] at hfull
  split at hfull
  · exact (Except.ok.inj hfull).ge.trans (Nat.zero_le _)
  · next hsequence => exact absurd hsequence hn
  · exact completedRuns_le_runs hfull hruns

/-- Control comes to the end of a sequence at most as often as to its beginning, and the same is true
of the last tree in it. -/
inductive Tapers (a : Arena) (r : Recording) : Placed → Prop
  | single {p : Placed} (h : p.root.construct ≠ .sequence) : Tapers a r p
  | empty {p : Placed} (h : p.located = []) : Tapers a r p
  | sequence {p first last : Placed} {runs lastRuns : Nat} (hfirst : p.located.head? = some first)
    (hlast : p.located.getLast? = some last) (hruns : a.runs r first.root = .ok runs)
    (hlastRuns : a.runs r last.root = .ok lastRuns) (hle : lastRuns ≤ runs)
    (hrest : Tapers a r last) : Tapers a r p

theorem Tapers.fullRuns_le (h : a.Tapers r p) (hp : a.Stands p)
    (hfull : a.fullRuns r p.root = .ok full) (hruns : a.runs r p.root = .ok runs) :
    full ≤ runs := by
  induction h generalizing runs full with
  | single hsingle => exact fullRuns_le_runs hsingle hfull hruns
  | @empty p hnil =>
    by_cases hsequence : p.root.construct = .sequence
    · rw [hp.fullRuns_of_located_eq_nil hsequence hnil] at hfull
      exact completedRuns_le_runs hfull hruns
    · exact fullRuns_le_runs hsequence hfull hruns
  | @sequence p first last _ _ hfirst hlast hfirstRuns hlastRuns hle _ ih =>
    by_cases hsequence : p.root.construct = .sequence
    · rw [hp.runs_sequence hsequence hfirst, hfirstRuns] at hruns
      rw [hp.fullRuns_sequence hsequence hlast] at hfull
      have hpart := Placed.hasPart_of_mem_located (List.mem_of_getLast? hlast)
      obtain rfl := Except.ok.inj hruns
      exact (ih (hp.part hpart) hfull hlastRuns).trans hle
    · exact fullRuns_le_runs hsequence hfull hruns

/-- How the runs of a node divide: what has not been completed has been interrupted, unless more
completions than runs have been counted. -/
structure Divides (a : Arena) (r : Recording) (p : Placed) (runs full : Nat) : Prop where
  interrupts : a.interrupts r p.root = .ok (runs - full)
  ends : p.root.construct = .sequence → ∀ first last, p.located.head? = some first →
    p.located.getLast? = some last →
      a.runs r first.root = .ok runs ∧ a.fullRuns r last.root = .ok full
  atMost : a.Tapers r p → full ≤ runs
  exact : a.Tapers r p → runs = full + (runs - full)

theorem Stands.divides (hp : a.Stands p) (hruns : a.runs r p.root = .ok runs)
    (hfull : a.fullRuns r p.root = .ok full) : a.Divides r p runs full where
  interrupts := by
    rw [Arena.interrupts, hruns]
    simp only [hfull]
    rfl
  ends hsequence first last hfirst hlast := by
    rw [← hp.runs_sequence hsequence hfirst, ← hp.fullRuns_sequence hsequence hlast]
    exact ⟨hruns, hfull⟩
  atMost h := h.fullRuns_le hp hfull hruns
  exact h := (Nat.add_sub_of_le (h.fullRuns_le hp hfull hruns)).symm

/-- The runs of every node divide into completions and interrupts. Nothing is lost as long as control
comes to the end of sequences at most as often as to their beginning. -/
theorem runs_divide (base : Nat) (t : Tree) (r : Recording) (q : Placed)
    (hq : ReflTransGen Placed.HasPart (.whole base t) q) :
    (r.AnswersFor t → ∃ runs full, (Arena.ofTree base t).runs r q.root = .ok runs ∧
      (Arena.ofTree base t).fullRuns r q.root = .ok full) ∧
    ∀ runs full, (Arena.ofTree base t).runs r q.root = .ok runs →
      (Arena.ofTree base t).fullRuns r q.root = .ok full →
        (Arena.ofTree base t).Divides r q runs full := by
  constructor
  · intro hr
    have hread := (stands_ofTree base t).answered hr
    have hmem := Placed.mem_nodes_of_reflTransGen hq
    obtain ⟨runs, hruns⟩ := (hread.runs hmem).exists_ok
    obtain ⟨full, hfull⟩ := (hread.fullRuns hmem).exists_ok
    exact ⟨runs, full, hruns, hfull⟩
  · intro runs full hruns hfull
    exact ((stands_ofTree base t).of_reflTransGen hq).divides hruns hfull

def growingSequence : Tree :=
  let site (start stop : Nat) : Option Site :=
    some ⟨⟨⟨start, stop⟩, ⟨1, start⟩, ⟨1, stop⟩⟩, none⟩
  .node "begin" [.tree (.node "lvasgn" [] (site 0 5)), .tree (.node "lvasgn" [] (site 6 11))]
    (site 0 11)

theorem growingSequence_overruns :
    let r : Recording := ⟨fun e => .ok (some (if e.start = 0 then 1 else 5)), fun _ => .ok none⟩
    let a := Arena.ofTree 0 growingSequence
    let n := (Placed.whole 0 growingSequence).root
    r.AnswersFor growingSequence ∧ n ∈ a.nodes.toList ∧
      ∃ runs full cut, a.runs r n = .ok runs ∧ a.fullRuns r n = .ok full ∧
        a.interrupts r n = .ok cut ∧ runs < full ∧ runs ≠ full + cut := by
  intro r a n
  have hr : r.AnswersFor growingSequence := ⟨fun _ _ _ _ => ⟨_, rfl⟩, fun _ _ => ⟨_, rfl⟩⟩
  exact ⟨hr, Placed.mem_nodes_of_reflTransGen .refl, 1, 5, 0, rfl, rfl, rfl, by decide, by decide⟩

def nestedSequence : Tree :=
  let site (start stop : Nat) : Option Site :=
    some ⟨⟨⟨start, stop⟩, ⟨1, start⟩, ⟨1, stop⟩⟩, none⟩
  .node "begin" [.tree (.node "int" [] none), .tree (.node "lvasgn" [] (site 1 5)),
    .leaf .absent, .tree (.node "kwbegin" [.tree (.node "send" [] (site 7 9)),
      .tree (.node "send" [] (site 10 12))] (site 6 12)), .tree (.node "int" [] none)] none

theorem runs_divide_nestedSequence :
    let r : Recording := ⟨fun e => .ok (some (20 - e.start)), fun e => .ok (some (e.start / 2))⟩
    let a := Arena.ofTree 3 nestedSequence
    let q := Placed.whole 3 nestedSequence
    (ReflTransGen Placed.HasPart (.whole 3 nestedSequence) q ∧ r.AnswersFor nestedSequence ∧
      a.Tapers r q) ∧
    ∃ runs full, a.runs r q.root = .ok runs ∧ a.fullRuns r q.root = .ok full ∧
      runs = 19 ∧ full = 5 ∧ a.Divides r q runs full := by
  intro r a q
  have hr : r.AnswersFor nestedSequence := ⟨fun _ _ _ _ => ⟨_, rfl⟩, fun _ _ => ⟨_, rfl⟩⟩
  have htapers : a.Tapers r q := by
    refine .sequence rfl rfl (show a.runs r _ = .ok 19 from rfl)
      (show a.runs r _ = .ok 13 from rfl) (by decide) ?_
    refine .sequence rfl rfl (show a.runs r _ = .ok 13 from rfl)
      (show a.runs r _ = .ok 10 from rfl) (by decide) ?_
    exact .single (by decide +kernel)
  obtain ⟨hexists, hdivides⟩ := runs_divide 3 nestedSequence r q .refl
  obtain ⟨runs, full, hruns, hfull⟩ := hexists hr
  have hvalues : runs = 19 ∧ full = 5 :=
    ⟨Except.ok.inj (hruns.symm.trans (by rfl)), Except.ok.inj (hfull.symm.trans (by rfl))⟩
  exact ⟨⟨.refl, hr, htapers⟩, runs, full, hruns, hfull, hvalues.1, hvalues.2,
    hdivides runs full hruns hfull⟩

end Arena

end SyntaxCoverage
