import SyntaxCoverage.Proofs.Projection
import SyntaxCoverage.Proofs.Sites
import SyntaxCoverage.Proofs.Stages

/-!
Analyses with recordings that never fail. They succeed, and their reports are read off the nodes of
the tree: a pair of a line and a count for each node that counts, and the ways through each branch.
-/

namespace SyntaxCoverage

namespace Branch

/-- What is left of an entry when its ids are erased. -/
structure Ways where
  kind : Kind
  span : Span
  paths : List Path
deriving DecidableEq

def Outcome.path (o : Outcome) : Path := ⟨o.label, o.span, o.hits⟩

def Entry.ways (e : Entry) : Ways := ⟨e.key.kind, e.key.span, e.outcomes.map Outcome.path⟩

end Branch

theorem Path.path_number (id : Nat) (ps : List Path) :
    (Path.number id ps).map Branch.Outcome.path = ps := by
  induction ps generalizing id with
  | nil => rfl
  | cons p ps ih =>
    rw [number, List.map_cons, ih]
    rfl

theorem Path.map_number {β : Type} (f : Path → β) (id : Nat) (ps : List Path) :
    ((Path.number id ps).map fun o => f o.path) = ps.map f := by
  have hpaths := congrArg (List.map f) (path_number id ps)
  rwa [List.map_map] at hpaths

def Arena.ways? (a : Arena) (s : Settings) (r : Recording) (n : Node) : Option Branch.Ways :=
  match n.construct.branchKind?, n.span? with
  | some kind, some span => some ⟨kind, span, (a.paths s r n span).toOption.getD []⟩
  | _, _ => none

theorem Arena.ways?_eq_none {a : Arena} {s : Settings} {r : Recording} {n : Node}
    (hn : n.isBranch = false) : a.ways? s r n = none := by
  have hkind : n.construct.branchKind? = none := by
    simpa [Node.isBranch, Construct.isBranch] using hn
  rw [Arena.ways?, hkind]

section Reading

variable {r : Recording} {s : Settings} {a : Arena} {N : Node → Prop}
  (h : a.Reading r N fun _ => False)

include h

theorem Arena.Reading.runs_ok {n : Node} (hn : N n) : ∃ k, a.runs r n = .ok k :=
  (h.runs hn).exists_ok

theorem Arena.Reading.paths_ok (s : Settings) {n : Node} (hn : N n) (span : Span) :
    ∃ ps, a.paths s r n span = .ok ps :=
  (h.paths span hn s).exists_ok

namespace Ledger

open Branch

theorem entry_of_reading {n : Node} (hn : N n) (l : Ledger) :
    ∃ found l', l.entry s a r n = (.ok found, l') ∧ found.map Entry.ways = a.ways? s r n := by
  rw [entry_eq, Arena.ways?]
  cases n.construct.branchKind? with
  | none => exact ⟨none, l, rfl, rfl⟩
  | some kind =>
    cases n.span? with
    | none => exact ⟨none, l, rfl, rfl⟩
    | some span =>
      obtain ⟨ps, hps⟩ := h.paths_ok s hn span
      simp only [hps]
      refine ⟨_, _, rfl, ?_⟩
      rw [Option.map_some, Entry.ways, Path.path_number]
      rfl

theorem entriesOf_of_reading {ns : List Node} (hns : ∀ n ∈ ns, N n) (l : Ledger) :
    ∃ es l', entriesOf s a r ns l = (.ok es, l') ∧
      es.map Entry.ways = ns.filterMap (a.ways? s r) := by
  induction ns generalizing l with
  | nil => exact ⟨[], l, rfl, rfl⟩
  | cons n ns ih =>
    have hn := hns n (List.mem_cons_self ..)
    obtain ⟨found, l₁, hfound, hways⟩ := entry_of_reading h hn l (s := s)
    obtain ⟨es, l₂, hes, hmap⟩ := ih (fun m hm => hns m (List.mem_cons_of_mem _ hm)) l₁
    refine ⟨found.toList ++ es, l₂, ?_, ?_⟩
    · rw [entriesOf, hfound]
      simp only [hes]
    · rw [List.map_append, hmap, List.filterMap_cons, ← hways]
      cases found <;> rfl

end Ledger

end Reading

section Analysis

variable {r : Recording} {s : Settings} {t : Tree} (hr : r.AnswersFor t)

include hr

theorem Ledger.entries_of_answersFor (l : Ledger) :
    ∃ es l', l.entries s (.ofTree 0 t) r = (.ok es, l') ∧
      es.map Branch.Entry.ways =
        (t.postorder none 0 0).filterMap ((Arena.ofTree 0 t).ways? s r) := by
  have hread := (Arena.stands_ofTree 0 t).answered hr
  have hbranches : ∀ n ∈ (Arena.ofTree 0 t).walkAllBranches .post, n ∈ (Placed.whole 0 t).nodes :=
    fun n hn => (Arena.walkAll_perm .post 0 t).subset (List.mem_of_mem_filter hn)
  obtain ⟨es, l', hes, hmap⟩ := Ledger.entriesOf_of_reading hread hbranches l (s := s)
  refine ⟨es, l', hes, ?_⟩
  rw [hmap, Arena.walkAllBranches, Arena.walkAll_post, List.filterMap_filter]
  refine List.filterMap_congr fun n _ => ?_
  cases hn : n.isBranch with
  | false => exact (Arena.ways?_eq_none hn).symm
  | true => rfl

theorem Settings.analyse_of_answersFor (hfirst : 1 ≤ s.firstLine) (unit : String) :
    ∃ es, s.analyse unit t r = .ok ⟨Ledger.hitsOfLines s (Ledger.enterPairs s
      ((t.layout none 0 0).filterMap (Ledger.countedRuns (.ofTree 0 t) r))
        (Ledger.afterBuild t)).lines, es, t.size⟩ ∧
      es.map Branch.Entry.ways =
        (t.postorder none 0 0).filterMap ((Arena.ofTree 0 t).ways? s r) := by
  have hread := (Arena.stands_ofTree 0 t).answered hr
  obtain ⟨es, l, hes, hways⟩ := Ledger.entries_of_answersFor hr (Ledger.afterBuild t) (s := s)
  have hvalid : s.validate = .ok () := if_neg (Nat.ne_of_gt hfirst)
  refine ⟨es, ?_, hways⟩
  rw [Settings.analyse_eq, hvalid, Ledger.projectLines_of_runs fun n hn _ => hread.runs_ok hn, hes]
  rfl

end Analysis

end SyntaxCoverage
