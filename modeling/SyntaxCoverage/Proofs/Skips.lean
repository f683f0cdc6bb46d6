import SyntaxCoverage.Proofs.Labels
import SyntaxCoverage.Proofs.Transport

/-!
Reports without skipped loops. Whether skips are reported changes neither an error nor a count: what
remains are the other outcomes, under the ids that the skips have left free.
Main statement: `Settings.analyse_withoutSkips`.
-/

namespace SyntaxCoverage

open Branch

def Settings.withoutSkips (s : Settings) : Settings := { s with includeSkip := false }

namespace Branch

def Entry.withoutSkips (e : Entry) : Entry :=
  { e with outcomes := e.outcomes.filter fun o => o.label != .skip }

def Outcome.renumber (id : Nat) : List Outcome → List Outcome
  | [] => []
  | o :: os => { o with id := id } :: renumber (id + 1) os

def Entry.renumber (id : Nat) (e : Entry) : Entry :=
  { e with outcomes := Outcome.renumber id e.outcomes }

def renumber (id : Nat) : List Entry → List Entry
  | [] => []
  | e :: es => e.renumber id :: renumber (id + e.outcomes.length) es

theorem Outcome.renumber_number (id id' : Nat) (ps : List Path) :
    Outcome.renumber id ((Path.number id' ps).filter fun o => o.label != .skip) =
      Path.number id (ps.filter fun p => p.label != .skip) := by
  induction ps generalizing id id' with
  | nil => rfl
  | cons p ps ih =>
    rw [Path.number, List.filter_cons, List.filter_cons]
    split
    · rw [renumber, ih, Path.number]
    · exact ih id (id' + 1)

theorem Outcome.length_renumber (id : Nat) (os : List Outcome) :
    (Outcome.renumber id os).length = os.length := by
  induction os generalizing id with
  | nil => rfl
  | cons o os ih => rw [renumber, List.length_cons, ih, List.length_cons]

theorem renumber_append (id : Nat) (es es' : List Entry) :
    renumber id (es ++ es') = renumber id es ++ renumber (id + totalOutcomes es) es' := by
  induction es generalizing id with
  | nil => rfl
  | cons e es ih =>
    rw [List.cons_append, renumber, renumber, ih, Nat.add_assoc]
    rfl

theorem totalOutcomes_renumber (id : Nat) (es : List Entry) :
    totalOutcomes (renumber id es) = totalOutcomes es := by
  induction es generalizing id with
  | nil => rfl
  | cons e es ih =>
    show (Outcome.renumber id e.outcomes).length + totalOutcomes (renumber _ es) = _
    rw [ih, Outcome.length_renumber]
    rfl

theorem keys_renumber (id : Nat) (es : List Entry) :
    (renumber id es).map (·.key) = es.map (·.key) := by
  induction es generalizing id with
  | nil => rfl
  | cons e es ih =>
    rw [renumber, List.map_cons, ih]
    rfl

end Branch

/-- The second report is the first one without the outcomes that stand for skipped loops; the others
have taken the ids behind those of the nodes one after the other. -/
structure Report.WithoutSkips (p q : Report) : Prop where
  lines : q.lines = p.lines
  nodeCount : q.nodeCount = p.nodeCount
  keys : q.branches.map (·.key) = p.branches.map (·.key)
  branches : q.branches = renumber p.nodeCount (p.branches.map .withoutSkips)

def Path.dropSkips (ps : List Path) : List Path := ps.filter fun p => p.label != .skip

theorem Path.map_dropSkips {x : Except RecordingError (List Path)} {ls : List Label}
    (h : Yields (fun ps => ps.map (·.label) = ls) x) (hls : .skip ∉ ls) :
    x.map dropSkips = x := by
  cases x with
  | error e => rfl
  | ok ps =>
    have hkept : ∀ p ∈ ps, (p.label != .skip) = true := by
      intro p hp
      have hlabel : p.label ∈ ls := h ▸ List.mem_map_of_mem hp
      rw [bne_iff_ne]
      intro hskip
      exact hls (hskip ▸ hlabel)
    exact congrArg Except.ok (List.filter_eq_self.2 hkept)

namespace Arena

open SyntaxCoverage.Path

variable {a : Arena} {s : Settings} {r : Recording} {n : Node} {span : Span}

theorem loopPaths_withoutSkips :
    a.loopPaths s.withoutSkips r n span = (a.loopPaths s r n span).map dropSkips := by
  unfold loopPaths
  cases a.runs r n with
  | error e => rfl
  | ok entries =>
    cases a.locatedAt? n 1 with
    | none =>
      cases a.evaluations r n (a.locatedAt? n 0) with
      | error e => rfl
      | ok tests => cases s.includeSkip <;> rfl
    | some body =>
      simp only
      cases a.runs r body with
      | error e => rfl
      | ok iterations => cases s.includeSkip <;> rfl

theorem paths_withoutSkips :
    a.paths s.withoutSkips r n span = (a.paths s r n span).map dropSkips := by
  unfold Arena.paths
  cases n.construct with
  | conditional x y => exact (map_dropSkips (labels_conditionalPaths x y) (by simp)).symm
  | caseOf => exact (map_dropSkips labels_casePaths (by split <;> simp)).symm
  | shortCircuit op x y => exact (map_dropSkips (labels_shortCircuitPaths op x y) (by simp)).symm
  | safeCall x => exact (map_dropSkips (labels_safeCallPaths x) (by simp)).symm
  | loop test negated =>
    cases test with
    | before => exact loopPaths_withoutSkips
    | after => exact (map_dropSkips labels_loopAfterPaths (by simp)).symm
  | _ => rfl

end Arena

namespace Ledger

variable {s : Settings} {a : Arena} {r : Recording}

theorem enterNodes_withoutSkips (ns : List Node) (l : Ledger) :
    enterNodes s.withoutSkips a r ns l = enterNodes s a r ns l := by
  induction ns generalizing l with
  | nil => rfl
  | cons n ns ih =>
    simp only [enterNodes, ih]
    rfl

theorem projectLines_withoutSkips (l : Ledger) :
    l.projectLines s.withoutSkips a r = l.projectLines s a r := by
  unfold projectLines enterLines
  rw [enterNodes_withoutSkips]
  rfl

theorem entry_withoutSkips (n : Node) (l l' : Ledger) :
    (l'.entry s.withoutSkips a r n).1 =
      (l.entry s a r n).1.map (Option.map fun e => e.withoutSkips.renumber l'.nextId) := by
  rw [entry_eq, entry_eq]
  cases n.construct.branchKind? with
  | none => rfl
  | some kind =>
    cases n.span? with
    | none => rfl
    | some span =>
      simp only [Arena.paths_withoutSkips]
      cases a.paths s r n span with
      | error e => rfl
      | ok ps =>
        simp only [Except.map, Option.map_some, Entry.withoutSkips, Entry.renumber,
          Outcome.renumber_number, Path.dropSkips]

theorem fst_entriesOf_cons (n : Node) (ns : List Node) (l : Ledger) :
    (entriesOf s a r (n :: ns) l).1 = (do
      let found ← (l.entry s a r n).1
      let rest ← (entriesOf s a r ns (l.entry s a r n).2).1
      return found.toList ++ rest) := by
  rw [entriesOf]
  rcases l.entry s a r n with ⟨_ | found, l₁⟩
  · rfl
  · simp only
    rcases entriesOf s a r ns l₁ with ⟨_ | rest, l₂⟩ <;> rfl

theorem entriesOf_withoutSkips (ns : List Node) (l l' : Ledger) :
    (entriesOf s.withoutSkips a r ns l').1 =
      (entriesOf s a r ns l).1.map fun es => renumber l'.nextId (es.map .withoutSkips) := by
  induction ns generalizing l l' with
  | nil => rfl
  | cons n ns ih =>
    have hentry := entry_withoutSkips (s := s) (a := a) (r := r) n l l'
    rw [fst_entriesOf_cons, fst_entriesOf_cons, ih (l.entry s a r n).2 (l'.entry s.withoutSkips a r n).2]
    cases hfound : (l.entry s a r n).1 with
    | error e =>
      rw [hfound] at hentry
      rw [hentry]
      rfl
    | ok found =>
      rw [hfound] at hentry
      have hlist : (found.map fun e => e.withoutSkips.renumber l'.nextId).toList =
          renumber l'.nextId (found.toList.map .withoutSkips) := by
        cases found <;> rfl
      have hnext : (l'.entry s.withoutSkips a r n).2.nextId =
          l'.nextId + totalOutcomes (found.toList.map .withoutSkips) := by
        have hledger := (entry_ok (Prod.ext hentry rfl)).1.ledger
        rw [hlist, totalOutcomes_renumber] at hledger
        exact congrArg nextId hledger
      rw [hentry, hnext]
      cases (entriesOf s a r ns (l.entry s a r n).2).1 with
      | error e => rfl
      | ok rest =>
        apply congrArg Except.ok
        show Option.toList _ ++ renumber _ (rest.map _) = renumber _ ((found.toList ++ rest).map _)
        rw [hlist, List.map_append, renumber_append]

theorem entries_withoutSkips (l : Ledger) :
    (l.entries s.withoutSkips a r).1 =
      (l.entries s a r).1.map fun es => renumber l.nextId (es.map .withoutSkips) :=
  entriesOf_withoutSkips _ l l

end Ledger

/-- Leaving the skipped loops out of the report changes nothing else: the analysis fails with the same
error, or the report loses the skips and the other outcomes move up to the ids that this leaves. -/
theorem Settings.analyse_withoutSkips (s : Settings) (unit : String) (t : Tree) (r : Recording) :
    SameOutcome Report.WithoutSkips (s.analyse unit t r) (s.withoutSkips.analyse unit t r) := by
  rw [Settings.analyse_eq, Settings.analyse_eq, Ledger.projectLines_withoutSkips,
    Ledger.entries_withoutSkips]
  refine SameOutcome.bind (.refl s.validate) fun _ _ _ => ?_
  refine SameOutcome.bind (.refl _) ?_
  rintro lines _ rfl
  refine SameOutcome.bind ((SameOutcome.map_right _ _).mapError _) ?_
  rintro branches _ rfl
  refine ⟨rfl, rfl, ?_, rfl⟩
  show (renumber _ (branches.map _)).map _ = branches.map _
  rw [keys_renumber, List.map_map]
  rfl

end SyntaxCoverage
