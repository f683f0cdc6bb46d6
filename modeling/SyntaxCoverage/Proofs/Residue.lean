import SyntaxCoverage.Proofs.Projection
import SyntaxCoverage.Proofs.Stages

/-!
Projections that break off. The lines entered before the failure stay in the ledger, and whatever is
projected from it next has their runs among its own.
-/

namespace SyntaxCoverage

namespace Arena

variable {a : Arena} {r : Recording} {ns : List Node}

def RunsKnown (a : Arena) (r : Recording) (ns : List Node) : Prop :=
  ∀ n ∈ ns, n.countedLine?.isSome → ∃ k, a.runs r n = .ok k

/-- Going through the nodes ends at the first one that counts for a line and whose runs are not
known. -/
structure BreaksOff (a : Arena) (r : Recording) (ns : List Node) (e : RecordingError)
    (before : List Node) (n : Node) : Prop where
  split : ∃ after, ns = before ++ n :: after
  known : a.RunsKnown r before
  counted : n.countedLine?.isSome
  fails : a.runs r n = .error e

end Arena

namespace Ledger

open Arena

variable {s : Settings} {a : Arena} {r : Recording} {ns before : List Node} {n : Node}
  {e : RecordingError} {l l' : Ledger}

theorem enterNodes_of_breaksOff (h : a.BreaksOff r ns e before n) (l : Ledger) :
    enterNodes s a r ns l =
      (.error e, enterPairs s (before.filterMap (countedRuns a r)) l) := by
  obtain ⟨after, rfl⟩ := h.split
  obtain ⟨line, hline⟩ := Option.isSome_iff_exists.1 h.counted
  rw [enterNodes_append h.known]
  simp only [enterNodes, hline, h.fails]

theorem exists_breaksOff (h : (enterNodes s a r ns l).1 = .error e) :
    ∃ before n, a.BreaksOff r ns e before n := by
  induction ns generalizing l with
  | nil => simp [enterNodes] at h
  | cons n ns ih =>
    -- a node in front of those gone through changes nothing about where that ends
    have hcons : ∀ {l : Ledger}, (n.countedLine?.isSome → ∃ k, a.runs r n = .ok k) →
        (enterNodes s a r ns l).1 = .error e → ∃ before m, a.BreaksOff r (n :: ns) e before m := by
      intro l hknown hrest
      obtain ⟨before, m, ⟨after, hsplit⟩, hbefore, hcounted, hfails⟩ := ih hrest
      refine ⟨n :: before, m, ⟨after, by rw [hsplit]; rfl⟩, ?_, hcounted, hfails⟩
      exact List.forall_mem_cons.2 ⟨hknown, hbefore⟩
    rw [enterNodes] at h
    split at h
    · next hline => exact hcons (by simp [hline]) h
    · next line hline =>
      split at h
      · next e' hruns =>
        obtain rfl := Except.error.inj h
        exact ⟨[], n, ⟨ns, rfl⟩, by simp [RunsKnown], by rw [hline]; rfl, hruns⟩
      · next k hruns => exact hcons (fun _ => ⟨k, hruns⟩) h

theorem runsKnown_of_enterNodes (h : (enterNodes s a r ns l).1 = .ok ()) : a.RunsKnown r ns := by
  induction ns generalizing l with
  | nil => simp [RunsKnown]
  | cons n ns ih =>
    rw [enterNodes] at h
    split at h
    · next hline => exact List.forall_mem_cons.2 ⟨by simp [hline], ih h⟩
    · next line hline =>
      split at h
      · simp at h
      · next k hruns => exact List.forall_mem_cons.2 ⟨fun _ => ⟨k, hruns⟩, ih h⟩

theorem projectLines_of_breaksOff (h : a.BreaksOff r (a.walkAll .pre) e before n) (l : Ledger) :
    l.projectLines s a r = (.error e, enterPairs s (before.filterMap (countedRuns a r)) l) := by
  rw [projectLines, enterLines, enterNodes_of_breaksOff h]

theorem enterLines_of_projectLines_error (h : (l.projectLines s a r).1 = .error e) :
    (l.enterLines s a r).1 = .error e := by
  unfold projectLines at h
  split at h
  · next he => rw [he, Except.error.inj h]
  · simp at h

theorem enterLines_of_projectLines_ok {lines : LineHits}
    (h : (l.projectLines s a r).1 = .ok lines) : (l.enterLines s a r).1 = .ok () := by
  unfold projectLines at h
  split at h
  · simp at h
  · next hok => rw [hok]

theorem projectLines_of_report {unit : String} {p : Report}
    (h : l.report s unit a r = (.ok p, l')) : (l.projectLines s a r).1 = .ok p.lines := by
  unfold report at h
  split at h
  · simp at h
  · next lines l₁ hlines =>
    split at h
    · simp at h
    · next branches l₂ hbranches =>
      rw [hlines]
      generalize (if s.verifyUnique then Branch.verifyUnique branches else .ok ()) = checked at h
      cases checked with
      | error f => simp [Except.map] at h
      | ok u =>
        obtain rfl := Except.ok.inj (Prod.mk.inj h).1
        rfl

theorem enterPairs_append (ps qs : List (Nat × Nat)) (l : Ledger) :
    enterPairs s (ps ++ qs) l = enterPairs s qs (enterPairs s ps l) :=
  List.foldl_append

theorem runsOnLine_append (line : Nat) (ps qs : List (Nat × Nat)) :
    runsOnLine line (ps ++ qs) = runsOnLine line ps ++ runsOnLine line qs :=
  List.filterMap_append

theorem find?_lines_of_report {pairs : List (Nat × Nat)} {id base : Nat} {t : Tree} {unit : String}
    {p : Report}
    (h : (enterPairs s pairs ⟨id, ∅⟩).report s unit (.ofTree base t) r = (.ok p, l'))
    (line : Nat) : p.lines.find? line =
      if s.firstLine ≤ line then
        s.lineTotal? (runsOnLine line pairs ++ (Arena.ofTree base t).runsStarting r line)
      else none := by
  have hlines := projectLines_of_report h
  have hknown := runsKnown_of_enterNodes (enterLines_of_projectLines_ok hlines)
  rw [walkAll_pre] at hknown
  rw [projectLines_of_runs hknown, ← enterPairs_append] at hlines
  rw [← Except.ok.inj hlines, find?_hitsOfLines_enterPairs, runsOnLine_append,
    runsOnLine_countedRuns hknown]
  rfl

theorem lines_enterPairs_eq_empty_iff {id : Nat} {pairs : List (Nat × Nat)} :
    (enterPairs s pairs ⟨id, ∅⟩).lines = ∅ ↔ pairs = [] := by
  constructor
  · intro hempty
    cases pairs with
    | nil => rfl
    | cons p pairs =>
      have hfind := find?_enterPairs (s := s) (p :: pairs) ⟨id, ∅⟩ p.1
      have hruns : runsOnLine p.1 (p :: pairs) = p.2 :: runsOnLine p.1 pairs := by
        simp [runsOnLine]
      rw [hempty, hruns] at hfind
      cases hfind.trans (markOf?_cons p.2 _)
  · rintro rfl
    rfl

/-- A projection that breaks off leaves in the ledger what it had entered, and nothing only when it
broke off at the first node that counts. A later report has those runs on its lines. -/
theorem projectLines_residue {base : Nat} {t : Tree} {id : Nat}
    (h : projectLines s (.ofTree base t) r ⟨id, ∅⟩ = (.error e, l')) :
    ∃ before n, (Arena.ofTree base t).BreaksOff r ((Arena.ofTree base t).walkAll .pre) e before n ∧
      l'.nextId = id ∧ (l'.lines = ∅ ↔ ∀ m ∈ before, m.countedLine? = none) ∧
      (∀ unit, report s unit (.ofTree base t) r ⟨id, ∅⟩ = (.error (.recording unit e), l')) ∧
      ∀ {base' : Nat} {t' : Tree} {r' : Recording} {unit : String} {p : Report} {l'' : Ledger},
        l'.report s unit (.ofTree base' t') r' = (.ok p, l'') →
          ∀ line, p.lines.find? line =
            if s.firstLine ≤ line then
              s.lineTotal? (runsOnLine line (before.filterMap (countedRuns (.ofTree base t) r)) ++
                (Arena.ofTree base' t').runsStarting r' line)
            else none := by
  have herror : (projectLines s (.ofTree base t) r ⟨id, ∅⟩).1 = .error e := by rw [h]
  obtain ⟨before, n, hbreak⟩ := exists_breaksOff (enterLines_of_projectLines_error herror)
  obtain rfl : enterPairs s (before.filterMap (countedRuns (.ofTree base t) r)) ⟨id, ∅⟩ = l' := by
    rw [projectLines_of_breaksOff hbreak] at h
    exact (Prod.mk.inj h).2
  refine ⟨before, n, hbreak, nextId_enterPairs _ _, ?_, fun unit => ?_, find?_lines_of_report⟩
  · rw [lines_enterPairs_eq_empty_iff, List.filterMap_eq_nil_iff]
    simp only [countedRuns, Option.map_eq_none_iff]
  · rw [report, h]

def splitCall : Tree :=
  let site (line start : Nat) : Option Site :=
    some ⟨⟨⟨start, start + 1⟩, ⟨line, 0⟩, ⟨line, 1⟩⟩, none⟩
  .node "send" [.tree (.node "int" [] (site 2 2))] (site 1 0)

def loneLiteral : Tree := .node "int" [] (some ⟨⟨⟨4, 5⟩, ⟨3, 0⟩, ⟨3, 1⟩⟩, none⟩)

def lostOperand : Recording :=
  ⟨fun e => if e = ⟨2, 3⟩ then .error (.unreadable "lost") else .ok (some (e.start + 7)),
    fun _ => .ok none⟩

def afterSplitCall : Ledger :=
  (projectLines .default (.ofTree 0 splitCall) lostOperand ⟨3, ∅⟩).2

theorem projectLines_residue_splitCall :
    projectLines .default (.ofTree 0 splitCall) lostOperand ⟨3, ∅⟩ =
        (.error (.unreadable "lost"), afterSplitCall) ∧ afterSplitCall.nextId = 3 ∧
      ∃ p l, afterSplitCall.report .default "literal" (.ofTree 2 loneLiteral) lostOperand =
          (.ok p, l) ∧
        ∃ before n, (Arena.ofTree 0 splitCall).BreaksOff lostOperand
            ((Arena.ofTree 0 splitCall).walkAll .pre) (.unreadable "lost") before n ∧
          ∀ line, 1 ≤ line → p.lines.find? line = Settings.default.lineTotal? (runsOnLine line
            (before.filterMap (countedRuns (.ofTree 0 splitCall) lostOperand)) ++
              (Arena.ofTree 2 loneLiteral).runsStarting lostOperand line) := by
  have hbroken : projectLines .default (.ofTree 0 splitCall) lostOperand ⟨3, ∅⟩ =
      (.error (.unreadable "lost"), afterSplitCall) := rfl
  obtain ⟨p, l, hreport⟩ : ∃ p l,
      afterSplitCall.report .default "literal" (.ofTree 2 loneLiteral) lostOperand = (.ok p, l) :=
    ⟨_, _, rfl⟩
  obtain ⟨before, n, hbreak, hid, -, -, hlater⟩ := projectLines_residue hbroken
  refine ⟨hbroken, hid, p, l, hreport, before, n, hbreak, fun line hline => ?_⟩
  exact (hlater hreport line).trans (if_pos hline)

theorem report_depends_on_failure :
    projectLines .default (.ofTree 0 splitCall) lostOperand ⟨3, ∅⟩ =
        (.error (.unreadable "lost"), afterSplitCall) ∧
      afterSplitCall.lines.entries = [(1, ⟨7, false⟩)] ∧
      (afterSplitCall.report .default "literal" (.ofTree 2 loneLiteral) lostOperand).1.map
        (·.lines.entries) = .ok [(1, 7), (3, 11)] ∧
      (report .default "literal" (.ofTree 2 loneLiteral) lostOperand ⟨3, ∅⟩).1.map
        (·.lines.entries) = .ok [(3, 11)] :=
  ⟨rfl, rfl, rfl, rfl⟩

end Ledger

end SyntaxCoverage
