import Mathlib.Order.Monotone.Basic
import SyntaxCoverage.Analysis.Lines
import SyntaxCoverage.Proofs.Maps

/-!
The marks that runs leave on lines. The order in which runs are entered is lost in the marks, and a
renumbering of the lines that keeps their order passes through to them.
-/

namespace SyntaxCoverage

theorem compare_of_strictMonoOn {g : Nat → Nat} {S : Set Nat} (hg : StrictMonoOn g S) {a b : Nat}
    (ha : a ∈ S) (hb : b ∈ S) : compare (g a) (g b) = compare a b := by
  rcases Nat.lt_trichotomy a b with hlt | rfl | hlt
  · rw [Nat.compare_eq_lt.2 hlt, Nat.compare_eq_lt.2 (hg ha hb hlt)]
  · simp
  · rw [Nat.compare_eq_gt.2 hlt, Nat.compare_eq_gt.2 (hg hb ha hlt)]

namespace Ledger

variable {s s' : Settings}

def marked (s : Settings) (runs : Nat) (mark : Option LineMark) : LineMark :=
  let old := mark.getD ⟨0, false⟩
  ⟨max old.runs runs, old.missed || (!s.allowPartial && runs == 0)⟩

theorem find?_enterRuns (l : Ledger) (line runs k : Nat) :
    (l.enterRuns s line runs).lines.find? k =
      if k = line then some (marked s runs (l.lines.find? line)) else l.lines.find? k := by
  unfold enterRuns
  by_cases hk : k = line
  · subst hk
    rw [if_pos rfl]
    split
    · next h =>
      simp only [addRuns, markMissed, SortedMap.find?_upsert_self, Option.getD_some]
      simp [marked, h]
    · next h =>
      simp only [addRuns, SortedMap.find?_upsert_self]
      have hmissed : (!s.allowPartial && runs == 0) = false := by
        simpa using h
      simp [marked, hmissed]
  · rw [if_neg hk]
    split <;> simp only [addRuns, markMissed, SortedMap.find?_upsert_of_ne _ _ hk]

theorem nextId_enterRuns (l : Ledger) (line runs : Nat) :
    (l.enterRuns s line runs).nextId = l.nextId := by
  unfold enterRuns
  split <;> rfl

theorem marked_comm (x y : Nat) (mark : Option LineMark) :
    marked s y (some (marked s x mark)) = marked s x (some (marked s y mark)) := by
  simp only [marked, Option.getD_some, LineMark.mk.injEq]
  exact ⟨Nat.max_right_comm .., Bool.or_right_comm ..⟩

theorem enterRuns_comm (l : Ledger) (i x j y : Nat) :
    (l.enterRuns s i x).enterRuns s j y = (l.enterRuns s j y).enterRuns s i x := by
  have hlines : ((l.enterRuns s i x).enterRuns s j y).lines =
      ((l.enterRuns s j y).enterRuns s i x).lines := by
    refine SortedMap.ext_find? fun k => ?_
    -- the maxima and the misses of one line commute; different lines do not meet
    by_cases hij : i = j
    · subst hij
      simp only [find?_enterRuns, if_true, marked_comm x y]
      split <;> rfl
    · simp only [find?_enterRuns, if_neg hij, if_neg (Ne.symm hij)]
      by_cases hki : k = i
      · subst hki
        simp [hij]
      · simp [hki]
  have hid : ((l.enterRuns s i x).enterRuns s j y).nextId =
      ((l.enterRuns s j y).enterRuns s i x).nextId := by
    simp only [nextId_enterRuns]
  generalize (l.enterRuns s i x).enterRuns s j y = l₁ at *
  generalize (l.enterRuns s j y).enterRuns s i x = l₂ at *
  cases l₁
  cases l₂
  simp_all

def enterPairs (s : Settings) (pairs : List (Nat × Nat)) (l : Ledger) : Ledger :=
  pairs.foldl (fun l p => l.enterRuns s p.1 p.2) l

theorem enterPairs_perm {ps qs : List (Nat × Nat)} (h : ps.Perm qs) (l : Ledger) :
    enterPairs s ps l = enterPairs s qs l :=
  h.foldl_eq' (fun p _ q _ l => enterRuns_comm l p.1 p.2 q.1 q.2) l

def countedRuns (a : Arena) (r : Recording) (n : Node) : Option (Nat × Nat) :=
  n.countedLine?.map fun line => (line, (a.runs r n).toOption.getD 0)

theorem enterNodes_append {a : Arena} {r : Recording} {ns : List Node}
    (hruns : ∀ n ∈ ns, n.countedLine?.isSome → ∃ k, a.runs r n = .ok k) (ms : List Node)
    (l : Ledger) : enterNodes s a r (ns ++ ms) l =
      enterNodes s a r ms (enterPairs s (ns.filterMap (countedRuns a r)) l) := by
  induction ns generalizing l with
  | nil => rfl
  | cons n ns ih =>
    have hrest := ih fun m hm => hruns m (List.mem_cons_of_mem _ hm)
    have hn := hruns n (List.mem_cons_self ..)
    simp only [List.cons_append, enterNodes, List.filterMap_cons, countedRuns]
    cases hline : n.countedLine? with
    | none => exact hrest l
    | some line =>
      rw [hline] at hn
      obtain ⟨k, hk⟩ := hn rfl
      simp only [hk]
      exact hrest _

theorem enterNodes_of_ok {a : Arena} {r : Recording} {ns : List Node}
    (hruns : ∀ n ∈ ns, n.countedLine?.isSome → ∃ k, a.runs r n = .ok k) (l : Ledger) :
    enterNodes s a r ns l = (.ok (), enterPairs s (ns.filterMap (countedRuns a r)) l) := by
  have happend := enterNodes_append (s := s) hruns [] l
  rwa [List.append_nil] at happend

theorem nextId_enterPairs (pairs : List (Nat × Nat)) (l : Ledger) :
    (enterPairs s pairs l).nextId = l.nextId := by
  induction pairs generalizing l with
  | nil => rfl
  | cons p pairs ih =>
    rw [enterPairs, List.foldl_cons]
    exact (ih _).trans (nextId_enterRuns l p.1 p.2)

def markOf? (s : Settings) (runs : List Nat) (mark : Option LineMark) : Option LineMark :=
  runs.foldl (fun mark k => some (marked s k mark)) mark

def runsOnLine (line : Nat) (pairs : List (Nat × Nat)) : List Nat :=
  pairs.filterMap fun p => if p.1 = line then some p.2 else none

theorem find?_enterPairs (pairs : List (Nat × Nat)) (l : Ledger) (line : Nat) :
    (enterPairs s pairs l).lines.find? line =
      markOf? s (runsOnLine line pairs) (l.lines.find? line) := by
  induction pairs generalizing l with
  | nil => rfl
  | cons p pairs ih =>
    rw [enterPairs, List.foldl_cons]
    refine (ih _).trans ?_
    rw [find?_enterRuns]
    by_cases hline : p.1 = line
    · rw [if_pos hline.symm, runsOnLine, runsOnLine, List.filterMap_cons, if_pos hline, hline]
      rfl
    · rw [if_neg (Ne.symm hline), runsOnLine, runsOnLine, List.filterMap_cons, if_neg hline]

/-- The two ledgers hold the same marks, for lines of `S` in one and for their numbers in the
other. -/
structure Renumbered (g : Nat → Nat) (S : Set Nat) (l l' : Ledger) : Prop where
  nextId : l'.nextId = l.nextId
  entries : l'.lines.entries = l.lines.entries.map (Prod.map g id)
  lines : ∀ e ∈ l.lines.entries, e.1 ∈ S

variable {g : Nat → Nat} {S : Set Nat} {l l' : Ledger}

theorem Renumbered.upsert (hg : StrictMonoOn g S) (h : Renumbered g S l l') {line : Nat}
    (hline : line ∈ S) (u : Option LineMark → LineMark) :
    Renumbered g S { l with lines := l.lines.upsert line u }
      { l' with lines := l'.lines.upsert (g line) u } where
  nextId := h.nextId
  entries := by
    show SortedMap.upsertEntries (g line) u l'.lines.entries = _
    rw [h.entries]
    refine SortedMap.upsertEntries_rename u fun e he => ?_
    exact compare_of_strictMonoOn hg hline (h.lines e he)
  lines e he := by
    rcases SortedMap.mem_upsertEntries he with hkey | hold
    · exact hkey ▸ hline
    · exact h.lines e hold

theorem Renumbered.enterRuns (hg : StrictMonoOn g S) (hs : s'.allowPartial = s.allowPartial)
    (h : Renumbered g S l l') {line : Nat} (hline : line ∈ S) (runs : Nat) :
    Renumbered g S (l.enterRuns s line runs) (l'.enterRuns s' (g line) runs) := by
  have hruns : Renumbered g S (l.addRuns line runs) (l'.addRuns (g line) runs) :=
    h.upsert hg hline _
  unfold Ledger.enterRuns
  rw [hs]
  split
  · exact hruns.upsert hg hline _
  · exact hruns

theorem Renumbered.hitsOfLines (hs : ∀ line ∈ S, line < s.firstLine ↔ g line < s'.firstLine)
    (h : Renumbered g S l l') :
    (hitsOfLines s' l'.lines).entries =
      (hitsOfLines s l.lines).entries.map (Prod.map g id) := by
  have hfilter : ∀ e ∈ l.lines.entries,
      decide (s'.firstLine ≤ g e.1) = decide (s.firstLine ≤ e.1) := by
    intro e he
    have hcut := hs e.1 (h.lines e he)
    rw [decide_eq_decide]
    omega
  show (l'.lines.entries.filter fun e => decide (s'.firstLine ≤ e.1)).map _ =
    ((l.lines.entries.filter fun e => decide (s.firstLine ≤ e.1)).map _).map _
  rw [h.entries, List.filter_map, List.map_map, List.map_map]
  have hsame : l.lines.entries.filter ((fun e => decide (s'.firstLine ≤ e.1)) ∘ Prod.map g id) =
      l.lines.entries.filter fun e => decide (s.firstLine ≤ e.1) :=
    List.filter_congr hfilter
  rw [hsame]
  rfl

end Ledger

end SyntaxCoverage
