import SyntaxCoverage.Batch
import SyntaxCoverage.Proofs.Composition
import SyntaxCoverage.Proofs.Residue
import SyntaxCoverage.Tally

/-!
Why an analysis fails. Either the settings do not count lines from 1, or the recording failed at a
span of the tree; nothing fails within the analysis itself, so no batch is ever in a fatal state.
Main statement: `Settings.analyse_causes`.
-/

namespace SyntaxCoverage

namespace Ledger

section Reading

variable {r : Recording} {s : Settings} {a : Arena} {N : Node → Prop}
  {P : RecordingError → Prop} (h : a.Reading r N P)

include h

theorem enterNodes_failsWith {ns : List Node} (hns : ∀ n ∈ ns, N n) (l : Ledger) :
    FailsWith P (enterNodes s a r ns l).1 := by
  induction ns generalizing l with
  | nil => trivial
  | cons n ns ih =>
    have hrest := ih fun m hm => hns m (List.mem_cons_of_mem _ hm)
    have hruns := h.runs (hns n (List.mem_cons_self ..))
    rw [enterNodes]
    split
    · exact hrest l
    · split
      · next he => rwa [he] at hruns
      · exact hrest _

theorem projectLines_failsWith (hns : ∀ n ∈ a.walkAll .pre, N n) (l : Ledger) :
    FailsWith P (l.projectLines s a r).1 := by
  have hlines := enterNodes_failsWith h (s := s) hns l
  rw [projectLines]
  split
  · next he => rwa [← enterLines, he] at hlines
  · trivial

theorem entry_failsWith {n : Node} (hn : N n) (l : Ledger) :
    FailsWith P (l.entry s a r n).1 := by
  have hcases := entry_cases s a r n l
  generalize l.entry s a r n = made at hcases ⊢
  cases hcases with
  | none _ => trivial
  | @failed kind span e _ _ he =>
    have hpaths := h.paths span hn s
    rwa [he] at hpaths
  | made _ _ _ => trivial

theorem entriesOf_failsWith {ns : List Node} (hns : ∀ n ∈ ns, N n) (l : Ledger) :
    FailsWith P (entriesOf s a r ns l).1 := by
  induction ns generalizing l with
  | nil => trivial
  | cons n ns ih =>
    have hentry := entry_failsWith h (s := s) (hns n (List.mem_cons_self ..)) l
    rw [entriesOf]
    split
    · next he => rwa [he] at hentry
    · next found l₁ _ =>
      have hrest := ih (fun m hm => hns m (List.mem_cons_of_mem _ hm)) l₁
      split
      · next he => rwa [he] at hrest
      · trivial

theorem entries_failsWith (hns : ∀ n ∈ a.walkAll .post, N n) (l : Ledger) :
    FailsWith P (l.entries s a r).1 :=
  entriesOf_failsWith h (fun n hn => hns n (List.mem_of_mem_filter hn)) l

end Reading

theorem enterNodes_unchecked (s : Settings) (check : Bool) (a : Arena) (r : Recording)
    (ns : List Node) (l : Ledger) :
    enterNodes { s with verifyUnique := check } a r ns l = enterNodes s a r ns l := by
  induction ns generalizing l with
  | nil => rfl
  | cons n ns ih =>
    simp only [enterNodes, ih]
    rfl

theorem entriesOf_unchecked (s : Settings) (check : Bool) (a : Arena) (r : Recording)
    (ns : List Node) (l : Ledger) :
    entriesOf { s with verifyUnique := check } a r ns l = entriesOf s a r ns l := by
  induction ns generalizing l with
  | nil => rfl
  | cons n ns ih =>
    simp only [entriesOf, ih]
    rfl

end Ledger

namespace Settings

variable {s : Settings} {unit : String} {t : Tree} {r : Recording}

theorem analyse_of_firstLine_eq_zero (h : s.firstLine = 0) (unit : String) (t : Tree)
    (r : Recording) : s.analyse unit t r = .error (.settings .firstLineZero) := by
  rw [analyse, validate, if_pos h]
  rfl

theorem analyse_failsWith (hfirst : s.firstLine ≠ 0) (unit : String) (t : Tree)
    (r : Recording) :
    FailsWith (fun f => ∃ e, f = .recording unit e ∧ r.FailsAt t e) (s.analyse unit t r) := by
  have hread := (Arena.stands_ofTree 0 t).reading r
  have hwalk : ∀ order, ∀ n ∈ (Arena.ofTree 0 t).walkAll order, n ∈ t.layout none 0 0 :=
    fun order n hn => (Arena.walkAll_perm order 0 t).subset hn
  have hlines := Ledger.projectLines_failsWith hread (s := s) (hwalk .pre) (Ledger.afterBuild t)
  have hbranches := Ledger.entries_failsWith hread (s := s) (hwalk .post) (Ledger.afterBuild t)
  rw [analyse_eq, validate, if_neg hfirst]
  refine FailsWith.bind (x := .ok ()) trivial fun _ => ?_
  refine (hlines.mapError fun e he => ⟨e, rfl, he⟩).bind fun lines => ?_
  exact (hbranches.mapError fun e he => ⟨e, rfl, he⟩).bind fun branches => trivial

structure FailsPlainly (s : Settings) (unit : String) (t : Tree) (r : Recording) : Prop where
  settings : ∀ cause, s.analyse unit t r = .error (.settings cause) ↔
    cause = .firstLineZero ∧ s.firstLine = 0
  causes : ∀ f, s.analyse unit t r = .error f →
    f = .settings .firstLineZero ∨ ∃ e, f = .recording unit e ∧ r.FailsAt t e
  unchecked : ∀ check, { s with verifyUnique := check }.analyse unit t r = s.analyse unit t r

theorem failsPlainly (s : Settings) (unit : String) (t : Tree) (r : Recording) :
    s.FailsPlainly unit t r where
  settings cause := by
    by_cases hfirst : s.firstLine = 0
    · rw [analyse_of_firstLine_eq_zero hfirst]
      simp [hfirst, eq_comm]
    · have hplain := analyse_failsWith hfirst unit t r
      refine iff_of_false (fun h => ?_) fun h => hfirst h.2
      rw [h] at hplain
      obtain ⟨e, he, -⟩ := hplain
      exact nomatch he
  causes f h := by
    by_cases hfirst : s.firstLine = 0
    · rw [analyse_of_firstLine_eq_zero hfirst] at h
      exact .inl (Except.error.inj h).symm
    · have hplain := analyse_failsWith hfirst unit t r
      rw [h] at hplain
      exact .inr hplain
  unchecked check := by
    simp only [analyse_eq, Ledger.projectLines, Ledger.enterLines, Ledger.entries,
      Ledger.enterNodes_unchecked, Ledger.entriesOf_unchecked]
    rfl

theorem FailsPlainly.isFatal (h : s.FailsPlainly unit t r) {f : Failure}
    (hf : s.analyse unit t r = .error f) : f.isFatal = false := by
  rcases h.causes f hf with rfl | ⟨e, rfl, -⟩ <;> rfl

end Settings

namespace Batch

theorem hasFatal_add (b : Batch) (name : String) (t : Tree) (r : Recording) :
    (b.add name t r).hasFatal = b.hasFatal := by
  have hunit : ∀ f, Item.failure? ⟨name, b.settings.analyse name t r⟩ = some f →
      f.isFatal = false := by
    intro f hf
    unfold Item.failure? at hf
    split at hf
    · next he =>
      obtain rfl := Option.some.inj hf
      exact (b.settings.failsPlainly name t r).isFatal he
    · simp at hf
  simp only [hasFatal, abandoned, add, List.filterMap_append, List.any_append]
  cases hitem : Item.failure? ⟨name, b.settings.analyse name t r⟩ with
  | none => simp [hitem]
  | some f => simp [hitem, hunit f hitem]

def addAll (b : Batch) (units : List (String × Tree × Recording)) : Batch :=
  units.foldl (fun b u => b.add u.1 u.2.1 u.2.2) b

theorem hasFatal_addAll (b : Batch) (units : List (String × Tree × Recording)) :
    (b.addAll units).hasFatal = b.hasFatal := by
  induction units generalizing b with
  | nil => rfl
  | cons u units ih => exact (ih _).trans (hasFatal_add b u.1 u.2.1 u.2.2)

end Batch

def Node.overruns (length : Nat) (n : Node) : Bool :=
  n.isExecutable && n.extent?.any fun e => decide (length < e.stop)

namespace Tally

variable {tally : Tally} {lines : LineMap} (hlines : tally.lines = some lines)

include hlines

theorem hits_of_stop_le {e : Extent} (h : e.stop ≤ lines.length) :
    tally.hits e = .ok ((tally.counts.find? e).map (·.hits)) := by
  simp only [hits, checkBounds, hlines, if_neg (Nat.not_lt.2 h)]
  rfl

theorem completions_of_stop_le {e : Extent} (h : e.stop ≤ lines.length) :
    tally.completions e = .ok ((tally.counts.find? e).bind (·.completions)) := by
  simp only [completions, checkBounds, hlines, if_neg (Nat.not_lt.2 h)]
  rfl

theorem hits_of_lt_stop {e : Extent} (h : lines.length < e.stop) :
    tally.hits e = .error (.outOfBounds e) := by
  simp only [hits, checkBounds, hlines, if_pos h]
  rfl

theorem answersFor {t : Tree}
    (h : ∀ site ∈ t.sites, ∀ span ∈ site.spans, span.extent.stop ≤ lines.length) :
    tally.recording.AnswersFor t where
  hits site hsite span hspan := ⟨_, hits_of_stop_le hlines (h site hsite span hspan)⟩
  completions site hsite :=
    ⟨_, completions_of_stop_le hlines (h site hsite site.whole (List.mem_cons_self ..))⟩

theorem breaksOff (a : Arena) {ns : List Node} {n : Node}
    (hfind : ns.find? (·.overruns lines.length) = some n) :
    ∃ e before, n.extent? = some e ∧
      a.BreaksOff tally.recording ns (.outOfBounds e) before n := by
  obtain ⟨hover, before, after, rfl, hbefore⟩ := List.find?_eq_some_iff_append.1 hfind
  obtain ⟨hexec, hstop⟩ := Bool.and_eq_true_iff.1 hover
  obtain ⟨e, he, hlt⟩ := (Option.any_eq_true ..).1 hstop
  refine ⟨e, before, he, ⟨after, rfl⟩, fun m hm hcounted => ?_, ?_, ?_⟩
  · have hm := hbefore m hm
    have hexec := Arena.isExecutable_of_countedLine? hcounted
    refine Arena.runs_ok_of_hits hexec fun e he => ⟨_, hits_of_stop_le hlines ?_⟩
    simpa [Node.overruns, hexec, Option.mem_def.1 he] using hm
  · obtain ⟨site, hsite, -⟩ := Option.map_eq_some_iff.1 he
    simp [Node.countedLine?, hexec, Node.span?, hsite]
  · rw [Arena.runs_of_isExecutable hexec, Arena.recordedRuns, Arena.recordedHits, he]
    show (tally.hits e).map _ = _
    rw [hits_of_lt_stop hlines (of_decide_eq_true hlt)]
    rfl

end Tally

namespace Settings

/-- What becomes of a unit when the recording knows how long its text is. With all spans in the text
it is analysed, and of the executable nodes that end behind the text the first one is refused. -/
structure BoundsChecked (s : Settings) (unit : String) (t : Tree) (tally : Tally)
    (length : Nat) : Prop where
  within : (∀ site ∈ t.sites, ∀ span ∈ site.spans, span.extent.stop ≤ length) →
    ∃ p, s.analyse unit t tally.recording = .ok p
  overrun : (∃ n ∈ (Arena.ofTree 0 t).nodes.toList, n.overruns length = true) →
    ∃ n e, ((Arena.ofTree 0 t).walkAll .pre).find? (·.overruns length) = some n ∧
      n.extent? = some e ∧
      s.analyse unit t tally.recording = .error (.recording unit (.outOfBounds e))

theorem boundsChecked {s : Settings} (hfirst : 1 ≤ s.firstLine) {tally : Tally} {lines : LineMap}
    (hlines : tally.lines = some lines) (unit : String) (t : Tree) :
    s.BoundsChecked unit t tally lines.length where
  within h := by
    obtain ⟨es, hes, -⟩ := analyse_of_answersFor (tally.answersFor hlines h) hfirst unit
    exact ⟨_, hes⟩
  overrun h := by
    obtain ⟨m, hm, hover⟩ := h
    have hwalked : m ∈ (Arena.ofTree 0 t).walkAll .pre :=
      (Arena.walkAll_perm .pre 0 t).symm.subset hm
    have hfound := List.find?_isSome.2 ⟨m, hwalked, hover⟩
    obtain ⟨n, hn⟩ := Option.isSome_iff_exists.1 hfound
    obtain ⟨e, before, he, hbreak⟩ := tally.breaksOff hlines _ hn
    refine ⟨n, e, hn, he, ?_⟩
    have hvalid : s.validate = .ok () := if_neg (Nat.ne_of_gt hfirst)
    rw [analyse_eq, hvalid, Ledger.projectLines_of_breaksOff hbreak]
    rfl

/-- The analysis of a unit fails for two reasons only, so no batch is ever in a fatal state. A tally
that knows the length of its text refuses the first executable node that does not end in it. -/
theorem analyse_causes (s : Settings) (unit : String) (t : Tree) :
    (∀ r, s.FailsPlainly unit t r) ∧
      (∀ units, ((Batch.ofSettings s).addAll units).hasFatal = false) ∧
      ∀ tally lines, tally.lines = some lines → 1 ≤ s.firstLine →
        s.BoundsChecked unit t tally lines.length := by
  refine ⟨s.failsPlainly unit t, fun units => ?_, fun tally lines hlines hfirst => ?_⟩
  · exact Batch.hasFatal_addAll _ units
  · exact boundsChecked hfirst hlines unit t

def cutOff : Tree :=
  let span (start stop : Nat) : Span := ⟨⟨start, stop⟩, ⟨1, start⟩, ⟨1, stop⟩⟩
  let int (start stop : Nat) : Item := .tree (.node "int" [] (some ⟨span start stop, none⟩))
  .node "begin" [int 0 5,
    .tree (.node "send" [int 6 11, int 17 24] (some ⟨span 6 25, some (span 12 16)⟩)), int 26 28]
    (some ⟨span 0 30, none⟩)

theorem analyse_causes_cutOff :
    let s := default
    let tally := Tally.empty.withLines ⟨[0], 20⟩
    (tally.lines = some ⟨[0], 20⟩ ∧ 1 ≤ s.firstLine) ∧
      s.analyse "cut" cutOff tally.recording =
        .error (.recording "cut" (.outOfBounds ⟨6, 25⟩)) ∧
      (∃ p, s.analyse "literal" Ledger.loneLiteral tally.recording = .ok p) ∧
      ((Batch.ofSettings s).addAll [("cut", cutOff, tally.recording)]).hasFatal = false := by
  intro s tally
  have hlines : tally.lines = some ⟨[0], 20⟩ := rfl
  have hfirst : 1 ≤ s.firstLine := Nat.le_refl 1
  obtain ⟨-, hfatal, hcut⟩ := analyse_causes s "cut" cutOff
  obtain ⟨-, -, hliteral⟩ := analyse_causes s "literal" Ledger.loneLiteral
  have hover : ∃ n ∈ (Arena.ofTree 0 cutOff).nodes.toList, n.overruns 20 = true := by
    decide +kernel
  have hwithin : ∀ site ∈ Ledger.loneLiteral.sites, ∀ span ∈ site.spans, span.extent.stop ≤ 20 := by
    decide +kernel
  refine ⟨⟨hlines, hfirst⟩, ?_, (hliteral tally _ hlines hfirst).within hwithin, hfatal _⟩
  obtain ⟨n, e, hn, he, hanalyse⟩ := (hcut tally _ hlines hfirst).overrun hover
  have hextent : (((Arena.ofTree 0 cutOff).walkAll .pre).find? (·.overruns 20)).bind Node.extent? =
      some ⟨6, 25⟩ := by
    decide +kernel
  have hsame : some e = some ⟨6, 25⟩ := by
    rw [← he, ← hextent, hn]
    rfl
  rw [hanalyse, Option.some.inj hsame]

end Settings

end SyntaxCoverage
