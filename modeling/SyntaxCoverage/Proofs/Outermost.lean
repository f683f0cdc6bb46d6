import Mathlib.Data.List.Pairwise
import SyntaxCoverage.Proofs.Positions
import SyntaxCoverage.Proofs.Sums

/-!
The hits at a position. Extents that start together stand next to one another in a tally, in the
order of their stops, so that of all that start at an offset the outermost comes last. Main
statement: `Tally.hitsAt_outermost`.
-/

namespace SyntaxCoverage

namespace Tally

/-- What a tally is to answer at a position of a text of these characters. -/
inductive AnswersAt (t : Tally) (cs : List Char) (p : Position) : Option Nat → Prop
  | nowhere : (∀ o, ¬p.Marks cs o) → AnswersAt t cs p none
  | unrecorded {o : Nat} : p.Marks cs o → (∀ r ∈ t.records, r.extent.start ≠ o) →
      AnswersAt t cs p none
  | outermost {r : HitRecord} : r ∈ t.records → p.Marks cs r.extent.start →
      (∀ s ∈ t.records, s.extent.start = r.extent.start → s.extent.stop ≤ r.extent.stop) →
      AnswersAt t cs p (some r.hits)

section Answers

variable {t : Tally} {cs : List Char} {p : Position} {r s : HitRecord}

theorem eq_of_extent_eq (hr : r ∈ t.records) (hs : s ∈ t.records) (h : r.extent = s.extent) :
    r = s := by
  rw [mem_records] at hr hs
  rw [h, hs] at hr
  obtain ⟨hhits, hcompletions⟩ := Counts.mk.inj (Option.some.inj hr)
  cases r
  cases s
  simp_all

theorem AnswersAt.unique {a b : Option Nat} (ha : t.AnswersAt cs p a) (hb : t.AnswersAt cs p b) :
    a = b := by
  cases ha with
  | nowhere hnowhere =>
    cases hb with
    | nowhere => rfl
    | unrecorded => rfl
    | outermost _ hmarks => exact absurd hmarks (hnowhere _)
  | unrecorded hmarks hnone =>
    cases hb with
    | nowhere => rfl
    | unrecorded => rfl
    | outermost hs hmarks' => exact absurd (hmarks'.unique hmarks) (hnone _ hs)
  | outermost hr hmarks houter =>
    cases hb with
    | nowhere hnowhere => exact absurd hmarks (hnowhere _)
    | unrecorded hmarks' hnone => exact absurd (hmarks.unique hmarks') (hnone _ hr)
    | outermost hs hmarks' houter' =>
      have hstart := hmarks.unique hmarks'
      have hstop := Nat.le_antisymm (houter' _ hr hstart) (houter _ hs hstart.symm)
      rw [eq_of_extent_eq hr hs (Extent.ext hstart hstop)]

end Answers

section Query

variable {t : Tally} {r : HitRecord} {o : Nat}

theorem map_between (hfits : ∀ r ∈ t.records, r.extent.Ordered ∧ r.extent.stop ≤ maxIndex)
    (o : Nat) :
    (t.counts.between ⟨o, o⟩ ⟨o, maxIndex⟩).map (fun e => ⟨e.1, e.2.hits, e.2.completions⟩) =
      t.records.filter (·.extent.start == o) := by
  rw [records, List.filter_map, SortedMap.between]
  refine congrArg _ (List.filter_congr fun x hx => ?_)
  obtain ⟨hordered, hstop⟩ := hfits _ (List.mem_map_of_mem hx)
  rw [Bool.eq_iff_iff, Bool.and_eq_true, Extent.isLE_compare_iff, Extent.isLE_compare_iff,
    Function.comp_apply, beq_iff_eq]
  change x.1.start ≤ x.1.stop at hordered
  change x.1.stop ≤ maxIndex at hstop
  change (o < x.1.start ∨ o = x.1.start ∧ o ≤ x.1.stop) ∧
    (x.1.start < o ∨ x.1.start = o ∧ x.1.stop ≤ maxIndex) ↔ x.1.start = o
  omega

theorem stop_le_of_getLast? (hlast : (t.records.filter (·.extent.start == o)).getLast? = some r)
    {s : HitRecord} (hs : s ∈ t.records) (hstart : s.extent.start = o) :
    s.extent.stop ≤ r.extent.stop := by
  have hmem : s ∈ t.records.filter (·.extent.start == o) :=
    List.mem_filter.2 ⟨hs, beq_iff_eq.2 hstart⟩
  have hstops : (t.records.filter (·.extent.start == o)).Pairwise fun r s =>
      r.extent.stop ≤ s.extent.stop := by
    refine (t.ascending_records.filter _).imp_of_mem fun {a b} ha hb hlt => ?_
    have hsame : a.extent.start = b.extent.start :=
      (beq_iff_eq.1 (List.mem_filter.1 ha).2).trans (beq_iff_eq.1 (List.mem_filter.1 hb).2).symm
    rcases hlt with hlt | ⟨-, hlt⟩
    · exact absurd hsame hlt.ne
    · exact hlt.le
  have hrefl : Std.Refl fun r s : HitRecord => r.extent.stop ≤ s.extent.stop :=
    ⟨fun _ => Nat.le_refl _⟩
  rw [List.getLast?_eq_some_getLast (List.ne_nil_of_mem hmem), Option.some.injEq] at hlast
  exact hlast ▸ hstops.rel_getLast hmem

theorem exists_answersAt {text : String} (ht : t.lines = some (.ofText text))
    (hfits : ∀ r ∈ t.records, r.extent.Ordered ∧ r.extent.stop ≤ maxIndex) (p : Position) :
    ∃ answer, t.hitsAt p = .ok answer ∧ t.AnswersAt text.toList p answer := by
  cases hoffset : (LineMap.ofText text).offset? p with
  | none =>
    refine ⟨none, by simp only [hitsAt, ht, hoffset], .nowhere fun o hmarks => ?_⟩
    rw [LineMap.offset?_eq_some_iff_marks.2 hmarks] at hoffset
    cases hoffset
  | some o =>
    have hmarks := LineMap.offset?_eq_some_iff_marks.1 hoffset
    have hanswer : t.hitsAt p =
        .ok ((t.records.filter (·.extent.start == o)).getLast?.map (·.hits)) := by
      rw [← map_between hfits, List.getLast?_map, Option.map_map]
      simp only [hitsAt, ht, hoffset]
      rfl
    refine ⟨_, hanswer, ?_⟩
    cases hlast : (t.records.filter (·.extent.start == o)).getLast? with
    | none =>
      have hnone := List.filter_eq_nil_iff.1 (List.getLast?_eq_none_iff.1 hlast)
      exact .unrecorded hmarks fun r hr hstart => hnone r hr (beq_iff_eq.2 hstart)
    | some r =>
      obtain ⟨hr, hstart⟩ := List.mem_filter.1 (List.mem_of_getLast? hlast)
      obtain rfl := beq_iff_eq.1 hstart
      exact .outermost hr hmarks fun s hs => stop_le_of_getLast? hlast hs

end Query

/-- A tally with the lines of a text answers at each position of the text with the hits of the
outermost extent that starts there, and without lines it does not answer at all. -/
theorem hitsAt_outermost (t : Tally) :
    (t.lines = none →
        ∀ p, t.hitsAt p = .error (.unreadable "no line index attached to hit table")) ∧
      ∀ text : String, t.lines = some (.ofText text) →
        (∀ r ∈ t.records, r.extent.Ordered ∧ r.extent.stop ≤ maxIndex) →
          ∀ p, (∃ answer, t.hitsAt p = .ok answer) ∧
            ∀ answer, t.hitsAt p = .ok answer ↔ t.AnswersAt text.toList p answer := by
  refine ⟨fun ht p => by rw [hitsAt, ht], fun text ht hfits p => ?_⟩
  obtain ⟨answer, hanswer, hright⟩ := exists_answersAt ht hfits p
  refine ⟨⟨answer, hanswer⟩, fun other => ⟨fun hother => ?_, fun hother => ?_⟩⟩
  · obtain rfl := Except.ok.inj (hanswer.symm.trans hother)
    exact hright
  · rw [hanswer, hright.unique hother]

def nestedTally : Tally :=
  (ofRecords [⟨⟨3, 5⟩, 2, some 1⟩, ⟨⟨2, maxIndex⟩, 9, none⟩, ⟨⟨3, maxIndex⟩, 5, none⟩,
    ⟨⟨4, 5⟩, 7, none⟩, ⟨⟨1, 1⟩, 1, none⟩, ⟨⟨3, 3⟩, 4, none⟩]).withLines (.ofText "éb\ncd")

theorem hitsAt_outermost_nested :
    let cs := "éb\ncd".toList
    nestedTally.lines = some (.ofText "éb\ncd") ∧
      (∀ r ∈ nestedTally.records, r.extent.Ordered ∧ r.extent.stop ≤ maxIndex) ∧
      nestedTally.AnswersAt cs ⟨2, 0⟩ (some 5) ∧ nestedTally.AnswersAt cs ⟨1, 1⟩ (some 1) ∧
      nestedTally.AnswersAt cs ⟨2, 1⟩ (some 7) ∧ nestedTally.AnswersAt cs ⟨2, 2⟩ none ∧
      nestedTally.AnswersAt cs ⟨1, 3⟩ none ∧
      empty.lines = none ∧
      empty.hitsAt ⟨1, 0⟩ = .error (.unreadable "no line index attached to hit table") := by
  intro cs
  have hlines : nestedTally.lines = some (.ofText "éb\ncd") := rfl
  have hfits : ∀ r ∈ nestedTally.records, r.extent.Ordered ∧ r.extent.stop ≤ maxIndex := by
    decide +kernel
  have hanswers := (hitsAt_outermost nestedTally).2 _ hlines hfits
  refine ⟨hlines, hfits, ?_, ?_, ?_, ?_, ?_, rfl, (hitsAt_outermost empty).1 rfl ⟨1, 0⟩⟩
  all_goals exact ((hanswers _).2 _).1 (by decide +kernel)

end Tally

end SyntaxCoverage
