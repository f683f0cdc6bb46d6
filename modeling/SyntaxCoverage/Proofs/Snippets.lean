import SyntaxCoverage.Proofs.Encoding
import SyntaxCoverage.Proofs.Positions

/-!
Finding snippets in a text. A snippet is found where its characters stand, as often as a scan of the
text finds it, at the offsets and positions counted in characters. Main statements:
`SourceText.find?_exact` and `SourceText.spanBetween_encloses_iff`.
-/

namespace SyntaxCoverage.SourceText

open Text (bytes countCharacters byteOffset)

structure IsNext (xs cs : List Char) (i : Nat) (e : Extent) : Prop where
  notBefore : i ≤ e.start
  within : e.stop ≤ cs.length
  reads : cs.extract e.start e.stop = xs
  noneBetween : ∀ k, i ≤ k → k < e.start → ¬OccursAt xs cs k

theorem isNext_of_firstFrom {xs cs : List Char} {i j : Nat} (h : FirstFrom xs cs i j) :
    IsNext xs cs i ⟨j, j + xs.length⟩ where
  notBefore := h.le
  within := h.occurs.add_length_le
  reads := h.occurs.extract_eq
  noneBetween := h.first

/-- How a text is to find a snippet: as often as a scan of the characters does, each time at the
next occurrence behind the one before. A scan of the encoded text finds the same occurrences, whose
offsets are the numbers of characters in front of them. -/
structure Finds (text snippet : String) (found : List Nat) : Prop where
  scanned : ∀ js, Scan snippet.toList text.toList 0 js ↔ js = found
  encoded : ∃ bs, Scan (bytes snippet.toList) (bytes text.toList) 0 bs ∧
    found = bs.map fun b => countCharacters ((bytes text.toList).take b)
  counted : ∀ n, ((ofString text).find? snippet n).isSome = true ↔ n < found.length
  first : ∀ span, (ofString text).find? snippet 0 = some span →
    IsNext snippet.toList text.toList 0 span.extent
  later : ∀ n before span, (ofString text).find? snippet n = some before →
    (ofString text).find? snippet (n + 1) = some span →
      IsNext snippet.toList text.toList before.extent.stop span.extent

section Finds

variable {text snippet : String}

theorem find?_eq_some_iff {n : Nat} {span : Span} :
    (ofString text).find? snippet n = some span ↔
      ∃ j, (occurrences snippet text.toList)[n]? = some j ∧
        span = (LineMap.ofText text).span ⟨j, j + snippet.toList.length⟩ := by
  rw [find?, Option.map_eq_some_iff]
  exact exists_congr fun j => and_congr_right fun _ => eq_comm

theorem finds_occurrences (h : snippet ≠ "") :
    Finds text snippet (occurrences snippet text.toList) := by
  have hscan := scan_occurrences h text.toList
  have hxs : snippet.toList ≠ [] := mt String.toList_eq_nil_iff.1 h
  constructor
  case scanned => exact fun js => ⟨fun hjs => hjs.unique hscan, fun heq => heq ▸ hscan⟩
  case encoded =>
    refine ⟨_, Text.scan_bytes hxs (Nat.zero_le _) hscan, ?_⟩
    rw [List.map_map, eq_comm, ← List.map_id (occurrences snippet text.toList), List.map_map]
    exact List.map_congr_left fun j hj =>
      Text.countCharacters_take_byteOffset (hscan.occursAt_of_mem hj).1
  case counted =>
    intro n
    simp [find?, ofString]
  case first =>
    intro span hspan
    obtain ⟨j, hj, rfl⟩ := find?_eq_some_iff.1 hspan
    rw [← List.head?_eq_getElem?, hscan.head?_eq_some_iff] at hj
    exact isNext_of_firstFrom hj
  case later =>
    intro n before span hbefore hspan
    obtain ⟨i, hi, rfl⟩ := find?_eq_some_iff.1 hbefore
    obtain ⟨j, hj, rfl⟩ := find?_eq_some_iff.1 hspan
    exact isNext_of_firstFrom (hscan.firstFrom_succ hi hj)

theorem find?_empty (text : String) (n : Nat) : (ofString text).find? "" n =
    if n ≤ text.toList.length then some ((LineMap.ofText text).span ⟨n, n⟩) else none := by
  show (occurrences "" text.toList)[n]?.map _ = _
  rw [occurrences_empty]
  split
  · next hle =>
    rw [List.getElem?_range (Nat.lt_succ_of_le hle)]
    rfl
  · next hgt =>
    have hbehind : (List.range (text.toList.length + 1)).length ≤ n := by
      rw [List.length_range]
      exact Nat.not_le.1 hgt
    rw [List.getElem?_eq_none hbehind]
    rfl

theorem within_of_find? {n : Nat} {span : Span} (h : (ofString text).find? snippet n = some span) :
    span.extent.start ≤ text.toList.length ∧ span.extent.stop ≤ text.toList.length := by
  by_cases hempty : snippet = ""
  · rw [hempty, find?_empty, Option.ite_none_right_eq_some] at h
    obtain ⟨hle, hspan⟩ := h
    obtain rfl := Option.some.inj hspan
    exact ⟨hle, hle⟩
  · obtain ⟨j, hj, rfl⟩ := find?_eq_some_iff.1 h
    have hoccurs :=
      (scan_occurrences hempty text.toList).occursAt_of_mem (List.mem_of_getElem? hj)
    exact ⟨hoccurs.1, hoccurs.add_length_le⟩

theorem positioned_of_find? (htext : text.toList.length ≤ maxIndex) {n : Nat} {span : Span}
    (h : (ofString text).find? snippet n = some span) :
    LineMap.Positioned span.first text.toList span.extent.start ∧
      LineMap.Positioned span.last text.toList span.extent.stop := by
  obtain ⟨hstart, hstop⟩ := within_of_find? h
  obtain ⟨j, -, rfl⟩ := find?_eq_some_iff.1 h
  exact ⟨LineMap.positioned_position htext hstart, LineMap.positioned_position htext hstop⟩

end Finds

/-- A snippet is found wherever its characters stand behind the occurrence before, and nowhere else;
the empty one is found once at every offset. The ends of what is found have the positions of their
offsets, except behind line feeds only, and as many as there can be. -/
theorem find?_exact (text : String) :
    (∀ snippet, snippet ≠ "" → ∃ found, Finds text snippet found) ∧
      (∀ n, ((ofString text).find? "" n).map (·.extent) =
        if n ≤ text.toList.length then some ⟨n, n⟩ else none) ∧
      (text.toList.length ≤ maxIndex →
        ∀ snippet n span, (ofString text).find? snippet n = some span →
          LineMap.Positioned span.first text.toList span.extent.start ∧
            LineMap.Positioned span.last text.toList span.extent.stop) := by
  refine ⟨fun snippet h => ⟨_, finds_occurrences h⟩, fun n => ?_, fun htext snippet n span => ?_⟩
  · rw [find?_empty]
    split <;> rfl
  · exact positioned_of_find? htext

theorem find?_exact_overlapping :
    let text := "aéaéa\naéa😀"
    let span : Span := ⟨⟨6, 9⟩, ⟨2, 0⟩, ⟨2, 3⟩⟩
    (text.toList.length ≤ maxIndex ∧ "aéa" ≠ "" ∧
      ¬LineMap.Exhausted text.toList span.extent.stop) ∧
    Finds text "aéa" [0, 6] ∧ (ofString text).find? "aéa" 1 = some span ∧
      IsNext "aéa".toList text.toList 3 span.extent ∧
      span.first.Marks text.toList span.extent.start ∧
      span.last.Marks text.toList span.extent.stop ∧ (ofString text).find? "aéa" 2 = none ∧
      ((ofString text).find? "" 10).map (·.extent) = some ⟨10, 10⟩ := by
  intro text span
  have htext : text.toList.length ≤ maxIndex := by decide
  have hne : "aéa" ≠ "" := by decide
  have hin : ∀ o < text.toList.length, ¬LineMap.Exhausted text.toList o :=
    fun o ho => LineMap.not_exhausted_of_lt ho
  obtain ⟨hfound, hempty, hpositioned⟩ := find?_exact text
  obtain ⟨found, hfinds⟩ := hfound "aéa" hne
  have hscan : Scan "aéa".toList text.toList 0 [0, 6] := by
    have hoccurrences : occurrences "aéa" text.toList = [0, 6] := by decide +kernel
    exact hoccurrences ▸ scan_occurrences hne text.toList
  obtain rfl := (hfinds.scanned _).1 hscan
  have hzero : (ofString text).find? "aéa" 0 = some ⟨⟨0, 3⟩, ⟨1, 0⟩, ⟨1, 3⟩⟩ := by decide +kernel
  have hone : (ofString text).find? "aéa" 1 = some span := by decide +kernel
  obtain ⟨hfirst, hlast⟩ := hpositioned htext _ _ _ hone
  exact ⟨⟨htext, hne, hin 9 (by decide)⟩, hfinds, hone, hfinds.later 0 _ _ hzero hone,
    hfirst.marks_iff.2 (hin 6 (by decide)), hlast.marks_iff.2 (hin 9 (by decide)),
    by decide +kernel, (hempty 10).trans (if_pos (by decide))⟩

theorem occurrencesFrom_lineFeeds (k n : Nat) :
    occurrencesFrom ['\n'] k 0 (List.replicate n '\n') = List.range' k n := by
  induction n generalizing k with
  | zero => rfl
  | succ n ih =>
    rw [List.replicate_succ, occurrencesFrom, List.range'_succ]
    exact congrArg (k :: ·) (ih (k + 1))

theorem find?_lineFeed {n k : Nat} (hk : k < n) :
    (ofString (String.ofList (List.replicate n '\n'))).find? "\n" k =
      some ((LineMap.ofText (String.ofList (List.replicate n '\n'))).span ⟨k, k + 1⟩) := by
  refine find?_eq_some_iff.2 ⟨k, ?_, rfl⟩
  show (occurrencesFrom ['\n'] 0 0 (String.ofList (List.replicate n '\n')).toList)[k]? = some k
  rw [String.toList_ofList, occurrencesFrom_lineFeeds, List.getElem?_range' hk, Nat.zero_add, Nat.one_mul]

theorem find?_lastLineFeed :
    let text := String.ofList (List.replicate maxIndex '\n')
    let span : Span := ⟨⟨maxIndex - 1, maxIndex⟩, ⟨maxIndex, 0⟩, ⟨0, 0⟩⟩
    text.toList.length ≤ maxIndex ∧ (ofString text).find? "\n" (maxIndex - 1) = some span ∧
      ¬span.last.Marks text.toList span.extent.stop := by
  intro text span
  have hlast : maxIndex - 1 + 1 = maxIndex := by decide
  have hfirstLine : (1 + (maxIndex - 1)) % (maxIndex + 1) = maxIndex := by decide
  have hlastLine : (1 + maxIndex) % (maxIndex + 1) = 0 := by decide
  refine ⟨?_, ?_, fun hmarks => hmarks.line_ne_zero rfl⟩
  · rw [String.toList_ofList, List.length_replicate]
  · rw [find?_lineFeed (Nat.lt_of_succ_le hlast.le), hlast, LineMap.span,
      LineMap.position_lineFeeds (Nat.sub_le ..), LineMap.position_lineFeeds (Nat.le_refl _),
      hfirstLine, hlastLine]

section Between

variable {text start stop : String}

/-- What the span between two snippets is to cover: the whole first occurrence of one of them, and
from there on no more than up to the end of the first occurrence of the other behind it. -/
structure Encloses (xs ys cs : List Char) (e : Extent) : Prop where
  opens : FirstFrom xs cs 0 e.start
  closes : ∃ j, e.start + xs.length ≤ j ∧ OccursAt ys cs j ∧ e.stop = j + ys.length
  shortest : ∀ j, e.start + xs.length ≤ j → OccursAt ys cs j → e.stop ≤ j + ys.length

inductive AnswersBetween (text start stop : String) : Except SnippetError Span → Prop
  | absent : (∀ i, ¬OccursAt start.toList text.toList i) →
      AnswersBetween text start stop (.error (.absent start 0))
  | absentAfter {i : Nat} : FirstFrom start.toList text.toList 0 i →
      (∀ j, i ≤ j → ¬OccursAt stop.toList text.toList j) →
      AnswersBetween text start stop (.error (.absentAfter stop start))
  | between {i j : Nat} : FirstFrom start.toList text.toList 0 i →
      FirstFrom stop.toList text.toList i j →
      AnswersBetween text start stop
        (.ok ((LineMap.ofText text).span ⟨i, j + stop.toList.length⟩))

theorem Encloses.whole {xs ys cs : List Char} {e : Extent} (h : Encloses xs ys cs e) :
    e.start + xs.length ≤ e.stop := by
  obtain ⟨j, hbehind, -, hstop⟩ := h.closes
  omega

theorem spanBetween_eq (text start stop : String) :
    (ofString text).spanBetween start stop =
      match occurrences start text.toList with
      | [] => .error (.absent start 0)
      | i :: _ =>
        match occurrences stop (text.toList.drop i) with
        | [] => .error (.absentAfter stop start)
        | d :: _ => .ok ((LineMap.ofText text).span ⟨i, i + d + stop.toList.length⟩) := by
  rw [spanBetween, spanOf, find?, ofString]
  cases occurrences start text.toList <;> rfl

theorem answersBetween_spanBetween (hstart : start ≠ "") (hstop : stop ≠ "") :
    AnswersBetween text start stop ((ofString text).spanBetween start stop) := by
  have hstarts := scan_occurrences hstart text.toList
  rw [spanBetween_eq]
  cases hs : occurrences start text.toList with
  | nil => exact .absent fun i => hstarts.eq_nil_iff.1 hs i (Nat.zero_le i)
  | cons i is =>
    have hi : FirstFrom start.toList text.toList 0 i :=
      hstarts.head?_eq_some_iff.1 (by rw [hs]; rfl)
    have hstops := scan_occurrences hstop (text.toList.drop i)
    dsimp only
    cases hd : occurrences stop (text.toList.drop i) with
    | nil =>
      refine .absentAfter hi fun j hij hoccurs => ?_
      obtain ⟨d, rfl⟩ := Nat.exists_eq_add_of_le hij
      exact hstops.eq_nil_iff.1 hd d (Nat.zero_le d) ((occursAt_drop_iff hi.occurs.1).2 hoccurs)
    | cons d ds =>
      have hj : FirstFrom stop.toList (text.toList.drop i) 0 d :=
        hstops.head?_eq_some_iff.1 (by rw [hd]; rfl)
      exact .between hi ((firstFrom_drop_iff hi.occurs.1).1 hj)

theorem AnswersBetween.unique {a b : Except SnippetError Span}
    (ha : AnswersBetween text start stop a) (hb : AnswersBetween text start stop b) : a = b := by
  cases ha with
  | absent hnone =>
    cases hb with
    | absent => rfl
    | absentAfter hi => exact absurd hi.occurs (hnone _)
    | between hi => exact absurd hi.occurs (hnone _)
  | absentAfter hi hnone =>
    cases hb with
    | absent hnone' => exact absurd hi.occurs (hnone' _)
    | absentAfter => rfl
    | between hi' hj =>
      obtain rfl := hi.unique hi'
      exact absurd hj.occurs (hnone _ hj.le)
  | between hi hj =>
    cases hb with
    | absent hnone => exact absurd hi.occurs (hnone _)
    | absentAfter hi' hnone =>
      obtain rfl := hi.unique hi'
      exact absurd hj.occurs (hnone _ hj.le)
    | between hi' hj' =>
      obtain rfl := hi.unique hi'
      obtain rfl := hj.unique hj'
      rfl

theorem encloses_iff {xs ys cs : List Char} {i j : Nat} (hi : FirstFrom xs cs 0 i)
    (hj : FirstFrom ys cs i j) : Encloses xs ys cs ⟨i, j + ys.length⟩ ↔
      ∀ k, i ≤ k → k < i + xs.length → ¬OccursAt ys cs k := by
  constructor
  · intro h k hik hinside
    obtain ⟨j', hbehind, -, hstop⟩ := h.closes
    change i + xs.length ≤ j' at hbehind
    change j + ys.length = j' + ys.length at hstop
    exact hj.first k hik (by omega)
  · intro hnone
    have hbehind : i + xs.length ≤ j := by
      by_contra hinside
      exact hnone j hj.le (Nat.not_le.1 hinside) hj.occurs
    refine ⟨hi, ⟨j, hbehind, hj.occurs, rfl⟩, fun k hk hoccurs => ?_⟩
    have hjk : j ≤ k := by
      by_contra hlt
      exact hj.first k ((Nat.le_add_right ..).trans hk) (Nat.not_le.1 hlt) hoccurs
    exact Nat.add_le_add_right hjk _

end Between

/-- The span between two snippets runs from the first occurrence of the first to the next of the
second that begins no earlier. So it encloses both just in case the second does not begin within
that occurrence of the first. -/
theorem spanBetween_encloses_iff {text start stop : String} (hstart : start ≠ "")
    (hstop : stop ≠ "") :
    (∀ answer, (ofString text).spanBetween start stop = answer ↔
        AnswersBetween text start stop answer) ∧
      ∀ span, (ofString text).spanBetween start stop = .ok span →
        (Encloses start.toList stop.toList text.toList span.extent ↔
          ∀ k, span.extent.start ≤ k → k < span.extent.start + start.toList.length →
            ¬OccursAt stop.toList text.toList k) := by
  have hright : AnswersBetween text start stop ((ofString text).spanBetween start stop) :=
    answersBetween_spanBetween hstart hstop
  refine ⟨fun answer => ⟨fun heq => heq ▸ hright, hright.unique⟩, fun span hspan => ?_⟩
  rw [hspan] at hright
  cases hright with
  | between hi hj => exact encloses_iff hi hj

theorem spanBetween_encloses_iff_loop :
    let text := "x\nbegin\n  x += 1\nend while x < 10"
    let span : Span := ⟨⟨2, 20⟩, ⟨2, 0⟩, ⟨4, 3⟩⟩
    "begin" ≠ "" ∧ "end" ≠ "" ∧ (ofString text).spanBetween "begin" "end" = .ok span ∧
      AnswersBetween text "begin" "end" (.ok span) ∧
      Encloses "begin".toList "end".toList text.toList span.extent := by
  intro text span
  have hbegin : "begin" ≠ "" := by decide
  have hend : "end" ≠ "" := by decide
  have hspan : (ofString text).spanBetween "begin" "end" = .ok span := by decide +kernel
  have hnone : ∀ k < 7, 2 ≤ k → ¬OccursAt "end".toList text.toList k := by decide +kernel
  obtain ⟨hanswers, hencloses⟩ := @spanBetween_encloses_iff text _ _ hbegin hend
  refine ⟨hbegin, hend, hspan, (hanswers _).1 hspan, (hencloses span hspan).2 ?_⟩
  exact fun k hk hlt => hnone k hlt hk

theorem spanBetween_ends_inside :
    let text := "a + a"
    (ofString text).spanBetween "a +" "a" = .ok ⟨⟨0, 1⟩, ⟨1, 0⟩, ⟨1, 1⟩⟩ ∧
      ¬Encloses "a +".toList "a".toList text.toList ⟨0, 1⟩ ∧
      Encloses "a +".toList "a".toList text.toList ⟨0, 5⟩ := by
  intro text
  have hbehind : ∀ j, 3 ≤ j → OccursAt "a".toList text.toList j → 4 ≤ j := by
    intro j hj hoccurs
    have hblank : ¬OccursAt "a".toList text.toList 3 := by decide
    exact Nat.lt_of_le_of_ne hj fun heq => hblank (heq ▸ hoccurs)
  refine ⟨by decide +kernel, fun h => absurd h.whole (by decide), ?_, ⟨4, by decide⟩, ?_⟩
  · exact ⟨Nat.le_refl _, by decide, fun k _ hk => absurd hk (Nat.not_lt_zero k)⟩
  · exact fun j hj hoccurs => Nat.succ_le_succ (hbehind j hj hoccurs)

end SyntaxCoverage.SourceText
