import Mathlib.Data.List.DropRight
import SyntaxCoverage.Bounds
import SyntaxCoverage.Proofs.Offsets
import SyntaxCoverage.Source.LineMap

/-!
Offsets and positions of a text. The starts of the lines ascend, so an offset lies on one line,
which is found from the offset (`place`) and from the number of the line (`offset?`). Each undoes
the other, and both keep the order. Numbers of lines wrap around (`position`), and the only one that
does in a text of as many characters as there can be is that of the line behind line feeds only.
Main statement: `LineMap.translates_ofText`.
-/

namespace SyntaxCoverage

namespace Position

def Before (p q : Position) : Prop := p.line < q.line ∨ p.line = q.line ∧ p.column < q.column

theorem Before.trans {p q r : Position} (h : p.Before q) (h' : q.Before r) : p.Before r := by
  unfold Before at *
  omega

theorem Before.asymm {p q : Position} (h : p.Before q) : ¬q.Before p := by
  unfold Before at *
  omega

theorem Before.irrefl (p : Position) : ¬p.Before p := fun h => h.asymm h

/-- The position behind some characters: the line counts the line feeds among them, and the column
the characters after the last of these. -/
def behind (cs : List Char) : Position :=
  ⟨1 + cs.count '\n', (cs.rtakeWhile (· ≠ '\n')).length⟩

theorem behind_replicate (n : Nat) : behind (List.replicate n '\n') = ⟨1 + n, 0⟩ := by
  have hnone : (List.replicate n '\n').rtakeWhile (· ≠ '\n') = [] := by
    rw [List.rtakeWhile_eq_nil_iff]
    intro hne
    simp [List.getLast_replicate]
  rw [behind, hnone, List.count_replicate_self]
  rfl

theorem behind_newLine (cs : List Char) : behind (cs ++ ['\n']) = ⟨(behind cs).line + 1, 0⟩ := by
  simp [behind, Nat.add_assoc]

theorem behind_concat {c : Char} (cs : List Char) (hc : c ≠ '\n') :
    behind (cs ++ [c]) = ⟨(behind cs).line, (behind cs).column + 1⟩ := by
  simp [behind, hc]

theorem before_behind_concat (cs : List Char) (c : Char) :
    (behind cs).Before (behind (cs ++ [c])) := by
  by_cases hc : c = '\n'
  · subst hc
    rw [behind_newLine]
    exact .inl (Nat.lt_succ_self _)
  · rw [behind_concat cs hc]
    exact .inr ⟨rfl, Nat.lt_succ_self _⟩

theorem before_behind_append (cs : List Char) {ds : List Char} (hds : ds ≠ []) :
    (behind cs).Before (behind (cs ++ ds)) := by
  induction ds generalizing cs with
  | nil => exact absurd rfl hds
  | cons d ds ih =>
    have hstep := before_behind_concat cs d
    rw [List.append_cons]
    by_cases hend : ds = []
    · rwa [hend, List.append_nil]
    · exact hstep.trans (ih (cs ++ [d]) hend)

theorem before_behind_take {cs : List Char} {o o' : Nat} (hlt : o < o') (ho' : o' ≤ cs.length) :
    (behind (cs.take o)).Before (behind (cs.take o')) := by
  have hsplit : cs.take o' = cs.take o ++ (cs.take o').drop o := by
    conv_lhs => rw [← List.take_append_drop o (cs.take o')]
    rw [List.take_take, Nat.min_eq_left hlt.le]
  rw [hsplit]
  refine before_behind_append _ fun hnil => ?_
  rw [List.drop_eq_nil_iff, List.length_take, Nat.min_eq_left ho'] at hnil
  omega

/-- The position is that of offset `o` in a text of these characters. -/
def Marks (p : Position) (cs : List Char) (o : Nat) : Prop :=
  o ≤ cs.length ∧ behind (cs.take o) = p

theorem Marks.line_ne_zero {p : Position} {cs : List Char} {o : Nat} (h : p.Marks cs o) :
    p.line ≠ 0 := by
  rw [← h.2, behind, Nat.add_comm]
  exact Nat.succ_ne_zero _

theorem Marks.unique {p : Position} {cs : List Char} {o o' : Nat} (h : p.Marks cs o)
    (h' : p.Marks cs o') : o = o' := by
  obtain ⟨ho, rfl⟩ := h
  obtain ⟨ho', heq⟩ := h'
  rcases Nat.lt_trichotomy o o' with hlt | rfl | hgt
  · exact absurd (heq ▸ before_behind_take hlt ho') (Before.irrefl _)
  · rfl
  · exact absurd (heq ▸ before_behind_take hgt ho) (Before.irrefl _)

end Position

namespace LineMap

section Starts

variable {cs : List Char} {k o s : Nat}

theorem startsAfter_concat (k : Nat) (cs : List Char) (c : Char) :
    startsAfter k (cs ++ [c]) =
      startsAfter k cs ++ if c = '\n' then [k + cs.length + 1] else [] := by
  induction cs generalizing k with
  | nil => rfl
  | cons d cs ih =>
    rw [List.cons_append, startsAfter, startsAfter, ih, List.length_cons,
      show k + 1 + cs.length = k + (cs.length + 1) by omega]
    split <;> rfl

theorem length_startsAfter (k : Nat) (cs : List Char) :
    (startsAfter k cs).length = cs.count '\n' := by
  induction cs generalizing k with
  | nil => rfl
  | cons c cs ih =>
    rw [startsAfter, List.count_cons]
    split
    · next hc => simp [hc, ih]
    · next hc => simp [hc, ih]

theorem bounds_of_mem_startsAfter (h : s ∈ startsAfter k cs) : k < s ∧ s ≤ k + cs.length := by
  induction cs generalizing k with
  | nil => simp [startsAfter] at h
  | cons c cs ih =>
    have hlater : s ∈ startsAfter (k + 1) cs → k < s ∧ s ≤ k + (c :: cs).length := by
      intro hs
      have hbounds := ih hs
      rw [List.length_cons]
      omega
    rw [startsAfter] at h
    split at h
    · rcases List.mem_cons.1 h with rfl | h
      · rw [List.length_cons]
        omega
      · exact hlater h
    · exact hlater h

theorem ascending_startsAfter (k : Nat) (cs : List Char) :
    (startsAfter k cs).Pairwise (· < ·) := by
  induction cs generalizing k with
  | nil => exact .nil
  | cons c cs ih =>
    rw [startsAfter]
    split
    · exact List.pairwise_cons.2 ⟨fun s hs => (bounds_of_mem_startsAfter hs).1, ih (k + 1)⟩
    · exact ih (k + 1)

theorem takeWhile_startsAfter (k o : Nat) (cs : List Char) :
    (startsAfter k cs).takeWhile (· ≤ k + o) = startsAfter k (cs.take o) := by
  induction cs generalizing k o with
  | nil => rw [List.take_nil]; rfl
  | cons c cs ih =>
    cases o with
    | zero =>
      have hlate : ∀ s ∈ startsAfter k (c :: cs), ¬s ≤ k := fun s hs =>
        Nat.not_le.2 (bounds_of_mem_startsAfter hs).1
      rw [List.take_zero, startsAfter.eq_1, List.takeWhile_eq_nil_iff]
      exact fun hpos hle => hlate _ (List.getElem_mem hpos) (by simpa using hle)
    | succ o =>
      have hnext := ih (k + 1) o
      rw [show k + 1 + o = k + (o + 1) by omega] at hnext
      rw [List.take_succ_cons, startsAfter, startsAfter]
      split
      · rw [List.takeWhile_cons_of_pos (by simp), hnext]
      · exact hnext

theorem getLastD_startsAfter (k : Nat) (cs : List Char) :
    (startsAfter k cs).getLastD k + (cs.rtakeWhile (· ≠ '\n')).length = k + cs.length := by
  induction cs using List.reverseRecOn with
  | nil => rfl
  | append_singleton cs c ih =>
    rw [startsAfter_concat, List.length_append, List.length_singleton]
    by_cases hc : c = '\n'
    · rw [if_pos hc, List.getLastD_concat, List.rtakeWhile_concat_neg _ _ _ (by simpa using hc)]
      rfl
    · rw [if_neg hc, List.append_nil, List.rtakeWhile_concat_pos _ _ _ (by simpa using hc),
        List.length_append, List.length_singleton]
      omega

end Starts

/-- The position of an offset where lines are numbered without a bound. -/
def place (m : LineMap) (offset : Nat) : Position :=
  let offset := min offset m.length
  let opened := m.starts.takeWhile (· ≤ offset)
  ⟨opened.length, offset - opened.getLastD 0⟩

theorem position_eq (m : LineMap) (o : Nat) :
    m.position o = ⟨(m.place o).line % (maxIndex + 1), (m.place o).column⟩ := rfl

theorem position_eq_place {m : LineMap} {o : Nat} (h : (m.place o).line ≤ maxIndex) :
    m.position o = m.place o := by
  rw [position_eq, Nat.mod_eq_of_lt (Nat.lt_succ_of_le h)]

theorem place_ofText (text : String) (o : Nat) :
    (ofText text).place o = .behind (text.toList.take (min o text.toList.length)) := by
  have hopened : (ofText text).starts.takeWhile (· ≤ min o text.toList.length) =
      0 :: startsAfter 0 (text.toList.take (min o text.toList.length)) := by
    have hlater := takeWhile_startsAfter 0 (min o text.toList.length) text.toList
    rw [Nat.zero_add] at hlater
    rw [ofText, List.takeWhile_cons_of_pos (by simp), hlater]
  have hlast := getLastD_startsAfter 0 (text.toList.take (min o text.toList.length))
  rw [Nat.zero_add, List.length_take_of_le (Nat.min_le_right ..)] at hlast
  have hline : (startsAfter 0 (text.toList.take (min o text.toList.length))).length =
      (text.toList.take (min o text.toList.length)).count '\n' := length_startsAfter 0 _
  simp only [place, show (ofText text).length = text.toList.length from rfl, hopened,
    List.length_cons, List.getLastD_cons, hline, Position.behind, Position.mk.injEq]
  omega

section Lines

variable {m : LineMap} {i s o : Nat} {p : Position}

structure Ascends (m : LineMap) : Prop where
  first : m.starts[0]? = some 0
  ascending : m.starts.Pairwise (· < ·)
  within : ∀ s ∈ m.starts, s ≤ m.length

structure LiesOn (m : LineMap) (i s o : Nat) : Prop where
  start : m.starts[i]? = some s
  le : s ≤ o
  beforeNext : ∀ next, m.starts[i + 1]? = some next → o < next
  within : o ≤ m.length

theorem ascends_ofText (text : String) : (ofText text).Ascends := by
  refine ⟨rfl, List.pairwise_cons.2 ⟨fun s hs => ?_, ascending_startsAfter 0 _⟩, fun s hs => ?_⟩
  · exact (bounds_of_mem_startsAfter hs).1
  · show s ≤ text.toList.length
    rcases List.mem_cons.1 hs with rfl | hs
    · exact Nat.zero_le _
    · have hle := (bounds_of_mem_startsAfter hs).2
      rwa [Nat.zero_add] at hle

theorem lt_length_takeWhile_iff {xs : List Nat} (h : xs.Pairwise (· < ·)) {i x : Nat}
    (hi : xs[i]? = some x) (o : Nat) : i < (xs.takeWhile (· ≤ o)).length ↔ x ≤ o := by
  induction xs generalizing i with
  | nil => simp at hi
  | cons y ys ih =>
    obtain ⟨hy, hys⟩ := List.pairwise_cons.1 h
    cases i with
    | zero =>
      obtain rfl := Option.some.inj hi
      rw [List.takeWhile_cons]
      split <;> simp_all
    | succ i =>
      have hrest := ih hys hi
      rw [List.getElem?_cons_succ] at hi
      have hlt := hy x (List.mem_of_getElem? hi)
      rw [List.takeWhile_cons]
      split
      · rw [List.length_cons, Nat.succ_lt_succ_iff, hrest]
      · next hle =>
        rw [decide_eq_true_eq] at hle
        simp only [List.length_nil, Nat.not_lt_zero, false_iff]
        omega

theorem LiesOn.place_eq (h : m.Ascends) (hline : m.LiesOn i s o) :
    m.place o = ⟨i + 1, o - s⟩ := by
  have hopened : m.starts.takeWhile (· ≤ o) <+: m.starts := List.takeWhile_prefix _
  have hlower := (lt_length_takeWhile_iff h.ascending hline.start o).2 hline.le
  have hupper : ¬i + 1 < (m.starts.takeWhile (· ≤ o)).length := by
    intro hlt
    have hnext := List.getElem?_eq_getElem (hlt.trans_le hopened.length_le)
    have hle := (lt_length_takeWhile_iff h.ascending hnext o).1 hlt
    exact absurd (hline.beforeNext _ hnext) (Nat.not_lt.2 hle)
  have hlength : (m.starts.takeWhile (· ≤ o)).length = i + 1 := by omega
  have hlast : (m.starts.takeWhile (· ≤ o)).getLastD 0 = s := by
    have hfound := List.prefix_iff_getElem?.1 hopened i hlower
    rw [hline.start] at hfound
    rw [List.getLastD_eq_getLast?, List.getLast?_eq_getElem?, hlength, Nat.add_sub_cancel,
      List.getElem?_eq_getElem hlower, ← hfound]
    rfl
  simp only [place, Nat.min_eq_left hline.within, hlength, hlast]

theorem exists_liesOn (h : m.Ascends) (ho : o ≤ m.length) : ∃ i s, m.LiesOn i s o := by
  have hiff : ∀ {i x}, m.starts[i]? = some x →
      (i < (m.starts.takeWhile (· ≤ o)).length ↔ x ≤ o) :=
    fun hi => lt_length_takeWhile_iff h.ascending hi o
  have hpos := (hiff h.first).2 (Nat.zero_le o)
  obtain ⟨k, hk⟩ := Nat.exists_eq_add_one_of_ne_zero (Nat.ne_of_gt hpos)
  have hlt : k < m.starts.length := by
    have hle := (List.takeWhile_prefix (· ≤ o) (l := m.starts)).length_le
    omega
  have hstart := List.getElem?_eq_getElem hlt
  refine ⟨k, m.starts[k], hstart, (hiff hstart).1 (by omega), fun next hnext => ?_, ho⟩
  rw [← Nat.not_le, ← hiff hnext]
  omega

theorem offset?_of_start (h : m.Ascends) (hstart : m.starts[i]? = some s) (column : Nat) :
    m.offset? ⟨i + 1, column⟩ = some o ↔ s + column = o ∧ m.LiesOn i s o := by
  cases hnext : m.starts[i + 1]? with
  | none =>
    simp only [offset?, hstart, hnext, decide_eq_true_eq, Option.ite_none_right_eq_some,
      Option.some.injEq]
    constructor
    · rintro ⟨hle, rfl⟩
      exact ⟨rfl, hstart, Nat.le_add_right .., by simp [hnext], hle⟩
    · rintro ⟨rfl, hline⟩
      exact ⟨hline.within, rfl⟩
  | some next =>
    simp only [offset?, hstart, hnext, decide_eq_true_eq, Option.ite_none_right_eq_some,
      Option.some.injEq]
    constructor
    · rintro ⟨hlt, rfl⟩
      have hwithin := h.within next (List.mem_of_getElem? hnext)
      refine ⟨rfl, hstart, Nat.le_add_right .., fun next' hnext' => ?_, hlt.le.trans hwithin⟩
      obtain rfl := Option.some.inj (hnext.symm.trans hnext')
      exact hlt
    · rintro ⟨rfl, hline⟩
      exact ⟨hline.beforeNext next hnext, rfl⟩

theorem offset?_eq_some_iff (h : m.Ascends) :
    m.offset? p = some o ↔ ∃ i s, m.LiesOn i s o ∧ p = ⟨i + 1, o - s⟩ := by
  obtain ⟨line, column⟩ := p
  cases line with
  | zero => simp [offset?]
  | succ i =>
    constructor
    · intro hoffset
      cases hstart : m.starts[i]? with
      | none => simp [offset?, hstart] at hoffset
      | some s =>
        obtain ⟨rfl, hline⟩ := (offset?_of_start h hstart column).1 hoffset
        exact ⟨i, s, hline, by rw [Nat.add_sub_cancel_left]⟩
    · rintro ⟨j, s, hline, heq⟩
      obtain ⟨hij, rfl⟩ := Position.mk.inj heq
      obtain rfl := Nat.succ.inj hij
      exact (offset?_of_start h hline.start _).2 ⟨Nat.add_sub_of_le hline.le, hline⟩

theorem offset?_eq_some_iff_place (h : m.Ascends) :
    m.offset? p = some o ↔ o ≤ m.length ∧ m.place o = p := by
  rw [offset?_eq_some_iff h]
  constructor
  · rintro ⟨i, s, hline, rfl⟩
    exact ⟨hline.within, hline.place_eq h⟩
  · rintro ⟨ho, rfl⟩
    obtain ⟨i, s, hline⟩ := exists_liesOn h ho
    exact ⟨i, s, hline, hline.place_eq h⟩

theorem line_place_eq_bisect (h : m.Ascends) (o : Nat) :
    (m.place o).line =
      OffsetSet.bisect (fun i => decide (m.starts.getD i 0 ≤ min o m.length)) m.starts.length := by
  refine (OffsetSet.bisect_eq (fun i hi => ?_) (List.takeWhile_prefix _).length_le).symm
  have hstart := List.getElem?_eq_getElem hi
  rw [decide_eq_true_eq, lt_length_takeWhile_iff h.ascending hstart, List.getD_eq_getElem?_getD,
    hstart]
  rfl

theorem place_min (m : LineMap) (o : Nat) : m.place (min o m.length) = m.place o := by
  rw [place, Nat.min_assoc, Nat.min_self]
  rfl

theorem offset?_place (h : m.Ascends) (o : Nat) :
    m.offset? (m.place o) = some (min o m.length) :=
  (offset?_eq_some_iff_place h).2 ⟨Nat.min_le_right .., m.place_min o⟩

theorem exists_start (h : m.Ascends) (o : Nat) :
    ∃ i s, m.starts[i]? = some s ∧ s ≤ min o m.length ∧
      m.place o = ⟨i + 1, min o m.length - s⟩ := by
  obtain ⟨i, s, hline⟩ := exists_liesOn h (Nat.min_le_right o m.length)
  rw [← place_min]
  exact ⟨i, s, hline.start, hline.le, hline.place_eq h⟩

theorem offset?_behindEnd (h : m.Ascends) (hstart : m.starts[i]? = some s) {column : Nat}
    (hend : m.length < s + column) : m.offset? ⟨i + 1, column⟩ = none := by
  rw [Option.eq_none_iff_forall_ne_some]
  intro o hoffset
  obtain ⟨rfl, hline⟩ := (offset?_of_start h hstart column).1 hoffset
  exact absurd hline.within (Nat.not_le.2 hend)

end Lines

/-- No number is left for the line of this offset: it is the end of a text of line feeds only, and as
many as there can be. -/
def Exhausted (cs : List Char) (o : Nat) : Prop :=
  cs = List.replicate maxIndex '\n' ∧ maxIndex ≤ o

structure Positioned (p : Position) (cs : List Char) (o : Nat) : Prop where
  marks_iff : p.Marks cs o ↔ ¬Exhausted cs o
  wraps : Exhausted cs o → p = ⟨0, 0⟩

/-- How the lines of a text of these characters are to translate the offsets of `S` to positions, and
positions back to these offsets. -/
structure Translates (m : LineMap) (cs : List Char) (S : Set Nat) : Prop where
  counted : ∀ o ∈ S, m.position o = .behind (cs.take (min o cs.length))
  halved : ∀ o ∈ S, (m.position o).line =
    OffsetSet.bisect (fun i => decide (m.starts.getD i 0 ≤ min o cs.length)) m.starts.length
  indexed : ∀ o ∈ S, ∃ i s, m.starts[i]? = some s ∧ s ≤ min o cs.length ∧
    m.position o = ⟨i + 1, min o cs.length - s⟩
  fits : ∀ o ∈ S, (m.position o).line ≤ maxIndex ∧ (m.position o).column ≤ maxIndex
  returned : ∀ o ∈ S, m.offset? (m.position o) = some (min o cs.length)
  found : ∀ p, p.line ≤ maxIndex → ∀ o,
    m.offset? p = some o ↔ o ∈ S ∧ o ≤ cs.length ∧ m.position o = p
  refused : ∀ p, p.line ≤ maxIndex → (m.offset? p = none ↔ ∀ o ∈ S, m.position o ≠ p)
  beforeLines : ∀ column, m.offset? ⟨0, column⟩ = none
  behindLine : ∀ o column, cs[o]? = some '\n' → (m.position o).column < column →
    m.offset? ⟨(m.position o).line, column⟩ = none
  behindRange : ∀ i s column, m.starts[i]? = some s → maxIndex < s + column →
    m.offset? ⟨i + 1, column⟩ = none
  ordered : ∀ o ∈ S, ∀ o' ∈ S, o ≤ cs.length → o' ≤ cs.length →
    ((m.position o).Before (m.position o') ↔ o < o')

section Text

variable {text : String} {o o' : Nat}

theorem place_of_le (ho : o ≤ text.toList.length) :
    (ofText text).place o = .behind (text.toList.take o) := by
  rw [place_ofText, Nat.min_eq_left ho]

theorem position_lineFeeds {n : Nat} (ho : o ≤ n) :
    (ofText (String.ofList (List.replicate n '\n'))).position o = ⟨(1 + o) % (maxIndex + 1), 0⟩ := by
  have htext : (String.ofList (List.replicate n '\n')).toList = List.replicate n '\n' :=
    String.toList_ofList
  rw [position_eq, place_ofText, htext, List.length_replicate, List.take_replicate,
    Nat.min_eq_left ho, Nat.min_eq_left ho, Position.behind_replicate]

theorem offset?_eq_some_iff_marks {p : Position} :
    (ofText text).offset? p = some o ↔ p.Marks text.toList o := by
  rw [offset?_eq_some_iff_place (ascends_ofText text)]
  exact and_congr_right fun ho => by rw [place_of_le ho]

theorem before_place_iff (ho : o ≤ text.toList.length) (ho' : o' ≤ text.toList.length) :
    ((ofText text).place o).Before ((ofText text).place o') ↔ o < o' := by
  rw [place_of_le ho, place_of_le ho']
  refine ⟨fun hbefore => ?_, fun hlt => Position.before_behind_take hlt ho'⟩
  rcases Nat.lt_trichotomy o o' with hlt | rfl | hgt
  · exact hlt
  · exact absurd hbefore (Position.Before.irrefl _)
  · exact absurd hbefore (Position.before_behind_take hgt ho).asymm

theorem line_lt_of_newLine (ho : text.toList[o]? = some '\n') (hlt : o < o')
    (ho' : o' ≤ text.toList.length) :
    ((ofText text).place o).line < ((ofText text).place o').line := by
  obtain ⟨hin, hchar⟩ := List.getElem?_eq_some_iff.1 ho
  have hnext : (ofText text).place (o + 1) = ⟨((ofText text).place o).line + 1, 0⟩ := by
    rw [place_of_le hin, place_of_le hin.le, List.take_succ_eq_append_getElem hin, hchar,
      Position.behind_newLine]
  rcases Nat.lt_or_eq_of_le (Nat.succ_le_of_lt hlt) with hlater | rfl
  · have hbefore := (before_place_iff hin ho').2 hlater
    rw [hnext] at hbefore
    rcases hbefore with hline | ⟨hline, -⟩
    · exact Nat.lt_of_succ_lt hline
    · exact Nat.lt_of_succ_le hline.le
  · rw [hnext]
    exact Nat.lt_succ_self _

theorem offset?_behindLine {column : Nat} (ho : text.toList[o]? = some '\n')
    (hcolumn : ((ofText text).place o).column < column) :
    (ofText text).offset? ⟨((ofText text).place o).line, column⟩ = none := by
  rw [Option.eq_none_iff_forall_ne_some]
  intro o' hoffset
  obtain ⟨ho', hplace⟩ := (offset?_eq_some_iff_place (ascends_ofText text)).1 hoffset
  have hin := (List.getElem?_eq_some_iff.1 ho).1
  have hbefore : ((ofText text).place o).Before ((ofText text).place o') := by
    rw [hplace]
    exact .inr ⟨rfl, hcolumn⟩
  -- a later offset, and so a later line
  have hline := line_lt_of_newLine ho ((before_place_iff hin.le ho').1 hbefore) ho'
  rw [hplace] at hline
  exact Nat.lt_irrefl _ hline

theorem column_place_le (text : String) (o : Nat) :
    ((ofText text).place o).column ≤ text.toList.length := by
  rw [place_ofText]
  exact (List.rtakeWhile_suffix _ _).length_le.trans (List.length_take_le' ..)

theorem not_exhausted_of_lt (ho : o < text.toList.length) : ¬Exhausted text.toList o := by
  rintro ⟨htext, hend⟩
  rw [htext, List.length_replicate] at ho
  exact absurd hend (Nat.not_le.2 ho)

theorem place_of_exhausted (ho : Exhausted text.toList o) :
    (ofText text).place o = ⟨1 + maxIndex, 0⟩ := by
  obtain ⟨htext, hend⟩ := ho
  rw [place_ofText, htext, List.length_replicate, Nat.min_eq_right hend, List.take_replicate,
    Nat.min_self, Position.behind_replicate]

theorem line_place_le_iff (h : text.toList.length ≤ maxIndex) (o : Nat) :
    ((ofText text).place o).line ≤ maxIndex ↔ ¬Exhausted text.toList o := by
  constructor
  · intro hline ho
    rw [place_of_exhausted ho] at hline
    exact absurd hline (Nat.not_le.2 (Nat.lt_add_of_pos_left Nat.one_pos))
  · intro ho
    rw [place_ofText]
    generalize text.toList = cs at h ho
    have htaken : (cs.take (min o cs.length)).length = min o cs.length := by simp
    have hcount := List.count_le_length (l := cs.take (min o cs.length)) (a := '\n')
    by_contra hline
    change ¬1 + (cs.take (min o cs.length)).count '\n' ≤ maxIndex at hline
    have hend : maxIndex ≤ o := by omega
    have hall : cs.take (min o cs.length) = cs := List.take_of_length_le (by omega)
    rw [hall] at hcount hline
    have hlines : ∀ c ∈ cs, '\n' = c := List.count_eq_length.1 (by omega)
    exact ho ⟨List.eq_replicate_iff.2 ⟨by omega, fun c hc => (hlines c hc).symm⟩, hend⟩

theorem position_eq_place_of_not_exhausted (h : text.toList.length ≤ maxIndex)
    (ho : ¬Exhausted text.toList o) : (ofText text).position o = (ofText text).place o :=
  position_eq_place ((line_place_le_iff h o).2 ho)

theorem position_of_exhausted (ho : Exhausted text.toList o) :
    (ofText text).position o = ⟨0, 0⟩ := by
  rw [position_eq, place_of_exhausted ho, Nat.add_comm, Nat.mod_self]

theorem positioned_position (h : text.toList.length ≤ maxIndex) (ho : o ≤ text.toList.length) :
    Positioned ((ofText text).position o) text.toList o where
  marks_iff := by
    constructor
    · intro hmarks hend
      rw [position_of_exhausted hend] at hmarks
      exact hmarks.line_ne_zero rfl
    · intro hin
      rw [position_eq_place_of_not_exhausted h hin]
      exact ⟨ho, (place_of_le ho).symm⟩
  wraps := position_of_exhausted

theorem offset?_eq_some_iff_position {p : Position} (h : text.toList.length ≤ maxIndex)
    (hp : p.line ≤ maxIndex) :
    (ofText text).offset? p = some o ↔
      ¬Exhausted text.toList o ∧ o ≤ text.toList.length ∧ (ofText text).position o = p := by
  rw [offset?_eq_some_iff_place (ascends_ofText text)]
  constructor
  · rintro ⟨ho, rfl⟩
    have hin := (line_place_le_iff h o).1 hp
    exact ⟨hin, ho, position_eq_place_of_not_exhausted h hin⟩
  · rintro ⟨hin, ho, rfl⟩
    exact ⟨ho, (position_eq_place_of_not_exhausted h hin).symm⟩

theorem offset?_position (h : text.toList.length ≤ maxIndex) (ho : ¬Exhausted text.toList o) :
    (ofText text).offset? ((ofText text).position o) = some (min o text.toList.length) := by
  rw [position_eq_place_of_not_exhausted h ho]
  exact offset?_place (ascends_ofText text) o

theorem offset?_eq_none_iff_position {p : Position} (h : text.toList.length ≤ maxIndex)
    (hp : p.line ≤ maxIndex) :
    (ofText text).offset? p = none ↔
      ∀ o, ¬Exhausted text.toList o → (ofText text).position o ≠ p := by
  constructor
  · rintro hnone o ho rfl
    rw [offset?_position h ho] at hnone
    cases hnone
  · intro hnowhere
    rw [Option.eq_none_iff_forall_ne_some]
    intro o hoffset
    obtain ⟨ho, -, hposition⟩ := (offset?_eq_some_iff_position h hp).1 hoffset
    exact hnowhere o ho hposition

theorem translates_of_not_exhausted (h : text.toList.length ≤ maxIndex) :
    (ofText text).Translates text.toList {o | ¬Exhausted text.toList o} := by
  have hascends := ascends_ofText text
  have hplace : ∀ {o}, ¬Exhausted text.toList o →
      (ofText text).position o = (ofText text).place o :=
    position_eq_place_of_not_exhausted h
  constructor
  case counted => exact fun o ho => (hplace ho).trans (place_ofText text o)
  case halved => exact fun o ho => hplace ho ▸ line_place_eq_bisect hascends o
  case indexed => exact fun o ho => hplace ho ▸ exists_start hascends o
  case fits =>
    intro o ho
    rw [hplace ho]
    exact ⟨(line_place_le_iff h o).2 ho, (column_place_le text o).trans h⟩
  case returned => exact fun o ho => offset?_position h ho
  case found => exact fun p hp o => offset?_eq_some_iff_position h hp
  case refused => exact fun p hp => offset?_eq_none_iff_position h hp
  case beforeLines => exact fun column => rfl
  case behindLine =>
    intro o column ho
    rw [hplace (not_exhausted_of_lt (List.getElem?_eq_some_iff.1 ho).1)]
    exact offset?_behindLine ho
  case behindRange =>
    exact fun i s column hstart hrange => offset?_behindEnd hascends hstart (h.trans_lt hrange)
  case ordered =>
    intro o ho o' ho' hin hin'
    rw [hplace ho, hplace ho']
    exact before_place_iff hin hin'

theorem not_translates_of_exhausted {S : Set Nat} (ho : Exhausted text.toList o) (hmem : o ∈ S) :
    ¬(ofText text).Translates text.toList S := by
  intro htranslates
  have hreturned := htranslates.returned o hmem
  rw [position_of_exhausted ho] at hreturned
  exact nomatch hreturned

end Text

/-- The lines of a text translate an offset to the position counted from the characters in front of
it, and back, and refuse all other positions. Behind line feeds only, and as many as there can be, the
number of the line wraps around to 0, and no offset is found from there. -/
theorem translates_ofText {text : String} (h : text.toList.length ≤ maxIndex) :
    (ofText text).Translates text.toList {o | ¬Exhausted text.toList o} ∧
      (∀ o, Exhausted text.toList o →
        (ofText text).position o = ⟨0, 0⟩ ∧ (ofText text).offset? ((ofText text).position o) = none) ∧
      ((ofText text).Translates text.toList Set.univ ↔
        text.toList ≠ List.replicate maxIndex '\n') := by
  refine ⟨translates_of_not_exhausted h, fun o ho => ?_, fun htranslates htext => ?_, fun htext => ?_⟩
  · rw [position_of_exhausted ho]
    exact ⟨rfl, rfl⟩
  · exact not_translates_of_exhausted ⟨htext, Nat.le_refl _⟩ (Set.mem_univ _) htranslates
  · have hall : {o | ¬Exhausted text.toList o} = Set.univ :=
      Set.eq_univ_of_forall fun o ho => htext ho.1
    exact hall ▸ translates_of_not_exhausted h

theorem translates_ofText_emptyLines :
    let text := "é\n\nab\n"
    let m := ofText text
    text.toList.length ≤ maxIndex ∧ m.Translates text.toList Set.univ ∧
      [0, 1, 2, 3, 5, 6, 7].map m.position =
        [⟨1, 0⟩, ⟨1, 1⟩, ⟨2, 0⟩, ⟨3, 0⟩, ⟨3, 2⟩, ⟨4, 0⟩, ⟨4, 0⟩] ∧
      [⟨1, 1⟩, ⟨2, 0⟩, ⟨3, 2⟩, ⟨4, 0⟩].map m.offset? = [some 1, some 2, some 5, some 6] ∧
      [⟨0, 0⟩, ⟨1, 2⟩, ⟨2, 1⟩, ⟨4, 1⟩, ⟨5, 0⟩, ⟨3, maxIndex⟩].map m.offset? =
        [none, none, none, none, none, none] := by
  intro text m
  have hfits : text.toList.length ≤ maxIndex := by decide
  have htext : text.toList ≠ List.replicate maxIndex '\n' := by
    intro heq
    have hmem : 'é' ∈ List.replicate maxIndex '\n' := heq ▸ by decide
    exact absurd (List.eq_of_mem_replicate hmem) (by decide)
  exact ⟨hfits, (translates_ofText hfits).2.2.2 htext, by decide, by decide, by decide⟩

theorem not_translates_lineFeeds :
    let text := String.ofList (List.replicate maxIndex '\n')
    text.toList.length ≤ maxIndex ∧ (ofText text).position maxIndex = ⟨0, 0⟩ ∧
      (ofText text).offset? ⟨0, 0⟩ = none ∧
      ¬(ofText text).Translates text.toList Set.univ := by
  intro text
  have htext : text.toList = List.replicate maxIndex '\n' := String.toList_ofList
  have hend : Exhausted text.toList maxIndex := ⟨htext, Nat.le_refl _⟩
  refine ⟨?_, position_of_exhausted hend, rfl, not_translates_of_exhausted hend (Set.mem_univ _)⟩
  rw [htext, List.length_replicate]

end LineMap

end SyntaxCoverage
