import Mathlib.Data.List.Nodup
import Mathlib.Data.List.Range
import Mathlib.Data.List.Sort
import SyntaxCoverage.Source.OffsetSet

/-!
The offsets of a set. Sorting and merging brings extents into a normal form, in which halving finds
an offset and cutting holes keeps the form.
-/

namespace SyntaxCoverage

namespace Extent

def offsets (e : Extent) : List Nat := List.range' e.start e.length

theorem mem_offsets {e : Extent} {o : Nat} : o ∈ e.offsets ↔ e.contains o = true := by
  rw [offsets, List.mem_range'_1, contains_iff, length]
  omega

theorem length_offsets (e : Extent) : e.offsets.length = e.length := List.length_range'

theorem nodup_offsets (e : Extent) : e.offsets.Nodup := List.nodup_range'

theorem start_lt_stop {e : Extent} (h : e.Ordered) (hne : e.isEmpty = false) :
    e.start < e.stop := by
  have hdiffer : e.start ≠ e.stop := by simpa [isEmpty] using hne
  exact Nat.lt_of_le_of_ne h hdiffer

def Precedes (d e : Extent) : Prop := (compare d e).isLE = true

instance : DecidableRel Precedes := fun _ _ => inferInstanceAs (Decidable (_ = true))

instance : IsTrans Extent Precedes := ⟨fun _ _ _ => Std.TransCmp.isLE_trans⟩

instance : Std.Total Precedes where
  total d e := by
    have hswap : compare d e = (compare e d).swap := Std.OrientedCmp.eq_swap
    rw [Precedes, Precedes, hswap]
    cases compare e d <;> simp

theorem Precedes.start_le {d e : Extent} (h : d.Precedes e) : d.start ≤ e.start := by
  rcases isLE_compare_iff.1 h with hlt | ⟨heq, -⟩
  · exact hlt.le
  · exact heq.le

end Extent

namespace OffsetSet

def Covers (es : List Extent) (o : Nat) : Prop := ∃ e ∈ es, e.contains o = true

theorem covers_nil (o : Nat) : ¬Covers [] o := by
  simp [Covers]

theorem covers_cons {e : Extent} {es : List Extent} {o : Nat} :
    Covers (e :: es) o ↔ (e.start ≤ o ∧ o < e.stop) ∨ Covers es o := by
  simp [Covers, Extent.contains_iff]

theorem covers_append {ds es : List Extent} {o : Nat} :
    Covers (ds ++ es) o ↔ Covers ds o ∨ Covers es o := by
  simp [Covers, or_and_right, exists_or]

/-- The extents stand in ascending order with a gap between any two, and none of them is empty. -/
structure Normal (es : List Extent) : Prop where
  nonempty : ∀ e ∈ es, e.start < e.stop
  apart : es.Pairwise fun d e => d.stop < e.start

theorem normal_nil : Normal [] := ⟨by simp, .nil⟩

theorem normal_cons {e : Extent} {es : List Extent} :
    Normal (e :: es) ↔ e.start < e.stop ∧ (∀ d ∈ es, e.stop < d.start) ∧ Normal es := by
  constructor
  · rintro ⟨hne, hapart⟩
    obtain ⟨hfirst, hrest⟩ := List.pairwise_cons.1 hapart
    obtain ⟨he, hes⟩ := List.forall_mem_cons.1 hne
    exact ⟨he, hfirst, hes, hrest⟩
  · rintro ⟨he, hfirst, hes, hrest⟩
    exact ⟨List.forall_mem_cons.2 ⟨he, hes⟩, List.pairwise_cons.2 ⟨hfirst, hrest⟩⟩

theorem Normal.append {ds es : List Extent} (hd : Normal ds) (he : Normal es)
    (hgap : ∀ d ∈ ds, ∀ e ∈ es, d.stop < e.start) : Normal (ds ++ es) where
  nonempty e h := (List.mem_append.1 h).elim (hd.nonempty e) (he.nonempty e)
  apart := List.pairwise_append.2 ⟨hd.apart, he.apart, hgap⟩

theorem not_covers_of_lt_start {es : List Extent} {o : Nat} (h : ∀ e ∈ es, o < e.start) :
    ¬Covers es o := by
  rintro ⟨e, he, ho⟩
  have hle := (Extent.contains_iff.1 ho).1
  exact absurd (h e he) (Nat.not_lt.2 hle)

section Lookup

variable {p : Nat → Bool} {n k : Nat}

theorem bisectFrom_eq (hp : ∀ i < n, p i = true ↔ i < k) {steps base size : Nat}
    (hsteps : size ≤ steps) (hn : base + size ≤ n) (hlow : base ≤ k) (hhigh : k ≤ base + size) :
    bisectFrom p steps base size = k := by
  induction steps generalizing base size with
  | zero =>
    rw [bisectFrom]
    omega
  | succ steps ih =>
    rw [bisectFrom]
    split
    · next hsmall =>
      have hbase := hp base
      split
      · next hone =>
        have hlt := (hbase (by omega)).1 hone.2
        omega
      · next hnone =>
        by_contra hne
        have hsize : size = 1 := by omega
        exact hnone ⟨hsize, (hbase (by omega)).2 (by omega)⟩
    · next hlarge =>
      have hmiddle := hp (base + size / 2) (by omega)
      split
      · next htrue =>
        have hlt := hmiddle.1 htrue
        exact ih (by omega) (by omega) (by omega) (by omega)
      · next hfalse =>
        have hge := mt hmiddle.2 hfalse
        exact ih (by omega) (by omega) (by omega) (by omega)

theorem bisect_eq (hp : ∀ i < n, p i = true ↔ i < k) (hk : k ≤ n) : bisect p n = k :=
  bisectFrom_eq hp (by omega) (by omega) (by omega) (by omega)

variable {s : OffsetSet}

theorem stopsBy_iff (h : Normal s.extents) (o : Nat) :
    ∀ i < s.extents.length,
      s.stopsBy o i = true ↔ i < s.extents.findIdx fun e => decide (o < e.stop) := by
  intro i hi
  rw [stopsBy, List.getElem?_eq_getElem hi]
  simp only [decide_eq_true_eq]
  constructor
  · intro hstop
    by_contra hge
    have hk : s.extents.findIdx (fun e => decide (o < e.stop)) < s.extents.length := by omega
    have hfound := List.findIdx_getElem (w := hk)
    rw [decide_eq_true_eq] at hfound
    rcases Nat.lt_or_eq_of_le (Nat.not_lt.1 hge) with hlt | heq
    · have hgap := List.pairwise_iff_getElem.1 h.apart _ _ hk hi hlt
      have hne := h.nonempty _ (List.getElem_mem hi)
      omega
    · simp only [heq] at hfound
      omega
  · intro hlt
    have hnot := List.not_of_lt_findIdx hlt
    simpa using hnot

theorem contains_iff_covers (h : Normal s.extents) {o : Nat} :
    s.contains o = true ↔ Covers s.extents o := by
  have hindex := bisect_eq (stopsBy_iff h o) List.findIdx_le_length
  rw [contains, hindex]
  constructor
  · intro hcontains
    split at hcontains
    · next e he => exact ⟨e, List.mem_of_getElem? he, hcontains⟩
    · simp at hcontains
  · rintro ⟨e, he, ho⟩
    obtain ⟨hstart, hstop⟩ := Extent.contains_iff.1 ho
    obtain ⟨i, hi, rfl⟩ := List.getElem_of_mem he
    have hfirst : s.extents.findIdx (fun e => decide (o < e.stop)) = i := by
      rw [List.findIdx_eq hi]
      refine ⟨decide_eq_true hstop, fun j hj => ?_⟩
      have hgap := List.pairwise_iff_getElem.1 h.apart j i (by omega) hi hj
      rw [decide_eq_false_iff_not]
      omega
    rw [hfirst, List.getElem?_eq_getElem hi]
    exact ho

end Lookup

section Merge

variable {es : List Extent} {o : Nat}

theorem place_eq (e : Extent) (ds : List Extent) : place e ds = ds.orderedInsert Extent.Precedes e := by
  induction ds with
  | nil => rfl
  | cons d ds ih =>
    rw [place, ih]
    rfl

theorem sorted_eq (es : List Extent) : sorted es = es.insertionSort Extent.Precedes := by
  induction es with
  | nil => rfl
  | cons e es ih =>
    show place e (sorted es) = _
    rw [place_eq, ih]
    rfl

/-- What a merge makes of extents that start in ascending order. -/
structure Merges (last : Extent) (rest merged : List Extent) : Prop where
  normal : Normal merged
  above : ∀ e ∈ merged, last.start ≤ e.start
  covers : ∀ o, Covers merged o ↔ Covers (last :: rest) o

theorem merges_coalesce {last : Extent} {rest : List Extent}
    (hstart : (last :: rest).Pairwise fun d e => d.start ≤ e.start)
    (hne : ∀ e ∈ last :: rest, e.start < e.stop) : Merges last rest (coalesce last rest) := by
  induction rest generalizing last with
  | nil =>
    refine ⟨normal_cons.2 ⟨hne last (List.mem_cons_self ..), by simp, normal_nil⟩, ?_, ?_⟩
    · simp [coalesce]
    · simp [coalesce]
  | cons e rest ih =>
    obtain ⟨hlast, hrest⟩ := List.pairwise_cons.1 hstart
    obtain ⟨he, hlater⟩ := List.pairwise_cons.1 hrest
    obtain ⟨hlastne, hrestne⟩ := List.forall_mem_cons.1 hne
    obtain ⟨hene, hlaterne⟩ := List.forall_mem_cons.1 hrestne
    have hle := hlast e (List.mem_cons_self ..)
    rw [coalesce]
    split
    · next htouch =>
      -- the two become one, with the start of the first
      have hjoined : Merges ⟨last.start, max last.stop e.stop⟩ rest
          (coalesce ⟨last.start, max last.stop e.stop⟩ rest) := by
        refine ih (List.pairwise_cons.2 ⟨fun d hd => ?_, hlater⟩) ?_
        · exact hlast d (List.mem_cons_of_mem _ hd)
        · exact List.forall_mem_cons.2 ⟨hlastne.trans_le (Nat.le_max_left ..), hlaterne⟩
      refine ⟨hjoined.normal, hjoined.above, fun o => ?_⟩
      rw [hjoined.covers, covers_cons, covers_cons, covers_cons, ← or_assoc]
      refine or_congr_left ?_
      simp only
      omega
    · next hgap =>
      have hmerged := ih hrest hrestne
      refine ⟨normal_cons.2 ⟨hlastne, fun d hd => ?_, hmerged.normal⟩, ?_, fun o => ?_⟩
      · have habove := hmerged.above d hd
        omega
      · intro d hd
        rcases List.mem_cons.1 hd with rfl | hd
        · exact Nat.le_refl _
        · exact hle.trans (hmerged.above d hd)
      · rw [covers_cons, hmerged.covers]
        exact covers_cons.symm

theorem covers_perm {ds : List Extent} (h : ds.Perm es) : Covers ds o ↔ Covers es o :=
  ⟨fun ⟨e, he, ho⟩ => ⟨e, h.subset he, ho⟩, fun ⟨e, he, ho⟩ => ⟨e, h.symm.subset he, ho⟩⟩

theorem covers_filter_isEmpty : Covers (es.filter fun e => !e.isEmpty) o ↔ Covers es o := by
  constructor
  · rintro ⟨e, he, ho⟩
    exact ⟨e, List.mem_of_mem_filter he, ho⟩
  · rintro ⟨e, he, ho⟩
    have hcontains := Extent.contains_iff.1 ho
    have hempty : e.isEmpty = false := by
      rw [Extent.isEmpty, beq_eq_false_iff_ne]
      omega
    exact ⟨e, List.mem_filter.2 ⟨he, by rw [hempty]; rfl⟩, ho⟩

theorem normal_ofExtents (hes : ∀ e ∈ es, e.Ordered) :
    Normal (ofExtents es).extents ∧ ∀ o, Covers (ofExtents es).extents o ↔ Covers es o := by
  have hperm : (sorted (es.filter fun e => !e.isEmpty)).Perm (es.filter fun e => !e.isEmpty) := by
    rw [sorted_eq]
    exact List.perm_insertionSort Extent.Precedes _
  have hstart : (sorted (es.filter fun e => !e.isEmpty)).Pairwise fun d e => d.start ≤ e.start := by
    rw [sorted_eq]
    exact (List.pairwise_insertionSort Extent.Precedes _).imp Extent.Precedes.start_le
  have hne : ∀ e ∈ sorted (es.filter fun e => !e.isEmpty), e.start < e.stop := by
    intro e he
    obtain ⟨hmem, hempty⟩ := List.mem_filter.1 (hperm.subset he)
    exact Extent.start_lt_stop (hes e hmem) (by simpa using hempty)
  have hcovers : ∀ o, Covers (sorted (es.filter fun e => !e.isEmpty)) o ↔ Covers es o :=
    fun o => (covers_perm hperm).trans covers_filter_isEmpty
  rw [ofExtents]
  cases hsorted : sorted (es.filter fun e => !e.isEmpty) with
  | nil =>
    rw [hsorted] at hcovers
    exact ⟨normal_nil, hcovers⟩
  | cons e rest =>
    rw [hsorted] at hstart hne hcovers
    have hmerged := merges_coalesce hstart hne
    exact ⟨hmerged.normal, fun o => (hmerged.covers o).trans (hcovers o)⟩

end Merge

section Carve

variable {cursor stop o : Nat} {holes : List Extent}

theorem normal_between (start stop : Nat) : Normal (between start stop) := by
  rw [between]
  split
  · next hlt => exact normal_cons.2 ⟨hlt, by simp, normal_nil⟩
  · exact normal_nil

theorem mem_between {e : Extent} {start stop : Nat} :
    e ∈ between start stop ↔ start < stop ∧ e = ⟨start, stop⟩ := by
  rw [between]
  split <;> simp [*]

theorem covers_between {start stop : Nat} :
    Covers (between start stop) o ↔ start ≤ o ∧ o < stop := by
  simp only [Covers, mem_between, Extent.contains_iff]
  constructor
  · rintro ⟨e, ⟨-, rfl⟩, ho⟩
    exact ho
  · intro ho
    exact ⟨⟨start, stop⟩, ⟨by omega, rfl⟩, ho⟩

/-- What cutting holes into a stretch leaves of it, and of the holes. -/
structure Carved (cursor stop : Nat) (holes pieces rest : List Extent) : Prop where
  normal : Normal pieces
  within : ∀ e ∈ pieces, cursor ≤ e.start ∧ e.stop ≤ stop
  covers : ∀ o, Covers pieces o ↔ (cursor ≤ o ∧ o < stop) ∧ ¬Covers holes o
  suffix : rest <:+ holes
  kept : ∀ o, stop ≤ o → (Covers rest o ↔ Covers holes o)

theorem carved_between (cursor : Nat) (h : ∀ e ∈ holes, stop ≤ e.start) :
    Carved cursor stop holes (between cursor stop) holes := by
  refine ⟨normal_between .., ?_, fun o => ?_, List.suffix_rfl, fun o _ => Iff.rfl⟩
  · intro e he
    obtain ⟨-, rfl⟩ := mem_between.1 he
    exact ⟨Nat.le_refl _, Nat.le_refl _⟩
  · rw [covers_between]
    refine (and_iff_left_of_imp fun ho => ?_).symm
    exact not_covers_of_lt_start fun e he => Nat.lt_of_lt_of_le ho.2 (h e he)

variable {hole : Extent} {pieces rest : List Extent}

theorem Carved.skip (hcursor : cursor ≤ stop) (hhole : hole.stop ≤ cursor)
    (h : Carved cursor stop holes pieces rest) :
    Carved cursor stop (hole :: holes) pieces rest := by
  refine ⟨h.normal, h.within, fun o => ?_, h.suffix.trans (List.suffix_cons ..), fun o ho => ?_⟩
  · rw [h.covers, covers_cons]
    refine and_congr_right fun ho => not_congr (or_iff_right ?_).symm
    omega
  · rw [h.kept o ho, covers_cons]
    refine (or_iff_right ?_).symm
    omega

theorem carved_beyond (hstart : hole.start < stop) (hstop : stop < hole.stop)
    (hlater : ∀ e ∈ holes, hole.stop < e.start) :
    Carved cursor stop (hole :: holes) (between cursor hole.start) (hole :: holes) := by
  refine ⟨normal_between .., ?_, fun o => ?_, List.suffix_rfl, fun o _ => Iff.rfl⟩
  · intro e he
    obtain ⟨-, rfl⟩ := mem_between.1 he
    exact ⟨Nat.le_refl _, Nat.le_of_lt hstart⟩
  · have hfar : o < stop → ¬Covers holes o := fun ho =>
      not_covers_of_lt_start fun e he => ho.trans (hstop.trans (hlater e he))
    rw [covers_between, covers_cons]
    constructor
    · intro ho
      refine ⟨⟨ho.1, by omega⟩, ?_⟩
      rintro (hin | hin)
      · omega
      · exact hfar (by omega) hin
    · rintro ⟨ho, hout⟩
      rw [not_or] at hout
      omega

theorem Carved.cut (hne : hole.start < hole.stop) (hhole : cursor < hole.stop)
    (hstop : hole.stop ≤ stop) (hlater : ∀ e ∈ holes, hole.stop < e.start)
    (h : Carved hole.stop stop holes pieces rest) :
    Carved cursor stop (hole :: holes) (between cursor hole.start ++ pieces) rest := by
  refine ⟨(normal_between ..).append h.normal ?_, ?_, fun o => ?_,
    h.suffix.trans (List.suffix_cons ..), fun o ho => ?_⟩
  · intro d hd e he
    obtain ⟨-, rfl⟩ := mem_between.1 hd
    exact Nat.lt_of_lt_of_le hne (h.within e he).1
  · intro e he
    rcases List.mem_append.1 he with hfront | hback
    · obtain ⟨-, rfl⟩ := mem_between.1 hfront
      exact ⟨Nat.le_refl _, hne.le.trans hstop⟩
    · have hwithin := h.within e hback
      omega
  · have hfar : o < hole.start → ¬Covers holes o := fun ho =>
      not_covers_of_lt_start fun e he => ho.trans (hne.trans (hlater e he))
    rw [covers_append, covers_between, h.covers, covers_cons, not_or]
    constructor
    · rintro (hfront | ⟨hback, hout⟩)
      · exact ⟨by omega, by omega, hfar hfront.2⟩
      · exact ⟨by omega, by omega, hout⟩
    · rintro ⟨ho, hhole, hout⟩
      rcases Nat.lt_or_ge o hole.start with hlt | hge
      · exact .inl ⟨ho.1, hlt⟩
      · exact .inr ⟨by omega, hout⟩
  · rw [h.kept o ho, covers_cons]
    refine (or_iff_right ?_).symm
    omega

theorem carved_carve (h : Normal holes) (hcursor : cursor ≤ stop) :
    Carved cursor stop holes (carve cursor stop holes).1 (carve cursor stop holes).2 := by
  induction holes generalizing cursor with
  | nil => exact carved_between cursor (by simp)
  | cons hole holes ih =>
    obtain ⟨hne, hlater, hholes⟩ := normal_cons.1 h
    rw [carve]
    split
    · next hpassed => exact (ih hholes hcursor).skip hcursor hpassed
    · next hahead =>
      split
      · next hfar =>
        refine carved_between cursor (List.forall_mem_cons.2 ⟨hfar, fun e he => ?_⟩)
        exact hfar.trans (hne.trans (hlater e he)).le
      · next hnear =>
        split
        · next hbeyond =>
          -- nothing is left behind a hole that reaches beyond the stretch
          have hnone : between (max cursor hole.stop) stop = [] := if_neg (by omega)
          rw [hnone, List.append_nil]
          exact carved_beyond (Nat.not_le.1 hnear) hbeyond hlater
        · next hends =>
          have hmax : max cursor hole.stop = hole.stop := by omega
          rw [hmax]
          have hstop := Nat.not_lt.1 hends
          exact (ih hholes hstop).cut hne (Nat.not_le.1 hahead) hstop hlater

theorem Normal.suffix (h : Normal holes) (hrest : rest <:+ holes) : Normal rest where
  nonempty e he := h.nonempty e (hrest.subset he)
  apart := h.apart.sublist hrest.sublist

theorem carveAll_spec {es : List Extent} (hes : Normal es) (h : Normal holes) :
    Normal (carveAll es holes) ∧
      (∀ d ∈ carveAll es holes, ∃ e ∈ es, e.start ≤ d.start ∧ d.stop ≤ e.stop) ∧
      ∀ o, Covers (carveAll es holes) o ↔ Covers es o ∧ ¬Covers holes o := by
  induction es generalizing holes with
  | nil => exact ⟨normal_nil, by simp [carveAll], fun o => by simp [carveAll, covers_nil]⟩
  | cons e es ih =>
    obtain ⟨hne, hlater, hes⟩ := normal_cons.1 hes
    have hfirst := carved_carve h hne.le
    obtain ⟨hnormal, hwithin, hcovers⟩ := ih hes (h.suffix hfirst.suffix)
    rw [carveAll]
    refine ⟨hfirst.normal.append hnormal fun d hd d' hd' => ?_, fun d hd => ?_, fun o => ?_⟩
    · obtain ⟨e', he', hstart, -⟩ := hwithin d' hd'
      have hstop := (hfirst.within d hd).2
      have hgap := hlater e' he'
      omega
    · rcases List.mem_append.1 hd with hhere | hthere
      · exact ⟨e, List.mem_cons_self .., hfirst.within d hhere⟩
      · obtain ⟨e', he', hbounds⟩ := hwithin d hthere
        exact ⟨e', List.mem_cons_of_mem _ he', hbounds⟩
    · -- what the first extent leaves of the holes is all that matters to the others
      have hkept : Covers es o → (Covers (carve e.start e.stop holes).2 o ↔ Covers holes o) := by
        rintro ⟨e', he', ho⟩
        have hstart := (Extent.contains_iff.1 ho).1
        exact hfirst.kept o ((hlater e' he').le.trans hstart)
      rw [covers_append, hfirst.covers, hcovers, covers_cons, or_and_right]
      exact or_congr_right (and_congr_right fun ho => not_congr (hkept ho))

end Carve

theorem normal_subtract {s holes : OffsetSet} (hs : Normal s.extents) (h : Normal holes.extents) :
    Normal (s.subtract holes).extents ∧ ∀ o, Covers (s.subtract holes).extents o ↔
      Covers s.extents o ∧ ¬Covers holes.extents o :=
  ⟨(carveAll_spec hs h).1, (carveAll_spec hs h).2.2⟩

def offsets (s : OffsetSet) : List Nat := s.extents.flatMap Extent.offsets

theorem mem_offsets {s : OffsetSet} {o : Nat} : o ∈ s.offsets ↔ Covers s.extents o := by
  simp only [offsets, List.mem_flatMap, Extent.mem_offsets, Covers]

theorem length_offsets (s : OffsetSet) : s.offsets.length = s.size := by
  rw [offsets, List.length_flatMap, size, List.sum]
  simp only [Extent.length_offsets]

theorem nodup_offsets {s : OffsetSet} (h : Normal s.extents) : s.offsets.Nodup := by
  refine List.nodup_flatMap.2 ⟨fun e _ => e.nodup_offsets, ?_⟩
  refine h.apart.imp_of_mem fun {d e} hd _ hgap o ho ho' => ?_
  have hbefore := Extent.contains_iff.1 (Extent.mem_offsets.1 ho)
  have hbehind := Extent.contains_iff.1 (Extent.mem_offsets.1 ho')
  omega

end OffsetSet

namespace Extent

variable {e : Extent} {others : List Extent}

theorem normal_without (he : e.Ordered) (hothers : ∀ d ∈ others, d.Ordered) :
    OffsetSet.Normal (e.without others).extents ∧ ∀ o,
      OffsetSet.Covers (e.without others).extents o ↔
        e.contains o = true ∧ ¬OffsetSet.Covers others o := by
  have hsingle : ∀ d ∈ [e], d.Ordered := by simpa using he
  obtain ⟨hown, hcovers⟩ := OffsetSet.normal_ofExtents hsingle
  obtain ⟨hholes, hcovers'⟩ := OffsetSet.normal_ofExtents hothers
  obtain ⟨hnormal, hleft⟩ := OffsetSet.normal_subtract hown hholes
  refine ⟨hnormal, fun o => ?_⟩
  rw [without, hleft, hcovers, hcovers']
  simp [OffsetSet.Covers]

end Extent

end SyntaxCoverage
