import Mathlib.Data.Set.Card
import SyntaxCoverage.Proofs.Offsets

/-!
Sets of offsets are known by their members. The extents of a normal form are the maximal runs of
its offsets, so there is one normal form only, and what sorting, merging and cutting do to the
members says all about the result. Main statements: `ofExtents_canonical`, `subtract_exact`.
-/

namespace SyntaxCoverage.OffsetSet

section Runs

variable {P : Nat → Prop} {ds es : List Extent} {d e : Extent} {o : Nat}

/-- A stretch of offsets with a property that reaches as far as the property does. -/
structure MaximalRun (P : Nat → Prop) (e : Extent) : Prop where
  nonempty : e.start < e.stop
  inside : ∀ o, e.contains o = true → P o
  opens : ∀ o, o + 1 = e.start → ¬P o
  closes : ¬P e.stop

theorem MaximalRun.start_le (h : MaximalRun P d) (h' : MaximalRun P e) (ho : e.contains o = true)
    (ho' : d.contains o = true) : d.start ≤ e.start := by
  rw [Extent.contains_iff] at ho ho'
  by_contra hlt
  have hbefore : e.contains (d.start - 1) = true := Extent.contains_iff.2 (by omega)
  exact h.opens (d.start - 1) (by omega) (h'.inside _ hbefore)

theorem MaximalRun.stop_le (h : MaximalRun P d) (h' : MaximalRun P e) (ho : e.contains o = true)
    (ho' : d.contains o = true) : e.stop ≤ d.stop := by
  rw [Extent.contains_iff] at ho ho'
  by_contra hlt
  have hbehind : e.contains d.stop = true := Extent.contains_iff.2 (by omega)
  exact h.closes (h'.inside _ hbehind)

theorem MaximalRun.eq_of_contains (h : MaximalRun P d) (h' : MaximalRun P e)
    (ho : d.contains o = true) (ho' : e.contains o = true) : d = e := by
  have hstart := Nat.le_antisymm (h.start_le h' ho' ho) (h'.start_le h ho ho')
  have hstop := Nat.le_antisymm (h'.stop_le h ho ho') (h.stop_le h' ho' ho)
  cases d
  cases e
  simp_all

theorem Normal.eq_or_apart (h : Normal es) (hd : d ∈ es) (he : e ∈ es) :
    d = e ∨ d.stop < e.start ∨ e.stop < d.start := by
  obtain ⟨i, hi, rfl⟩ := List.getElem_of_mem hd
  obtain ⟨j, hj, rfl⟩ := List.getElem_of_mem he
  have hapart := List.pairwise_iff_getElem.1 h.apart
  rcases Nat.lt_trichotomy i j with hlt | rfl | hlt
  · exact .inr (.inl (hapart i j hi hj hlt))
  · exact .inl rfl
  · exact .inr (.inr (hapart j i hj hi hlt))

theorem Normal.maximalRun (h : Normal es) (he : e ∈ es) : MaximalRun (Covers es) e := by
  have hne := h.nonempty e he
  refine ⟨hne, fun o ho => ⟨e, he, ho⟩, ?_, ?_⟩
  · rintro o hstart ⟨d, hd, ho⟩
    rw [Extent.contains_iff] at ho
    rcases h.eq_or_apart hd he with rfl | hbefore | hbehind <;> omega
  · rintro ⟨d, hd, ho⟩
    rw [Extent.contains_iff] at ho
    rcases h.eq_or_apart hd he with rfl | hbefore | hbehind <;> omega

theorem Normal.mem_iff (h : Normal es) : e ∈ es ↔ MaximalRun (Covers es) e := by
  refine ⟨h.maximalRun, fun hrun => ?_⟩
  have hstart : e.contains e.start = true :=
    Extent.contains_iff.2 ⟨Nat.le_refl _, hrun.nonempty⟩
  obtain ⟨d, hd, ho⟩ := hrun.inside e.start hstart
  rwa [hrun.eq_of_contains (h.maximalRun hd) hstart ho]

theorem Normal.starts_ascend (h : Normal es) : es.Pairwise fun d e => d.start < e.start :=
  h.apart.imp_of_mem fun hd _ hgap => (h.nonempty _ hd).trans hgap

theorem Normal.eq_of_covers (hd : Normal ds) (he : Normal es)
    (h : ∀ o, Covers ds o ↔ Covers es o) : ds = es := by
  have hsame : Covers ds = Covers es := funext fun o => propext (h o)
  have hperm : ds.Perm es := by
    have hnodup : ∀ {es}, Normal es → es.Nodup := fun hes =>
      hes.starts_ascend.imp fun {d e} hlt heq => Nat.ne_of_lt hlt (congrArg Extent.start heq)
    refine (List.perm_ext_iff_of_nodup (hnodup hd) (hnodup he)).2 fun e => ?_
    rw [hd.mem_iff, he.mem_iff, hsame]
  exact hperm.eq_of_pairwise (fun d e _ _ hlt hgt => absurd hlt hgt.asymm) hd.starts_ascend
    he.starts_ascend

end Runs

section Members

variable {s holes others : OffsetSet} {es : List Extent}

def members (s : OffsetSet) : Set Nat := {o | s.contains o = true}

theorem members_eq (h : Normal s.extents) : s.members = {o | Covers s.extents o} :=
  Set.ext fun _ => contains_iff_covers h

theorem members_eq_offsets (h : Normal s.extents) : s.members = (s.offsets.toFinset : Set Nat) := by
  rw [members_eq h, List.coe_toFinset]
  exact Set.ext fun _ => mem_offsets.symm

theorem finite_members (h : Normal s.extents) : s.members.Finite := by
  rw [members_eq_offsets h]
  exact Finset.finite_toSet _

theorem size_eq_ncard (h : Normal s.extents) : s.size = s.members.ncard := by
  rw [members_eq_offsets h, Set.ncard_coe_finset, List.toFinset_card_of_nodup (nodup_offsets h),
    length_offsets]

theorem eq_of_members (hs : Normal s.extents) (hothers : Normal others.extents)
    (h : s.members = others.members) : s = others := by
  rw [members_eq hs, members_eq hothers] at h
  have hextents := hs.eq_of_covers hothers fun o => Set.ext_iff.1 h o
  cases s
  cases others
  exact congrArg mk hextents

theorem members_ofExtents (hes : ∀ e ∈ es, e.Ordered) :
    (ofExtents es).members = {o | Covers es o} := by
  obtain ⟨hnormal, hcovers⟩ := normal_ofExtents hes
  exact Set.ext fun o => (contains_iff_covers hnormal).trans (hcovers o)

theorem members_subtract (hs : Normal s.extents) (h : Normal holes.extents) :
    (s.subtract holes).members = s.members \ holes.members := by
  obtain ⟨hnormal, hcovers⟩ := normal_subtract hs h
  rw [members_eq hnormal, members_eq hs, members_eq h]
  exact Set.ext hcovers

theorem Normal.ordered_append (h : Normal holes.extents) (hothers : Normal others.extents) :
    ∀ e ∈ holes.extents ++ others.extents, e.Ordered := by
  intro e he
  rcases List.mem_append.1 he with he | he
  · exact (h.nonempty e he).le
  · exact (hothers.nonempty e he).le

theorem members_ofExtents_append (h : Normal holes.extents) (hothers : Normal others.extents) :
    (ofExtents (holes.extents ++ others.extents)).members = holes.members ∪ others.members := by
  rw [members_ofExtents (h.ordered_append hothers), members_eq h, members_eq hothers]
  exact Set.ext fun _ => covers_append

end Members

/-- Whatever extents a set is built from, it is in normal form, holds the offsets of the extents and
no others, and is the same as that of any other extents with these offsets. -/
theorem ofExtents_canonical {es : List Extent} (hes : ∀ e ∈ es, e.Ordered) :
    Normal (ofExtents es).extents ∧
      (∀ o, (ofExtents es).contains o = true ↔ ∃ e ∈ es, e.contains o = true) ∧
      (ofExtents es).size = {o | ∃ e ∈ es, e.contains o = true}.ncard ∧
      ∀ ds : List Extent, (∀ d ∈ ds, d.Ordered) →
        (ofExtents ds = ofExtents es ↔
          ∀ o, (∃ d ∈ ds, d.contains o = true) ↔ ∃ e ∈ es, e.contains o = true) := by
  have hnormal := (normal_ofExtents hes).1
  have hmembers := members_ofExtents hes
  refine ⟨hnormal, fun o => Set.ext_iff.1 hmembers o, ?_, fun ds hds => ?_⟩
  · rw [size_eq_ncard hnormal, hmembers]
    rfl
  · have hmembers' := members_ofExtents hds
    constructor
    · intro heq o
      rw [heq, hmembers] at hmembers'
      exact (Set.ext_iff.1 hmembers' o).symm
    · intro hsame
      refine eq_of_members (normal_ofExtents hds).1 hnormal ?_
      rw [hmembers, hmembers']
      exact Set.ext hsame

theorem ofExtents_canonical_overlaps :
    let es : List Extent := [⟨5, 8⟩, ⟨0, 2⟩, ⟨9, 9⟩, ⟨2, 4⟩, ⟨7, 10⟩, ⟨5, 6⟩, ⟨12, 13⟩]
    let ds : List Extent := [⟨12, 13⟩, ⟨8, 10⟩, ⟨5, 9⟩, ⟨4, 4⟩, ⟨1, 4⟩, ⟨0, 1⟩, ⟨5, 9⟩]
    (∀ e ∈ es, e.Ordered) ∧ (∀ d ∈ ds, d.Ordered) ∧
      (ofExtents es).extents = [⟨0, 4⟩, ⟨5, 10⟩, ⟨12, 13⟩] ∧ (ofExtents es).size = 10 ∧
      (∀ o, (∃ d ∈ ds, d.contains o = true) ↔ ∃ e ∈ es, e.contains o = true) ∧
      {o | ∃ e ∈ es, e.contains o = true}.ncard = 10 := by
  intro es ds
  have hes : ∀ e ∈ es, e.Ordered := by decide
  have hds : ∀ d ∈ ds, d.Ordered := by decide
  obtain ⟨-, -, hsize, hsame⟩ := ofExtents_canonical hes
  have hten : (ofExtents es).size = 10 := by decide
  exact ⟨hes, hds, by decide, hten, (hsame ds hds).1 (by decide), hsize.symm.trans hten⟩

/-- What one set leaves of another is their difference, in normal form again, so holes may be cut
twice, one after the other or all at once. -/
theorem subtract_exact {s holes others : OffsetSet} (hs : Normal s.extents)
    (h : Normal holes.extents) (hothers : Normal others.extents) :
    Normal (s.subtract holes).extents ∧
      (∀ o, (s.subtract holes).contains o = true ↔
        s.contains o = true ∧ holes.contains o = false) ∧
      (s.subtract holes).size + {o | s.contains o = true ∧ holes.contains o = true}.ncard =
        s.size ∧
      (s.subtract holes).subtract holes = s.subtract holes ∧
      (s.subtract holes).subtract others =
        s.subtract (ofExtents (holes.extents ++ others.extents)) := by
  have hleft := (normal_subtract hs h).1
  have hmembers := members_subtract hs h
  have hboth := (normal_ofExtents (h.ordered_append hothers)).1
  refine ⟨hleft, fun o => ?_, ?_, ?_, ?_⟩
  · rw [← Bool.not_eq_true]
    exact Set.ext_iff.1 hmembers o
  · rw [size_eq_ncard hleft, size_eq_ncard hs, hmembers, Nat.add_comm]
    exact Set.ncard_inter_add_ncard_sdiff_eq_ncard _ _ (finite_members hs)
  · refine eq_of_members (normal_subtract hleft h).1 hleft ?_
    rw [members_subtract hleft h, hmembers, Set.sdiff_sdiff, Set.union_self]
  · refine eq_of_members (normal_subtract hleft hothers).1 (normal_subtract hs hboth).1 ?_
    rw [members_subtract hleft hothers, members_subtract hs hboth, hmembers, Set.sdiff_sdiff,
      members_ofExtents_append h hothers]

theorem subtract_exact_sharedHoles :
    let s : OffsetSet := ⟨[⟨2, 5⟩, ⟨7, 9⟩, ⟨11, 14⟩, ⟨20, 30⟩, ⟨40, 42⟩]⟩
    let holes : OffsetSet := ⟨[⟨0, 3⟩, ⟨4, 12⟩, ⟨21, 22⟩, ⟨24, 26⟩, ⟨28, 30⟩, ⟨35, 36⟩]⟩
    let others : OffsetSet := ⟨[⟨1, 2⟩, ⟨3, 8⟩, ⟨25, 29⟩, ⟨41, 50⟩]⟩
    Normal s.extents ∧ Normal holes.extents ∧ Normal others.extents ∧
      (s.subtract holes).extents =
        [⟨3, 4⟩, ⟨12, 14⟩, ⟨20, 21⟩, ⟨22, 24⟩, ⟨26, 28⟩, ⟨40, 42⟩] ∧
      {o | s.contains o = true ∧ holes.contains o = true}.ncard = 10 ∧
      (s.subtract (ofExtents (holes.extents ++ others.extents))).extents =
        [⟨12, 14⟩, ⟨20, 21⟩, ⟨22, 24⟩, ⟨40, 41⟩] := by
  intro s holes others
  have hs : Normal s.extents := ⟨by decide, by decide⟩
  have hholes : Normal holes.extents := ⟨by decide, by decide⟩
  have hothers : Normal others.extents := ⟨by decide, by decide⟩
  obtain ⟨-, -, hsize, -, htwice⟩ := subtract_exact hs hholes hothers
  have hleft : (s.subtract holes).size = 10 := by decide
  have hall : s.size = 20 := by decide
  refine ⟨hs, hholes, hothers, by decide, by omega, ?_⟩
  rw [← htwice]
  decide

end SyntaxCoverage.OffsetSet
