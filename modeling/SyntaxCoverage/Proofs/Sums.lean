import Mathlib.Algebra.GroupWithZero.Nat
import SyntaxCoverage.Proofs.Maps
import SyntaxCoverage.Tally

/-!
Tallies as sums. What a tally holds for an extent is the sum of the records of that extent, cut off
at the largest count, and a merged tally holds the sum of what the two tallies hold. Such sums do
not depend on how their terms are ordered or put together. Main statement: `Tally.merge_algebra`.
-/

namespace SyntaxCoverage

instance : Std.Commutative addCounts := ⟨addCounts_comm⟩

instance : Std.Associative addCounts := ⟨addCounts_assoc⟩

theorem zero_addCounts (n : Nat) : addCounts 0 n = min n maxCount := by
  rw [addCounts, Nat.zero_add]

theorem addCounts_min (m n : Nat) : addCounts m (min n maxCount) = addCounts m n := by
  simp only [addCounts]
  omega

def cappedSum? (ns : List Nat) : Option Nat :=
  if ns = [] then none else some (min ns.sum maxCount)

theorem cappedSum?_of_ne_nil {ns : List Nat} (h : ns ≠ []) :
    cappedSum? ns = some (min ns.sum maxCount) := if_neg h

theorem cappedSum?_eq_none_iff {ns : List Nat} : cappedSum? ns = none ↔ ns = [] := by
  unfold cappedSum?
  split <;> simp_all

theorem cappedSum?_append (ms ns : List Nat) :
    cappedSum? (ms ++ ns) = Option.merge addCounts (cappedSum? ms) (cappedSum? ns) := by
  rcases eq_or_ne ms [] with rfl | hms
  · rw [List.nil_append, show cappedSum? [] = none from rfl, Option.merge_none_left]
  rcases eq_or_ne ns [] with rfl | hns
  · rw [List.append_nil, show cappedSum? [] = none from rfl, Option.merge_none_right]
  have hboth : ms ++ ns ≠ [] := List.append_ne_nil_of_left_ne_nil hms ns
  rw [cappedSum?_of_ne_nil hms, cappedSum?_of_ne_nil hns, cappedSum?_of_ne_nil hboth,
    Option.merge_some_some, List.sum_append_nat, addCounts]
  congr 1
  omega

namespace Counts

def add (c d : Counts) : Counts :=
  ⟨addCounts c.hits d.hits, c.completions.merge addCounts d.completions⟩

instance : Std.Commutative add where
  comm c d := by
    have hcompletions : c.completions.merge addCounts d.completions =
        d.completions.merge addCounts c.completions := Std.Commutative.comm _ _
    rw [add, add, addCounts_comm, hcompletions]

instance : Std.Associative add where
  assoc c d e := by
    have hcompletions :
        (c.completions.merge addCounts d.completions).merge addCounts e.completions =
          c.completions.merge addCounts (d.completions.merge addCounts e.completions) :=
      Std.Associative.assoc _ _ _
    simp only [add, addCounts_assoc, hcompletions]

def Capped (c : Counts) : Prop := c.hits ≤ maxCount ∧ ∀ n ∈ c.completions, n ≤ maxCount

instance : DecidablePred Capped := fun _ => inferInstanceAs (Decidable (_ ∧ _))

def cap (c : Counts) : Counts := ⟨min c.hits maxCount, c.completions.map (min · maxCount)⟩

theorem Capped.cap_eq {c : Counts} (h : c.Capped) : c.cap = c := by
  obtain ⟨hits, completions⟩ := c
  have hcompletions : completions.map (min · maxCount) = completions := by
    cases completions with
    | none => rfl
    | some n => exact congrArg some (Nat.min_eq_left (h.2 n rfl))
  rw [cap, hcompletions, Nat.min_eq_left h.1]

theorem Capped.add {c d : Counts} (hc : c.Capped) (hd : d.Capped) : (c.add d).Capped := by
  refine ⟨Nat.min_le_right .., fun n hn => ?_⟩
  rcases Option.merge_eq_some_iff.1 hn with ⟨hn, -⟩ | ⟨-, hn⟩ | ⟨k, m, -, -, rfl⟩
  · exact hc.2 n hn
  · exact hd.2 n hn
  · exact Nat.min_le_right ..

end Counts

namespace HitRecord

def sumOf? (rs : List HitRecord) (e : Extent) : Option Counts :=
  let here := rs.filter (·.extent == e)
  (cappedSum? (here.map (·.hits))).map fun hits =>
    ⟨hits, cappedSum? (here.filterMap (·.completions))⟩

section Sums

variable {rs qs : List HitRecord} {e : Extent}

theorem sumOf?_of_filter_eq_nil (h : rs.filter (·.extent == e) = []) : sumOf? rs e = none := by
  rw [sumOf?, h]
  rfl

theorem sumOf?_append (rs qs : List HitRecord) (e : Extent) :
    sumOf? (rs ++ qs) e = Option.merge Counts.add (sumOf? rs e) (sumOf? qs e) := by
  rcases eq_or_ne (rs.filter (·.extent == e)) [] with hrs | hrs
  · rw [sumOf?_of_filter_eq_nil hrs, Option.merge_none_left, sumOf?, List.filter_append, hrs,
      List.nil_append]
    rfl
  rcases eq_or_ne (qs.filter (·.extent == e)) [] with hqs | hqs
  · rw [sumOf?_of_filter_eq_nil hqs, Option.merge_none_right, sumOf?, List.filter_append, hqs,
      List.append_nil]
    rfl
  have hrs_hits : cappedSum? ((rs.filter (·.extent == e)).map (·.hits)) = some _ :=
    cappedSum?_of_ne_nil (mt List.map_eq_nil_iff.1 hrs)
  have hqs_hits : cappedSum? ((qs.filter (·.extent == e)).map (·.hits)) = some _ :=
    cappedSum?_of_ne_nil (mt List.map_eq_nil_iff.1 hqs)
  simp only [sumOf?, List.filter_append, List.map_append, List.filterMap_append, cappedSum?_append,
    hrs_hits, hqs_hits, Option.merge_some_some, Option.map_some, Counts.add]

theorem sumOf?_perm (h : rs.Perm qs) (e : Extent) : sumOf? rs e = sumOf? qs e := by
  have hhere := h.filter (·.extent == e)
  have hcapped : ∀ {ms ns : List Nat}, ms.Perm ns → cappedSum? ms = cappedSum? ns := by
    intro ms ns hperm
    have hnil : ms = [] ↔ ns = [] := by
      rw [← List.length_eq_zero_iff, hperm.length_eq, List.length_eq_zero_iff]
    simp only [cappedSum?, hperm.sum_nat, hnil]
  rw [sumOf?, sumOf?, hcapped (hhere.map _), hcapped (hhere.filterMap _)]

theorem sumOf?_singleton (r : HitRecord) (e : Extent) :
    sumOf? [r] e = if r.extent = e then some (Counts.mk r.hits r.completions).cap else none := by
  rcases eq_or_ne r.extent e with h | h
  · rw [if_pos h, sumOf?, List.filter_cons_of_pos (by simpa using h)]
    obtain ⟨extent, hits, completions⟩ := r
    cases completions <;> simp [cappedSum?, Counts.cap]
  · rw [if_neg h, sumOf?_of_filter_eq_nil]
    exact List.filter_cons_of_neg (by simpa using h)

theorem sumOf?_filter (rs : List HitRecord) (e : Extent) :
    sumOf? (rs.filter (·.extent == e)) e = sumOf? rs e := by
  simp only [sumOf?, List.filter_filter, Bool.and_self]

theorem sumOf?_eq_some_iff {c : Counts} :
    sumOf? rs e = some c ↔ e ∈ rs.map (·.extent) ∧
      c.hits = min ((rs.filter (·.extent == e)).map (·.hits)).sum maxCount ∧
      c.completions = cappedSum? ((rs.filter (·.extent == e)).filterMap (·.completions)) := by
  have hmem : rs.filter (·.extent == e) ≠ [] ↔ e ∈ rs.map (·.extent) := by
    simp [List.filter_eq_nil_iff]
  rcases eq_or_ne (rs.filter (·.extent == e)) [] with hnil | hne
  · have hnone := sumOf?_of_filter_eq_nil hnil
    simp [hnone, ← hmem, hnil]
  · have hhits : cappedSum? ((rs.filter (·.extent == e)).map (·.hits)) = some _ :=
      cappedSum?_of_ne_nil (mt List.map_eq_nil_iff.1 hne)
    obtain ⟨hits, completions⟩ := c
    simp only [sumOf?, hhits, Option.map_some, Option.some.injEq, Counts.mk.injEq, ← hmem, hne,
      not_false_eq_true, ne_eq, true_and, eq_comm]

end Sums

end HitRecord

namespace Tally

open HitRecord (sumOf? sumOf?_append sumOf?_singleton sumOf?_perm)

theorem find?_addRecord_of_ne (t : Tally) {r : HitRecord} {e : Extent} (h : e ≠ r.extent) :
    (t.addRecord r).counts.find? e = t.counts.find? e := by
  have hhits : (t.addHits r.extent r.hits).counts.find? e = t.counts.find? e :=
    SortedMap.find?_upsert_of_ne _ _ h
  rw [addRecord]
  split
  · exact (SortedMap.find?_upsert_of_ne _ _ h).trans hhits
  · exact hhits

theorem find?_addRecord_self (t : Tally) (r : HitRecord) :
    (t.addRecord r).counts.find? r.extent = Option.merge Counts.add (t.counts.find? r.extent)
      (some (Counts.mk r.hits r.completions).cap) := by
  have hhits : (t.addHits r.extent r.hits).counts.find? r.extent =
      some (((t.counts.find? r.extent).getD .none).addHits r.hits) :=
    SortedMap.find?_upsert_self _ _ _
  obtain ⟨extent, hits, completions⟩ := r
  cases completions with
  | none =>
    refine hhits.trans ?_
    cases t.counts.find? extent with
    | none => simp [Counts.addHits, Counts.none, Counts.cap, zero_addCounts]
    | some c => simp [Counts.addHits, Counts.cap, Counts.add, addCounts_min]
  | some n =>
    refine (SortedMap.find?_upsert_self _ _ _).trans ?_
    rw [hhits]
    cases t.counts.find? extent with
    | none => simp [Counts.addHits, Counts.addCompletions, Counts.none, Counts.cap, zero_addCounts]
    | some c =>
      obtain ⟨recorded, completed⟩ := c
      cases completed <;>
        simp [Counts.addHits, Counts.addCompletions, Counts.cap, Counts.add, addCounts_min,
          zero_addCounts]

theorem find?_addRecord (t : Tally) (r : HitRecord) (e : Extent) :
    (t.addRecord r).counts.find? e =
      Option.merge Counts.add (t.counts.find? e) (sumOf? [r] e) := by
  rw [sumOf?_singleton]
  rcases eq_or_ne r.extent e with rfl | h
  · rw [if_pos rfl, find?_addRecord_self]
  · rw [if_neg h, Option.merge_none_right, find?_addRecord_of_ne t h.symm]

theorem find?_addRecords (t : Tally) (rs : List HitRecord) (e : Extent) :
    (rs.foldl addRecord t).counts.find? e =
      Option.merge Counts.add (t.counts.find? e) (sumOf? rs e) := by
  induction rs generalizing t with
  | nil => exact Option.merge_none_right.symm
  | cons r rs ih =>
    have hsplit : sumOf? (r :: rs) e = Option.merge Counts.add (sumOf? [r] e) (sumOf? rs e) :=
      sumOf?_append [r] rs e
    rw [List.foldl_cons, ih, find?_addRecord, hsplit]
    exact Std.Associative.assoc _ _ _

theorem find?_ofRecords (rs : List HitRecord) (e : Extent) :
    (ofRecords rs).counts.find? e = sumOf? rs e :=
  (find?_addRecords empty rs e).trans Option.merge_none_left

def Capped (t : Tally) : Prop := ∀ x ∈ t.counts.entries, x.2.Capped

instance : DecidablePred Capped := fun _ => inferInstanceAs (Decidable (∀ x ∈ _, _))

section Capped

variable {t a b : Tally}

theorem capped_iff : t.Capped ↔ ∀ e c, t.counts.find? e = some c → c.Capped := by
  simp only [Capped, Prod.forall, SortedMap.find?_eq_some_iff]

theorem Capped.getD (ht : t.Capped) (e : Extent) : ((t.counts.find? e).getD .none).Capped := by
  cases hfind : t.counts.find? e with
  | none => exact ⟨Nat.zero_le _, fun n hn => nomatch hn⟩
  | some c => exact capped_iff.1 ht e c hfind

theorem Capped.of_upsert {e : Extent} {f : Option Counts → Counts} (ht : t.Capped)
    (hf : (f (t.counts.find? e)).Capped) : Capped { t with counts := t.counts.upsert e f } := by
  refine capped_iff.2 fun e' c hfind => ?_
  rcases eq_or_ne e' e with rfl | h
  · rw [SortedMap.find?_upsert_self] at hfind
    obtain rfl := Option.some.inj hfind
    exact hf
  · rw [SortedMap.find?_upsert_of_ne _ _ h] at hfind
    exact capped_iff.1 ht e' c hfind

theorem Capped.addHits (ht : t.Capped) (e : Extent) (n : Nat) : (t.addHits e n).Capped :=
  ht.of_upsert ⟨Nat.min_le_right .., (ht.getD e).2⟩

theorem Capped.addCompletions (ht : t.Capped) (e : Extent) (n : Nat) :
    (t.addCompletions e n).Capped := by
  refine ht.of_upsert ⟨(ht.getD e).1, fun m hm => ?_⟩
  obtain rfl := Option.some.inj hm
  exact Nat.min_le_right ..

theorem Capped.addRecord (ht : t.Capped) (r : HitRecord) : (t.addRecord r).Capped := by
  rw [Tally.addRecord]
  split
  · exact (ht.addHits _ _).addCompletions _ _
  · exact ht.addHits _ _

theorem Capped.addRecords (ht : t.Capped) (rs : List HitRecord) :
    (rs.foldl Tally.addRecord t).Capped := by
  induction rs generalizing t with
  | nil => exact ht
  | cons r rs ih => exact ih (ht.addRecord r)

theorem capped_ofRecords (rs : List HitRecord) : (ofRecords rs).Capped := by
  have hempty : empty.Capped := fun x hx => absurd hx List.not_mem_nil
  exact hempty.addRecords rs

theorem Capped.merge (ha : a.Capped) (b : Tally) : (a.merge b).Capped := ha.addRecords b.records

end Capped

section Records

variable {t a b : Tally} {r : HitRecord}

theorem mem_records : r ∈ t.records ↔ t.counts.find? r.extent = some ⟨r.hits, r.completions⟩ := by
  rw [SortedMap.find?_eq_some_iff, records, List.mem_map]
  constructor
  · rintro ⟨⟨e, c⟩, hmem, rfl⟩
    exact hmem
  · intro hmem
    exact ⟨_, hmem, rfl⟩

theorem nodup_records (t : Tally) : (t.records.map (·.extent)).Nodup := by
  rw [records, List.map_map]
  exact t.counts.nodup_keys

theorem records_congr (h : ∀ e, a.counts.find? e = b.counts.find? e) : a.records = b.records := by
  rw [records, records, SortedMap.ext_find? h]

theorem sumOf?_records (t : Tally) (e : Extent) :
    sumOf? t.records e = (t.counts.find? e).map Counts.cap := by
  cases hfind : t.counts.find? e with
  | none =>
    refine HitRecord.sumOf?_of_filter_eq_nil (List.filter_eq_nil_iff.2 fun r hr heq => ?_)
    obtain rfl := eq_of_beq heq
    rw [mem_records.1 hr] at hfind
    cases hfind
  | some c =>
    have hhere : t.records.filter (·.extent == e) = [⟨e, c.hits, c.completions⟩] := by
      have hnodup := (List.Nodup.of_map _ t.nodup_records).filter (·.extent == e)
      refine List.perm_singleton.1 ((List.perm_ext_iff_of_nodup hnodup (List.nodup_singleton _)).2
        fun r => ?_)
      rw [List.mem_filter, mem_records, List.mem_singleton, beq_iff_eq]
      constructor
      · rintro ⟨hr, rfl⟩
        rw [hfind] at hr
        obtain rfl := Option.some.inj hr
        rfl
      · rintro rfl
        exact ⟨hfind, rfl⟩
    rw [← HitRecord.sumOf?_filter, hhere, sumOf?_singleton, if_pos rfl]
    rfl

theorem find?_merge (a b : Tally) (e : Extent) :
    (a.merge b).counts.find? e =
      Option.merge Counts.add (a.counts.find? e) ((b.counts.find? e).map Counts.cap) := by
  rw [← sumOf?_records]
  exact find?_addRecords a b.records e

theorem Capped.map_cap (ht : t.Capped) (e : Extent) :
    (t.counts.find? e).map Counts.cap = t.counts.find? e := by
  cases hfind : t.counts.find? e with
  | none => rfl
  | some c => exact congrArg some (capped_iff.1 ht e c hfind).cap_eq

theorem Capped.find?_merge (hb : b.Capped) (a : Tally) (e : Extent) :
    (a.merge b).counts.find? e =
      Option.merge Counts.add (a.counts.find? e) (b.counts.find? e) := by
  rw [Tally.find?_merge, hb.map_cap]

end Records

end Tally

/-- What a tally is to list after some records: each of their extents once and in order, with the
sum of its hits up to the largest count, and with that of its completions where there were any. -/
structure HitRecord.AddUpTo (rs sums : List HitRecord) : Prop where
  ascending : sums.Pairwise fun r s =>
    r.extent.start < s.extent.start ∨
      r.extent.start = s.extent.start ∧ r.extent.stop < s.extent.stop
  extents : ∀ e, e ∈ sums.map (·.extent) ↔ e ∈ rs.map (·.extent)
  hits : ∀ s ∈ sums,
    s.hits = min ((rs.filter (·.extent == s.extent)).map (·.hits)).sum maxCount
  uncompleted : ∀ s ∈ sums,
    s.completions = none ↔ ∀ r ∈ rs, r.extent = s.extent → r.completions = none
  completed : ∀ s ∈ sums, ∀ n, s.completions = some n →
    n = min ((rs.filter (·.extent == s.extent)).filterMap (·.completions)).sum maxCount

namespace Tally

open HitRecord (sumOf? sumOf?_append sumOf?_perm)

theorem ascending_records (t : Tally) : t.records.Pairwise fun r s =>
    r.extent.start < s.extent.start ∨
      r.extent.start = s.extent.start ∧ r.extent.stop < s.extent.stop :=
  List.pairwise_map.2 (t.counts.ascending.imp Extent.compare_eq_lt_iff.1)

theorem addUpTo_records (rs : List HitRecord) : HitRecord.AddUpTo rs (ofRecords rs).records := by
  have hsum : ∀ s ∈ (ofRecords rs).records, s.extent ∈ rs.map (·.extent) ∧
      s.hits = min ((rs.filter (·.extent == s.extent)).map (·.hits)).sum maxCount ∧
      s.completions =
        cappedSum? ((rs.filter (·.extent == s.extent)).filterMap (·.completions)) := by
    intro s hs
    rw [mem_records, find?_ofRecords, HitRecord.sumOf?_eq_some_iff] at hs
    exact hs
  refine ⟨ascending_records _, fun e => ⟨fun he => ?_, fun he => ?_⟩, fun s hs => (hsum s hs).2.1,
    fun s hs => ?_, fun s hs n hn => ?_⟩
  · obtain ⟨s, hs, rfl⟩ := List.mem_map.1 he
    exact (hsum s hs).1
  · have hfind : (ofRecords rs).counts.find? e = some ⟨_, _⟩ :=
      (find?_ofRecords rs e).trans (HitRecord.sumOf?_eq_some_iff.2 ⟨he, rfl, rfl⟩)
    exact List.mem_map.2 ⟨⟨e, _, _⟩, mem_records.2 hfind, rfl⟩
  · rw [(hsum s hs).2.2, cappedSum?_eq_none_iff, List.filterMap_eq_nil_iff]
    simp [List.mem_filter]
  · have hcompletions := (hsum s hs).2.2
    have hne : (rs.filter (·.extent == s.extent)).filterMap (·.completions) ≠ [] := by
      intro hnil
      rw [hnil, hn] at hcompletions
      cases hcompletions
    rw [hn, cappedSum?_of_ne_nil hne] at hcompletions
    exact Option.some.inj hcompletions

/-- A tally adds up records in any order, and merging adds up tallies in any order, so that tables
can be cut and put together again at will. -/
theorem merge_algebra (rs qs : List HitRecord) :
    HitRecord.AddUpTo rs (ofRecords rs).records ∧
      (rs.Perm qs → (ofRecords rs).records = (ofRecords qs).records) ∧
      ((ofRecords rs).merge (ofRecords qs)).records = (ofRecords (rs ++ qs)).records ∧
      ∀ a b c : Tally, a.Capped → b.Capped → c.Capped →
        (ofRecords a.records).records = a.records ∧
          (a.merge b).records = (b.merge a).records ∧
          ((a.merge b).merge c).records = (a.merge (b.merge c)).records := by
  refine ⟨addUpTo_records rs, fun hperm => ?_, ?_, fun a b c ha hb hc => ⟨?_, ?_, ?_⟩⟩
  · refine records_congr fun e => ?_
    rw [find?_ofRecords, find?_ofRecords, sumOf?_perm hperm]
  · refine records_congr fun e => ?_
    rw [(capped_ofRecords qs).find?_merge, find?_ofRecords, find?_ofRecords, find?_ofRecords,
      sumOf?_append]
  · refine records_congr fun e => ?_
    rw [find?_ofRecords, sumOf?_records, ha.map_cap]
  · refine records_congr fun e => ?_
    rw [hb.find?_merge, ha.find?_merge]
    exact Std.Commutative.comm _ _
  · refine records_congr fun e => ?_
    rw [hc.find?_merge, hb.find?_merge, (hb.merge c).find?_merge, hc.find?_merge]
    exact Std.Associative.assoc _ _ _

theorem merge_algebra_nearLimit :
    let rs : List HitRecord := [⟨⟨4, 6⟩, 0, none⟩, ⟨⟨0, 3⟩, maxCount - 1, some 0⟩,
      ⟨⟨0, 9⟩, 2, none⟩, ⟨⟨0, 3⟩, 5, none⟩]
    let qs : List HitRecord := [⟨⟨0, 3⟩, 5, none⟩, ⟨⟨0, 9⟩, 2, none⟩, ⟨⟨4, 6⟩, 0, none⟩,
      ⟨⟨0, 3⟩, maxCount - 1, some 0⟩]
    let a := ofRecords rs
    let b := (empty.addCompletions ⟨9, 9⟩ 7).addHits ⟨4, 6⟩ maxCount
    let c := ofRecords [⟨⟨9, 9⟩, 1, some maxCount⟩, ⟨⟨4, 6⟩, 1, some 3⟩]
    (rs.Perm qs ∧ a.Capped ∧ b.Capped ∧ c.Capped) ∧
      (ofRecords qs).records =
        [⟨⟨0, 3⟩, maxCount, some 0⟩, ⟨⟨0, 9⟩, 2, none⟩, ⟨⟨4, 6⟩, 0, none⟩] ∧
      (b.merge a).records = [⟨⟨0, 3⟩, maxCount, some 0⟩, ⟨⟨0, 9⟩, 2, none⟩,
        ⟨⟨4, 6⟩, maxCount, none⟩, ⟨⟨9, 9⟩, 0, some 7⟩] ∧
      (a.merge (b.merge c)).records = [⟨⟨0, 3⟩, maxCount, some 0⟩, ⟨⟨0, 9⟩, 2, none⟩,
        ⟨⟨4, 6⟩, maxCount, some 3⟩, ⟨⟨9, 9⟩, 1, some maxCount⟩] := by
  intro rs qs a b c
  have hperm : rs.Perm qs := by decide
  have hcapped : a.Capped ∧ b.Capped ∧ c.Capped := by decide +kernel
  obtain ⟨-, horder, -, hlaws⟩ := merge_algebra rs qs
  obtain ⟨-, hcomm, hassoc⟩ := hlaws a b c hcapped.1 hcapped.2.1 hcapped.2.2
  rw [← horder hperm, ← hcomm, ← hassoc]
  exact ⟨⟨hperm, hcapped⟩, by decide +kernel⟩

end Tally

end SyntaxCoverage
