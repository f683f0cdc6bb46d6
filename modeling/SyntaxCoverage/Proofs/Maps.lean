import Mathlib.Data.List.Nodup
import SyntaxCoverage.SortedMap

/-!
Maps as lists without order. A map is known by what it finds, and by its entries in any order, so a
list that names no key twice is kept whole by the map that is built from it.
-/

namespace SyntaxCoverage

namespace SortedMap

variable {κ ν : Type} [Ord κ]

theorem find?_eq_some_iff [Std.TransOrd κ] [Std.LawfulEqOrd κ] {m : SortedMap κ ν} {k : κ}
    {v : ν} : m.find? k = some v ↔ (k, v) ∈ m.entries := by
  obtain ⟨es, hes⟩ := m
  show lookupEntries k es = some v ↔ (k, v) ∈ es
  induction es with
  | nil => simp [lookupEntries]
  | cons e es ih =>
    obtain ⟨j, w⟩ := e
    obtain ⟨hj, hes⟩ := List.pairwise_cons.1 hes
    rw [lookupEntries_cons]
    split
    · next heq =>
      obtain rfl := Std.LawfulEqCmp.eq_of_compare heq
      -- the rest lies above the first key
      have hnot : (j, v) ∉ es := fun hmem => by simpa using hj _ hmem
      simp [hnot, eq_comm]
    · next hne =>
      have hkj : k ≠ j := by
        rintro rfl
        exact hne Std.ReflCmp.compare_self
      simp [ih hes, hkj]

theorem nodup_keys [Std.TransOrd κ] (m : SortedMap κ ν) : (m.entries.map Prod.fst).Nodup := by
  refine List.pairwise_map.2 (m.ascending.imp fun {a b} hlt heq => ?_)
  rw [heq] at hlt
  simp at hlt

theorem nodup_entries [Std.TransOrd κ] (m : SortedMap κ ν) : m.entries.Nodup :=
  List.Nodup.of_map Prod.fst m.nodup_keys

theorem ext_perm [Std.TransOrd κ] {m n : SortedMap κ ν} (h : m.entries.Perm n.entries) : m = n := by
  refine SortedMap.ext (h.eq_of_pairwise (fun a b _ _ hab hba => ?_) m.ascending n.ascending)
  rw [Std.OrientedCmp.gt_of_lt hab] at hba
  simp at hba

theorem ext_find? [Std.TransOrd κ] [Std.LawfulEqOrd κ] {m n : SortedMap κ ν}
    (h : ∀ k, m.find? k = n.find? k) : m = n := by
  refine ext_perm ((List.perm_ext_iff_of_nodup m.nodup_entries n.nodup_entries).2 fun e => ?_)
  rw [← find?_eq_some_iff, h, find?_eq_some_iff]

theorem find?_filterKeys [Std.TransOrd κ] [Std.LawfulEqOrd κ] (m : SortedMap κ ν) (p : κ → Bool)
    (k : κ) : (m.filterKeys p).find? k = if p k then m.find? k else none := by
  refine Option.ext fun v => ?_
  rw [find?_eq_some_iff, filterKeys, List.mem_filter, ← find?_eq_some_iff]
  cases p k <;> simp

theorem find?_mapValues {μ : Type} [Std.TransOrd κ] [Std.LawfulEqOrd κ] (m : SortedMap κ ν)
    (f : ν → μ) (k : κ) : (m.mapValues f).find? k = (m.find? k).map f := by
  refine Option.ext fun w => ?_
  rw [find?_eq_some_iff, Option.map_eq_some_iff, mapValues, List.mem_map]
  constructor
  · rintro ⟨⟨j, v⟩, hmem, heq⟩
    obtain ⟨rfl, rfl⟩ := Prod.mk.inj heq
    exact ⟨v, find?_eq_some_iff.2 hmem, rfl⟩
  · rintro ⟨v, hfind, rfl⟩
    exact ⟨(k, v), find?_eq_some_iff.1 hfind, rfl⟩

theorem upsertEntries_perm [Std.LawfulEqOrd κ] {k : κ} (f : Option ν → ν) {es : List (κ × ν)}
    (h : k ∉ es.map Prod.fst) : (upsertEntries k f es).Perm ((k, f none) :: es) := by
  induction es with
  | nil => exact .refl _
  | cons e es ih =>
    obtain ⟨j, v⟩ := e
    rw [List.map_cons, List.mem_cons, not_or] at h
    rw [upsertEntries]
    split
    · exact .refl _
    · next heq => exact absurd (Std.LawfulEqCmp.eq_of_compare heq) h.1
    · exact ((ih h.2).cons (j, v)).trans (List.Perm.swap ..)

section OfList

variable [Std.TransOrd κ] [Std.LawfulEqOrd κ]

theorem entries_foldl_insert_perm {m : SortedMap κ ν} {es : List (κ × ν)}
    (h : ((m.entries ++ es).map Prod.fst).Nodup) :
    (es.foldl (fun m e => m.insert e.1 e.2) m).entries.Perm (m.entries ++ es) := by
  induction es generalizing m with
  | nil => rw [List.append_nil]; exact .refl _
  | cons e es ih =>
    have hkeys : ((e :: (m.entries ++ es)).map Prod.fst).Nodup :=
      ((List.perm_middle.map Prod.fst).nodup_iff).1 h
    have hfresh : e.1 ∉ m.entries.map Prod.fst := fun hmem => by
      rw [List.map_cons, List.nodup_cons, List.map_append] at hkeys
      exact hkeys.1 (List.mem_append_left _ hmem)
    have hinsert : ((m.insert e.1 e.2).entries ++ es).Perm (e :: (m.entries ++ es)) :=
      (upsertEntries_perm (fun _ => e.2) hfresh).append_right es
    refine (ih ?_).trans (hinsert.trans List.perm_middle.symm)
    exact (hinsert.map Prod.fst).nodup_iff.2 hkeys

theorem entries_ofList_perm {es : List (κ × ν)} (h : (es.map Prod.fst).Nodup) :
    (ofList es).entries.Perm es :=
  entries_foldl_insert_perm (m := ∅) h

theorem ofList_entries (m : SortedMap κ ν) : ofList m.entries = m :=
  ext_perm (entries_ofList_perm m.nodup_keys)

end OfList

theorem upsertEntries_rename {κ' : Type} [Ord κ'] {g : κ → κ'} {k : κ} (u : Option ν → ν)
    {es : List (κ × ν)} (hg : ∀ e ∈ es, compare (g k) (g e.1) = compare k e.1) :
    upsertEntries (g k) u (es.map (Prod.map g id)) =
      (upsertEntries k u es).map (Prod.map g id) := by
  induction es with
  | nil => rfl
  | cons e es ih =>
    obtain ⟨j, v⟩ := e
    have hhead : compare (g k) (g j) = compare k j := hg (j, v) (List.mem_cons_self ..)
    have htail := ih fun e he => hg e (List.mem_cons_of_mem _ he)
    simp only [List.map_cons, Prod.map_apply, id_eq, upsertEntries, hhead, htail]
    cases compare k j <;> rfl

end SortedMap

end SyntaxCoverage
