/-!
Finite maps kept as strictly ascending lists of entries. The order is part of the type, so two
maps with the same entries are equal and a listing of a map is always in key order.
-/

namespace SyntaxCoverage

structure SortedMap (κ ν : Type) [Ord κ] where
  entries : List (κ × ν)
  ascending : entries.Pairwise fun a b => compare a.1 b.1 = .lt
deriving DecidableEq

namespace SortedMap

section Entries

variable {κ ν : Type} [Ord κ]

def upsertEntries (k : κ) (f : Option ν → ν) : List (κ × ν) → List (κ × ν)
  | [] => [(k, f none)]
  | (j, v) :: rest =>
    match compare k j with
    | .lt => (k, f none) :: (j, v) :: rest
    | .eq => (k, f (some v)) :: rest
    | .gt => (j, v) :: upsertEntries k f rest

theorem mem_upsertEntries {k : κ} {f : Option ν → ν} {es : List (κ × ν)} {a : κ × ν}
    (h : a ∈ upsertEntries k f es) : a.1 = k ∨ a ∈ es := by
  induction es with
  | nil => simp only [upsertEntries, List.mem_singleton] at h; exact .inl (h ▸ rfl)
  | cons e rest ih =>
    obtain ⟨j, v⟩ := e
    simp only [upsertEntries] at h
    split at h
    · rcases List.mem_cons.1 h with rfl | h
      · exact .inl rfl
      · exact .inr h
    · rcases List.mem_cons.1 h with rfl | h
      · exact .inl rfl
      · exact .inr (List.mem_cons_of_mem _ h)
    · rcases List.mem_cons.1 h with rfl | h
      · exact .inr (List.mem_cons_self ..)
      · exact (ih h).imp id (List.mem_cons_of_mem _)

theorem ascending_upsertEntries [Std.TransOrd κ] [Std.LawfulEqOrd κ] (k : κ) (f : Option ν → ν)
    {es : List (κ × ν)} (h : es.Pairwise fun a b => compare a.1 b.1 = .lt) :
    (upsertEntries k f es).Pairwise fun a b => compare a.1 b.1 = .lt := by
  induction es with
  | nil => simp [upsertEntries]
  | cons e rest ih =>
    obtain ⟨j, v⟩ := e
    obtain ⟨hj, hrest⟩ := List.pairwise_cons.1 h
    simp only [upsertEntries]
    split
    · next hk =>
      refine List.pairwise_cons.2 ⟨fun b hb => ?_, h⟩
      rcases List.mem_cons.1 hb with rfl | hb
      · exact hk
      · exact Std.TransCmp.lt_trans hk (hj b hb)
    · next hk =>
      have hkj : k = j := Std.LawfulEqCmp.eq_of_compare hk
      subst hkj
      exact List.pairwise_cons.2 ⟨hj, hrest⟩
    · next hk =>
      refine List.pairwise_cons.2 ⟨fun b hb => ?_, ih hrest⟩
      rcases mem_upsertEntries hb with hb | hb
      · exact hb ▸ Std.OrientedCmp.lt_of_gt hk
      · exact hj b hb

def lookupEntries (k : κ) (es : List (κ × ν)) : Option ν :=
  (es.find? fun e => compare e.1 k == .eq).map (·.2)

theorem lookupEntries_cons (k : κ) (e : κ × ν) (es : List (κ × ν)) :
    lookupEntries k (e :: es) = if compare e.1 k = .eq then some e.2 else lookupEntries k es := by
  by_cases h : compare e.1 k = .eq <;> simp [lookupEntries, h]

theorem lookupEntries_eq_none {k : κ} {es : List (κ × ν)}
    (h : ∀ e ∈ es, compare e.1 k ≠ .eq) : lookupEntries k es = none := by
  simp only [lookupEntries, Option.map_eq_none_iff, List.find?_eq_none]
  intro e he
  simpa using h e he

theorem lookup_upsertEntries_self [Std.TransOrd κ] [Std.LawfulEqOrd κ] (k : κ)
    (f : Option ν → ν) {es : List (κ × ν)} (h : es.Pairwise fun a b => compare a.1 b.1 = .lt) :
    lookupEntries k (upsertEntries k f es) = some (f (lookupEntries k es)) := by
  induction es with
  | nil => simp [upsertEntries, lookupEntries]
  | cons e rest ih =>
    obtain ⟨j, v⟩ := e
    obtain ⟨hj, hrest⟩ := List.pairwise_cons.1 h
    simp only [upsertEntries]
    split
    · next hk =>
      have hnone : lookupEntries k ((j, v) :: rest) = none := by
        apply lookupEntries_eq_none
        intro e he
        have hlt : compare k e.1 = .lt := by
          rcases List.mem_cons.1 he with rfl | he
          · exact hk
          · exact Std.TransCmp.lt_trans hk (hj e he)
        rw [Std.OrientedCmp.gt_of_lt hlt]
        simp
      rw [lookupEntries_cons, if_pos Std.ReflCmp.compare_self, hnone]
    · next hk =>
      have hkj : k = j := Std.LawfulEqCmp.eq_of_compare hk
      subst hkj
      rw [lookupEntries_cons, if_pos Std.ReflCmp.compare_self, lookupEntries_cons,
        if_pos Std.ReflCmp.compare_self]
    · next hk =>
      have hne : compare j k ≠ .eq := by rw [Std.OrientedCmp.lt_of_gt hk]; simp
      rw [lookupEntries_cons, if_neg hne, ih hrest, lookupEntries_cons, if_neg hne]

theorem lookup_upsertEntries_of_ne [Std.LawfulEqOrd κ] {k j : κ} (f : Option ν → ν)
    (es : List (κ × ν)) (h : j ≠ k) :
    lookupEntries j (upsertEntries k f es) = lookupEntries j es := by
  have hkj : compare k j ≠ .eq := fun e => h (Std.LawfulEqCmp.eq_of_compare e).symm
  induction es with
  | nil => simp [upsertEntries, lookupEntries, hkj]
  | cons e rest ih =>
    obtain ⟨i, v⟩ := e
    simp only [upsertEntries]
    split
    · rw [lookupEntries_cons, if_neg hkj]
    · next hi =>
      have hki : k = i := Std.LawfulEqCmp.eq_of_compare hi
      subst hki
      rw [lookupEntries_cons, if_neg hkj, lookupEntries_cons, if_neg hkj]
    · rw [lookupEntries_cons, lookupEntries_cons, ih]

end Entries

variable {κ ν μ : Type} [Ord κ]

@[ext]
theorem ext {m n : SortedMap κ ν} (h : m.entries = n.entries) : m = n := by
  cases m
  cases n
  simp_all

def empty : SortedMap κ ν := ⟨[], .nil⟩

instance : EmptyCollection (SortedMap κ ν) := ⟨empty⟩
instance : Inhabited (SortedMap κ ν) := ⟨empty⟩

def size (m : SortedMap κ ν) : Nat := m.entries.length

def isEmpty (m : SortedMap κ ν) : Bool := m.entries.isEmpty

def find? (m : SortedMap κ ν) (k : κ) : Option ν := lookupEntries k m.entries

def upsert [Std.TransOrd κ] [Std.LawfulEqOrd κ] (m : SortedMap κ ν) (k : κ) (f : Option ν → ν) :
    SortedMap κ ν :=
  ⟨upsertEntries k f m.entries, ascending_upsertEntries k f m.ascending⟩

theorem find?_upsert_self [Std.TransOrd κ] [Std.LawfulEqOrd κ] (m : SortedMap κ ν) (k : κ)
    (f : Option ν → ν) : (m.upsert k f).find? k = some (f (m.find? k)) :=
  lookup_upsertEntries_self k f m.ascending

theorem find?_upsert_of_ne [Std.TransOrd κ] [Std.LawfulEqOrd κ] (m : SortedMap κ ν) {k j : κ}
    (f : Option ν → ν) (h : j ≠ k) : (m.upsert k f).find? j = m.find? j :=
  lookup_upsertEntries_of_ne f m.entries h

def insert [Std.TransOrd κ] [Std.LawfulEqOrd κ] (m : SortedMap κ ν) (k : κ) (v : ν) :
    SortedMap κ ν :=
  m.upsert k fun _ => v

/-- The map of a list of entries, where the last entry of a key counts. -/
def ofList [Std.TransOrd κ] [Std.LawfulEqOrd κ] (es : List (κ × ν)) : SortedMap κ ν :=
  es.foldl (fun m e => m.insert e.1 e.2) empty

def between (m : SortedMap κ ν) (low high : κ) : List (κ × ν) :=
  m.entries.filter fun e => (compare low e.1).isLE && (compare e.1 high).isLE

def filterKeys (m : SortedMap κ ν) (p : κ → Bool) : SortedMap κ ν :=
  ⟨m.entries.filter fun e => p e.1, m.ascending.filter _⟩

def mapValues (m : SortedMap κ ν) (f : ν → μ) : SortedMap κ μ :=
  ⟨m.entries.map fun e => (e.1, f e.2), List.pairwise_map.2 m.ascending⟩

end SortedMap

end SyntaxCoverage
