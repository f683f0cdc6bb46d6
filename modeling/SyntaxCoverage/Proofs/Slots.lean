import Mathlib.Data.List.Induction
import SyntaxCoverage.Syntax.Tree

/-!
The first and the last of the slots at which something is found. Slots count all items of a tree,
those that are passed over included.
-/

namespace SyntaxCoverage

section Found

variable {α β : Type} {found : Nat → Option β} {i k : Nat} {b c : β}

/-- What is found at the slot `k`, when nothing is found at the slots before it. -/
structure FirstAt (found : Nat → Option β) (k : Nat) (b : β) : Prop where
  here : found k = some b
  first : ∀ j < k, found j = none

structure LastAt (found : Nat → Option β) (k : Nat) (b : β) : Prop where
  here : found k = some b
  last : ∀ j, k < j → found j = none

theorem FirstAt.le (h : FirstAt found i b) (hk : found k = some c) : i ≤ k := by
  refine Nat.le_of_not_lt fun hlt => ?_
  rw [h.first k hlt] at hk
  exact nomatch hk

theorem LastAt.le (h : LastAt found i b) (hk : found k = some c) : k ≤ i := by
  refine Nat.le_of_not_lt fun hlt => ?_
  rw [h.last k hlt] at hk
  exact nomatch hk

theorem FirstAt.unique (h : FirstAt found i b) (h' : FirstAt found k c) : i = k ∧ b = c := by
  obtain rfl := Nat.le_antisymm (h.le h'.here) (h'.le h.here)
  exact ⟨rfl, Option.some.inj (h.here.symm.trans h'.here)⟩

theorem LastAt.unique (h : LastAt found i b) (h' : LastAt found k c) : i = k ∧ b = c := by
  obtain rfl := Nat.le_antisymm (h'.le h.here) (h.le h'.here)
  exact ⟨rfl, Option.some.inj (h.here.symm.trans h'.here)⟩

theorem exists_firstAt_iff : (∃ k, FirstAt found k b) ↔
    found 0 = some b ∨ found 0 = none ∧ ∃ k, FirstAt (fun k => found (k + 1)) k b := by
  rw [← Nat.or_exists_add_one, ← exists_and_left]
  refine or_congr ⟨fun h => h.here, fun h => ⟨h, nofun⟩⟩ (exists_congr fun k => ?_)
  constructor
  · intro h
    exact ⟨h.first 0 k.succ_pos, h.here, fun j hj => h.first (j + 1) (Nat.succ_lt_succ hj)⟩
  · rintro ⟨hzero, hhere, hfirst⟩
    refine ⟨hhere, fun j hj => ?_⟩
    cases j with
    | zero => exact hzero
    | succ j => exact hfirst j (Nat.lt_of_succ_lt_succ hj)

end Found

section Lists

variable {α β : Type} {f : α → Option β} {b : β}

theorem head?_filterMap_eq_some_iff {xs : List α} :
    (xs.filterMap f).head? = some b ↔ ∃ k, FirstAt (fun k => xs[k]?.bind f) k b := by
  induction xs with
  | nil =>
    refine iff_of_false nofun ?_
    rintro ⟨k, h⟩
    exact nomatch h.here
  | cons x xs ih =>
    rw [exists_firstAt_iff]
    simp only [List.getElem?_cons_zero, List.getElem?_cons_succ, Option.bind_some]
    cases hx : f x with
    | none =>
      rw [List.filterMap_cons_none hx, ih]
      simp
    | some c =>
      rw [List.filterMap_cons_some hx]
      simp

theorem getLast?_filterMap_eq_some_iff {xs : List α} :
    (xs.filterMap f).getLast? = some b ↔ ∃ k, LastAt (fun k => xs[k]?.bind f) k b := by
  induction xs using List.reverseRecOn with
  | nil =>
    refine iff_of_false nofun ?_
    rintro ⟨k, h⟩
    exact nomatch h.here
  | append_singleton xs x ih =>
    have hbehind : ∀ j, xs.length < j → (xs ++ [x])[j]? = none := by
      intro j hj
      rw [List.getElem?_eq_none_iff, List.length_append]
      exact hj
    rw [List.filterMap_append]
    cases hx : f x with
    | none =>
      -- nothing is found at the slot of `x`, and without `x` there is no such slot
      have hfound : (fun k : Nat => (xs ++ [x])[k]?.bind f) = fun k => xs[k]?.bind f := by
        funext k
        rcases Nat.lt_trichotomy k xs.length with hlt | rfl | hgt
        · rw [List.getElem?_append_left hlt]
        · simp [hx]
        · rw [hbehind k hgt, List.getElem?_eq_none (Nat.le_of_lt hgt)]
      rw [hfound, ← ih, List.filterMap_cons_none hx, List.filterMap_nil, List.append_nil]
    | some c =>
      have hlast : LastAt (fun k => (xs ++ [x])[k]?.bind f) xs.length c := by
        refine ⟨by simp [hx], fun j hj => ?_⟩
        rw [hbehind j hj, Option.bind_none]
      rw [List.filterMap_cons_some hx, List.filterMap_nil, List.getLast?_concat]
      constructor
      · rintro ⟨⟩
        exact ⟨_, hlast⟩
      · rintro ⟨k, h⟩
        rw [(hlast.unique h).2]

end Lists

namespace Tree

variable {t : Tree} {k x y x' y' : Nat}

theorem mem_treeSlots : k ∈ t.treeSlots ↔ (t.treeAt? k).isSome := by
  simp only [treeSlots, List.mem_map, List.mem_filter, List.mem_zipIdx_iff_getElem?, treeAt?]
  constructor
  · rintro ⟨⟨item, k⟩, ⟨hitem, htree⟩, rfl⟩
    rw [hitem]
    cases item with
    | tree u => rfl
    | leaf l => exact nomatch htree
  · intro h
    cases hitem : t.items[k]? with
    | none => simp [hitem] at h
    | some item =>
      cases item with
      | tree u => exact ⟨(.tree u, k), ⟨hitem, rfl⟩, rfl⟩
      | leaf l => simp [hitem, Item.tree?] at h

theorem treeAt?_eq_none_iff : t.treeAt? k = none ↔ k ∉ t.treeSlots := by
  rw [mem_treeSlots, Option.not_isSome_iff_eq_none]

theorem ascending_treeSlots (t : Tree) : t.treeSlots.Pairwise (· < ·) := by
  have hslots : (t.items.zipIdx.map (·.2)).Pairwise (· < ·) := by
    rw [List.zipIdx_map_snd]
    exact List.pairwise_lt_range' 1
  exact hslots.sublist (List.filter_sublist.map _)

structure FirstTrees (t : Tree) (x y : Nat) : Prop where
  lt : x < y
  left : (t.treeAt? x).isSome
  right : (t.treeAt? y).isSome
  first : ∀ j < y, j ≠ x → t.treeAt? j = none

theorem FirstTrees.unique (h : t.FirstTrees x y) (h' : t.FirstTrees x' y') : x = x' ∧ y = y' := by
  have hle : ∀ {x y x' y' : Nat}, t.FirstTrees x y → t.FirstTrees x' y' → y ≤ y' := by
    intro x y x' y' h h'
    refine Nat.le_of_not_lt fun hlt => ?_
    -- both slots of the second pair would be the first one of the other
    have hright := mt (h.first y' hlt) (Option.isSome_iff_ne_none.1 h'.right)
    have hleft := mt (h.first x' (Nat.lt_trans h'.lt hlt)) (Option.isSome_iff_ne_none.1 h'.left)
    have hlt' := h'.lt
    omega
  obtain rfl := Nat.le_antisymm (hle h h') (hle h' h)
  refine ⟨?_, rfl⟩
  by_contra hne
  exact Option.isSome_iff_ne_none.1 h.left (h'.first x h.lt hne)

theorem firstAt_of_treeSlots {slots : List Nat} (h : t.treeSlots = x :: slots) :
    ∃ u, FirstAt t.treeAt? x u := by
  have hmem : x ∈ t.treeSlots := h ▸ List.mem_cons_self ..
  obtain ⟨u, hu⟩ := Option.isSome_iff_exists.1 (mem_treeSlots.1 hmem)
  refine ⟨u, hu, fun j hj => ?_⟩
  have hascending := t.ascending_treeSlots
  rw [h, List.pairwise_cons] at hascending
  rw [treeAt?_eq_none_iff, h, List.mem_cons, not_or]
  exact ⟨Nat.ne_of_lt hj, fun hmem => Nat.lt_asymm hj (hascending.1 j hmem)⟩

theorem head?_treeSlots_eq_some_iff :
    t.treeSlots.head? = some x ↔ ∃ u, FirstAt t.treeAt? x u := by
  constructor
  · intro h
    obtain ⟨slots, hslots⟩ := List.head?_eq_some_iff.1 h
    exact firstAt_of_treeSlots hslots
  · rintro ⟨u, hu⟩
    have hmem : x ∈ t.treeSlots := mem_treeSlots.2 (Option.isSome_iff_exists.2 ⟨u, hu.here⟩)
    obtain ⟨z, slots, hslots⟩ := List.exists_cons_of_ne_nil (List.ne_nil_of_mem hmem)
    obtain ⟨v, hv⟩ := firstAt_of_treeSlots hslots
    rw [hslots, (hv.unique hu).1, List.head?_cons]

theorem firstTrees_of_treeSlots {slots : List Nat} (h : t.treeSlots = x :: y :: slots) :
    t.FirstTrees x y := by
  have hascending := t.ascending_treeSlots
  simp only [h, List.pairwise_cons, List.forall_mem_cons] at hascending
  obtain ⟨⟨hlt, hleft⟩, hright, -⟩ := hascending
  refine ⟨hlt, mem_treeSlots.1 (by simp [h]), mem_treeSlots.1 (by simp [h]), fun j hj hne => ?_⟩
  rw [treeAt?_eq_none_iff, h, List.mem_cons, List.mem_cons, not_or, not_or]
  exact ⟨hne, Nat.ne_of_lt hj, fun hmem => Nat.lt_asymm hj (hright j hmem)⟩

theorem exists_treeSlots_eq_cons_cons (hx : (t.treeAt? x).isSome) (hy : (t.treeAt? y).isSome)
    (hne : x ≠ y) : ∃ x' y' slots, t.treeSlots = x' :: y' :: slots := by
  rw [← mem_treeSlots] at hx hy
  match hslots : t.treeSlots with
  | [] => simp [hslots] at hx
  | [z] =>
    simp only [hslots, List.mem_singleton] at hx hy
    exact absurd (hx.trans hy.symm) hne
  | x' :: y' :: slots => exact ⟨x', y', slots, rfl⟩

theorem treeSlots_eq_cons_cons_iff :
    (∃ slots, t.treeSlots = x :: y :: slots) ↔ t.FirstTrees x y := by
  constructor
  · rintro ⟨slots, h⟩
    exact firstTrees_of_treeSlots h
  · intro h
    obtain ⟨x', y', slots, hslots⟩ :=
      exists_treeSlots_eq_cons_cons h.left h.right (Nat.ne_of_lt h.lt)
    obtain ⟨rfl, rfl⟩ := (firstTrees_of_treeSlots hslots).unique h
    exact ⟨slots, hslots⟩

end Tree

end SyntaxCoverage
