import Mathlib.Data.List.Infix
import SyntaxCoverage.Source.Snippet

/-!
Occurrences of one list in another. A scan takes the first occurrence from where it stands, goes on
behind it, and ends when there is none; the occurrences of a snippet in a text are those of a scan
of its characters. Main statement: `SourceText.scan_occurrences`.
-/

namespace SyntaxCoverage

section Occurrences

variable {α : Type} {xs ys : List α} {i j k : Nat} {js ks : List Nat}

def OccursAt (xs ys : List α) (i : Nat) : Prop := i ≤ ys.length ∧ xs <+: ys.drop i

instance [DecidableEq α] : Decidable (OccursAt xs ys i) := inferInstanceAs (Decidable (_ ∧ _))

/-- The first occurrence at `i` or behind is that at `j`. -/
structure FirstFrom (xs ys : List α) (i j : Nat) : Prop where
  le : i ≤ j
  occurs : OccursAt xs ys j
  first : ∀ k, i ≤ k → k < j → ¬OccursAt xs ys k

/-- The occurrences found from `i` on when the search goes on behind each of them. -/
inductive Scan (xs ys : List α) : Nat → List Nat → Prop
  | last {i : Nat} : (∀ j, i ≤ j → ¬OccursAt xs ys j) → Scan xs ys i []
  | next {i j : Nat} {js : List Nat} : FirstFrom xs ys i j → Scan xs ys (j + xs.length) js →
      Scan xs ys i (j :: js)

theorem OccursAt.add_length_le (h : OccursAt xs ys i) : i + xs.length ≤ ys.length := by
  have hle := h.2.length_le
  rw [List.length_drop] at hle
  have hi := h.1
  omega

theorem OccursAt.extract_eq (h : OccursAt xs ys i) : ys.extract i (i + xs.length) = xs := by
  rw [List.extract_eq_take_drop, Nat.add_sub_cancel_left]
  exact (List.prefix_iff_eq_take.1 h.2).symm

theorem occursAt_drop_iff (hk : k ≤ ys.length) :
    OccursAt xs (ys.drop k) i ↔ OccursAt xs ys (k + i) := by
  rw [OccursAt, OccursAt, List.length_drop, List.drop_drop]
  refine and_congr_left fun _ => ?_
  omega

theorem firstFrom_drop_iff (hk : k ≤ ys.length) :
    FirstFrom xs (ys.drop k) 0 j ↔ FirstFrom xs ys k (k + j) := by
  constructor
  · intro h
    refine ⟨Nat.le_add_right .., (occursAt_drop_iff hk).1 h.occurs, fun i hi hij hoccurs => ?_⟩
    obtain ⟨d, rfl⟩ := Nat.exists_eq_add_of_le hi
    exact h.first d (Nat.zero_le _) (Nat.lt_of_add_lt_add_left hij)
      ((occursAt_drop_iff hk).2 hoccurs)
  · intro h
    refine ⟨Nat.zero_le _, (occursAt_drop_iff hk).2 h.occurs, fun i _ hij hoccurs => ?_⟩
    exact h.first (k + i) (Nat.le_add_right ..) (Nat.add_lt_add_left hij k)
      ((occursAt_drop_iff hk).1 hoccurs)

theorem FirstFrom.unique (hj : FirstFrom xs ys i j) (hk : FirstFrom xs ys i k) : j = k := by
  rcases Nat.lt_trichotomy j k with hlt | rfl | hgt
  · exact absurd hj.occurs (hk.first j hj.le hlt)
  · rfl
  · exact absurd hk.occurs (hj.first k hk.le hgt)

theorem Scan.unique (hjs : Scan xs ys i js) (hks : Scan xs ys i ks) : js = ks := by
  induction hjs generalizing ks with
  | last hnone =>
    cases hks with
    | last => rfl
    | next hfirst => exact absurd hfirst.occurs (hnone _ hfirst.le)
  | next hfirst _ ih =>
    cases hks with
    | last hnone => exact absurd hfirst.occurs (hnone _ hfirst.le)
    | next hfirst' hrest =>
      obtain rfl := hfirst.unique hfirst'
      rw [ih hrest]

theorem Scan.of_succ (hi : ¬OccursAt xs ys i) (h : Scan xs ys (i + 1) js) : Scan xs ys i js := by
  have hpast : ∀ {k}, i ≤ k → OccursAt xs ys k → i + 1 ≤ k := by
    intro k hk hoccurs
    exact Nat.lt_of_le_of_ne hk fun heq => hi (heq ▸ hoccurs)
  cases h with
  | last hnone => exact .last fun k hk hoccurs => hnone k (hpast hk hoccurs) hoccurs
  | next hfirst hrest =>
    refine .next ⟨(Nat.lt_of_succ_le hfirst.le).le, hfirst.occurs, fun k hk hlt hoccurs => ?_⟩ hrest
    exact hfirst.first k (hpast hk hoccurs) hlt hoccurs

theorem Scan.occursAt_of_mem (h : Scan xs ys i js) (hj : j ∈ js) : OccursAt xs ys j := by
  induction h with
  | last => exact absurd hj List.not_mem_nil
  | next hfirst _ ih =>
    rcases List.mem_cons.1 hj with rfl | hj
    · exact hfirst.occurs
    · exact ih hj

theorem Scan.head?_eq_some_iff (h : Scan xs ys i js) : js.head? = some j ↔ FirstFrom xs ys i j := by
  cases h with
  | last hnone =>
    constructor
    · intro hhead
      cases hhead
    · exact fun hfirst => absurd hfirst.occurs (hnone _ hfirst.le)
  | next hfirst =>
    rw [List.head?_cons, Option.some.injEq]
    exact ⟨fun heq => heq ▸ hfirst, hfirst.unique⟩

theorem Scan.eq_nil_iff (h : Scan xs ys i js) : js = [] ↔ ∀ j, i ≤ j → ¬OccursAt xs ys j := by
  cases h with
  | last hnone => exact ⟨fun _ => hnone, fun _ => rfl⟩
  | next hfirst =>
    constructor
    · intro hnil
      cases hnil
    · exact fun hnone => absurd hfirst.occurs (hnone _ hfirst.le)

theorem Scan.firstFrom_succ (h : Scan xs ys i js) {n : Nat} (hj : js[n]? = some j)
    (hk : js[n + 1]? = some k) : FirstFrom xs ys (j + xs.length) k := by
  induction h generalizing n with
  | last => simp at hj
  | next _ hrest ih =>
    cases n with
    | zero =>
      obtain rfl := Option.some.inj hj
      refine hrest.head?_eq_some_iff.1 ?_
      rwa [List.head?_eq_getElem?]
    | succ n => exact ih hj hk

end Occurrences

namespace SourceText

theorem scan_occurrencesFrom {xs text : List Char} (hxs : xs ≠ []) {cs : List Char}
    {offset taken : Nat} (hcs : text.drop offset = cs) :
    Scan xs text (offset + taken) (occurrencesFrom xs offset taken cs) := by
  induction cs generalizing offset taken with
  | nil =>
    have hempty : xs.isEmpty = false := List.isEmpty_eq_false_iff.2 hxs
    rw [occurrencesFrom, hempty]
    refine .last fun j hj hoccurs => hxs ?_
    have hend : text.drop j = [] := by
      rw [List.drop_eq_nil_iff] at hcs ⊢
      omega
    exact List.prefix_nil.1 (hend ▸ hoccurs.2)
  | cons c cs ih =>
    have hlt : offset < text.length := by
      by_contra hge
      rw [List.drop_eq_nil_of_le (Nat.not_lt.1 hge)] at hcs
      cases hcs
    have hrest : text.drop (offset + 1) = cs := by
      rw [← List.drop_drop, hcs]
      rfl
    cases taken with
    | succ taken =>
      rw [occurrencesFrom, show offset + (taken + 1) = offset + 1 + taken by omega]
      exact ih hrest
    | zero =>
      rw [occurrencesFrom]
      split
      · next hprefix =>
        have hoccurs : OccursAt xs text offset :=
          ⟨hlt.le, hcs ▸ List.isPrefixOf_iff_prefix.1 hprefix⟩
        refine .next ⟨Nat.le_refl _, hoccurs, fun k hk hlt => absurd hlt (Nat.not_lt.2 hk)⟩ ?_
        have hpos : 0 < xs.length := List.length_pos_of_ne_nil hxs
        rw [show offset + xs.length = offset + 1 + (xs.length - 1) by omega]
        exact ih hrest
      · next hprefix =>
        have hnext : Scan xs text (offset + 1 + 0) (occurrencesFrom xs (offset + 1) 0 cs) :=
          ih hrest
        refine hnext.of_succ fun hoccurs => hprefix ?_
        exact List.isPrefixOf_iff_prefix.2 (hcs ▸ hoccurs.2)

theorem scan_occurrences {snippet : String} (h : snippet ≠ "") (cs : List Char) :
    Scan snippet.toList cs 0 (occurrences snippet cs) := by
  have hxs : snippet.toList ≠ [] := mt String.toList_eq_nil_iff.1 h
  show Scan snippet.toList cs (0 + 0) (occurrencesFrom snippet.toList 0 0 cs)
  exact scan_occurrencesFrom hxs List.drop_zero

theorem occurrences_empty (cs : List Char) : occurrences "" cs = List.range (cs.length + 1) := by
  have hfrom : ∀ (offset : Nat) (cs : List Char),
      occurrencesFrom [] offset 0 cs = List.range' offset (cs.length + 1) := by
    intro offset cs
    induction cs generalizing offset with
    | nil => rfl
    | cons c cs ih =>
      rw [occurrencesFrom, List.length_cons, List.range'_succ, ← ih (offset + 1)]
      rfl
  rw [List.range_eq_range', ← hfrom]
  rfl

end SourceText

end SyntaxCoverage
