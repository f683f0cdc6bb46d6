import Mathlib.Data.List.Forall2
import SyntaxCoverage.Json.Record
import SyntaxCoverage.Proofs.Scalars

/-!
Records in JSON values. A record that is written with some of its fields missing is read back field
by field, and a field that stands in an object or in an array, wherever that is, is the one that is
read.
-/

namespace SyntaxCoverage

theorem forall₂_of_mapM {α β : Type} {read : α → Option β} {xs : List α} {ys : List β}
    (h : xs.mapM read = some ys) : List.Forall₂ (fun x y => read x = some y) xs ys := by
  induction xs generalizing ys with
  | nil =>
    obtain rfl := Option.some.inj h
    exact .nil
  | cons x xs ih =>
    rw [List.mapM_cons] at h
    obtain ⟨y, hy, h⟩ := Option.bind_eq_some_iff.1 h
    obtain ⟨ys', hys, h⟩ := Option.bind_eq_some_iff.1 h
    obtain rfl := Option.some.inj h
    exact .cons hy (ih hys)

theorem exists_of_forall₂ {α β : Type} {R : α → β → Prop} {xs : List α} {ys : List β}
    (h : List.Forall₂ R xs ys) {x : α} (hx : x ∈ xs) : ∃ y ∈ ys, R x y := by
  induction h with
  | nil => exact absurd hx List.not_mem_nil
  | @cons x' y xs ys hxy _ ih =>
    rcases List.mem_cons.1 hx with rfl | hx
    · exact ⟨y, List.mem_cons_self .., hxy⟩
    · obtain ⟨y', hy', hR⟩ := ih hx
      exact ⟨y', List.mem_cons_of_mem _ hy', hR⟩

theorem find?_of_length_filter {α : Type} {p : α → Bool} {xs : List α}
    (h : (xs.filter p).length ≤ 1) {x : α} (hx : x ∈ xs) (hp : p x = true) :
    xs.find? p = some x := by
  have hmem : x ∈ xs.filter p := List.mem_filter.2 ⟨hx, hp⟩
  obtain ⟨y, hy⟩ := List.length_eq_one_iff.1 (Nat.le_antisymm h (List.length_pos_of_mem hmem))
  rw [← List.head?_filter, hy]
  rw [hy, List.mem_singleton] at hmem
  rw [hmem]
  rfl

theorem mapM_map_eq_some {α β : Type} {read : β → Option α} {write : α → β} {xs : List α}
    (h : ∀ x ∈ xs, read (write x) = some x) : (xs.map write).mapM read = some xs := by
  induction xs with
  | nil => rfl
  | cons x xs ih =>
    have hx := h x (List.mem_cons_self ..)
    have hxs := ih fun y hy => h y (List.mem_cons_of_mem _ hy)
    rw [List.map_cons, List.mapM_cons, hx, hxs]
    rfl

namespace Json

variable {α : Type}

section Scalars

@[simp]
theorem toString?_ofString (text : String) : (ofString text).toString? = some text :=
  Spelling.decode?_encode text

theorem toNat?_eq_some_iff {limit n : Nat} {value : Json} :
    value.toNat? limit = some n ↔ value = .ofNat n ∧ n ≤ limit := by
  cases value with
  | num m =>
    obtain ⟨negative, whole, fraction, exponent⟩ := m
    simp only [toNat?, Numeral.toNat?, Numeral.isWhole, Option.ite_none_right_eq_some,
      Bool.and_eq_true, List.isEmpty_iff, Option.isNone_iff_eq_none, Option.some.injEq, ofNat,
      Numeral.ofNat, Json.num.injEq, Numeral.mk.injEq]
    constructor
    · rintro ⟨⟨⟨hfraction, hexponent⟩, hnegative, hle⟩, rfl⟩
      exact ⟨⟨hnegative, rfl, hfraction, hexponent⟩, hle⟩
    · rintro ⟨⟨hnegative, rfl, hfraction, hexponent⟩, hle⟩
      exact ⟨⟨⟨hfraction, hexponent⟩, hnegative, hle⟩, rfl⟩
  | _ => simp [toNat?, ofNat]

theorem toNat?_ofNat {limit n : Nat} (h : n ≤ limit) : (ofNat n).toNat? limit = some n :=
  toNat?_eq_some_iff.2 ⟨rfl, h⟩

theorem toList?_eq_some_iff {read : Json → Option α} {value : Json} {xs : List α} :
    value.toList? read = some xs ↔ ∃ items, value = .arr items ∧ items.mapM read = some xs := by
  cases value <;> simp [toList?]

theorem optional_eq_some_iff {read : Json → Option α} {value : Option Json} {x : α} :
    optional read value = some (some x) ↔
      ∃ part, value = some part ∧ part ≠ .null ∧ read part = some x := by
  cases value with
  | none => simp [optional]
  | some part => cases part <;> simp [optional]

theorem optional_of_none {read : Json → Option α} {part : Json} (hnull : part ≠ .null)
    (h : read part = none) : optional read (some part) = none := by
  cases part with
  | null => exact absurd rfl hnull
  | _ => simp only [optional, h, Option.map_none]

theorem optional_map_some {read : Json → Option α} {write : α → Json} {x : Option α}
    (hnull : ∀ x, write x ≠ .null) (h : ∀ y ∈ x, read (write y) = some y) :
    optional read (x.map write) = some x := by
  cases x with
  | none => rfl
  | some x => exact optional_eq_some_iff.2 ⟨_, rfl, hnull x, h x rfl⟩

end Scalars

section Fields

def members (names : List String) (values : List (Option Json)) : List (String × Json) :=
  (names.zip values).filterMap fun e => e.2.map (field e.1)

theorem readKeys_eq_some_iff {ms ks : List (String × Json)} :
    readKeys ms = some ks ↔
      List.Forall₂ (fun m k => Spelling.decode? m.1 = some k.1 ∧ m.2 = k.2) ms ks := by
  induction ms generalizing ks with
  | nil => cases ks <;> simp [readKeys]
  | cons m ms ih =>
    obtain ⟨spelling, value⟩ := m
    rw [readKeys, List.forall₂_cons_left_iff]
    constructor
    · intro h
      split at h
      · next key rest hkey hrest =>
        obtain rfl := Option.some.inj h
        exact ⟨(key, value), rest, ⟨hkey, rfl⟩, ih.1 hrest, rfl⟩
      · exact nomatch h
    · rintro ⟨⟨key, value'⟩, ks', ⟨hkey, rfl⟩, hrest, rfl⟩
      simp only [hkey, ih.2 hrest]

def present (names : List String) (values : List (Option Json)) : List (String × Json) :=
  (names.zip values).filterMap fun e => e.2.map fun value => (e.1, value)

theorem readKeys_members (names : List String) (values : List (Option Json)) :
    readKeys (members names values) = some (present names values) := by
  rw [readKeys_eq_some_iff, members, present]
  induction names.zip values with
  | nil => exact .nil
  | cons e es ih =>
    obtain ⟨name, value⟩ := e
    cases value with
    | none => exact ih
    | some value => exact .cons ⟨Spelling.decode?_encode name, rfl⟩ ih

theorem names_present_sublist (names : List String) (values : List (Option Json)) :
    ((present names values).map (·.1)).Sublist names := by
  induction names generalizing values with
  | nil => exact .slnil
  | cons name names ih =>
    cases values with
    | nil => exact List.nil_sublist _
    | cons value values =>
      cases value with
      | none => exact (ih values).cons name
      | some value => exact (ih values).cons_cons name

theorem find?_present {names : List String} (hnames : names.Nodup) {values : List (Option Json)}
    (hlength : names.length = values.length) :
    (names.map fun name => ((present names values).find? (·.1 == name)).map (·.2)) = values := by
  induction names generalizing values with
  | nil => exact (List.length_eq_zero_iff.1 hlength.symm).symm
  | cons name names ih =>
    obtain ⟨hname, hnames⟩ := List.nodup_cons.1 hnames
    cases values with
    | nil => exact nomatch hlength
    | cons value values =>
      have hrest := ih hnames (Nat.succ.inj hlength)
      have hkeys := names_present_sublist names values
      -- the name does not come again, and no later name is it
      have hlater : (present names values).find? (·.1 == name) = none := by
        refine List.find?_eq_none.2 fun m hm heq => hname ?_
        rw [beq_iff_eq] at heq
        exact heq ▸ hkeys.subset (List.mem_map_of_mem hm)
      have hother : ∀ other ∈ names, (name == other) = false := fun other hmem =>
        beq_false_of_ne fun heq => hname (heq ▸ hmem)
      cases value with
      | none =>
        show ((present names values).find? _).map _ :: _ = _
        rw [hlater]
        exact congrArg _ hrest
      | some value =>
        have hcons : present (name :: names) (some value :: values) =
          (name, value) :: present names values := rfl
        rw [hcons, List.map_cons, List.find?_cons_of_pos (by simp)]
        refine congrArg _ (Eq.trans (List.map_congr_left fun other hmem => ?_) hrest)
        rw [List.find?_cons_of_neg (by simp [hother other hmem])]

theorem fields?_members (names : List String) (values : List (Option Json)) (hnames : names.Nodup)
    (hlength : names.length = values.length) (closed : Bool) :
    (obj (members names values)).fields? names closed = some values := by
  have hkeys := names_present_sublist names values
  have hknown : (present names values).any (fun m => !names.contains m.1) = false := by
    rw [List.any_eq_false]
    intro m hm
    simp [hkeys.subset (List.mem_map_of_mem hm)]
  have honce : names.any (fun name =>
      decide (1 < ((present names values).filter (·.1 == name)).length)) = false := by
    rw [List.any_eq_false]
    intro name _
    have hcount := List.nodup_iff_count.1 (hkeys.nodup hnames) name
    rw [List.count_eq_countP, List.countP_map, List.countP_eq_length_filter] at hcount
    simpa [Function.comp_def] using hcount
  rw [fields?, readKeys_members]
  simp only [hknown, honce, Bool.false_eq_true, and_false, if_false, find?_present hnames hlength]

/-- The part stands in the value as its `i`th field, in an object under the name of the field and in
an array at its place. -/
inductive HasField (names : List String) (i : Nat) (part : Json) : Json → Prop
  | item {items : List Json} (h : items[i]? = some part) : HasField names i part (.arr items)
  | member {ms : List (String × Json)} {spelling name : String} (hname : names[i]? = some name)
    (hkey : Spelling.decode? spelling = some name) (h : (spelling, part) ∈ ms) :
    HasField names i part (.obj ms)

theorem HasField.eq {names : List String} {i : Nat} {part value : Json}
    {values : List (Option Json)} {closed : Bool} (h : HasField names i part value)
    (hvalues : value.fields? names closed = some values) : values[i]? = some (some part) := by
  cases h with
  | @item items h =>
    rw [fields?] at hvalues
    split at hvalues
    · exact nomatch hvalues
    · obtain rfl := Option.some.inj hvalues
      have hi : i < (items.map some).length := by
        simpa using (List.getElem?_eq_some_iff.1 h).1
      rw [List.getElem?_append_left hi, List.getElem?_map, h]
      rfl
  | @member ms spelling name hname hkey h =>
    rw [fields?] at hvalues
    cases hkeys : readKeys ms with
    | none => simp [hkeys] at hvalues
    | some ks =>
      simp only [hkeys] at hvalues
      split at hvalues
      · exact nomatch hvalues
      split at hvalues
      · exact nomatch hvalues
      next honce =>
      obtain rfl := Option.some.inj hvalues
      obtain ⟨k, hk, hkey', hpart⟩ := exists_of_forall₂ (readKeys_eq_some_iff.1 hkeys) h
      obtain rfl : k = (name, part) := Prod.ext (Option.some.inj (hkey'.symm.trans hkey)) hpart.symm
      have hmem : name ∈ names := List.mem_of_getElem? hname
      have hlength : (ks.filter (·.1 == name)).length ≤ 1 := by
        have hnot := List.any_eq_false.1 (Bool.not_eq_true _ ▸ honce) name hmem
        simpa using hnot
      rw [List.getElem?_map, hname, Option.map_some,
        find?_of_length_filter hlength hk (beq_self_eq_true name)]
      rfl

theorem HasField.ne_null {names : List String} {i : Nat} {part value : Json}
    (h : HasField names i part value) : value ≠ .null := by
  cases h <;> exact Json.noConfusion

theorem HasField.none_of_none {β : Type} {names : List String} {i : Nat} {part value : Json}
    {read : Json → Option α} (h : HasField names i part value) (closed : Bool)
    (readField : Option Json → Option β)
    (hread : ∀ x, read value = some x → ∃ values field y,
      value.fields? names closed = some values ∧ values[i]? = some field ∧ readField field = some y)
    (hnone : readField (some part) = none) : read value = none := by
  refine Option.eq_none_iff_forall_ne_some.2 fun x hx => ?_
  obtain ⟨values, field, y, hvalues, hfield, hy⟩ := hread x hx
  have hpart : field = some part := Option.some.inj (hfield.symm.trans (h.eq hvalues))
  rw [hpart, hnone] at hy
  cases hy

end Fields

end Json

end SyntaxCoverage
