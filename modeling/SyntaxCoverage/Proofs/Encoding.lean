import Mathlib.Data.List.Flatten
import SyntaxCoverage.Proofs.Occurrences

/-!
Occurrences in encoded text. In UTF-8 the first byte of a character differs from all others, so
encoded characters occur in an encoded text just where a character begins, and a scan of the bytes
finds what a scan of the characters finds. Main statement: `Text.scan_bytes`.
-/

namespace SyntaxCoverage.Text

def bytes (cs : List Char) : List UInt8 := cs.flatMap String.utf8EncodeChar

def countCharacters (bs : List UInt8) : Nat := bs.countP fun b => decide b.IsUTF8FirstByte

def byteOffset (cs : List Char) (o : Nat) : Nat := (bytes (cs.take o)).length

section Bytes

variable {xs cs : List Char} {o o' b : Nat}

theorem bytes_cons (c : Char) (cs : List Char) :
    bytes (c :: cs) = String.utf8EncodeChar c ++ bytes cs := List.flatMap_cons

theorem bytes_append (cs ds : List Char) : bytes (cs ++ ds) = bytes cs ++ bytes ds :=
  List.flatMap_append

theorem exists_encode_eq_cons (c : Char) : ∃ b bs, String.utf8EncodeChar c = b :: bs ∧
    b.IsUTF8FirstByte ∧ ∀ b' ∈ bs, ¬b'.IsUTF8FirstByte := by
  have hfirst : ∀ {i : Nat} (hi : i < (String.utf8EncodeChar c).length),
      (String.utf8EncodeChar c)[i].IsUTF8FirstByte ↔ i = 0 :=
    fun _ => UInt8.isUTF8FirstByte_getElem_utf8EncodeChar
  obtain ⟨b, bs, hencode⟩ := List.exists_cons_of_ne_nil (String.utf8EncodeChar_ne_nil (c := c))
  simp only [hencode] at hfirst
  refine ⟨b, bs, hencode, (hfirst (Nat.succ_pos _)).2 rfl, fun b' hb' hb'first => ?_⟩
  obtain ⟨i, hi, rfl⟩ := List.getElem_of_mem hb'
  exact absurd ((hfirst (Nat.succ_lt_succ hi)).1 hb'first) (Nat.succ_ne_zero i)

theorem countCharacters_bytes (cs : List Char) : countCharacters (bytes cs) = cs.length := by
  induction cs with
  | nil => rfl
  | cons c cs ih =>
    obtain ⟨b, bs, hencode, hb, hbs⟩ := exists_encode_eq_cons c
    have hrest : bs.countP (fun b => decide b.IsUTF8FirstByte) = 0 :=
      List.countP_eq_zero.2 fun b' hb' => by simpa using hbs b' hb'
    rw [countCharacters] at ih ⊢
    rw [bytes_cons, List.countP_append, ih, hencode, List.countP_cons_of_pos (by simpa using hb),
      hrest, List.length_cons]
    omega

theorem bytes_prefix_iff : bytes xs <+: bytes cs ↔ xs <+: cs := by
  constructor
  · rintro ⟨bs, hbs⟩
    refine List.isPrefix_of_utf8Encode_append_eq_utf8Encode bs.toByteArray ?_
    rw [List.utf8Encode, List.utf8Encode, ← List.toByteArray_append]
    exact congrArg List.toByteArray hbs
  · rintro ⟨ds, rfl⟩
    exact ⟨bytes ds, (bytes_append xs ds).symm⟩

theorem bytes_take_append_drop (cs : List Char) (o : Nat) :
    bytes (cs.take o) ++ bytes (cs.drop o) = bytes cs := by
  rw [← bytes_append, List.take_append_drop]

theorem take_byteOffset (cs : List Char) (o : Nat) :
    (bytes cs).take (byteOffset cs o) = bytes (cs.take o) := by
  rw [← bytes_take_append_drop cs o, byteOffset, List.take_left]

theorem countCharacters_take_byteOffset (ho : o ≤ cs.length) :
    countCharacters ((bytes cs).take (byteOffset cs o)) = o := by
  rw [take_byteOffset, countCharacters_bytes, List.length_take_of_le ho]

theorem drop_byteOffset (cs : List Char) (o : Nat) :
    (bytes cs).drop (byteOffset cs o) = bytes (cs.drop o) := by
  rw [← bytes_take_append_drop cs o, byteOffset, List.drop_left]

theorem byteOffset_le_length (cs : List Char) (o : Nat) : byteOffset cs o ≤ (bytes cs).length := by
  rw [← bytes_take_append_drop cs o, List.length_append]
  exact Nat.le_add_right ..

theorem length_le_length_bytes (cs : List Char) : cs.length ≤ (bytes cs).length :=
  (countCharacters_bytes cs).symm.trans_le List.countP_le_length

theorem byteOffset_add (cs : List Char) (o k : Nat) :
    byteOffset cs (o + k) = byteOffset cs o + (bytes ((cs.drop o).take k)).length := by
  rw [byteOffset, List.take_add, bytes_append, List.length_append, byteOffset]

theorem byteOffset_mono (hle : o ≤ o') : byteOffset cs o ≤ byteOffset cs o' := by
  obtain ⟨k, rfl⟩ := Nat.exists_eq_add_of_le hle
  rw [byteOffset_add]
  exact Nat.le_add_right ..

theorem byteOffset_lt (hlt : o < o') (ho' : o' ≤ cs.length) :
    byteOffset cs o < byteOffset cs o' := by
  obtain ⟨k, rfl⟩ := Nat.exists_eq_add_of_lt hlt
  have hlength := length_le_length_bytes ((cs.drop o).take (k + 1))
  rw [List.length_take, List.length_drop] at hlength
  rw [Nat.add_assoc, byteOffset_add]
  omega

theorem le_of_byteOffset_le (ho : o ≤ cs.length) (h : byteOffset cs o ≤ byteOffset cs o') :
    o ≤ o' := by
  by_contra hlt
  exact absurd h (Nat.not_le.2 (byteOffset_lt (Nat.not_le.1 hlt) ho))

theorem exists_byteOffset_eq {f : UInt8} (hf : f.IsUTF8FirstByte) (hb : (bytes cs)[b]? = some f) :
    ∃ o, o ≤ cs.length ∧ byteOffset cs o = b := by
  induction cs generalizing b with
  | nil => simp [bytes] at hb
  | cons c cs ih =>
    obtain ⟨first, rest, hencode, -, hrest⟩ := exists_encode_eq_cons c
    rw [bytes_cons] at hb
    rcases Nat.lt_or_ge b (String.utf8EncodeChar c).length with hlt | hge
    · rw [List.getElem?_append_left hlt, hencode] at hb
      cases b with
      | zero => exact ⟨0, Nat.zero_le _, rfl⟩
      | succ b => exact absurd hf (hrest f (List.mem_of_getElem? hb))
    · rw [List.getElem?_append_right hge] at hb
      obtain ⟨o, hlength, ho⟩ := ih hb
      refine ⟨o + 1, Nat.succ_le_succ hlength, ?_⟩
      rw [byteOffset, List.take_succ_cons, bytes_cons, List.length_append, ← byteOffset, ho]
      omega

theorem occursAt_bytes_iff (hxs : xs ≠ []) :
    OccursAt (bytes xs) (bytes cs) b ↔ ∃ o, OccursAt xs cs o ∧ byteOffset cs o = b := by
  constructor
  · rintro ⟨-, hprefix⟩
    have hfirst : ∃ f, (bytes cs)[b]? = some f ∧ f.IsUTF8FirstByte := by
      obtain ⟨x, xs, rfl⟩ := List.exists_cons_of_ne_nil hxs
      obtain ⟨f, rest, hencode, hf, -⟩ := exists_encode_eq_cons x
      obtain ⟨behind, hbehind⟩ := hprefix
      refine ⟨f, ?_, hf⟩
      rw [← Nat.add_zero b, ← List.getElem?_drop, ← hbehind, bytes_cons, hencode]
      rfl
    obtain ⟨f, hb, hf⟩ := hfirst
    obtain ⟨o, ho, rfl⟩ := exists_byteOffset_eq hf hb
    rw [drop_byteOffset, bytes_prefix_iff] at hprefix
    exact ⟨o, ⟨ho, hprefix⟩, rfl⟩
  · rintro ⟨o, ⟨ho, hprefix⟩, rfl⟩
    exact ⟨byteOffset_le_length cs o, drop_byteOffset cs o ▸ bytes_prefix_iff.2 hprefix⟩

theorem byteOffset_add_length {i : Nat} (h : OccursAt xs cs i) :
    byteOffset cs (i + xs.length) = byteOffset cs i + (bytes xs).length := by
  rw [byteOffset_add, ← List.prefix_iff_eq_take.1 h.2]

theorem firstFrom_bytes (hxs : xs ≠ []) {i j : Nat} (h : FirstFrom xs cs i j) :
    FirstFrom (bytes xs) (bytes cs) (byteOffset cs i) (byteOffset cs j) := by
  refine ⟨byteOffset_mono h.le, (occursAt_bytes_iff hxs).2 ⟨j, h.occurs, rfl⟩, ?_⟩
  intro b hb hlt hoccurs
  obtain ⟨o, ho, rfl⟩ := (occursAt_bytes_iff hxs).1 hoccurs
  have hio : i ≤ o := le_of_byteOffset_le (h.le.trans h.occurs.1) hb
  have hoj : o < j := by
    by_contra hge
    exact absurd (byteOffset_mono (Nat.not_lt.1 hge)) (Nat.not_le.2 hlt)
  exact h.first o hio hoj ho

/-- A scan of the bytes finds the occurrences that a scan of the characters finds. -/
theorem scan_bytes (hxs : xs ≠ []) {i : Nat} {js : List Nat} (hi : i ≤ cs.length)
    (h : Scan xs cs i js) :
    Scan (bytes xs) (bytes cs) (byteOffset cs i) (js.map (byteOffset cs)) := by
  induction h with
  | last hnone =>
    refine .last fun b hb hoccurs => ?_
    obtain ⟨o, ho, rfl⟩ := (occursAt_bytes_iff hxs).1 hoccurs
    exact hnone o (le_of_byteOffset_le hi hb) ho
  | next hfirst _ ih =>
    rw [List.map_cons]
    refine .next (firstFrom_bytes hxs hfirst) ?_
    rw [← byteOffset_add_length hfirst.occurs]
    exact ih hfirst.occurs.add_length_le

end Bytes

end SyntaxCoverage.Text
