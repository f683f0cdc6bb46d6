import Mathlib.Data.List.Basic
import SyntaxCoverage.Json.Reader
import SyntaxCoverage.Json.Writer

/-!
Numbers and strings between JSON texts and what they mean. A number that has been written is read
back digit by digit, up to where it ends, and a text that has been escaped is found between its
quotes and comes back as it was.
-/

namespace SyntaxCoverage

namespace Text

theorem ofDigits_append_singleton (base : Nat) (ds : List Nat) (d : Nat) :
    ofDigits base (ds ++ [d]) = ofDigits base ds * base + d := by
  simp [ofDigits]

theorem digitValue?_digitChar {d : Nat} (hd : d < 10) : digitValue? (Nat.digitChar d) = some d := by
  revert d
  decide

structure Decimal (n : Nat) (ds : List Nat) : Prop where
  chars : Nat.toDigits 10 n = ds.map Nat.digitChar
  small : ∀ d ∈ ds, d < 10
  value : ofDigits 10 ds = n
  head : ds.head? = some 0 → ds = [0]

theorem Decimal.ne_nil {n : Nat} {ds : List Nat} (h : Decimal n ds) : ds ≠ [] := by
  rintro rfl
  exact Nat.toDigits_ne_nil h.chars

theorem exists_decimal (n : Nat) : ∃ ds, Decimal n ds := by
  induction n using Nat.base_induction 10 (by decide) with
  | single m hm =>
    refine ⟨[m], ?_, by simpa using hm, by simp [ofDigits], ?_⟩
    · rw [Nat.toDigits_of_lt_base hm]
      rfl
    · intro h
      rw [Option.some.inj h]
  | digit m k hk hm ih =>
    obtain ⟨ds, h⟩ := ih
    refine ⟨ds ++ [k], ?_, ?_, ?_, ?_⟩
    · rw [← Nat.toDigits_append_toDigits (by decide) hm hk, h.chars, Nat.toDigits_of_lt_base hk]
      simp
    · intro d hd
      rcases List.mem_append.1 hd with hd | hd
      · exact h.small d hd
      · exact List.mem_singleton.1 hd ▸ hk
    · rw [ofDigits_append_singleton, h.value, Nat.mul_comm]
    · intro hzero
      rw [List.head?_append, Option.or_of_isSome (by simpa using h.ne_nil)] at hzero
      have hvalue := h.value
      rw [h.head hzero] at hvalue
      simp [ofDigits] at hvalue
      omega

end Text

namespace Json

def EndsNumeral (rest : List Char) : Prop :=
  ∀ c ∈ rest.head?, c.isDigit = false ∧ c ≠ '.' ∧ c ≠ 'e' ∧ c ≠ 'E'

def StartsNoDigit (rest : List Char) : Prop := ∀ c ∈ rest.head?, c.isDigit = false

theorem EndsNumeral.startsNoDigit {rest : List Char} (h : EndsNumeral rest) :
    StartsNoDigit rest :=
  fun c hc => (h c hc).1

theorem readDigits_map {ds : List Nat} (hds : ∀ d ∈ ds, d < 10) {rest : List Char}
    (hrest : StartsNoDigit rest) : readDigits (ds.map Nat.digitChar ++ rest) = (ds, rest) := by
  have hdigits : ∀ c ∈ ds.map Nat.digitChar, c.isDigit = true := by
    intro c hc
    obtain ⟨d, hd, rfl⟩ := List.mem_map.1 hc
    simpa using hds d hd
  have hstop : rest.takeWhile Char.isDigit = [] ∧ rest.dropWhile Char.isDigit = rest := by
    cases rest with
    | nil => exact ⟨rfl, rfl⟩
    | cons c rest => simp [hrest c rfl]
  have hvalues : (ds.map Nat.digitChar).filterMap Text.digitValue? = ds := by
    rw [List.filterMap_map]
    have hvalue : ∀ d ∈ ds, (Text.digitValue? ∘ Nat.digitChar) d = some d :=
      fun d hd => Text.digitValue?_digitChar (hds d hd)
    exact (List.filterMap_congr hvalue).trans List.filterMap_some
  rw [readDigits, List.takeWhile_append_of_pos hdigits, List.dropWhile_append_of_pos hdigits,
    hstop.1, hstop.2, List.append_nil, hvalues]

theorem readExponentDigits_toDigits (negative : Bool) (n : Nat) {rest : List Char}
    (hrest : StartsNoDigit rest) : readExponentDigits negative (Nat.toDigits 10 n ++ rest) =
      some (some (if negative then -(n : Int) else n), rest) := by
  obtain ⟨ds, hds⟩ := Text.exists_decimal n
  rw [readExponentDigits, hds.chars, readDigits_map hds.small hrest]
  cases ds with
  | nil => exact absurd rfl hds.ne_nil
  | cons d ds => simp only [hds.value]

theorem readExponent_write (e : Option Int) {rest : List Char} (hrest : EndsNumeral rest) :
    readExponent (Numeral.writeExponent e ++ rest) = some (e, rest) := by
  cases e with
  | none =>
    cases rest with
    | nil => rfl
    | cons c rest =>
      obtain ⟨-, -, hsmall, hlarge⟩ := hrest c rfl
      simp [Numeral.writeExponent, readExponent, hsmall, hlarge]
  | some e =>
    have hend := hrest.startsNoDigit
    by_cases he : e < 0
    · have hvalue : -(e.natAbs : Int) = e := by omega
      have hdigits := readExponentDigits_toDigits true e.natAbs hend
      rw [if_pos rfl, hvalue] at hdigits
      simp only [Numeral.writeExponent, if_pos he, List.cons_append, readExponent, true_or, if_true]
      exact hdigits
    · have hvalue : (e.natAbs : Int) = e := by omega
      have hdigits := readExponentDigits_toDigits false e.natAbs hend
      rw [if_neg Bool.false_ne_true, hvalue] at hdigits
      simp only [Numeral.writeExponent, if_neg he, List.cons_append, readExponent, true_or, if_true]
      -- the first digit is no sign
      obtain ⟨ds, hds⟩ := Text.exists_decimal e.natAbs
      rw [hds.chars] at hdigits ⊢
      cases ds with
      | nil => exact absurd rfl hds.ne_nil
      | cons d ds =>
        have hsign : Nat.digitChar d ≠ '+' ∧ Nat.digitChar d ≠ '-' :=
          ⟨Nat.digitChar_ne _ (by decide), Nat.digitChar_ne _ (by decide)⟩
        rw [List.map_cons, List.cons_append] at hdigits ⊢
        split
        · next heq => exact absurd (List.cons.inj heq).1 hsign.1
        · next heq => exact absurd (List.cons.inj heq).1 hsign.2
        · exact hdigits

theorem startsNoDigit_writeExponent (e : Option Int) {rest : List Char} (hrest : EndsNumeral rest) :
    StartsNoDigit (Numeral.writeExponent e ++ rest) := by
  cases e with
  | none => exact hrest.startsNoDigit
  | some e =>
    intro c hc
    obtain rfl := Option.some.inj hc
    rfl

theorem startsNoDigit_writeFraction (ds : List Nat) {rest : List Char}
    (hrest : StartsNoDigit rest) : StartsNoDigit (Numeral.writeFraction ds ++ rest) := by
  cases ds with
  | nil => exact hrest
  | cons d ds =>
    intro c hc
    obtain rfl := Option.some.inj hc
    rfl

theorem readFraction_write {ds : List Nat} (hds : ∀ d ∈ ds, d < 10) (e : Option Int)
    {rest : List Char} (hrest : EndsNumeral rest) :
    readFraction (Numeral.writeFraction ds ++ (Numeral.writeExponent e ++ rest)) =
      some (ds, Numeral.writeExponent e ++ rest) := by
  cases ds with
  | cons d ds =>
    have hdigits := readDigits_map hds (startsNoDigit_writeExponent e hrest)
    simp only [Numeral.writeFraction, List.cons_append, readFraction, hdigits]
  | nil =>
    -- what follows the whole part then is an exponent or the rest
    have hpoint : ∀ tail, Numeral.writeExponent e ++ rest ≠ '.' :: tail := by
      intro tail htail
      cases e with
      | none =>
        have hdot : rest = '.' :: tail := htail
        exact (hrest '.' (by rw [hdot]; rfl)).2.1 rfl
      | some e => simp [Numeral.writeExponent] at htail
    show readFraction (Numeral.writeExponent e ++ rest) = _
    unfold readFraction
    split
    · next heq => exact absurd heq (hpoint _)
    · rfl

theorem readUnsigned_write (n : Numeral) (hn : ∀ d ∈ n.fraction, d < 10) {rest : List Char}
    (hrest : EndsNumeral rest) :
    readUnsigned n.negative (Nat.toDigits 10 n.whole ++ (Numeral.writeFraction n.fraction ++
      (Numeral.writeExponent n.exponent ++ rest))) = some (n, rest) := by
  obtain ⟨ds, hds⟩ := Text.exists_decimal n.whole
  have htail := startsNoDigit_writeFraction n.fraction
    (startsNoDigit_writeExponent n.exponent hrest)
  have hzeros : ¬ (ds = [] ∨ (ds.head? = some 0 ∧ 1 < ds.length)) := by
    rintro (hnil | ⟨hzero, hlong⟩)
    · exact hds.ne_nil hnil
    · rw [hds.head hzero] at hlong
      exact absurd hlong (Nat.lt_irrefl 1)
  simp only [readUnsigned, hds.chars, readDigits_map hds.small htail, if_neg hzeros,
    readFraction_write hn _ hrest, readExponent_write _ hrest, hds.value, Option.bind_eq_bind,
    Option.bind_some, Option.pure_def]

theorem readNumeral_write (n : Numeral) (hn : ∀ d ∈ n.fraction, d < 10) {rest : List Char}
    (hrest : EndsNumeral rest) : readNumeral (n.write ++ rest) = some (n, rest) := by
  have hunsigned := readUnsigned_write n hn hrest
  simp only [Numeral.write, List.append_assoc]
  cases hsign : n.negative with
  | true =>
    rw [hsign] at hunsigned
    exact hunsigned
  | false =>
    rw [hsign] at hunsigned
    obtain ⟨ds, hds⟩ := Text.exists_decimal n.whole
    rw [hds.chars] at hunsigned ⊢
    cases ds with
    | nil => exact absurd rfl hds.ne_nil
    | cons d ds =>
      have hminus : Nat.digitChar d ≠ '-' := Nat.digitChar_ne _ (by decide)
      simp only [Bool.false_eq_true, if_false, List.nil_append, List.map_cons, List.cons_append,
        readNumeral] at hunsigned ⊢
      split
      · next heq => exact absurd (List.cons.inj heq).1 hminus
      · exact hunsigned

end Json

namespace Json.Spelling

/-- What may stand between two quotes: a character that needs no escape, an escaping letter, or a
unit of four digits. -/
inductive Valid : List Char → Prop
  | nil : Valid []
  | plain {c : Char} {cs : List Char} (hquote : c ≠ '"') (hescape : c ≠ '\\')
    (hcontrol : 0x20 ≤ c.toNat) (h : Valid cs) : Valid (c :: cs)
  | letter {c : Char} {cs : List Char} (hc : (ofLetter? c).isSome) (h : Valid cs) :
    Valid ('\\' :: c :: cs)
  | unit {a b c d : Char} {cs : List Char} (hu : (unit? a b c d).isSome) (h : Valid cs) :
    Valid ('\\' :: 'u' :: a :: b :: c :: d :: cs)

theorem readSpelling_valid {cs : List Char} (h : Valid cs) (done rest : List Char) :
    readSpelling done (cs ++ '"' :: rest) = some (String.ofList (done.reverse ++ cs), rest) := by
  induction h generalizing done with
  | nil => simp [readSpelling]
  | plain hquote hescape hcontrol h ih =>
    simp [readSpelling, hescape, Nat.not_lt.2 hcontrol, ih]
  | letter hc h ih =>
    have hu : ∀ c : Char, (ofLetter? c).isSome → c ≠ 'u' := by
      rintro c hc rfl
      revert hc
      decide
    simp [readSpelling, hu _ hc, hc, ih]
  | unit hu h ih => simp [readSpelling, hu, ih]

def lettered : List Char :=
  ['"', '\\', Char.ofNat 0x08, Char.ofNat 0x0C, '\n', '\r', '\t']

theorem mem_lettered_of_letterOf? {c letter : Char} (h : letterOf? c = some letter) :
    c ∈ lettered := by
  have hcode : ∀ n, c.toNat = n → c = Char.ofNat n := fun n hn => hn ▸ (Char.ofNat_toNat c).symm
  by_contra hother
  simp only [lettered, List.mem_cons, List.not_mem_nil, or_false, not_or] at hother
  obtain ⟨hquote, hescape, hbackspace, hfeed, hline, hreturn, htab⟩ := hother
  have hcodes : c.toNat ≠ 0x08 ∧ c.toNat ≠ 0x0C :=
    ⟨fun hc => hbackspace (hcode _ hc), fun hc => hfeed (hcode _ hc)⟩
  simp only [letterOf?, hquote, hescape, hcodes, hline, hreturn, htab, if_false] at h
  cases h

theorem ofLetter?_of_letterOf? {c letter : Char} (h : letterOf? c = some letter) :
    ofLetter? letter = some c := by
  have hback : ∀ c ∈ lettered, (letterOf? c).bind ofLetter? = some c := by
    simp only [lettered, List.forall_mem_cons]
    exact ⟨rfl, rfl, rfl, rfl, rfl, rfl, rfl, fun _ hc => absurd hc List.not_mem_nil⟩
  have hc := hback c (mem_lettered_of_letterOf? h)
  rwa [h] at hc

theorem unit?_control {n : Nat} (hn : n < 0x20) :
    unit? '0' '0' (hexDigit (n / 16)) (hexDigit (n % 16)) = some n := by
  revert n
  decide

inductive Encodes (c : Char) : List Char → Prop
  | letter {letter : Char} (h : ofLetter? letter = some c) : Encodes c ['\\', letter]
  | control (h : c.toNat < 0x20) :
    Encodes c ['\\', 'u', '0', '0', hexDigit (c.toNat / 16), hexDigit (c.toNat % 16)]
  | plain (hquote : c ≠ '"') (hescape : c ≠ '\\') (hcontrol : 0x20 ≤ c.toNat) : Encodes c [c]

theorem encodes_encodeChar (c : Char) : Encodes c (encodeChar c) := by
  unfold encodeChar
  cases hletter : letterOf? c with
  | some letter => exact .letter (ofLetter?_of_letterOf? hletter)
  | none =>
    by_cases hcontrol : c.toNat < 0x20
    · simp only [if_pos hcontrol]
      exact .control hcontrol
    · simp only [if_neg hcontrol]
      refine .plain ?_ ?_ (Nat.not_lt.1 hcontrol)
      · rintro rfl
        exact nomatch hletter
      · rintro rfl
        exact nomatch hletter

theorem valid_encode (cs : List Char) : Valid (cs.flatMap encodeChar) := by
  induction cs with
  | nil => exact .nil
  | cons c cs ih =>
    have hc := encodes_encodeChar c
    rw [List.flatMap_cons]
    generalize encodeChar c = spelled at hc
    cases hc with
    | letter h => exact .letter (by rw [h]; rfl) ih
    | control h => exact .unit (by rw [unit?_control h]; rfl) ih
    | plain hquote hescape hcontrol => exact .plain hquote hescape hcontrol ih

theorem decodeChars_encode (cs done : List Char) :
    decodeChars none done (cs.flatMap encodeChar) = some (done.reverse ++ cs) := by
  induction cs generalizing done with
  | nil => simp [decodeChars]
  | cons c cs ih =>
    have hc := encodes_encodeChar c
    rw [List.flatMap_cons]
    generalize encodeChar c = spelled at hc
    cases hc with
    | letter h =>
      have hu : ∀ letter c : Char, ofLetter? letter = some c → letter ≠ 'u' := by
        rintro letter c h rfl
        exact nomatch h
      simp [decodeChars, hu _ _ h, h, ih]
    | control h =>
      have hhigh : isHighSurrogate c.toNat = false := by
        simp only [isHighSurrogate, Bool.and_eq_false_iff, decide_eq_false_iff_not]
        omega
      have hlow : isLowSurrogate c.toNat = false := by
        simp only [isLowSurrogate, Bool.and_eq_false_iff, decide_eq_false_iff_not]
        omega
      simp [decodeChars, unit?_control h, hhigh, hlow, Char.ofNat_toNat, ih]
    | plain hquote hescape hcontrol => simp [decodeChars, hescape, ih]

@[simp]
theorem decode?_encode (text : String) : decode? (encode text) = some text := by
  simp [decode?, encode, decodeChars_encode]

end Json.Spelling

end SyntaxCoverage
