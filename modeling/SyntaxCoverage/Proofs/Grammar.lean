import SyntaxCoverage.Json.Record
import SyntaxCoverage.Proofs.Scalars

/-!
The spellings of a JSON value, with blanks wherever they may stand. The reader finds the value in
each of its spellings, and both ways of writing a value spell it. Main statements:
`Json.ofText?_toCompact`, `Json.ofText?_toIndented`.
-/

namespace SyntaxCoverage

namespace Json

def Blank (cs : List Char) : Prop := ∀ c ∈ cs, isBlank c = true

mutual

/-- The characters spell the value. -/
inductive Spells : Json → List Char → Prop
  | null : Spells .null ['n', 'u', 'l', 'l']
  | yes : Spells (.bool true) ['t', 'r', 'u', 'e']
  | no : Spells (.bool false) ['f', 'a', 'l', 's', 'e']
  | num {n : Numeral} (hn : ∀ d ∈ n.fraction, d < 10) : Spells (.num n) n.write
  | str {spelling : String} (h : Spelling.Valid spelling.toList) :
    Spells (.str spelling) (writeString spelling)
  | noItems {bs : List Char} (hbs : Blank bs) : Spells (.arr []) ('[' :: (bs ++ [']']))
  | arr {items : List Json} {cs : List Char} (h : SpellsItems items cs) :
    Spells (.arr items) ('[' :: cs)
  | noMembers {bs : List Char} (hbs : Blank bs) : Spells (.obj []) ('\x7b' :: (bs ++ ['\x7d']))
  | obj {members : List (String × Json)} {cs : List Char} (h : SpellsMembers members cs) :
    Spells (.obj members) ('\x7b' :: cs)

inductive SpellsItems : List Json → List Char → Prop
  | last {item : Json} {bs cs bs' : List Char} (hbs : Blank bs) (h : Spells item cs)
    (hbs' : Blank bs') : SpellsItems [item] (bs ++ (cs ++ (bs' ++ [']'])))
  | more {item : Json} {items : List Json} {bs cs bs' ds : List Char} (hbs : Blank bs)
    (h : Spells item cs) (hbs' : Blank bs') (hs : SpellsItems items ds) :
    SpellsItems (item :: items) (bs ++ (cs ++ (bs' ++ ',' :: ds)))

inductive SpellsMembers : List (String × Json) → List Char → Prop
  | last {key : String} {value : Json} {bs bs₁ bs₂ cs bs₃ : List Char} (hbs : Blank bs)
    (hkey : Spelling.Valid key.toList) (hbs₁ : Blank bs₁) (hbs₂ : Blank bs₂)
    (h : Spells value cs) (hbs₃ : Blank bs₃) :
    SpellsMembers [(key, value)]
      (bs ++ (writeString key ++ (bs₁ ++ ':' :: (bs₂ ++ (cs ++ (bs₃ ++ ['\x7d']))))))
  | more {key : String} {value : Json} {members : List (String × Json)}
    {bs bs₁ bs₂ cs bs₃ ds : List Char} (hbs : Blank bs) (hkey : Spelling.Valid key.toList)
    (hbs₁ : Blank bs₁) (hbs₂ : Blank bs₂) (h : Spells value cs) (hbs₃ : Blank bs₃)
    (hs : SpellsMembers members ds) :
    SpellsMembers ((key, value) :: members)
      (bs ++ (writeString key ++ (bs₁ ++ ':' :: (bs₂ ++ (cs ++ (bs₃ ++ ',' :: ds))))))

end

section Blanks

theorem blank_nil : Blank [] := fun _ h => absurd h List.not_mem_nil

theorem skipBlanks_append {bs cs : List Char} (hbs : Blank bs) :
    skipBlanks (bs ++ cs) = skipBlanks cs :=
  List.dropWhile_append_of_pos hbs

theorem skipBlanks_cons {c : Char} {cs : List Char} (hc : isBlank c = false) :
    skipBlanks (c :: cs) = c :: cs := by
  simp [skipBlanks, hc]

theorem skipBlanks_skipBlanks (cs : List Char) : skipBlanks (skipBlanks cs) = skipBlanks cs := by
  induction cs with
  | nil => rfl
  | cons c cs ih =>
    cases hc : isBlank c with
    | true => simpa [skipBlanks, hc] using ih
    | false => rw [skipBlanks_cons hc, skipBlanks_cons hc]

theorem readValue_skipBlanks (fuel : Nat) (cs : List Char) :
    readValue fuel (skipBlanks cs) = readValue fuel cs := by
  cases fuel with
  | zero => rfl
  | succ fuel => rw [readValue, readValue, skipBlanks_skipBlanks]

theorem readItems_skipBlanks (fuel : Nat) (cs : List Char) :
    readItems fuel (skipBlanks cs) = readItems fuel cs := by
  cases fuel with
  | zero => rfl
  | succ fuel => rw [readItems, readItems, readValue_skipBlanks]

theorem readMembers_skipBlanks (fuel : Nat) (cs : List Char) :
    readMembers fuel (skipBlanks cs) = readMembers fuel cs := by
  cases fuel with
  | zero => rfl
  | succ fuel => rw [readMembers, readMembers, skipBlanks_skipBlanks]

theorem endsNumeral_cons {c : Char} (hc : isBlank c = true ∨ c = ',' ∨ c = ']' ∨ c = '\x7d')
    (rest : List Char) : EndsNumeral (c :: rest) := by
  intro d hd
  obtain rfl := Option.some.inj hd
  have hblank : isBlank c = true → c = ' ' ∨ c = '\n' ∨ c = '\t' ∨ c = '\r' := by
    simp [isBlank, or_assoc]
  rcases hc with hc | rfl | rfl | rfl
  · rcases hblank hc with rfl | rfl | rfl | rfl <;> decide
  all_goals decide

theorem endsNumeral_append {bs : List Char} (hbs : Blank bs) {c : Char}
    (hc : c = ',' ∨ c = ']' ∨ c = '\x7d') (rest : List Char) :
    EndsNumeral (bs ++ c :: rest) := by
  cases bs with
  | nil => exact endsNumeral_cons (.inr hc) rest
  | cons b bs => exact endsNumeral_cons (.inl (hbs b (List.mem_cons_self ..))) _

end Blanks

section Reading

theorem write_head (n : Numeral) :
    ∃ c cs, n.write = c :: cs ∧ (c = '-' ∨ c.isDigit = true) := by
  obtain ⟨ds, hds⟩ := Text.exists_decimal n.whole
  cases hsign : n.negative with
  | true =>
    have hwrite : n.write = '-' :: (Nat.toDigits 10 n.whole ++
        Numeral.writeFraction n.fraction ++ Numeral.writeExponent n.exponent) := by
      rw [Numeral.write, hsign]
      rfl
    exact ⟨_, _, hwrite, .inl rfl⟩
  | false =>
    cases ds with
    | nil => exact absurd rfl hds.ne_nil
    | cons d ds =>
      have hwrite : n.write = Nat.digitChar d :: (ds.map Nat.digitChar ++
          Numeral.writeFraction n.fraction ++ Numeral.writeExponent n.exponent) := by
        rw [Numeral.write, hsign, hds.chars]
        rfl
      have hdigit : (Nat.digitChar d).isDigit = true := by
        simpa using hds.small d (List.mem_cons_self ..)
      exact ⟨_, _, hwrite, .inr hdigit⟩

theorem not_digit_of_ne {c : Char} (hc : c = '-' ∨ c.isDigit = true) (d : Char)
    (hd : d ≠ '-') (hdigit : d.isDigit = false) : c ≠ d := by
  rintro rfl
  rcases hc with rfl | hc
  · exact hd rfl
  · rw [hc] at hdigit
    exact nomatch hdigit

theorem Spells.head {value : Json} {cs : List Char} (h : Spells value cs) :
    ∃ c cs', cs = c :: cs' ∧ isBlank c = false ∧ c ≠ ']' := by
  cases h with
  | @num n hn =>
    obtain ⟨c, cs', hwrite, hc⟩ := write_head n
    have hne := not_digit_of_ne hc
    refine ⟨c, cs', hwrite, ?_, hne ']' (by decide) (by decide)⟩
    simp [isBlank, hne ' ' (by decide) (by decide), hne '\n' (by decide) (by decide),
      hne '\t' (by decide) (by decide), hne '\r' (by decide) (by decide)]
  | null => exact ⟨_, _, rfl, rfl, by decide⟩
  | yes => exact ⟨_, _, rfl, rfl, by decide⟩
  | no => exact ⟨_, _, rfl, rfl, by decide⟩
  | str _ => exact ⟨_, _, rfl, rfl, by decide⟩
  | noItems _ => exact ⟨_, _, rfl, rfl, by decide⟩
  | arr _ => exact ⟨_, _, rfl, rfl, by decide⟩
  | noMembers _ => exact ⟨_, _, rfl, rfl, by decide⟩
  | obj _ => exact ⟨_, _, rfl, rfl, by decide⟩

theorem readValue_append {bs cs : List Char} (hbs : Blank bs) (fuel : Nat) :
    readValue fuel (bs ++ cs) = readValue fuel cs := by
  rw [← readValue_skipBlanks, skipBlanks_append hbs, readValue_skipBlanks]

theorem readValue_write {n : Numeral} (hn : ∀ d ∈ n.fraction, d < 10) (fuel : Nat)
    {rest : List Char} (hrest : EndsNumeral rest) :
    readValue (fuel + 1) (n.write ++ rest) = some (.num n, rest) := by
  have hread := readNumeral_write n hn hrest
  obtain ⟨c, cs, hwrite, hc⟩ := write_head n
  have hne := not_digit_of_ne hc
  obtain ⟨c', cs', hcons, hblank, -⟩ := (Spells.num hn).head
  obtain ⟨rfl, rfl⟩ := List.cons.inj (hcons.symm.trans hwrite)
  rw [hcons, List.cons_append] at hread ⊢
  rw [readValue, skipBlanks_cons hblank]
  split
  · next heq => exact absurd (List.cons.inj heq).1 (hne _ (by decide) (by decide))
  · next heq => exact absurd (List.cons.inj heq).1 (hne _ (by decide) (by decide))
  · next heq => exact absurd (List.cons.inj heq).1 (hne _ (by decide) (by decide))
  · next heq => exact absurd (List.cons.inj heq).1 (hne _ (by decide) (by decide))
  · next heq => exact absurd (List.cons.inj heq).1 (hne _ (by decide) (by decide))
  · next heq => exact absurd (List.cons.inj heq).1 (hne _ (by decide) (by decide))
  · rw [hread]
    rfl

theorem readSpelling_writeString {spelling : String} (h : Spelling.Valid spelling.toList)
    (rest : List Char) : writeString spelling ++ rest = '"' :: (spelling.toList ++ '"' :: rest) ∧
      readSpelling [] (spelling.toList ++ '"' :: rest) = some (spelling, rest) := by
  constructor
  · simp [writeString]
  · simp [Spelling.readSpelling_valid h]

theorem SpellsItems.head {items : List Json} {cs : List Char} (h : SpellsItems items cs)
    (rest : List Char) : ∃ c cs', skipBlanks (cs ++ rest) = c :: cs' ∧ c ≠ ']' := by
  have hhead : ∀ {item : Json} {bs ds : List Char} (tail : List Char), Blank bs →
      Spells item ds → ∃ c cs', skipBlanks (bs ++ (ds ++ tail)) = c :: cs' ∧ c ≠ ']' := by
    intro item bs ds tail hbs hitem
    obtain ⟨c, ds', rfl, hblank, hc⟩ := hitem.head
    exact ⟨c, ds' ++ tail, by rw [skipBlanks_append hbs, List.cons_append, skipBlanks_cons hblank],
      hc⟩
  cases h with
  | last hbs hitem _ => simpa [List.append_assoc] using hhead _ hbs hitem
  | more hbs hitem _ _ => simpa [List.append_assoc] using hhead _ hbs hitem

theorem SpellsMembers.head {members : List (String × Json)} {cs : List Char}
    (h : SpellsMembers members cs) (rest : List Char) :
    ∃ cs', skipBlanks (cs ++ rest) = '"' :: cs' := by
  cases h with
  | last hbs _ _ _ _ _ =>
    rw [List.append_assoc, skipBlanks_append hbs]
    exact ⟨_, rfl⟩
  | more hbs _ _ _ _ _ _ =>
    rw [List.append_assoc, skipBlanks_append hbs]
    exact ⟨_, rfl⟩

theorem readValue_arr {fuel : Nat} {items : List Json} {cs rest : List Char}
    (h : SpellsItems items cs) (hread : readItems fuel (cs ++ rest) = some (items, rest)) :
    readValue (fuel + 1) ('[' :: (cs ++ rest)) = some (.arr items, rest) := by
  obtain ⟨c, cs', hskip, hc⟩ := h.head rest
  rw [← readItems_skipBlanks, hskip] at hread
  simp only [readValue, skipBlanks_cons (c := '[') rfl, hskip]
  split
  · next heq => exact absurd (List.cons.inj heq).1 hc
  · rw [hread]
    rfl

theorem readValue_obj {fuel : Nat} {members : List (String × Json)} {cs rest : List Char}
    (h : SpellsMembers members cs)
    (hread : readMembers fuel (cs ++ rest) = some (members, rest)) :
    readValue (fuel + 1) ('\x7b' :: (cs ++ rest)) = some (.obj members, rest) := by
  obtain ⟨cs', hskip⟩ := h.head rest
  rw [← readMembers_skipBlanks, hskip] at hread
  simp only [readValue, skipBlanks_cons (c := '\x7b') rfl, hskip]
  split
  · next heq => exact absurd (List.cons.inj heq).1 (by decide)
  · rw [hread]
    rfl

mutual

/-- The reader finds a value in any of its spellings, with fuel for each of the characters. -/
theorem readValue_spells {fuel : Nat} {value : Json} {cs rest : List Char}
    (hfuel : cs.length < fuel) (hrest : EndsNumeral rest) :
    Spells value cs → readValue fuel (cs ++ rest) = some (value, rest) := by
  obtain ⟨fuel, rfl⟩ := Nat.exists_eq_succ_of_ne_zero (Nat.ne_zero_of_lt hfuel)
  intro h
  match h with
  | .null => rfl
  | .yes => rfl
  | .no => rfl
  | .num hn => exact readValue_write hn fuel hrest
  | @Spells.str spelling h =>
    obtain ⟨hwrite, hread⟩ := readSpelling_writeString h rest
    simp only [hwrite, readValue, skipBlanks_cons (c := '"') rfl, hread]
    rfl
  | @Spells.noItems bs hbs =>
    simp only [List.cons_append, List.append_assoc, readValue, skipBlanks_cons (c := '[') rfl,
      skipBlanks_append hbs]
    rfl
  | @Spells.noMembers bs hbs =>
    simp only [List.cons_append, List.append_assoc, readValue, skipBlanks_cons (c := '\x7b') rfl,
      skipBlanks_append hbs]
    rfl
  | .arr hitems =>
    exact readValue_arr hitems (readItems_spells (Nat.lt_of_succ_lt_succ hfuel) rest hitems)
  | .obj hmembers =>
    exact readValue_obj hmembers (readMembers_spells (Nat.lt_of_succ_lt_succ hfuel) rest hmembers)

theorem readItems_spells {fuel : Nat} {items : List Json} {cs : List Char}
    (hfuel : cs.length < fuel) (rest : List Char) :
    SpellsItems items cs → readItems fuel (cs ++ rest) = some (items, rest) := by
  obtain ⟨fuel, rfl⟩ := Nat.exists_eq_succ_of_ne_zero (Nat.ne_zero_of_lt hfuel)
  intro h
  match h with
  | @SpellsItems.last item bs cs bs' hbs hitem hbs' =>
    simp only [List.length_append, List.length_singleton] at hfuel
    have hcs : cs.length < fuel := by omega
    have hvalue := readValue_spells hcs (endsNumeral_append hbs' (.inr (.inl rfl)) rest) hitem
    simp only [List.append_assoc, List.singleton_append, readItems, readValue_append hbs, hvalue,
      skipBlanks_append hbs', skipBlanks_cons (c := ']') rfl]
  | @SpellsItems.more item items bs cs bs' ds hbs hitem hbs' hitems =>
    simp only [List.length_append, List.length_cons] at hfuel
    have hcs : cs.length < fuel ∧ ds.length < fuel := by omega
    have hvalue := readValue_spells hcs.1 (endsNumeral_append hbs' (.inl rfl) (ds ++ rest)) hitem
    have hrest := readItems_spells hcs.2 rest hitems
    simp only [List.append_assoc, List.cons_append, readItems, readValue_append hbs, hvalue,
      skipBlanks_append hbs', skipBlanks_cons (c := ',') rfl, hrest]
    rfl

theorem readMembers_spells {fuel : Nat} {members : List (String × Json)} {cs : List Char}
    (hfuel : cs.length < fuel) (rest : List Char) :
    SpellsMembers members cs → readMembers fuel (cs ++ rest) = some (members, rest) := by
  obtain ⟨fuel, rfl⟩ := Nat.exists_eq_succ_of_ne_zero (Nat.ne_zero_of_lt hfuel)
  intro h
  match h with
  | @SpellsMembers.last key value bs bs₁ bs₂ cs bs₃ hbs hkey hbs₁ hbs₂ hitem hbs₃ =>
    simp only [List.length_append, List.length_cons, List.length_nil] at hfuel
    have hcs : cs.length < fuel := by omega
    have hvalue := readValue_spells hcs (endsNumeral_append hbs₃ (.inr (.inr rfl)) rest) hitem
    obtain ⟨hwrite, hread⟩ :=
      readSpelling_writeString hkey (bs₁ ++ ':' :: (bs₂ ++ (cs ++ (bs₃ ++ '\x7d' :: rest))))
    simp only [List.append_assoc, List.cons_append, List.nil_append, readMembers,
      skipBlanks_append hbs, hwrite, skipBlanks_cons (c := '"') rfl, hread,
      skipBlanks_append hbs₁, skipBlanks_cons (c := ':') rfl, readValue_append hbs₂, hvalue,
      skipBlanks_append hbs₃, skipBlanks_cons (c := '\x7d') rfl]
  | @SpellsMembers.more key value members bs bs₁ bs₂ cs bs₃ ds hbs hkey hbs₁ hbs₂ hitem hbs₃
      hmembers =>
    simp only [List.length_append, List.length_cons] at hfuel
    have hcs : cs.length < fuel ∧ ds.length < fuel := by omega
    have hvalue := readValue_spells hcs.1 (endsNumeral_append hbs₃ (.inl rfl) (ds ++ rest)) hitem
    have hrest := readMembers_spells hcs.2 rest hmembers
    obtain ⟨hwrite, hread⟩ :=
      readSpelling_writeString hkey (bs₁ ++ ':' :: (bs₂ ++ (cs ++ (bs₃ ++ ',' :: (ds ++ rest)))))
    simp only [List.append_assoc, List.cons_append, readMembers, skipBlanks_append hbs, hwrite,
      skipBlanks_cons (c := '"') rfl, hread, skipBlanks_append hbs₁,
      skipBlanks_cons (c := ':') rfl, readValue_append hbs₂, hvalue, skipBlanks_append hbs₃,
      skipBlanks_cons (c := ',') rfl, hrest]
    rfl

end

theorem ofChars?_spells {value : Json} {cs : List Char} (h : Spells value cs) :
    ofChars? cs = some value := by
  have hfuel : cs.length < 2 * cs.length + 2 := by omega
  have hend : EndsNumeral [] := fun _ hc => nomatch hc
  have hread := readValue_spells hfuel hend h
  rw [List.append_nil] at hread
  rw [ofChars?, hread]
  rfl

end Reading

mutual

def Forall (P : Numeral → Prop) (Q : String → Prop) : Json → Prop
  | .null => True
  | .bool _ => True
  | .num n => P n
  | .str spelling => Q spelling
  | .arr items => ForallItems P Q items
  | .obj members => ForallMembers P Q members

def ForallItems (P : Numeral → Prop) (Q : String → Prop) : List Json → Prop
  | [] => True
  | item :: items => Forall P Q item ∧ ForallItems P Q items

def ForallMembers (P : Numeral → Prop) (Q : String → Prop) : List (String × Json) → Prop
  | [] => True
  | (key, value) :: members => Q key ∧ Forall P Q value ∧ ForallMembers P Q members

end

section Forall

variable {P : Numeral → Prop} {Q : String → Prop}

@[simp]
theorem forall_null : Forall P Q .null := trivial

@[simp]
theorem forall_bool (b : Bool) : Forall P Q (.bool b) := trivial

@[simp]
theorem forall_ofNat {n : Nat} : Forall P Q (ofNat n) ↔ P (.ofNat n) := Iff.rfl

@[simp]
theorem forall_ofInt {i : Int} : Forall P Q (ofInt i) ↔ P (.ofInt i) := Iff.rfl

@[simp]
theorem forall_ofString {text : String} :
    Forall P Q (ofString text) ↔ Q (Spelling.encode text) := Iff.rfl

@[simp]
theorem forall_obj_nil : Forall P Q (.obj []) := trivial

@[simp]
theorem forall_obj_field {name : String} {value : Json} {ms : List (String × Json)} :
    Forall P Q (.obj (field name value :: ms)) ↔
      Q (Spelling.encode name) ∧ Forall P Q value ∧ Forall P Q (.obj ms) := Iff.rfl

@[simp]
theorem forall_arr {items : List Json} :
    Forall P Q (.arr items) ↔ ∀ item ∈ items, Forall P Q item := by
  show ForallItems P Q items ↔ _
  induction items with
  | nil => simp [ForallItems]
  | cons item items ih => simp [ForallItems, ih]

end Forall

section Writing

def DecimalFraction (n : Numeral) : Prop := ∀ d ∈ n.fraction, d < 10

def ValidSpelling (spelling : String) : Prop := Spelling.Valid spelling.toList

abbrev Writable (value : Json) : Prop := Forall DecimalFraction ValidSpelling value

@[simp]
theorem decimalFraction_ofNat (n : Nat) : DecimalFraction (.ofNat n) :=
  fun _ h => absurd h List.not_mem_nil

@[simp]
theorem decimalFraction_ofInt (i : Int) : DecimalFraction (.ofInt i) :=
  fun _ h => absurd h List.not_mem_nil

@[simp]
theorem validSpelling_encode (text : String) : ValidSpelling (Spelling.encode text) := by
  rw [ValidSpelling, Spelling.encode, String.toList_ofList]
  exact Spelling.valid_encode _

theorem blank_newLine (level : Nat) : Blank (newLine level) := by
  intro c hc
  rcases List.mem_cons.1 hc with rfl | hc
  · rfl
  · rw [List.eq_of_mem_replicate hc]
    rfl

theorem blank_space : Blank [' '] := by
  intro c hc
  rw [List.mem_singleton.1 hc]
  rfl

mutual

theorem spells_writeCompact : (value : Json) → Writable value → Spells value value.writeCompact
  | .null, _ => .null
  | .bool true, _ => .yes
  | .bool false, _ => .no
  | .num _, h => .num h
  | .str _, h => .str h
  | .arr [], _ => .noItems blank_nil
  | .arr (item :: items), ⟨hitem, hitems⟩ =>
    .arr (spellsItems_writeCompact (spells_writeCompact item hitem) items hitems)
  | .obj [], _ => .noMembers blank_nil
  | .obj ((key, value) :: members), ⟨hkey, hvalue, hmembers⟩ => by
    have hall :=
      spellsMembers_writeCompact hkey (spells_writeCompact value hvalue) members hmembers
    simpa only [writeCompact, List.append_assoc, List.cons_append] using Spells.obj hall

theorem spellsItems_writeCompact {item : Json} {cs : List Char} (h : Spells item cs) :
    (items : List Json) → ForallItems DecimalFraction ValidSpelling items →
      SpellsItems (item :: items) (cs ++ writeCompactItems items)
  | [], _ => .last blank_nil h blank_nil
  | next :: items, ⟨hnext, hitems⟩ => by
    have hrest := spellsItems_writeCompact (spells_writeCompact next hnext) items hitems
    have hall := SpellsItems.more blank_nil h blank_nil hrest
    simpa only [writeCompactItems, List.nil_append, List.cons_append] using hall

theorem spellsMembers_writeCompact {key : String} {value : Json} {cs : List Char}
    (hkey : Spelling.Valid key.toList) (h : Spells value cs) :
    (members : List (String × Json)) → ForallMembers DecimalFraction ValidSpelling members →
      SpellsMembers ((key, value) :: members)
        (writeString key ++ ':' :: (cs ++ writeCompactMembers members))
  | [], _ => .last blank_nil hkey blank_nil blank_nil h blank_nil
  | (next, value') :: members, ⟨hnext, hvalue, hmembers⟩ => by
    have hrest :=
      spellsMembers_writeCompact hnext (spells_writeCompact value' hvalue) members hmembers
    have hall := SpellsMembers.more blank_nil hkey blank_nil blank_nil h blank_nil hrest
    simpa only [writeCompactMembers, List.nil_append, List.append_assoc, List.cons_append]
      using hall

end

mutual

theorem spells_writeIndented (level : Nat) :
    (value : Json) → Writable value → Spells value (value.writeIndented level)
  | .null, _ => .null
  | .bool true, _ => .yes
  | .bool false, _ => .no
  | .num _, h => .num h
  | .str _, h => .str h
  | .arr [], _ => .noItems blank_nil
  | .arr (item :: items), ⟨hitem, hitems⟩ => by
    have hall :=
      spellsItems_writeIndented level (spells_writeIndented (level + 1) item hitem) items hitems
    simpa only [writeIndented, List.append_assoc, List.cons_append] using Spells.arr hall
  | .obj [], _ => .noMembers blank_nil
  | .obj ((key, value) :: members), ⟨hkey, hvalue, hmembers⟩ => by
    have hall := spellsMembers_writeIndented level hkey
      (spells_writeIndented (level + 1) value hvalue) members hmembers
    simpa only [writeIndented, List.append_assoc, List.cons_append] using Spells.obj hall

theorem spellsItems_writeIndented (level : Nat) {item : Json} {cs : List Char}
    (h : Spells item cs) : (items : List Json) → ForallItems DecimalFraction ValidSpelling items →
      SpellsItems (item :: items) (newLine (level + 1) ++ (cs ++ writeIndentedItems level items))
  | [], _ => .last (blank_newLine _) h (blank_newLine _)
  | next :: items, ⟨hnext, hitems⟩ => by
    have hrest :=
      spellsItems_writeIndented level (spells_writeIndented (level + 1) next hnext) items hitems
    have hall := SpellsItems.more (blank_newLine (level + 1)) h blank_nil hrest
    simpa only [writeIndentedItems, List.nil_append, List.append_assoc, List.cons_append] using hall

theorem spellsMembers_writeIndented (level : Nat) {key : String} {value : Json} {cs : List Char}
    (hkey : Spelling.Valid key.toList) (h : Spells value cs) :
    (members : List (String × Json)) → ForallMembers DecimalFraction ValidSpelling members →
      SpellsMembers ((key, value) :: members) (newLine (level + 1) ++
        (writeString key ++ ':' :: ' ' :: (cs ++ writeIndentedMembers level members)))
  | [], _ => .last (blank_newLine _) hkey blank_nil blank_space h (blank_newLine _)
  | (next, value') :: members, ⟨hnext, hvalue, hmembers⟩ => by
    have hrest := spellsMembers_writeIndented level hnext
      (spells_writeIndented (level + 1) value' hvalue) members hmembers
    have hall := SpellsMembers.more (blank_newLine (level + 1)) hkey blank_nil blank_space h
      blank_nil hrest
    simpa only [writeIndentedMembers, List.nil_append, List.append_assoc, List.cons_append]
      using hall

end

theorem ofText?_toCompact {value : Json} (h : Writable value) :
    ofText? value.toCompact = some value := by
  rw [ofText?, toCompact, String.toList_ofList]
  exact ofChars?_spells (spells_writeCompact value h)

theorem ofText?_toIndented {value : Json} (h : Writable value) :
    ofText? value.toIndented = some value := by
  rw [ofText?, toIndented, String.toList_ofList]
  exact ofChars?_spells (spells_writeIndented 0 value h)

end Writing

end Json

end SyntaxCoverage
