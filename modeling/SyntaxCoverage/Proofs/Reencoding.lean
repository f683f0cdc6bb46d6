import SyntaxCoverage.Proofs.Reversal

/-!
Trees that are written and read back. The items of a tree carry no mark that tells trees from
leaves, and still each is read as what it was, as long as all of the tree means something to the
reader and is not nested too deep for it. Main statement: `Tree.decodeText_toJson`.
-/

namespace SyntaxCoverage

namespace Json

section Nesting

mutual

def nesting : Json → Nat
  | .null => 0
  | .bool _ => 0
  | .num _ => 0
  | .str _ => 0
  | .arr items => itemsNesting items + 1
  | .obj members => membersNesting members + 1

def itemsNesting : List Json → Nat
  | [] => 0
  | item :: items => max item.nesting (itemsNesting items)

def membersNesting : List (String × Json) → Nat
  | [] => 0
  | (_, value) :: members => max value.nesting (membersNesting members)

end

theorem nesting_lt_arr {items : List Json} {item : Json} (h : item ∈ items) :
    item.nesting < (arr items).nesting := by
  rw [nesting, Nat.lt_succ_iff]
  induction items with
  | nil => exact absurd h List.not_mem_nil
  | cons other items ih =>
    rw [itemsNesting]
    rcases List.mem_cons.1 h with rfl | h
    · exact Nat.le_max_left ..
    · exact (ih h).trans (Nat.le_max_right ..)

theorem nesting_lt_obj {ms : List (String × Json)} {m : String × Json} (h : m ∈ ms) :
    m.2.nesting < (obj ms).nesting := by
  rw [nesting, Nat.lt_succ_iff]
  induction ms with
  | nil => exact absurd h List.not_mem_nil
  | cons other ms ih =>
    rw [membersNesting]
    rcases List.mem_cons.1 h with rfl | h
    · exact Nat.le_max_left ..
    · exact (ih h).trans (Nat.le_max_right ..)

def MeantNumber (n : Numeral) : Prop := n.isInRange = true

def MeantSpelling (spelling : String) : Prop := (Spelling.decode? spelling).isSome = true

abbrev Meant (value : Json) : Prop := Forall MeantNumber MeantSpelling value

mutual

theorem isReadable_of_nesting_le : (value : Json) → value.Meant → {depth : Nat} →
    value.nesting ≤ depth → value.isReadable depth = true
  | .null, _, depth, _ => by cases depth <;> rfl
  | .bool _, _, depth, _ => by cases depth <;> rfl
  | .num _, h, depth, _ => by cases depth <;> exact h
  | .str _, h, depth, _ => by cases depth <;> exact h
  | .arr items, h, depth + 1, hdepth =>
    areReadable_of_nesting_le items h (Nat.le_of_succ_le_succ hdepth)
  | .obj members, h, depth + 1, hdepth =>
    areReadableMembers_of_nesting_le members h (Nat.le_of_succ_le_succ hdepth)

theorem areReadable_of_nesting_le : (items : List Json) →
    ForallItems MeantNumber MeantSpelling items → {depth : Nat} →
      itemsNesting items ≤ depth → areReadable depth items = true
  | [], _, depth, _ => by cases depth <;> rfl
  | item :: items, ⟨hitem, hitems⟩, depth, hdepth => by
    obtain ⟨hfirst, hrest⟩ := Nat.max_le.1 hdepth
    rw [areReadable, isReadable_of_nesting_le item hitem hfirst,
      areReadable_of_nesting_le items hitems hrest]
    rfl

theorem areReadableMembers_of_nesting_le : (members : List (String × Json)) →
    ForallMembers MeantNumber MeantSpelling members → {depth : Nat} →
      membersNesting members ≤ depth → areReadableMembers depth members = true
  | [], _, depth, _ => by cases depth <;> rfl
  | (key, value) :: members, ⟨hkey, hvalue, hmembers⟩, depth, hdepth => by
    obtain ⟨hfirst, hrest⟩ := Nat.max_le.1 hdepth
    rw [areReadableMembers, isReadable_of_nesting_le value hvalue hfirst,
      areReadableMembers_of_nesting_le members hmembers hrest, Bool.and_true, Bool.and_true]
    exact hkey

end

end Nesting

end Json

structure Extent.Fits (e : Extent) : Prop where
  start : e.start ≤ maxIndex
  stop : e.stop ≤ maxIndex

structure Position.Fits (p : Position) : Prop where
  line : p.line ≤ maxIndex
  column : p.column ≤ maxIndex

structure Span.Fits (s : Span) : Prop where
  extent : s.extent.Fits
  first : s.first.Fits
  last : s.last.Fits

def Site.Fits (s : Site) : Prop := ∀ span ∈ s.spans, span.Fits

instance (e : Extent) : Decidable e.Fits :=
  decidable_of_iff (e.start ≤ maxIndex ∧ e.stop ≤ maxIndex)
    ⟨fun h => ⟨h.1, h.2⟩, fun h => ⟨h.start, h.stop⟩⟩

instance (p : Position) : Decidable p.Fits :=
  decidable_of_iff (p.line ≤ maxIndex ∧ p.column ≤ maxIndex)
    ⟨fun h => ⟨h.1, h.2⟩, fun h => ⟨h.line, h.column⟩⟩

instance (s : Span) : Decidable s.Fits :=
  decidable_of_iff (s.extent.Fits ∧ s.first.Fits ∧ s.last.Fits)
    ⟨fun h => ⟨h.1, h.2.1, h.2.2⟩, fun h => ⟨h.extent, h.first, h.last⟩⟩

instance (s : Site) : Decidable s.Fits := inferInstanceAs (Decidable (∀ span ∈ s.spans, span.Fits))

section Places

theorem Extent.ofJson?_toJson {e : Extent} (h : e.Fits) (hordered : e.Ordered) :
    ofJson? e.toJson = some e := by
  have hfields := Json.fields?_members ["start", "end"] [some (.ofNat e.start), some (.ofNat e.stop)]
    (by decide) rfl false
  exact ofJson?_eq_some_iff.2 ⟨_, _, hfields, Json.toNat?_ofNat h.start,
    Json.toNat?_ofNat h.stop, hordered⟩

theorem Position.ofJson?_toJson {p : Position} (h : p.Fits) : ofJson? p.toJson = some p := by
  have hfields := Json.fields?_members ["line", "column"]
    [some (.ofNat p.line), some (.ofNat p.column)] (by decide) rfl false
  exact ofJson?_eq_some_iff.2 ⟨_, _, hfields, Json.toNat?_ofNat h.line,
    Json.toNat?_ofNat h.column⟩

theorem Span.ofJson?_toJson {s : Span} (h : s.Fits) (hordered : s.Ordered) :
    ofJson? s.toJson = some s := by
  have hfields := Json.fields?_members ["range", "start", "end"]
    [some s.extent.toJson, some s.first.toJson, some s.last.toJson] (by decide) rfl false
  exact ofJson?_eq_some_iff.2 ⟨_, _, _, hfields, Extent.ofJson?_toJson h.extent hordered,
    Position.ofJson?_toJson h.first, Position.ofJson?_toJson h.last⟩

theorem Site.toJson_eq (s : Site) : s.toJson = .obj (Json.members ["expression", "selector"]
    [some s.whole.toJson, s.selector.map Span.toJson]) := by
  obtain ⟨whole, selector⟩ := s
  cases selector <;> rfl

theorem Site.ofJson?_toJson {s : Site} (h : s.Fits) (hordered : s.Ordered) :
    ofJson? s.toJson = some s := by
  have hspan : ∀ span ∈ s.spans, Span.ofJson? span.toJson = some span :=
    fun span hmem => Span.ofJson?_toJson (h span hmem) (hordered span hmem)
  obtain ⟨hwhole, hselector⟩ := List.forall_mem_cons.1 hspan
  have hfields := Json.fields?_members ["expression", "selector"]
    [some s.whole.toJson, s.selector.map Span.toJson] (by decide) rfl false
  rw [← toJson_eq] at hfields
  refine ofJson?_eq_some_iff.2 ⟨_, _, hfields, hwhole, ?_⟩
  refine Json.optional_map_some (fun _ => Json.noConfusion) fun span hmem => ?_
  exact hselector span (Option.mem_toList.2 hmem)

theorem Extent.fits_of_ofJson? {value : Json} {e : Extent} (h : ofJson? value = some e) :
    e.Fits := by
  obtain ⟨_, _, -, hstart, hstop, -⟩ := ofJson?_eq_some_iff.1 h
  exact ⟨(Json.toNat?_eq_some_iff.1 hstart).2, (Json.toNat?_eq_some_iff.1 hstop).2⟩

theorem Position.fits_of_ofJson? {value : Json} {p : Position} (h : ofJson? value = some p) :
    p.Fits := by
  obtain ⟨_, _, -, hline, hcolumn⟩ := ofJson?_eq_some_iff.1 h
  exact ⟨(Json.toNat?_eq_some_iff.1 hline).2, (Json.toNat?_eq_some_iff.1 hcolumn).2⟩

theorem Span.fits_of_ofJson? {value : Json} {s : Span} (h : ofJson? value = some s) : s.Fits := by
  obtain ⟨_, _, _, -, hextent, hfirst, hlast⟩ := ofJson?_eq_some_iff.1 h
  exact ⟨Extent.fits_of_ofJson? hextent, Position.fits_of_ofJson? hfirst,
    Position.fits_of_ofJson? hlast⟩

theorem Site.fits_of_ofJson? {value : Json} {s : Site} (h : ofJson? value = some s) :
    s.Fits :=
  forall_spans_of_ofJson? Span.fits_of_ofJson? h

variable {P : Numeral → Prop} {Q : String → Prop}

theorem Span.forall_toJson (hP : ∀ n ≤ maxIndex, P (.ofNat n))
    (hQ : ∀ text, Q (Json.Spelling.encode text)) {s : Span} (h : s.Fits) :
    s.toJson.Forall P Q := by
  simp [toJson, Extent.toJson, Position.toJson, hQ, hP _ h.extent.start, hP _ h.extent.stop,
    hP _ h.first.line, hP _ h.first.column, hP _ h.last.line, hP _ h.last.column]

theorem Site.forall_toJson (hP : ∀ n ≤ maxIndex, P (.ofNat n))
    (hQ : ∀ text, Q (Json.Spelling.encode text)) {s : Site} (h : s.Fits) :
    s.toJson.Forall P Q := by
  have hspan : ∀ span ∈ s.spans, span.toJson.Forall P Q :=
    fun span hmem => Span.forall_toJson hP hQ (h span hmem)
  obtain ⟨hwhole, hselector⟩ := List.forall_mem_cons.1 hspan
  obtain ⟨whole, selector⟩ := s
  cases selector with
  | none => simp [toJson, hQ, hwhole]
  | some selector =>
    have hlast := hselector selector (List.mem_singleton_self _)
    simp [toJson, hQ, hwhole, hlast]

end Places

/-- The leaf is written exactly: it is no real number, and an integer is one of 64 bits. -/
def Leaf.IsExact : Leaf → Prop
  | .absent => True
  | .bool _ => True
  | .int i => -(Numeral.intLimit : Int) ≤ i ∧ i < Numeral.intLimit
  | .real _ => False
  | .text _ => True

instance : DecidablePred Leaf.IsExact
  | .absent => .isTrue trivial
  | .bool _ => .isTrue trivial
  | .int _ => inferInstanceAs (Decidable (_ ∧ _))
  | .real _ => .isFalse id
  | .text _ => .isTrue trivial

section Leaves

variable {writeReal : Binary64 → Json}

theorem Numeral.toInt64?_ofInt {i : Int} (hlow : -(intLimit : Int) ≤ i) (hhigh : i < intLimit) :
    (ofInt i).toInt64? = some i := by
  by_cases hi : i < 0
  · have hmagnitude : 0 < i.natAbs ∧ i.natAbs ≤ intLimit := by omega
    have hvalue : -(i.natAbs : Int) = i := by omega
    simp only [toInt64?, ofInt, isWhole, hi, hmagnitude, hvalue, decide_true, List.isEmpty_nil,
      Option.isNone_none, Bool.and_self, not_true_eq_false, if_true, if_false, and_self]
  · have hmagnitude : i.natAbs < intLimit := by omega
    have hvalue : (i.natAbs : Int) = i := by omega
    simp only [toInt64?, ofInt, isWhole, hi, hmagnitude, hvalue, decide_false, List.isEmpty_nil,
      Option.isNone_none, Bool.and_self, not_true_eq_false, if_true, if_false, Bool.false_eq_true]

theorem Numeral.isInRange_ofInt {i : Int} (hlow : -(intLimit : Int) ≤ i) (hhigh : i < intLimit) :
    (ofInt i).isInRange = true := by
  rw [isInRange, toInt64?_ofInt hlow hhigh]
  rfl

theorem Numeral.isInRange_ofNat {n : Nat} (h : n ≤ maxIndex) : (ofNat n).isInRange = true := by
  have hlimit : maxIndex < intLimit := by decide
  have hcast : ofInt n = ofNat n := by simp [ofInt, ofNat]
  rw [← hcast]
  exact isInRange_ofInt (by omega) (by omega)

theorem Leaf.ofJson?_toJson {l : Leaf} (h : l.IsExact) :
    ofJson? (l.toJson writeReal) = some l := by
  cases l with
  | absent => rfl
  | bool b => rfl
  | int i => simp only [toJson, Json.ofInt, ofJson?, Numeral.toInt64?_ofInt h.1 h.2]
  | real x => exact h.elim
  | text s => simp [toJson, Json.ofString, ofJson?]

theorem Tree.ofFields?_leafToJson (readItem : Json → Option Item) {l : Leaf} (h : l.IsExact) :
    ofFields? readItem (l.toJson writeReal) = none := by
  cases l with
  | real x => exact h.elim
  | _ => rfl

end Leaves

namespace Tree

mutual

def leaves : Tree → List Leaf
  | .node _ items _ => leavesOf items

def leavesOf : List Item → List Leaf
  | [] => []
  | item :: items => itemLeaves item ++ leavesOf items

def itemLeaves : Item → List Leaf
  | .tree t => t.leaves
  | .leaf l => [l]

end

end Tree

/-- What has to hold of an item that is carried over a text. -/
structure Item.Portable (item : Item) : Prop where
  exact : ∀ l ∈ Tree.itemLeaves item, l.IsExact
  fits : ∀ site ∈ Tree.itemSites item, site.Fits
  ordered : ∀ site ∈ Tree.itemSites item, site.Ordered

namespace Item

mutual

theorem induction {motive : Item → Prop} (leaf : ∀ l, motive (.leaf l))
    (tree : ∀ kind items site, (∀ item ∈ items, motive item) →
      motive (.tree (.node kind items site))) : (item : Item) → motive item
  | .leaf l => leaf l
  | .tree (.node kind items site) => tree kind items site (induction_items leaf tree items)

theorem induction_items {motive : Item → Prop} (leaf : ∀ l, motive (.leaf l))
    (tree : ∀ kind items site, (∀ item ∈ items, motive item) →
      motive (.tree (.node kind items site))) : (items : List Item) → ∀ item ∈ items, motive item
  | [] => fun _ hmem => absurd hmem List.not_mem_nil
  | item :: items =>
    List.forall_mem_cons.2 ⟨induction leaf tree item, induction_items leaf tree items⟩

end

theorem itemLeaves_subset {item : Item} {items : List Item} (h : item ∈ items) :
    Tree.itemLeaves item ⊆ Tree.leavesOf items := by
  induction items with
  | nil => exact absurd h List.not_mem_nil
  | cons other items ih =>
    rcases List.mem_cons.1 h with rfl | h
    · exact List.subset_append_left ..
    · exact fun _ hl => List.mem_append_right _ (ih h hl)

theorem itemSites_subset {item : Item} {items : List Item} (h : item ∈ items) :
    Tree.itemSites item ⊆ Tree.sitesOf items := by
  induction items with
  | nil => exact absurd h List.not_mem_nil
  | cons other items ih =>
    rcases List.mem_cons.1 h with rfl | h
    · exact List.subset_append_left ..
    · exact fun _ hs => List.mem_append_right _ (ih h hs)

namespace Portable

variable {kind : String} {items : List Item} {site : Option Site}

theorem item (h : (Item.tree (.node kind items site)).Portable) {item : Item}
    (hmem : item ∈ items) : item.Portable where
  exact l hl := h.exact l (itemLeaves_subset hmem hl)
  fits s hs := h.fits s (List.mem_append_right _ (itemSites_subset hmem hs))
  ordered s hs := h.ordered s (List.mem_append_right _ (itemSites_subset hmem hs))

theorem of_mem_site (h : (Item.tree (.node kind items site)).Portable) {s : Site} (hs : s ∈ site) :
    s.Fits ∧ s.Ordered := by
  have hmem : s ∈ Tree.itemSites (.tree (.node kind items site)) :=
    List.mem_append_left _ (Option.mem_toList.2 hs)
  exact ⟨h.fits s hmem, h.ordered s hmem⟩

end Portable

end Item

section Trees

variable {writeReal : Binary64 → Json} {readItem : Json → Option Item}

theorem Tree.itemsToJson_eq (items : List Item) :
    itemsToJson writeReal items = items.map (itemToJson writeReal) := by
  induction items with
  | nil => rfl
  | cons item items ih => rw [itemsToJson, ih, List.map_cons]

theorem Tree.toJson_node (kind : String) (items : List Item) (site : Option Site) :
    toJson writeReal (.node kind items site) = .obj (Json.members fieldNames
      [some (.ofString kind), some (.arr (items.map (itemToJson writeReal))),
        site.map Site.toJson]) := by
  rw [toJson, itemsToJson_eq]
  cases site <;> rfl

theorem Tree.ofFields?_toJson {kind : String} {items : List Item} {site : Option Site}
    (hread : ∀ item ∈ items, readItem (itemToJson writeReal item) = some item)
    (hsite : ∀ s ∈ site, s.Fits ∧ s.Ordered) :
    ofFields? readItem (toJson writeReal (.node kind items site)) =
      some (.node kind items site) := by
  have hfields := Json.fields?_members fieldNames [some (.ofString kind),
    some (.arr (items.map (itemToJson writeReal))), site.map Site.toJson] (by decide) rfl false
  rw [← toJson_node] at hfields
  refine ofFields?_eq_some_iff.2 ⟨_, _, _, hfields, Json.toString?_ofString kind, ?_, ?_⟩
  · exact Json.toList?_eq_some_iff.2 ⟨_, rfl, mapM_map_eq_some hread⟩
  · refine Json.optional_map_some (fun _ => Json.noConfusion) fun s hs => ?_
    exact Site.ofJson?_toJson (hsite s hs).1 (hsite s hs).2

theorem Tree.nesting_item_lt (writeReal : Binary64 → Json) (kind : String) {items : List Item}
    (site : Option Site) {item : Item} (h : item ∈ items) :
    (itemToJson writeReal item).nesting + 2 ≤
      (toJson writeReal (.node kind items site)).nesting := by
  have hitems : (itemToJson writeReal item).nesting <
      (Json.arr (items.map (itemToJson writeReal))).nesting :=
    Json.nesting_lt_arr (List.mem_map_of_mem h)
  have hobj : (Json.arr (itemsToJson writeReal items)).nesting <
      (toJson writeReal (.node kind items site)).nesting := by
    rw [toJson]
    exact Json.nesting_lt_obj
      (m := Json.field "children" (.arr (itemsToJson writeReal items))) (.tail _ (.head _))
  rw [itemsToJson_eq] at hobj
  omega

theorem Item.forall_toJson {P : Numeral → Prop} {Q : String → Prop}
    (hnat : ∀ n ≤ maxIndex, P (.ofNat n))
    (hint : ∀ i : Int, -(Numeral.intLimit : Int) ≤ i → i < Numeral.intLimit → P (.ofInt i))
    (hQ : ∀ text, Q (Json.Spelling.encode text)) {item : Item} (h : item.Portable) :
    (Tree.itemToJson writeReal item).Forall P Q := by
  induction item using Item.induction with
  | leaf l =>
    have hl := h.exact l (List.mem_singleton_self l)
    show (l.toJson writeReal).Forall P Q
    cases l with
    | absent => exact Json.forall_null
    | bool b => exact Json.forall_bool b
    | int i => exact Json.forall_ofInt.2 (hint i hl.1 hl.2)
    | real x => exact hl.elim
    | text s => exact Json.forall_ofString.2 (hQ s)
  | tree kind items site ih =>
    have hitems : ∀ item ∈ items, (Tree.itemToJson writeReal item).Forall P Q :=
      fun item hmem => ih item hmem (h.item hmem)
    have hsite : ∀ s ∈ site, s.toJson.Forall P Q :=
      fun s hs => Site.forall_toJson hnat hQ (h.of_mem_site hs).1
    show (Tree.toJson writeReal (.node kind items site)).Forall P Q
    rw [Tree.toJson, Tree.itemsToJson_eq]
    cases site with
    | none => simpa [hQ] using hitems
    | some site => simpa [hQ, hsite site rfl] using hitems

theorem Item.writable_toJson {item : Item} (h : item.Portable) :
    (Tree.itemToJson writeReal item).Writable :=
  Item.forall_toJson (fun n _ => Json.decimalFraction_ofNat n)
    (fun i _ _ => Json.decimalFraction_ofInt i) Json.validSpelling_encode h

theorem Item.ofJsonWithin?_toJson {item : Item} (h : item.Portable) {level : Nat}
    (hlevel : (Tree.itemToJson writeReal item).nesting ≤ level) :
    ofJsonWithin? level (Tree.itemToJson writeReal item) = some item := by
  induction item using Item.induction generalizing level with
  | leaf l =>
    have hl := h.exact l (List.mem_singleton_self l)
    have hleaf : (Leaf.ofJson? (l.toJson writeReal)).map Item.leaf = some (.leaf l) := by
      rw [Leaf.ofJson?_toJson hl, Option.map_some]
    cases level with
    | zero => exact hleaf
    | succ level =>
      simp only [Tree.itemToJson, ofJsonWithin?, Tree.ofFields?_leafToJson _ hl]
      exact hleaf
  | tree kind items site ih =>
    cases level with
    | zero => exact absurd hlevel (Nat.not_succ_le_zero _)
    | succ level =>
      have hitems : ∀ item ∈ items,
          ofJsonWithin? level (Tree.itemToJson writeReal item) = some item := by
        intro item hmem
        have hinside := Tree.nesting_item_lt writeReal kind site hmem
        refine ih item hmem (h.item hmem) ?_
        simp only [Tree.itemToJson] at hlevel
        omega
      simp only [Tree.itemToJson, ofJsonWithin?, Tree.ofFields?_toJson hitems fun s => h.of_mem_site]

theorem Item.ofJson?_toJson {item : Item} (h : item.Portable) {depth : Nat}
    (hdepth : (Tree.itemToJson writeReal item).nesting ≤ depth) :
    ofJson? depth (Tree.itemToJson writeReal item) = some item := by
  have hmeant : (Tree.itemToJson writeReal item).Meant := by
    refine Item.forall_toJson (fun _ => Numeral.isInRange_ofNat)
      (fun _ => Numeral.isInRange_ofInt) (fun text => ?_) h
    rw [Json.MeantSpelling, Json.Spelling.decode?_encode]
    rfl
  rw [ofJson?, if_pos (Json.isReadable_of_nesting_le _ hmeant hdepth)]
  exact Item.ofJsonWithin?_toJson h hdepth

theorem Tree.ofJson?_toJson {t : Tree} (h : (Item.tree t).Portable)
    (hnesting : (t.toJson writeReal).nesting ≤ Json.nestingLimit) :
    ofJson? (t.toJson writeReal) = some t := by
  obtain ⟨kind, items, site⟩ := t
  refine ofFields?_toJson (fun item hmem => ?_) fun s => h.of_mem_site
  have hinside := nesting_item_lt writeReal kind site hmem
  have hlimit : (itemToJson writeReal item).nesting ≤ Json.nestingLimit - 2 := by omega
  exact Item.ofJson?_toJson (h.item hmem) hlimit

/-- A tree without real numbers is read back from its text, whichever way that was written, if its
extents are ordered, its numbers are among those that are read and the text is not nested too
deep. -/
theorem Tree.decodeText_toJson {t : Tree} (hexact : ∀ l ∈ t.leaves, l.IsExact)
    (hfits : ∀ site ∈ t.sites, site.Fits) (hordered : t.Ordered)
    (hnesting : (t.toJson writeReal).nesting ≤ Json.nestingLimit) :
    Json.decodeText ofJson? (t.toJson writeReal).toCompact = .ok t ∧
      Json.decodeText ofJson? (t.toJson writeReal).toIndented = .ok t := by
  have hportable : (Item.tree t).Portable := ⟨hexact, hfits, hordered⟩
  have hread := ofJson?_toJson hportable hnesting
  have hwritable : (t.toJson writeReal).Writable := Item.writable_toJson hportable
  exact ⟨Json.decodeText_eq_ok_iff.2 ⟨_, Json.ofText?_toCompact hwritable, hread⟩,
    Json.decodeText_eq_ok_iff.2 ⟨_, Json.ofText?_toIndented hwritable, hread⟩⟩

def mixedTree : Tree :=
  let span (start stop : Nat) : Span := ⟨⟨start, stop⟩, ⟨1, start⟩, ⟨2, stop⟩⟩
  .node "send" [.leaf .absent, .leaf (.text "null"), .tree (.node "" [] none), .leaf (.bool true),
    .tree (.node "int" [.leaf (.int (-Numeral.intLimit)), .leaf (.int (Numeral.intLimit - 1))]
      (some ⟨span 4 4, none⟩)), .leaf (.text "say \"kind\"\n")]
    (some ⟨span 0 maxIndex, some (span 5 9)⟩)

theorem Tree.decodeText_toJson_mixed :
    let value := mixedTree.toJson fun _ => .null
    ((∀ l ∈ mixedTree.leaves, l.IsExact) ∧ (∀ site ∈ mixedTree.sites, site.Fits) ∧
      mixedTree.Ordered ∧ value.nesting = 6) ∧
    Json.decodeText ofJson? value.toCompact = .ok mixedTree ∧
      Json.decodeText ofJson? value.toIndented = .ok mixedTree := by
  intro value
  have hexact : ∀ l ∈ mixedTree.leaves, l.IsExact := by decide +kernel
  have hfits : ∀ site ∈ mixedTree.sites, site.Fits := by decide +kernel
  have hordered : mixedTree.Ordered := by decide +kernel
  have hnesting : value.nesting = 6 := by rfl
  refine ⟨⟨hexact, hfits, hordered, hnesting⟩, ?_⟩
  exact decodeText_toJson hexact hfits hordered (hnesting.trans_le (by decide))

end Trees

end SyntaxCoverage
