import SyntaxCoverage.Proofs.Grammar
import SyntaxCoverage.Proofs.Readers
import SyntaxCoverage.Proofs.Sites

/-!
Reversed extents are not read. What is read is ordered all through, and a reversed extent in the
place of an extent fails the whole reading, because no other way to read an array or an object is
left where the first one fails. Main statement: `decodeText_refuses_reversed`.
-/

namespace SyntaxCoverage

open Json (HasField)

def Extent.Reversed (value : Json) : Prop :=
  ∃ start stop : Nat, HasField ["start", "end"] 0 (.ofNat start) value ∧
    HasField ["start", "end"] 1 (.ofNat stop) value ∧ stop < start

def Span.Ordered (s : Span) : Prop := s.extent.Ordered

def Span.Reversed (value : Json) : Prop :=
  ∃ part, HasField ["range", "start", "end"] 0 part value ∧ Extent.Reversed part

def Site.Ordered (s : Site) : Prop := ∀ span ∈ s.spans, span.Ordered

def Site.Reversed (value : Json) : Prop :=
  ∃ i part, HasField ["expression", "selector"] i part value ∧ Span.Reversed part

def Tree.Ordered (t : Tree) : Prop := ∀ site ∈ t.sites, site.Ordered

/-- A reversed extent stands in the site of the tree that a value spells, or of a tree inside it. -/
inductive Tree.Reversed : Json → Prop
  | site {value part : Json} (h : HasField fieldNames 2 part value) (hpart : Site.Reversed part) :
    Reversed value
  | item {value item : Json} {items : List Json} (h : HasField fieldNames 1 (.arr items) value)
    (hmem : item ∈ items) (hitem : Reversed item) : Reversed value

def HitRecord.Reversed (value : Json) : Prop :=
  ∃ part, HasField ["range", "hits", "completions"] 0 part value ∧ Extent.Reversed part

def Tally.Ordered (t : Tally) : Prop := ∀ r ∈ t.records, r.extent.Ordered

def Tally.Reversed (value : Json) : Prop :=
  ∃ items, value = .arr items ∧ ∃ item ∈ items, HitRecord.Reversed item

namespace Branch

def Entry.Ordered (e : Entry) : Prop :=
  e.key.span.Ordered ∧ ∀ o ∈ e.outcomes, o.span.Ordered

def Key.Reversed (value : Json) : Prop :=
  ∃ part, HasField ["kind", "id", "span"] 2 part value ∧ Span.Reversed part

def Outcome.Reversed (value : Json) : Prop :=
  ∃ part, HasField ["label", "id", "span", "hits"] 2 part value ∧ Span.Reversed part

inductive Entry.Reversed (value : Json) : Prop
  | key {part : Json} (h : HasField ["key", "outcomes"] 0 part value) (hpart : Key.Reversed part)
  | outcome {item : Json} {items : List Json}
    (h : HasField ["key", "outcomes"] 1 (.arr items) value) (hmem : item ∈ items)
    (hitem : Outcome.Reversed item)

end Branch

def Report.Ordered (r : Report) : Prop := ∀ e ∈ r.branches, e.Ordered

def Report.Reversed (value : Json) : Prop :=
  ∃ items, HasField ["lines", "branches", "node_count"] 1 (.arr items) value ∧
    ∃ item ∈ items, Branch.Entry.Reversed item

instance (s : Span) : Decidable s.Ordered := inferInstanceAs (Decidable s.extent.Ordered)

instance (s : Site) : Decidable s.Ordered :=
  inferInstanceAs (Decidable (∀ span ∈ s.spans, span.Ordered))

instance (t : Tree) : Decidable t.Ordered :=
  inferInstanceAs (Decidable (∀ site ∈ t.sites, site.Ordered))

instance (e : Branch.Entry) : Decidable e.Ordered :=
  inferInstanceAs (Decidable (e.key.span.Ordered ∧ ∀ o ∈ e.outcomes, o.span.Ordered))

instance (r : Report) : Decidable r.Ordered :=
  inferInstanceAs (Decidable (∀ e ∈ r.branches, e.Ordered))

section Extents

theorem Json.toList?_eq_none_of_mem {α : Type} {read : Json → Option α} {items : List Json}
    {item : Json} (hmem : item ∈ items) (h : read item = none) :
    (Json.arr items).toList? read = none := by
  refine Option.eq_none_iff_forall_ne_some.2 fun xs hxs => ?_
  obtain ⟨_, heq, hread⟩ := Json.toList?_eq_some_iff.1 hxs
  obtain rfl := Json.arr.inj heq
  obtain ⟨x, -, hx⟩ := exists_of_forall₂ (forall₂_of_mapM hread) hmem
  rw [h] at hx
  exact nomatch hx

theorem Json.toList?_forall {α : Type} {read : Json → Option α} {P : α → Prop}
    (hread : ∀ {value x}, read value = some x → P x) {value : Json} {xs : List α}
    (h : value.toList? read = some xs) : ∀ x ∈ xs, P x := by
  obtain ⟨items, -, hitems⟩ := Json.toList?_eq_some_iff.1 h
  intro x hx
  obtain ⟨item, -, hitem⟩ := exists_of_forall₂ (forall₂_of_mapM hitems).flip hx
  exact hread hitem

theorem Extent.ordered_of_ofJson? {value : Json} {e : Extent} (h : ofJson? value = some e) :
    e.Ordered := by
  obtain ⟨_, _, -, -, -, hordered⟩ := ofJson?_eq_some_iff.1 h
  exact hordered

theorem Extent.ofJson?_of_reversed {value : Json} (h : Reversed value) : ofJson? value = none := by
  obtain ⟨start, stop, hstart, hstop, hlt⟩ := h
  refine Option.eq_none_iff_forall_ne_some.2 fun e he => ?_
  obtain ⟨a, b, hvalues, ha, hb, hordered⟩ := ofJson?_eq_some_iff.1 he
  obtain rfl : a = .ofNat start := Option.some.inj (Option.some.inj (hstart.eq hvalues))
  obtain rfl : b = .ofNat stop := Option.some.inj (Option.some.inj (hstop.eq hvalues))
  have hfirst := (Json.toNat?_eq_some_iff.1 ha).1
  have hlast := (Json.toNat?_eq_some_iff.1 hb).1
  simp only [Json.ofNat, Json.num.injEq, Numeral.ofNat, Numeral.mk.injEq, true_and, and_true]
    at hfirst hlast
  rw [hfirst, hlast] at hlt
  exact Nat.not_lt.2 hordered hlt

theorem Span.ordered_of_ofJson? {value : Json} {s : Span} (h : ofJson? value = some s) :
    s.Ordered := by
  obtain ⟨_, _, _, -, hextent, -, -⟩ := ofJson?_eq_some_iff.1 h
  exact Extent.ordered_of_ofJson? hextent

theorem Span.ofJson?_of_reversed {value : Json} (h : Reversed value) : ofJson? value = none := by
  obtain ⟨part, hfield, hpart⟩ := h
  refine hfield.none_of_none false (·.bind Extent.ofJson?) (fun s hs => ?_)
    (Extent.ofJson?_of_reversed hpart)
  obtain ⟨_, _, _, hvalues, hextent, -, -⟩ := ofJson?_eq_some_iff.1 hs
  exact ⟨_, some _, _, hvalues, rfl, hextent⟩

theorem Span.ne_null_of_reversed {value : Json} (h : Reversed value) : value ≠ .null := by
  obtain ⟨_, hfield, -⟩ := h
  exact hfield.ne_null

theorem Site.forall_spans_of_ofJson? {P : Span → Prop}
    (hP : ∀ {value s}, Span.ofJson? value = some s → P s) {value : Json} {s : Site}
    (h : ofJson? value = some s) : ∀ span ∈ s.spans, P span := by
  obtain ⟨_, _, -, hwhole, hselector⟩ := ofJson?_eq_some_iff.1 h
  refine List.forall_mem_cons.2 ⟨hP hwhole, fun span hspan => ?_⟩
  rw [Option.mem_def.1 (Option.mem_toList.1 hspan), Json.optional_eq_some_iff] at hselector
  obtain ⟨part, -, -, hpart⟩ := hselector
  exact hP hpart

theorem Site.ordered_of_ofJson? {value : Json} {s : Site} (h : ofJson? value = some s) :
    s.Ordered :=
  forall_spans_of_ofJson? Span.ordered_of_ofJson? h

theorem Site.ofJson?_of_reversed {value : Json} (h : Reversed value) : ofJson? value = none := by
  obtain ⟨i, part, hfield, hpart⟩ := h
  have hnone := Span.ofJson?_of_reversed hpart
  match i with
  | 0 =>
    refine hfield.none_of_none false (·.bind Span.ofJson?) (fun s hs => ?_) hnone
    obtain ⟨_, _, hvalues, hwhole, -⟩ := ofJson?_eq_some_iff.1 hs
    exact ⟨_, some _, _, hvalues, rfl, hwhole⟩
  | 1 =>
    refine hfield.none_of_none false (Json.optional Span.ofJson?) (fun s hs => ?_)
      (Json.optional_of_none (Span.ne_null_of_reversed hpart) hnone)
    obtain ⟨_, _, hvalues, -, hselector⟩ := ofJson?_eq_some_iff.1 hs
    exact ⟨_, _, _, hvalues, rfl, hselector⟩
  | i + 2 =>
    refine Option.eq_none_iff_forall_ne_some.2 fun s hs => ?_
    obtain ⟨_, _, hvalues, -⟩ := ofJson?_eq_some_iff.1 hs
    cases hfield.eq hvalues

theorem Site.ne_null_of_reversed {value : Json} (h : Reversed value) : value ≠ .null := by
  obtain ⟨_, _, hfield, -⟩ := h
  exact hfield.ne_null

end Extents

section Trees

variable {readItem : Json → Option Item} {P : Site → Prop}

theorem Tree.forall_sites_of_ofFields? (hP : ∀ {value s}, Site.ofJson? value = some s → P s)
    (hread : ∀ {value item}, readItem value = some item → ∀ site ∈ itemSites item, P site)
    {value : Json} {t : Tree} (h : ofFields? readItem value = some t) : ∀ site ∈ t.sites, P site := by
  obtain ⟨k, is, s⟩ := t
  obtain ⟨_, items, _, -, -, hitems, hsite⟩ := ofFields?_eq_some_iff.1 h
  refine List.forall_mem_append.2 ⟨fun site hmem => ?_, ?_⟩
  · rw [Option.mem_def.1 (Option.mem_toList.1 hmem), Json.optional_eq_some_iff] at hsite
    obtain ⟨part, -, -, hpart⟩ := hsite
    exact hP hpart
  · have hall : ∀ item ∈ is, ∀ site ∈ itemSites item, P site := by
      cases items with
      | none =>
        obtain rfl := Option.some.inj hitems
        exact fun _ hmem => absurd hmem List.not_mem_nil
      | some items => exact Json.toList?_forall hread hitems
    clear hitems h
    induction is with
    | nil => exact fun _ hmem => absurd hmem List.not_mem_nil
    | cons item is ih =>
      obtain ⟨hitem, his⟩ := List.forall_mem_cons.1 hall
      exact List.forall_mem_append.2 ⟨hitem, ih his⟩

theorem Tree.ofFields?_of_reversed (hread : ∀ item, Reversed item → readItem item = none)
    {value : Json} (h : Reversed value) : ofFields? readItem value = none := by
  cases h with
  | @site _ part hfield hpart =>
    refine hfield.none_of_none false (Json.optional Site.ofJson?) (fun t ht => ?_)
      (Json.optional_of_none (Site.ne_null_of_reversed hpart) (Site.ofJson?_of_reversed hpart))
    obtain ⟨k, is, s⟩ := t
    obtain ⟨_, _, _, hvalues, -, -, hsite⟩ := ofFields?_eq_some_iff.1 ht
    exact ⟨_, _, _, hvalues, rfl, hsite⟩
  | @item _ item items hfield hmem hitem =>
    refine hfield.none_of_none false (Json.defaulting (Json.toList? readItem) []) (fun t ht => ?_)
      (Json.toList?_eq_none_of_mem hmem (hread item hitem))
    obtain ⟨k, is, s⟩ := t
    obtain ⟨_, _, _, hvalues, -, hitems, -⟩ := ofFields?_eq_some_iff.1 ht
    exact ⟨_, _, _, hvalues, rfl, hitems⟩

theorem Leaf.ofJson?_of_hasField {names : List String} {i : Nat} {part value : Json}
    (h : HasField names i part value) : ofJson? value = none := by
  cases h <;> rfl

theorem Leaf.ofJson?_of_reversed {value : Json} (h : Tree.Reversed value) :
    ofJson? value = none := by
  cases h with
  | site h _ => exact ofJson?_of_hasField h
  | item h _ _ => exact ofJson?_of_hasField h

theorem Item.forall_sites_of_ofJsonWithin? (hP : ∀ {value s}, Site.ofJson? value = some s → P s)
    {level : Nat} {value : Json} {item : Item} (h : ofJsonWithin? level value = some item) :
    ∀ site ∈ Tree.itemSites item, P site := by
  have hleaf : ∀ {value item}, (Leaf.ofJson? value).map Item.leaf = some item →
      ∀ site ∈ Tree.itemSites item, P site := by
    intro value item h
    obtain ⟨l, -, rfl⟩ := Option.map_eq_some_iff.1 h
    exact fun _ hmem => absurd hmem List.not_mem_nil
  induction level generalizing value item with
  | zero => exact hleaf h
  | succ level ih =>
    rw [ofJsonWithin?] at h
    split at h
    · next t ht =>
      obtain rfl := Option.some.inj h
      exact Tree.forall_sites_of_ofFields? hP ih ht
    · exact hleaf h

theorem Item.ofJsonWithin?_of_reversed (level : Nat) {value : Json} (h : Tree.Reversed value) :
    ofJsonWithin? level value = none := by
  induction level generalizing value with
  | zero => rw [ofJsonWithin?, Leaf.ofJson?_of_reversed h, Option.map_none]
  | succ level ih =>
    have htree := Tree.ofFields?_of_reversed (fun _ hitem => ih hitem) h
    simp only [ofJsonWithin?, htree, Leaf.ofJson?_of_reversed h, Option.map_none]

theorem Tree.forall_sites_of_ofJson? (hP : ∀ {value s}, Site.ofJson? value = some s → P s)
    {value : Json} {t : Tree} (h : ofJson? value = some t) : ∀ site ∈ t.sites, P site := by
  refine forall_sites_of_ofFields? hP (fun {value item} hitem => ?_) h
  rw [Item.ofJson?, Option.ite_none_right_eq_some] at hitem
  exact Item.forall_sites_of_ofJsonWithin? hP hitem.2

theorem Tree.ofJson?_of_reversed {value : Json} (h : Reversed value) : ofJson? value = none := by
  refine ofFields?_of_reversed (fun item hitem => ?_) h
  rw [Item.ofJson?, Item.ofJsonWithin?_of_reversed _ hitem, ite_self]

end Trees

section Tallies

theorem HitRecord.ordered_of_ofJson? {value : Json} {r : HitRecord} (h : ofJson? value = some r) :
    r.extent.Ordered := by
  obtain ⟨_, _, _, -, hextent, -, -⟩ := ofJson?_eq_some_iff.1 h
  exact Extent.ordered_of_ofJson? hextent

theorem HitRecord.ofJson?_of_reversed {value : Json} (h : Reversed value) :
    ofJson? value = none := by
  obtain ⟨part, hfield, hpart⟩ := h
  refine hfield.none_of_none false (·.bind Extent.ofJson?) (fun r hr => ?_)
    (Extent.ofJson?_of_reversed hpart)
  obtain ⟨_, _, _, hvalues, hextent, -, -⟩ := ofJson?_eq_some_iff.1 hr
  exact ⟨_, some _, _, hvalues, rfl, hextent⟩

namespace Tally

theorem ordered_iff {t : Tally} : t.Ordered ↔ ∀ e ∈ t.counts.entries, e.1.Ordered := by
  rw [Ordered, records, List.forall_mem_map]

theorem Ordered.upsert {t : Tally} (ht : t.Ordered) {e : Extent} (he : e.Ordered)
    (f : Option Counts → Counts) : Ordered { t with counts := t.counts.upsert e f } := by
  rw [ordered_iff] at ht ⊢
  intro entry hentry
  rcases SortedMap.mem_upsertEntries hentry with heq | hmem
  · exact heq ▸ he
  · exact ht entry hmem

theorem Ordered.addRecord {t : Tally} (ht : t.Ordered) {r : HitRecord} (hr : r.extent.Ordered) :
    (t.addRecord r).Ordered := by
  have hhits : (t.addHits r.extent r.hits).Ordered := ht.upsert hr _
  rw [Tally.addRecord]
  split
  · exact hhits.upsert hr _
  · exact hhits

theorem Ordered.addRecords {t : Tally} (ht : t.Ordered) {rs : List HitRecord}
    (hrs : ∀ r ∈ rs, r.extent.Ordered) : (rs.foldl Tally.addRecord t).Ordered := by
  induction rs generalizing t with
  | nil => exact ht
  | cons r rs ih =>
    obtain ⟨hr, hrs⟩ := List.forall_mem_cons.1 hrs
    exact ih (ht.addRecord hr) hrs

theorem ordered_of_ofJson? {value : Json} {t : Tally} (h : ofJson? value = some t) :
    t.Ordered := by
  obtain ⟨rs, hrs, rfl⟩ := Option.map_eq_some_iff.1 h
  have hempty : empty.Ordered := fun _ hmem => absurd hmem List.not_mem_nil
  exact hempty.addRecords (Json.toList?_forall HitRecord.ordered_of_ofJson? hrs)

theorem ofJson?_of_reversed {value : Json} (h : Reversed value) : ofJson? value = none := by
  obtain ⟨items, rfl, item, hmem, hitem⟩ := h
  rw [ofJson?, Json.toList?_eq_none_of_mem hmem (HitRecord.ofJson?_of_reversed hitem),
    Option.map_none]

end Tally

end Tallies

section Reports

namespace Branch

theorem Key.ordered_of_ofJson? {value : Json} {k : Key} (h : ofJson? value = some k) :
    k.span.Ordered := by
  obtain ⟨_, _, _, -, -, -, hspan⟩ := ofJson?_eq_some_iff.1 h
  exact Span.ordered_of_ofJson? hspan

theorem Key.ofJson?_of_reversed {value : Json} (h : Reversed value) : ofJson? value = none := by
  obtain ⟨part, hfield, hpart⟩ := h
  refine hfield.none_of_none false (·.bind Span.ofJson?) (fun k hk => ?_)
    (Span.ofJson?_of_reversed hpart)
  obtain ⟨_, _, _, hvalues, -, -, hspan⟩ := ofJson?_eq_some_iff.1 hk
  exact ⟨_, some _, _, hvalues, rfl, hspan⟩

theorem Outcome.ordered_of_ofJson? {value : Json} {o : Outcome} (h : ofJson? value = some o) :
    o.span.Ordered := by
  obtain ⟨_, _, _, _, -, -, -, hspan, -⟩ := ofJson?_eq_some_iff.1 h
  exact Span.ordered_of_ofJson? hspan

theorem Outcome.ofJson?_of_reversed {value : Json} (h : Reversed value) :
    ofJson? value = none := by
  obtain ⟨part, hfield, hpart⟩ := h
  refine hfield.none_of_none false (·.bind Span.ofJson?) (fun o ho => ?_)
    (Span.ofJson?_of_reversed hpart)
  obtain ⟨_, _, _, _, hvalues, -, -, hspan, -⟩ := ofJson?_eq_some_iff.1 ho
  exact ⟨_, some _, _, hvalues, rfl, hspan⟩

theorem Entry.ordered_of_ofJson? {value : Json} {e : Entry} (h : ofJson? value = some e) :
    e.Ordered := by
  obtain ⟨_, _, -, hkey, houtcomes⟩ := ofJson?_eq_some_iff.1 h
  exact ⟨Key.ordered_of_ofJson? hkey, Json.toList?_forall Outcome.ordered_of_ofJson? houtcomes⟩

theorem Entry.ofJson?_of_reversed {value : Json} (h : Reversed value) : ofJson? value = none := by
  cases h with
  | @key part hfield hpart =>
    refine hfield.none_of_none false (·.bind Key.ofJson?) (fun e he => ?_)
      (Key.ofJson?_of_reversed hpart)
    obtain ⟨_, _, hvalues, hkey, -⟩ := ofJson?_eq_some_iff.1 he
    exact ⟨_, some _, _, hvalues, rfl, hkey⟩
  | @outcome item items hfield hmem hitem =>
    refine hfield.none_of_none false (·.bind (Json.toList? Outcome.ofJson?)) (fun e he => ?_)
      (Json.toList?_eq_none_of_mem hmem (Outcome.ofJson?_of_reversed hitem))
    obtain ⟨_, _, hvalues, -, houtcomes⟩ := ofJson?_eq_some_iff.1 he
    exact ⟨_, some _, _, hvalues, rfl, houtcomes⟩

end Branch

namespace Report

theorem ordered_of_ofJson? {value : Json} {r : Report} (h : ofJson? value = some r) :
    r.Ordered := by
  obtain ⟨_, _, _, -, -, hbranches, -⟩ := ofJson?_eq_some_iff.1 h
  exact Json.toList?_forall Branch.Entry.ordered_of_ofJson? hbranches

theorem ofJson?_of_reversed {value : Json} (h : Reversed value) : ofJson? value = none := by
  obtain ⟨items, hfield, item, hmem, hitem⟩ := h
  refine hfield.none_of_none false (·.bind Branch.entriesOfJson?) (fun r hr => ?_)
    (Json.toList?_eq_none_of_mem hmem (Branch.Entry.ofJson?_of_reversed hitem))
  obtain ⟨_, _, _, hvalues, -, hbranches, -⟩ := ofJson?_eq_some_iff.1 hr
  exact ⟨_, some _, _, hvalues, rfl, hbranches⟩

end Report

end Reports

section Texts

theorem Json.decodeText_eq_ok_iff {α : Type} {read : Json → Option α} {text : String} {x : α} :
    decodeText read text = .ok x ↔ ∃ value, ofText? text = some value ∧ read value = some x := by
  rw [decodeText]
  cases ofText? text with
  | none => simp
  | some value =>
    simp only [Option.some.injEq, exists_eq_left', decode]
    cases read value <;> simp

theorem Json.decodeText_of_none {α : Type} {read : Json → Option α} {text : String} {value : Json}
    (htext : ofText? text = some value) (h : read value = none) :
    decodeText read text = .error .malformedJson := by
  simp only [decodeText, htext, decode, h]

/-- Whatever is read from a text as a tree, a list of records or a report is ordered in all its
places, and a text with a reversed extent in one of these places is malformed as a whole. -/
theorem decodeText_refuses_reversed (text : String) :
    ((∀ t, Json.decodeText Tree.ofJson? text = .ok t → t.Ordered) ∧
      (∀ t, Tally.ofText text = .ok t → t.Ordered) ∧
      ∀ r, Report.ofText text = .ok r → r.Ordered) ∧
    ∀ value, Json.ofText? text = some value →
      (Tree.Reversed value → Json.decodeText Tree.ofJson? text = .error .malformedJson) ∧
      (Tally.Reversed value → Tally.ofText text = .error .malformedJson) ∧
      (Report.Reversed value → Report.ofText text = .error .malformedJson) := by
  refine ⟨⟨fun t ht => ?_, fun t ht => ?_, fun r hr => ?_⟩, fun value htext => ⟨?_, ?_, ?_⟩⟩
  · obtain ⟨_, -, hread⟩ := Json.decodeText_eq_ok_iff.1 ht
    exact Tree.forall_sites_of_ofJson? Site.ordered_of_ofJson? hread
  · obtain ⟨_, -, hread⟩ := Json.decodeText_eq_ok_iff.1 ht
    exact Tally.ordered_of_ofJson? hread
  · obtain ⟨_, -, hread⟩ := Json.decodeText_eq_ok_iff.1 hr
    exact Report.ordered_of_ofJson? hread
  · exact fun h => Json.decodeText_of_none htext (Tree.ofJson?_of_reversed h)
  · exact fun h => Json.decodeText_of_none htext (Tally.ofJson?_of_reversed h)
  · exact fun h => Json.decodeText_of_none htext (Report.ofJson?_of_reversed h)

def spanFields (start stop : Nat) : Json :=
  let position : Json := .arr [.ofNat 1, .ofNat 0]
  .arr [.arr [.ofNat start, .ofNat stop], position, position]

def callFields (start stop : Nat) : Json :=
  .obj [Json.field "kind" (.ofString "begin"), Json.field "children" (.arr [.null,
    .arr [.ofString "send", .arr [], .arr [spanFields 0 9, spanFields start stop]]])]

def recordFields (start stop : Nat) : Json :=
  .arr [.arr [.obj [Json.field "start" (.ofNat start), Json.field "end" (.ofNat stop)], .ofNat 3]]

def reportFields (start stop : Nat) : Json :=
  let outcome : Json := .arr [.ofString "then", .ofNat 4, spanFields start stop, .ofNat 2]
  .arr [.obj [], .arr [.arr [.arr [.ofString "if", .ofNat 0, spanFields 0 9], .arr [outcome]]],
    .ofNat 4]

theorem ofText?_callFields (start stop : Nat) :
    Json.ofText? (callFields start stop).toCompact = some (callFields start stop) :=
  Json.ofText?_toCompact (by simp [callFields, spanFields])

theorem ofText?_recordFields (start stop : Nat) :
    Json.ofText? (recordFields start stop).toCompact = some (recordFields start stop) :=
  Json.ofText?_toCompact (by simp [recordFields])

theorem ofText?_reportFields (start stop : Nat) :
    Json.ofText? (reportFields start stop).toCompact = some (reportFields start stop) :=
  Json.ofText?_toCompact (by simp [reportFields, spanFields])

theorem reversed_spanFields : Span.Reversed (spanFields 7 4) :=
  ⟨_, .item rfl, 7, 4, .item rfl, .item rfl, by decide⟩

theorem reversed_callFields : Tree.Reversed (callFields 7 4) := by
  have hsite : Site.Reversed (.arr [spanFields 0 9, spanFields 7 4]) :=
    ⟨1, _, .item rfl, reversed_spanFields⟩
  have hitem : Tree.Reversed (.arr [.ofString "send", .arr [],
      .arr [spanFields 0 9, spanFields 7 4]]) := .site (.item rfl) hsite
  have hchildren : HasField Tree.fieldNames 1 (.arr [.null, .arr [.ofString "send", .arr [],
      .arr [spanFields 0 9, spanFields 7 4]]]) (callFields 7 4) :=
    .member rfl (Json.Spelling.decode?_encode "children") (.tail _ (.head _))
  exact .item hchildren (.tail _ (.head _)) hitem

theorem reversed_recordFields : Tally.Reversed (recordFields 7 4) := by
  refine ⟨_, rfl, _, List.mem_singleton_self _, _, .item rfl, 7, 4, ?_, ?_, by decide⟩
  · exact .member rfl (Json.Spelling.decode?_encode "start") (.head _)
  · exact .member rfl (Json.Spelling.decode?_encode "end") (.tail _ (.head _))

theorem reversed_reportFields : Report.Reversed (reportFields 7 4) := by
  have houtcome : Branch.Outcome.Reversed (.arr [.ofString "then", .ofNat 4, spanFields 7 4,
      .ofNat 2]) := ⟨_, .item rfl, reversed_spanFields⟩
  exact ⟨_, .item rfl, _, List.mem_singleton_self _, .outcome (.item rfl) (.head _) houtcome⟩

theorem exists_decodeText {α : Type} (read : Json → Option α) (size : α → Nat) (k : Nat)
    {value : Json} (htext : Json.ofText? value.toCompact = some value)
    (hread : (read value).map size = some k) :
    ∃ x, Json.decodeText read value.toCompact = .ok x ∧ size x = k := by
  obtain ⟨x, hx, hsize⟩ := Option.map_eq_some_iff.1 hread
  exact ⟨x, Json.decodeText_eq_ok_iff.2 ⟨_, htext, hx⟩, hsize⟩

theorem decodeText_refuses_reversed_call :
    ((∃ t, Json.decodeText Tree.ofJson? (callFields 4 7).toCompact = .ok t ∧ t.size = 2 ∧
        t.Ordered) ∧
      (∃ t, Tally.ofText (recordFields 4 7).toCompact = .ok t ∧ t.size = 1 ∧ t.Ordered) ∧
      ∃ r, Report.ofText (reportFields 4 7).toCompact = .ok r ∧ r.branches.length = 1 ∧
        r.Ordered) ∧
    (Tree.Reversed (callFields 7 4) ∧
      Json.decodeText Tree.ofJson? (callFields 7 4).toCompact = .error .malformedJson) ∧
    (Tally.Reversed (recordFields 7 4) ∧
      Tally.ofText (recordFields 7 4).toCompact = .error .malformedJson) ∧
    Report.Reversed (reportFields 7 4) ∧
      Report.ofText (reportFields 7 4).toCompact = .error .malformedJson := by
  have htree := decodeText_refuses_reversed (callFields 4 7).toCompact
  have htally := decodeText_refuses_reversed (recordFields 4 7).toCompact
  have hreport := decodeText_refuses_reversed (reportFields 4 7).toCompact
  obtain ⟨t, ht, htsize⟩ :=
    exists_decodeText Tree.ofJson? Tree.size 2 (ofText?_callFields 4 7) (by decide +kernel)
  obtain ⟨u, hu, husize⟩ :=
    exists_decodeText Tally.ofJson? Tally.size 1 (ofText?_recordFields 4 7) (by decide +kernel)
  obtain ⟨r, hr, hrsize⟩ := exists_decodeText Report.ofJson? (·.branches.length) 1
    (ofText?_reportFields 4 7) (by decide +kernel)
  refine ⟨⟨⟨t, ht, htsize, htree.1.1 t ht⟩, ⟨u, hu, husize, htally.1.2.1 u hu⟩,
    r, hr, hrsize, hreport.1.2.2 r hr⟩, ⟨reversed_callFields, ?_⟩, ⟨reversed_recordFields, ?_⟩,
    reversed_reportFields, ?_⟩
  · exact ((decodeText_refuses_reversed _).2 _ (ofText?_callFields 7 4)).1 reversed_callFields
  · exact ((decodeText_refuses_reversed _).2 _ (ofText?_recordFields 7 4)).2.1
      reversed_recordFields
  · exact ((decodeText_refuses_reversed _).2 _ (ofText?_reportFields 7 4)).2.2
      reversed_reportFields

end Texts

end SyntaxCoverage
