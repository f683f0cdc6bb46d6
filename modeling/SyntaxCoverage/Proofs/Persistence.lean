import SyntaxCoverage.Proofs.Magnitude
import SyntaxCoverage.Proofs.Maps
import SyntaxCoverage.Proofs.Reencoding

/-!
Reports that are kept as texts. A report is read back as it was when its extents are ordered and is
refused when one of them is reversed, so nothing is lost of the report of a tree that was itself
read from a text. Main statement: `Report.ofText_toText`.
-/

namespace SyntaxCoverage

open Json (HasField)

section Lines

theorem Json.Spelling.encode_toString (n : Nat) : encode (toString n) = toString n := by
  obtain ⟨ds, hds⟩ := Text.exists_decimal n
  have hdigit : ∀ d < 10, encodeChar (Nat.digitChar d) = [Nat.digitChar d] := by decide
  have hchars : (toString n).toList = ds.map Nat.digitChar := Nat.toList_repr.trans hds.chars
  rw [← String.toList_inj, encode, String.toList_ofList, hchars, List.flatMap_map,
    List.map_eq_flatMap]
  exact List.flatMap_congr fun d hd => hdigit d (hds.small d hd)

theorem LineHits.lineOfKey?_toString {n : Nat} (h : n ≤ maxIndex) :
    lineOfKey? (toString n) = some n := by
  have hend : Json.EndsNumeral [] := fun _ hc => nomatch hc
  have hread := Json.readNumeral_write (.ofNat n) (Json.decimalFraction_ofNat n) hend
  have hchars : (toString n).toList = (Numeral.ofNat n).write ++ [] := by
    rw [List.append_nil]
    simp [Numeral.write, Numeral.ofNat, Numeral.writeFraction, Numeral.writeExponent]
  simp only [lineOfKey?, hchars, hread]
  exact Json.toNat?_ofNat h

theorem LineHits.entriesOfMembers?_field {es : List (Nat × Nat)}
    (h : ∀ e ∈ es, e.1 ≤ maxIndex ∧ e.2 ≤ maxCount) :
    entriesOfMembers? (es.map fun e => Json.field (toString e.1) (.ofNat e.2)) = some es := by
  induction es with
  | nil => rfl
  | cons e es ih =>
    obtain ⟨⟨hline, hcount⟩, hrest⟩ := List.forall_mem_cons.1 h
    rw [List.map_cons, Json.field, Json.Spelling.encode_toString, entriesOfMembers?,
      lineOfKey?_toString hline, Json.toNat?_ofNat hcount, ih hrest]
    rfl

theorem LineHits.ofJson?_toJson {lines : LineHits}
    (h : ∀ e ∈ lines.entries, e.1 ≤ maxIndex ∧ e.2 ≤ maxCount) :
    ofJson? lines.toJson = some lines := by
  rw [toJson, ofJson?, entriesOfMembers?_field h, Option.map_some, SortedMap.ofList_entries]

end Lines

namespace Branch

section Names

theorem Kind.ofJson?_toJson (kind : Kind) : ofJson? kind.toJson = some kind := by
  have htag : ofTag? kind.tag = some kind := by cases kind <;> rfl
  simp [ofJson?, toJson, Json.bareChoice?, Json.choice?, Json.ofString, htag]

def Label.Fits : Label → Prop
  | .clause index => index ≤ maxCount
  | _ => True

instance : DecidablePred Label.Fits
  | .clause _ => inferInstanceAs (Decidable (_ ≤ _))
  | .thenPath => .isTrue trivial
  | .elsePath => .isTrue trivial
  | .body => .isTrue trivial
  | .skip => .isTrue trivial

theorem Label.ofJson?_ofTag {label : Label} (h : ofBareTag? label.tag = some label) :
    ofJson? (.ofString label.tag) = some label := by
  simp [ofJson?, Json.bareChoice?, Json.choice?, Json.ofString, h]

theorem Label.ofJson?_toJson {label : Label} (h : label.Fits) :
    ofJson? label.toJson = some label := by
  cases label with
  | clause index =>
    have hindex := Json.toNat?_ofNat h
    simp [toJson, ofJson?, Json.choice?, Json.field, hindex]
  | thenPath => exact ofJson?_ofTag rfl
  | elsePath => exact ofJson?_ofTag rfl
  | body => exact ofJson?_ofTag rfl
  | skip => exact ofJson?_ofTag rfl

end Names

structure Key.Fits (k : Key) : Prop where
  id : k.id ≤ maxIndex
  span : k.span.Fits

structure Outcome.Fits (o : Outcome) : Prop where
  label : o.label.Fits
  id : o.id ≤ maxIndex
  span : o.span.Fits
  hits : o.hits ≤ maxCount

structure Entry.Fits (e : Entry) : Prop where
  key : e.key.Fits
  outcomes : ∀ o ∈ e.outcomes, o.Fits

instance (k : Key) : Decidable k.Fits :=
  decidable_of_iff (k.id ≤ maxIndex ∧ k.span.Fits)
    ⟨fun h => ⟨h.1, h.2⟩, fun h => ⟨h.id, h.span⟩⟩

instance (o : Outcome) : Decidable o.Fits :=
  decidable_of_iff (o.label.Fits ∧ o.id ≤ maxIndex ∧ o.span.Fits ∧ o.hits ≤ maxCount)
    ⟨fun h => ⟨h.1, h.2.1, h.2.2.1, h.2.2.2⟩, fun h => ⟨h.label, h.id, h.span, h.hits⟩⟩

instance (e : Entry) : Decidable e.Fits :=
  decidable_of_iff (e.key.Fits ∧ ∀ o ∈ e.outcomes, o.Fits)
    ⟨fun h => ⟨h.1, h.2⟩, fun h => ⟨h.key, h.outcomes⟩⟩

end Branch

structure Report.Fits (r : Report) : Prop where
  lines : ∀ e ∈ r.lines.entries, e.1 ≤ maxIndex ∧ e.2 ≤ maxCount
  branches : ∀ e ∈ r.branches, e.Fits
  nodeCount : r.nodeCount ≤ maxCount

instance (r : Report) : Decidable r.Fits :=
  decidable_of_iff ((∀ e ∈ r.lines.entries, e.1 ≤ maxIndex ∧ e.2 ≤ maxCount) ∧
      (∀ e ∈ r.branches, e.Fits) ∧ r.nodeCount ≤ maxCount)
    ⟨fun h => ⟨h.1, h.2.1, h.2.2⟩, fun h => ⟨h.lines, h.branches, h.nodeCount⟩⟩

section Reports

namespace Branch

theorem Key.ofJson?_toJson {k : Key} (h : k.Fits) (hordered : k.span.Ordered) :
    ofJson? k.toJson = some k := by
  have hfields := Json.fields?_members ["kind", "id", "span"]
    [some k.kind.toJson, some (.ofNat k.id), some k.span.toJson] (by decide) rfl false
  exact ofJson?_eq_some_iff.2 ⟨_, _, _, hfields, Kind.ofJson?_toJson k.kind,
    Json.toNat?_ofNat h.id, Span.ofJson?_toJson h.span hordered⟩

theorem Outcome.ofJson?_toJson {o : Outcome} (h : o.Fits) (hordered : o.span.Ordered) :
    ofJson? o.toJson = some o := by
  have hfields := Json.fields?_members ["label", "id", "span", "hits"]
    [some o.label.toJson, some (.ofNat o.id), some o.span.toJson, some (.ofNat o.hits)]
    (by decide) rfl false
  exact ofJson?_eq_some_iff.2 ⟨_, _, _, _, hfields, Label.ofJson?_toJson h.label,
    Json.toNat?_ofNat h.id, Span.ofJson?_toJson h.span hordered, Json.toNat?_ofNat h.hits⟩

theorem Entry.ofJson?_toJson {e : Entry} (h : e.Fits) (hordered : e.Ordered) :
    ofJson? e.toJson = some e := by
  have hfields := Json.fields?_members ["key", "outcomes"]
    [some e.key.toJson, some (.arr (e.outcomes.map Outcome.toJson))] (by decide) rfl false
  have houtcomes : ∀ o ∈ e.outcomes, Outcome.ofJson? o.toJson = some o :=
    fun o ho => Outcome.ofJson?_toJson (h.outcomes o ho) (hordered.2 o ho)
  exact ofJson?_eq_some_iff.2 ⟨_, _, hfields, Key.ofJson?_toJson h.key hordered.1,
    Json.toList?_eq_some_iff.2 ⟨_, rfl, mapM_map_eq_some houtcomes⟩⟩

end Branch

theorem Report.ofJson?_toJson {r : Report} (h : r.Fits) (hordered : r.Ordered) :
    ofJson? r.toJson = some r := by
  have hfields := Json.fields?_members ["lines", "branches", "node_count"]
    [some r.lines.toJson, some (Branch.entriesToJson r.branches), some (.ofNat r.nodeCount)]
    (by decide) rfl false
  have hentries : ∀ e ∈ r.branches, Branch.Entry.ofJson? e.toJson = some e :=
    fun e he => Branch.Entry.ofJson?_toJson (h.branches e he) (hordered e he)
  exact ofJson?_eq_some_iff.2 ⟨_, _, _, hfields, LineHits.ofJson?_toJson h.lines,
    Json.toList?_eq_some_iff.2 ⟨_, rfl, mapM_map_eq_some hentries⟩,
    Json.toNat?_ofNat h.nodeCount⟩

end Reports

section Reversed

theorem Json.hasField_of_mem {names : List String} {i : Nat} {name : String} {part : Json}
    {ms : List (String × Json)} (hname : names[i]? = some name) (h : field name part ∈ ms) :
    HasField names i part (.obj ms) :=
  .member hname (Spelling.decode?_encode name) h

theorem Span.reversed_toJson {s : Span} (h : ¬s.Ordered) : Reversed s.toJson := by
  have hextent : Extent.Reversed s.extent.toJson :=
    ⟨s.extent.start, s.extent.stop, Json.hasField_of_mem rfl (.head _),
      Json.hasField_of_mem rfl (.tail _ (.head _)), Nat.not_le.1 h⟩
  exact ⟨_, Json.hasField_of_mem rfl (.head _), hextent⟩

theorem Branch.Entry.reversed_toJson {e : Entry} (h : ¬e.Ordered) : Reversed e.toJson := by
  by_cases hkey : e.key.span.Ordered
  · have houtcome : ∃ o ∈ e.outcomes, ¬o.span.Ordered := by
      by_contra hnone
      exact h ⟨hkey, fun o ho => by_contra fun hspan => hnone ⟨o, ho, hspan⟩⟩
    obtain ⟨o, ho, hspan⟩ := houtcome
    have hreversed : Outcome.Reversed o.toJson :=
      ⟨_, Json.hasField_of_mem rfl (.tail _ (.tail _ (.head _))), Span.reversed_toJson hspan⟩
    exact .outcome (Json.hasField_of_mem rfl (.tail _ (.head _))) (List.mem_map_of_mem ho) hreversed
  · have hreversed : Key.Reversed e.key.toJson :=
      ⟨_, Json.hasField_of_mem rfl (.tail _ (.tail _ (.head _))), Span.reversed_toJson hkey⟩
    exact .key (Json.hasField_of_mem rfl (.head _)) hreversed

theorem Report.reversed_toJson {r : Report} (h : ¬r.Ordered) : Reversed r.toJson := by
  have hentry : ∃ e ∈ r.branches, ¬e.Ordered := by
    by_contra hnone
    exact h fun e he => by_contra fun hreversed => hnone ⟨e, he, hreversed⟩
  obtain ⟨e, he, hreversed⟩ := hentry
  exact ⟨_, Json.hasField_of_mem rfl (.tail _ (.head _)), _, List.mem_map_of_mem he,
    Branch.Entry.reversed_toJson hreversed⟩

end Reversed

section Texts

theorem LineHits.writable_toJson (lines : LineHits) : lines.toJson.Writable := by
  rw [toJson]
  induction lines.entries with
  | nil => exact Json.forall_obj_nil
  | cons e es ih => simpa using ih

theorem Span.writable_toJson (s : Span) : s.toJson.Writable := by
  simp [toJson, Extent.toJson, Position.toJson]

namespace Branch

theorem Key.writable_toJson (k : Key) : k.toJson.Writable := by
  simp [toJson, Kind.toJson, k.span.writable_toJson]

theorem Label.writable_toJson (label : Label) : label.toJson.Writable := by
  cases label <;> simp [toJson]

theorem Outcome.writable_toJson (o : Outcome) : o.toJson.Writable := by
  simp [toJson, o.label.writable_toJson, o.span.writable_toJson]

theorem Entry.writable_toJson (e : Entry) : e.toJson.Writable := by
  have houtcomes : ∀ o ∈ e.outcomes, o.toJson.Writable := fun o _ => o.writable_toJson
  simpa [toJson, e.key.writable_toJson] using houtcomes

end Branch

theorem Report.writable_toJson (r : Report) : r.toJson.Writable := by
  have hentries : ∀ e ∈ r.branches, e.toJson.Writable := fun e _ => e.writable_toJson
  simpa [toJson, Branch.entriesToJson, r.lines.writable_toJson] using hentries

theorem Report.ofText?_toText (r : Report) : Json.ofText? r.toText = some r.toJson :=
  Json.ofText?_toIndented r.writable_toJson

end Texts

theorem Report.TakenFrom.keeps {p : Report} {t : Tree} (h : p.TakenFrom t)
    (hsites : ∀ site ∈ t.sites, site.Fits ∧ site.Ordered)
    (hids : t.size + Branch.totalOutcomes p.branches ≤ maxIndex + 1) : p.Fits ∧ p.Ordered := by
  have hspan : ∀ {span}, (∃ site ∈ t.sites, site.whole = span) → span.Fits ∧ span.Ordered := by
    rintro _ ⟨site, hsite, rfl⟩
    obtain ⟨hfits, hordered⟩ := hsites site hsite
    exact ⟨hfits _ (List.mem_cons_self ..), hordered _ (List.mem_cons_self ..)⟩
  have hcount : maxIndex + 1 ≤ maxCount := by decide
  refine ⟨⟨?_, ?_, ?_⟩, ?_⟩
  · intro e he
    obtain ⟨⟨site, hsite, hline⟩, hhits⟩ := h.lines e he
    obtain ⟨hfits, -⟩ := hspan ⟨site, hsite, rfl⟩
    exact ⟨hline ▸ hfits.first.line, hhits⟩
  · intro e he
    obtain ⟨hkey, hid⟩ := h.keys e he
    refine ⟨⟨by omega, (hspan hkey).1⟩, fun o ho => ?_⟩
    have hid := h.ids e he o ho
    refine ⟨?_, by omega, (hspan (h.spans e he o ho)).1, h.hits e he o ho⟩
    cases hlabel : o.label with
    | clause index =>
      have hindex := h.labels e he o ho index hlabel
      show index ≤ maxCount
      omega
    | _ => trivial
  · rw [h.nodeCount]
    omega
  · intro e he
    exact ⟨(hspan (h.keys e he).1).2, fun o ho => (hspan (h.spans e he o ho)).2⟩

/-- A report comes back from its text as it was, in the order of its entries and outcomes, if all its
extents are ordered, and does not come back at all if one is reversed. The report of a tree that was
read from a text is one of the former, whenever there were ids for all nodes and outcomes. -/
theorem Report.ofText_toText :
    (∀ r : Report, (r.Fits → r.Ordered → ofText r.toText = .ok r) ∧
      (¬r.Ordered → ofText r.toText = .error .malformedJson)) ∧
    ∀ {text : String} {t : Tree}, Json.decodeText Tree.ofJson? text = .ok t →
      ∀ {s : Settings} {r : Recording}, r.Bounded → ∀ {unit : String} {p : Report},
        s.analyse unit t r = .ok p →
          t.size + Branch.totalOutcomes p.branches ≤ maxIndex + 1 →
            ofText p.toText = .ok p := by
  have hread : ∀ r : Report, r.Fits → r.Ordered → ofText r.toText = .ok r :=
    fun r hfits hordered =>
      Json.decodeText_eq_ok_iff.2 ⟨_, r.ofText?_toText, ofJson?_toJson hfits hordered⟩
  refine ⟨fun r => ⟨hread r, fun hreversed => ?_⟩, ?_⟩
  · exact Json.decodeText_of_none r.ofText?_toText (ofJson?_of_reversed (reversed_toJson hreversed))
  · intro text t htext s r hr unit p hp hids
    obtain ⟨_, -, htree⟩ := Json.decodeText_eq_ok_iff.1 htext
    have hsites : ∀ site ∈ t.sites, site.Fits ∧ site.Ordered :=
      Tree.forall_sites_of_ofJson? (fun hsite =>
        ⟨Site.fits_of_ofJson? hsite, Site.ordered_of_ofJson? hsite⟩) htree
    obtain ⟨hfits, hordered⟩ := (Settings.takenFrom_of_analyse hr hp).keeps hsites hids
    exact hread p hfits hordered

def fullReport (start stop : Nat) : Report :=
  let span (start stop : Nat) : Span := ⟨⟨start, stop⟩, ⟨1, start⟩, ⟨maxIndex, stop⟩⟩
  ⟨SortedMap.ofList [(maxIndex, 0), (3, maxCount)],
    [⟨⟨.caseOf, maxIndex, span 0 9⟩,
        [⟨.clause maxCount, 4, span 5 5, 0⟩, ⟨.elsePath, 2, span start stop, maxCount⟩]⟩,
      ⟨⟨.loopAfter, 1, span 2 4⟩, []⟩], maxCount⟩

theorem Report.ofText_toText_full :
    let r : Recording := ⟨fun e => .ok (some (e.start % 5)), fun _ => .ok none⟩
    let text := (Ledger.guardedLoop.toJson fun _ => .null).toCompact
    ((fullReport 6 6).Fits ∧ (fullReport 6 6).Ordered ∧
      ofText (fullReport 6 6).toText = .ok (fullReport 6 6)) ∧
    (¬(fullReport 7 6).Ordered ∧ ofText (fullReport 7 6).toText = .error .malformedJson) ∧
    Json.decodeText Tree.ofJson? text = .ok Ledger.guardedLoop ∧ r.Bounded ∧
      ∃ p, Settings.default.analyse "loop" Ledger.guardedLoop r = .ok p ∧
        Ledger.guardedLoop.size + Branch.totalOutcomes p.branches = 16 ∧
        ofText p.toText = .ok p := by
  intro r text
  obtain ⟨hkept, hanalysed⟩ := ofText_toText
  have hfits : (fullReport 6 6).Fits := by decide
  have hordered : (fullReport 6 6).Ordered := by decide
  have hreversed : ¬(fullReport 7 6).Ordered := by decide
  have htext : Json.decodeText Tree.ofJson? text = .ok Ledger.guardedLoop := by
    have hportable : (Item.tree Ledger.guardedLoop).Portable :=
      ⟨by decide, by decide, by decide⟩
    exact Json.decodeText_eq_ok_iff.2 ⟨_, Json.ofText?_toCompact (Item.writable_toJson hportable),
      Tree.ofJson?_toJson hportable (by decide)⟩
  have hbounded : r.Bounded := by
    intro e k h
    obtain rfl := Option.some.inj (Except.ok.inj h)
    exact (Nat.le_of_lt (Nat.mod_lt _ (by decide))).trans (by decide)
  have hids : (Settings.default.analyse "loop" Ledger.guardedLoop r).map
      (fun p => Ledger.guardedLoop.size + Branch.totalOutcomes p.branches) = .ok 16 := by
    rw [Settings.analyse_eq]
    rfl
  obtain ⟨p, hp, hids⟩ := map_eq_ok_iff.1 hids
  refine ⟨⟨hfits, hordered, (hkept _).1 hfits hordered⟩, ⟨hreversed, (hkept _).2 hreversed⟩,
    htext, hbounded, p, hp, hids, ?_⟩
  exact hanalysed htext hbounded hp (hids.trans_le (by decide))

end SyntaxCoverage
