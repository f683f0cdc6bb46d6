import SyntaxCoverage.Proofs.Records
import SyntaxCoverage.Report.Codec
import SyntaxCoverage.Tally

/-!
What each reader takes. A record is read when its fields are there and all of them are read, so
each reader has one lemma that says which fields it took and what it found in them.
-/

namespace SyntaxCoverage

theorem Extent.ofBounds?_eq_some_iff {start stop : Nat} {e : Extent} :
    ofBounds? start stop = some e ↔ e = ⟨start, stop⟩ ∧ e.Ordered := by
  constructor
  · intro h
    have hordered := ordered_of_ofBounds? h
    rw [ofBounds?] at h
    split at h
    · cases h
    · exact ⟨(Option.some.inj h).symm, hordered⟩
  · rintro ⟨rfl, hordered⟩
    exact if_neg (Nat.not_lt.2 hordered)

theorem Extent.ofJson?_eq_some_iff {value : Json} {e : Extent} :
    ofJson? value = some e ↔ ∃ start stop,
      value.fields? ["start", "end"] false = some [some start, some stop] ∧
        start.toNat? maxIndex = some e.start ∧ stop.toNat? maxIndex = some e.stop ∧
        e.Ordered := by
  simp only [ofJson?, Option.bind_eq_bind, Option.bind_eq_some_iff]
  constructor
  · rintro ⟨values, hvalues, h⟩
    split at h
    · next start stop =>
      simp only [Option.bind_eq_some_iff, ofBounds?_eq_some_iff] at h
      obtain ⟨a, ha, b, hb, rfl, hordered⟩ := h
      exact ⟨start, stop, hvalues, ha, hb, hordered⟩
    · exact nomatch h
  · rintro ⟨start, stop, hvalues, hstart, hstop, hordered⟩
    exact ⟨_, hvalues, by simp [hstart, hstop, ofBounds?_eq_some_iff, hordered]⟩

theorem Position.ofJson?_eq_some_iff {value : Json} {p : Position} :
    ofJson? value = some p ↔ ∃ line column,
      value.fields? ["line", "column"] false = some [some line, some column] ∧
        line.toNat? maxIndex = some p.line ∧ column.toNat? maxIndex = some p.column := by
  simp only [ofJson?, Option.bind_eq_bind, Option.bind_eq_some_iff]
  constructor
  · rintro ⟨values, hvalues, h⟩
    split at h
    · simp only [Option.bind_eq_some_iff, Option.pure_def, Option.some.injEq] at h
      obtain ⟨a, ha, b, hb, rfl⟩ := h
      exact ⟨_, _, hvalues, ha, hb⟩
    · exact nomatch h
  · rintro ⟨line, column, hvalues, hline, hcolumn⟩
    exact ⟨_, hvalues, by simp [hline, hcolumn]⟩

theorem Span.ofJson?_eq_some_iff {value : Json} {s : Span} :
    ofJson? value = some s ↔ ∃ extent first last,
      value.fields? ["range", "start", "end"] false = some [some extent, some first, some last] ∧
        Extent.ofJson? extent = some s.extent ∧ Position.ofJson? first = some s.first ∧
        Position.ofJson? last = some s.last := by
  simp only [ofJson?, Option.bind_eq_bind, Option.bind_eq_some_iff]
  constructor
  · rintro ⟨values, hvalues, h⟩
    split at h
    · simp only [Option.bind_eq_some_iff, Option.pure_def, Option.some.injEq] at h
      obtain ⟨a, ha, b, hb, c, hc, rfl⟩ := h
      exact ⟨_, _, _, hvalues, ha, hb, hc⟩
    · exact nomatch h
  · rintro ⟨extent, first, last, hvalues, hextent, hfirst, hlast⟩
    exact ⟨_, hvalues, by simp [hextent, hfirst, hlast]⟩

theorem Site.ofJson?_eq_some_iff {value : Json} {s : Site} :
    ofJson? value = some s ↔ ∃ whole selector,
      value.fields? ["expression", "selector"] false = some [some whole, selector] ∧
        Span.ofJson? whole = some s.whole ∧
        Json.optional Span.ofJson? selector = some s.selector := by
  simp only [ofJson?, Option.bind_eq_bind, Option.bind_eq_some_iff]
  constructor
  · rintro ⟨values, hvalues, h⟩
    split at h
    · simp only [Option.bind_eq_some_iff, Option.pure_def, Option.some.injEq] at h
      obtain ⟨a, ha, b, hb, rfl⟩ := h
      exact ⟨_, _, hvalues, ha, hb⟩
    · exact nomatch h
  · rintro ⟨whole, selector, hvalues, hwhole, hselector⟩
    exact ⟨_, hvalues, by simp [hwhole, hselector]⟩

theorem Tree.ofFields?_eq_some_iff {readItem : Json → Option Item} {value : Json} {k : String}
    {is : List Item} {s : Option Site} :
    ofFields? readItem value = some (.node k is s) ↔ ∃ kind items site,
      value.fields? fieldNames false = some [some kind, items, site] ∧ kind.toString? = some k ∧
        Json.defaulting (Json.toList? readItem) [] items = some is ∧
        Json.optional Site.ofJson? site = some s := by
  simp only [ofFields?, Option.bind_eq_bind, Option.bind_eq_some_iff]
  constructor
  · rintro ⟨values, hvalues, h⟩
    split at h
    · simp only [Option.bind_eq_some_iff, Option.pure_def, Option.some.injEq, node.injEq] at h
      obtain ⟨a, ha, b, hb, c, hc, rfl, rfl, rfl⟩ := h
      exact ⟨_, _, _, hvalues, ha, hb, hc⟩
    · exact nomatch h
  · rintro ⟨kind, items, site, hvalues, hkind, hitems, hsite⟩
    exact ⟨_, hvalues, by simp [hkind, hitems, hsite]⟩

theorem HitRecord.ofJson?_eq_some_iff {value : Json} {r : HitRecord} :
    ofJson? value = some r ↔ ∃ extent hits completions,
      value.fields? ["range", "hits", "completions"] false =
          some [some extent, some hits, completions] ∧
        Extent.ofJson? extent = some r.extent ∧ hits.toNat? maxCount = some r.hits ∧
        Json.optional (Json.toNat? maxCount) completions = some r.completions := by
  simp only [ofJson?, Option.bind_eq_bind, Option.bind_eq_some_iff]
  constructor
  · rintro ⟨values, hvalues, h⟩
    split at h
    · simp only [Option.bind_eq_some_iff, Option.pure_def, Option.some.injEq] at h
      obtain ⟨a, ha, b, hb, c, hc, rfl⟩ := h
      exact ⟨_, _, _, hvalues, ha, hb, hc⟩
    · exact nomatch h
  · rintro ⟨extent, hits, completions, hvalues, hextent, hhits, hcompletions⟩
    exact ⟨_, hvalues, by simp [hextent, hhits, hcompletions]⟩

namespace Branch

theorem Key.ofJson?_eq_some_iff {value : Json} {k : Key} :
    ofJson? value = some k ↔ ∃ kind id span,
      value.fields? ["kind", "id", "span"] false = some [some kind, some id, some span] ∧
        Kind.ofJson? kind = some k.kind ∧ id.toNat? maxIndex = some k.id ∧
        Span.ofJson? span = some k.span := by
  simp only [ofJson?, Option.bind_eq_bind, Option.bind_eq_some_iff]
  constructor
  · rintro ⟨values, hvalues, h⟩
    split at h
    · simp only [Option.bind_eq_some_iff, Option.pure_def, Option.some.injEq] at h
      obtain ⟨a, ha, b, hb, c, hc, rfl⟩ := h
      exact ⟨_, _, _, hvalues, ha, hb, hc⟩
    · exact nomatch h
  · rintro ⟨kind, id, span, hvalues, hkind, hid, hspan⟩
    exact ⟨_, hvalues, by simp [hkind, hid, hspan]⟩

theorem Outcome.ofJson?_eq_some_iff {value : Json} {o : Outcome} :
    ofJson? value = some o ↔ ∃ label id span hits,
      value.fields? ["label", "id", "span", "hits"] false =
          some [some label, some id, some span, some hits] ∧
        Label.ofJson? label = some o.label ∧ id.toNat? maxIndex = some o.id ∧
        Span.ofJson? span = some o.span ∧ hits.toNat? maxCount = some o.hits := by
  simp only [ofJson?, Option.bind_eq_bind, Option.bind_eq_some_iff]
  constructor
  · rintro ⟨values, hvalues, h⟩
    split at h
    · simp only [Option.bind_eq_some_iff, Option.pure_def, Option.some.injEq] at h
      obtain ⟨a, ha, b, hb, c, hc, d, hd, rfl⟩ := h
      exact ⟨_, _, _, _, hvalues, ha, hb, hc, hd⟩
    · exact nomatch h
  · rintro ⟨label, id, span, hits, hvalues, hlabel, hid, hspan, hhits⟩
    exact ⟨_, hvalues, by simp [hlabel, hid, hspan, hhits]⟩

theorem Entry.ofJson?_eq_some_iff {value : Json} {e : Entry} :
    ofJson? value = some e ↔ ∃ key outcomes,
      value.fields? ["key", "outcomes"] false = some [some key, some outcomes] ∧
        Key.ofJson? key = some e.key ∧ outcomes.toList? Outcome.ofJson? = some e.outcomes := by
  simp only [ofJson?, Option.bind_eq_bind, Option.bind_eq_some_iff]
  constructor
  · rintro ⟨values, hvalues, h⟩
    split at h
    · simp only [Option.bind_eq_some_iff, Option.pure_def, Option.some.injEq] at h
      obtain ⟨a, ha, b, hb, rfl⟩ := h
      exact ⟨_, _, hvalues, ha, hb⟩
    · exact nomatch h
  · rintro ⟨key, outcomes, hvalues, hkey, houtcomes⟩
    exact ⟨_, hvalues, by simp [hkey, houtcomes]⟩

end Branch

theorem Report.ofJson?_eq_some_iff {value : Json} {r : Report} :
    ofJson? value = some r ↔ ∃ lines branches nodeCount,
      value.fields? ["lines", "branches", "node_count"] false =
          some [some lines, some branches, some nodeCount] ∧
        LineHits.ofJson? lines = some r.lines ∧
        Branch.entriesOfJson? branches = some r.branches ∧
        nodeCount.toNat? maxCount = some r.nodeCount := by
  simp only [ofJson?, Option.bind_eq_bind, Option.bind_eq_some_iff]
  constructor
  · rintro ⟨values, hvalues, h⟩
    split at h
    · simp only [Option.bind_eq_some_iff, Option.pure_def, Option.some.injEq] at h
      obtain ⟨a, ha, b, hb, c, hc, rfl⟩ := h
      exact ⟨_, _, _, hvalues, ha, hb, hc⟩
    · exact nomatch h
  · rintro ⟨lines, branches, nodeCount, hvalues, hlines, hbranches, hcount⟩
    exact ⟨_, hvalues, by simp [hlines, hbranches, hcount]⟩

end SyntaxCoverage
