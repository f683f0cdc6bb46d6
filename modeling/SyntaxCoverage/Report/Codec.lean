import SyntaxCoverage.Report.Basic
import SyntaxCoverage.Json.Writer
import SyntaxCoverage.Syntax.Codec

/-!
Reports as JSON. `Report.toText` is the persisted form, indented and with lines in ascending
order, and `Report.ofText` reads it back. The key of a line is its number as JSON spells it.
-/

namespace SyntaxCoverage

namespace LineHits

def toJson (lines : LineHits) : Json :=
  .obj (lines.entries.map fun e => Json.field (toString e.1) (.ofNat e.2))

def lineOfKey? (spelling : String) : Option Nat :=
  match Json.readNumeral spelling.toList with
  | some (n, []) => n.toNat? maxIndex
  | _ => none

def entriesOfMembers? : List (String × Json) → Option (List (Nat × Nat))
  | [] => some []
  | (spelling, value) :: members => do
    return (← lineOfKey? spelling, ← value.toNat? maxCount) :: (← entriesOfMembers? members)

/-- The last value of a line counts. -/
def ofJson? : Json → Option LineHits
  | .obj members => (entriesOfMembers? members).map SortedMap.ofList
  | _ => none

end LineHits

namespace Connective

def ofJson? (value : Json) : Option Connective := value.bareChoice?.bind ofName?

end Connective

namespace LoopTest

def ofJson? (value : Json) : Option LoopTest := value.bareChoice?.bind ofName?

end LoopTest

namespace Branch

namespace Kind

def toJson (kind : Kind) : Json := .ofString kind.tag

def ofJson? (value : Json) : Option Kind := value.bareChoice?.bind ofTag?

end Kind

namespace Label

def toJson : Label → Json
  | clause index => .obj [Json.field "when" (.ofNat index)]
  | label => .ofString label.tag

def ofBareTag? (tag : String) : Option Label :=
  [thenPath, elsePath, body, skip].find? fun label => label.tag == tag

def ofJson? (value : Json) : Option Label :=
  match value.choice? with
  | some ("when", some index) => (index.toNat? maxCount).map clause
  | _ => value.bareChoice?.bind ofBareTag?

end Label

namespace Key

def toJson (k : Key) : Json :=
  .obj [Json.field "kind" k.kind.toJson, Json.field "id" (.ofNat k.id),
    Json.field "span" k.span.toJson]

def ofJson? (value : Json) : Option Key := do
  match ← value.fields? ["kind", "id", "span"] false with
  | [some kind, some id, some span] =>
    return ⟨← Kind.ofJson? kind, ← id.toNat? maxIndex, ← Span.ofJson? span⟩
  | _ => none

end Key

namespace Outcome

def toJson (o : Outcome) : Json :=
  .obj [Json.field "label" o.label.toJson, Json.field "id" (.ofNat o.id),
    Json.field "span" o.span.toJson, Json.field "hits" (.ofNat o.hits)]

def ofJson? (value : Json) : Option Outcome := do
  match ← value.fields? ["label", "id", "span", "hits"] false with
  | [some label, some id, some span, some hits] =>
    return ⟨← Label.ofJson? label, ← id.toNat? maxIndex, ← Span.ofJson? span,
      ← hits.toNat? maxCount⟩
  | _ => none

end Outcome

namespace Entry

def toJson (e : Entry) : Json :=
  .obj [Json.field "key" e.key.toJson,
    Json.field "outcomes" (.arr (e.outcomes.map Outcome.toJson))]

def ofJson? (value : Json) : Option Entry := do
  match ← value.fields? ["key", "outcomes"] false with
  | [some key, some outcomes] =>
    return ⟨← Key.ofJson? key, ← outcomes.toList? Outcome.ofJson?⟩
  | _ => none

end Entry

def entriesToJson (es : List Entry) : Json := .arr (es.map Entry.toJson)

def entriesOfJson? (value : Json) : Option (List Entry) := value.toList? Entry.ofJson?

end Branch

namespace Figures

def toJson (f : Figures) : Json :=
  .obj [Json.field "lines_relevant" (.ofNat f.linesRelevant.toNat),
    Json.field "lines_covered" (.ofNat f.linesCovered.toNat),
    Json.field "branches_total" (.ofNat f.branchesTotal.toNat),
    Json.field "branches_covered" (.ofNat f.branchesCovered.toNat)]

def wordOfJson? (value : Json) : Option UInt64 := (value.toNat? maxCount).map .ofNat

def fieldNames : List String :=
  ["lines_relevant", "lines_covered", "branches_total", "branches_covered"]

def ofJson? (value : Json) : Option Figures := do
  match ← value.fields? fieldNames false with
  | [some linesRelevant, some linesCovered, some branchesTotal, some branchesCovered] =>
    return ⟨← wordOfJson? linesRelevant, ← wordOfJson? linesCovered,
      ← wordOfJson? branchesTotal, ← wordOfJson? branchesCovered⟩
  | _ => none

end Figures

namespace Report

def toJson (r : Report) : Json :=
  .obj [Json.field "lines" r.lines.toJson, Json.field "branches" (Branch.entriesToJson r.branches),
    Json.field "node_count" (.ofNat r.nodeCount)]

def ofJson? (value : Json) : Option Report := do
  match ← value.fields? ["lines", "branches", "node_count"] false with
  | [some lines, some branches, some nodeCount] =>
    return ⟨← LineHits.ofJson? lines, ← Branch.entriesOfJson? branches,
      ← nodeCount.toNat? maxCount⟩
  | _ => none

def toText (r : Report) : String := r.toJson.toIndented

def ofText (text : String) : Except Failure Report := Json.decodeText ofJson? text

end Report

end SyntaxCoverage
