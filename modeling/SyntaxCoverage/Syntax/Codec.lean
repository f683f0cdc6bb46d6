import SyntaxCoverage.Bounds
import SyntaxCoverage.Json.Record
import SyntaxCoverage.Json.Reader
import SyntaxCoverage.Syntax.Construct
import SyntaxCoverage.Syntax.Tree

/-!
Extents, positions, spans, sites and trees as JSON values. No reversed extent is read, and the
items of a tree are read only from values all of which mean something, nested at most 127 deep
counted from the outside.
-/

namespace SyntaxCoverage

namespace Extent

def toJson (e : Extent) : Json :=
  .obj [Json.field "start" (.ofNat e.start), Json.field "end" (.ofNat e.stop)]

def ofJson? (value : Json) : Option Extent := do
  match ← value.fields? ["start", "end"] false with
  | [some start, some stop] =>
    ofBounds? (← start.toNat? maxIndex) (← stop.toNat? maxIndex)
  | _ => none

end Extent

namespace Position

def toJson (p : Position) : Json :=
  .obj [Json.field "line" (.ofNat p.line), Json.field "column" (.ofNat p.column)]

def ofJson? (value : Json) : Option Position := do
  match ← value.fields? ["line", "column"] false with
  | [some line, some column] =>
    return ⟨← line.toNat? maxIndex, ← column.toNat? maxIndex⟩
  | _ => none

end Position

namespace Span

def toJson (s : Span) : Json :=
  .obj [Json.field "range" s.extent.toJson, Json.field "start" s.first.toJson,
    Json.field "end" s.last.toJson]

def ofJson? (value : Json) : Option Span := do
  match ← value.fields? ["range", "start", "end"] false with
  | [some extent, some first, some last] =>
    return ⟨← Extent.ofJson? extent, ← Position.ofJson? first, ← Position.ofJson? last⟩
  | _ => none

end Span

namespace Site

def toJson (s : Site) : Json :=
  .obj (Json.field "expression" s.whole.toJson ::
    s.selector.toList.map fun selector => Json.field "selector" selector.toJson)

def ofJson? (value : Json) : Option Site := do
  match ← value.fields? ["expression", "selector"] false with
  | [some whole, selector] =>
    return ⟨← Span.ofJson? whole, ← Json.optional Span.ofJson? selector⟩
  | _ => none

end Site

namespace Leaf

/-- `writeReal` says how a real number is written. -/
def toJson (writeReal : Binary64 → Json) : Leaf → Json
  | .absent => .null
  | .bool b => .bool b
  | .int i => .ofInt i
  | .real x => writeReal x
  | .text s => .ofString s

def ofJson? : Json → Option Leaf
  | .null => some .absent
  | .bool b => some (.bool b)
  | .num n =>
    match n.toInt64? with
    | some i => some (.int i)
    | none => n.toBinary64?.map .real
  | .str spelling => (Json.Spelling.decode? spelling).map .text
  | .arr _ => none
  | .obj _ => none

end Leaf

namespace Tree

mutual

def toJson (writeReal : Binary64 → Json) : Tree → Json
  | .node kind items site =>
    .obj (Json.field "kind" (.ofString kind) ::
      Json.field "children" (.arr (itemsToJson writeReal items)) ::
      site.toList.map fun site => Json.field "location" site.toJson)

def itemToJson (writeReal : Binary64 → Json) : Item → Json
  | .tree t => t.toJson writeReal
  | .leaf l => l.toJson writeReal

def itemsToJson (writeReal : Binary64 → Json) : List Item → List Json
  | [] => []
  | item :: items => itemToJson writeReal item :: itemsToJson writeReal items

end

def fieldNames : List String := ["kind", "children", "location"]

def ofFields? (readItem : Json → Option Item) (value : Json) : Option Tree := do
  match ← value.fields? fieldNames false with
  | [some kind, items, site] =>
    return .node (← kind.toString?) (← Json.defaulting (Json.toList? readItem) [] items)
      (← Json.optional Site.ofJson? site)
  | _ => none

end Tree

namespace Item

/-- A tree if the value is one, else a leaf; the number bounds the levels of trees. -/
def ofJsonWithin? : Nat → Json → Option Item
  | 0, value => (Leaf.ofJson? value).map .leaf
  | level + 1, value =>
    match Tree.ofFields? (ofJsonWithin? level) value with
    | some t => some (.tree t)
    | none => (Leaf.ofJson? value).map .leaf

def ofJson? (depth : Nat) (value : Json) : Option Item :=
  if value.isReadable depth then ofJsonWithin? depth value else none

end Item

def Json.nestingLimit : Nat := 127

def Leaf.ofReadable? (value : Json) : Option Leaf :=
  if value.isReadable Json.nestingLimit then ofJson? value else none

/-- The tree that a value spells; its items stand two levels inside. -/
def Tree.ofJson? (value : Json) : Option Tree :=
  ofFields? (Item.ofJson? (Json.nestingLimit - 2)) value

end SyntaxCoverage
