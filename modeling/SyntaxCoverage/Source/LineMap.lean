import SyntaxCoverage.Bounds
import SyntaxCoverage.Source.Position

/-!
The lines of one text. Offsets count characters and a line feed alone ends a line, so a final line
feed opens an empty last line. `position` and `offset?` translate between offsets and positions.
-/

namespace SyntaxCoverage

/-- The offsets at which lines start, in ascending order from 0, and the length of the text. -/
structure LineMap where
  starts : List Nat
  length : Nat
deriving DecidableEq, Inhabited

namespace LineMap

def startsAfter (offset : Nat) : List Char → List Nat
  | [] => []
  | c :: cs =>
    if c = '\n' then (offset + 1) :: startsAfter (offset + 1) cs
    else startsAfter (offset + 1) cs

def ofText (text : String) : LineMap :=
  ⟨0 :: startsAfter 0 text.toList, text.toList.length⟩

def lineCount (m : LineMap) : Nat := m.starts.length

def isEmpty (m : LineMap) : Bool := m.length == 0

/-- The position of an offset; an offset past the end counts as the end. The number of the line wraps
around behind the largest one. -/
def position (m : LineMap) (offset : Nat) : Position :=
  let offset := min offset m.length
  let opened := m.starts.takeWhile (· ≤ offset)
  ⟨opened.length % (maxIndex + 1), offset - opened.getLastD 0⟩

/-- The offset of a position that lies on its line. The last column of a line is that of its line
feed, on the last line that of the end of the text. -/
def offset? (m : LineMap) (p : Position) : Option Nat :=
  match p.line with
  | 0 => none
  | i + 1 =>
    match m.starts[i]? with
    | none => none
    | some start =>
      let offset := start + p.column
      let onLine :=
        match m.starts[i + 1]? with
        | some next => decide (offset < next)
        | none => decide (offset ≤ m.length)
      if onLine then some offset else none

def span (m : LineMap) (e : Extent) : Span := ⟨e, m.position e.start, m.position e.stop⟩

end LineMap

end SyntaxCoverage
