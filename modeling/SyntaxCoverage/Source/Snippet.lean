import SyntaxCoverage.Source.LineMap
import SyntaxCoverage.Text.Quoted

/-!
Places named by quoting the text found there. Occurrences of a snippet are taken leftmost first and
do not overlap; the empty snippet occurs at every offset, the end included.
-/

namespace SyntaxCoverage

inductive SnippetError where
  | absent (snippet : String) (nth : Nat)
  | absentAfter (snippet start : String)
deriving DecidableEq

def SnippetError.message : SnippetError → String
  | .absent snippet nth =>
    "occurrence " ++ toString nth ++ " of " ++ Text.quoted snippet ++ " not found in fixture"
  | .absentAfter snippet start =>
    Text.quoted snippet ++ " not found after " ++ Text.quoted start

structure SourceText where
  text : String
  lines : LineMap
deriving DecidableEq

namespace SourceText

def ofString (text : String) : SourceText := ⟨text, .ofText text⟩

/-- The offsets at which `snippet` occurs in the characters from `offset` on, of which the first
`taken` belong to an occurrence already found. -/
def occurrencesFrom (snippet : List Char) (offset taken : Nat) : List Char → List Nat
  | [] => if snippet.isEmpty then [offset] else []
  | c :: cs =>
    match taken with
    | k + 1 => occurrencesFrom snippet (offset + 1) k cs
    | 0 =>
      if snippet.isPrefixOf (c :: cs) then
        offset :: occurrencesFrom snippet (offset + 1) (snippet.length - 1) cs
      else occurrencesFrom snippet (offset + 1) 0 cs

def occurrences (snippet : String) (text : List Char) : List Nat :=
  occurrencesFrom snippet.toList 0 0 text

def find? (t : SourceText) (snippet : String) (nth : Nat) : Option Span :=
  (occurrences snippet t.text.toList)[nth]?.map fun start =>
    t.lines.span ⟨start, start + snippet.toList.length⟩

def spanOf (t : SourceText) (snippet : String) (nth : Nat) : Except SnippetError Span :=
  match t.find? snippet nth with
  | some span => .ok span
  | none => .error (.absent snippet nth)

/-- The span from the first occurrence of `start` to the end of the first occurrence of `stop` that
begins no earlier. -/
def spanBetween (t : SourceText) (start stop : String) : Except SnippetError Span := do
  let opening ← t.spanOf start 0
  let offset := opening.extent.start
  match occurrences stop (t.text.toList.drop offset) with
  | [] => throw (.absentAfter stop start)
  | distance :: _ =>
    return t.lines.span ⟨offset, offset + distance + stop.toList.length⟩

end SourceText

end SyntaxCoverage
