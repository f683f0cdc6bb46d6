import SyntaxCoverage.Source.Extent

/-!
Positions in a text, with lines counted from 1 and columns from 0, the spans between two of them,
and the site of a syntax node.
-/

namespace SyntaxCoverage

structure Position where
  line : Nat
  column : Nat
deriving DecidableEq, Inhabited

structure Span where
  extent : Extent
  first : Position
  last : Position
deriving DecidableEq, Inhabited

namespace Span

def firstLine (s : Span) : Nat := s.first.line

def lastLine (s : Span) : Nat := s.last.line

def toText (s : Span) : String :=
  toString s.first.line ++ ":" ++ toString s.first.column ++ "-" ++
    toString s.last.line ++ ":" ++ toString s.last.column

end Span

/-- Where a node stands. The selector is the method name of a call, which tells the dispatch apart
from a receiver that starts at the same offset. -/
structure Site where
  whole : Span
  selector : Option Span
deriving DecidableEq, Inhabited

def Site.extent (s : Site) : Extent := s.whole.extent

end SyntaxCoverage
