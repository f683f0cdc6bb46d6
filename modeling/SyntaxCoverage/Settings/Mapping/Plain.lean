import SyntaxCoverage.Text.Digits

/-!
The values that plain scalars stand for: truth values and natural numbers.
-/

namespace SyntaxCoverage.Mapping

def bool? (text : String) : Option Bool :=
  if text = "true" then some true else if text = "false" then some false else none

def isSign (c : Char) : Bool := c == '+' || c == '-'

def startsWithSign (cs : List Char) : Bool := (cs.head?.map isSign).getD false

/-- True of digits behind a needless zero, which make a text and not a number. -/
def hasLeadingZero (cs : List Char) : Bool :=
  match if startsWithSign cs then cs.drop 1 else cs with
  | '0' :: d :: rest => (d :: rest).all Char.isDigit
  | _ => false

def nat? (text : String) : Option Nat :=
  let signed := text.toList
  let digits := if signed.head? = some '+' then signed.drop 1 else signed
  if startsWithSign digits ∨ hasLeadingZero signed then none
  else
    match digits with
    | '0' :: 'x' :: rest => Text.number? 16 rest
    | '0' :: 'o' :: rest => Text.number? 8 rest
    | '0' :: 'b' :: rest => Text.number? 2 rest
    | _ => Text.number? 10 digits

end SyntaxCoverage.Mapping
