/-!
JSON texts as they are spelled. A number keeps its digits and a string keeps its escapes, because
what they mean, and whether they mean anything, depends on where they stand: a value that nobody
reads only has to be well formed.
-/

namespace SyntaxCoverage

/-- A number as written. `fraction` holds the digits after the point and is empty when there is no
point, `exponent` is the signed number after the `e`. -/
structure Numeral where
  negative : Bool
  whole : Nat
  fraction : List Nat
  exponent : Option Int
deriving DecidableEq, Inhabited

/-- `str` and the keys of `obj` hold the characters between the quotes, escapes unread. -/
inductive Json where
  | null
  | bool (b : Bool)
  | num (n : Numeral)
  | str (spelling : String)
  | arr (items : List Json)
  | obj (members : List (String × Json))
deriving Inhabited

namespace Numeral

def ofNat (n : Nat) : Numeral := ⟨false, n, [], none⟩

def ofInt (i : Int) : Numeral := ⟨decide (i < 0), i.natAbs, [], none⟩

def isWhole (n : Numeral) : Bool := n.fraction.isEmpty && n.exponent.isNone

def toNat? (limit : Nat) (n : Numeral) : Option Nat :=
  if n.isWhole ∧ n.negative = false ∧ n.whole ≤ limit then some n.whole else none

end Numeral

end SyntaxCoverage
