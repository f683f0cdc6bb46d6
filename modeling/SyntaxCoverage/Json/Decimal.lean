import SyntaxCoverage.Json.Value
import SyntaxCoverage.Text.Digits

/-!
Real numbers read from JSON numerals. The value is kept as the 64 bits of its binary form. Digits
are gathered into a word of 64 bits for as long as they fit, the others only move the exponent, and
the word is then scaled by one power of ten, so the last bit may be off the nearest value.
-/

namespace SyntaxCoverage

structure Binary64 where
  bits : UInt64
deriving DecidableEq, Inhabited

namespace Binary64

def ofFloat (x : Float) : Binary64 := ⟨x.toBits⟩

def ofWord (n : Nat) : Float := (UInt64.ofNat n).toFloat

def tenTo (k : Nat) : Float := Float.ofScientific 1 false k

def largestPower : Nat := 308

def scaleDown : Nat → Float → Nat → Float
  | 0, _, _ => 0
  | steps + 1, x, k =>
    if k ≤ largestPower then x / tenTo k
    else if x == 0 then x
    else scaleDown steps (x / tenTo largestPower) (k - largestPower)

/-- `word` times ten to the `exponent`, if that is in range. After four steps down nothing is left
of a word of 64 bits. -/
def scale? (word : Nat) (exponent : Int) : Option Float :=
  if exponent < 0 then some (scaleDown 4 (ofWord word) exponent.natAbs)
  else if exponent.natAbs ≤ largestPower then
    let x := ofWord word * tenTo exponent.natAbs
    if x.isInf then none else some x
  else if word = 0 then some 0
  else none

def withSign (negative : Bool) (x : Float) : Binary64 := ofFloat (if negative then -x else x)

end Binary64

namespace Numeral

def wordLimit : Nat := Nat.pow 2 64

def gather (word : Nat) : List Nat → Nat × List Nat
  | [] => (word, [])
  | d :: ds => if word * 10 + d < wordLimit then gather (word * 10 + d) ds else (word, d :: ds)

def wholeDigits (n : Nat) : List Nat := (Nat.toDigits 10 n).filterMap Text.digitValue?

def toBinary64? (n : Numeral) : Option Binary64 :=
  let (word, dropped) := gather 0 (wholeDigits n.whole)
  let (word, ignored) := gather word n.fraction
  let taken := n.fraction.length - ignored.length
  let exponent : Int := dropped.length - taken + n.exponent.getD 0
  (Binary64.scale? word exponent).map (Binary64.withSign n.negative)

/-- The largest magnitude of a negative integer of 64 bits; positive ones stop one earlier. -/
def intLimit : Nat := Nat.pow 2 63

/-- The signed integer of 64 bits that the number spells; a negative zero is not one. -/
def toInt64? (n : Numeral) : Option Int :=
  if ¬ n.isWhole then none
  else if n.negative then
    if 0 < n.whole ∧ n.whole ≤ intLimit then some (-(n.whole : Int)) else none
  else if n.whole < intLimit then some n.whole else none

def isInRange (n : Numeral) : Bool := n.toInt64?.isSome || n.toBinary64?.isSome

end Numeral

end SyntaxCoverage
