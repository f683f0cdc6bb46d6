import SyntaxCoverage.Json.Value
import SyntaxCoverage.Text.Digits

/-!
How text is spelled between the quotes of a JSON string. `encode` escapes what has to be escaped
and `decode?` reads every escape, refusing half of a surrogate pair.
-/

namespace SyntaxCoverage.Json.Spelling

def hexDigit (n : Nat) : Char :=
  if n < 10 then Char.ofNat ('0'.toNat + n) else Char.ofNat ('a'.toNat + (n - 10))

def letterOf? (c : Char) : Option Char :=
  if c = '"' then some '"'
  else if c = '\\' then some '\\'
  else if c.toNat = 0x08 then some 'b'
  else if c.toNat = 0x0C then some 'f'
  else if c = '\n' then some 'n'
  else if c = '\r' then some 'r'
  else if c = '\t' then some 't'
  else none

def ofLetter? (c : Char) : Option Char :=
  if c = '"' ∨ c = '\\' ∨ c = '/' then some c
  else if c = 'b' then some (Char.ofNat 0x08)
  else if c = 'f' then some (Char.ofNat 0x0C)
  else if c = 'n' then some '\n'
  else if c = 'r' then some '\r'
  else if c = 't' then some '\t'
  else none

def encodeChar (c : Char) : List Char :=
  match letterOf? c with
  | some letter => ['\\', letter]
  | none =>
    if c.toNat < 0x20 then
      ['\\', 'u', '0', '0', hexDigit (c.toNat / 16), hexDigit (c.toNat % 16)]
    else [c]

def encode (text : String) : String := String.ofList (text.toList.flatMap encodeChar)

def unit? (a b c d : Char) : Option Nat := Text.number? 16 [a, b, c, d]

def isHighSurrogate (u : Nat) : Bool := decide (0xD800 ≤ u) && decide (u < 0xDC00)

def isLowSurrogate (u : Nat) : Bool := decide (0xDC00 ≤ u) && decide (u < 0xE000)

/-- The characters spelled by a list, put after those of `done`, which come in reverse. A high
surrogate is kept in `high` until the low one that has to follow. -/
def decodeChars (high : Option Nat) (done : List Char) : List Char → Option (List Char)
  | [] => if high.isSome then none else some done.reverse
  | '\\' :: 'u' :: a :: b :: c :: d :: rest =>
    match unit? a b c d with
    | none => none
    | some u =>
      match high with
      | some h =>
        if isLowSurrogate u then
          decodeChars none
            (Char.ofNat (0x10000 + (h - 0xD800) * 0x400 + (u - 0xDC00)) :: done) rest
        else none
      | none =>
        if isHighSurrogate u then decodeChars (some u) done rest
        else if isLowSurrogate u then none
        else decodeChars none (Char.ofNat u :: done) rest
  | '\\' :: letter :: rest =>
    match ofLetter? letter with
    | none => none
    | some c => if high.isSome then none else decodeChars none (c :: done) rest
  | c :: rest =>
    if high.isSome ∨ c = '\\' then none else decodeChars none (c :: done) rest

def decode? (spelling : String) : Option String :=
  (decodeChars none [] spelling.toList).map String.ofList

end SyntaxCoverage.Json.Spelling
