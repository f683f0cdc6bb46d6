import SyntaxCoverage.Settings.Mapping.Line
import SyntaxCoverage.Text.Digits

/-!
Scalars: plain, in single quotes, or in double quotes with escapes. A scalar is read from the start
of some characters and leaves the rest of them. Between braces more characters end a plain scalar,
and a scalar in double quotes may go on behind an escaped line break.
-/

namespace SyntaxCoverage.Mapping

abbrev Pairs := List (String × String)

def apostrophe : Char := Char.ofNat 0x27

structure Scalar where
  text : List Char
  quoted : Bool
deriving DecidableEq

/-! ### Plain scalars -/

def flowMarks : List Char := [',', '[', ']', '\x7b', '\x7d']

def openers : List Char :=
  flowMarks ++ ['#', '&', '*', '!', '|', '>', '%', '@', '"', apostrophe, Char.ofNat 0x60]

def opensPlain (c : Char) (rest : List Char) : Bool :=
  if c = '-' ∨ c = '?' ∨ c = ':' then !(rest.head?.map isSpace).getD true
  else !isSpace c && !openers.contains c

/-- True where a plain scalar ends: before a colon with a space behind it, before a comment, and
between braces also before a mark. -/
def endsPlain (flow : Bool) (c : Char) (next : Option Char) : Bool :=
  (flow && flowMarks.contains c) || (c == ':' && (next.map isSpace).getD true) ||
    (isSpace c && next == some '#')

def trimRight (cs : List Char) : List Char := (cs.reverse.dropWhile isSpace).reverse

def takePlain (flow : Bool) (done : List Char) : List Char → List Char × List Char
  | [] => (trimRight done.reverse, [])
  | c :: rest =>
    if endsPlain flow c rest.head? then (trimRight done.reverse, c :: rest)
    else takePlain flow (c :: done) rest

/-! ### Quoted scalars -/

def takeSingleQuoted (done : List Char) : List Char → Option (List Char × List Char)
  | [] => none
  | [c] => if c = apostrophe then some (done.reverse, []) else none
  | c :: d :: rest =>
    if c ≠ apostrophe then takeSingleQuoted (c :: done) (d :: rest)
    else if d = apostrophe then takeSingleQuoted (apostrophe :: done) rest
    else some (done.reverse, d :: rest)

def codePoint? (digits : List Char) : Option Char := do
  let n ← Text.number? 16 digits
  if n.isValidChar then some (Char.ofNat n) else none

def letterEscapes : List (Char × Nat) :=
  [('0', 0x00), ('a', 0x07), ('b', 0x08), ('t', 0x09), ('n', 0x0A), ('v', 0x0B), ('f', 0x0C),
   ('r', 0x0D), ('e', 0x1B), (' ', 0x20), ('"', 0x22), ('/', 0x2F), ('\\', 0x5C), ('N', 0x85),
   ('_', 0xA0), ('L', 0x2028), ('P', 0x2029)]

/-- Reads up to the closing quote. `margin` is true where blanks are dropped, behind an escaped line
break; no other break may stand between the quotes. -/
def takeDoubleQuoted (margin : Bool) (done : List Char) :
    List Char → Option (List Char × List Char)
  | [] => none
  | '"' :: rest => some (done.reverse, rest)
  | '\\' :: 'x' :: a :: b :: rest =>
    match codePoint? [a, b] with
    | some c => takeDoubleQuoted false (c :: done) rest
    | none => none
  | '\\' :: 'u' :: a :: b :: c :: d :: rest =>
    match codePoint? [a, b, c, d] with
    | some c => takeDoubleQuoted false (c :: done) rest
    | none => none
  | '\\' :: 'U' :: a :: b :: c :: d :: e :: f :: g :: h :: rest =>
    match codePoint? [a, b, c, d, e, f, g, h] with
    | some c => takeDoubleQuoted false (c :: done) rest
    | none => none
  | '\\' :: letter :: rest =>
    if isBreak letter then takeDoubleQuoted true done rest
    else
      match letterEscapes.lookup letter with
      | some n => takeDoubleQuoted false (Char.ofNat n :: done) rest
      | none => none
  | c :: rest =>
    if c = '\\' ∨ isBreak c then none
    else if margin ∧ isBlank c then takeDoubleQuoted true done rest
    else takeDoubleQuoted false (c :: done) rest

/-! ### Keys and values -/

def takeScalar (flow : Bool) (cs : List Char) : Option (Scalar × List Char) :=
  match cs with
  | [] => none
  | c :: rest =>
    if c = apostrophe then (takeSingleQuoted [] rest).map fun (text, rest) => (⟨text, true⟩, rest)
    else if c = '"' then
      (takeDoubleQuoted false [] rest).map fun (text, rest) => (⟨text, true⟩, rest)
    else if opensPlain c rest then
      let (text, rest) := takePlain flow [] cs
      if text.any isBreak then none else some (⟨text, false⟩, rest)
    else none

def takeValue (flow : Bool) (cs : List Char) : Option (String × List Char) :=
  match takeScalar flow cs with
  | some (⟨text, false⟩, rest) => some (String.ofList text, rest)
  | _ => none

/-- How far a colon may stand from the start of its key when no question mark announces the key. -/
def keyReach : Nat := 1024

def isNearKey (cs rest : List Char) : Bool :=
  let reach := cs.take (cs.length - rest.length)
  decide (reach.length ≤ keyReach) && !reach.any isBreak

end SyntaxCoverage.Mapping
