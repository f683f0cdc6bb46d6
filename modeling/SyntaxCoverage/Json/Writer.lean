import SyntaxCoverage.Json.Value

/-!
Writing JSON values, either without any blanks or with one item a line, indented by two spaces a
level, and a space after each colon.
-/

namespace SyntaxCoverage

namespace Numeral

def writeExponent : Option Int → List Char
  | none => []
  | some e => 'e' :: (if e < 0 then '-' :: Nat.toDigits 10 e.natAbs else Nat.toDigits 10 e.natAbs)

def writeFraction : List Nat → List Char
  | [] => []
  | digits => '.' :: digits.map Nat.digitChar

def write (n : Numeral) : List Char :=
  (if n.negative then ['-'] else []) ++ Nat.toDigits 10 n.whole ++ writeFraction n.fraction ++
    writeExponent n.exponent

end Numeral

namespace Json

def writeString (spelling : String) : List Char := '"' :: spelling.toList ++ ['"']

def newLine (level : Nat) : List Char := '\n' :: List.replicate (2 * level) ' '

mutual

def writeCompact : Json → List Char
  | .null => ['n', 'u', 'l', 'l']
  | .bool true => ['t', 'r', 'u', 'e']
  | .bool false => ['f', 'a', 'l', 's', 'e']
  | .num n => n.write
  | .str spelling => writeString spelling
  | .arr [] => ['[', ']']
  | .arr (item :: items) => '[' :: writeCompact item ++ writeCompactItems items
  | .obj [] => ['\x7b', '\x7d']
  | .obj ((key, value) :: members) =>
    '\x7b' :: writeString key ++ ':' :: writeCompact value ++ writeCompactMembers members

def writeCompactItems : List Json → List Char
  | [] => [']']
  | item :: items => ',' :: writeCompact item ++ writeCompactItems items

def writeCompactMembers : List (String × Json) → List Char
  | [] => ['\x7d']
  | (key, value) :: members =>
    ',' :: writeString key ++ ':' :: writeCompact value ++ writeCompactMembers members

end

mutual

def writeIndented (level : Nat) : Json → List Char
  | .null => ['n', 'u', 'l', 'l']
  | .bool true => ['t', 'r', 'u', 'e']
  | .bool false => ['f', 'a', 'l', 's', 'e']
  | .num n => n.write
  | .str spelling => writeString spelling
  | .arr [] => ['[', ']']
  | .arr (item :: items) =>
    '[' :: newLine (level + 1) ++ writeIndented (level + 1) item ++
      writeIndentedItems level items
  | .obj [] => ['\x7b', '\x7d']
  | .obj ((key, value) :: members) =>
    '\x7b' :: newLine (level + 1) ++ writeString key ++ ':' :: ' ' ::
      writeIndented (level + 1) value ++ writeIndentedMembers level members

def writeIndentedItems (level : Nat) : List Json → List Char
  | [] => newLine level ++ [']']
  | item :: items =>
    ',' :: newLine (level + 1) ++ writeIndented (level + 1) item ++
      writeIndentedItems level items

def writeIndentedMembers (level : Nat) : List (String × Json) → List Char
  | [] => newLine level ++ ['\x7d']
  | (key, value) :: members =>
    ',' :: newLine (level + 1) ++ writeString key ++ ':' :: ' ' ::
      writeIndented (level + 1) value ++ writeIndentedMembers level members

end

def toCompact (value : Json) : String := String.ofList value.writeCompact

def toIndented (value : Json) : String := String.ofList (value.writeIndented 0)

end Json

end SyntaxCoverage
