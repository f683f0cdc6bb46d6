/-!
The lines of a mapping in the YAML style: which characters may stand in it, where its lines end, and
which lines hold nothing but blanks and a comment. A tab is a blank, but not everywhere at the start
of a line.
-/

namespace SyntaxCoverage.Mapping

def isBreak (c : Char) : Bool :=
  c == '\n' || c == '\r' || c.toNat == 0x85 || c.toNat == 0x2028 || c.toNat == 0x2029

def isBlank (c : Char) : Bool := c == ' ' || c == '\t'

def isSpace (c : Char) : Bool := isBlank c || isBreak c

def isAllowed (c : Char) : Bool :=
  let n := c.toNat
  c == '\t' || isBreak c || (0x20 ≤ n && n ≤ 0x7E) || (0xA0 ≤ n && n ≤ 0xFFFD) || 0x10000 ≤ n

def splitLines (line : List Char) : List Char → List (List Char)
  | [] => [line.reverse]
  | '\r' :: '\n' :: rest => line.reverse :: splitLines [] rest
  | c :: rest =>
    if isBreak c then line.reverse :: splitLines [] rest else splitLines (c :: line) rest

def indentation (line : List Char) : Nat := (line.takeWhile (· == ' ')).length

def isFiller (cs : List Char) : Bool :=
  match cs.dropWhile isBlank with
  | [] => true
  | c :: _ => c == '#'

/-! ### Lines without content -/

def orderMark : Char := Char.ofNat 0xFEFF

/-- A byte order mark at the start of a line takes up a column, as a space does. -/
def withSpaceForOrderMark : List Char → List Char
  | [] => []
  | c :: rest => if c = orderMark then ' ' :: rest else c :: rest

def opensWithoutTab (tabsFrom : Option Nat) (line : List Char) : Bool :=
  let blanks := line.takeWhile isBlank
  !((tabsFrom.map blanks.take).getD blanks).contains '\t'

/-- Where tabs may open a line: nowhere behind a byte order mark. -/
def tabsIn (tabsFrom : Option Nat) (line : List Char) : Option Nat :=
  if line.head? = some orderMark then none else tabsFrom

def isEmptyLine (tabsFrom : Option Nat) (line : List Char) : Bool :=
  let content := withSpaceForOrderMark line
  opensWithoutTab (tabsIn tabsFrom line) content && isFiller content

def hasComment (cs : List Char) : Bool := (cs.dropWhile isBlank).head? == some '#'

/-- Where tabs may open the lines behind an empty line: nowhere behind a comment. -/
def tabsBehind (tabsFrom : Option Nat) (line : List Char) : Option Nat :=
  if hasComment (withSpaceForOrderMark line) then none else tabsIn tabsFrom line

/-! ### Marks -/

def afterMark? (mark line : List Char) : Option (List Char) :=
  let rest := line.drop mark.length
  if mark.isPrefixOf line ∧ (rest.head?.map isBlank).getD true then some rest else none

end SyntaxCoverage.Mapping
