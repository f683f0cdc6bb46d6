import SyntaxCoverage.Settings.Mapping.Block
import SyntaxCoverage.Settings.Mapping.Braces
import SyntaxCoverage.Settings.Mapping.Plain

/-!
Flat mappings in the YAML style: one level of keys, each with a plain scalar on one line. A text
holds one document, which is a block of lines, a mapping in braces, or empty. `---` may open the
document and `...` may close it. Anything else, quoted and nested values included, is refused.
-/

namespace SyntaxCoverage.Mapping

def startMark : List Char := ['-', '-', '-']

def endMark : List Char := ['.', '.', '.']

def isClosing (line : List Char) : Bool :=
  match afterMark? endMark line with
  | some rest => isFiller rest
  | none => isEmptyLine none line

def readContent (lines : List (List Char)) : Option Pairs :=
  match lines.dropWhile (isEmptyLine none) with
  | [] => some []
  | line :: lines =>
    let content := withSpaceForOrderMark line
    if (content.dropWhile (· == ' ')).head? = some '\x7b' then readBraces (line :: lines)
    else readBlock (indentation content) ⟨.entry, none⟩ (line :: lines)

/-- The pairs of the lines before the closing mark. A closing mark needs content before it or an
opening mark. -/
def readBody (isClosed : Bool) (lines : List (List Char)) : Option Pairs :=
  match lines.dropWhile (isEmptyLine none) with
  | [] => if isClosed then none else some []
  | line :: lines =>
    if lines.any fun line => (afterMark? startMark line).isSome then none
    else
      match afterMark? startMark line with
      | none => readContent (line :: lines)
      | some rest => if isFiller rest then readContent lines else readBraces (rest :: lines)

def readDocument (lines : List (List Char)) : Option Pairs :=
  let isOpen (line : List Char) : Bool := (afterMark? endMark line).isNone
  let closing := lines.dropWhile isOpen
  if closing.all isClosing then readBody (!closing.isEmpty) (lines.takeWhile isOpen) else none

def ofText? (text : String) : Option Pairs :=
  let cs := text.toList
  if cs.all isAllowed then readDocument (splitLines [] cs) else none

end SyntaxCoverage.Mapping
