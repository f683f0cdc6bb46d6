import SyntaxCoverage.Settings.Mapping.Scalar

/-!
Mappings in braces, with commas between the pairs and, if wanted, behind the last one. Spaces, line
breaks and comments may stand between the parts, but a key without a question mark has its colon on
its own line.
-/

namespace SyntaxCoverage.Mapping

inductive Place where
  | lineStart
  | inLine
  | inComment
deriving DecidableEq

def skipSpace (place : Place) : List Char → List Char
  | [] => []
  | c :: rest =>
    if isBreak c then skipSpace .lineStart rest
    else if place = .inComment ∨ c = '#' then skipSpace .inComment rest
    else if isBlank c ∨ place = .lineStart ∧ c = orderMark then skipSpace .inLine rest
    else c :: rest

def takeFlowKey (cs : List Char) : Option (String × List Char) :=
  let announced := cs.head? == some '?'
  let start := if announced then skipSpace .inLine (cs.drop 1) else cs
  match takeScalar true start with
  | none => none
  | some (key, rest) =>
    match skipSpace .inLine rest with
    | ':' :: after =>
      if announced ∨ isNearKey start (':' :: after) then some (String.ofList key.text, after)
      else none
    | _ => none

def takeFlowPair (cs : List Char) : Option ((String × String) × List Char) :=
  match takeFlowKey cs with
  | none => none
  | some (key, rest) =>
    (takeValue true (skipSpace .inLine rest)).map fun (value, rest) => ((key, value), rest)

/-- The pairs up to the closing brace and what follows it; the number bounds the pairs. -/
def readFlow : Nat → List Char → Option (Pairs × List Char)
  | 0, _ => none
  | fuel + 1, cs =>
    match skipSpace .inLine cs with
    | '\x7d' :: rest => some ([], rest)
    | cs =>
      match takeFlowPair cs with
      | none => none
      | some (pair, rest) =>
        match skipSpace .inLine rest with
        | '\x7d' :: rest => some ([pair], rest)
        | ',' :: rest => (readFlow fuel rest).map fun (pairs, rest) => (pair :: pairs, rest)
        | _ => none

def readBraces (lines : List (List Char)) : Option Pairs :=
  match skipSpace .lineStart (lines.intersperse ['\n']).flatten with
  | '\x7b' :: rest =>
    match readFlow (rest.length + 1) rest with
    | none => none
    | some (pairs, rest) =>
      match splitLines [] rest with
      | [] => some pairs
      | line :: lines =>
        if isFiller line ∧ lines.all (isEmptyLine none) then some pairs else none
  | _ => none

end SyntaxCoverage.Mapping
