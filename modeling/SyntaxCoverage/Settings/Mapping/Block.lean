import SyntaxCoverage.Settings.Mapping.Scalar

/-!
Blocks: the pairs of a mapping on lines of one indentation. A key has its value on its line or alone
on a later line further in. Behind a question mark a key stands alone, and a colon at the
indentation of the block opens the line of its value.
-/

namespace SyntaxCoverage.Mapping

/-- What a block waits for on its next line. A key in double quotes that goes on behind an escaped
line break is open; all else may come after empty lines. -/
inductive Awaiting where
  | entry
  | key
  | openKey (start : List Char)
  | colon (key : String)
  | value (key : String)
deriving DecidableEq

def Awaiting.isOpenKey : Awaiting → Bool
  | .openKey _ => true
  | _ => false

/-- Where a block stands between two lines. Tabs may open empty lines from the column `tabsFrom` on,
as long as there have been no comments since the last plain scalar. -/
structure BlockState where
  awaiting : Awaiting
  tabsFrom : Option Nat

def tabsAfter (indent : Nat) (rest : List Char) : Option Nat :=
  if hasComment rest then none else some (indent + 1)

def takeKey (line : List Char) : Option (String × List Char) :=
  match takeScalar false line with
  | none => none
  | some (key, rest) =>
    match rest.dropWhile isBlank with
    | ':' :: after =>
      if (after.head?.map isSpace).getD true ∧ isNearKey line (':' :: after) then
        some (String.ofList key.text, after)
      else none
    | _ => none

def readValue (indent : Nat) (key : String) (cs : List Char) : Option (Pairs × BlockState) :=
  match takeValue false cs with
  | some (value, rest) =>
    if isFiller rest then some ([(key, value)], ⟨.entry, tabsAfter indent rest⟩) else none
  | none => none

def readLoneKey (indent : Nat) (cs : List Char) : Option (Pairs × BlockState) :=
  match takeScalar false cs with
  | some (key, rest) =>
    if isFiller rest then
      some ([], ⟨.colon (String.ofList key.text),
        if key.quoted then none else tabsAfter indent rest⟩)
    else none
  | none =>
    if cs.head? = some '"' ∧ cs.getLast? = some '\\' then
      some ([], ⟨.openKey (cs ++ ['\n']), none⟩)
    else none

def readLine (indent : Nat) (awaiting : Awaiting) (line : List Char) :
    Option (Pairs × BlockState) :=
  let content := withSpaceForOrderMark line
  let column := indentation content
  let cs := content.drop column
  match awaiting with
  | .entry =>
    if column ≠ indent then none
    else
      match afterMark? ['?'] cs with
      | some rest =>
        if isEmptyLine none rest then some ([], ⟨.key, none⟩)
        else readLoneKey indent (rest.dropWhile (· == ' '))
      | none =>
        match takeKey cs with
        | some (key, rest) =>
          if isFiller rest then some ([], ⟨.value key, none⟩)
          else readValue indent key (rest.dropWhile isBlank)
        | none => none
  | .key => if column ≤ indent then none else readLoneKey indent cs
  | .openKey start => readLoneKey indent (start ++ line)
  | .colon key =>
    if column ≠ indent then none
    else
      match afterMark? [':'] cs with
      | some rest =>
        if isEmptyLine none rest then some ([], ⟨.value key, none⟩)
        else readValue indent key (rest.dropWhile (· == ' '))
      | none => none
  | .value key => if column ≤ indent then none else readValue indent key cs

def readBlock (indent : Nat) (state : BlockState) : List (List Char) → Option Pairs
  | [] => if state.awaiting = .entry then some [] else none
  | line :: lines =>
    if !state.awaiting.isOpenKey && isEmptyLine state.tabsFrom line then
      readBlock indent ⟨state.awaiting, tabsBehind state.tabsFrom line⟩ lines
    else
      match readLine indent state.awaiting line with
      | some (pairs, state) => (readBlock indent state lines).map (pairs ++ ·)
      | none => none

end SyntaxCoverage.Mapping
