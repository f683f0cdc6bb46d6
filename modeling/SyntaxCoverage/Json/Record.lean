import SyntaxCoverage.Json.Spelling
import SyntaxCoverage.Json.Decimal

/-!
Reading records, choices and scalars out of JSON values. A record is an object with named fields,
or an array with the fields in their fixed order, of which the last ones may be missing.
-/

namespace SyntaxCoverage.Json

def ofString (text : String) : Json := .str (Spelling.encode text)

def ofNat (n : Nat) : Json := .num (.ofNat n)

def ofInt (i : Int) : Json := .num (.ofInt i)

def field (name : String) (value : Json) : String × Json := (Spelling.encode name, value)

def toString? : Json → Option String
  | .str spelling => Spelling.decode? spelling
  | _ => none

def toBool? : Json → Option Bool
  | .bool b => some b
  | _ => none

def toNat? (limit : Nat) : Json → Option Nat
  | .num n => n.toNat? limit
  | _ => none

def toList? {α : Type} (read : Json → Option α) : Json → Option (List α)
  | .arr items => items.mapM read
  | _ => none

def optional {α : Type} (read : Json → Option α) : Option Json → Option (Option α)
  | none => some none
  | some .null => some none
  | some value => (read value).map some

/-- A value that stands for `default` when it is absent, and only then. -/
def defaulting {α : Type} (read : Json → Option α) (default : α) : Option Json → Option α
  | none => some default
  | some value => read value

def readKeys : List (String × Json) → Option (List (String × Json))
  | [] => some []
  | (spelling, value) :: rest =>
    match Spelling.decode? spelling, readKeys rest with
    | some key, some rest => some ((key, value) :: rest)
    | _, _ => none

/-- The values of the named fields, `none` for a missing one. In an object no named field may
stand twice, and when `closed` no other field may stand at all. -/
def fields? (names : List String) (closed : Bool) : Json → Option (List (Option Json))
  | .arr items =>
    if names.length < items.length then none
    else some (items.map some ++ List.replicate (names.length - items.length) none)
  | .obj members =>
    match readKeys members with
    | none => none
    | some members =>
      if closed ∧ members.any (fun m => !names.contains m.1) then none
      else if names.any (fun name => decide (1 < (members.filter (·.1 == name)).length)) then none
      else some (names.map fun name => (members.find? (·.1 == name)).map (·.2))
  | _ => none

def choice? : Json → Option (String × Option Json)
  | .str spelling => (Spelling.decode? spelling).map fun name => (name, none)
  | .obj [(spelling, value)] => (Spelling.decode? spelling).map fun name => (name, some value)
  | _ => none

def bareChoice? (value : Json) : Option String :=
  match value.choice? with
  | some (name, none) => some name
  | some (name, some .null) => some name
  | _ => none

mutual

/-- True when all of a value means something: every string can be read, every number is in range,
and arrays and objects are nested at most `depth` deep. -/
def isReadable : Nat → Json → Bool
  | _, .null => true
  | _, .bool _ => true
  | _, .num n => n.isInRange
  | _, .str spelling => (Spelling.decode? spelling).isSome
  | 0, .arr _ => false
  | depth + 1, .arr items => areReadable depth items
  | 0, .obj _ => false
  | depth + 1, .obj members => areReadableMembers depth members

def areReadable : Nat → List Json → Bool
  | _, [] => true
  | depth, item :: items => isReadable depth item && areReadable depth items

def areReadableMembers : Nat → List (String × Json) → Bool
  | _, [] => true
  | depth, (spelling, value) :: members =>
    (Spelling.decode? spelling).isSome && isReadable depth value &&
      areReadableMembers depth members

end

end SyntaxCoverage.Json
