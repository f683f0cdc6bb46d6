import SyntaxCoverage.Failure
import SyntaxCoverage.Syntax.Codec

/-!
The settings of an analysis. Missing settings have their defaults, unknown ones are refused.
-/

namespace SyntaxCoverage

/-- Without `allowPartial` a line counts as missed as soon as one node on it never ran. Lines
before `firstLine` are not reported. `includeSkip` reports loops that were entered without running
their body. -/
structure Settings where
  allowPartial : Bool
  firstLine : Nat
  verifyUnique : Bool
  includeSkip : Bool
deriving DecidableEq, Inhabited

namespace Settings

def default : Settings := ⟨true, 1, true, true⟩

def validate (s : Settings) : Except Failure Unit :=
  if s.firstLine = 0 then .error (.settings .firstLineZero) else .ok ()

def validated (s : Settings) : Except Failure Settings := s.validate.map fun _ => s

def fieldNames : List String := ["allow_partial", "first_line", "verify_unique", "include_skip"]

def toJson (s : Settings) : Json :=
  .obj [Json.field "allow_partial" (.bool s.allowPartial),
    Json.field "first_line" (.ofNat s.firstLine),
    Json.field "verify_unique" (.bool s.verifyUnique),
    Json.field "include_skip" (.bool s.includeSkip)]

def ofJson? (value : Json) : Option Settings := do
  match ← value.fields? fieldNames true with
  | [allowPartial, firstLine, verifyUnique, includeSkip] =>
    return ⟨← Json.defaulting Json.toBool? default.allowPartial allowPartial,
      ← Json.defaulting (Json.toNat? maxIndex) default.firstLine firstLine,
      ← Json.defaulting Json.toBool? default.verifyUnique verifyUnique,
      ← Json.defaulting Json.toBool? default.includeSkip includeSkip⟩
  | _ => none

def ofJsonText (text : String) : Except Failure Settings := do
  (← Json.decodeText ofJson? text).validated

def boolText (b : Bool) : String := if b then "true" else "false"

def toText (s : Settings) : String :=
  "AnalysisConfig \x7b allow_partial: " ++ boolText s.allowPartial ++
    ", first_line: " ++ toString s.firstLine ++
    ", verify_unique: " ++ boolText s.verifyUnique ++
    ", include_skip: " ++ boolText s.includeSkip ++ " \x7d"

def stageTexts (s : Settings) : List String :=
  ["LineProjector", "BranchAnalyser"].map fun stage =>
    stage ++ " \x7b config: " ++ s.toText ++ ", .. \x7d"

end Settings

end SyntaxCoverage
