import SyntaxCoverage.Json.Reader
import SyntaxCoverage.Recording
import SyntaxCoverage.Syntax.Construct
import SyntaxCoverage.Text.Quoted

/-!
What can go wrong around the analysis of a unit. The two failures of consistency point at ids or
extents that were assigned wrongly and are fatal; all others concern one input only.
-/

namespace SyntaxCoverage

inductive SettingsError where
  | firstLineZero
  | unknownExtension (extension file : String)
deriving DecidableEq

def SettingsError.message : SettingsError → String
  | .firstLineZero => "first_line is 1-based and must be at least 1"
  | .unknownExtension extension file =>
    "unsupported config extension " ++ Text.quoted extension ++ " for " ++ file

inductive Failure where
  | recording (unit : String) (cause : RecordingError)
  | sharedKey (kind : Branch.Kind) (extent : Extent) (node first second : Nat)
  | repeatedIndex (index : Nat)
  | reversedExtent (start stop : Nat)
  | settings (cause : SettingsError)
  | unreadableFile
  | malformedJson
  | malformedYaml
deriving DecidableEq

namespace Failure

def isFatal : Failure → Bool
  | sharedKey _ _ _ _ _ => true
  | repeatedIndex _ => true
  | _ => false

def message : Failure → String
  | recording unit cause => "Hit-count source failed for " ++ unit ++ ": " ++ cause.message
  | sharedKey kind extent node first second =>
    "Discriminator collision on " ++ kind.tag ++ " " ++ extent.toText ++ ": entries " ++
      toString first ++ " and " ++ toString second ++ " share node " ++ toString node
  | repeatedIndex index => "Branch index " ++ toString index ++ " emitted twice"
  | reversedExtent start stop => "Invalid range " ++ (Extent.mk start stop).toText
  | settings cause => "Invalid configuration: " ++ cause.message
  | unreadableFile => "file cannot be read as text"
  | malformedJson => "malformed JSON"
  | malformedYaml => "malformed YAML"

end Failure

def Extent.ofBounds (start stop : Nat) : Except Failure Extent :=
  match ofBounds? start stop with
  | some e => .ok e
  | none => .error (.reversedExtent start stop)

namespace Json

variable {α : Type}

def decode (read : Json → Option α) (value : Json) : Except Failure α :=
  match read value with
  | some a => .ok a
  | none => .error .malformedJson

def decodeText (read : Json → Option α) (text : String) : Except Failure α :=
  match ofText? text with
  | some value => decode read value
  | none => .error .malformedJson

end Json

end SyntaxCoverage
