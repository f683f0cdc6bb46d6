import SyntaxCoverage.Settings.Basic
import SyntaxCoverage.Settings.Mapping

/-!
Settings from YAML texts and from files. The extension of a file's name says how to read it.
-/

namespace SyntaxCoverage.Settings

def readSetting (s : Settings) (key value : String) : Option Settings :=
  if key = "allow_partial" then
    (Mapping.bool? value).map fun b => { s with allowPartial := b }
  else if key = "first_line" then
    match Mapping.nat? value with
    | some n => if n ≤ maxIndex then some { s with firstLine := n } else none
    | none => none
  else if key = "verify_unique" then
    (Mapping.bool? value).map fun b => { s with verifyUnique := b }
  else if key = "include_skip" then
    (Mapping.bool? value).map fun b => { s with includeSkip := b }
  else none

def readSettings (s : Settings) : Mapping.Pairs → Option Settings
  | [] => some s
  | (key, value) :: pairs =>
    if pairs.any (·.1 == key) then none
    else (readSetting s key value).bind fun s => readSettings s pairs

def ofYamlText (text : String) : Except Failure Settings :=
  match (Mapping.ofText? text).bind (readSettings default) with
  | some s => s.validated
  | none => .error .malformedYaml

def splitExtension (name : List Char) : Option (List Char × List Char) :=
  let extension := name.reverse.takeWhile (· ≠ '.')
  let stem := name.reverse.drop (extension.length + 1)
  if extension.length < name.length ∧ stem ≠ [] then some (stem.reverse, extension.reverse)
  else none

def extensionOf (name : String) : String :=
  match splitExtension name.toList with
  | some (_, extension) => String.ofList extension
  | none => ""

def ofFile (name : String) (content : Option ByteArray) : Except Failure Settings :=
  match content.bind String.fromUTF8? with
  | none => .error .unreadableFile
  | some text =>
    let extension := extensionOf name
    if extension = "json" then ofJsonText text
    else if extension = "yaml" ∨ extension = "yml" then ofYamlText text
    else .error (.settings (.unknownExtension extension name))

end SyntaxCoverage.Settings
