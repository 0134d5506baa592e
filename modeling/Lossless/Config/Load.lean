import Lossless.Config.Json
import Lossless.Config.Yaml

/-!
# Loading configurations

A configuration is read from JSON or YAML and checked.  A file says by its extension
which of the two it holds, and is looked at only after it could be read.
-/

namespace Lossless

/-- Why a file could not be read. -/
inductive ReadFailure where
  | missing
  | notText
deriving DecidableEq, Repr

/-- The failure in the words of the system. -/
def ReadFailure.message : ReadFailure → String
  | missing => "No such file or directory (os error 2)"
  | notText => "stream did not contain valid UTF-8"

/-- The contents of files by path. -/
abbrev Files := String → Except ReadFailure String

/-- Why a configuration could not be loaded. -/
inductive LoadError where
  | unreadable (path : String) (failure : ReadFailure)
  | json (fault : Json.Fault)
  | yaml
  /-- The extension of the path, if it has one, stands for no format. -/
  | unsupported (extension : Option String)
  | defective (defect : Defect)
deriving DecidableEq, Repr

namespace LoadError

/-- Whether another failure lies behind this one. -/
def hasCause : LoadError → Bool
  | unreadable _ _ => true
  | json _ => true
  | yaml => true
  | unsupported _ => false
  | defective _ => false

/-- What is wrong with a JSON text. -/
def faultMessage : Json.Fault → String
  | .cutOff => "unexpected end of input"
  | .malformed => "malformed text"
  | .mismatch => "unexpected value"

/-- The error in words. -/
def message : LoadError → String
  | unreadable path failure => "Cannot read config " ++ path ++ ": " ++ failure.message
  | json fault => "Invalid JSON config: " ++ faultMessage fault
  | yaml => "Invalid YAML config: malformed text or unexpected value"
  | unsupported extension =>
    "Unsupported config format: " ++ extension.getD "<none>" ++ " (expected json, yaml or yml)"
  | defective defect => "Invalid config: " ++ defect.message

end LoadError

/-- The last component of a path. -/
def fileName (path : String) : List Char :=
  let slash (c : Char) : Bool := c == '/'
  ((path.toList.reverse.dropWhile slash).takeWhile (!slash ·)).reverse

/-- The extension of a path: what stands behind the last dot of its last component,
unless that dot is its first character. -/
def extension? (path : String) : Option String :=
  let name := fileName path
  let ending := name.reverse.takeWhile (· != '.')
  if ending.length + 1 < name.length && name != ['.', '.'] then
    some (String.ofList ending.reverse)
  else
    none

namespace Config

/-- The configuration, if it can be honoured. -/
def checked (c : Config) : Except LoadError Config :=
  c.check.mapError .defective

/-- Reads a configuration from JSON and checks it. -/
def fromJson (text : String) : Except LoadError Config := do
  let c ← (ofJson { } text).mapError LoadError.json
  c.checked

/-- Reads a configuration from YAML and checks it. -/
def fromYaml (text : String) : Except LoadError Config :=
  match ofYaml? text with
  | none => .error .yaml
  | some c => c.checked

/-- Loads a configuration from a file. -/
def load (files : Files) (path : String) : Except LoadError Config :=
  match files path with
  | .error failure => .error (.unreadable path failure)
  | .ok text =>
    match extension? path with
    | some "json" => fromJson text
    | some "yaml" => fromYaml text
    | some "yml" => fromYaml text
    | other => .error (.unsupported other)

end Config

end Lossless
