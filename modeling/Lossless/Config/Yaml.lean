import Lossless.Config
import Lossless.Yaml.Reader

/-!
# Configurations as YAML

A configuration is a map with any of its fields; unlike in JSON, a list of them does
not stand for it.  A scalar stands for the text it is
written with, whether it looks like a number or not; only where a field may be
missing do `null` and its other spellings stand for nothing, and only where a truth
value is asked for do `true` and `false` stand for one.  A place at which nothing is
written is an empty list or an empty map where one of these is asked for.
-/

namespace Lossless

open Yaml

namespace Yaml.Node

/-- The text of a scalar. -/
def text? : Node → Option String
  | scalar _ text => some text
  | _ => none

/-- The items of a list. -/
def items? : Node → Option (List Node)
  | list items => some items
  | scalar true "" => some []
  | _ => none

/-- The truth value that a plain scalar stands for. -/
def bool? : Node → Option Bool
  | scalar true text =>
    if ["true", "True", "TRUE"].contains text then some true
    else if ["false", "False", "FALSE"].contains text then some false
    else none
  | _ => none

/-- Whether a plain scalar stands for nothing. -/
def isNull : Node → Bool
  | scalar true text => ["", "~", "null", "Null", "NULL"].contains text
  | _ => false

/-- The texts of a list of scalars. -/
def texts? (n : Node) : Option (List String) :=
  n.items?.bind fun items => items.mapM text?

/-- A text of exactly one character. -/
def char? (n : Node) : Option Char :=
  match n.text?.map (·.toList) with
  | some [c] => some c
  | _ => none

/-- A value that may be missing. -/
def optional? {α : Type} (read? : Node → Option α) (n : Node) : Option (Option α) :=
  if n.isNull then some none else (read? n).map some

end Yaml.Node

/-- The block comment that a node stands for: a map with a start and an end. -/
def BlockComment.ofYaml? : Node → Option BlockComment
  | .map members => do
    let keys ← members.mapM fun m => m.1.text?
    let value? (key : String) : Option String :=
      if keys.count key == 1 then
        (members.find? fun m => m.1.text? == some key).bind fun m => m.2.text?
      else
        none
    some ⟨← value? "start", ← value? "end"⟩
  | _ => none

namespace Config

/-- The configuration with the field of the given name read from a node. -/
def setField? (c : Config) (name : String) (n : Node) : Option Config :=
  match name with
  | "keywords" => n.texts?.map fun v => { c with keywords := v }
  | "keywords_ci" => n.texts?.map fun v => { c with foldedKeywords := v }
  | "punctuation" => n.texts?.map fun v => { c with punctuation := v }
  | "operators" => n.texts?.map fun v => { c with operators := v }
  | "line_comments" => n.texts?.map fun v => { c with lineComments := v }
  | "block_comments" =>
    (n.items?.bind (·.mapM BlockComment.ofYaml?)).map fun v => { c with blockComments := v }
  | "string_delimiter" => (n.optional? Node.char?).map fun v => { c with stringDelimiter := v }
  | "multiline_string_delimiter" =>
    (n.optional? Node.text?).map fun v => { c with multilineDelimiter := v }
  | "char_delimiter" => (n.optional? Node.char?).map fun v => { c with charDelimiter := v }
  | "escape_char" => (n.optional? Node.char?).map fun v => { c with escapeChar := v }
  | "interpolation_char" =>
    (n.optional? Node.char?).map fun v => { c with interpolationChar := v }
  | "hex_prefixes" => n.texts?.map fun v => { c with hexPrefixes := v }
  | "bin_prefixes" => n.texts?.map fun v => { c with binPrefixes := v }
  | "oct_prefixes" => n.texts?.map fun v => { c with octPrefixes := v }
  | "float_suffix" => (n.optional? Node.char?).map fun v => { c with floatSuffix := v }
  | "double_suffix" => (n.optional? Node.char?).map fun v => { c with doubleSuffix := v }
  | "identifier_start_extra" => n.text?.map fun v => { c with wordStartExtra := v }
  | "identifier_part_extra" => n.text?.map fun v => { c with wordPartExtra := v }
  | "retain_whitespace" => n.bool?.map fun v => { c with keepWhitespace := v }
  | "retain_comments" => n.bool?.map fun v => { c with keepComments := v }
  | _ => none

/-- The configuration with several fields read, none of them twice. -/
def setFields? (c : Config) : List (String × Node) → Option Config
  | [] => some c
  | (name, n) :: rest =>
    if rest.any (·.1 == name) then
      none
    else
      (c.setField? name n).bind fun c => c.setFields? rest

/-- The configuration that a node stands for: a map of fields, or nothing. -/
def ofNode? (n : Node) : Option Config :=
  match n with
  | .map members => do
    let fields ← members.mapM fun m => m.1.text?.map fun key => (key, m.2)
    setFields? { } fields
  | .scalar true "" => some { }
  | _ => none

/-- Reads a configuration from a YAML document without checking it. -/
def ofYaml? (text : String) : Option Config :=
  (Yaml.read? text).bind ofNode?

end Config

end Lossless
