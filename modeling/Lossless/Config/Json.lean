import Lossless.Config.Check
import Lossless.Json.Reader
import Lossless.Json.Writer

/-!
# Configurations as JSON

A configuration is written as an object with all its fields, and read from an object
with any of them; a field that is not given keeps its default, and a field with an
unknown name is refused.  A list of values stands for the first fields in order.
-/

namespace Lossless

open Json

/-- The JSON form of a block comment. -/
def BlockComment.write (b : BlockComment) : Writer :=
  .object [("start", .string b.opener), ("end", .string b.closer)]

/-- The fields of a block comment. -/
def BlockComment.shape : Reader.Shape BlockComment where
  fields :=
    [⟨"start", fun b cs => do let (s, rest) ← Reader.string cs; .ok ({ b with opener := s }, rest)⟩,
      ⟨"end", fun b cs => do let (s, rest) ← Reader.string cs; .ok ({ b with closer := s }, rest)⟩]
  complete := true
  closed := false

/-- Reads a block comment. -/
def BlockComment.read : Reader BlockComment :=
  .record BlockComment.shape ⟨"", ""⟩

namespace Config

/-- The JSON form of a list of texts. -/
def writeTexts (texts : List String) : Writer := .list .string texts

/-- The JSON form of a configuration. -/
def write (c : Config) : Writer :=
  .object
    [("keywords", writeTexts c.keywords),
      ("keywords_ci", writeTexts c.foldedKeywords),
      ("punctuation", writeTexts c.punctuation),
      ("operators", writeTexts c.operators),
      ("line_comments", writeTexts c.lineComments),
      ("block_comments", .list BlockComment.write c.blockComments),
      ("string_delimiter", .option .char c.stringDelimiter),
      ("multiline_string_delimiter", .option .string c.multilineDelimiter),
      ("char_delimiter", .option .char c.charDelimiter),
      ("escape_char", .option .char c.escapeChar),
      ("interpolation_char", .option .char c.interpolationChar),
      ("hex_prefixes", writeTexts c.hexPrefixes),
      ("bin_prefixes", writeTexts c.binPrefixes),
      ("oct_prefixes", writeTexts c.octPrefixes),
      ("float_suffix", .option .char c.floatSuffix),
      ("double_suffix", .option .char c.doubleSuffix),
      ("identifier_start_extra", .string c.wordStartExtra),
      ("identifier_part_extra", .string c.wordPartExtra),
      ("retain_whitespace", .bool c.keepWhitespace),
      ("retain_comments", .bool c.keepComments)]

/-- A configuration as a JSON document. -/
def toJson (c : Config) : String :=
  c.write.document

/-- Reads a value and puts it into a configuration. -/
def into {α : Type} (read : Reader α) (put : Config → α → Config) (c : Config) : Reader Config :=
  fun cs => do
    let (a, rest) ← read cs
    .ok (put c a, rest)

/-- Reads a list of texts. -/
def readTexts : Reader (List String) := .list .string

/-- Reads a character that may be missing. -/
def readChar : Reader (Option Char) := .option .char

/-- The fields of a configuration. -/
def shape : Reader.Shape Config where
  fields :=
    [⟨"keywords", into readTexts fun c v => { c with keywords := v }⟩,
      ⟨"keywords_ci", into readTexts fun c v => { c with foldedKeywords := v }⟩,
      ⟨"punctuation", into readTexts fun c v => { c with punctuation := v }⟩,
      ⟨"operators", into readTexts fun c v => { c with operators := v }⟩,
      ⟨"line_comments", into readTexts fun c v => { c with lineComments := v }⟩,
      ⟨"block_comments", into (.list BlockComment.read) fun c v => { c with blockComments := v }⟩,
      ⟨"string_delimiter", into readChar fun c v => { c with stringDelimiter := v }⟩,
      ⟨"multiline_string_delimiter",
        into (.option .string) fun c v => { c with multilineDelimiter := v }⟩,
      ⟨"char_delimiter", into readChar fun c v => { c with charDelimiter := v }⟩,
      ⟨"escape_char", into readChar fun c v => { c with escapeChar := v }⟩,
      ⟨"interpolation_char", into readChar fun c v => { c with interpolationChar := v }⟩,
      ⟨"hex_prefixes", into readTexts fun c v => { c with hexPrefixes := v }⟩,
      ⟨"bin_prefixes", into readTexts fun c v => { c with binPrefixes := v }⟩,
      ⟨"oct_prefixes", into readTexts fun c v => { c with octPrefixes := v }⟩,
      ⟨"float_suffix", into readChar fun c v => { c with floatSuffix := v }⟩,
      ⟨"double_suffix", into readChar fun c v => { c with doubleSuffix := v }⟩,
      ⟨"identifier_start_extra", into .string fun c v => { c with wordStartExtra := v }⟩,
      ⟨"identifier_part_extra", into .string fun c v => { c with wordPartExtra := v }⟩,
      ⟨"retain_whitespace", into .bool fun c v => { c with keepWhitespace := v }⟩,
      ⟨"retain_comments", into .bool fun c v => { c with keepComments := v }⟩]
  complete := false
  closed := true

/-- Reads a configuration from a JSON document without checking it; fields that are not
given are those of `base`. -/
def ofJson (base : Config) (text : String) : Except Fault Config :=
  (Reader.record shape base).document text

end Config

end Lossless
