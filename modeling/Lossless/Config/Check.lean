import Lossless.Config
import Lossless.Text.Blank
import Lossless.Text.Quoted

/-!
# Sound configurations

Some configurations cannot be honoured: an empty operator would match anywhere, and
a number prefix without a digit in front could never be met.  `Config.check` finds
the first such `Defect`.  Reading tokens works under any configuration; the check is
for configurations that people write.
-/

namespace Lossless

/-- A reason why a configuration cannot be honoured. -/
inductive Defect where
  /-- A list, given by its name, has an empty text in it. -/
  | emptyEntry (list : String)
  /-- A block comment has an empty opener or closer. -/
  | emptyCommentDelimiter
  /-- A number prefix does not start with a digit. -/
  | prefixWithoutDigit (text : String)
  /-- A delimiter, the escape character or the interpolation mark is a blank. -/
  | blankDelimiter
  /-- The escape character is also a delimiter. -/
  | escapeIsDelimiter
  /-- The delimiter of multi-line strings is empty or has a blank in it. -/
  | unusableMultilineDelimiter
deriving DecidableEq, Repr

/-- A defect in words. -/
def Defect.message : Defect → String
  | emptyEntry list => list ++ " contains an empty string"
  | emptyCommentDelimiter => "block comment delimiters must not be empty"
  | prefixWithoutDigit text => "numeric prefix " ++ Text.quote text ++ " must start with a digit"
  | blankDelimiter => "delimiters and escape characters must not be whitespace"
  | escapeIsDelimiter => "escape character must differ from the string and char delimiters"
  | unusableMultilineDelimiter =>
    "multi-line string delimiter must be non-empty and contain no whitespace"

namespace Config

/-- The lists of a configuration that may not hold an empty text, with their names. -/
def namedLists (c : Config) : List (String × List String) :=
  [("keywords", c.keywords), ("keywords_ci", c.foldedKeywords), ("punctuation", c.punctuation),
    ("operators", c.operators), ("line_comments", c.lineComments),
    ("hex_prefixes", c.hexPrefixes), ("bin_prefixes", c.binPrefixes),
    ("oct_prefixes", c.octPrefixes)]

/-- Whether a text starts with a decimal digit. -/
def startsWithDigit (s : String) : Bool :=
  match s.toList with
  | c :: _ => c.isDigit
  | [] => false

/-- The first list with an empty text in it. -/
def emptyEntry? (c : Config) : Option Defect :=
  (c.namedLists.find? (·.2.any (·.isEmpty))).map fun l => .emptyEntry l.1

/-- A block comment with an empty delimiter. -/
def emptyCommentDelimiter? (c : Config) : Option Defect :=
  if c.blockComments.any fun b => b.opener.isEmpty || b.closer.isEmpty then
    some .emptyCommentDelimiter
  else
    none

/-- The first number prefix that does not start with a digit. -/
def prefixWithoutDigit? (c : Config) : Option Defect :=
  ((c.hexPrefixes ++ c.binPrefixes ++ c.octPrefixes).find? (!startsWithDigit ·)).map
    .prefixWithoutDigit

/-- A blank where a single character delimits, escapes or introduces. -/
def blankDelimiter? (c : Config) : Option Defect :=
  if [c.stringDelimiter, c.charDelimiter, c.escapeChar, c.interpolationChar].any
      (·.any Text.isBlank) then
    some .blankDelimiter
  else
    none

/-- An escape character that is also a delimiter. -/
def escapeIsDelimiter? (c : Config) : Option Defect :=
  if c.escapeChar.isSome
      && (c.escapeChar == c.stringDelimiter || c.escapeChar == c.charDelimiter) then
    some .escapeIsDelimiter
  else
    none

/-- A delimiter of multi-line strings that is empty or has a blank in it. -/
def unusableMultilineDelimiter? (c : Config) : Option Defect :=
  if c.multilineDelimiter.any fun d => d.isEmpty || d.toList.any Text.isBlank then
    some .unusableMultilineDelimiter
  else
    none

/-- The first defect of a configuration, if it has any. -/
def defect? (c : Config) : Option Defect :=
  c.emptyEntry? <|> c.emptyCommentDelimiter? <|> c.prefixWithoutDigit? <|> c.blankDelimiter?
    <|> c.escapeIsDelimiter? <|> c.unusableMultilineDelimiter?

/-- The configuration itself if it can be honoured, and its first defect otherwise. -/
def check (c : Config) : Except Defect Config :=
  match c.defect? with
  | some d => .error d
  | none => .ok c

end Config

end Lossless
