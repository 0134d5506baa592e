import Lossless.Config
import Lossless.Text.Letters
import Lossless.Text.Lowercase
import Lossless.Token.Kind

/-!
# Rules of a lexer

`Rules` is a configuration made ready for reading: every text in it is a list of
characters, keywords that hold in either case are in lower case, and the prefixes
of the number bases are one list.

A text often begins with several entries of a list at once, as `==` begins with
both `=` and `==`.  `longest?` settles this: **the longest entry wins**, and of two
equally long ones, which are then the same text, the earlier.
-/

namespace Lossless

/-- The longest of the given entries with which a text begins.  An empty entry never
counts, and of entries of one length the first is taken. -/
def longest? {α : Type} (key : α → List Char) (cs : List Char) : List α → Option α
  | [] => none
  | a :: as =>
    if !(key a).isEmpty && (key a).isPrefixOf cs then
      match longest? key cs as with
      | some b => if (key a).length < (key b).length then some b else some a
      | none => some a
    else
      longest? key cs as

/-- A configuration in the form in which the lexer asks about it. -/
structure Rules where
  keywords : List (List Char)
  /-- In lower case. -/
  foldedKeywords : List (List Char)
  punctuation : List (List Char)
  operators : List (List Char)
  lineComments : List (List Char)
  /-- Openers with their closers; of two with the same opener the first holds. -/
  blockComments : List (List Char × List Char)
  stringDelimiter : Option Char
  multilineDelimiter : Option (List Char)
  charDelimiter : Option Char
  escapeChar : Option Char
  interpolationChar : Option Char
  /-- Prefixes that start with a digit; of two equal ones the first holds. -/
  numberPrefixes : List (List Char × IntegerBase)
  floatSuffix : Option Char
  doubleSuffix : Option Char
  wordStartExtra : List Char
  wordPartExtra : List Char

namespace Rules

/-- The prefixes of a base that start with a digit.  Numbers are only looked for at a
digit, so no other prefix can be met. -/
def digitPrefixes (base : IntegerBase) (texts : List String) : List (List Char × IntegerBase) :=
  (texts.map (·.toList)).filterMap fun p =>
    match p with
    | c :: _ => if c.isDigit then some (p, base) else none
    | [] => none

/-- The rules of a configuration.  Of two block comments with one opener the one
configured last holds; of equal number prefixes the hexadecimal one, then the binary. -/
def ofConfig (c : Config) : Rules where
  keywords := c.keywords.map (·.toList)
  foldedKeywords := c.foldedKeywords.map fun w => Text.lowercase w.toList
  punctuation := c.punctuation.map (·.toList)
  operators := c.operators.map (·.toList)
  lineComments := c.lineComments.map (·.toList)
  blockComments := (c.blockComments.map fun b => (b.opener.toList, b.closer.toList)).reverse
  stringDelimiter := c.stringDelimiter
  multilineDelimiter := c.multilineDelimiter.map (·.toList)
  charDelimiter := c.charDelimiter
  escapeChar := c.escapeChar
  interpolationChar := c.interpolationChar
  numberPrefixes :=
    digitPrefixes .hex c.hexPrefixes ++ digitPrefixes .bin c.binPrefixes
      ++ digitPrefixes .oct c.octPrefixes
  floatSuffix := c.floatSuffix
  doubleSuffix := c.doubleSuffix
  wordStartExtra := c.wordStartExtra.toList
  wordPartExtra := c.wordPartExtra.toList

/-- Whether a word may start with a character. -/
def startsWord (r : Rules) (c : Char) : Bool :=
  Text.isAlphabetic c || c == '_' || r.wordStartExtra.contains c

/-- Whether a word may go on with a character. -/
def continuesWord (r : Rules) (c : Char) : Bool :=
  Text.isAlphanumeric c || c == '_' || r.wordPartExtra.contains c

/-- Whether a word is a keyword, as written or in lower case. -/
def isKeyword (r : Rules) (word : List Char) : Bool :=
  r.keywords.contains word
    || (!r.foldedKeywords.isEmpty && r.foldedKeywords.contains (Text.lowercase word))

end Rules

end Lossless
