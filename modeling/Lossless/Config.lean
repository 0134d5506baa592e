/-!
# Lexical configurations

A `Config` says everything that differs between two languages at the level of
tokens: their keywords, their punctuation and operators, how comments, strings and
numbers are written, and whether whitespace and comments are kept.  It is plain
data, and reading tokens never changes it.

The defaults of the fields make up a configuration of their own, with comments,
strings and numbers but without any keyword or operator.  Two families of
languages come ready-made: `Config.curlyBrace` and `Config.assembler`.
-/

namespace Lossless

/-- The two delimiters of a block comment. -/
structure BlockComment where
  opener : String
  closer : String
deriving DecidableEq, Repr

/-- The lexical description of a language. -/
structure Config where
  /-- Words that are keywords exactly as written. -/
  keywords : List String := []
  /-- Words that are keywords in upper and lower case alike. -/
  foldedKeywords : List String := []
  punctuation : List String := []
  operators : List String := []
  /-- What opens a comment that runs to the end of its line. -/
  lineComments : List String := ["//"]
  blockComments : List BlockComment := [⟨"/*", "*/"⟩]
  /-- The delimiter of strings that end on their line. -/
  stringDelimiter : Option Char := some '"'
  /-- The delimiter of strings that may run over many lines. -/
  multilineDelimiter : Option String := some "\"\"\""
  charDelimiter : Option Char := some '\''
  escapeChar : Option Char := some '\\'
  /-- The character that introduces an interpolation inside a string. -/
  interpolationChar : Option Char := some '$'
  hexPrefixes : List String := ["0x", "0X"]
  binPrefixes : List String := ["0b", "0B"]
  octPrefixes : List String := []
  /-- What marks a number as single precision when it stands behind it. -/
  floatSuffix : Option Char := some 'f'
  /-- What marks a number as double precision when it stands behind it. -/
  doubleSuffix : Option Char := none
  /-- Characters besides letters and the underscore that may start a word. -/
  wordStartExtra : String := ""
  /-- Characters besides letters, numerals and the underscore that may go on with a word. -/
  wordPartExtra : String := ""
  keepWhitespace : Bool := true
  keepComments : Bool := true
deriving DecidableEq, Repr

namespace Config

/-- The family of languages with curly braces, strings with interpolation, and
integers in four bases. -/
def curlyBrace : Config where
  keywords :=
    ["fun", "val", "var", "let", "if", "else", "when", "while", "for", "in", "return",
      "break", "continue", "true", "false", "null"]
  punctuation := ["(", ")", "\x7b", "\x7d", "[", "]", ",", ";", "."]
  operators :=
    ["+", "-", "*", "/", "%", "**", "=", "+=", "-=", "*=", "/=", "%=", "==", "!=", "<", "<=",
      ">", ">=", "<<", ">>", "&", "|", "^", "&&", "||", "!", "~", "?", ":", "?:", "++", "--",
      "->"]
  octPrefixes := ["0o", "0O"]

/-- The family of assembly languages: mnemonics in either case, comments that run to
the end of the line, directives that start with a dot, and no interpolation. -/
def assembler : Config where
  foldedKeywords :=
    ["mov", "add", "sub", "mul", "div", "and", "or", "xor", "not", "shl", "shr", "cmp",
      "jmp", "je", "jne", "call", "ret", "push", "pop", "nop", "ld", "st", "li", "la"]
  punctuation := [",", "(", ")", "[", "]", ":"]
  operators := ["+", "-", "*", "/", "%", "<<", ">>", "&", "|", "^", "~"]
  lineComments := [";", "#"]
  blockComments := []
  multilineDelimiter := none
  interpolationChar := none
  octPrefixes := ["0o"]
  floatSuffix := none
  wordStartExtra := "."
  wordPartExtra := ".$"

/-- The configuration with more keywords. -/
def addKeywords (c : Config) (words : List String) : Config :=
  { c with keywords := c.keywords ++ words }

/-- The configuration with more keywords that hold in either case. -/
def addFoldedKeywords (c : Config) (words : List String) : Config :=
  { c with foldedKeywords := c.foldedKeywords ++ words }

/-- The configuration with more punctuation. -/
def addPunctuation (c : Config) (marks : List String) : Config :=
  { c with punctuation := c.punctuation ++ marks }

/-- The configuration with more operators. -/
def addOperators (c : Config) (marks : List String) : Config :=
  { c with operators := c.operators ++ marks }

/-- The configuration that keeps whitespace and comments as said. -/
def withTrivia (c : Config) (whitespace comments : Bool) : Config :=
  { c with keepWhitespace := whitespace, keepComments := comments }

end Config

end Lossless
