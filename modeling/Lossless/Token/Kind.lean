/-!
# Kinds of tokens

Every token has a kind from one fixed taxonomy, whatever the language it is read
from; languages tell their own keywords, operators and punctuation apart by text.

A string literal is not one token.  It is an opening delimiter, pieces of content
and interpolation, and a closing delimiter, so that code inside an interpolation
is made of ordinary tokens.
-/

namespace Lossless

/-- The base in which an integer literal is written. -/
inductive IntegerBase where
  | dec
  | hex
  | bin
  | oct
deriving DecidableEq, Repr

/-- The precision of a floating-point literal. -/
inductive Precision where
  | float
  | double
deriving DecidableEq, Repr

/-- Whether a string literal must end on its line or may run over many lines. -/
inductive StringStyle where
  | singleLine
  | multiLine
deriving DecidableEq, Repr

/-- The pieces that a string literal is made of. -/
inductive StringPart where
  /-- The opening delimiter. -/
  | opening (style : StringStyle)
  /-- The closing delimiter. -/
  | closing (style : StringStyle)
  /-- A run of plain content. -/
  | basic
  /-- An escape character and the character it escapes. -/
  | escaped
  /-- The mark in front of an interpolated name. -/
  | nameMark
  /-- The mark and the brace that open an interpolation block. -/
  | blockOpen
  /-- The brace that closes an interpolation block. -/
  | blockClose
deriving DecidableEq, Repr

/-- What a literal token stands for. -/
inductive LiteralKind where
  | integer (base : IntegerBase)
  | floating (precision : Precision)
  | char
  | string (part : StringPart)
deriving DecidableEq, Repr

/-- The kind of a token. -/
inductive TokenKind where
  | whitespace
  | linebreak
  | comment
  | identifier
  | keyword
  | punctuation
  | operator
  | literal (literal : LiteralKind)
  /-- Text that no rule can classify. -/
  | error
  /-- The end of the input. -/
  | eof
deriving DecidableEq, Repr

/-- The name of a base. -/
def IntegerBase.name : IntegerBase → String
  | dec => "Dec"
  | hex => "Hex"
  | bin => "Bin"
  | oct => "Oct"

/-- The name of a precision. -/
def Precision.name : Precision → String
  | float => "Float"
  | double => "Double"

/-- The dotted name of a string piece. -/
def StringPart.name : StringPart → String
  | opening .singleLine => "SlStart"
  | closing .singleLine => "SlEnd"
  | opening .multiLine => "MlStart"
  | closing .multiLine => "MlEnd"
  | basic => "Content.Basic"
  | escaped => "Content.Escaped"
  | nameMark => "Interp.Single"
  | blockOpen => "Interp.BlockStart"
  | blockClose => "Interp.BlockEnd"

/-- The dotted name of a literal kind. -/
def LiteralKind.name : LiteralKind → String
  | integer base => "Integer." ++ base.name
  | floating precision => "FloatingPoint." ++ precision.name
  | char => "Char"
  | string part => "String." ++ part.name

namespace TokenKind

/-- The dotted name of a token kind. -/
def name : TokenKind → String
  | whitespace => "Whitespace"
  | linebreak => "Linebreak"
  | comment => "Comment"
  | identifier => "Identifier"
  | keyword => "Keyword"
  | punctuation => "Punctuation"
  | operator => "Operator"
  | literal l => "Literal." ++ l.name
  | error => "Error"
  | eof => "Eof"

/-- The kind of a string piece. -/
def string (part : StringPart) : TokenKind :=
  literal (.string part)

/-- Whitespace and comments mean nothing to a grammar and are kept only so that the
text can be put together again.  A line end is not trivia: grammars that work line
by line need it. -/
def isTrivia : TokenKind → Bool
  | whitespace => true
  | comment => true
  | _ => false

/-- A literal of any sort. -/
def isLiteral : TokenKind → Bool
  | literal _ => true
  | _ => false

/-- A piece of a string literal. -/
def isStringPart : TokenKind → Bool
  | literal (.string _) => true
  | _ => false

/-- A numeric literal. -/
def isNumber : TokenKind → Bool
  | literal (.integer _) => true
  | literal (.floating _) => true
  | _ => false

/-- All kinds of tokens. -/
def all : List TokenKind :=
  [whitespace, linebreak, comment, identifier, keyword, punctuation, operator,
    literal (.integer .dec), literal (.integer .hex), literal (.integer .bin),
    literal (.integer .oct), literal (.floating .float), literal (.floating .double),
    literal .char,
    string (.opening .singleLine), string (.closing .singleLine),
    string (.opening .multiLine), string (.closing .multiLine),
    string .basic, string .escaped, string .nameMark, string .blockOpen, string .blockClose,
    error, eof]

/-- The kind with the given dotted name. -/
def ofName? (s : String) : Option TokenKind :=
  all.find? (·.name == s)

end TokenKind

end Lossless
