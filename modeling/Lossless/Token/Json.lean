import Lossless.Json.Reader
import Lossless.Json.Writer
import Lossless.Token

/-!
# Tokens as JSON

A token is an object with its type, its text and its range.  The type of a plain
token is its name; the type of a literal is an object that leads, name by name, to
what the literal stands for.
-/

namespace Lossless

open Json

/-- The name of a string piece in JSON. -/
def StringPart.jsonName : StringPart → String
  | opening .singleLine => "SlStart"
  | closing .singleLine => "SlEnd"
  | opening .multiLine => "MlStart"
  | closing .multiLine => "MlEnd"
  | basic => "ContentBasic"
  | escaped => "ContentEscaped"
  | nameMark => "InterpSingle"
  | blockOpen => "InterpBlockStart"
  | blockClose => "InterpBlockEnd"

/-! ## Writing -/

/-- The JSON form of a literal kind. -/
def LiteralKind.write : LiteralKind → Writer
  | integer base => .object [("Integer", .string base.name)]
  | floating precision => .object [("FloatingPoint", .string precision.name)]
  | char => .string "Char"
  | string part => .object [("String", .string part.jsonName)]

/-- The JSON form of a token kind. -/
def TokenKind.write : TokenKind → Writer
  | literal l => .object [("Literal", l.write)]
  | kind => .string kind.name

/-- The JSON form of a span. -/
def Span.write (s : Span) : Writer :=
  .object [("start", .nat s.start), ("end", .nat s.stop)]

/-- The JSON form of a token. -/
def Token.write (t : Token) : Writer :=
  .object [("type", t.kind.write), ("text", .string t.text), ("range", t.span.write)]

/-- A list of tokens as a JSON document. -/
def Token.toJson (ts : List Token) : String :=
  (Writer.list Token.write ts).document

/-! ## Reading -/

/-- Reads one of the given values by its name. -/
def named {α : Type} (name : α → String) (values : List α) : Reader α :=
  .alternative fun s => (values.find? (name · == s)).map .plain

/-- Reads a literal kind. -/
def LiteralKind.read : Reader LiteralKind :=
  .alternative fun
    | "Integer" => some <| .holding fun cs => do
        let (base, rest) ← named IntegerBase.name [.dec, .hex, .bin, .oct] cs
        .ok (.integer base, rest)
    | "FloatingPoint" => some <| .holding fun cs => do
        let (precision, rest) ← named Precision.name [.float, .double] cs
        .ok (.floating precision, rest)
    | "Char" => some (.plain .char)
    | "String" => some <| .holding fun cs => do
        let (part, rest) ← named StringPart.jsonName
          [.opening .singleLine, .closing .singleLine, .opening .multiLine, .closing .multiLine,
            .basic, .escaped, .nameMark, .blockOpen, .blockClose] cs
        .ok (.string part, rest)
    | _ => none

/-- Reads a token kind. -/
def TokenKind.read : Reader TokenKind :=
  .alternative fun s =>
    if s == "Literal" then
      some <| .holding fun cs => do
        let (l, rest) ← LiteralKind.read cs
        .ok (.literal l, rest)
    else
      (TokenKind.all.find? fun k => !k.isLiteral && k.name == s).map .plain

/-- The fields of a span. -/
def Span.shape : Reader.Shape Span where
  fields :=
    [⟨"start", fun s cs => do let (n, rest) ← Reader.offset cs; .ok ({ s with start := n }, rest)⟩,
      ⟨"end", fun s cs => do let (n, rest) ← Reader.offset cs; .ok ({ s with stop := n }, rest)⟩]
  complete := true
  closed := false

/-- Reads a span. -/
def Span.read : Reader Span :=
  .record Span.shape ⟨0, 0⟩

/-- The fields of a token. -/
def Token.shape : Reader.Shape Token where
  fields :=
    [⟨"type", fun t cs => do let (k, rest) ← TokenKind.read cs; .ok ({ t with kind := k }, rest)⟩,
      ⟨"text", fun t cs => do let (s, rest) ← Reader.string cs; .ok ({ t with text := s }, rest)⟩,
      ⟨"range", fun t cs => do let (s, rest) ← Span.read cs; .ok ({ t with span := s }, rest)⟩]
  complete := true
  closed := false

/-- Reads a token. -/
def Token.read : Reader Token :=
  .record Token.shape (Token.eof 0)

/-- Reads a JSON document that holds a list of tokens. -/
def Token.ofJson (text : String) : Except Fault (List Token) :=
  (Reader.list Token.read).document text

end Lossless
