import Lossless.Build
import Lossless.Calculator.Kind
import Lossless.Expression
import Lossless.Lexer

/-!
# The calculator language

A small language that works line by line, and the grammar by which trees are shown.

    program    := (statement? linebreak)* statement?
    statement  := "let" name "=" expression | expression
    atom       := number | char | name | string | "true" | "false" | "(" expression ")"
    string     := opening (content | mark name | block-opening expression block-closing)* closing

An expression is made of atoms with the operators of `Calculator.operators`.

A statement that does not end with its line is cut there: what is left of the line is
wrapped in a bad statement, and reading goes on with the next line.  So **an error never
reaches beyond its line**.
-/

namespace Lossless.Calculator

/-- How the tokens of a program are written. -/
def config : Config := Config.curlyBrace

/-- The piece of a string that a token is. -/
def stringPart? (t : Token) : Option StringPart :=
  match t.kind with
  | .literal (.string part) => some part
  | _ => none

/-- A way to read an expression inside of an element, by the least power of its operators. -/
abbrev Inner := Nat → ElementParser Kind

/-- An element of the current token alone. -/
def single (kind : Kind) (s : Session Kind) : Marker Kind × Session Kind :=
  let (m, s) := s.mark
  s.advance.complete m kind

/-- Whether reading an interpolation block goes on with the next string piece at a token. -/
def endsBlock (t : Token) : Bool :=
  match t.kind with
  | .literal (.string .blockClose) => true
  | .literal (.string (.closing _)) => true
  | .eof => true
  | _ => false

/-- The rest of an interpolation block behind its opening. -/
def block (inner : Inner) (s : Session Kind) : Session Kind :=
  let close := Expectation.kind (.string .blockClose)
  let (closed, s) :=
    match inner 0 s with
    | (some _, s) => s.eat close
    | (none, s) => (false, s)
  if closed then
    s
  else
    let s := if s.isAt close then s else s.error "expected '\x7d'"
    ((s.advanceTo endsBlock).eat close).2

/-- The pieces of a string behind its opening. -/
def stringPieces (inner : Inner) : Nat → Session Kind → Session Kind
  | 0, s => s
  | rounds + 1, s =>
    match stringPart? s.current with
    | none => s.error "unterminated string"
    | some (.closing _) => s.advance
    | some .nameMark =>
      let s := s.advance
      if s.current.kind == .identifier then
        stringPieces inner rounds (single .name s).2
      else
        stringPieces inner rounds s
    | some .blockOpen => stringPieces inner rounds (block inner s.advance)
    | some _ => stringPieces inner rounds s.advance

/-- A string. -/
def string (inner : Inner) (s : Session Kind) : Marker Kind × Session Kind :=
  let (m, s) := s.mark
  let s := s.advance
  (stringPieces inner s.remaining s).complete m .string

/-- An expression in brackets. -/
def group (inner : Inner) (s : Session Kind) : Marker Kind × Session Kind :=
  let (m, s) := s.mark
  match inner 0 s.advance with
  | (some _, s) => (s.expect (.text ")")).2.complete m .group
  | (none, s) => s.complete m .group

/-- Whether a token starts an atom. -/
def startsAtom (t : Token) : Bool :=
  match t.kind with
  | .punctuation => t.text == "("
  | .keyword => t.text == "true" || t.text == "false"
  | _ => startsPlainAtom t

/-- An atom. -/
def atom (inner : Inner) : ElementParser Kind := fun s =>
  let found (r : Marker Kind × Session Kind) : Option (Marker Kind) × Session Kind :=
    (some r.1, r.2)
  match s.current.kind with
  | .identifier => found (single .name s)
  | .keyword => found (single .bool s)
  | .punctuation => found (group inner s)
  | .literal .char => found (single .char s)
  | .literal (.string _) => found (string inner s)
  | .literal _ => found (single .number s)
  | _ => (none, s)

/-- The expressions of the language. -/
def grammar : ExpressionGrammar Kind where
  operators := operators
  startsAtom := startsAtom
  atom := atom

/-- The name behind the keyword of a `let` statement. -/
def letName (s : Session Kind) : Session Kind :=
  if s.isAt (.kind .identifier) then
    (single .name s.skipTrivia).2
  else
    (s.expect (.kind .identifier)).2

/-- A `let` statement. -/
def letStatement (s : Session Kind) : Session Kind :=
  let (m, s) := s.skipTrivia.mark
  let s := letName s.advance
  let s :=
    match s.expect (.text "=") with
    | (true, s) => (grammar.expression 0 s).2
    | (false, s) => s
  (s.complete m .letStatement).2

/-- An expression that stands as a statement. -/
def expressionStatement (s : Session Kind) : Session Kind :=
  match grammar.expression 0 s with
  | (none, s) => s
  | (some e, s) =>
    let (m, s) := s.precede e
    (s.complete m .expressionStatement).2

/-- A statement and what is left of its line. -/
def statement (s : Session Kind) : Session Kind :=
  let before := s.errors.length
  let s := if s.isAt (.text "let") then letStatement s else expressionStatement s
  let s := s.skipTrivia
  if Session.endsLine s.current then
    s
  else
    let s := if s.errors.length == before then s.error "expected end of line" else s
    (s.recoverToLineEnd .badStatement).2

/-- The statements up to the end of the input. -/
def statements : Nat → Session Kind → Session Kind
  | 0, s => s
  | rounds + 1, s =>
    let s := s.skipTrivia
    match s.current.kind with
    | .eof => s
    | .linebreak => statements rounds s.advance
    | _ => statements rounds (statement s)

/-- A program. -/
def program (s : Session Kind) : Session Kind :=
  statements s.remaining s

/-- The session that has read a text as a program. -/
def parse (source : String) (traced : Bool) : Session Kind :=
  program (Session.start (tokenize source config none) { } traced)

/-- The tree of what a session has read. -/
def treeOf (s : Session Kind) : BuildOutput Kind :=
  build registry { } s.tokens.toList s.completed s.errors

/-- The tree of a text read as a program. -/
def parseTree (source : String) : BuildOutput Kind :=
  treeOf (parse source false)

end Lossless.Calculator
