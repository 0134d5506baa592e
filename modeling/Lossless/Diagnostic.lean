import Lossless.Lines
import Lossless.Tree

/-!
# Diagnostics

A `Diagnostic` tells people what is wrong with a text and where.  The diagnostics of a
tree are its error nodes, and its lexical errors as mere warnings: a grammar that meets
one usually reports an error at the same spot.  They are listed by where they start,
errors in front of warnings.
-/

namespace Lossless

/-- How grave a diagnostic is. -/
inductive Severity where
  | error
  | warning
deriving DecidableEq, Repr

/-- The name of a severity. -/
def Severity.name : Severity → String
  | error => "error"
  | warning => "warning"

/-- The place of a severity in the order of diagnostics. -/
def Severity.rank : Severity → Nat
  | error => 0
  | warning => 1

/-- Something that is wrong with a stretch of a text. -/
structure Diagnostic where
  span : Span
  start : Position
  stop : Position
  severity : Severity
  message : String
  /-- A short name for the sort of diagnostic. -/
  code : String
deriving DecidableEq, Repr

/-- A text on the right of at least `width` places. -/
def alignRight (width : Nat) (s : String) : String :=
  String.ofList (List.replicate (width - s.length) ' ') ++ s

/-- The lines around a line, two before it and two after it, each with its number; the
line itself is pointed at. -/
def Lines.context (ls : Lines) (line : Nat) : String :=
  let first := line - 2
  let count := min (line + 3) ls.count - first
  String.join <| (List.range' first count).map fun n =>
    (if n == line then ">> " else "   ") ++ alignRight 3 (toString (n + 1)) ++ " | "
      ++ String.ofList ((ls.text? n).getD []) ++ "\n"

namespace Diagnostic

/-- A diagnostic about a span of a text. -/
def about (ls : Lines) (span : Span) (severity : Severity) (message code : String) :
    Diagnostic where
  span := span
  start := ls.position span.start
  stop := ls.position span.stop
  severity := severity
  message := message
  code := code

/-- A diagnostic on one line. -/
def display (d : Diagnostic) : String :=
  d.severity.name ++ " [" ++ d.code ++ "]: " ++ d.message ++ " at " ++ d.start.display

/-- A diagnostic and the lines around it. -/
def render (d : Diagnostic) (ls : Lines) : String :=
  d.display ++ "\n" ++ ls.context d.start.line

/-- Whether a diagnostic is listed no later than another. -/
def le (d e : Diagnostic) : Bool :=
  d.span.start < e.span.start
    || (d.span.start == e.span.start && d.severity.rank ≤ e.severity.rank)

/-- The diagnostic about an error node. -/
def ofError {κ : Type} (ls : Lines) (t : Tree κ) : Diagnostic :=
  about ls t.span .error (t.errorMessage?.getD "")
    (if t.errorIndex?.isSome then "parse-error" else "invalid-element")

/-- The diagnostic about a lexical error. -/
def ofToken (ls : Lines) (t : Token) : Diagnostic :=
  about ls t.span .warning ("unrecognized input " ++ Text.quote t.text) "lex-error"

/-- The diagnostics of a tree over a text, in order. -/
def ofTree {κ : Type} (ls : Lines) (t : Tree κ) : List Diagnostic :=
  (t.errors.map (ofError ls) ++ (t.tokens.filter (·.kind == .error)).map (ofToken ls)).mergeSort le

end Diagnostic

end Lossless
