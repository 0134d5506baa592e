import Lossless.Event
import Lossless.Token

/-!
# Sessions

A `Session` is one pass of a grammar over a list of tokens: the tokens, a cursor among
them, the markers completed and the errors reported so far.  Nothing a grammar does
can fail.  Moving on at the last token does nothing, and an expectation that is not
met is reported as an error and nothing else.

The last token is always an end of input, so that there is a current token at every
time.  The cursor never skips trivia by itself; `eat`, `expect`, `isAt` and `nth` look
for the next *significant* token, and everything else sees the tokens as they are.

A session can go back to where a marker was opened (`rollBack`): the cursor returns
there, and **every marker completed since is discarded**.  Whether the errors reported
since are retracted too is an option.
-/

namespace Lossless

/-- What becomes of errors when a session goes back. -/
inductive RollbackPolicy where
  /-- They stay reported. -/
  | keepErrors
  /-- Those reported since the marker was opened are retracted. -/
  | retractErrors
deriving DecidableEq, Repr

/-- The options of a session. -/
structure SessionOptions where
  rollback : RollbackPolicy := .keepErrors
  /-- How deep expressions may nest. -/
  maxDepth : Nat := 256
deriving DecidableEq, Repr

/-- A token that a grammar looks for. -/
inductive Expectation where
  /-- A keyword, identifier, operator or punctuation with a certain text. -/
  | text (text : String)
  /-- A token of a certain kind. -/
  | kind (kind : TokenKind)
deriving DecidableEq, Repr

namespace Expectation

/-- Whether a token is of a kind that is recognised by its text. -/
def hasOwnText (t : Token) : Bool :=
  match t.kind with
  | .keyword | .identifier | .operator | .punctuation => true
  | _ => false

/-- Whether a token is the one looked for. -/
def holds (e : Expectation) (t : Token) : Bool :=
  match e with
  | text s => hasOwnText t && t.text == s
  | kind k => t.kind == k

/-- What is looked for, in words. -/
def display : Expectation → String
  | text s => "'" ++ s ++ "'"
  | kind k => k.name

end Expectation

/-- The state of a pass over a list of tokens. -/
structure Session (κ : Type) where
  tokens : Array Token
  /-- The index of the current token. -/
  cursor : Nat
  /-- How many markers have been opened, which is also the number of the next one. -/
  opened : Nat
  /-- The numbers of the markers that are open. -/
  openIds : List Nat
  completed : List (Marker κ)
  errors : List ParseError
  options : SessionOptions
  /-- How many expressions are open inside one another. -/
  depth : Nat
  /-- The events so far, if they are recorded. -/
  trace : Option (List (Event κ))

namespace Session

variable {κ : Type}

/-- A list of tokens with an end of input as its last token. -/
def ended (tokens : List Token) : List Token :=
  match tokens.getLast? with
  | none => [Token.eof 0]
  | some t => if t.kind == .eof then tokens else tokens ++ [Token.eof t.span.stop]

/-- A session at the first of some tokens. -/
def start (tokens : List Token) (options : SessionOptions) (traced : Bool) : Session κ where
  tokens := (ended tokens).toArray
  cursor := 0
  opened := 0
  openIds := []
  completed := []
  errors := []
  options := options
  depth := 0
  trace := if traced then some [] else none

/-- The session with one more event recorded, if events are. -/
def record (s : Session κ) (e : Event κ) : Session κ :=
  { s with trace := s.trace.map (· ++ [e]) }

/-! ## The cursor -/

/-- The token at an index, or an end of input beyond the last one. -/
def tokenAt (s : Session κ) (i : Nat) : Token :=
  s.tokens.getD i (Token.eof 0)

/-- The current token, trivia included. -/
def current (s : Session κ) : Token :=
  s.tokenAt s.cursor

/-- The last token. -/
def last (s : Session κ) : Token :=
  s.tokenAt (s.tokens.size - 1)

/-- How many tokens are left, the current one included. -/
def remaining (s : Session κ) : Nat :=
  s.tokens.size - s.cursor

/-- The session at the next token, if there is one. -/
def advance (s : Session κ) : Session κ :=
  if s.cursor + 1 < s.tokens.size then { s with cursor := s.cursor + 1 } else s

/-- The first index from `i` on at which a token satisfies `stops`, or the last index. -/
def seek (stops : Token → Bool) (tokens : Array Token) : Nat → Nat → Nat
  | 0, i => i
  | rounds + 1, i =>
    if stops (tokens.getD i (Token.eof 0)) || tokens.size ≤ i + 1 then
      i
    else
      seek stops tokens rounds (i + 1)

/-- The session at the next token that satisfies `stops`, the current one included. -/
def advanceTo (s : Session κ) (stops : Token → Bool) : Session κ :=
  { s with cursor := seek stops s.tokens s.remaining s.cursor }

/-- The session at the next significant token, the current one included. -/
def skipTrivia (s : Session κ) : Session κ :=
  s.advanceTo (!·.isTrivia)

/-- The `n`th significant token from the index `i` on. -/
def significant? (tokens : Array Token) : Nat → Nat → Nat → Option Token
  | 0, _, _ => none
  | rounds + 1, i, n =>
    match tokens[i]? with
    | none => none
    | some t =>
      if t.isTrivia then
        significant? tokens rounds (i + 1) n
      else
        match n with
        | 0 => some t
        | n + 1 => significant? tokens rounds (i + 1) n

/-- The `n`th significant token from the cursor on, counting from zero; the last token
if there are not as many. -/
def nth (s : Session κ) (n : Nat) : Token :=
  (significant? s.tokens s.remaining s.cursor n).getD s.last

/-- Whether the next significant token is the one looked for. -/
def isAt (s : Session κ) (e : Expectation) : Bool :=
  e.holds (s.nth 0)

/-- Whether only trivia is left. -/
def isAtEnd (s : Session κ) : Bool :=
  (s.nth 0).kind == .eof

/-- Skips trivia, and moves past the next token if it is the one looked for. -/
def eat (s : Session κ) (e : Expectation) : Bool × Session κ :=
  let s := s.skipTrivia
  if e.holds s.current then (true, s.advance) else (false, s)

/-- Reports an error at the current token. -/
def error (s : Session κ) (message : String) : Session κ :=
  let s := s.record (.errorReported s.cursor message)
  { s with errors := s.errors ++ [⟨s.cursor, message, s.current.span⟩] }

/-- Skips trivia, and moves past the next token if it is the one looked for; otherwise
reports that it is missing. -/
def expect (s : Session κ) (e : Expectation) : Bool × Session κ :=
  match s.eat e with
  | (true, s) => (true, s)
  | (false, s) => (false, s.error ("expected " ++ e.display))

/-! ## Nesting -/

/-- Opens one more expression, if as many as allowed are not open yet. -/
def enterExpression (s : Session κ) : Bool × Session κ :=
  if s.options.maxDepth ≤ s.depth then (false, s) else (true, { s with depth := s.depth + 1 })

/-- Closes an expression. -/
def exitExpression (s : Session κ) : Session κ :=
  { s with depth := s.depth - 1 }

/-! ## Markers -/

/-- Opens a marker whose element begins at a token. -/
def openAt (s : Session κ) (start : Nat) (precedes : Option Nat) : OpenMarker × Session κ :=
  let id := s.opened
  let marker : OpenMarker :=
    ⟨id, start, s.cursor, s.completed.length, s.errors.length, precedes⟩
  (marker, { s with opened := id + 1, openIds := id :: s.openIds }.record (.opened id start))

/-- Opens a marker at the cursor. -/
def mark (s : Session κ) : OpenMarker × Session κ :=
  s.openAt s.cursor none

/-- Opens a marker that is to wrap a completed one. -/
def precede (s : Session κ) (inner : Marker κ) : OpenMarker × Session κ :=
  s.openAt inner.start (some inner.id)

/-- The session without an open marker. -/
def close (s : Session κ) (id : Nat) : Session κ :=
  { s with openIds := s.openIds.erase id }

/-- Completes a marker: its element is everything up to the cursor.  If the session has
gone back to before the marker, the element is empty. -/
def complete (s : Session κ) (m : OpenMarker) (kind : κ) : Marker κ × Session κ :=
  let marker : Marker κ := ⟨m.id, m.start, max s.cursor m.start, kind, m.precedes⟩
  let s := (s.close m.id).record (.completed marker)
  (marker, { s with completed := s.completed ++ [marker] })

/-- Forgets a marker; the tokens passed since it was opened stay passed. -/
def drop (s : Session κ) (m : OpenMarker) : Session κ :=
  (s.close m.id).record (.dropped m.id)

/-- How many errors stay when the session goes back to a marker. -/
def keptErrors (s : Session κ) (m : OpenMarker) : Nat :=
  match s.options.rollback with
  | .keepErrors => s.errors.length
  | .retractErrors => min m.errors s.errors.length

/-- Goes back to where a marker was opened and discards what was completed since. -/
def rollBack (s : Session κ) (m : OpenMarker) : Session κ :=
  let markers := min m.completed s.completed.length
  let errors := s.keptErrors m
  let event := Event.rolledBack m.id m.cursor (s.completed.length - markers)
    (s.errors.length - errors)
  { s.close m.id with
    completed := s.completed.take markers
    errors := s.errors.take errors
    cursor := m.cursor }.record event

/-- Whether a line is over at a token. -/
def endsLine (t : Token) : Bool :=
  t.kind == .linebreak || t.kind == .eof

/-- Wraps everything up to the end of the line in an element of the given kind, unless
the line is over already. -/
def recoverToLineEnd (s : Session κ) (kind : κ) : Option (Marker κ) × Session κ :=
  if endsLine s.current then
    (none, s)
  else
    let (m, s) := s.mark
    let (marker, s) := (s.advanceTo endsLine).complete m kind
    (some marker, s)

end Session

end Lossless
