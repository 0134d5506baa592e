import Lossless.Text.Bytes

/-!
# Places in a YAML text

A `Cursor` is a place in a text with its line and column.  Five things end a line: a
carriage return and a line feed together, either of the two alone, the next-line
character, and the two separators of Unicode.  The separators are read as themselves
and all other line ends as a line feed.

The loops over a text are given a number of rounds.  Each round moves forward, so the
length of the rest is enough, and the functions that callers use show no rounds.
-/

namespace Lossless.Yaml

/-! ## Characters -/

/-- Whether a text may hold a character at all: control characters are refused. -/
def isAllowed (c : Char) : Bool :=
  c == '\t' || c == '\n' || c == '\r' || (' ' ≤ c && c ≤ '~') || c == '\u0085'
    || ('\u00a0' ≤ c && c ≤ '\ufffd') || '\uffff' < c

/-- A blank within a line. -/
def isBlank (c : Char) : Bool := c == ' ' || c == '\t'

/-- A character that ends a line. -/
def isBreak (c : Char) : Bool :=
  c == '\n' || c == '\r' || c == '\u0085' || c == '\u2028' || c == '\u2029'

/-- Whether a token is over in front of a text. -/
def atGap : List Char → Bool
  | [] => true
  | c :: _ => isBlank c || isBreak c

/-- The line end with which a text begins: the character it is read as, and how many
characters it takes. -/
def lineEnd? : List Char → Option (Char × Nat)
  | '\r' :: '\n' :: _ => some ('\n', 2)
  | c :: _ =>
    if c == '\u2028' || c == '\u2029' then some (c, 1)
    else if isBreak c then some ('\n', 1)
    else none
  | [] => none

/-! ## Cursors -/

/-- A place in a text. -/
structure Cursor where
  rest : List Char
  /-- How many bytes stand in front of the place. -/
  offset : Nat
  line : Nat
  /-- How many characters stand in front of the place in its line. -/
  column : Nat
deriving Repr

namespace Cursor

/-- The beginning of a text. -/
def start (cs : List Char) : Cursor := ⟨cs, 0, 0, 0⟩

/-- The place `n` characters on in the same line. -/
def advance (c : Cursor) (n : Nat) : Cursor :=
  ⟨c.rest.drop n, c.offset + Text.byteSize (c.rest.take n), c.line, c.column + n⟩

/-- The place behind the characters with a property, in the same line. -/
def skipWhile (p : Char → Bool) (c : Cursor) : Cursor :=
  c.advance (c.rest.takeWhile p).length

/-- The line end at a place as it is read, and the beginning of the next line. -/
def newLine? (c : Cursor) : Option (Char × Cursor) :=
  (lineEnd? c.rest).map fun (d, n) => (d, { c.advance n with line := c.line + 1, column := 0 })

/-- Whether a mark that separates documents stands at a place. -/
def atDocumentMark (c : Cursor) : Bool :=
  c.column == 0 && (c.rest.take 3 == "---".toList || c.rest.take 3 == "...".toList)
    && atGap (c.rest.drop 3)

/-! ## Filler

What is insignificant between two tokens is filler: blanks, line ends and comments, and
a byte order mark at the beginning of a line. -/

/-- The place behind the filler, and whether a key may start there.  Inside a flow
collection a line end does not change whether one may; elsewhere one may start on every
further line.  A tab never indents: where a key of a block map may start, it is no
filler. -/
def filler (flow : Bool) : Nat → Bool → Cursor → Bool × Cursor
  | 0, keyAllowed, c => (keyAllowed, c)
  | rounds + 1, keyAllowed, c =>
    let c := if c.column == 0 && c.rest.head? == some '\ufeff' then c.advance 1 else c
    let c := c.skipWhile fun d => d == ' ' || (d == '\t' && (flow || !keyAllowed))
    let c := if c.rest.head? == some '#' then c.skipWhile (!isBreak ·) else c
    match c.newLine? with
    | some (_, next) => filler flow rounds (keyAllowed || !flow) next
    | none => (keyAllowed, c)

/-- The place behind the filler, and whether a key may start there. -/
def skipFiller (flow keyAllowed : Bool) (c : Cursor) : Bool × Cursor :=
  filler flow (c.rest.length + 1) keyAllowed c

/-! ## Gaps

A scalar may hold gaps of blanks and line ends. -/

/-- The line ends at a place and the place behind them and the blanks that follow each.
It is an error if a tab stands among these blanks in front of the column `least`. -/
def lineEnds? (least : Nat) : Nat → Cursor → Option (List Char × Cursor)
  | 0, c => some ([], c)
  | rounds + 1, c =>
    match c.newLine? with
    | none => some ([], c)
    | some (d, next) =>
      if ((next.rest.takeWhile isBlank).take least).contains '\t' then
        none
      else do
        let (ds, stop) ← lineEnds? least rounds (next.skipWhile isBlank)
        some (d :: ds, stop)

end Cursor

/-- A gap in a scalar. -/
structure Gap where
  /-- The blanks in front of the first line end. -/
  blanks : List Char
  /-- The line ends. -/
  ends : List Char
  /-- The place behind the gap. -/
  stop : Cursor

/-- The gap at a place; a tab in front of the column `least` of a further line is an
error. -/
def Cursor.gap? (least : Nat) (c : Cursor) : Option Gap :=
  let blanks := c.rest.takeWhile isBlank
  (lineEnds? least (c.rest.length + 1) (c.advance blanks.length)).map fun (ends, stop) =>
    ⟨blanks, ends, stop⟩

/-- What a gap stands for: blanks alone stand for themselves, a single line feed is a
blank, and of several line ends the first is left out if it is a line feed. -/
def Gap.text (g : Gap) : List Char :=
  match g.ends with
  | [] => g.blanks
  | ['\n'] => [' ']
  | '\n' :: more => more
  | ends => ends

end Lossless.Yaml
