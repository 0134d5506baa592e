import Lossless.Span
import Lossless.Text.Blank
import Lossless.Text.Bytes

/-!
# Lines and positions

A line ends after a line feed, after a carriage return, or after the two in this
order, which count as one line end.  `Lines` keeps a text together with the
offsets at which its lines start, and turns offsets into positions.

Lines and columns count from zero and a column counts *characters*; a position is
shown counting from one, as people do.
-/

namespace Lossless

/-- A place in a text: a line, and a number of characters into it. -/
structure Position where
  line : Nat
  column : Nat
deriving DecidableEq, Repr, Inhabited

/-- A position as `line:column`, both counted from one. -/
def Position.display (p : Position) : String :=
  toString (p.line + 1) ++ ":" ++ toString (p.column + 1)

/-- A text and the offsets at which its lines start. -/
structure Lines where
  text : List Char
  starts : List Nat
deriving Repr

namespace Lines

/-- The offsets right after each line end of a text that itself starts at `offset`. -/
def breaksFrom (offset : Nat) : List Char → List Nat
  | [] => []
  | '\r' :: '\n' :: cs => (offset + 2) :: breaksFrom (offset + 2) cs
  | c :: cs =>
    if Text.isLineEnd c then
      (offset + 1) :: breaksFrom (offset + 1) cs
    else
      breaksFrom (offset + c.utf8Size) cs

/-- The lines of a text.  The first one starts at zero, so there is always one. -/
def ofText (text : List Char) : Lines :=
  ⟨text, 0 :: breaksFrom 0 text⟩

/-- The number of lines. -/
def count (ls : Lines) : Nat := ls.starts.length

/-- The offset at which a line starts. -/
def start? (ls : Lines) (line : Nat) : Option Nat := ls.starts[line]?

/-- Searches ascending numbers for `x` from the place `low` up to, but not including, `high`, and
halves the places that are left until it is done: with the place of `x`, or else with the place
where `x` would have to be put in. -/
def search (xs : List Nat) (x low high : Nat) : Except Nat Nat :=
  if low < high then
    let middle := low + (high - low) / 2
    match compare (xs.getD middle 0) x with
    | .lt => search xs x (middle + 1) high
    | .eq => .ok middle
    | .gt => search xs x low middle
  else
    .error low
termination_by high - low

/-- The line that holds an offset: the one that starts there, or the one in front of the place where
the offset would have to be put in among the starts. -/
def lineAt (ls : Lines) (offset : Nat) : Nat :=
  match search ls.starts offset 0 ls.starts.length with
  | .ok line => line
  | .error line => line - 1

/-- The position of an offset; an offset beyond the end is taken for the end.  An
offset inside a character is given its distance in bytes as its column. -/
def position (ls : Lines) (offset : Nat) : Position :=
  let offset := min offset (Text.byteSize ls.text)
  let line := ls.lineAt offset
  let start := (ls.start? line).getD 0
  match Text.slice? ls.text start offset with
  | some before => ⟨line, before.length⟩
  | none => ⟨line, offset - start⟩

/-- The positions of the two ends of a span. -/
def positions (ls : Lines) (span : Span) : Position × Position :=
  (ls.position span.start, ls.position span.stop)

/-- A text without the line ends at its end. -/
def trimLineEnds (cs : List Char) : List Char :=
  (cs.reverse.dropWhile Text.isLineEnd).reverse

/-- The text of a line without its line end. -/
def text? (ls : Lines) (line : Nat) : Option (List Char) := do
  let start ← ls.start? line
  let stop := (ls.start? (line + 1)).getD (Text.byteSize ls.text)
  let whole ← Text.slice? ls.text start stop
  pure (trimLineEnds whole)

end Lines

end Lossless
