/-!
# Spans of a text

A `Span` is the half-open stretch `[start, stop)` of byte offsets that a token, a
node or a message covers.  Spans of one text are compared by where they start and
then by where they stop.
-/

namespace Lossless

/-- The half-open stretch of offsets from `start` up to `stop`. -/
structure Span where
  start : Nat
  stop : Nat
deriving DecidableEq, Repr, Inhabited

namespace Span

/-- The empty span at an offset. -/
def empty (offset : Nat) : Span := ⟨offset, offset⟩

/-- The number of bytes that a span covers. -/
def length (s : Span) : Nat := s.stop - s.start

/-- Whether a span covers nothing. -/
def isEmpty (s : Span) : Bool := s.start == s.stop

/-- Whether a span covers the byte at an offset. -/
def contains (s : Span) (offset : Nat) : Bool :=
  s.start ≤ offset && offset < s.stop

/-- Whether a span reaches over the whole of another. -/
def encloses (s t : Span) : Bool :=
  s.start ≤ t.start && t.stop ≤ s.stop

/-- The least span that reaches over two spans. -/
def cover (s t : Span) : Span :=
  ⟨min s.start t.start, max s.stop t.stop⟩

/-- The least span that reaches over all the given spans, if there are any. -/
def coverAll? : List Span → Option Span
  | [] => none
  | s :: ss => some (ss.foldl cover s)

/-- A span comes no later than another: it starts earlier, or at the same place
and stops no later. -/
def le (s t : Span) : Bool :=
  s.start < t.start || (s.start == t.start && s.stop ≤ t.stop)

/-- Spans in ascending order. -/
def sorted (ss : List Span) : List Span :=
  ss.mergeSort le

/-- A span as `start..stop`. -/
def display (s : Span) : String :=
  toString s.start ++ ".." ++ toString s.stop

end Span

end Lossless
