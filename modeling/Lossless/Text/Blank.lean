import Lossless.Text.CodeSet

/-!
# Blanks and line ends

A *blank* is a character with the Unicode property *White_Space*.  The line feed
and the carriage return are blanks too; they are also the two characters that end
a line.
-/

namespace Lossless.Text

/-- The code points with the property *White_Space*. -/
def whiteSpace : CodeSet where
  bounds :=
    [0x9, 0xe, 0x20, 0x21, 0x85, 0x86, 0xa0, 0xa1, 0x1680, 0x1681, 0x2000, 0x200b, 0x2028, 0x202a,
      0x202f, 0x2030, 0x205f, 0x2060, 0x3000, 0x3001]

/-- A blank character of any kind, line ends included. -/
def isBlank (c : Char) : Bool :=
  whiteSpace.has c

/-- One of the two characters that end a line. -/
def isLineEnd (c : Char) : Bool :=
  c == '\n' || c == '\r'

/-- A blank that does not end a line. -/
def isInlineBlank (c : Char) : Bool :=
  isBlank c && !isLineEnd c

/-- A line end is a blank. -/
theorem isBlank_of_isLineEnd {c : Char} (h : isLineEnd c = true) : isBlank c = true := by
  simp only [isLineEnd, Bool.or_eq_true, beq_iff_eq] at h
  rcases h with rfl | rfl <;> rfl

end Lossless.Text
