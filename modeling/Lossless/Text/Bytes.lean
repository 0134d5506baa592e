/-!
# Text measured in bytes

A source text is a list of characters, and every offset into it counts the bytes
of its UTF-8 form.  This file measures characters that way and cuts a text at a
byte offset.

An offset may fall inside a character, or beyond the end.  The cut `takeBytes`
answers both the same way: it gives **the longest beginning that fits**, so an
offset is always moved back to a character boundary (`floorBoundary`).
-/

namespace Lossless.Text

/-- The number of bytes that a text takes in UTF-8. -/
def byteSize : List Char → Nat
  | [] => 0
  | c :: cs => c.utf8Size + byteSize cs

/-- The longest beginning of a text that takes at most `n` bytes. -/
def takeBytes : Nat → List Char → List Char
  | _, [] => []
  | n, c :: cs => if c.utf8Size ≤ n then c :: takeBytes (n - c.utf8Size) cs else []

/-- What is left of a text without its longest beginning of at most `n` bytes. -/
def dropBytes : Nat → List Char → List Char
  | _, [] => []
  | n, c :: cs => if c.utf8Size ≤ n then dropBytes (n - c.utf8Size) cs else c :: cs

/-- The last character boundary at or before the offset `n`; an offset beyond the
end goes back to the end. -/
def floorBoundary (cs : List Char) (n : Nat) : Nat :=
  byteSize (takeBytes n cs)

/-- Whether the offset `n` lies between two characters, or at an end of the text. -/
def isBoundary (cs : List Char) (n : Nat) : Bool :=
  floorBoundary cs n == n

/-- The text between two offsets, if both are boundaries and in order. -/
def slice? (cs : List Char) (start stop : Nat) : Option (List Char) :=
  if start ≤ stop && isBoundary cs start && isBoundary cs stop then
    some (takeBytes (stop - start) (dropBytes start cs))
  else
    none

/-- The two cuts at one offset lose nothing. -/
theorem takeBytes_append_dropBytes (n : Nat) (cs : List Char) :
    takeBytes n cs ++ dropBytes n cs = cs := by
  induction cs generalizing n with
  | nil => rfl
  | cons c cs ih =>
    by_cases fits : c.utf8Size ≤ n
    · simp [takeBytes, dropBytes, fits, ih]
    · simp [takeBytes, dropBytes, fits]

/-- A beginning cut at an offset fits in front of it. -/
theorem byteSize_takeBytes_le (n : Nat) (cs : List Char) : byteSize (takeBytes n cs) ≤ n := by
  induction cs generalizing n with
  | nil => simp [takeBytes, byteSize]
  | cons c cs ih =>
    by_cases fits : c.utf8Size ≤ n
    · have tail := ih (n - c.utf8Size)
      simp only [takeBytes, fits, if_true, byteSize]
      omega
    · simp [takeBytes, fits, byteSize]

/-- The size of two texts in a row is the sum of their sizes. -/
theorem byteSize_append (as bs : List Char) : byteSize (as ++ bs) = byteSize as + byteSize bs := by
  induction as with
  | nil => simp [byteSize]
  | cons a as ih => simp [byteSize, ih, Nat.add_assoc]

end Lossless.Text
