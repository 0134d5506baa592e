/-!
# Sets of code points

A property of characters that a standard lists code point by code point is kept
as a `CodeSet`: the ascending list of the code points at which membership
*changes*.  The first entry is the least member, the second the first non-member
after it, and so on.
-/

namespace Lossless.Text

/-- A set of code points, given by the ascending points at which membership changes. -/
structure CodeSet where
  bounds : List Nat

namespace CodeSet

/-- Membership of `x` among the given bounds, when it is `inside` just before the
first of them: every bound at or below `x` turns membership over. -/
def member (x : Nat) : List Nat → Bool → Bool
  | [], inside => inside
  | b :: bs, inside => if x < b then inside else member x bs (!inside)

/-- Whether a character belongs to the set. -/
def has (s : CodeSet) (c : Char) : Bool :=
  member c.toNat s.bounds false

end CodeSet

end Lossless.Text
