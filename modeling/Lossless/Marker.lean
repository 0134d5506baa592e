import Lossless.Span

/-!
# Markers

A grammar does not build a tree.  It *marks* stretches of the token stream: it opens
a marker, moves on, and completes the marker with the kind of element that the tokens
passed in between make up.  A completed `Marker` is a plain record, a kind over the
half-open range `[start, stop)` of token indices.

Markers are numbered in the order in which they are opened.  A marker that was opened
to wrap an element already completed remembers the number of that element's marker
(`precedes`).
-/

namespace Lossless

/-- Kinds of elements, which a grammar chooses for itself, have a name to be shown by. -/
class Named (κ : Type) where
  name : κ → String

instance : Named String where
  name kind := kind

/-- A completed marker: an element of some kind over the tokens from `start` up to `stop`. -/
structure Marker (κ : Type) where
  id : Nat
  start : Nat
  stop : Nat
  kind : κ
  /-- The marker that this one was opened to wrap. -/
  precedes : Option Nat := none
deriving DecidableEq, Repr

/-- A marker that covers no token. -/
def Marker.isEmpty {κ : Type} (m : Marker κ) : Bool :=
  m.start == m.stop

/-- A marker that is not completed yet, with all that is needed to go back to the
moment at which it was opened. -/
structure OpenMarker where
  id : Nat
  /-- The first token that the element will cover. -/
  start : Nat
  /-- Where the cursor was. -/
  cursor : Nat
  /-- How many markers were completed. -/
  completed : Nat
  /-- How many errors were reported. -/
  errors : Nat
  precedes : Option Nat
deriving DecidableEq, Repr

/-- An error that a grammar reports at a token. -/
structure ParseError where
  /-- The index of the token. -/
  index : Nat
  message : String
  /-- The span of the token. -/
  span : Span
deriving DecidableEq, Repr

/-- The message of an error and its span. -/
def ParseError.display (e : ParseError) : String :=
  e.message ++ " at " ++ e.span.display

end Lossless
