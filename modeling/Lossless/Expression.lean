import Lossless.Operators
import Lossless.Session

/-!
# Expressions

An expression is an operand followed by operators and further operands.  An
`ExpressionGrammar` says which operators there are and how an atom is read; the rest
follows from binding powers.

`expressionAt` reads an expression all of whose operators bind at least as tightly as a
given power: first an operand, then operators as long as the next one binds tightly
enough.  The element of an operator wraps the one to its left, which is complete by
then, so the tree comes out nested without being built by hand.

How deep expressions may nest is limited, and the number of levels still allowed is
what the recursion descends on; with none left, an expression is an error.  A row of
operators on one level is no longer than the tokens that are left.
-/

namespace Lossless

/-- A step of a grammar: it may give an element, and it changes the session. -/
abbrev ElementParser (κ : Type) := Session κ → Option (Marker κ) × Session κ

/-- Whether a token starts an atom in most languages: an identifier, a number, a
character, or the opening of a string. -/
def startsPlainAtom (t : Token) : Bool :=
  match t.kind with
  | .identifier => true
  | .literal (.string (.opening _)) => true
  | .literal (.string _) => false
  | .literal _ => true
  | _ => false

/-- What is particular to the expressions of a language. -/
structure ExpressionGrammar (κ : Type) where
  operators : Operators κ
  startsAtom : Token → Bool := startsPlainAtom
  /-- Reads an atom at the cursor, given a way to read expressions inside of it that
  takes the least power of their operators. -/
  atom : (Nat → ElementParser κ) → ElementParser κ

namespace ExpressionGrammar

variable {κ : Type}

/-- The power with which a token starts an expression, if it can: as an operator in
front of an operand, else as an atom. -/
def startingPower? (g : ExpressionGrammar κ) (t : Token) : Option Nat :=
  match g.operators.before? t with
  | some op => some op.power
  | none => if g.startsAtom t then some Precedence.atom.power else none

/-- Completes a marker if what belongs to its element was found, and forgets it
otherwise. -/
def settle (m : OpenMarker) (kind : κ) (found : Bool) : ElementParser κ := fun s =>
  if found then
    let (marker, s) := s.complete m kind
    (some marker, s)
  else
    (none, s.drop m)

/-- An operand: an operator with the operand behind it, or an atom.  `inner` reads
expressions one level deeper. -/
def operand (g : ExpressionGrammar κ) (inner : Nat → ElementParser κ) : ElementParser κ := fun s =>
  match g.operators.before? s.current with
  | none => g.atom inner s
  | some op =>
    let (m, s) := s.mark
    let (found, s) := inner op.power s.advance
    settle m op.kind found.isSome s

/-- The two further operands of a ternary operator, behind its opener. -/
def ternaryOperands (op : TernaryOperator κ) (inner : Nat → ElementParser κ) (s : Session κ) :
    Bool × Session κ :=
  match inner 0 s with
  | (none, s) => (false, s)
  | (some _, s) =>
    match s.expect (.text op.separator) with
    | (false, s) => (false, s)
    | (true, s) =>
      let (found, s) := inner op.power s
      (found.isSome, s)

/-- Continues an expression behind `left` with the operator at the cursor.  If an
operand is missing there is no element, and `left` stands as it is. -/
def extend (g : ExpressionGrammar κ) (inner : Nat → ElementParser κ) (left : Marker κ) :
    ElementParser κ := fun s =>
  match g.operators.ternary? s.current with
  | some op =>
    let (m, s) := s.precede left
    let (found, s) := ternaryOperands op inner s.advance
    settle m op.kind found s
  | none =>
    match g.operators.between? s.current with
    | some op =>
      let (m, s) := s.precede left
      let (found, s) := inner op.rightPower s.advance
      settle m op.kind found.isSome s
    | none =>
      match g.operators.after? s.current with
      | some op =>
        let (m, s) := s.precede left
        settle m op.kind true s.advance
      | none => (none, s)

/-- Continues an expression behind `left` as long as the next operator has at least the
power `least`. -/
def extendWhile (g : ExpressionGrammar κ) (inner : Nat → ElementParser κ) (least : Nat) :
    Nat → Marker κ → Session κ → Marker κ × Session κ
  | 0, left, s => (left, s)
  | rounds + 1, left, s =>
    match g.operators.continuingPower? (s.nth 0) with
    | none => (left, s)
    | some power =>
      if least ≤ power then
        match g.extend inner left s.skipTrivia with
        | (some wider, s) => extendWhile g inner least rounds wider s
        | (none, s) => (left, s)
      else
        (left, s)

/-- An expression inside one that is already open. -/
def expressionBody (g : ExpressionGrammar κ) (inner : Nat → ElementParser κ) (least : Nat) :
    ElementParser κ := fun s =>
  match g.operand inner s with
  | (none, s) => (none, s)
  | (some left, s) =>
    let (whole, s) := g.extendWhile inner least s.remaining left s
    (some whole, s)

/-- An expression whose operators have at least the power `least`, when expressions may
nest `levels` deeper. -/
def expressionAt (g : ExpressionGrammar κ) : Nat → Nat → ElementParser κ
  | levels, least, s =>
    let s := s.skipTrivia
    if Session.endsLine s.current then
      (none, s.error "expected expression")
    else if (g.startingPower? s.current).isNone then
      (none, s.error ("unexpected token '" ++ s.current.text ++ "'"))
    else
      match levels with
      | 0 => (none, s.error "expression nested too deeply")
      | levels + 1 =>
        let s := { s with depth := s.depth + 1 }
        let (found, s) := g.expressionBody (g.expressionAt levels) least s
        (found, s.exitExpression)

/-- An expression whose operators have at least the power `least`. -/
def expression (g : ExpressionGrammar κ) (least : Nat) : ElementParser κ := fun s =>
  g.expressionAt (s.options.maxDepth - s.depth) least s

end ExpressionGrammar

end Lossless
