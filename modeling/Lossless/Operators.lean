import Lossless.Token

/-!
# Operator tables

Every operator has a *binding power*; the higher it is, the tighter the operator
binds.  A table keeps operators of four sorts by their text.  An operator added later
takes the place of an earlier one with the same text, except that the first of two
ternary operators that open alike holds.

Only operator, keyword and punctuation tokens are looked up, so an identifier or a
literal never acts as an operator.
-/

namespace Lossless

/-- The usual levels of precedence, loosest first. -/
inductive Precedence where
  | assignment
  | ternary
  | logicalOr
  | logicalAnd
  | bitOr
  | bitXor
  | bitAnd
  | equality
  | comparison
  | shift
  | additive
  | multiplicative
  | exponent
  | unaryBefore
  | unaryAfter
  | atom
deriving DecidableEq, Repr

/-- The binding power of a level.  Between two levels there is room for others. -/
def Precedence.power : Precedence → Nat
  | assignment => 10
  | ternary => 20
  | logicalOr => 30
  | logicalAnd => 40
  | bitOr => 50
  | bitXor => 60
  | bitAnd => 70
  | equality => 80
  | comparison => 90
  | shift => 100
  | additive => 110
  | multiplicative => 120
  | exponent => 130
  | unaryBefore => 140
  | unaryAfter => 150
  | atom => 160

/-- Which of two equal operators in a row takes the operand between them. -/
inductive Associativity where
  | left
  | right
deriving DecidableEq, Repr

/-- An operator with one operand, in front of it or behind it. -/
structure UnaryOperator (κ : Type) where
  power : Nat
  kind : κ
deriving DecidableEq, Repr

/-- An operator between two operands. -/
structure BinaryOperator (κ : Type) where
  power : Nat
  associativity : Associativity
  kind : κ
deriving DecidableEq, Repr

/-- The power with which the right operand is read: a left-associative operator leaves
an equal one to the right alone. -/
def BinaryOperator.rightPower {κ : Type} (op : BinaryOperator κ) : Nat :=
  match op.associativity with
  | .left => op.power + 1
  | .right => op.power

/-- An operator in two parts between three operands, associative to the right. -/
structure TernaryOperator (κ : Type) where
  opener : String
  separator : String
  power : Nat
  kind : κ
deriving DecidableEq, Repr

/-- A table of operators, the latest first in each list but the last. -/
structure Operators (κ : Type) where
  before : List (String × UnaryOperator κ) := []
  between : List (String × BinaryOperator κ) := []
  after : List (String × UnaryOperator κ) := []
  ternary : List (TernaryOperator κ) := []

namespace Operators

variable {κ : Type}

/-- The table with an operator in front of its operand. -/
def addBefore (ops : Operators κ) (text : String) (power : Nat) (kind : κ) : Operators κ :=
  { ops with before := (text, ⟨power, kind⟩) :: ops.before }

/-- The table with an operator between its operands. -/
def addBetween (ops : Operators κ) (text : String) (power : Nat)
    (associativity : Associativity) (kind : κ) : Operators κ :=
  { ops with between := (text, ⟨power, associativity, kind⟩) :: ops.between }

/-- The table with an operator behind its operand. -/
def addAfter (ops : Operators κ) (text : String) (power : Nat) (kind : κ) : Operators κ :=
  { ops with after := (text, ⟨power, kind⟩) :: ops.after }

/-- The table with a ternary operator. -/
def addTernary (ops : Operators κ) (opener separator : String) (power : Nat) (kind : κ) :
    Operators κ :=
  { ops with ternary := ops.ternary ++ [⟨opener, separator, power, kind⟩] }

/-- Whether a token may be an operator at all. -/
def mayOperate (t : Token) : Bool :=
  match t.kind with
  | .operator | .keyword | .punctuation => true
  | _ => false

/-- The operator that a token is in front of an operand. -/
def before? (ops : Operators κ) (t : Token) : Option (UnaryOperator κ) :=
  if mayOperate t then ops.before.lookup t.text else none

/-- The operator that a token is between two operands. -/
def between? (ops : Operators κ) (t : Token) : Option (BinaryOperator κ) :=
  if mayOperate t then ops.between.lookup t.text else none

/-- The operator that a token is behind an operand. -/
def after? (ops : Operators κ) (t : Token) : Option (UnaryOperator κ) :=
  if mayOperate t then ops.after.lookup t.text else none

/-- The ternary operator that a token opens. -/
def ternary? (ops : Operators κ) (t : Token) : Option (TernaryOperator κ) :=
  if mayOperate t then ops.ternary.find? (·.opener == t.text) else none

/-- The power with which a token continues an expression, if it can: as the opener of a
ternary operator, else between operands, else behind one. -/
def continuingPower? (ops : Operators κ) (t : Token) : Option Nat :=
  (ops.ternary? t).map (·.power) <|> (ops.between? t).map (·.power)
    <|> (ops.after? t).map (·.power)

end Operators

end Lossless
