import Lossless.Operators
import Lossless.Registry

/-!
# Elements of the calculator language

The kinds of elements that a calculator program is made of, its operators, and the two
constructors that refuse malformed elements: a group has to end with its closing
bracket, and only a name can be assigned to.
-/

namespace Lossless.Calculator

/-- A kind of element. -/
inductive Kind where
  | letStatement
  | expressionStatement
  | badStatement
  | number
  | char
  | name
  | bool
  | string
  | group
  | neg
  | not
  | bitNot
  | assign
  | elvis
  | cond
  | or
  | and
  | bitOr
  | bitXor
  | bitAnd
  | eq
  | ne
  | lt
  | le
  | gt
  | ge
  | shl
  | shr
  | add
  | sub
  | mul
  | div
  | rem
  | pow
deriving DecidableEq, Repr

/-- The name by which a kind is shown. -/
def Kind.shownName : Kind → String
  | letStatement => "Let"
  | expressionStatement => "ExprStmt"
  | badStatement => "BadStatement"
  | number => "Number"
  | char => "Char"
  | name => "Name"
  | bool => "Bool"
  | string => "Str"
  | group => "Group"
  | neg => "Neg"
  | not => "Not"
  | bitNot => "BitNot"
  | assign => "Assign"
  | elvis => "Elvis"
  | cond => "Cond"
  | or => "Or"
  | and => "And"
  | bitOr => "BitOr"
  | bitXor => "BitXor"
  | bitAnd => "BitAnd"
  | eq => "Eq"
  | ne => "Ne"
  | lt => "Lt"
  | le => "Le"
  | gt => "Gt"
  | ge => "Ge"
  | shl => "Shl"
  | shr => "Shr"
  | add => "Add"
  | sub => "Sub"
  | mul => "Mul"
  | div => "Div"
  | rem => "Rem"
  | pow => "Pow"

instance : Named Kind where
  name := Kind.shownName

/-- All kinds. -/
def Kind.all : List Kind :=
  [letStatement, expressionStatement, badStatement, number, char, name, bool, string, group,
    neg, not, bitNot, assign, elvis, cond, or, and, bitOr, bitXor, bitAnd, eq, ne, lt, le, gt,
    ge, shl, shr, add, sub, mul, div, rem, pow]

/-- The kind that is shown by a name. -/
def Kind.ofName? (s : String) : Option Kind :=
  all.find? (·.shownName == s)

/-- The operators, loosest first. -/
def operators : Operators Kind :=
  let ops : Operators Kind := { }
  ops
    |>.addBefore "-" Precedence.unaryBefore.power .neg
    |>.addBefore "!" Precedence.unaryBefore.power .not
    |>.addBefore "~" Precedence.unaryBefore.power .bitNot
    |>.addBetween "=" Precedence.assignment.power .right .assign
    |>.addBetween "?:" Precedence.ternary.power .right .elvis
    |>.addTernary "?" ":" Precedence.ternary.power .cond
    |>.addBetween "||" Precedence.logicalOr.power .left .or
    |>.addBetween "&&" Precedence.logicalAnd.power .left .and
    |>.addBetween "|" Precedence.bitOr.power .left .bitOr
    |>.addBetween "^" Precedence.bitXor.power .left .bitXor
    |>.addBetween "&" Precedence.bitAnd.power .left .bitAnd
    |>.addBetween "==" Precedence.equality.power .left .eq
    |>.addBetween "!=" Precedence.equality.power .left .ne
    |>.addBetween "<" Precedence.comparison.power .left .lt
    |>.addBetween "<=" Precedence.comparison.power .left .le
    |>.addBetween ">" Precedence.comparison.power .left .gt
    |>.addBetween ">=" Precedence.comparison.power .left .ge
    |>.addBetween "<<" Precedence.shift.power .left .shl
    |>.addBetween ">>" Precedence.shift.power .left .shr
    |>.addBetween "+" Precedence.additive.power .left .add
    |>.addBetween "-" Precedence.additive.power .left .sub
    |>.addBetween "*" Precedence.multiplicative.power .left .mul
    |>.addBetween "/" Precedence.multiplicative.power .left .div
    |>.addBetween "%" Precedence.multiplicative.power .left .rem
    |>.addBetween "**" Precedence.exponent.power .right .pow

/-- The last significant token among the parts of an element. -/
def lastToken? (parts : List (Tree Kind)) : Option Token :=
  ((parts.filterMap Tree.token?).filter (!·.isTrivia)).getLast?

/-- A group is refused unless its last significant token is the closing bracket. -/
def groupConstructor : Constructor Kind := fun _ parts span =>
  if (lastToken? parts).map (·.text) == some ")" then
    .built (.node (.element .group) span parts)
  else
    .refused "unclosed group"

/-- An assignment is refused unless the first node in it is a name. -/
def assignConstructor : Constructor Kind := fun _ parts span =>
  if (parts.find? Tree.isNode).bind Tree.elementKind? == some .name then
    .built (.node (.element .assign) span parts)
  else
    .refused "invalid assignment target"

/-- The constructors of the language. -/
def registry : Registry Kind :=
  let none : Registry Kind := { }
  (none.register .group groupConstructor).register .assign assignConstructor

end Lossless.Calculator
