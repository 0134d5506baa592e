import Lossless.Lexer.Lexeme
import Lossless.Lexer.Rules

/-!
# Numbers

A number starts with a decimal digit.  If the text begins with a prefix of one of
the bases, the number is an integer in that base, and a prefix without a digit
behind it is an error that covers the prefix alone.  Otherwise it is decimal, and a
fraction or an exponent makes it a floating-point number.  After the first digit
underscores may separate digits.

A suffix chooses the precision.  It only counts when it stands alone: in `1fx` the
`f` begins a word and is no suffix.
-/

namespace Lossless

/-- Whether a character is a digit of a base. -/
def IntegerBase.isDigit : IntegerBase → Char → Bool
  | dec, c => c.isDigit
  | hex, c => c.isDigit || ('a' ≤ c && c ≤ 'f') || ('A' ≤ c && c ≤ 'F')
  | bin, c => c == '0' || c == '1'
  | oct, c => '0' ≤ c && c ≤ '7'

namespace Number

/-- Whether a character may stand behind the first digit of a base. -/
def continues (base : IntegerBase) (c : Char) : Bool :=
  base.isDigit c || c == '_'

/-- The digits with which a text begins, and the rest: a digit, then digits and
underscores. -/
def digits (base : IntegerBase) : List Char → List Char × List Char
  | [] => ([], [])
  | c :: cs =>
    if base.isDigit c then
      (c :: cs.takeWhile (continues base), cs.dropWhile (continues base))
    else
      ([], c :: cs)

/-- Whether a text begins with a decimal digit. -/
def startsWithDigit : List Char → Bool
  | [] => false
  | c :: _ => c.isDigit

/-- The fraction with which a text begins, if it does, and the rest. -/
def fraction : List Char → List Char × List Char
  | '.' :: cs =>
    if startsWithDigit cs then
      let (ds, rest) := digits .dec cs
      ('.' :: ds, rest)
    else
      ([], '.' :: cs)
  | cs => ([], cs)

/-- The sign with which a text begins, if it does, and the rest. -/
def sign : List Char → List Char × List Char
  | '+' :: cs => (['+'], cs)
  | '-' :: cs => (['-'], cs)
  | cs => ([], cs)

/-- The exponent with which a text begins, if it does, and the rest. -/
def exponent : List Char → List Char × List Char
  | [] => ([], [])
  | e :: cs =>
    if e == 'e' || e == 'E' then
      let (s, unsigned) := sign cs
      if startsWithDigit unsigned then
        let (ds, rest) := digits .dec unsigned
        (e :: s ++ ds, rest)
      else
        ([], e :: cs)
    else
      ([], e :: cs)

/-- The character with which a text begins, if no word goes on behind it. -/
def standalone? (r : Rules) : List Char → Option Char
  | [] => none
  | [c] => some c
  | c :: d :: _ => if r.continuesWord d then none else some c

/-- The precision that a suffix asks for, if the text begins with one. -/
def suffix? (r : Rules) (cs : List Char) : Option Precision :=
  match standalone? r cs with
  | none => none
  | some c =>
    if some c == r.floatSuffix then some .float
    else if some c == r.doubleSuffix then some .double
    else none

/-- A decimal number. -/
def decimal (r : Rules) (cs : List Char) : Cut :=
  let (whole, afterWhole) := digits .dec cs
  let (frac, afterFraction) := fraction afterWhole
  let (exp, rest) := exponent afterFraction
  let text := whole ++ frac ++ exp
  match suffix? r rest with
  | some precision => ⟨.literal (.floating precision), text ++ rest.take 1, rest.drop 1⟩
  | none =>
    if frac.isEmpty && exp.isEmpty then
      ⟨.literal (.integer .dec), text, rest⟩
    else
      ⟨.literal (.floating .double), text, rest⟩

/-- An integer behind the prefix of its base. -/
def prefixed (mark : List Char) (base : IntegerBase) (cs : List Char) : Cut :=
  match digits base (cs.drop mark.length) with
  | ([], rest) => ⟨.error, mark, rest⟩
  | (ds, rest) => ⟨.literal (.integer base), mark ++ ds, rest⟩

/-- The number with which a text begins that starts with a digit. -/
def cut (r : Rules) (cs : List Char) : Cut :=
  match longest? Prod.fst cs r.numberPrefixes with
  | some (mark, base) => prefixed mark base cs
  | none => decimal r cs

end Number

end Lossless
