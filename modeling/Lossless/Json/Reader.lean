import Lossless.Text.Bytes

/-!
# Reading JSON

A `Reader` takes one value of the type it knows off the front of a text.  It reads
from left to right and gives up at the first thing that is wrong, so of several
faults **the one that comes first in the text is reported**.  There are three:
the text ends too early, the text is not JSON, or it is JSON of another shape than
the reader expects.

Records may be written in two ways: as an object with named members, or as a list of
their fields in order.  A value that is one of several alternatives is written as
its name, or as an object whose only member is the name with what belongs to it.
-/

namespace Lossless.Json

/-- What can be wrong with a text. -/
inductive Fault where
  /-- The text ends before the value does. -/
  | cutOff
  /-- The text is not JSON. -/
  | malformed
  /-- The text is JSON, but of the wrong shape. -/
  | mismatch
deriving DecidableEq, Repr

/-- A way to take a value off the front of a text. -/
abbrev Reader (α : Type) := List Char → Except Fault (α × List Char)

/-- A blank between the parts of a JSON text. -/
def isBlank (c : Char) : Bool :=
  c == ' ' || c == '\n' || c == '\t' || c == '\r'

/-- A text without the blanks in front of it. -/
def skipBlanks (cs : List Char) : List Char :=
  cs.dropWhile isBlank

/-- What follows a word with which a text has to begin. -/
def afterWord : List Char → List Char → Except Fault (List Char)
  | [], cs => .ok cs
  | _ :: _, [] => .error .cutOff
  | w :: ws, c :: cs => if c == w then afterWord ws cs else .error .malformed

/-! ## Strings -/

/-- The value of a hexadecimal digit. -/
def hexValue? (c : Char) : Option Nat :=
  if '0' ≤ c && c ≤ '9' then some (c.toNat - 48)
  else if 'a' ≤ c && c ≤ 'f' then some (c.toNat - 87)
  else if 'A' ≤ c && c ≤ 'F' then some (c.toNat - 55)
  else none

/-- The number that four hexadecimal digits stand for. -/
def codeUnit : Reader Nat := fun cs =>
  match cs.take 4 |>.mapM hexValue? with
  | some [a, b, c, d] => .ok (((a * 16 + b) * 16 + c) * 16 + d, cs.drop 4)
  | _ => .error (if Text.byteSize (cs.take 4) < 4 then .cutOff else .malformed)

/-- The character of a code in hexadecimal digits.  A character beyond the first plane
is written as two codes in a row, a leading and a trailing one. -/
def codedChar : Reader Char := fun cs => do
  let (lead, rest) ← codeUnit cs
  if 0xDC00 ≤ lead && lead ≤ 0xDFFF then
    .error .malformed
  else if 0xD800 ≤ lead && lead ≤ 0xDBFF then
    let (trail, rest) ← codeUnit (← afterWord ['\\', 'u'] rest)
    if 0xDC00 ≤ trail && trail ≤ 0xDFFF then
      .ok (Char.ofNat (0x10000 + (lead - 0xD800) * 0x400 + (trail - 0xDC00)), rest)
    else
      .error .malformed
  else
    .ok (Char.ofNat lead, rest)

/-- The character that a letter behind a backslash stands for. -/
def escaped? (c : Char) : Option Char :=
  match c with
  | '"' => some '"'
  | '\\' => some '\\'
  | '/' => some '/'
  | 'b' => some '\x08'
  | 'f' => some '\x0c'
  | 'n' => some '\n'
  | 'r' => some '\r'
  | 't' => some '\t'
  | _ => none

/-- The character that an escape stands for, read behind its backslash. -/
def escapedChar : Reader Char
  | [] => .error .cutOff
  | c :: cs =>
    if c == 'u' then
      codedChar cs
    else
      match escaped? c with
      | some d => .ok (d, cs)
      | none => .error .malformed

/-- The characters of a string behind its opening quote, through its closing one. -/
def stringBody : Nat → Reader (List Char)
  | 0, _ => .error .cutOff
  | _ + 1, [] => .error .cutOff
  | rounds + 1, c :: cs =>
    if c == '"' then
      .ok ([], cs)
    else if c == '\\' then do
      let (d, rest) ← escapedChar cs
      let (ds, rest) ← stringBody rounds rest
      .ok (d :: ds, rest)
    else if c.toNat < 32 then
      .error .malformed
    else do
      let (ds, rest) ← stringBody rounds cs
      .ok (c :: ds, rest)

/-- A string behind its opening quote. -/
def stringRest : Reader String := fun cs => do
  let (text, rest) ← stringBody cs.length cs
  .ok (String.ofList text, rest)

/-! ## Numbers -/

/-- A number as written. -/
structure Numeral where
  negative : Bool
  /-- The digits in front of the point. -/
  whole : List Char
  /-- The digits behind the point, if there is one. -/
  fraction : Option (List Char)
  /-- The exponent of ten, if there is one. -/
  exponent : Option Int
deriving DecidableEq, Repr

/-- The value of a row of decimal digits. -/
def decimalValue (ds : List Char) : Nat :=
  ds.foldl (fun n d => n * 10 + (d.toNat - 48)) 0

/-- At least one decimal digit; `ending` is the fault of a text that ends instead. -/
def someDigits (ending : Fault) : Reader (List Char)
  | [] => .error ending
  | c :: cs =>
    if c.isDigit then
      .ok (c :: cs.takeWhile Char.isDigit, cs.dropWhile Char.isDigit)
    else
      .error .malformed

/-- The whole part of a number, which has no leading zero. -/
def wholePart (ending : Fault) : Reader (List Char) := fun cs => do
  let (ds, rest) ← someDigits ending cs
  if ds.head? == some '0' && 1 < ds.length then .error .malformed else .ok (ds, rest)

/-- The digits behind a point, if the text begins with one. -/
def fractionPart (ending : Fault) : Reader (Option (List Char))
  | '.' :: cs => do
    let (ds, rest) ← someDigits ending cs
    .ok (some ds, rest)
  | cs => .ok (none, cs)

/-- The exponent of ten, if the text begins with one. -/
def exponentPart (ending : Fault) : Reader (Option Int)
  | [] => .ok (none, [])
  | c :: cs =>
    if c == 'e' || c == 'E' then
      match cs with
      | '-' :: cs => do
        let (ds, rest) ← someDigits ending cs
        .ok (some (-(decimalValue ds : Int)), rest)
      | '+' :: cs => do
        let (ds, rest) ← someDigits ending cs
        .ok (some (decimalValue ds : Int), rest)
      | cs => do
        let (ds, rest) ← someDigits ending cs
        .ok (some (decimalValue ds : Int), rest)
    else
      .ok (none, c :: cs)

/-- A number; `ending` is the fault of a text that ends within it. -/
def numeral (ending : Fault) : Reader Numeral := fun cs => do
  let (negative, cs) := match cs with
    | '-' :: cs => (true, cs)
    | cs => (false, cs)
  let (whole, rest) ← wholePart ending cs
  let (fraction, rest) ← fractionPart ending rest
  let (exponent, rest) ← exponentPart ending rest
  .ok (⟨negative, whole, fraction, exponent⟩, rest)

/-- The largest number of sixty-four bits. -/
def maxWord : Nat := Nat.pow 2 64 - 1

/-- The offset that a number stands for, if it has no sign, fraction or exponent and is
not too large. -/
def Numeral.offset? (n : Numeral) : Option Nat :=
  let value := decimalValue n.whole
  if !n.negative && n.fraction.isNone && n.exponent.isNone && value ≤ maxWord then
    some value
  else
    none

/-! A number that is no offset is taken as a double-precision float: the digits that fit
sixty-four bits, rounded, times a power of ten, rounded too.  It is part of JSON only if
that product is finite. -/

/-- The digits of `ds` joined to `n` for as long as the result fits sixty-four bits, and
the digits that are left. -/
def leading (n : Nat) : List Char → Nat × List Char
  | [] => (n, [])
  | d :: ds =>
    let m := n * 10 + (d.toNat - 48)
    if m ≤ maxWord then leading m ds else (n, d :: ds)

/-- A number rounded to so many binary digits; a tie goes to the even neighbour. -/
def roundTo (bits n : Nat) : Nat :=
  let unit := Nat.pow 2 (Nat.log2 n + 1 - bits)
  let quotient := n / unit
  let twice := 2 * (n % unit)
  if unit < twice || (twice == unit && quotient % 2 == 1) then
    (quotient + 1) * unit
  else
    quotient * unit

/-- The least number that is too large for a double-precision float. -/
def floatBound : Nat := Nat.pow 2 1024 - Nat.pow 2 970

/-- Whether a number is too large for a double-precision float.  Powers of ten beyond
the 308th are too large themselves. -/
def Numeral.overflows (n : Numeral) : Bool :=
  let places := n.fraction.getD []
  let (high, wholeLeft) := leading 0 n.whole
  let (significand, placesLeft) := leading high places
  let shift : Int :=
    wholeLeft.length - (places.length - placesLeft.length : Nat) + n.exponent.getD 0
  match shift with
  | .negSucc _ => false
  | .ofNat e =>
    significand != 0
      && (308 < e || floatBound ≤ roundTo 53 significand * roundTo 53 (Nat.pow 10 e))

/-! ## Values -/

/-- The fault of a text that begins with some other value than the one expected. -/
def wrongType (cs : List Char) : Fault :=
  let verdict {α : Type} : Except Fault α → Fault
    | .ok _ => .mismatch
    | .error fault => fault
  match skipBlanks cs with
  | [] => .cutOff
  | '"' :: rest => verdict (stringRest rest)
  | '[' :: _ => .mismatch
  | 'n' :: rest => verdict (afterWord "ull".toList rest)
  | 't' :: rest => verdict (afterWord "rue".toList rest)
  | 'f' :: rest => verdict (afterWord "alse".toList rest)
  | c :: rest =>
    if c == '\x7b' then .mismatch
    else if c == '-' || c.isDigit then
      match numeral .cutOff (c :: rest) with
      | .ok (n, _) => if n.overflows then .malformed else .mismatch
      | .error fault => fault
    else .malformed

namespace Reader

/-- A text. -/
def string : Reader String := fun cs =>
  match skipBlanks cs with
  | '"' :: rest => stringRest rest
  | other => .error (wrongType other)

/-- A text of exactly one character. -/
def char : Reader Char := fun cs => do
  let (s, rest) ← string cs
  match s.toList with
  | [c] => .ok (c, rest)
  | _ => .error .mismatch

/-- A truth value. -/
def bool : Reader Bool := fun cs =>
  match skipBlanks cs with
  | 't' :: rest => do .ok (true, ← afterWord "rue".toList rest)
  | 'f' :: rest => do .ok (false, ← afterWord "alse".toList rest)
  | other => .error (wrongType other)

/-- An offset: a natural number that is not too large. -/
def offset : Reader Nat := fun cs =>
  match skipBlanks cs with
  | [] => .error .cutOff
  | c :: rest =>
    if c == '-' || c.isDigit then
      match numeral .cutOff (c :: rest) with
      | .error fault => .error fault
      | .ok (n, rest) =>
        match n.offset? with
        | some value => .ok (value, rest)
        | none => .error (if n.overflows then .malformed else .mismatch)
    else
      .error (wrongType (c :: rest))

/-- The value that stands for nothing. -/
def null : Reader Unit := fun cs =>
  match skipBlanks cs with
  | 'n' :: rest => do .ok ((), ← afterWord "ull".toList rest)
  | other => .error (wrongType other)

/-- A value that may be missing. -/
def option {α : Type} (read : Reader α) : Reader (Option α) := fun cs =>
  match skipBlanks cs with
  | 'n' :: rest => do .ok (none, ← afterWord "ull".toList rest)
  | other => do
    let (a, rest) ← read other
    .ok (some a, rest)

/-- What stands in front of the next item of a list: `none` at the end of the list, and
the text from the item on otherwise. -/
def nextItem (first : Bool) (cs : List Char) : Except Fault (Option (List Char)) :=
  match skipBlanks cs with
  | [] => .error .cutOff
  | ']' :: _ => .ok none
  | c :: rest =>
    if first then
      .ok (some (c :: rest))
    else if c == ',' then
      match skipBlanks rest with
      | [] => .error .cutOff
      | ']' :: _ => .error .malformed
      | item => .ok (some item)
    else
      .error .malformed

/-- What follows the bracket that closes a list. -/
def closeList (cs : List Char) : Except Fault (List Char) :=
  match skipBlanks cs with
  | [] => .error .cutOff
  | ']' :: rest => .ok rest
  | _ => .error .malformed

/-- The items of a list and its closing bracket. -/
def items {α : Type} (read : Reader α) : Nat → Bool → Reader (List α)
  | 0, _, _ => .error .cutOff
  | rounds + 1, first, cs => do
    match ← nextItem first cs with
    | none => .ok ([], ← closeList cs)
    | some item =>
      let (a, rest) ← read item
      let (as, rest) ← items read rounds false rest
      .ok (a :: as, rest)

/-- A list. -/
def list {α : Type} (read : Reader α) : Reader (List α) := fun cs =>
  match skipBlanks cs with
  | '[' :: rest => items read rest.length true rest
  | other => .error (wrongType other)

/-- What follows the quote that opens the name of a member. -/
def openName : List Char → Except Fault (List Char)
  | [] => .error .cutOff
  | '"' :: rest => .ok rest
  | _ => .error .malformed

/-- What stands in front of the next member of an object: `none` at the end of the
object, and the text behind the opening quote of its name otherwise. -/
def nextMember (first : Bool) (cs : List Char) : Except Fault (Option (List Char)) :=
  match skipBlanks cs with
  | [] => .error .cutOff
  | c :: rest =>
    if c == '\x7d' then .ok none
    else if first then (openName (c :: rest)).map some
    else if c == ',' then (openName (skipBlanks rest)).map some
    else .error .malformed

/-- What follows the brace that closes an object. -/
def closeObject (cs : List Char) : Except Fault (List Char) :=
  match skipBlanks cs with
  | [] => .error .cutOff
  | c :: rest => if c == '\x7d' then .ok rest else .error .malformed

/-- What follows the colon behind the name of a member. -/
def colon (cs : List Char) : Except Fault (List Char) :=
  match skipBlanks cs with
  | [] => .error .cutOff
  | ':' :: rest => .ok rest
  | _ => .error .malformed

/-! ## Values that nobody asks for

A value that is only passed over may nest to any depth.  Opening a level takes two
rounds for its one bracket, so twice the length of the text is enough. -/

/-- A string that is only passed over, behind its opening quote.  The codes of
characters are not looked at. -/
def skipString : Nat → List Char → Except Fault (List Char)
  | 0, _ => .error .cutOff
  | _ + 1, [] => .error .cutOff
  | rounds + 1, c :: cs =>
    if c == '"' then
      .ok cs
    else if c == '\\' then
      match cs with
      | [] => .error .cutOff
      | d :: ds =>
        if d == 'u' then do
          let (_, rest) ← codeUnit ds
          skipString rounds rest
        else if (escaped? d).isSome then
          skipString rounds ds
        else
          .error .malformed
    else if c.toNat < 32 then
      .error .malformed
    else
      skipString rounds cs

mutual

/-- A value of any shape that is only passed over. -/
def skipValue : Nat → List Char → Except Fault (List Char)
  | 0, _ => .error .cutOff
  | rounds + 1, cs =>
    match skipBlanks cs with
    | [] => .error .cutOff
    | '"' :: rest => skipString rest.length rest
    | 'n' :: rest => afterWord "ull".toList rest
    | 't' :: rest => afterWord "rue".toList rest
    | 'f' :: rest => afterWord "alse".toList rest
    | '[' :: rest => skipItems rounds true rest
    | c :: rest =>
      if c == '\x7b' then
        skipMembers rounds true rest
      else if c == '-' || c.isDigit then do
        let (_, rest) ← numeral .malformed (c :: rest)
        .ok rest
      else
        .error .malformed

/-- The items of a list that is only passed over, and its closing bracket. -/
def skipItems : Nat → Bool → List Char → Except Fault (List Char)
  | 0, _, _ => .error .cutOff
  | rounds + 1, first, cs => do
    match ← nextItem first cs with
    | none => closeList cs
    | some item =>
      let rest ← skipValue rounds item
      skipItems rounds false rest

/-- The members of an object that is only passed over, and its closing brace. -/
def skipMembers : Nat → Bool → List Char → Except Fault (List Char)
  | 0, _, _ => .error .cutOff
  | rounds + 1, first, cs => do
    match ← nextMember first cs with
    | none => closeObject cs
    | some name =>
      let rest ← skipString name.length name
      let rest ← colon rest
      let rest ← skipValue rounds rest
      skipMembers rounds false rest

end

/-! ## Records and alternatives -/

/-- A field of a record: its name, and how to read it into the record. -/
structure Field (σ : Type) where
  name : String
  read : σ → Reader σ

/-- What a record asks of its text. -/
structure Shape (σ : Type) where
  fields : List (Field σ)
  /-- Every field has to be there. -/
  complete : Bool
  /-- No other member may be there. -/
  closed : Bool

/-- The fields of a record in order, and the closing bracket. -/
def positional {σ : Type} (complete : Bool) : List (Field σ) → Bool → σ → Reader σ
  | [], _, s, cs => do .ok (s, ← closeList cs)
  | f :: fs, first, s, cs => do
    match ← nextItem first cs with
    | none => if complete then .error .mismatch else .ok (s, ← closeList cs)
    | some item =>
      let (s, rest) ← f.read s item
      positional complete fs false s rest

/-- The members of a record and the closing brace, with the names of the fields that
have been read.  A field must not be read twice. -/
def keyed {σ : Type} (shape : Shape σ) : Nat → Bool → List String → σ → Reader (σ × List String)
  | 0, _, _, _, _ => .error .cutOff
  | rounds + 1, first, seen, s, cs => do
    match ← nextMember first cs with
    | none => .ok ((s, seen), ← closeObject cs)
    | some name =>
      let (key, rest) ← stringRest name
      match shape.fields.find? (·.name == key) with
      | some f =>
        if seen.contains key then
          .error .mismatch
        else
          let (s, rest) ← f.read s (← colon rest)
          keyed shape rounds false (key :: seen) s rest
      | none =>
        if shape.closed then
          .error .mismatch
        else
          let rest ← skipValue (2 * rest.length + 1) (← colon rest)
          keyed shape rounds false seen s rest

/-- A record; fields that are not given keep their value in `s`. -/
def record {σ : Type} (shape : Shape σ) (s : σ) : Reader σ := fun cs =>
  match skipBlanks cs with
  | '[' :: rest => positional shape.complete shape.fields true s rest
  | [] => .error .cutOff
  | c :: rest =>
    if c == '\x7b' then do
      let ((s, seen), rest) ← keyed shape rest.length true [] s rest
      if shape.complete && !shape.fields.all (fun f => seen.contains f.name) then
        .error .mismatch
      else
        .ok (s, rest)
    else
      .error (wrongType (c :: rest))

/-- An alternative: a plain name, or a name with a value that belongs to it. -/
inductive Alternative (α : Type) where
  | plain (value : α)
  | holding (read : Reader α)

/-- One of several alternatives, told apart by name. -/
def alternative {α : Type} (named? : String → Option (Alternative α)) : Reader α := fun cs =>
  match skipBlanks cs with
  | [] => .error .cutOff
  | '"' :: rest => do
    let (name, rest) ← stringRest rest
    match named? name with
    | some (.plain a) => .ok (a, rest)
    | _ => .error .mismatch
  | c :: rest =>
    if c == '\x7b' then do
      let (name, rest) ← stringRest (← openName (skipBlanks rest))
      match named? name with
      | none => .error .mismatch
      | some (.plain a) =>
        let (_, rest) ← null (← colon rest)
        .ok (a, ← closeObject rest)
      | some (.holding read) =>
        let (a, rest) ← read (← colon rest)
        .ok (a, ← closeObject rest)
    else
      .error .malformed

/-- A whole text that holds one value and nothing else. -/
def document {α : Type} (read : Reader α) (text : String) : Except Fault α := do
  let (a, rest) ← read text.toList
  if (skipBlanks rest).isEmpty then .ok a else .error .malformed

end Reader

end Lossless.Json
