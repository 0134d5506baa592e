import Lossless.Lexer.Number
import Lossless.Text.Blank

/-!
# Tokens outside strings

The rules for everything but string literals: line ends and blanks, comments,
character literals, numbers, punctuation and operators, and words.  Each rule takes
at least one character, and together they classify any text: what nothing else
claims is an error of one character.
-/

namespace Lossless

namespace Plain

/-- The line end with which a text begins. -/
def linebreak? : List Char → Option Cut
  | '\r' :: '\n' :: cs => some ⟨.linebreak, ['\r', '\n'], cs⟩
  | c :: cs => if Text.isLineEnd c then some ⟨.linebreak, [c], cs⟩ else none
  | [] => none

/-- The blanks with which a text begins, up to a line end. -/
def blanks? : List Char → Option Cut
  | c :: cs =>
    if Text.isInlineBlank c then
      some ⟨.whitespace, c :: cs.takeWhile Text.isInlineBlank, cs.dropWhile Text.isInlineBlank⟩
    else
      none
  | [] => none

/-- A text up to its next line end, and the rest. -/
def restOfLine (cs : List Char) : List Char × List Char :=
  (cs.takeWhile (!Text.isLineEnd ·), cs.dropWhile (!Text.isLineEnd ·))

/-- A text through the first place at which `mark` stands, and the rest. -/
def through? (mark : List Char) : List Char → Option (List Char × List Char)
  | [] => if mark.isEmpty then some ([], []) else none
  | c :: cs =>
    if mark.isPrefixOf (c :: cs) then
      some (mark, (c :: cs).drop mark.length)
    else
      (through? mark cs).map fun (taken, rest) => (c :: taken, rest)

/-- A comment that runs to the end of its line. -/
def lineComment (cs : List Char) : Cut :=
  let (line, rest) := restOfLine cs
  ⟨.comment, line, rest⟩

/-- A comment between two delimiters.  Without its closer it is an error that takes
all that is left. -/
def blockComment (opener closer cs : List Char) : Cut :=
  match through? closer (cs.drop opener.length) with
  | some (taken, rest) => ⟨.comment, opener ++ taken, rest⟩
  | none => ⟨.error, cs, []⟩

/-- The comment with which a text begins.  Where it begins with both kinds of opener,
the longer one decides, and of equally long ones the line comment. -/
def comment? (r : Rules) (cs : List Char) : Option Cut :=
  match longest? id cs r.lineComments, longest? Prod.fst cs r.blockComments with
  | some line, some (opener, closer) =>
    if line.length < opener.length then
      some (blockComment opener closer cs)
    else
      some (lineComment cs)
  | some _, none => some (lineComment cs)
  | none, some (opener, closer) => some (blockComment opener closer cs)
  | none, none => none

/-- What stands between the delimiters of a character literal: its characters, the
rest, and whether they are one character or one escape. -/
def charBody (r : Rules) (delimiter : Char) : List Char → List Char × List Char × Bool
  | [] => ([], [], false)
  | c :: cs =>
    if some c == r.escapeChar then
      match cs with
      | d :: ds => if Text.isLineEnd d then ([c], d :: ds, false) else ([c, d], ds, true)
      | [] => ([c], [], false)
    else if c == delimiter || Text.isLineEnd c then
      ([], c :: cs, false)
    else
      ([c], cs, true)

/-- A text through the next delimiter on its line that is not escaped, or else up to
the end of the line, and the rest. -/
def throughDelimiter (escapeChar : Option Char) (delimiter : Char) :
    List Char → List Char × List Char
  | [] => ([], [])
  | [c] => if Text.isLineEnd c then ([], [c]) else ([c], [])
  | c :: d :: cs =>
    if Text.isLineEnd c then
      ([], c :: d :: cs)
    else if some c == escapeChar then
      if Text.isLineEnd d then
        ([c], d :: cs)
      else
        let (taken, rest) := throughDelimiter escapeChar delimiter cs
        (c :: d :: taken, rest)
    else if c == delimiter then
      ([c], d :: cs)
    else
      let (taken, rest) := throughDelimiter escapeChar delimiter (d :: cs)
      (c :: taken, rest)

/-- The character literal that opens with `delimiter`, in front of `cs`.  A malformed
one is an error that ends with the next delimiter on the line, or with the line. -/
def charLiteral (r : Rules) (delimiter : Char) (cs : List Char) : Cut :=
  let (body, afterBody, wellFormed) := charBody r delimiter cs
  if wellFormed && afterBody.head? == some delimiter then
    ⟨.literal .char, delimiter :: body ++ [delimiter], afterBody.drop 1⟩
  else
    let (stray, rest) := throughDelimiter r.escapeChar delimiter afterBody
    ⟨.error, delimiter :: body ++ stray, rest⟩

/-- The word that starts with `c`, in front of `cs`. -/
def word (r : Rules) (c : Char) (cs : List Char) : Cut :=
  let text := c :: cs.takeWhile r.continuesWord
  ⟨if r.isKeyword text then .keyword else .identifier, text, cs.dropWhile r.continuesWord⟩

/-- The punctuation or else the operator with which a text begins. -/
def symbol? (r : Rules) (cs : List Char) : Option Cut :=
  match longest? id cs r.punctuation with
  | some mark => some ⟨.punctuation, mark, cs.drop mark.length⟩
  | none =>
    match longest? id cs r.operators with
    | some mark => some ⟨.operator, mark, cs.drop mark.length⟩
    | none => none

/-- The number, symbol, word or error that starts with `c`, in front of `cs`. -/
def other (r : Rules) (c : Char) (cs : List Char) : Cut :=
  if c.isDigit then
    Number.cut r (c :: cs)
  else
    match symbol? r (c :: cs) with
    | some cut => cut
    | none => if r.startsWord c then word r c cs else ⟨.error, [c], cs⟩

end Plain

end Lossless
