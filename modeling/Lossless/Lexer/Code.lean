import Lossless.Lexer.Plain

/-!
# Code and strings

Code is a row of tokens, and some of them are string literals; a string literal is
a row of pieces, and one of these may be a block of code.  Reading follows this
nesting.  A `Scan` is what a stretch of either gives: the lexemes read, the rest,
and whether the stretch came to its proper end.

A string that breaks off, at the end of its line or of the text, is not a string:
`Scan.sealed` makes **one error of everything read for it**.

Blocks may nest `maxBlockDepth` deep.  The number of levels still allowed is what
the recursion descends on (`code`), and at the last level a block can no longer be
opened.  Within a level every loop is given as many rounds as there are characters
left, since each round takes at least one.
-/

namespace Lossless

/-- How deep interpolation blocks may nest; any deeper opener is plain content. -/
def maxBlockDepth : Nat := 128

/-- What reading a stretch of text gives. -/
structure Scan where
  lexemes : List Lexeme
  rest : List Char
  /-- Whether the stretch came to its proper end. -/
  closed : Bool
deriving DecidableEq, Repr

namespace Scan

/-- The scan with lexemes in front of it. -/
def after (s : Scan) (ls : List Lexeme) : Scan :=
  { s with lexemes := ls ++ s.lexemes }

/-- The lexemes of a literal: its pieces, or one error if it broke off. -/
def sealed (s : Scan) : List Lexeme :=
  if s.closed then s.lexemes else [⟨.error, Lexeme.joined s.lexemes⟩]

end Scan

/-- A way to read the code of an interpolation block: from a number of rounds, whether
a line end breaks it off, and the text behind the opening brace. -/
abbrev BlockScanner := Nat → Bool → List Char → Scan

/-- What an interpolation mark introduces. -/
inductive Interpolation where
  /-- A block of code in braces. -/
  | block
  /-- A single name. -/
  | name
deriving DecidableEq, Repr

/-- The interpolation with which a text begins, if any; `blocks` says whether a block
may still be opened. -/
def interpolation? (r : Rules) (blocks : Bool) : List Char → Option Interpolation
  | c :: d :: _ =>
    if some c == r.interpolationChar then
      if d == '\x7b' && blocks then some .block
      else if r.startsWord d then some .name
      else none
    else
      none
  | _ => none

/-- Whether a line end breaks a string of this style. -/
def StringStyle.breaksAt (style : StringStyle) (c : Char) : Bool :=
  style == .singleLine && Text.isLineEnd c

/-- Whether plain content stops in front of a text. -/
def contentStops (r : Rules) (blocks : Bool) (style : StringStyle) (delimiter : List Char)
    (cs : List Char) : Bool :=
  match cs with
  | [] => true
  | c :: _ =>
    style.breaksAt c || delimiter.isPrefixOf cs || some c == r.escapeChar
      || (interpolation? r blocks cs).isSome

/-- The characters of a text up to the first place at which `stops` holds, and the rest. -/
def splitBefore (stops : List Char → Bool) : List Char → List Char × List Char
  | [] => ([], [])
  | c :: cs =>
    if stops (c :: cs) then
      ([], c :: cs)
    else
      let (taken, rest) := splitBefore stops cs
      (c :: taken, rest)

/-- The pieces of a string behind its opening delimiter.  `block?` reads the blocks in
it, if they may still nest. -/
def pieces (r : Rules) (block? : Option BlockScanner) (style : StringStyle)
    (delimiter : List Char) : Nat → List Char → Scan
  | 0, cs => ⟨[], cs, false⟩
  | _ + 1, [] => ⟨[], [], false⟩
  | rounds + 1, c :: cs =>
    if style.breaksAt c then
      ⟨[], c :: cs, false⟩
    else if delimiter.isPrefixOf (c :: cs) then
      ⟨[⟨.string (.closing style), delimiter⟩], (c :: cs).drop delimiter.length, true⟩
    else if some c == r.escapeChar then
      match cs with
      | [] => ⟨[⟨.string .escaped, [c]⟩], [], false⟩
      | d :: ds =>
        if style.breaksAt d then
          ⟨[⟨.string .escaped, [c]⟩], d :: ds, false⟩
        else
          (pieces r block? style delimiter rounds ds).after [⟨.string .escaped, [c, d]⟩]
    else
      match interpolation? r block?.isSome (c :: cs), block? with
      | some .block, some block =>
        let inner := block rounds (style == .singleLine) (cs.drop 1)
        let opened := ⟨.string .blockOpen, c :: cs.take 1⟩ :: inner.lexemes
        if inner.closed then
          (pieces r block? style delimiter rounds inner.rest).after opened
        else
          ⟨opened, inner.rest, false⟩
      | some .name, _ =>
        match cs with
        | [] => ⟨[⟨.string .nameMark, [c]⟩], [], false⟩
        | d :: ds =>
          let name := Plain.word r d ds
          (pieces r block? style delimiter rounds name.rest).after
            [⟨.string .nameMark, [c]⟩, name.lexeme]
      | _, _ =>
        let (run, rest) := splitBefore (contentStops r block?.isSome style delimiter) cs
        (pieces r block? style delimiter rounds rest).after [⟨.string .basic, c :: run⟩]

/-- The style and the delimiter of the string literal with which a text begins. -/
def opening? (r : Rules) (cs : List Char) : Option (StringStyle × List Char) :=
  match r.multilineDelimiter.filter fun d => !d.isEmpty && d.isPrefixOf cs with
  | some d => some (.multiLine, d)
  | none =>
    match r.stringDelimiter.filter fun d => cs.head? == some d with
    | some d => some (.singleLine, [d])
    | none => none

/-- The string literal with the given opening, in front of a text. -/
def stringLiteral (r : Rules) (block? : Option BlockScanner) (style : StringStyle)
    (delimiter : List Char) (rounds : Nat) (cs : List Char) : List Lexeme × List Char :=
  let scan := (pieces r block? style delimiter rounds (cs.drop delimiter.length)).after
    [⟨.string (.opening style), delimiter⟩]
  (scan.sealed, scan.rest)

/-- The lexemes that the first rule to apply reads off the text `c :: cs`, and the
rest.  Line ends and blanks come first, then comments, then strings and character
literals, then everything else. -/
def lexemesAt (r : Rules) (block? : Option BlockScanner) (rounds : Nat) (c : Char)
    (cs : List Char) : List Lexeme × List Char :=
  match Plain.linebreak? (c :: cs) <|> Plain.blanks? (c :: cs) <|> Plain.comment? r (c :: cs) with
  | some cut => ([cut.lexeme], cut.rest)
  | none =>
    match opening? r (c :: cs) with
    | some (style, delimiter) => stringLiteral r block? style delimiter rounds (c :: cs)
    | none =>
      let cut := if r.charDelimiter == some c then Plain.charLiteral r c cs else Plain.other r c cs
      ([cut.lexeme], cut.rest)

/-- Where code stands. -/
inductive Region where
  /-- Outside all strings. -/
  | top
  /-- In an interpolation block; `lineBound` says whether a line end breaks it off. -/
  | block (lineBound : Bool)
deriving DecidableEq, Repr

/-- What the next character of code does. -/
inductive Gate where
  /-- It closes the block. -/
  | close
  /-- It breaks the block off. -/
  | halt
  /-- It starts a token, and this many braces of the block are open then. -/
  | token (braces : Nat)
deriving DecidableEq, Repr

/-- What a character does at the start of a token with `braces` braces open.  Only in
a block do braces matter: it ends with the one that balances its opener. -/
def Region.gate (region : Region) (braces : Nat) (c : Char) : Gate :=
  match region with
  | .top => .token braces
  | .block lineBound =>
    if c == '\x7d' then
      match braces with
      | 0 => .close
      | n + 1 => .token n
    else if c == '\x7b' then .token (braces + 1)
    else if lineBound && Text.isLineEnd c then .halt
    else .token braces

/-- Code in a region, with `braces` braces open. -/
def tokensIn (r : Rules) (block? : Option BlockScanner) (region : Region) :
    Nat → Nat → List Char → Scan
  | 0, _, cs => ⟨[], cs, false⟩
  | _ + 1, _, [] => ⟨[], [], false⟩
  | rounds + 1, braces, c :: cs =>
    match region.gate braces c with
    | .close => ⟨[⟨.string .blockClose, [c]⟩], cs, true⟩
    | .halt => ⟨[], c :: cs, false⟩
    | .token open' =>
      let (ls, rest) := lexemesAt r block? rounds c cs
      (tokensIn r block? region rounds open' rest).after ls

/-- Code in a region, in which blocks may still nest `levels` deep. -/
def code (r : Rules) : Nat → Region → Nat → List Char → Scan
  | 0, region, rounds, cs => tokensIn r none region rounds 0 cs
  | levels + 1, region, rounds, cs =>
    let block : BlockScanner := fun rounds lineBound => code r levels (.block lineBound) rounds
    tokensIn r (some block) region rounds 0 cs

end Lossless
