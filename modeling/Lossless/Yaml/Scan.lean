import Lossless.Yaml.Scalar
import Lossless.Yaml.Token

/-!
# The tokens of a text

A text is read token by token.  Whether a scalar or a flow collection is a key is known
only when the colon behind it is reached, so the place of each *possible key* is kept,
and the token that announces a key is put in front of it afterwards.  A possible key is
given up when its line is over or when it has become too long; where only a key can
stand, in the column of an open block map, giving it up is an error.

A block collection is open as long as what follows stands in its column or further.
Inside a flow collection columns mean nothing.
-/

namespace Lossless.Yaml

/-- A token that is a key if a colon follows. -/
structure PossibleKey where
  /-- Where it starts. -/
  place : Cursor
  /-- How many tokens stand in front of it. -/
  number : Nat
  /-- Whether only a key can stand there. -/
  required : Bool

/-- How long a key may be, in bytes up to its colon. -/
def maxKeyLength : Nat := 1024

/-- Whether a possible key is no longer one at a place. -/
def PossibleKey.isStale (k : PossibleKey) (c : Cursor) : Bool :=
  k.place.line < c.line || k.place.offset + maxKeyLength < c.offset

/-- A text read up to a place. -/
structure Scan where
  cursor : Cursor
  /-- The tokens so far, the last one first. -/
  tokens : List Token
  /-- The columns of the open block collections, the innermost first. -/
  columns : List Nat
  /-- Whether a key of a block collection may start here. -/
  keyAllowed : Bool
  /-- The possible key of the innermost flow collection, or outside of all of them. -/
  key : Option PossibleKey
  /-- The possible keys around each open flow collection, the innermost first. -/
  outerKeys : List (Option PossibleKey)

namespace Scan

/-- Nothing has been read of a text. -/
def start (cs : List Char) : Scan := ⟨.start cs, [], [], true, none, []⟩

/-- Whether the place is inside a flow collection. -/
def inFlow (s : Scan) : Bool := !s.outerKeys.isEmpty

/-- The first column inside the innermost block collection. -/
def least (s : Scan) : Nat :=
  match s.columns with
  | [] => 0
  | column :: _ => column + 1

/-- One more token, which takes `n` characters. -/
def emit (s : Scan) (t : Token) (n : Nat) : Scan :=
  { s with tokens := t :: s.tokens, cursor := s.cursor.advance n }

/-! ## Possible keys -/

/-- No key is possible any more; an error where one is required. -/
def dropKey? (s : Scan) : Option Scan :=
  if s.key.any (·.required) then none else some { s with key := none }

/-- What starts here is a possible key, if one may start here. -/
def saveKey? (s : Scan) : Option Scan :=
  if s.keyAllowed then do
    let required := !s.inFlow && s.columns.head? == some s.cursor.column
    let s ← s.dropKey?
    some { s with key := some ⟨s.cursor, s.tokens.length, required⟩ }
  else
    some s

/-- The possible keys that can no longer be keys are given up. -/
def dropStaleKeys? (s : Scan) : Option Scan :=
  let isStale (k : PossibleKey) : Bool := k.isStale s.cursor
  if (s.key :: s.outerKeys).any (·.any fun k => isStale k && k.required) then
    none
  else
    some { s with
      key := s.key.filter (!isStale ·)
      outerKeys := s.outerKeys.map (·.filter (!isStale ·)) }

/-! ## Block collections -/

/-- The block collections whose column has a property are closed, from the innermost on. -/
def closeBlocks (isClosed : Nat → Bool) (s : Scan) : Scan :=
  if s.inFlow then
    s
  else
    let closed := s.columns.takeWhile isClosed
    { s with
      tokens := closed.map (fun _ => Token.blockEnd) ++ s.tokens
      columns := s.columns.drop closed.length }

/-- The tokens with further ones put behind the first `number`. -/
def insert (s : Scan) (number : Nat) (ts : List Token) : Scan :=
  let behind := s.tokens.length - number
  { s with tokens := s.tokens.take behind ++ ts.reverse ++ s.tokens.drop behind }

/-- Whether a block collection at a column lies inside all open ones. -/
def nests (s : Scan) (column : Nat) : Bool :=
  !s.inFlow && s.columns.head?.all (· < column)

/-- A block collection is opened at a column, behind the first `number` tokens, unless
it is open already. -/
def openBlock (s : Scan) (column number : Nat) (t : Token) : Scan :=
  if s.nests column then
    { s.insert number [t] with columns := column :: s.columns }
  else
    s

/-- A block collection is opened here, unless it is open already.  Inside a flow
collection there are none, and elsewhere one starts only where a key may start. -/
def openBlockHere? (s : Scan) (t : Token) : Option Scan :=
  if s.inFlow then some s
  else if s.keyAllowed then some (s.openBlock s.cursor.column s.tokens.length t)
  else none

/-! ## Tokens -/

/-- A mark that separates documents; it closes all block collections. -/
def documentMark? (s : Scan) : Option Scan := do
  let t := if s.cursor.rest.head? == some '-' then Token.documentStart else Token.documentEnd
  let s ← (s.closeBlocks fun _ => true).dropKey?
  some { s.emit t 3 with keyAllowed := false }

/-- The bracket that opens a flow collection. -/
def openFlow? (s : Scan) (t : Token) : Option Scan := do
  let s ← s.saveKey?
  some { s.emit t 1 with keyAllowed := true, key := none, outerKeys := s.key :: s.outerKeys }

/-- The bracket that closes a flow collection. -/
def closeFlow? (s : Scan) (t : Token) : Option Scan := do
  let s ← s.dropKey?
  let s := { s.emit t 1 with keyAllowed := false }
  match s.outerKeys with
  | [] => some s
  | key :: outerKeys => some { s with key := key, outerKeys := outerKeys }

/-- The comma between the parts of a flow collection. -/
def comma? (s : Scan) : Option Scan := do
  let s ← s.dropKey?
  some { s.emit .comma 1 with keyAllowed := true }

/-- The dash of an entry of a block list. -/
def entry? (s : Scan) : Option Scan := do
  let s ← (← s.openBlockHere? .blockList).dropKey?
  some { s.emit .entry 1 with keyAllowed := true }

/-- The question mark that announces a key. -/
def announcedKey? (s : Scan) : Option Scan := do
  let s ← (← s.openBlockHere? .blockMap).dropKey?
  some { s.emit .key 1 with keyAllowed := !s.inFlow }

/-- The colon in front of a value.  What stands in front of it is a key, if it was
possible that it is one. -/
def colon? (s : Scan) : Option Scan :=
  match s.key with
  | some k =>
    let s := (s.insert k.number [.key]).openBlock k.place.column k.number .blockMap
    some { s.emit .colon 1 with keyAllowed := false, key := none }
  | none => do
    let s ← s.openBlockHere? .blockMap
    some { s.emit .colon 1 with keyAllowed := !s.inFlow }

/-- A scalar in quotes. -/
def quoted? (s : Scan) (quote : Char) : Option Scan := do
  let s ← s.saveKey?
  let (text, stop) ← Yaml.quoted? quote s.cursor
  some { s.emit (.scalar false (String.ofList text)) 0 with cursor := stop, keyAllowed := false }

/-- A plain scalar. -/
def plain? (s : Scan) : Option Scan := do
  let s ← s.saveKey?
  let scalar ← Yaml.plain? s.inFlow s.least s.cursor
  some { s.emit (.scalar true (String.ofList scalar.text)) 0 with
    cursor := scalar.stop, keyAllowed := scalar.broken }

/-- The next token at a place behind filler.  Directives, anchors, tags and block scalars
are refused. -/
def token? (s : Scan) : Option Scan :=
  match s.cursor.rest with
  | [] => none
  | c :: cs =>
    if s.cursor.column == 0 && c == '%' then none
    else if s.cursor.atDocumentMark then s.documentMark?
    else if c == '[' then s.openFlow? .listOpen
    else if c == '\x7b' then s.openFlow? .mapOpen
    else if c == ']' then s.closeFlow? .listClose
    else if c == '\x7d' then s.closeFlow? .mapClose
    else if c == ',' then s.comma?
    else if c == '-' && atGap cs then s.entry?
    else if c == '?' && (s.inFlow || atGap cs) then s.announcedKey?
    else if c == ':' && (s.inFlow || atGap cs) then s.colon?
    else if c == '\'' || c == '"' then s.quoted? c
    else if startsPlain s.inFlow (c :: cs) then s.plain?
    else none

/-- The same text read up to its next token: the filler is skipped, and what cannot go
on there is given up or closed. -/
def settle? (s : Scan) : Option Scan := do
  let (keyAllowed, cursor) := s.cursor.skipFiller s.inFlow s.keyAllowed
  let s ← { s with cursor := cursor, keyAllowed := keyAllowed }.dropStaleKeys?
  some (s.closeBlocks (cursor.column < ·))

/-- The text is over, and so are all its block collections. -/
def finish? (s : Scan) : Option (List Token) := do
  let s ← (s.closeBlocks fun _ => true).dropKey?
  some s.tokens.reverse

/-- The tokens of the whole text.  Each round reads one of them. -/
def run? : Nat → Scan → Option (List Token)
  | 0, _ => none
  | rounds + 1, s => do
    let s ← s.settle?
    if s.cursor.rest.isEmpty then s.finish? else run? rounds (← s.token?)

end Scan

/-- The tokens of a text. -/
def tokens? (cs : List Char) : Option (List Token) :=
  if cs.all isAllowed then Scan.run? (cs.length + 1) (.start cs) else none

end Lossless.Yaml
