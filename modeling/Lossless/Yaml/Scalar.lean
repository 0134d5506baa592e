import Lossless.Yaml.Cursor

/-!
# Scalars

A scalar is written plainly or in quotes, and may go on over several lines.  Reading one
gives its characters and the place behind it.
-/

namespace Lossless.Yaml

/-! ## Escapes -/

/-- The value of a hexadecimal digit. -/
def hexValue? (c : Char) : Option Nat :=
  if '0' ≤ c && c ≤ '9' then some (c.toNat - 48)
  else if 'a' ≤ c && c ≤ 'f' then some (c.toNat - 87)
  else if 'A' ≤ c && c ≤ 'F' then some (c.toNat - 55)
  else none

/-- The character whose code is written in the first `n` hexadecimal digits. -/
def codedChar? (n : Nat) (cs : List Char) : Option Char := do
  let digits ← (cs.take n).mapM hexValue?
  let code := digits.foldl (fun v d => v * 16 + d) 0
  if digits.length == n && code.isValidChar then some (Char.ofNat code) else none

/-- The character that one letter behind a backslash stands for. -/
def letterEscape? (c : Char) : Option Char :=
  match c with
  | '0' => some '\x00'
  | 'a' => some '\x07'
  | 'b' => some '\x08'
  | 't' => some '\t'
  | '\t' => some '\t'
  | 'n' => some '\n'
  | 'v' => some '\x0b'
  | 'f' => some '\x0c'
  | 'r' => some '\r'
  | 'e' => some '\x1b'
  | ' ' => some ' '
  | '"' => some '"'
  | '/' => some '/'
  | '\\' => some '\\'
  | 'N' => some '\u0085'
  | '_' => some '\u00a0'
  | 'L' => some '\u2028'
  | 'P' => some '\u2029'
  | _ => none

/-- The number of hexadecimal digits behind a letter that announces a code. -/
def codeLength? (c : Char) : Option Nat :=
  match c with
  | 'x' => some 2
  | 'u' => some 4
  | 'U' => some 8
  | _ => none

/-- What an escape stands for, read behind its backslash, and how many characters it
takes there. -/
def escaped? : List Char → Option (Char × Nat)
  | [] => none
  | c :: cs =>
    match codeLength? c with
    | some n => (codedChar? n cs).map fun d => (d, n + 1)
    | none => (letterEscape? c).map fun d => (d, 1)

/-! ## Quoted scalars -/

/-- The characters of a quoted scalar from a place behind its opening quote on, and the
place behind its closing one.  In single quotes a quote is written twice.  In double
quotes a backslash escapes, and one at the end of a line leaves out that line end and
the blanks behind it. -/
def quotedBody? (quote : Char) : Nat → Cursor → Option (List Char × Cursor)
  | 0, _ => none
  | rounds + 1, c =>
    match c.rest with
    | [] => none
    | d :: ds =>
      if c.atDocumentMark then
        none
      else if d == quote then
        if quote == '\'' && ds.head? == some '\'' then do
          let (text, stop) ← quotedBody? quote rounds (c.advance 2)
          some ('\'' :: text, stop)
        else
          some ([], c.advance 1)
      else if quote == '"' && d == '\\' then
        if (lineEnd? ds).isSome then do
          let gap ← (c.advance 1).gap? 0
          let (text, stop) ← quotedBody? quote rounds gap.stop
          some (gap.ends.drop 1 ++ text, stop)
        else do
          let (e, n) ← escaped? ds
          let (text, stop) ← quotedBody? quote rounds (c.advance (n + 1))
          some (e :: text, stop)
      else if isBlank d || isBreak d then do
        let gap ← c.gap? 0
        let (text, stop) ← quotedBody? quote rounds gap.stop
        some (gap.text ++ text, stop)
      else do
        let (text, stop) ← quotedBody? quote rounds (c.advance 1)
        some (d :: text, stop)

/-- The quoted scalar whose opening quote stands at a place, and the place behind it. -/
def quoted? (quote : Char) (c : Cursor) : Option (List Char × Cursor) :=
  quotedBody? quote (c.rest.length + 1) (c.advance 1)

/-! ## Plain scalars -/

/-- The characters that structure a flow collection. -/
def isFlowMark (c : Char) : Bool :=
  c == ',' || c == '[' || c == ']' || c == '\x7b' || c == '\x7d'

/-- The characters with which no plain scalar starts. -/
def isReserved (c : Char) : Bool :=
  isFlowMark c || "#&*!|>'\"%@`".toList.contains c

/-- Whether a plain scalar may start at a text. -/
def startsPlain (flow : Bool) : List Char → Bool
  | [] => false
  | c :: cs =>
    if c == '-' then !atGap cs
    else if c == '?' || c == ':' then !flow && !atGap cs
    else !(isBlank c || isBreak c || isReserved c)

/-- Whether a colon that separates a key from its value stands at a text. -/
def atColon : List Char → Bool
  | ':' :: cs => atGap cs
  | _ => false

/-- Whether a colon stands at a text that neither separates a key from its value nor may
stand in a plain scalar of a flow collection. -/
def atStrayColon : List Char → Bool
  | ':' :: d :: _ => isFlowMark d || d == '?'
  | _ => false

/-- The characters of a plain scalar up to its next gap or its end. -/
def plainRun (flow : Bool) : List Char → List Char
  | [] => []
  | c :: cs =>
    if isBlank c || isBreak c || atColon (c :: cs)
        || (flow && (isFlowMark c || atStrayColon (c :: cs))) then
      []
    else
      c :: plainRun flow cs

/-- A plain scalar that has been read. -/
structure Plain where
  text : List Char
  /-- Whether a line end stands between the scalar and the place behind it. -/
  broken : Bool
  /-- The place behind the scalar and the gap that follows it. -/
  stop : Cursor

/-- The rest of a plain scalar at a place at which no gap stands.  Outside flow
collections it goes on over the lines that are indented at least to the column
`least`. -/
def plainBody? (flow : Bool) (least : Nat) : Nat → Cursor → Option Plain
  | 0, _ => none
  | rounds + 1, c =>
    if c.atDocumentMark || c.rest.head? == some '#' then
      some ⟨[], false, c⟩
    else
      let run := plainRun flow c.rest
      let behind := c.advance run.length
      if flow && atStrayColon behind.rest then
        none
      else if !(behind.rest.head?.any fun d => isBlank d || isBreak d) then
        some ⟨run, false, behind⟩
      else do
        let gap ← behind.gap? least
        let broken := !gap.ends.isEmpty
        if !flow && gap.stop.column < least then
          some ⟨run, broken, gap.stop⟩
        else
          let more ← plainBody? flow least rounds gap.stop
          if more.text.isEmpty then
            some ⟨run, broken, more.stop⟩
          else
            some { more with text := run ++ gap.text ++ more.text }

/-- The plain scalar at a place. -/
def plain? (flow : Bool) (least : Nat) (c : Cursor) : Option Plain :=
  plainBody? flow least (c.rest.length + 1) c

end Lossless.Yaml
