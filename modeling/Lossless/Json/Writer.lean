import Lossless.Text.Quoted

/-!
# Writing JSON

A `Writer` is a value on its way to JSON text: it knows its text once it is told how
deep it stands.  Lists and objects that hold anything are spread over lines, two
blanks deeper at each level; empty ones stay on one line.  Text is written as it is,
except for the quote, the backslash and the control characters below the space.
-/

namespace Lossless.Json

/-- A JSON value as a function from its depth to its text. -/
abbrev Writer := Nat → List Char

/-- The beginning of a line at a depth. -/
def newLine (depth : Nat) : List Char :=
  '\n' :: List.replicate (2 * depth) ' '

/-- A number below sixteen as a hexadecimal digit. -/
def hexDigit (n : Nat) : Char :=
  Nat.digitChar n

/-- How a character is written inside a string. -/
def escape (c : Char) : List Char :=
  if c == '"' then ['\\', '"']
  else if c == '\\' then ['\\', '\\']
  else if c == '\x08' then ['\\', 'b']
  else if c == '\x0c' then ['\\', 'f']
  else if c == '\n' then ['\\', 'n']
  else if c == '\r' then ['\\', 'r']
  else if c == '\t' then ['\\', 't']
  else if c.toNat < 32 then
    ['\\', 'u', '0', '0', hexDigit (c.toNat / 16), hexDigit (c.toNat % 16)]
  else [c]

/-- A text between quotes. -/
def quoted (s : String) : List Char :=
  '"' :: s.toList.flatMap escape ++ ['"']

namespace Writer

/-- The value that stands for nothing. -/
def null : Writer := fun _ => "null".toList

/-- A truth value. -/
def bool (b : Bool) : Writer := fun _ => (if b then "true" else "false").toList

/-- A natural number. -/
def nat (n : Nat) : Writer := fun _ => Nat.toDigits 10 n

/-- A text. -/
def string (s : String) : Writer := fun _ => quoted s

/-- A text of one character. -/
def char (c : Char) : Writer := string (String.singleton c)

/-- A value that may be missing. -/
def option {α : Type} (write : α → Writer) : Option α → Writer
  | some a => write a
  | none => null

/-- Values one per line at a depth, with commas between them. -/
def lines (depth : Nat) : List (List Char) → List Char
  | [] => []
  | [v] => newLine depth ++ v
  | v :: vs => newLine depth ++ v ++ [','] ++ lines depth vs

/-- Values between two brackets. -/
def enclosed (opener closer : Char) (depth : Nat) (values : List (List Char)) : List Char :=
  if values.isEmpty then
    [opener, closer]
  else
    opener :: lines (depth + 1) values ++ newLine depth ++ [closer]

/-- A list. -/
def list {α : Type} (write : α → Writer) (as : List α) : Writer := fun depth =>
  enclosed '[' ']' depth (as.map fun a => write a (depth + 1))

/-- An object with the given members in order. -/
def object (members : List (String × Writer)) : Writer := fun depth =>
  enclosed '\x7b' '\x7d' depth
    (members.map fun m => quoted m.1 ++ [':', ' '] ++ m.2 (depth + 1))

/-- The text of a whole document. -/
def document (w : Writer) : String :=
  String.ofList (w 0)

end Writer

end Lossless.Json
