import Lossless.Text.Hidden

/-!
# Quoted text

`quote` shows a text between double quotes on one line, whatever it holds.  The
double quote, the backslash, the tabulator, the two line ends and the null
character have an escape of their own; any other hidden character is shown by its
code point in hexadecimal; all else stands for itself.
-/

namespace Lossless.Text

/-- The digits of a number in base sixteen, in lower case and without leading zeros. -/
def hexadecimal (n : Nat) : List Char :=
  Nat.toDigits 16 n

/-- How a character is shown between quotes. -/
def escape (c : Char) : List Char :=
  if c == '\x00' then ['\\', '0']
  else if c == '\t' then ['\\', 't']
  else if c == '\r' then ['\\', 'r']
  else if c == '\n' then ['\\', 'n']
  else if c == '"' then ['\\', '"']
  else if c == '\\' then ['\\', '\\']
  else if isHidden c then ['\\', 'u', '\x7b'] ++ hexadecimal c.toNat ++ ['\x7d']
  else [c]

/-- A text between double quotes. -/
def quote (s : String) : String :=
  String.ofList ('"' :: s.toList.flatMap escape ++ ['"'])

end Lossless.Text
