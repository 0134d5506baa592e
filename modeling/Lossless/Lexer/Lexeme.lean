import Lossless.Text.Bytes
import Lossless.Token

/-!
# Lexemes

A `Lexeme` is a token before it has a place: a kind and the characters read.  Every
rule of the lexer takes a beginning off the text that is left and hands back that
beginning, classified, with the rest (`Cut`).  Giving the lexemes their places
afterwards (`placeFrom`) keeps offsets out of the rules altogether.
-/

namespace Lossless

/-- A classified stretch of characters. -/
structure Lexeme where
  kind : TokenKind
  text : List Char
deriving DecidableEq, Repr

/-- A beginning of a text, classified, and what follows it. -/
structure Cut where
  kind : TokenKind
  text : List Char
  rest : List Char
deriving DecidableEq, Repr

/-- The lexeme that was cut off. -/
def Cut.lexeme (c : Cut) : Lexeme := ⟨c.kind, c.text⟩

namespace Lexeme

/-- The characters of a list of lexemes, in a row. -/
def joined (ls : List Lexeme) : List Char :=
  ls.flatMap (·.text)

/-- The lexemes as tokens, one right after the other from `offset`. -/
def placeFrom (offset : Nat) : List Lexeme → List Token
  | [] => []
  | l :: ls =>
    let stop := offset + Text.byteSize l.text
    ⟨l.kind, String.ofList l.text, ⟨offset, stop⟩⟩ :: placeFrom stop ls

end Lexeme

end Lossless
