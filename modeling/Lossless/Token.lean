import Lossless.Span
import Lossless.Text.Bytes
import Lossless.Text.Quoted
import Lossless.Token.Kind

/-!
# Tokens

A token is a kind, the exact text it was read from, and the span of that text.
-/

namespace Lossless

/-- A classified stretch of source text. -/
structure Token where
  kind : TokenKind
  text : String
  span : Span
deriving DecidableEq, Repr

namespace Token

/-- The end of the input, which covers nothing. -/
def eof (offset : Nat) : Token :=
  ⟨.eof, "", .empty offset⟩

/-- A token that means nothing to a grammar. -/
def isTrivia (t : Token) : Bool := t.kind.isTrivia

/-- The kind, the quoted text and the span of a token. -/
def display (t : Token) : String :=
  t.kind.name ++ " " ++ Text.quote t.text ++ "@" ++ t.span.display

/-- The text that a list of tokens was read from, as far as the tokens hold it. -/
def sourceText (ts : List Token) : String :=
  String.join (ts.map (·.text))

/-- Tokens of the given kinds and texts, one right after the other from `offset`. -/
def layFrom (offset : Nat) : List (TokenKind × String) → List Token
  | [] => [eof offset]
  | (kind, text) :: rest =>
    let stop := offset + Text.byteSize text.toList
    ⟨kind, text, ⟨offset, stop⟩⟩ :: layFrom stop rest

/-- Tokens of the given kinds and texts, one right after the other from the start,
with an end of input after them. -/
def lay (pieces : List (TokenKind × String)) : List Token :=
  layFrom 0 pieces

end Token

end Lossless
