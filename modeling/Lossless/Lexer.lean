import Lossless.Lexer.Code

/-!
# Reading tokens

`tokenize` reads the tokens of a text, or of a window of it, under a configuration.
It always succeeds: text that no rule can classify becomes tokens of kind `error`,
so that **the tokens of a window, trivia included, are the window cut into pieces**.
The last token is the end of input, and there is no other.

The bounds of a window may be any two numbers.  They are moved back to character
boundaries, and the start not behind the end.
-/

namespace Lossless

/-- The part of a text that is read, as two character boundaries in order. -/
def window (cs : List Char) : Option Span → Span
  | none => ⟨0, Text.byteSize cs⟩
  | some asked =>
    let stop := Text.floorBoundary cs asked.stop
    ⟨min (Text.floorBoundary cs asked.start) stop, stop⟩

/-- The characters that a span between two boundaries covers. -/
def Span.chars (cs : List Char) (s : Span) : List Char :=
  Text.takeBytes (s.stop - s.start) (Text.dropBytes s.start cs)

/-- The lexemes of a whole text, trivia included. -/
def lexemes (r : Rules) (cs : List Char) : List Lexeme :=
  (code r maxBlockDepth .top cs.length cs).lexemes

/-- Whether a configuration keeps tokens of a kind. -/
def Config.keeps (c : Config) : TokenKind → Bool
  | .whitespace => c.keepWhitespace
  | .comment => c.keepComments
  | _ => true

/-- The tokens of a text, or of the window of it that is asked for. -/
def tokenize (source : String) (config : Config) (asked : Option Span) : List Token :=
  let cs := source.toList
  let w := window cs asked
  let placed := Lexeme.placeFrom w.start (lexemes (Rules.ofConfig config) (w.chars cs))
  placed.filter (fun t => config.keeps t.kind) ++ [Token.eof w.stop]

end Lossless
