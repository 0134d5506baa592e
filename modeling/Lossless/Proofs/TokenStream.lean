import Lossless.Proofs.Bytes

/-!
# Streams of tokens

A stream of tokens *covers* a window of a text if its tokens hold the very text at their
spans and lie one right after the other, from the start of the window to its end.  The
end of input that closes a stream is not one of these tokens; it stands at the end of the
window.

**The texts of a stream that covers a window make up the window**
(`Token.Covers.slice?_sourceText`).
-/

namespace Lossless

namespace Token

/-- The tokens lie one right after the other, from `start` to `stop`. -/
def Abut (start stop : Nat) : List Token → Prop
  | [] => start = stop
  | t :: ts => t.span.start = start ∧ Abut t.span.stop stop ts

/-- A token holds the text between two boundaries that are the bounds of its span. -/
def HoldsText (cs : List Char) (t : Token) : Prop :=
  Text.slice? cs t.span.start t.span.stop = some t.text.toList

/-- The tokens of a stream, without its end of input, cover a window of a text. -/
structure Covers (cs : List Char) (w : Span) (ts : List Token) : Prop where
  abut : Abut w.start w.stop ts
  holds : ∀ t ∈ ts, t.HoldsText cs
  kind_ne_eof : ∀ t ∈ ts, t.kind ≠ .eof
  /-- The end of the window is a boundary, also of a window without tokens. -/
  stop_boundary : Text.slice? cs w.stop w.stop = some []

/-- The text of tokens in a row is the row of their texts. -/
theorem sourceText_append (ss ts : List Token) :
    sourceText (ss ++ ts) = sourceText ss ++ sourceText ts := by
  simp [sourceText, String.join_append]

/-- The text of one more token in front. -/
theorem sourceText_cons (t : Token) (ts : List Token) :
    sourceText (t :: ts) = t.text ++ sourceText ts := by
  simp [sourceText]

/-- Two rows of tokens lie in a row if the second starts where the first stops. -/
theorem abut_append {i k : Nat} {ss ts : List Token} :
    Abut i k (ss ++ ts) ↔ ∃ j, Abut i j ss ∧ Abut j k ts := by
  induction ss generalizing i with
  | nil => simp [Abut]
  | cons s ss ih => simp [Abut, ih, and_assoc]

/-- **Tokens in a row hold the text from the first to the last.** -/
theorem slice?_sourceText {cs : List Char} {i j : Nat} {ts : List Token}
    (habut : Abut i j ts) (hholds : ∀ t ∈ ts, t.HoldsText cs)
    (hstop : Text.slice? cs j j = some []) :
    Text.slice? cs i j = some (sourceText ts).toList := by
  induction ts generalizing i with
  | nil =>
      obtain rfl : i = j := habut
      exact hstop
  | cons t ts ih =>
      obtain ⟨rfl, habut⟩ := habut
      have htail := ih habut (fun u hu => hholds u (List.mem_cons_of_mem _ hu))
      rw [sourceText_cons, String.toList_append]
      exact Text.slice?_append (hholds t List.mem_cons_self) htail

/-- A stream that covers a window holds the text of the window. -/
theorem Covers.slice?_sourceText {cs : List Char} {w : Span} {ts : List Token}
    (h : Covers cs w ts) :
    Text.slice? cs w.start w.stop = some (sourceText ts).toList :=
  Token.slice?_sourceText h.abut h.holds h.stop_boundary

end Token

end Lossless
