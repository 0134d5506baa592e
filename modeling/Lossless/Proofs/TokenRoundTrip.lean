import Lossless.Command
import Lossless.Proofs.Coverage
import Lossless.Proofs.JsonRoundTrip
import Mathlib.Algebra.Group.Nat.Defs

/-!
# Tokens survive being written

The kind of a token is an alternative within alternatives: a plain name, or the name of the literals
with what the literal stands for, which is again a plain name or a name with one that belongs to it.
Every kind is read back from what is written, level by level (`TokenKind.readsAs`), and so are the
fields of a token.

So **tokens are read back from their JSON document**, whatever their texts and spans, if only the
offsets fit sixty-four bits (`Token.ofJson_toJson`).  Those of a text that can be held do, so what
the command prints as JSON are the tokens of the text (`Command.showTokens_json`).
-/

namespace Lossless

open Json

/-! ## Kinds -/

/-- A value that is written as its name is read back, if the name leads to it. -/
theorem named_readsAs {α : Type} {name : α → String} {values : List α} {a : α}
    (h : values.find? (name · == name a) = some a) :
    (Writer.string (name a)).ReadsAs (named name values) a :=
  plain_readsAs (by rw [h]; rfl)

theorem IntegerBase.readsAs (base : IntegerBase) :
    (Writer.string base.name).ReadsAs (named IntegerBase.name [.dec, .hex, .bin, .oct]) base :=
  named_readsAs (by cases base <;> decide)

theorem Precision.readsAs (precision : Precision) :
    (Writer.string precision.name).ReadsAs (named Precision.name [.float, .double]) precision :=
  named_readsAs (by cases precision <;> decide)

theorem StringPart.readsAs (part : StringPart) :
    (Writer.string part.jsonName).ReadsAs (named StringPart.jsonName
      [.opening .singleLine, .closing .singleLine, .opening .multiLine, .closing .multiLine,
        .basic, .escaped, .nameMark, .blockOpen, .blockClose]) part :=
  named_readsAs (by rcases part with ⟨⟨⟩⟩ | ⟨⟨⟩⟩ | _ | _ | _ | _ | _ <;> decide)

theorem LiteralKind.readsAs (l : LiteralKind) : l.write.ReadsAs LiteralKind.read l := by
  cases l with
  | integer base => exact holding_readsAs rfl (base.readsAs.map LiteralKind.integer)
  | floating precision => exact holding_readsAs rfl (precision.readsAs.map LiteralKind.floating)
  | char => exact plain_readsAs rfl
  | string part => exact holding_readsAs rfl (part.readsAs.map LiteralKind.string)

/-- **Every kind is read back.** -/
theorem TokenKind.readsAs (kind : TokenKind) : kind.write.ReadsAs TokenKind.read kind := by
  cases kind with
  | literal l => exact holding_readsAs rfl (l.readsAs.map TokenKind.literal)
  | _ => exact plain_readsAs rfl

/-- What a kind is made of is written inside of what it is. -/
example : String.ofList ((TokenKind.literal (.integer .hex)).write 0) =
    "\x7b\n  \"Literal\": \x7b\n    \"Integer\": \"Hex\"\n  \x7d\n\x7d" := by
  decide

/-! ## Tokens -/

/-- The offsets of a span fit sixty-four bits. -/
def Span.Fits (s : Span) : Prop :=
  s.start < 2 ^ 64 ∧ s.stop < 2 ^ 64

theorem le_maxWord {n : Nat} (h : n < 2 ^ 64) : n ≤ maxWord := by
  have hbound : maxWord + 1 = 2 ^ 64 := by decide
  omega

theorem Span.readsAs {s : Span} (h : s.Fits) : s.write.ReadsAs Span.read s := by
  refine record_readsAs (by decide) ?_
  have hstart := (nat_readsAs (le_maxWord h.1)).map fun n => Span.mk n 0
  have hstop := (nat_readsAs (le_maxWord h.2)).map fun n => Span.mk s.start n
  exact .cons hstart (.cons hstop (.nil s))

theorem Token.readsAs {t : Token} (h : t.span.Fits) : t.write.ReadsAs Token.read t := by
  refine record_readsAs (by decide) ?_
  have hkind := t.kind.readsAs.map fun k => Token.mk k "" (.empty 0)
  have htext := (string_readsAs t.text).map fun s => Token.mk t.kind s (.empty 0)
  have hspan := (Span.readsAs h).map fun s => Token.mk t.kind t.text s
  exact .cons hkind (.cons htext (.cons hspan (.nil t)))

theorem Token.list_readsAs {ts : List Token} (h : ∀ t ∈ ts, t.span.Fits) :
    (Writer.list Token.write ts).ReadsAs (Reader.list Token.read) ts :=
  Json.list_readsAs fun t ht => Token.readsAs (h t ht)

/-- The line that tokens are printed as. -/
theorem Token.ofJson_line {ts : List Token} (h : ∀ t ∈ ts, t.span.Fits) :
    ofJson (Command.lines [toJson ts]) = .ok ts := by
  have hline : Command.lines [toJson ts] = toJson ts ++ String.ofList ['\n'] := by
    simp [Command.lines]
  rw [hline]
  exact (list_readsAs h).document_append (by simp [isBlank])

/-- Tokens with kinds of each depth, a text that needs escapes, the largest offset, and a span that
stops before it starts. -/
def assortedTokens : List Token :=
  [⟨.literal (.integer .hex), "0x1", ⟨2 ^ 64 - 1, 2 ^ 64 - 1⟩⟩,
    ⟨.literal .char, "\"\\\n\x01é", ⟨7, 3⟩⟩, ⟨.string .blockOpen, "$\x7b", ⟨0, 2⟩⟩, .eof 10]

/-- The offsets of a text that can be held fit sixty-four bits. -/
theorem tokenize_fits {source : String} (hsize : Text.byteSize source.toList < 2 ^ 64)
    {config : Config} {asked : Option Span} {t : Token} (ht : t ∈ tokenize source config asked) :
    t.span.Fits := by
  obtain ⟨as, bs, hsource, hstart, hstop⟩ :=
    Text.exists_middle_of_slice? (holdsText_of_mem_tokenize ht)
  rw [hsource, Text.byteSize_append, Text.byteSize_append] at hsize
  unfold Span.Fits
  omega

/-- **What is printed as JSON are the tokens of the text.** -/
theorem Command.showTokens_json {source : String} (hsize : Text.byteSize source.toList < 2 ^ 64)
    (config : Config) :
    Token.ofJson (showTokens source config true).output = .ok (tokenize source config none) :=
  Token.ofJson_line fun _ ht => tokenize_fits hsize ht

end Lossless
