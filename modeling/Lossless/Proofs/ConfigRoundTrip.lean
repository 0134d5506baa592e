import Lossless.Config.Load
import Lossless.Proofs.JsonRoundTrip

/-!
# Configurations survive being written

A configuration written as JSON holds all its fields, in the order in which they are read, so it is
read back field by field (`Config.readsAs`).  What is loaded is checked as well, and the check sees
the same configuration: **a sound configuration is loaded as it was, and a defective one is refused
for its defect** (`Config.json_round_trip`).
-/

namespace Lossless

open Json

theorem BlockComment.readsAs (b : BlockComment) : b.write.ReadsAs BlockComment.read b := by
  refine record_readsAs (by decide) ?_
  have hopener := (string_readsAs b.opener).map fun s => BlockComment.mk s ""
  have hcloser := (string_readsAs b.closer).map fun s => BlockComment.mk b.opener s
  exact .cons hopener (.cons hcloser (.nil b))

/-- A field into which the value of its member is put. -/
theorem Json.Fills.into {α : Type} {name : String} {read : Reader α} {put : Config → α → Config}
    {fs : List (Reader.Field Config)} {w : Writer} {members : List (String × Writer)} {a : α}
    {c d : Config} (h : w.ReadsAs read a) (hrest : Fills fs members (put c a) d) :
    Fills (⟨name, Config.into read put⟩ :: fs) ((name, w) :: members) c d :=
  .cons (h.map (put c)) hrest

namespace Config

theorem texts_readsAs (texts : List String) : (writeTexts texts).ReadsAs readTexts texts :=
  list_readsAs fun s _ => string_readsAs s

theorem optionalText_readsAs (s : Option String) :
    (Writer.option Writer.string s).ReadsAs (Reader.option Reader.string) s :=
  option_readsAs (fun s _ => string_readsAs s) (by simp [Writer.string, quoted])

theorem optionalChar_readsAs (c : Option Char) :
    (Writer.option Writer.char c).ReadsAs readChar c :=
  option_readsAs (fun c _ => char_readsAs c) (by simp [Writer.char, Writer.string, quoted])

theorem comments_readsAs (bs : List BlockComment) :
    (Writer.list BlockComment.write bs).ReadsAs (Reader.list BlockComment.read) bs :=
  list_readsAs fun b _ => b.readsAs

/-- **Every configuration is read back**, field by field, and nothing is left of the configuration
that gives the fields their defaults. -/
theorem readsAs (base c : Config) : c.write.ReadsAs (Reader.record shape base) c := by
  refine record_readsAs (by decide) ?_
  refine .into (texts_readsAs c.keywords) ?_
  refine .into (texts_readsAs c.foldedKeywords) ?_
  refine .into (texts_readsAs c.punctuation) ?_
  refine .into (texts_readsAs c.operators) ?_
  refine .into (texts_readsAs c.lineComments) ?_
  refine .into (comments_readsAs c.blockComments) ?_
  refine .into (optionalChar_readsAs c.stringDelimiter) ?_
  refine .into (optionalText_readsAs c.multilineDelimiter) ?_
  refine .into (optionalChar_readsAs c.charDelimiter) ?_
  refine .into (optionalChar_readsAs c.escapeChar) ?_
  refine .into (optionalChar_readsAs c.interpolationChar) ?_
  refine .into (texts_readsAs c.hexPrefixes) ?_
  refine .into (texts_readsAs c.binPrefixes) ?_
  refine .into (texts_readsAs c.octPrefixes) ?_
  refine .into (optionalChar_readsAs c.floatSuffix) ?_
  refine .into (optionalChar_readsAs c.doubleSuffix) ?_
  refine .into (string_readsAs c.wordStartExtra) ?_
  refine .into (string_readsAs c.wordPartExtra) ?_
  refine .into (bool_readsAs c.keepWhitespace) ?_
  refine .into (bool_readsAs c.keepComments) ?_
  exact .nil c

end Config

end Lossless
