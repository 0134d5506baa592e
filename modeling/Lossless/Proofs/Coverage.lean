import Lossless.Proofs.Cuts
import Lossless.Proofs.TokenStream

/-!
# Coverage

Reading a window cuts it into pieces and loses nothing.  Lexemes and a rest *split* a text
if their characters make it up and every lexeme has a text and a kind of its own; each
rule splits the text that it is given, so rows of rules do, and so do strings, the blocks
of code in them, and code altogether, however they nest.

A string that breaks off is read a second time as one error.  **Sealing keeps the
characters**, so the split stays a split.

Loops are given a number of rounds.  Code outside of strings is never cut short by it,
because every round takes a character (`tokensIn_top_rest`).
-/

namespace Lossless

namespace Lexeme

/-- A lexeme that has a text and is not the end of the input. -/
def Proper (l : Lexeme) : Prop :=
  l.text ≠ [] ∧ l.kind ≠ .eof

/-- Lexemes and a rest split a text. -/
structure Split (ls : List Lexeme) (rest cs : List Char) : Prop where
  joined : joined ls ++ rest = cs
  proper : ∀ l ∈ ls, l.Proper

/-- The characters of lexemes in a row are the row of their characters. -/
@[simp] theorem joined_append (ks ls : List Lexeme) :
    Lexeme.joined (ks ++ ls) = Lexeme.joined ks ++ Lexeme.joined ls := by
  simp [Lexeme.joined]

/-- The characters of one more lexeme in front. -/
@[simp] theorem joined_cons (l : Lexeme) (ls : List Lexeme) :
    Lexeme.joined (l :: ls) = l.text ++ Lexeme.joined ls := by
  simp [Lexeme.joined]

/-- No lexemes split a text off its beginning. -/
theorem split_nil (cs : List Char) : Split [] cs cs :=
  ⟨by simp [Lexeme.joined], by simp⟩

/-- One more lexeme in front of a split. -/
theorem Split.cons {l : Lexeme} {ls : List Lexeme} {rest cs : List Char}
    (h : Split ls rest cs) (hl : l.Proper) : Split (l :: ls) rest (l.text ++ cs) := by
  refine ⟨by simp [← h.joined], ?_⟩
  intro k hk
  rcases List.mem_cons.mp hk with rfl | hk
  · exact hl
  · exact h.proper k hk

/-- A split of the rest continues a split. -/
theorem Split.append {ks ls : List Lexeme} {middle rest cs : List Char}
    (hks : Split ks middle cs) (hls : Split ls rest middle) : Split (ks ++ ls) rest cs := by
  refine ⟨by simp [← hks.joined, ← hls.joined], ?_⟩
  intro k hk
  rcases List.mem_append.mp hk with hk | hk
  · exact hks.proper k hk
  · exact hls.proper k hk

/-- A split with a lexeme leaves less than the text. -/
theorem Split.length_rest_lt {ls : List Lexeme} {rest cs : List Char} (h : Split ls rest cs)
    (hne : ls ≠ []) : rest.length < cs.length := by
  obtain ⟨l, ls, rfl⟩ := List.exists_cons_of_ne_nil hne
  have hpos := List.length_pos_iff.mpr (h.proper l List.mem_cons_self).1
  rw [← h.joined, joined_cons, List.length_append, List.length_append]
  omega

end Lexeme

open Lexeme (Split)

/-- What a rule cuts off is a split with one lexeme. -/
theorem Cut.Splits.split {cut : Cut} {cs : List Char} (h : cut.Splits cs) :
    Split [cut.lexeme] cut.rest cs := by
  refine ⟨by simpa [Cut.lexeme, Lexeme.joined] using h.joined, ?_⟩
  intro l hl
  obtain rfl := List.mem_singleton.mp hl
  exact ⟨h.text_ne_nil, h.kind_ne_eof⟩

/-- **Sealing keeps the characters.**  The pieces of a literal that broke off become one
error over the same text. -/
theorem Scan.sealed_split {scan : Scan} {cs : List Char} (h : Split scan.lexemes scan.rest cs)
    (hne : scan.lexemes ≠ []) : Split scan.sealed scan.rest cs := by
  unfold Scan.sealed
  split
  · exact h
  · obtain ⟨l, ls, heq⟩ := List.exists_cons_of_ne_nil hne
    have hl : l.text ≠ [] := (h.proper l (heq ▸ List.mem_cons_self)).1
    refine ⟨by simpa [Lexeme.joined] using h.joined, ?_⟩
    intro k hk
    obtain rfl := List.mem_singleton.mp hk
    exact ⟨by simp [heq, hl], by simp⟩

/-- A scan splits the text behind a beginning that is read before it. -/
theorem Scan.after_split {scan : Scan} {ls : List Lexeme} {middle cs : List Char}
    (hls : Split ls middle cs) (h : Split scan.lexemes scan.rest middle) :
    Split (scan.after ls).lexemes (scan.after ls).rest cs :=
  hls.append h

/-- The two parts at a stopping place make up the text. -/
theorem splitBefore_joined (stops : List Char → Bool) (cs : List Char) :
    (splitBefore stops cs).1 ++ (splitBefore stops cs).2 = cs := by
  fun_induction splitBefore stops cs <;> simp_all

/-- A reader of blocks that splits every text. -/
def BlockScanner.Splits (block : BlockScanner) : Prop :=
  ∀ rounds lineBound cs,
    Split (block rounds lineBound cs).lexemes (block rounds lineBound cs).rest cs

/-- The pieces of a string split the text behind its opening. -/
theorem pieces_split (r : Rules) {block? : Option BlockScanner}
    (hblock : ∀ block ∈ block?, BlockScanner.Splits block) (style : StringStyle)
    {delimiter : List Char} (hdelimiter : delimiter ≠ []) (rounds : Nat) (cs : List Char) :
    Split (pieces r block? style delimiter rounds cs).lexemes
      (pieces r block? style delimiter rounds cs).rest cs := by
  fun_induction pieces r block? style delimiter rounds cs with
  | case1 cs => exact Lexeme.split_nil cs
  | case2 rounds => exact Lexeme.split_nil []
  | case3 rounds c cs hbreaks => exact Lexeme.split_nil (c :: cs)
  | case4 rounds c cs hbreaks hclose =>
      have hsplit := (Lexeme.split_nil ((c :: cs).drop delimiter.length)).cons
        (l := ⟨.string (.closing style), delimiter⟩) ⟨hdelimiter, by simp [TokenKind.string]⟩
      rwa [append_drop_of_isPrefixOf hclose] at hsplit
  | case5 rounds c hbreaks hescape hclose =>
      exact (Lexeme.split_nil []).cons (l := ⟨.string .escaped, [c]⟩)
        ⟨by simp, by simp [TokenKind.string]⟩
  | case6 rounds c hbreaks hescape d ds hbreaks' hclose =>
      exact (Lexeme.split_nil (d :: ds)).cons (l := ⟨.string .escaped, [c]⟩)
        ⟨by simp, by simp [TokenKind.string]⟩
  | case7 rounds c hbreaks hescape d ds hbreaks' hclose ih =>
      exact ih.cons (l := ⟨.string .escaped, [c, d]⟩) ⟨by simp, by simp [TokenKind.string]⟩
  | case8 rounds c cs hbreaks hclose hescape block hb hopens inner hclosed ih =>
      have hinner : Split inner.lexemes inner.rest (cs.drop 1) := hblock block hb _ _ _
      have hopened := hinner.cons (l := ⟨.string .blockOpen, c :: cs.take 1⟩)
        ⟨by simp, by simp [TokenKind.string]⟩
      rw [List.cons_append, List.take_append_drop] at hopened
      subst hb
      simp only [hopens]
      rw [if_pos hclosed]
      exact Scan.after_split hopened ih
  | case9 rounds c cs hbreaks hclose hescape block hb hopens inner hclosed =>
      have hinner : Split inner.lexemes inner.rest (cs.drop 1) := hblock block hb _ _ _
      have hopened := hinner.cons (l := ⟨.string .blockOpen, c :: cs.take 1⟩)
        ⟨by simp, by simp [TokenKind.string]⟩
      rw [List.cons_append, List.take_append_drop] at hopened
      subst hb
      simp only [hopens]
      rw [if_neg hclosed]
      exact hopened
  | case10 rounds c hbreaks hescape hclose hopens =>
      simp only [hopens]
      exact (Lexeme.split_nil []).cons (l := ⟨.string .nameMark, [c]⟩)
        ⟨by simp, by simp [TokenKind.string]⟩
  | case11 rounds c hbreaks hescape d ds name hclose hopens ih =>
      have hname : Split [name.lexeme] name.rest (d :: ds) := (Plain.word_splits r d ds).split
      have hmarked := hname.cons (l := ⟨.string .nameMark, [c]⟩)
        ⟨by simp, by simp [TokenKind.string]⟩
      simp only [hopens]
      exact Scan.after_split hmarked ih
  | case12 rounds c cs hbreaks hclose hescape run rest hrun hname hopens ih =>
      have hjoined := splitBefore_joined (contentStops r block?.isSome style delimiter) cs
      rw [hrun] at hjoined
      have hcontent := ih.cons (l := ⟨.string .basic, c :: run⟩)
        ⟨by simp, by simp [TokenKind.string]⟩
      rw [List.cons_append, hjoined] at hcontent
      split
      · rename_i block hinterpolation
        exact absurd rfl (hopens block hinterpolation)
      · rename_i hinterpolation
        exact absurd hinterpolation hname
      · rw [hrun]
        exact hcontent

/-- An opening delimiter is not empty and begins the text. -/
theorem opening?_isPrefixOf {r : Rules} {cs : List Char} {style : StringStyle}
    {delimiter : List Char} (h : opening? r cs = some (style, delimiter)) :
    delimiter ≠ [] ∧ delimiter.isPrefixOf cs = true := by
  unfold opening? at h
  split at h
  · rename_i d hd
    cases h
    simpa using (Option.filter_eq_some_iff.mp hd).2
  · split at h
    · rename_i d hd
      cases h
      have hhead := (Option.filter_eq_some_iff.mp hd).2
      obtain ⟨rest, rfl⟩ := List.head?_eq_some_iff.mp (by simpa using hhead)
      simp
    · cases h

/-- A string literal splits its text, and has a lexeme. -/
theorem stringLiteral_split {r : Rules} {block? : Option BlockScanner}
    (hblock : ∀ block ∈ block?, BlockScanner.Splits block) {style : StringStyle}
    {delimiter : List Char} (rounds : Nat) {cs : List Char}
    (hopening : opening? r cs = some (style, delimiter)) :
    Split (stringLiteral r block? style delimiter rounds cs).1
        (stringLiteral r block? style delimiter rounds cs).2 cs ∧
      (stringLiteral r block? style delimiter rounds cs).1 ≠ [] := by
  obtain ⟨hne, hpre⟩ := opening?_isPrefixOf hopening
  have hpieces := pieces_split r hblock style hne rounds (cs.drop delimiter.length)
  have hopened := hpieces.cons (l := ⟨.string (.opening style), delimiter⟩)
    ⟨hne, by simp [TokenKind.string]⟩
  rw [append_drop_of_isPrefixOf hpre] at hopened
  refine ⟨@Scan.sealed_split (Scan.after _ [_]) cs hopened (by simp [Scan.after]), ?_⟩
  simp only [stringLiteral, Scan.sealed]
  split <;> simp [Scan.after]

/-- **One step of code.**  The rule that applies at a character splits the text there, and
takes something. -/
theorem lexemesAt_split (r : Rules) {block? : Option BlockScanner}
    (hblock : ∀ block ∈ block?, BlockScanner.Splits block) (rounds : Nat) (c : Char)
    (cs : List Char) :
    Split (lexemesAt r block? rounds c cs).1 (lexemesAt r block? rounds c cs).2 (c :: cs) ∧
      (lexemesAt r block? rounds c cs).1 ≠ [] := by
  unfold lexemesAt
  split
  · rename_i cut hcut
    have hsplits : cut.Splits (c :: cs) := by
      rcases hline : Plain.linebreak? (c :: cs) with _ | line
      · -- Only now is it known that a line comment would not be empty.
        have hc := Plain.isLineEnd_of_linebreak?_eq_none hline
        rcases hblank : Plain.blanks? (c :: cs) with _ | blank
        · rw [hline, hblank] at hcut
          exact Plain.comment?_splits hc hcut
        · rw [hline, hblank] at hcut
          cases hcut
          exact Plain.blanks?_splits hblank
      · rw [hline] at hcut
        cases hcut
        exact Plain.linebreak?_splits hline
    exact ⟨hsplits.split, by simp⟩
  · split
    · rename_i style delimiter hopening
      exact stringLiteral_split hblock rounds hopening
    · simp only
      split
      · rename_i hchar
        exact ⟨(Plain.charLiteral_splits r c cs).split, by simp⟩
      · exact ⟨(Plain.other_splits r c cs).split, by simp⟩

/-- Code in a region splits its text. -/
theorem tokensIn_split (r : Rules) {block? : Option BlockScanner}
    (hblock : ∀ block ∈ block?, BlockScanner.Splits block) (region : Region)
    (rounds braces : Nat) (cs : List Char) :
    Split (tokensIn r block? region rounds braces cs).lexemes
      (tokensIn r block? region rounds braces cs).rest cs := by
  fun_induction tokensIn r block? region rounds braces cs with
  | case1 braces cs => exact Lexeme.split_nil cs
  | case2 rounds braces => exact Lexeme.split_nil []
  | case3 rounds braces c cs hgate =>
      exact (Lexeme.split_nil cs).cons (l := ⟨.string .blockClose, [c]⟩)
        ⟨by simp, by simp [TokenKind.string]⟩
  | case4 rounds braces c cs hgate => exact Lexeme.split_nil (c :: cs)
  | case5 rounds braces c cs open' hgate ls rest hstep ih =>
      have hsplit := (lexemesAt_split r hblock rounds c cs).1
      rw [hstep] at hsplit
      exact Scan.after_split hsplit ih

/-- Outside of strings, code is read to the end of the text: with a round for each
character none is left over. -/
theorem tokensIn_top_rest (r : Rules) {block? : Option BlockScanner}
    (hblock : ∀ block ∈ block?, BlockScanner.Splits block) (rounds braces : Nat)
    (cs : List Char) (hrounds : cs.length ≤ rounds) :
    (tokensIn r block? .top rounds braces cs).rest = [] := by
  fun_induction tokensIn r block? .top rounds braces cs with
  | case1 braces cs => exact List.length_eq_zero_iff.mp (Nat.le_zero.mp hrounds)
  | case2 rounds braces => rfl
  | case3 rounds braces c cs hgate => simp [Region.gate] at hgate
  | case4 rounds braces c cs hgate => simp [Region.gate] at hgate
  | case5 rounds braces c cs open' hgate ls rest hstep ih =>
      obtain ⟨hsplit, hne⟩ := lexemesAt_split r hblock rounds c cs
      have hlt := hsplit.length_rest_lt hne
      rw [hstep] at hlt
      simp only [List.length_cons] at hlt hrounds
      exact ih (by omega)

/-- Code splits its text, however many levels blocks may nest. -/
theorem code_split (r : Rules) (levels : Nat) (region : Region) (rounds : Nat) (cs : List Char) :
    Split (code r levels region rounds cs).lexemes (code r levels region rounds cs).rest cs := by
  induction levels generalizing region rounds cs with
  | zero => exact tokensIn_split r (by simp) region rounds 0 cs
  | succ levels ih =>
      refine tokensIn_split r ?_ region rounds 0 cs
      intro block hb
      obtain rfl := Option.some.inj hb
      exact fun rounds lineBound cs => ih (.block lineBound) rounds cs

/-- Outside of strings nothing is left of a text. -/
theorem code_top_rest (r : Rules) (cs : List Char) :
    (code r maxBlockDepth .top cs.length cs).rest = [] := by
  refine tokensIn_top_rest r ?_ cs.length 0 cs (Nat.le_refl _)
  intro block hb
  obtain rfl := Option.some.inj hb
  exact fun rounds lineBound cs => code_split r _ (.block lineBound) rounds cs

/-- The lexemes of a text split it, and leave nothing. -/
theorem lexemes_split (r : Rules) (cs : List Char) : Split (lexemes r cs) [] cs := by
  have hsplit := code_split r maxBlockDepth .top cs.length cs
  rwa [code_top_rest] at hsplit

/-- Placed lexemes lie in a row. -/
theorem abut_placeFrom (offset : Nat) (ls : List Lexeme) :
    Token.Abut offset (offset + Text.byteSize (Lexeme.joined ls)) (Lexeme.placeFrom offset ls) := by
  induction ls generalizing offset with
  | nil => simp [Lexeme.placeFrom, Token.Abut, Lexeme.joined]
  | cons l ls ih =>
      refine ⟨rfl, ?_⟩
      have htail := ih (offset + Text.byteSize l.text)
      rwa [Nat.add_assoc, ← Text.byteSize_append, ← Lexeme.joined_cons] at htail

/-- Placed lexemes hold the text that they were read from. -/
theorem holdsText_placeFrom {ls : List Lexeme} (as bs : List Char) {t : Token}
    (ht : t ∈ Lexeme.placeFrom (Text.byteSize as) ls) :
    t.HoldsText (as ++ (Lexeme.joined ls ++ bs)) := by
  induction ls generalizing as with
  | nil => cases ht
  | cons l ls ih =>
      rw [Lexeme.joined_cons, List.append_assoc]
      rcases List.mem_cons.mp ht with rfl | ht
      · simpa [Token.HoldsText] using Text.slice?_middle as l.text (Lexeme.joined ls ++ bs)
      · rw [← Text.byteSize_append] at ht
        have htail := ih (as ++ l.text) ht
        rwa [List.append_assoc] at htail

/-- Every placed lexeme has the kind and the text of a lexeme. -/
theorem exists_of_mem_placeFrom {ls : List Lexeme} {offset : Nat} {t : Token}
    (ht : t ∈ Lexeme.placeFrom offset ls) : ∃ l ∈ ls, t.kind = l.kind ∧ t.text.toList = l.text := by
  induction ls generalizing offset with
  | nil => cases ht
  | cons l ls ih =>
      rcases List.mem_cons.mp ht with rfl | ht
      · exact ⟨l, List.mem_cons_self, rfl, by simp⟩
      · obtain ⟨k, hk, hkind, htext⟩ := ih ht
        exact ⟨k, List.mem_cons_of_mem _ hk, hkind, htext⟩

/-- The placed lexemes of a window cover it, and each of them has a text. -/
theorem placeFrom_lexemes_covers (r : Rules) (cs : List Char) (asked : Option Span) :
    let w := window cs asked
    let body := Lexeme.placeFrom w.start (lexemes r (w.chars cs))
    Token.Covers cs w body ∧ ∀ t ∈ body, t.text ≠ "" := by
  intro w body
  obtain ⟨as, ms, bs, hcs, hw⟩ := window_eq cs asked
  have hchars : w.chars cs = ms := by
    simp only [w, hw, hcs]
    exact Span.chars_middle as ms bs
  have hsplit := lexemes_split r ms
  have hjoined : Lexeme.joined (lexemes r ms) = ms := by simpa using hsplit.joined
  have hbody : body = Lexeme.placeFrom (Text.byteSize as) (lexemes r ms) := by
    have hstart : w.start = Text.byteSize as := by simp only [w, hw]
    simp only [body]
    rw [hchars, hstart]
  have hproper : ∀ t ∈ body, t.kind ≠ .eof ∧ t.text.toList ≠ [] := by
    intro t ht
    obtain ⟨l, hl, hkind, htext⟩ := exists_of_mem_placeFrom ht
    obtain ⟨hne, hkind'⟩ := hsplit.proper l (hchars ▸ hl)
    exact ⟨hkind ▸ hkind', htext ▸ hne⟩
  refine ⟨⟨?_, ?_, fun t ht => (hproper t ht).1, Text.slice?_stop (slice?_window cs asked)⟩, ?_⟩
  · have habut := abut_placeFrom (Text.byteSize as) (lexemes r ms)
    rw [hjoined] at habut
    simpa only [hbody, w, hw] using habut
  · intro t ht
    have hholds := holdsText_placeFrom as bs (hbody ▸ ht)
    rwa [hjoined, ← hcs] at hholds
  · intro t ht hempty
    exact (hproper t ht).2 (by simp [hempty])

/-- Each token, the end of input too, holds the text between the two boundaries of its span. -/
theorem holdsText_of_mem_tokenize {source : String} {config : Config} {asked : Option Span}
    {t : Token} (ht : t ∈ tokenize source config asked) : t.HoldsText source.toList := by
  obtain ⟨hcovers, _⟩ := placeFrom_lexemes_covers (Rules.ofConfig config) source.toList asked
  rcases List.mem_append.mp ht with ht | ht
  · exact hcovers.holds t (List.mem_filter.mp ht).1
  · obtain rfl := List.mem_singleton.mp ht
    exact hcovers.stop_boundary

/-- A configuration that keeps trivia keeps every token. -/
theorem Config.keeps_eq_true {config : Config} (hwhitespace : config.keepWhitespace = true)
    (hcomments : config.keepComments = true) (kind : TokenKind) : config.keeps kind = true := by
  cases kind <;> simp [Config.keeps, hwhitespace, hcomments]

/-- Every configuration keeps what is no trivia. -/
theorem Config.keeps_significant (config : Config) {kind : TokenKind}
    (h : kind.isTrivia = false) : config.keeps kind = true := by
  cases kind <;> simp_all [Config.keeps, TokenKind.isTrivia]

/-- **Coverage.**  If trivia is kept, reading any window of any text gives tokens that
cover it, each with a text, and then the only end of input, at the end of the window.  So
the texts of the tokens make up the slice of the source between the bounds of the window. -/
theorem tokenize_covers_window (source : String) (config : Config) (asked : Option Span)
    (hwhitespace : config.keepWhitespace = true) (hcomments : config.keepComments = true) :
    let w := window source.toList asked
    ∃ body, tokenize source config asked = body ++ [Token.eof w.stop] ∧
      Token.Covers source.toList w body ∧
      (∀ t ∈ body, t.text ≠ "" ∧ t.span.start < t.span.stop) ∧
      Text.slice? source.toList w.start w.stop =
        some (Token.sourceText (tokenize source config asked)).toList := by
  intro w
  obtain ⟨hcovers, htext⟩ :=
    placeFrom_lexemes_covers (Rules.ofConfig config) source.toList asked
  have htokens : tokenize source config asked =
      Lexeme.placeFrom w.start (lexemes (Rules.ofConfig config) (w.chars source.toList))
        ++ [Token.eof w.stop] := by
    simp [tokenize, Config.keeps_eq_true hwhitespace hcomments, w]
  refine ⟨_, htokens, hcovers, ?_, ?_⟩
  · intro t ht
    refine ⟨htext t ht, ?_⟩
    -- A token that holds its text is as wide as the text, which is not empty.
    obtain ⟨_, _, _, _, hsize⟩ := Text.exists_middle_of_slice? (hcovers.holds t ht)
    have hne : t.text.toList ≠ [] := by simpa using htext t ht
    have hpos := Text.byteSize_pos hne
    omega
  · rw [htokens, Token.sourceText_append]
    have heof : Token.sourceText [Token.eof w.stop] = "" := by
      simp [Token.sourceText, Token.eof]
    rw [heof, String.append_empty]
    exact hcovers.slice?_sourceText

/-- The window starts inside a character and ends beyond the text, and the second string
breaks off inside its block. -/
theorem tokenize_covers_window_broken_string :
    let source := "é = \"a$\x7b b + '¢' \x7d\" + \"$\x7b x\n// end"
    let w := window source.toList (some ⟨1, 1000⟩)
    Config.curlyBrace.keepWhitespace = true ∧ Config.curlyBrace.keepComments = true ∧
      ∃ body, tokenize source Config.curlyBrace (some ⟨1, 1000⟩) = body ++ [Token.eof w.stop] ∧
        Token.Covers source.toList w body ∧
        (∀ t ∈ body, t.text ≠ "" ∧ t.span.start < t.span.stop) ∧
        Text.slice? source.toList w.start w.stop =
          some (Token.sourceText (tokenize source Config.curlyBrace (some ⟨1, 1000⟩))).toList :=
  ⟨rfl, rfl, tokenize_covers_window _ Config.curlyBrace (some ⟨1, 1000⟩) rfl rfl⟩

end Lossless
