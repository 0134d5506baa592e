import Lossless.Proofs.StringNesting

/-!
# The grammar of string literals

Every stream of tokens derives from a small grammar, whatever text it was read from:

    stream   := code eof
    code     := (plain | opening pieces closing)*
    pieces   := (basic | escaped | mark name | block-opening code block-closing)*

A literal closes in the style in which it opens.  Derivations keep track of the literal around
the code and of the levels left for blocks (`Stretch`), so the grammar says three things more:
no line ends in the code of a single-line literal, content of a single-line literal stays on its
line, and blocks nest at most as deep as there are levels.

The lexer gives up a literal that breaks off together with all that was read in it.  So it is
enough to look at literals that come to their end (`pieces_wellNested`), and **each of them is a
derivation of its own**, however many broken ones were tried in its blocks
(`tokenize_wellNested`).
-/

namespace Lossless

/-- A stretch of a stream: code, inside of a literal of some style or of none, or what stands
between the delimiters of a literal.  In both, blocks may nest `levels` deep. -/
inductive Stretch where
  | code (around : Option StringStyle) (levels : Nat)
  | pieces (style : StringStyle) (levels : Nat)
deriving DecidableEq, Repr

/-- **The grammar.**  Lexemes derive from a stretch. -/
inductive WellNested : Stretch → List Lexeme → Prop
  | empty (stretch : Stretch) : WellNested stretch []
  -- code
  | plain {around : Option StringStyle} {levels : Nat} {l : Lexeme} {ls : List Lexeme}
      (hpart : l.kind.isStringPart = false) (heof : l.kind ≠ .eof)
      (hline : l.kind = .linebreak → around ≠ some .singleLine)
      (h : WellNested (.code around levels) ls) : WellNested (.code around levels) (l :: ls)
  | literal {around : Option StringStyle} {levels : Nat} {style : StringStyle}
      {opener closer : Lexeme} {inner ls : List Lexeme}
      (hopener : opener.kind = .string (.opening style))
      (hinner : WellNested (.pieces style levels) inner)
      (hcloser : closer.kind = .string (.closing style))
      (h : WellNested (.code around levels) ls) :
      WellNested (.code around levels) (opener :: inner ++ closer :: ls)
  -- pieces
  | content {style : StringStyle} {levels : Nat} {l : Lexeme} {ls : List Lexeme}
      (hkind : l.kind = .string .basic ∨ l.kind = .string .escaped)
      (hline : style = .singleLine → ∀ c ∈ l.text, Text.isLineEnd c = false)
      (h : WellNested (.pieces style levels) ls) : WellNested (.pieces style levels) (l :: ls)
  | name {style : StringStyle} {levels : Nat} {mark word : Lexeme} {ls : List Lexeme}
      (hmark : mark.kind = .string .nameMark)
      (hword : word.kind = .identifier ∨ word.kind = .keyword)
      (h : WellNested (.pieces style levels) ls) :
      WellNested (.pieces style levels) (mark :: word :: ls)
  | block {style : StringStyle} {levels : Nat} {opener closer : Lexeme} {inner ls : List Lexeme}
      (hopener : opener.kind = .string .blockOpen)
      (hinner : WellNested (.code (some style) levels) inner)
      (hcloser : closer.kind = .string .blockClose)
      (h : WellNested (.pieces style (levels + 1)) ls) :
      WellNested (.pieces style (levels + 1)) (opener :: inner ++ closer :: ls)

namespace WellNested

theorem append {around : Option StringStyle} {levels : Nat} {ks ls : List Lexeme}
    (h : WellNested (.code around levels) ks) (h' : WellNested (.code around levels) ls) :
    WellNested (.code around levels) (ks ++ ls) := by
  generalize hstretch : Stretch.code around levels = stretch at h
  induction h with
  | empty =>
      cases hstretch
      exact h'
  | plain hpart heof hline _ ih =>
      cases hstretch
      exact .plain hpart heof hline (ih rfl)
  | literal hopener hinner hcloser _ _ ih =>
      cases hstretch
      rw [List.append_assoc, List.cons_append]
      exact .literal hopener hinner hcloser (ih rfl)
  | content | name | block => cases hstretch

/-- Trivia can be left out, since it stands only in code. -/
theorem filter {stretch : Stretch} {ls : List Lexeme} (h : WellNested stretch ls)
    {keeps : Lexeme → Bool} (hkeeps : ∀ l, l.kind.isTrivia = false → keeps l = true) :
    WellNested stretch (ls.filter keeps) := by
  induction h with
  | empty stretch => exact .empty stretch
  | @plain around levels l ls hpart heof hline _ ih =>
      by_cases hkept : keeps l = true
      · rw [List.filter_cons_of_pos hkept]
        exact .plain hpart heof hline ih
      · rw [List.filter_cons_of_neg hkept]
        exact ih
  | literal hopener _ hcloser _ ihinner ih =>
      rw [List.filter_append, List.filter_cons_of_pos (hkeeps _ (by rw [hopener]; rfl)),
        List.filter_cons_of_pos (hkeeps _ (by rw [hcloser]; rfl))]
      exact .literal hopener ihinner hcloser ih
  | content hkind hline _ ih =>
      rw [List.filter_cons_of_pos (hkeeps _ (by rcases hkind with h | h <;> rw [h] <;> rfl))]
      exact .content hkind hline ih
  | name hmark hword _ ih =>
      rw [List.filter_cons_of_pos (hkeeps _ (by rw [hmark]; rfl)),
        List.filter_cons_of_pos (hkeeps _ (by rcases hword with h | h <;> rw [h] <;> rfl))]
      exact .name hmark hword ih
  | block hopener _ hcloser _ ihinner ih =>
      rw [List.filter_append, List.filter_cons_of_pos (hkeeps _ (by rw [hopener]; rfl)),
        List.filter_cons_of_pos (hkeeps _ (by rw [hcloser]; rfl))]
      exact .block hopener ihinner hcloser ih

end WellNested

/-! ## Tokens outside of literals -/

namespace Cut.Plain

variable {r : Rules} {cut : Cut}

/-- What changes nothing in code is no piece of a literal, and not the end of the input. -/
theorem not_part (h : cut.Plain r) : cut.kind.isStringPart = false ∧ cut.kind ≠ .eof := by
  have hcode := h.inCode []
  unfold Nest.codeStep at hcode
  split at hcode
  · cases hcode
  · cases hcode
  · cases hcode
  · cases hcode
  · rename_i hopening hclosing hpart heof
    refine ⟨?_, heof⟩
    unfold TokenKind.isStringPart
    split
    · rename_i part hkind
      exact absurd hkind (hpart part)
    · rfl

/-- A cut off a text that begins with no line end is no line end. -/
theorem kind_ne_linebreak (h : cut.Plain r) {c : Char} {cs : List Char}
    (hsplits : cut.Splits (c :: cs)) (hc : Text.isLineEnd c = false) : cut.kind ≠ .linebreak := by
  intro hkind
  have hspelled : ∃ d ds, cut.text = d :: ds ∧ Text.isLineEnd d = true := by
    have h := h.spelled
    rwa [Rules.Spells, show cut.lexeme.kind = .linebreak from hkind] at h
  obtain ⟨d, ds, htext, hd⟩ := hspelled
  have hjoined := hsplits.joined
  rw [htext, List.cons_append] at hjoined
  rw [(List.cons.inj hjoined).1, hc] at hd
  cases hd

theorem wellNested (h : cut.Plain r) {around : Option StringStyle} (levels : Nat)
    (hline : around = some .singleLine → cut.kind ≠ .linebreak) :
    WellNested (.code around levels) [cut.lexeme] := by
  obtain ⟨hpart, heof⟩ := h.not_part
  exact .plain hpart heof (fun hkind haround => hline haround hkind) (.empty _)

end Cut.Plain

/-! ## Literals and code -/

/-- Lexemes of a stretch up to a last one, which closes it. -/
def ClosedBy (closing : StringPart) (stretch : Stretch) (ls : List Lexeme) : Prop :=
  ∃ inner closer, ls = inner ++ [closer] ∧ closer.kind = .string closing ∧
    WellNested stretch inner

theorem ClosedBy.after {closing : StringPart} {stretch : Stretch} {ls : List Lexeme}
    (h : ClosedBy closing stretch ls) (ks : List Lexeme)
    (hks : ∀ rest, WellNested stretch rest → WellNested stretch (ks ++ rest)) :
    ClosedBy closing stretch (ks ++ ls) := by
  obtain ⟨inner, closer, rfl, hcloser, hinner⟩ := h
  exact ⟨ks ++ inner, closer, (List.append_assoc _ _ _).symm, hcloser, hks inner hinner⟩

/-- A reader of blocks that come to their end, in literals of either style. -/
def BlockScanner.Nests (levels : Nat) (block : BlockScanner) : Prop :=
  ∀ rounds style cs, (block rounds (style == .singleLine) cs).closed = true →
    ClosedBy .blockClose (.code (some style) levels)
      (block rounds (style == .singleLine) cs).lexemes

/-- The way to read blocks, if there is one, takes a level. -/
def BlocksNest (levels : Nat) (block? : Option BlockScanner) : Prop :=
  ∀ block ∈ block?, ∃ below, levels = below + 1 ∧ BlockScanner.Nests below block

theorem isLineEnd_of_not_breaksAt {style : StringStyle} {c : Char}
    (h : ¬ style.breaksAt c = true) (hstyle : style = .singleLine) : Text.isLineEnd c = false := by
  subst hstyle
  simpa [StringStyle.breaksAt] using h

/-- Plain content of a single-line literal stops at the end of the line. -/
theorem isLineEnd_of_mem_content {r : Rules} {blocks : Bool} {style : StringStyle}
    {delimiter cs run rest : List Char}
    (h : splitBefore (contentStops r blocks style delimiter) cs = (run, rest))
    (hstyle : style = .singleLine) : ∀ c ∈ run, Text.isLineEnd c = false := by
  induction cs generalizing run rest with
  | nil =>
      cases h
      simp
  | cons c cs ih =>
      unfold splitBefore at h
      split at h
      · cases h
        simp
      · rename_i hgo
        have hc : ¬ style.breaksAt c = true := by
          intro hbreaks
          exact hgo (by simp [contentStops, hbreaks])
        cases h
        exact List.forall_mem_cons.mpr ⟨isLineEnd_of_not_breaksAt hc hstyle, ih rfl⟩

/-- **The pieces of a literal that comes to its end derive from the grammar**, up to the
delimiter that closes it. -/
theorem pieces_wellNested (r : Rules) {levels : Nat} {block? : Option BlockScanner}
    (hblock : BlocksNest levels block?) (style : StringStyle) (delimiter : List Char)
    (rounds : Nat) (cs : List Char)
    (hclosed : (pieces r block? style delimiter rounds cs).closed = true) :
    ClosedBy (.closing style) (.pieces style levels)
      (pieces r block? style delimiter rounds cs).lexemes := by
  fun_induction pieces r block? style delimiter rounds cs with
  | case1 cs => cases hclosed
  | case2 rounds => cases hclosed
  | case3 rounds c cs hbreaks => cases hclosed
  | case4 rounds c cs hbreaks hclose => exact ⟨[], _, rfl, rfl, .empty _⟩
  | case5 rounds c hbreaks hescape hclose => cases hclosed
  | case6 rounds c hbreaks hescape d ds hbreaks' hclose => cases hclosed
  | case7 rounds c hbreaks hescape d ds hbreaks' hclose ih =>
      apply (ih hclosed).after
      intro rest hrest
      refine .content (Or.inr rfl) ?_ hrest
      intro hstyle
      have hc := isLineEnd_of_not_breaksAt hbreaks hstyle
      have hd := isLineEnd_of_not_breaksAt hbreaks' hstyle
      simp [hc, hd]
  | case8 rounds c cs hbreaks hclose hescape block hb hopens inner hinner ih =>
      subst hb
      simp only [hopens] at hclosed ⊢
      rw [if_pos hinner] at hclosed ⊢
      apply (ih hclosed).after
      intro rest hrest
      obtain ⟨below, rfl, hnests⟩ := hblock block rfl
      obtain ⟨code, brace, hcode, hbrace, hinside⟩ := hnests _ style _ hinner
      rw [List.cons_append, hcode, List.append_assoc]
      exact .block rfl hinside hbrace hrest
  | case9 rounds c cs hbreaks hclose hescape block hb hopens inner hinner =>
      subst hb
      simp only [hopens] at hclosed
      rw [if_neg hinner] at hclosed
      cases hclosed
  | case10 rounds c hbreaks hescape hclose hopens =>
      simp only [hopens] at hclosed
      cases hclosed
  | case11 rounds c hbreaks hescape d ds name hclose hopens ih =>
      simp only [hopens] at hclosed ⊢
      apply (ih hclosed).after
      intro rest hrest
      obtain ⟨hkind, _⟩ := Plain.word_plain (interpolation?_name hopens) ds
      exact .name rfl hkind.symm hrest
  | case12 rounds c cs hbreaks hclose hescape run rest hrun hname hopens ih =>
      revert hclosed
      split
      · rename_i block hinterpolation
        exact absurd rfl (hopens block hinterpolation)
      · rename_i hinterpolation
        exact absurd hinterpolation hname
      · rw [hrun]
        intro hclosed
        apply (ih hclosed).after
        intro rest hrest
        refine .content (Or.inl rfl) ?_ hrest
        intro hstyle
        exact List.forall_mem_cons.mpr
          ⟨isLineEnd_of_not_breaksAt hbreaks hstyle, isLineEnd_of_mem_content hrun hstyle⟩

/-- A string literal in code derives from the grammar, whether it comes to its end or not. -/
theorem stringLiteral_wellNested (r : Rules) {levels : Nat} {block? : Option BlockScanner}
    (hblock : BlocksNest levels block?) (style : StringStyle) (delimiter : List Char)
    (rounds : Nat) (cs : List Char) (around : Option StringStyle) :
    WellNested (.code around levels) (stringLiteral r block? style delimiter rounds cs).1 := by
  unfold stringLiteral Scan.sealed
  simp only
  split
  · rename_i hclosed
    obtain ⟨inner, closer, hls, hcloser, hinner⟩ :=
      pieces_wellNested r hblock style delimiter rounds (cs.drop delimiter.length) hclosed
    rw [Scan.after, hls, ← List.append_assoc]
    exact .literal rfl hinner hcloser (.empty _)
  · exact .plain rfl (by simp) (by simp) (.empty _)

theorem lexemesAt_wellNested (r : Rules) {levels : Nat} {block? : Option BlockScanner}
    (hblock : BlocksNest levels block?) (rounds : Nat) (c : Char) (cs : List Char)
    {around : Option StringStyle}
    (hline : around = some .singleLine → Text.isLineEnd c = false) :
    WellNested (.code around levels) (lexemesAt r block? rounds c cs).1 := by
  unfold lexemesAt
  split
  · rename_i cut hcut
    simp only [Option.orElse_eq_orElse, Option.orElse_eq_or, Option.or_eq_some_iff] at hcut
    rcases hcut with hend | ⟨_, hblank | ⟨_, hcomment⟩⟩
    · have hplain : cut.Plain r := Plain.linebreak?_plain hend
      apply hplain.wellNested
      exact fun haround => hplain.kind_ne_linebreak (Plain.linebreak?_splits hend) (hline haround)
    · have hplain : cut.Plain r := Plain.blanks?_plain hblank
      apply hplain.wellNested
      exact fun haround => hplain.kind_ne_linebreak (Plain.blanks?_splits hblank) (hline haround)
    · have hplain : cut.Plain r := Plain.comment?_plain hcomment
      apply hplain.wellNested
      intro haround
      have hc := hline haround
      exact hplain.kind_ne_linebreak (Plain.comment?_splits hc hcomment) hc
  · split
    · exact stringLiteral_wellNested r hblock _ _ rounds _ around
    · simp only
      split
      · apply (Plain.charLiteral_plain r c cs).wellNested
        exact fun haround => (Plain.charLiteral_plain r c cs).kind_ne_linebreak
          (Plain.charLiteral_splits r c cs) (hline haround)
      · apply (Plain.other_plain r c cs).wellNested
        exact fun haround => (Plain.other_plain r c cs).kind_ne_linebreak
          (Plain.other_splits r c cs) (hline haround)

/-- The literal around the code of a region: none at the top, and one that a line end breaks off
if it does so for the block. -/
def Region.Inside (region : Region) (around : Option StringStyle) : Prop :=
  match region with
  | .top => around = none
  | .block lineBound => ∃ style, around = some style ∧ lineBound = (style == .singleLine)

/-- No token begins with a line end in a block of a single-line literal. -/
theorem Region.Inside.isLineEnd_of_gate {region : Region} {around : Option StringStyle}
    (h : region.Inside around) {braces open' : Nat} {c : Char}
    (hgate : region.gate braces c = .token open') (haround : around = some .singleLine) :
    Text.isLineEnd c = false := by
  subst haround
  cases region with
  | top => cases h
  | block lineBound =>
      obtain ⟨style, hstyle, rfl⟩ := h
      cases hstyle
      by_cases hclose : c = '\x7d'
      · subst hclose
        rfl
      · by_cases hopen : c = '\x7b'
        · subst hopen
          rfl
        · cases hend : Text.isLineEnd c with
          | false => rfl
          | true => simp [gate, hclose, hopen, hend] at hgate

/-- What is read of code derives from the grammar.  If it comes to its end, it is the code of a
block, up to the brace that closes it. -/
structure Scan.IsCode (s : Scan) (around : Option StringStyle) (levels : Nat) : Prop where
  closed : s.closed = true →
    around ≠ none ∧ ClosedBy .blockClose (.code around levels) s.lexemes
  unclosed : s.closed = false → WellNested (.code around levels) s.lexemes

theorem Scan.IsCode.after {s : Scan} {around : Option StringStyle} {levels : Nat}
    (h : s.IsCode around levels) {ls : List Lexeme} (hls : WellNested (.code around levels) ls) :
    (s.after ls).IsCode around levels := by
  constructor
  · intro hclosed
    obtain ⟨haround, hlexemes⟩ := h.closed hclosed
    exact ⟨haround, hlexemes.after ls (fun rest hrest => hls.append hrest)⟩
  · intro hclosed
    exact hls.append (h.unclosed hclosed)

/-- **Code derives from the grammar**, if the blocks in it do. -/
theorem tokensIn_isCode (r : Rules) {levels : Nat} {block? : Option BlockScanner}
    (hblock : BlocksNest levels block?) (region : Region) (rounds braces : Nat) (cs : List Char)
    {around : Option StringStyle} (hregion : region.Inside around) :
    (tokensIn r block? region rounds braces cs).IsCode around levels := by
  have hnothing : ∀ cs : List Char, Scan.IsCode ⟨[], cs, false⟩ around levels := by
    intro cs
    refine ⟨?_, fun _ => .empty _⟩
    intro hclosed
    cases hclosed
  fun_induction tokensIn r block? region rounds braces cs with
  | case1 braces cs => exact hnothing cs
  | case2 rounds braces => exact hnothing []
  | case3 rounds braces c cs hgate =>
      refine ⟨fun _ => ⟨?_, [], _, rfl, rfl, .empty _⟩, fun hclosed => by cases hclosed⟩
      cases region with
      | top => cases hgate
      | block lineBound =>
          obtain ⟨style, rfl, _⟩ := hregion
          simp
  | case4 rounds braces c cs hgate => exact hnothing (c :: cs)
  | case5 rounds braces c cs open' hgate ls rest hstep ih =>
      have hls := lexemesAt_wellNested r hblock rounds c cs (hregion.isLineEnd_of_gate hgate)
      rw [hstep] at hls
      exact ih.after hls

/-- Code in a region, however deep blocks may nest. -/
theorem code_isCode (r : Rules) (levels : Nat) (region : Region) (rounds : Nat)
    (cs : List Char) {around : Option StringStyle} (hregion : region.Inside around) :
    (code r levels region rounds cs).IsCode around levels := by
  induction levels generalizing region rounds cs around with
  | zero =>
      refine tokensIn_isCode r ?_ region rounds 0 cs hregion
      intro block hb
      cases hb
  | succ levels ih =>
      refine tokensIn_isCode r ?_ region rounds 0 cs hregion
      intro block hb
      obtain rfl := Option.some.inj hb
      refine ⟨levels, rfl, ?_⟩
      intro rounds style cs hclosed
      exact ((ih (.block (style == .singleLine)) rounds cs ⟨style, rfl, rfl⟩).closed hclosed).2

/-! ## Streams -/

/-- What a token is, apart from its place. -/
def Token.lexeme (t : Token) : Lexeme := ⟨t.kind, t.text.toList⟩

theorem lexeme_placeFrom (offset : Nat) (ls : List Lexeme) :
    (Lexeme.placeFrom offset ls).map Token.lexeme = ls := by
  induction ls generalizing offset with
  | nil => rfl
  | cons l ls ih =>
      rw [Lexeme.placeFrom, List.map_cons, ih]
      simp [Token.lexeme]

/-- The lexemes of the tokens that are kept. -/
theorem map_lexeme_filter_placeFrom (keeps : TokenKind → Bool) (offset : Nat) (ls : List Lexeme) :
    ((Lexeme.placeFrom offset ls).filter fun t => keeps t.kind).map Token.lexeme =
      ls.filter fun l => keeps l.kind := by
  have hplaced := List.filter_map (f := Token.lexeme) (p := fun l => keeps l.kind)
    (l := Lexeme.placeFrom offset ls)
  rw [lexeme_placeFrom] at hplaced
  exact hplaced.symm

/-- Outside of all literals there is no block to close. -/
theorem lexemes_wellNested (r : Rules) (cs : List Char) :
    WellNested (.code none maxBlockDepth) (lexemes r cs) := by
  have hcode := code_isCode r maxBlockDepth .top cs.length cs rfl
  apply hcode.unclosed
  rw [Bool.eq_false_iff]
  intro hclosed
  exact (hcode.closed hclosed).1 rfl

/-- **Every stream of tokens is well nested.**  Whatever the text, the configuration and the
window are, the tokens are code and then the end of the input.  In this code every literal has
its pieces between delimiters of one style, a mark is followed by a name, and a block of code
closes with a brace; no line ends in a single-line literal, neither in its content nor in the
code of its blocks; and blocks nest at most 128 deep. -/
theorem tokenize_wellNested (source : String) (config : Config) (asked : Option Span) :
    ∃ body stop, tokenize source config asked = body ++ [Token.eof stop] ∧
      WellNested (.code none 128) (body.map Token.lexeme) := by
  let w := window source.toList asked
  let ls := lexemes (Rules.ofConfig config) (w.chars source.toList)
  refine ⟨_, w.stop, rfl, ?_⟩
  rw [map_lexeme_filter_placeFrom]
  exact (lexemes_wellNested _ _).filter fun _ => config.keeps_significant

end Lossless
