import Lossless.Proofs.OneLine
import Lossless.Proofs.Resumption

/-!
# Single-line literals and line ends

A literal that ends on its line is broken off by a line end: in its content, and in the code of
its blocks between two tokens.  **Inside of a token of such a block nothing looks for one.**  So a
comment between delimiters or a literal of several lines in a block carries a single-line literal
beyond its line, be it that the literal comes to its end or that it breaks off later.

These two are the only ways out.  What has been read up to any point holds line ends behind such
openings only (`Kept`), and so does whatever derives from the grammar of strings
(`WellNested.sheltered`), of which a literal is a part that can be told by its delimiters
(`WellNested.matched`).
-/

namespace Lossless

open Lexeme (opened closed Balanced closed_append opened_append closed_cons opened_cons closed_nil
  opened_nil)

/-! ## What a lexeme may hold -/

/-- What a line end in a stretch has to stand behind, if the stretch is bound to its line. -/
def StringStyle.ways (r : Rules) : StringStyle → List (List (List Char))
  | .singleLine => [r.blockMarks, r.shelters]
  | .multiLine => []

/-- Apart from line ends and the content of literals, a lexeme holds line ends behind a shelter
only, and only if it is a comment or an error.  An error that begins like a literal that ends on
its line holds them in blocks only. -/
def Rules.Contains (r : Rules) (l : Lexeme) : Prop :=
  match l.kind with
  | .linebreak => True
  | .literal (.string .basic) => True
  | .literal (.string .escaped) => True
  | .literal (.string (.opening .multiLine)) => ∃ mark ∈ r.multilineDelimiter, l.text = mark
  | .literal (.string .blockOpen) => l.text ∈ r.blockMarks
  | .comment => Sheltered [r.shelters] l.text
  | .error => Sheltered [r.shelters] l.text ∧
      ∀ opener ∈ opening? r l.text, Sheltered (opener.1.ways r) l.text
  | _ => Text.OneLine l.text

/-- A row of lexemes that hold what they may, and hold line ends behind certain marks only. -/
structure Kept (r : Rules) (ways : List (List (List Char))) (ls : List Lexeme) : Prop where
  each : ∀ l ∈ ls, r.Contains l
  whole : Sheltered ways (Lexeme.joined ls)

section Keeping

variable {r : Rules} {ways : List (List (List Char))} {ks ls : List Lexeme} {l : Lexeme}

theorem Rules.contains_of_oneLine (hblock : l.kind ≠ .string .blockOpen)
    (hopening : l.kind ≠ .string (.opening .multiLine)) (h : Text.OneLine l.text) :
    r.Contains l := by
  unfold Contains
  split
  · trivial
  · trivial
  · trivial
  · rename_i hkind
    exact absurd hkind hopening
  · rename_i hkind
    exact absurd hkind hblock
  · exact h.sheltered
  · exact ⟨h.sheltered, fun _ _ => h.sheltered⟩
  · exact h

theorem Rules.contains_part {part : StringPart} {text : List Char} (hblock : part ≠ .blockOpen)
    (hopening : part ≠ .opening .multiLine) (h : Text.OneLine text) :
    r.Contains ⟨.string part, text⟩ :=
  contains_of_oneLine (by simpa [TokenKind.string] using hblock)
    (by simpa [TokenKind.string] using hopening) h

theorem Rules.contains_plain {cut : Cut} (hplain : cut.Plain r) (h : Text.OneLine cut.text) :
    r.Contains cut.lexeme := by
  have hnot : ∀ part, cut.lexeme.kind ≠ .string part := by
    intro part hkind
    have hpart := hplain.not_part.1
    rw [show cut.kind = _ from hkind] at hpart
    cases hpart
  exact contains_of_oneLine (hnot _) (hnot _) h

theorem Rules.Contains.sheltered (h : r.Contains l) (hpart : l.kind.isStringPart = false)
    (hline : l.kind ≠ .linebreak) : Sheltered [r.shelters] l.text := by
  have hnot : ∀ part, l.kind ≠ .literal (.string part) := by
    intro part hkind
    rw [hkind] at hpart
    cases hpart
  unfold Contains at h
  split at h
  · exact absurd ‹_› hline
  · exact absurd ‹_› (hnot _)
  · exact absurd ‹_› (hnot _)
  · exact absurd ‹_› (hnot _)
  · exact absurd ‹_› (hnot _)
  · exact h
  · exact h.1
  · exact Text.OneLine.sheltered h

theorem Kept.nil : Kept r ways [] :=
  ⟨by simp, Text.OneLine.nil.sheltered⟩

theorem Kept.append (hks : Kept r ways ks) (hls : Kept r ways ls) : Kept r ways (ks ++ ls) := by
  refine ⟨List.forall_mem_append.mpr ⟨hks.each, hls.each⟩, ?_⟩
  rw [Lexeme.joined_append]
  exact hks.whole.append hls.whole

theorem Kept.single (h : r.Contains l) (htext : Sheltered ways l.text) : Kept r ways [l] := by
  refine ⟨by simpa using h, ?_⟩
  simpa [Lexeme.joined] using htext

theorem Kept.cons (h : r.Contains l) (htext : Sheltered ways l.text) (hls : Kept r ways ls) :
    Kept r ways (l :: ls) :=
  (Kept.single h htext).append hls

end Keeping

/-! ## What is kept: literals and code -/

/-- What a line end in code has to stand behind, if the code is bound to its line. -/
def Rules.codeWays (r : Rules) (lineBound : Bool) : List (List (List Char)) :=
  if lineBound then [r.shelters] else []

/-- A reader of blocks that are kept on their line if they are bound to it. -/
def BlockScanner.Keeps (r : Rules) (block : BlockScanner) : Prop :=
  ∀ rounds lineBound cs, Kept r (r.codeWays lineBound) (block rounds lineBound cs).lexemes

section Reading

variable {r : Rules} {block? : Option BlockScanner}

/-- In code it does not matter whether it is bound to its line, if a text is sheltered anyway. -/
theorem Sheltered.inCode {text : List Char} (h : Sheltered [r.shelters] text) (lineBound : Bool) :
    Sheltered (r.codeWays lineBound) text := by
  cases lineBound with
  | false => exact sheltered_nil text
  | true => exact h

/-- A text that stays on its line if the literal around it has to. -/
theorem StringStyle.sheltered {style : StringStyle} {text : List Char}
    (h : style = .singleLine → Text.OneLine text) : Sheltered (style.ways r) text := by
  cases style with
  | singleLine => exact (h rfl).sheltered
  | multiLine => exact sheltered_nil text

/-- What stands in front of an interpolation holds no line end. -/
theorem interpolation?_oneLine (h : r.OneLine) {blocks : Bool} {c : Char} {cs : List Char}
    {opens : Interpolation} (hopens : interpolation? r blocks (c :: cs) = some opens) :
    Text.isLineEnd c = false := by
  unfold interpolation? at hopens
  split at hopens
  · rename_i c' d ds heq
    obtain ⟨rfl, rfl⟩ := List.cons.inj heq
    split at hopens
    · rename_i hmark
      exact h.interpolationChar c (by simpa using (beq_iff_eq.mp hmark).symm)
    · cases hopens
  · cases hopens

/-- What opens a block. -/
theorem interpolation?_mem_blockMarks {blocks : Bool} {c : Char} {cs : List Char}
    (hopens : interpolation? r blocks (c :: cs) = some .block) :
    c :: cs.take 1 ∈ r.blockMarks := by
  unfold interpolation? at hopens
  split at hopens
  · rename_i c' d ds heq
    obtain ⟨rfl, rfl⟩ := List.cons.inj heq
    split at hopens
    · rename_i hmark
      split at hopens
      · rename_i hbrace
        obtain ⟨rfl, _⟩ : d = '\x7b' ∧ blocks = true := by simpa using hbrace
        simp [Rules.blockMarks, ← beq_iff_eq.mp hmark]
      · split at hopens <;> cases hopens
    · cases hopens
  · cases hopens

theorem Rules.OneLine.blockMarks (h : r.OneLine) : ∀ mark ∈ r.blockMarks, Text.OneLine mark := by
  intro mark hmark
  obtain ⟨c, hc, rfl⟩ := List.mem_map.mp hmark
  have hline := h.interpolationChar c (Option.mem_toList.mp hc)
  exact Text.OneLine.cons_iff.mpr ⟨hline, by decide⟩

/-- Code behind the mark that opens a block in a literal. -/
theorem Kept.block {style : StringStyle} {mark : List Char} {ls : List Lexeme} (h : r.OneLine)
    (hmark : mark ∈ r.blockMarks) (hls : Kept r (r.codeWays (style == .singleLine)) ls) :
    Kept r (style.ways r) (⟨.string .blockOpen, mark⟩ :: ls) := by
  refine ⟨List.forall_mem_cons.mpr ⟨hmark, hls.each⟩, ?_⟩
  rw [Lexeme.joined_cons]
  cases style with
  | singleLine => exact hls.whole.behind hmark (h.blockMarks mark hmark)
  | multiLine => exact sheltered_nil _

/-- **The pieces of a literal that ends on its line hold line ends behind shelters in blocks
only**, also if the literal breaks off. -/
theorem kept_pieces (h : r.OneLine) (hblock : ∀ block ∈ block?, BlockScanner.Keeps r block)
    (style : StringStyle) {delimiter : List Char} (hdelimiter : Text.OneLine delimiter)
    (rounds : Nat) (cs : List Char) :
    Kept r (style.ways r) (pieces r block? style delimiter rounds cs).lexemes := by
  have hone : ∀ {c : Char}, ¬ style.breaksAt c = true → style = .singleLine →
      Text.isLineEnd c = false := isLineEnd_of_not_breaksAt
  fun_induction pieces r block? style delimiter rounds cs with
  | case1 cs => exact .nil
  | case2 rounds => exact .nil
  | case3 rounds c cs hbreaks => exact .nil
  | case4 rounds c cs hbreaks hclose =>
      exact .single (Rules.contains_part (by simp) (by simp) hdelimiter) hdelimiter.sheltered
  | case5 rounds c hbreaks hescape hclose =>
      refine .single trivial (StringStyle.sheltered fun hstyle => ?_)
      simp [hone hbreaks hstyle]
  | case6 rounds c hbreaks hescape d ds hbreaks' hclose =>
      refine .single trivial (StringStyle.sheltered fun hstyle => ?_)
      simp [hone hbreaks hstyle]
  | case7 rounds c hbreaks hescape d ds hbreaks' hclose ih =>
      refine .cons trivial (StringStyle.sheltered fun hstyle => ?_) ih
      simp [hone hbreaks hstyle, hone hbreaks' hstyle]
  | case8 rounds c cs hbreaks hclose hescape block hb hopens inner hinner ih =>
      have hopened := Kept.block h (interpolation?_mem_blockMarks hopens)
        (hblock block hb rounds (style == .singleLine) (cs.drop 1))
      subst hb
      simp only [hopens]
      rw [if_pos hinner]
      exact hopened.append ih
  | case9 rounds c cs hbreaks hclose hescape block hb hopens inner hinner =>
      have hopened := Kept.block h (interpolation?_mem_blockMarks hopens)
        (hblock block hb rounds (style == .singleLine) (cs.drop 1))
      subst hb
      simp only [hopens]
      rw [if_neg hinner]
      exact hopened
  | case10 rounds c hbreaks hescape hclose hopens =>
      have hmark : Text.OneLine [c] := by simp [interpolation?_oneLine h hopens]
      simp only [hopens]
      exact .single (Rules.contains_part (by simp) (by simp) hmark) hmark.sheltered
  | case11 rounds c hbreaks hescape d ds name hclose hopens ih =>
      have hmark : Text.OneLine [c] := by simp [interpolation?_oneLine h hopens]
      have hword := Plain.word_oneLine h (interpolation?_name hopens) ds
      have hplain := (Plain.word_plain (interpolation?_name hopens) ds).2
      simp only [hopens]
      exact .cons (Rules.contains_part (by simp) (by simp) hmark) hmark.sheltered
        (.cons (Rules.contains_plain hplain hword) hword.sheltered ih)
  | case12 rounds c cs hbreaks hclose hescape run rest hrun hname hopens ih =>
      split
      · rename_i block hinterpolation
        exact absurd rfl (hopens block hinterpolation)
      · rename_i hinterpolation
        exact absurd hinterpolation hname
      · rw [hrun]
        refine .cons trivial (StringStyle.sheltered fun hstyle => ?_) ih
        exact Text.OneLine.cons_iff.mpr
          ⟨hone hbreaks hstyle, isLineEnd_of_mem_content hrun hstyle⟩

/-- The delimiters of literals, by their style. -/
theorem opening?_delimiter {cs delimiter : List Char} {style : StringStyle}
    (hopening : opening? r cs = some (style, delimiter)) :
    (style = .multiLine ∧ r.multilineDelimiter = some delimiter) ∨
      (style = .singleLine ∧ ∃ d, r.stringDelimiter = some d ∧ delimiter = [d]) := by
  unfold opening? at hopening
  split at hopening
  · rename_i d hd
    cases hopening
    exact Or.inl ⟨rfl, (Option.filter_eq_some_iff.mp hd).1⟩
  · split at hopening
    · rename_i d hd
      cases hopening
      exact Or.inr ⟨rfl, d, (Option.filter_eq_some_iff.mp hd).1, rfl⟩
    · cases hopening

theorem opening?_oneLine (h : r.OneLine) {cs delimiter : List Char} {style : StringStyle}
    (hopening : opening? r cs = some (style, delimiter)) : Text.OneLine delimiter := by
  rcases opening?_delimiter hopening with ⟨_, hmark⟩ | ⟨_, d, hmark, rfl⟩
  · exact h.multilineDelimiter _ hmark
  · simp [h.stringDelimiter d hmark]

/-- A text that begins with the delimiter of literals of several lines begins such a literal. -/
theorem opening?_multiLine {delimiter : List Char} (hmark : r.multilineDelimiter = some delimiter)
    (hne : delimiter ≠ []) (text : List Char) :
    opening? r (delimiter ++ text) = some (.multiLine, delimiter) := by
  have hfilter : (some delimiter).filter (fun d => !d.isEmpty && d.isPrefixOf (delimiter ++ text)) =
      some delimiter := by
    simp [Option.filter, hne]
  rw [opening?, hmark, hfilter]

/-- **A literal is sheltered as a whole**: one that ends on its line by its pieces, and one of
several lines by its delimiter.  If it breaks off, so is the error that is left of it. -/
theorem kept_stringLiteral (h : r.OneLine) (hblock : ∀ block ∈ block?, BlockScanner.Keeps r block)
    {style : StringStyle} {delimiter : List Char} (rounds : Nat) {cs : List Char}
    (hopening : opening? r cs = some (style, delimiter)) :
    Kept r [r.shelters] (stringLiteral r block? style delimiter rounds cs).1 := by
  have hdelimiter := opening?_oneLine h hopening
  have hpieces := kept_pieces h hblock style hdelimiter rounds (cs.drop delimiter.length)
  generalize hscan : pieces r block? style delimiter rounds (cs.drop delimiter.length) = scan
    at hpieces
  simp only [stringLiteral, hscan, Scan.sealed, Scan.after, List.singleton_append]
  rcases opening?_delimiter hopening with ⟨rfl, hmark⟩ | ⟨rfl, d, _, _⟩
  · have hopened : Kept r [r.shelters]
        (⟨.string (.opening .multiLine), delimiter⟩ :: scan.lexemes) := by
      refine ⟨List.forall_mem_cons.mpr ⟨⟨delimiter, hmark, rfl⟩, hpieces.each⟩, ?_⟩
      rw [Lexeme.joined_cons]
      exact (sheltered_nil _).behind (List.mem_append_right _ (by simp [hmark])) hdelimiter
    split
    · exact hopened
    · refine .single ⟨hopened.whole, ?_⟩ hopened.whole
      intro opener hmem
      rw [Lexeme.joined_cons, opening?_multiLine hmark (opening?_isPrefixOf hopening).1] at hmem
      obtain rfl := Option.some.inj hmem
      exact sheltered_nil _
  · have hopened := Kept.cons (l := ⟨.string (.opening .singleLine), delimiter⟩)
      (Rules.contains_part (by simp) (by simp) hdelimiter) hdelimiter.sheltered hpieces
    split
    · exact ⟨hopened.each, hopened.whole.tail⟩
    · refine .single ⟨hopened.whole.tail, ?_⟩ hopened.whole.tail
      rintro ⟨style, _⟩ _
      cases style with
      | singleLine => exact hopened.whole
      | multiLine => exact sheltered_nil _

theorem Plain.linebreak?_kind {cs : List Char} {cut : Cut} (h : linebreak? cs = some cut) :
    cut.kind = .linebreak := by
  unfold linebreak? at h
  split at h
  · cases h
    rfl
  · split at h <;> cases h
    rfl
  · cases h

theorem Plain.blanks?_kind {cs : List Char} {cut : Cut} (h : blanks? cs = some cut) :
    cut.kind = .whitespace := by
  unfold blanks? at h
  split at h
  · split at h <;> cases h
    rfl
  · cases h

/-- **A comment is an error only if it takes the whole text**, for want of its end. -/
theorem Plain.comment?_unclosed {cs : List Char} {cut : Cut} (h : comment? r cs = some cut) :
    cut.kind = .comment ∨
      cut = ⟨.error, cs, []⟩ ∧ ∃ mark ∈ r.blockComments, mark.1 ≠ [] ∧ mark.1 <+: cs := by
  have hblock : ∀ {opener closer}, longest? Prod.fst cs r.blockComments = some (opener, closer) →
      (blockComment opener closer cs).kind = .comment ∨
        blockComment opener closer cs = ⟨.error, cs, []⟩ ∧
          ∃ mark ∈ r.blockComments, mark.1 ≠ [] ∧ mark.1 <+: cs := by
    intro opener closer hmark
    unfold blockComment
    split
    · exact Or.inl rfl
    · refine Or.inr ⟨rfl, (opener, closer), longest?_mem hmark, ?_⟩
      obtain ⟨hne, hpre⟩ := longest?_isPrefixOf hmark
      exact ⟨hne, List.isPrefixOf_iff_prefix.mp hpre⟩
  unfold comment? at h
  split at h
  · rename_i hmark
    split at h <;> cases h
    · exact hblock hmark
    · exact Or.inl rfl
  · cases h
    exact Or.inl rfl
  · rename_i hmark
    cases h
    exact hblock hmark
  · cases h

/-- Comments do not begin like literals that end on their line. -/
def Rules.CommentsApart (r : Rules) : Prop :=
  ∀ mark ∈ r.blockComments, mark.1.head? ≠ r.stringDelimiter

theorem commentsApart_curlyBrace : (Rules.ofConfig Config.curlyBrace).CommentsApart := by
  unfold Rules.CommentsApart
  decide

theorem contains_comment (h : r.OneLine) (hapart : r.CommentsApart) {cs : List Char} {cut : Cut}
    (hcut : Plain.comment? r cs = some cut) : r.Contains cut.lexeme := by
  have hsheltered := Plain.comment?_sheltered h hcut
  rcases Plain.comment?_unclosed hcut with hkind | ⟨rfl, mark, hmark, hne, hpre⟩
  · rwa [Rules.Contains, show cut.lexeme.kind = .comment from hkind]
  · refine ⟨hsheltered, ?_⟩
    rintro ⟨style, delimiter⟩ hopening
    rcases opening?_delimiter hopening with ⟨rfl, _⟩ | ⟨rfl, d, hd, rfl⟩
    · exact sheltered_nil _
    · -- the text begins with a mark for comments, and with a delimiter of literals
      obtain ⟨ds, hds⟩ := List.isPrefixOf_iff_prefix.mp (opening?_isPrefixOf hopening).2
      obtain ⟨es, rfl⟩ := hpre
      refine absurd ?_ (hapart mark hmark)
      rw [hd]
      cases hmark' : mark.1 with
      | nil => exact absurd hmark' hne
      | cons c rest =>
          rw [hmark'] at hds
          rw [(List.cons.inj hds).1]
          rfl

/-- A cut outside of strings that stays on its line. -/
theorem kept_cut {ways : List (List (List Char))} {cut : Cut} (hplain : cut.Plain r)
    (h : Text.OneLine cut.text) : Kept r ways [cut.lexeme] :=
  .single (Rules.contains_plain hplain h) h.sheltered

theorem kept_lexemesAt (h : r.OneLine) (hapart : r.CommentsApart)
    (hblock : ∀ block ∈ block?, BlockScanner.Keeps r block) (rounds : Nat) (c : Char)
    (cs : List Char) {lineBound : Bool} (hc : lineBound = true → Text.isLineEnd c = false) :
    Kept r (r.codeWays lineBound) (lexemesAt r block? rounds c cs).1 := by
  unfold lexemesAt
  split
  · rename_i cut hcut
    simp only [Option.orElse_eq_orElse, Option.orElse_eq_or, Option.or_eq_some_iff] at hcut
    rcases hcut with hend | ⟨_, hblank | ⟨_, hcomment⟩⟩
    · have hplain : cut.Plain r := Plain.linebreak?_plain hend
      have hkind : cut.lexeme.kind = .linebreak := Plain.linebreak?_kind hend
      have hcontains : r.Contains cut.lexeme := by
        rw [Rules.Contains, hkind]
        trivial
      cases lineBound with
      | false => exact .single hcontains (sheltered_nil _)
      | true =>
          exact absurd hkind (hplain.kind_ne_linebreak (Plain.linebreak?_splits hend) (hc rfl))
    · exact kept_cut (Plain.blanks?_plain hblank) (Plain.blanks?_oneLine hblank)
    · exact .single (contains_comment h hapart hcomment)
        ((Plain.comment?_sheltered h hcomment).inCode lineBound)
  · rename_i hnone
    split
    · rename_i style delimiter hopening
      have hliteral := kept_stringLiteral h hblock rounds hopening
      exact ⟨hliteral.each, hliteral.whole.inCode lineBound⟩
    · have hline : Text.isLineEnd c = false := by
        simp only [Option.orElse_eq_orElse, Option.orElse_eq_or, Option.or_eq_none_iff] at hnone
        exact Plain.isLineEnd_of_linebreak?_eq_none hnone.1
      simp only
      split
      · exact kept_cut (Plain.charLiteral_plain r c cs) (Plain.charLiteral_oneLine h hline cs)
      · exact kept_cut (Plain.other_plain r c cs) (Plain.other_oneLine h hline cs)

/-- Whether a line end breaks off the code of a region. -/
def Region.lineBound : Region → Bool
  | .top => false
  | .block lineBound => lineBound

/-- A block is closed by a brace. -/
theorem Region.eq_brace_of_gate {region : Region} {braces : Nat} {c : Char}
    (h : region.gate braces c = .close) : c = '\x7d' := by
  cases region with
  | top => cases h
  | block lineBound =>
      unfold gate at h
      simp only at h
      split at h
      · rename_i hbrace
        exact beq_iff_eq.mp hbrace
      · split at h
        · cases h
        · split at h <;> cases h

theorem kept_tokensIn (h : r.OneLine) (hapart : r.CommentsApart)
    (hblock : ∀ block ∈ block?, BlockScanner.Keeps r block) (region : Region)
    (rounds braces : Nat) (cs : List Char) :
    Kept r (r.codeWays region.lineBound) (tokensIn r block? region rounds braces cs).lexemes := by
  fun_induction tokensIn r block? region rounds braces cs with
  | case1 braces cs => exact .nil
  | case2 rounds braces => exact .nil
  | case3 rounds braces c cs hgate =>
      obtain rfl := Region.eq_brace_of_gate hgate
      have hbrace : Text.OneLine ['\x7d'] := by decide
      exact .single (Rules.contains_part (by simp) (by simp) hbrace) hbrace.sheltered
  | case4 rounds braces c cs hgate => exact .nil
  | case5 rounds braces c cs open' hgate ls rest hstep ih =>
      have hls : Kept r (r.codeWays region.lineBound) (lexemesAt r block? rounds c cs).1 := by
        apply kept_lexemesAt h hapart hblock
        intro hbound
        have hregion : region.Inside (some .singleLine) := by
          cases region with
          | top => cases hbound
          | block lineBound => exact ⟨.singleLine, rfl, hbound⟩
        exact hregion.isLineEnd_of_gate hgate rfl
      rw [hstep] at hls
      exact hls.append ih

theorem kept_code (h : r.OneLine) (hapart : r.CommentsApart) (levels : Nat) (region : Region)
    (rounds : Nat) (cs : List Char) :
    Kept r (r.codeWays region.lineBound) (code r levels region rounds cs).lexemes := by
  induction levels generalizing region rounds cs with
  | zero => exact kept_tokensIn h hapart (by simp) region rounds 0 cs
  | succ levels ih =>
      refine kept_tokensIn h hapart ?_ region rounds 0 cs
      intro block hb
      obtain rfl := Option.some.inj hb
      exact fun rounds lineBound cs => ih (.block lineBound) rounds cs

end Reading

/-! ## Literals in the grammar -/

/-- What a line end in a stretch has to stand behind, if the stretch is bound to its line. -/
def Stretch.ways (r : Rules) : Stretch → List (List (List Char))
  | .code around _ => r.codeWays (around == some .singleLine)
  | .pieces style _ => style.ways r

section Grammar

variable {r : Rules} {stretch : Stretch} {ls : List Lexeme}

/-- **A literal that ends on its line holds line ends in its blocks only**, if this is so of what
stands between its delimiters. -/
theorem sheltered_singleLine {opener closer : Lexeme} {inner : List Lexeme}
    (hopener : opener.kind = .string (.opening .singleLine))
    (hcloser : closer.kind = .string (.closing .singleLine)) (hopens : r.Contains opener)
    (hcloses : r.Contains closer)
    (hinner : Sheltered (StringStyle.singleLine.ways r) (Lexeme.joined inner)) :
    Sheltered (StringStyle.singleLine.ways r) (Lexeme.joined (opener :: inner ++ [closer])) := by
  have hopening : Text.OneLine opener.text := by rwa [Rules.Contains, hopener] at hopens
  have hclosing : Text.OneLine closer.text := by rwa [Rules.Contains, hcloser] at hcloses
  rw [Lexeme.joined_append, Lexeme.joined_cons, List.append_assoc]
  exact hopening.sheltered.append
    (hinner.append (by simpa [Lexeme.joined] using hclosing.sheltered))

/-- A literal is sheltered if what stands between its delimiters is, or else by its opening. -/
theorem sheltered_literal (h : r.OneLine) {style : StringStyle} {opener closer : Lexeme}
    {inner : List Lexeme} (hopener : opener.kind = .string (.opening style))
    (hcloser : closer.kind = .string (.closing style)) (hopens : r.Contains opener)
    (hcloses : r.Contains closer) (hinner : Sheltered (style.ways r) (Lexeme.joined inner)) :
    Sheltered [r.shelters] (Lexeme.joined (opener :: inner ++ [closer])) := by
  cases style with
  | singleLine => exact (sheltered_singleLine hopener hcloser hopens hcloses hinner).tail
  | multiLine =>
      obtain ⟨mark, hmem, htext⟩ : ∃ mark ∈ r.multilineDelimiter, opener.text = mark := by
        rwa [Rules.Contains, hopener] at hopens
      rw [Lexeme.joined_append, Lexeme.joined_cons, List.append_assoc, htext]
      exact (sheltered_nil _).behind (List.mem_append_right _ (by simpa using hmem))
        (h.multilineDelimiter mark hmem)

/-- **A stretch that is bound to its line is sheltered**, if its lexemes hold no more than they
may. -/
theorem WellNested.sheltered (h : WellNested stretch ls) (hone : r.OneLine)
    (heach : ∀ l ∈ ls, r.Contains l) : Sheltered (stretch.ways r) (Lexeme.joined ls) := by
  induction h with
  | empty stretch => exact Text.OneLine.nil.sheltered
  | @plain around levels l ls hpart heof hline _ ih =>
      obtain ⟨hl, heach⟩ := List.forall_mem_cons.mp heach
      rw [Lexeme.joined_cons]
      refine Sheltered.append ?_ (ih heach)
      by_cases hkind : l.kind = .linebreak
      · have hfree : (around == some .singleLine) = false := beq_eq_false_iff_ne.mpr (hline hkind)
        rw [Stretch.ways, hfree]
        exact sheltered_nil _
      · exact (hl.sheltered hpart hkind).inCode _
  | @literal around levels style opener closer inner ls hopener _ hcloser _ ihinner ih =>
      rw [List.append_cons] at heach ⊢
      obtain ⟨hliteral, heach⟩ := List.forall_mem_append.mp heach
      obtain ⟨hopening, hcloses⟩ := List.forall_mem_append.mp hliteral
      obtain ⟨hopens, hinner⟩ := List.forall_mem_cons.mp hopening
      have hsheltered := sheltered_literal hone hopener hcloser hopens (hcloses closer (by simp))
        (ihinner hinner)
      rw [Lexeme.joined_append]
      exact (hsheltered.inCode _).append (ih heach)
  | content hkind hline _ ih =>
      rw [Lexeme.joined_cons]
      exact (StringStyle.sheltered hline).append (ih (List.forall_mem_cons.mp heach).2)
  | @name style levels mark word ls hmark hword _ ih =>
      obtain ⟨hmarks, heach⟩ := List.forall_mem_cons.mp heach
      obtain ⟨hwords, heach⟩ := List.forall_mem_cons.mp heach
      have hmark' : Text.OneLine mark.text := by rwa [Rules.Contains, hmark] at hmarks
      have hword' : Text.OneLine word.text := by
        rcases hword with hword | hword <;> rwa [Rules.Contains, hword] at hwords
      rw [Lexeme.joined_cons, Lexeme.joined_cons]
      exact hmark'.sheltered.append (hword'.sheltered.append (ih heach))
  | @block style levels opener closer inner ls hopener _ hcloser _ ihinner ih =>
      obtain ⟨hopening, heach⟩ := List.forall_mem_append.mp heach
      obtain ⟨hopens, hinner⟩ := List.forall_mem_cons.mp hopening
      obtain ⟨hcloses, heach⟩ := List.forall_mem_cons.mp heach
      have hmark : opener.text ∈ r.blockMarks := by rwa [Rules.Contains, hopener] at hopens
      have hcloser' : Text.OneLine closer.text := by rwa [Rules.Contains, hcloser] at hcloses
      have hblock : Sheltered (style.ways r) (opener.text ++ Lexeme.joined inner) := by
        cases style with
        | singleLine => exact (ihinner hinner).behind hmark (hone.blockMarks _ hmark)
        | multiLine => exact sheltered_nil _
      rw [Lexeme.joined_append, Lexeme.joined_cons, Lexeme.joined_cons]
      exact hblock.append (hcloser'.sheltered.append (ih heach))

/-! ## Delimiters that belong together -/

/-- **A balanced row holds both delimiters of a literal or neither.**  If a literal opens in it,
and the row between its delimiters is balanced, then it closes in it. -/
theorem Lexeme.Balanced.holds_literal {row tail before inner after : List Lexeme}
    {opener closer : Lexeme} {style : StringStyle} (hrow : Balanced row)
    (hopener : opener.kind = .string (.opening style)) (hinner : Balanced inner)
    (heq : row ++ tail = before ++ opener :: (inner ++ closer :: after)) :
    (∃ after', row = before ++ opener :: (inner ++ closer :: after')) ∨
      ∃ before', before = row ++ before' ∧
        tail = before' ++ opener :: (inner ++ closer :: after) := by
  rcases List.append_eq_append_iff.mp heq with ⟨ds, hbefore, htail⟩ | ⟨ds, hrow', hrest⟩
  · exact Or.inr ⟨ds, hbefore, htail⟩
  cases ds with
  | nil => exact Or.inr ⟨[], by simpa using hrow'.symm, by simpa using hrest.symm⟩
  | cons d ds =>
      obtain ⟨rfl, hbehind⟩ := List.cons.inj hrest
      -- behind the opening, no beginning of what is between the delimiters ends the row
      have hopen : ¬ ds <+: inner := by
        intro hbegin
        have hds := hinner.beginning ds hbegin
        have hbefore := hrow.beginning before (by rw [hrow']; exact List.prefix_append _ _)
        have hwhole := hrow.whole
        have hopens : Nest.opens opener.kind = 1 ∧ Nest.closes opener.kind = 0 := by
          rw [hopener]
          exact ⟨rfl, rfl⟩
        rw [hrow'] at hwhole
        simp only [closed_append, opened_append, closed_cons, opened_cons] at hwhole
        omega
      rcases List.append_eq_append_iff.mp hbehind with ⟨es, hds, hes⟩ | ⟨es, hinner', _⟩
      · cases es with
        | nil => exact absurd (by rw [hds, List.append_nil]) hopen
        | cons e es =>
            obtain ⟨rfl, _⟩ := List.cons.inj hes
            exact Or.inl ⟨es, by rw [hrow', hds]⟩
      · exact absurd (by rw [hinner']; exact List.prefix_append _ _) hopen

/-- Two balanced rows in front of closing delimiters, of one row of lexemes, are the same. -/
theorem Lexeme.Balanced.eq_of_closing {row row' after after' : List Lexeme}
    {closer closer' : Lexeme} {style style' : StringStyle} (hrow : Balanced row)
    (hrow' : Balanced row') (hcloser : closer.kind = .string (.closing style))
    (hcloser' : closer'.kind = .string (.closing style'))
    (heq : row ++ closer :: after = row' ++ closer' :: after') : row = row' := by
  have hshort : ∀ {as bs : List Lexeme} {l : Lexeme} {style : StringStyle}, Balanced as →
      Balanced bs → l.kind = .string (.closing style) → ¬ as ++ [l] <+: bs := by
    intro as bs l style has hbs hl hbegin
    have hle := hbs.beginning _ hbegin
    have hwhole := has.whole
    have hcloses : Nest.opens l.kind = 0 ∧ Nest.closes l.kind = 1 := by
      rw [hl]
      exact ⟨rfl, rfl⟩
    simp only [closed_append, opened_append, closed_cons, opened_cons, closed_nil,
      opened_nil] at hle
    omega
  rcases List.append_eq_append_iff.mp heq with ⟨ds, rfl, hds⟩ | ⟨ds, rfl, hds⟩
  · cases ds with
    | nil => exact (List.append_nil _).symm
    | cons d ds =>
        obtain ⟨rfl, _⟩ := List.cons.inj hds
        exact absurd ⟨ds, by simp⟩ (hshort hrow hrow' hcloser)
  · cases ds with
    | nil => exact List.append_nil _
    | cons d ds =>
        obtain ⟨rfl, _⟩ := List.cons.inj hds
        exact absurd ⟨ds, by simp⟩ (hshort hrow' hrow hcloser')

/-- A lexeme that opens no literal is not the opening that is looked for. -/
theorem exists_of_cons_eq {l opener : Lexeme} {rest before : List Lexeme} {style : StringStyle}
    (hopener : opener.kind = .string (.opening style)) (hl : Nest.opens l.kind = 0)
    (heq : l :: ls = before ++ opener :: rest) : ∃ before', ls = before' ++ opener :: rest := by
  cases before with
  | nil =>
      rw [(List.cons.inj heq).1, hopener] at hl
      cases hl
  | cons b before => exact ⟨before, (List.cons.inj heq).2⟩

/-- **Delimiters with a balanced row between them are those of a literal**: the row derives from the
grammar as the pieces of one. -/
theorem WellNested.matched (h : WellNested stretch ls) {before inner after : List Lexeme}
    {opener closer : Lexeme} {style style' : StringStyle}
    (hopener : opener.kind = .string (.opening style))
    (hcloser : closer.kind = .string (.closing style')) (hinner : Balanced inner)
    (heq : ls = before ++ opener :: (inner ++ closer :: after)) :
    ∃ levels, WellNested (.pieces style levels) inner := by
  induction h generalizing before after with
  | empty stretch => simp at heq
  | plain hpart _ _ _ ih =>
      obtain ⟨before, hrest⟩ := exists_of_cons_eq hopener (Nest.opens_plain hpart).1 heq
      exact ih hrest
  | content hkind _ _ ih =>
      obtain ⟨before, hrest⟩ := exists_of_cons_eq hopener
        (by rcases hkind with h | h <;> rw [h] <;> rfl) heq
      exact ih hrest
  | name hmark hword _ ih =>
      obtain ⟨before, hword'⟩ := exists_of_cons_eq hopener (by rw [hmark]; rfl) heq
      obtain ⟨before, hrest⟩ := exists_of_cons_eq hopener
        (by rcases hword with h | h <;> rw [h] <;> rfl) hword'
      exact ih hrest
  | @literal around levels style₀ opener₀ closer₀ inner₀ ls hopener₀ hinner₀ hcloser₀ _ ihinner
      ih =>
      cases before with
      | nil =>
          obtain ⟨hsame, hrest⟩ := List.cons.inj heq
          rw [← hsame, hopener₀] at hopener
          cases hopener
          exact ⟨levels, hinner₀.balanced.eq_of_closing hinner hcloser₀ hcloser hrest ▸ hinner₀⟩
      | cons b before =>
          rcases hinner₀.balanced.holds_literal hopener hinner (List.cons.inj heq).2 with
            ⟨after', hinside⟩ | ⟨before', _, htail⟩
          · exact ihinner hinside
          · obtain ⟨before', hrest⟩ := exists_of_cons_eq hopener (by rw [hcloser₀]; rfl) htail
            exact ih hrest
  | @block style₀ levels opener₀ closer₀ inner₀ ls hopener₀ hinner₀ hcloser₀ _ ihinner ih =>
      obtain ⟨before, hblock⟩ := exists_of_cons_eq hopener (by rw [hopener₀]; rfl) heq
      rcases hinner₀.balanced.holds_literal hopener hinner hblock with
        ⟨after', hinside⟩ | ⟨before', _, htail⟩
      · exact ihinner hinside
      · obtain ⟨before', hrest⟩ := exists_of_cons_eq hopener (by rw [hcloser₀]; rfl) htail
        exact ih hrest

end Grammar

end Lossless
