import Lossless.Proofs.LineBounds

/-!
# Literals that break off

A literal that breaks off is one error.  It breaks off in front of a line end or at the end of the
text (`code_halts`), and so **the token behind such an error is a line end or the end of the
input** (`Resumes`).  Not more than a line is lost, unless a block holds something that goes beyond
its line: `singleLine_costs_its_line` says where line ends in a single-line literal can stand, and
`singleLine_beyond_its_line` that they do.
-/

namespace Lossless

/-! ## Where a literal breaks off -/

/-- Only a line end breaks off a block. -/
theorem Region.isLineEnd_of_halt {region : Region} {braces : Nat} {c : Char}
    (h : region.gate braces c = .halt) : Text.isLineEnd c = true := by
  unfold Region.gate at h
  split at h
  · cases h
  · split at h
    · split at h <;> cases h
    · split at h
      · cases h
      · split at h
        · rename_i hline
          exact (Bool.and_eq_true_iff.mp hline).2
        · cases h

/-- A text that is at its end or at the end of a line. -/
def AtLineEnd (cs : List Char) : Prop :=
  ∀ c ∈ cs.head?, Text.isLineEnd c = true

theorem atLineEnd_nil : AtLineEnd [] := by
  simp [AtLineEnd]

/-- A reader of blocks that breaks off at the end of a line or of the text. -/
def BlockScanner.Halts (block : BlockScanner) : Prop :=
  ∀ rounds lineBound cs, cs.length ≤ rounds → (block rounds lineBound cs).closed = false →
    AtLineEnd (block rounds lineBound cs).rest

section Halting

variable (r : Rules) {block? : Option BlockScanner}
  (hsplits : ∀ block ∈ block?, BlockScanner.Splits block)
include hsplits

/-- **A literal that breaks off does so at the end of a line or of the text.** -/
theorem pieces_halts (hhalts : ∀ block ∈ block?, BlockScanner.Halts block) (style : StringStyle)
    (delimiter : List Char) {rounds : Nat} {cs : List Char} (hrounds : cs.length ≤ rounds)
    (hopen : (pieces r block? style delimiter rounds cs).closed = false) :
    AtLineEnd (pieces r block? style delimiter rounds cs).rest := by
  have hbreak : ∀ {c : Char} {cs : List Char}, style.breaksAt c = true → AtLineEnd (c :: cs) := by
    intro c cs hbreaks
    simp only [StringStyle.breaksAt, Bool.and_eq_true] at hbreaks
    simpa [AtLineEnd] using hbreaks.2
  fun_induction pieces r block? style delimiter rounds cs with
  | case1 cs =>
      obtain rfl := List.length_eq_zero_iff.mp (Nat.le_zero.mp hrounds)
      exact atLineEnd_nil
  | case2 rounds => exact atLineEnd_nil
  | case3 rounds c cs hbreaks => exact hbreak hbreaks
  | case4 rounds c cs hbreaks hclose => cases hopen
  | case5 rounds c hbreaks hescape hclose => exact atLineEnd_nil
  | case6 rounds c hbreaks hescape d ds hbreaks' hclose => exact hbreak hbreaks'
  | case7 rounds c hbreaks hescape d ds hbreaks' hclose ih =>
      simp only [List.length_cons] at hrounds
      exact ih (by omega) hopen
  | case8 rounds c cs hbreaks hclose hescape block hb hopens inner hinner ih =>
      have hle : inner.rest.length ≤ (cs.drop 1).length :=
        (hsplits block hb rounds (style == .singleLine) (cs.drop 1)).length_rest_le
      rw [List.length_drop] at hle
      simp only [List.length_cons] at hrounds
      subst hb
      simp only [hopens] at hopen ⊢
      rw [if_pos hinner] at hopen ⊢
      exact ih (by omega) hopen
  | case9 rounds c cs hbreaks hclose hescape block hb hopens inner hinner =>
      have hdrop : (cs.drop 1).length ≤ rounds := by
        rw [List.length_drop]
        simp only [List.length_cons] at hrounds
        omega
      have hhalt := hhalts block hb rounds (style == .singleLine) (cs.drop 1) hdrop
        (Bool.eq_false_iff.mpr hinner)
      subst hb
      simp only [hopens]
      rw [if_neg hinner]
      exact hhalt
  | case10 rounds c hbreaks hescape hclose hopens =>
      simp only [hopens]
      exact atLineEnd_nil
  | case11 rounds c hbreaks hescape d ds name hclose hopens ih =>
      have hle := (Plain.word_splits r d ds).split.length_rest_le
      simp only [List.length_cons] at hrounds hle
      simp only [hopens] at hopen ⊢
      refine ih ?_ hopen
      show (Plain.word r d ds).rest.length ≤ rounds
      omega
  | case12 rounds c cs hbreaks hclose hescape run rest hrun hname hopens ih =>
      have hle := length_splitBefore_le (contentStops r block?.isSome style delimiter) cs
      rw [hrun] at hle
      simp only [List.length_cons] at hrounds hle
      revert hopen
      split
      · rename_i block hinterpolation
        exact absurd rfl (hopens block hinterpolation)
      · rename_i hinterpolation
        exact absurd hinterpolation hname
      · rw [hrun]
        intro hopen
        exact ih (by omega) hopen

theorem tokensIn_halts (region : Region) (braces : Nat) {rounds : Nat} {cs : List Char}
    (hrounds : cs.length ≤ rounds)
    (hopen : (tokensIn r block? region rounds braces cs).closed = false) :
    AtLineEnd (tokensIn r block? region rounds braces cs).rest := by
  fun_induction tokensIn r block? region rounds braces cs with
  | case1 braces cs =>
      obtain rfl := List.length_eq_zero_iff.mp (Nat.le_zero.mp hrounds)
      exact atLineEnd_nil
  | case2 rounds braces => exact atLineEnd_nil
  | case3 rounds braces c cs hgate => cases hopen
  | case4 rounds braces c cs hgate => simpa [AtLineEnd] using Region.isLineEnd_of_halt hgate
  | case5 rounds braces c cs open' hgate ls rest hstep ih =>
      obtain ⟨hsplit, hne⟩ := lexemesAt_split r hsplits rounds c cs
      have hlt := hsplit.length_rest_lt hne
      rw [hstep] at hlt
      simp only [List.length_cons] at hlt hrounds
      exact ih (by omega) hopen

end Halting

theorem code_halts (r : Rules) (levels : Nat) (region : Region) {rounds : Nat} {cs : List Char}
    (hrounds : cs.length ≤ rounds) (hopen : (code r levels region rounds cs).closed = false) :
    AtLineEnd (code r levels region rounds cs).rest := by
  cases levels with
  | zero => exact tokensIn_halts r (by simp) region 0 hrounds hopen
  | succ levels =>
      refine tokensIn_halts r ?_ region 0 hrounds hopen
      intro block hb
      obtain rfl := Option.some.inj hb
      exact fun rounds lineBound cs => code_split r levels (.block lineBound) rounds cs

/-! ## What follows an error -/

/-- A lexeme that is left of a literal that broke off: an error that begins like one. -/
def Rules.Breaks (r : Rules) (l : Lexeme) : Prop :=
  l.kind = .error ∧ ∃ d ∈ r.stringDelimiter, l.text.head? = some d

/-- A row begins with a line end; an empty one is all right if `done` holds. -/
def LineNext (done : Prop) : List Lexeme → Prop
  | [] => done
  | l :: _ => l.kind = .linebreak

/-- In a row, a line end follows whatever is left of a literal, or the end of the row if `done`
holds. -/
def Resumes (r : Rules) (done : Prop) : List Lexeme → Prop
  | [] => True
  | l :: ls => (r.Breaks l → LineNext done ls) ∧ Resumes r done ls

section Following

variable {r : Rules} {p q : Prop} {ks ls : List Lexeme} {l : Lexeme}

theorem LineNext.append (hks : LineNext p ks) (hls : p → LineNext q ls) :
    LineNext q (ks ++ ls) := by
  cases ks with
  | nil => exact hls hks
  | cons k ks => exact hks

theorem Resumes.append (hks : Resumes r p ks) (hpq : p → LineNext q ls) (hls : Resumes r q ls) :
    Resumes r q (ks ++ ls) := by
  induction ks with
  | nil => exact hls
  | cons k ks ih => exact ⟨fun hk => (hks.1 hk).append hpq, ih hks.2⟩

theorem Resumes.mono (h : Resumes r p ls) (hpq : p → q) : Resumes r q ls := by
  have hend : Resumes r q (ls ++ []) := h.append hpq trivial
  rwa [List.append_nil] at hend

theorem Resumes.single (h : r.Breaks l → p) : Resumes r p [l] :=
  ⟨h, trivial⟩

theorem Resumes.cons (hl : l.kind ≠ .error) (h : Resumes r p ls) : Resumes r p (l :: ls) :=
  ⟨fun hbreaks => absurd hbreaks.1 hl, h⟩

/-- **What follows whatever is left of a literal**, anywhere in a row. -/
theorem Resumes.lineNext (h : Resumes r p ls) {before after : List Lexeme}
    (heq : ls = before ++ l :: after) (hl : r.Breaks l) : LineNext p after := by
  subst heq
  induction before with
  | nil => exact h.1 hl
  | cons b before ih => exact ih h.2

end Following

/-- Of the rules that come before those for literals, only a comment without its end is an error,
and it takes the whole text. -/
theorem Plain.rest_of_error {r : Rules} {cs : List Char} {cut : Cut}
    (h : (linebreak? cs <|> blanks? cs <|> comment? r cs) = some cut) (herror : cut.kind = .error) :
    cut.rest = [] := by
  simp only [Option.orElse_eq_orElse, Option.orElse_eq_or, Option.or_eq_some_iff] at h
  rcases h with hend | ⟨_, hblank | ⟨_, hcomment⟩⟩
  · rw [linebreak?_kind hend] at herror
    cases herror
  · unfold blanks? at hblank
    split at hblank
    · split at hblank <;> cases hblank
      cases herror
    · cases hblank
  · rcases comment?_unclosed hcomment with hkind | ⟨rfl, _⟩
    · rw [hkind] at herror
      cases herror
    · rfl

/-- Where no literal begins, nothing is left of one. -/
theorem not_breaks_of_opening? {r : Rules} {c : Char} {cs : List Char}
    (hnone : opening? r (c :: cs) = none) {cut : Cut} (hsplits : cut.Splits (c :: cs)) :
    ¬ r.Breaks cut.lexeme := by
  rintro ⟨_, d, hd, hhead⟩
  obtain ⟨text, htext⟩ := List.head?_eq_some_iff.mp hhead
  have hc : c = d := by
    have hjoined := hsplits.joined
    rw [show cut.text = d :: text from htext] at hjoined
    exact (List.cons.inj hjoined).1.symm
  subst hc
  unfold opening? at hnone
  split at hnone
  · cases hnone
  · split at hnone
    · cases hnone
    · rename_i hfilter
      simp [Option.mem_def.mp hd] at hfilter

theorem Plain.linebreak?_of_isLineEnd {c : Char} (hline : Text.isLineEnd c = true)
    (cs : List Char) : ∃ cut, linebreak? (c :: cs) = some cut := by
  unfold linebreak?
  split
  · exact ⟨_, rfl⟩
  · rename_i heq
    obtain ⟨rfl, rfl⟩ := List.cons.inj heq
    exact ⟨_, if_pos hline⟩
  · rename_i heq
    cases heq

/-- At the end of a line, code goes on with the line end, or it breaks off. -/
theorem tokensIn_lineNext (r : Rules) (block? : Option BlockScanner) (region : Region)
    (rounds braces : Nat) {cs : List Char} (hend : AtLineEnd cs) :
    LineNext ((tokensIn r block? region rounds braces cs).closed = false)
      (tokensIn r block? region rounds braces cs).lexemes := by
  fun_cases tokensIn r block? region rounds braces cs with
  | case1 | case2 | case4 => rfl
  | case3 rounds braces c cs hgate =>
      have hline := hend c rfl
      rw [Region.eq_brace_of_gate hgate] at hline
      cases hline
  | case5 rounds braces c cs open' hgate ls rest hstep =>
      obtain ⟨cut, hcut⟩ := Plain.linebreak?_of_isLineEnd (hend c rfl) cs
      rw [lexemesAt, hcut] at hstep
      obtain ⟨rfl, _⟩ := Prod.mk.inj hstep
      exact Plain.linebreak?_kind hcut

/-- A reader of blocks in which a line end follows whatever is left of a literal. -/
structure BlockScanner.Recovers (r : Rules) (block : BlockScanner) : Prop where
  splits : block.Splits
  halts : block.Halts
  resumes : ∀ rounds lineBound cs, cs.length ≤ rounds → (block rounds lineBound cs).closed = true →
    Resumes r False (block rounds lineBound cs).lexemes

theorem TokenKind.string_ne_error (part : StringPart) : TokenKind.string part ≠ .error := by
  simp [TokenKind.string]

section Recovery

variable {r : Rules} {block? : Option BlockScanner}
  (hblock : ∀ block ∈ block?, BlockScanner.Recovers r block)
include hblock

/-- In a literal that comes to its end, the blocks do so. -/
theorem pieces_resumes (style : StringStyle) (delimiter : List Char) {rounds : Nat}
    {cs : List Char} (hrounds : cs.length ≤ rounds)
    (hclosed : (pieces r block? style delimiter rounds cs).closed = true) :
    Resumes r False (pieces r block? style delimiter rounds cs).lexemes := by
  fun_induction pieces r block? style delimiter rounds cs with
  | case1 cs => cases hclosed
  | case2 rounds => cases hclosed
  | case3 rounds c cs hbreaks => cases hclosed
  | case4 rounds c cs hbreaks hclose => exact .cons (TokenKind.string_ne_error _) trivial
  | case5 rounds c hbreaks hescape hclose => cases hclosed
  | case6 rounds c hbreaks hescape d ds hbreaks' hclose => cases hclosed
  | case7 rounds c hbreaks hescape d ds hbreaks' hclose ih =>
      simp only [List.length_cons] at hrounds
      exact .cons (TokenKind.string_ne_error _) (ih (by omega) hclosed)
  | case8 rounds c cs hbreaks hclose hescape block hb hopens inner hinner ih =>
      have hdrop : (cs.drop 1).length ≤ rounds := by
        rw [List.length_drop]
        simp only [List.length_cons] at hrounds
        omega
      have hle : inner.rest.length ≤ (cs.drop 1).length :=
        ((hblock block hb).splits rounds (style == .singleLine) (cs.drop 1)).length_rest_le
      have hresumes : Resumes r False inner.lexemes :=
        (hblock block hb).resumes rounds (style == .singleLine) (cs.drop 1) hdrop hinner
      subst hb
      simp only [hopens] at hclosed ⊢
      rw [if_pos hinner] at hclosed ⊢
      exact .cons (TokenKind.string_ne_error _) (hresumes.append False.elim (ih (by omega) hclosed))
  | case9 rounds c cs hbreaks hclose hescape block hb hopens inner hinner =>
      subst hb
      simp only [hopens] at hclosed
      rw [if_neg hinner] at hclosed
      cases hclosed
  | case10 rounds c hbreaks hescape hclose hopens =>
      simp only [hopens] at hclosed
      cases hclosed
  | case11 rounds c hbreaks hescape d ds name hclose hopens ih =>
      have hle := (Plain.word_splits r d ds).split.length_rest_le
      have hword : (Plain.word r d ds).kind ≠ .error := by
        unfold Plain.word
        simp only
        split <;> simp
      simp only [List.length_cons] at hrounds hle
      simp only [hopens] at hclosed ⊢
      refine .cons (TokenKind.string_ne_error _) (.cons hword (ih ?_ hclosed))
      show (Plain.word r d ds).rest.length ≤ rounds
      omega
  | case12 rounds c cs hbreaks hclose hescape run rest hrun hname hopens ih =>
      have hle := length_splitBefore_le (contentStops r block?.isSome style delimiter) cs
      rw [hrun] at hle
      simp only [List.length_cons] at hrounds hle
      revert hclosed
      split
      · rename_i block hinterpolation
        exact absurd rfl (hopens block hinterpolation)
      · rename_i hinterpolation
        exact absurd hinterpolation hname
      · rw [hrun]
        intro hclosed
        exact .cons (TokenKind.string_ne_error _) (ih (by omega) hclosed)

/-- **A literal that breaks off is one error at the end of a line or of the text.** -/
theorem stringLiteral_resumes {style : StringStyle} {delimiter : List Char} {rounds : Nat}
    {cs : List Char} (hrounds : (cs.drop delimiter.length).length ≤ rounds) :
    Resumes r (AtLineEnd (stringLiteral r block? style delimiter rounds cs).2)
      (stringLiteral r block? style delimiter rounds cs).1 := by
  unfold stringLiteral Scan.sealed
  simp only
  split
  · rename_i hclosed
    exact .cons (TokenKind.string_ne_error _) ((pieces_resumes hblock style delimiter hrounds hclosed).mono False.elim)
  · rename_i hopen
    refine .single fun _ => ?_
    exact pieces_halts r (fun block hb => (hblock block hb).splits)
      (fun block hb => (hblock block hb).halts) style delimiter hrounds
      (Bool.eq_false_iff.mpr hopen)

theorem lexemesAt_resumes {rounds : Nat} {c : Char} {cs : List Char}
    (hrounds : cs.length ≤ rounds) :
    Resumes r (AtLineEnd (lexemesAt r block? rounds c cs).2)
      (lexemesAt r block? rounds c cs).1 := by
  unfold lexemesAt
  split
  · rename_i cut hcut
    refine .single fun hbreaks => ?_
    rw [Plain.rest_of_error hcut hbreaks.1]
    exact atLineEnd_nil
  · split
    · rename_i style delimiter hopening
      apply stringLiteral_resumes hblock
      have hpos := List.length_pos_iff.mpr (opening?_isPrefixOf hopening).1
      simp only [List.length_drop, List.length_cons]
      omega
    · rename_i hnone
      refine .single fun hbreaks => absurd hbreaks (not_breaks_of_opening? hnone ?_)
      split
      · exact Plain.charLiteral_splits r c cs
      · exact Plain.other_splits r c cs

/-- **In code, a line end follows whatever is left of a literal**, unless the code itself ends or
breaks off there. -/
theorem tokensIn_resumes (region : Region) {rounds : Nat} (braces : Nat) {cs : List Char}
    (hrounds : cs.length ≤ rounds) :
    Resumes r ((tokensIn r block? region rounds braces cs).closed = false)
      (tokensIn r block? region rounds braces cs).lexemes := by
  fun_induction tokensIn r block? region rounds braces cs with
  | case1 | case2 | case4 => trivial
  | case3 rounds braces c cs hgate => exact .cons (TokenKind.string_ne_error _) trivial
  | case5 rounds braces c cs open' hgate ls rest hstep ih =>
      obtain ⟨hsplit, hne⟩ :=
        lexemesAt_split r (fun block hb => (hblock block hb).splits) rounds c cs
      have hlt := hsplit.length_rest_lt hne
      have hls := lexemesAt_resumes hblock (c := c) (Nat.le_of_succ_le_succ hrounds)
      rw [hstep] at hlt hls
      simp only [List.length_cons] at hlt hrounds
      exact hls.append (tokensIn_lineNext r block? region rounds open') (ih (by omega))

end Recovery

/-- **In code, a line end follows whatever is left of a literal**, however deep blocks may nest. -/
theorem code_resumes (r : Rules) (levels : Nat) (region : Region) {rounds : Nat} {cs : List Char}
    (hrounds : cs.length ≤ rounds) :
    Resumes r ((code r levels region rounds cs).closed = false)
      (code r levels region rounds cs).lexemes := by
  induction levels generalizing region rounds cs with
  | zero => exact tokensIn_resumes (by simp) region 0 hrounds
  | succ levels ih =>
      refine tokensIn_resumes ?_ region 0 hrounds
      intro block hb
      obtain rfl := Option.some.inj hb
      refine ⟨fun rounds lineBound cs => code_split r levels (.block lineBound) rounds cs,
        fun rounds lineBound cs => code_halts r levels (.block lineBound), ?_⟩
      intro rounds lineBound cs hrounds hclosed
      have hresumes := ih (.block lineBound) hrounds
      rw [hclosed] at hresumes
      exact hresumes.mono (by simp)

/-! ## The lexemes of a text -/

section Lexemes

variable {r : Rules} (h : r.OneLine) (hapart : r.CommentsApart) {cs : List Char}
include h hapart

theorem contains_lexemes : ∀ l ∈ lexemes r cs, r.Contains l :=
  (kept_code h hapart maxBlockDepth .top cs.length cs).each

/-- **A literal that ends on its line holds line ends in its blocks only**, and there behind a
shelter. -/
theorem sheltered_literal_of_lexemes {before inner after : List Lexeme} {opener closer : Lexeme}
    (heq : lexemes r cs = before ++ opener :: (inner ++ closer :: after))
    (hopener : opener.kind = .string (.opening .singleLine))
    (hcloser : closer.kind = .string (.closing .singleLine)) (hinner : Lexeme.Balanced inner) :
    Sheltered (StringStyle.singleLine.ways r) (Lexeme.joined (opener :: inner ++ [closer])) := by
  have heach : ∀ l ∈ opener :: (inner ++ closer :: after), r.Contains l := by
    intro l hl
    apply contains_lexemes h hapart
    rw [heq]
    exact List.mem_append_right _ hl
  obtain ⟨hopens, heach⟩ := List.forall_mem_cons.mp heach
  obtain ⟨hinside, hbehind⟩ := List.forall_mem_append.mp heach
  obtain ⟨levels, hpieces⟩ := (lexemes_wellNested r cs).matched hopener hcloser hinner heq
  exact sheltered_singleLine hopener hcloser hopens (hbehind closer List.mem_cons_self)
    (hpieces.sheltered h hinside)

/-- **So does an error that is left of such a literal**, and it is followed by a line end or by
nothing. -/
theorem sheltered_error_of_lexemes {before after : List Lexeme} {l : Lexeme} {delimiter : List Char}
    (heq : lexemes r cs = before ++ l :: after) (herror : l.kind = .error)
    (hopening : opening? r l.text = some (.singleLine, delimiter)) :
    Sheltered (StringStyle.singleLine.ways r) l.text ∧ LineNext True after := by
  constructor
  · have hcontains : r.Contains l := contains_lexemes h hapart l (by rw [heq]; simp)
    rw [Rules.Contains, herror] at hcontains
    exact hcontains.2 _ hopening
  · have hresumes := code_resumes r maxBlockDepth .top (Nat.le_refl cs.length)
    apply (hresumes.mono fun _ => trivial).lineNext heq
    refine ⟨herror, ?_⟩
    rcases opening?_delimiter hopening with ⟨hstyle, _⟩ | ⟨_, d, hd, rfl⟩
    · cases hstyle
    · obtain ⟨ds, hds⟩ := List.isPrefixOf_iff_prefix.mp (opening?_isPrefixOf hopening).2
      exact ⟨d, hd, by rw [← hds]; rfl⟩

end Lexemes

/-! ## Literals in a stream of tokens -/

/-- The text of tokens in a row is that of their lexemes. -/
theorem Token.toList_sourceText (ts : List Token) :
    (Token.sourceText ts).toList = Lexeme.joined (ts.map Token.lexeme) := by
  induction ts with
  | nil => rfl
  | cons t ts ih =>
      rw [Token.sourceText_cons, String.toList_append, ih, List.map_cons, Lexeme.joined_cons]
      rfl

/-- **The text from a token to a later one** is that of the tokens in this row. -/
theorem Token.Covers.slice?_between {cs : List Char} {w : Span} {before inner after : List Token}
    {first last : Token} (h : Token.Covers cs w (before ++ first :: (inner ++ last :: after))) :
    Text.slice? cs first.span.start last.span.stop =
      some (Lexeme.joined ((first :: inner ++ [last]).map Token.lexeme)) := by
  have hrow : before ++ first :: (inner ++ last :: after) =
      before ++ ((first :: inner ++ [last]) ++ after) := by simp
  rw [hrow] at h
  obtain ⟨i, _, hbehind⟩ := Token.abut_append.mp h.abut
  obtain ⟨j, habut, _⟩ := Token.abut_append.mp hbehind
  have hholds : ∀ t ∈ first :: inner ++ [last], t.HoldsText cs :=
    fun t ht => h.holds t (List.mem_append_right _ (List.mem_append_left _ ht))
  obtain rfl : first.span.start = i := habut.1
  obtain rfl : last.span.stop = j := by
    obtain ⟨_, _, hlast⟩ := Token.abut_append.mp habut
    exact hlast.2
  rw [← Token.toList_sourceText]
  exact Token.slice?_sourceText habut hholds (Text.slice?_stop (hholds last (by simp)))

/-- A row in front of a last element, cut at an element that is not the last one. -/
theorem exists_of_concat_eq {α : Type} {row before after : List α} {last a : α}
    (hne : a ≠ last) (heq : row ++ [last] = before ++ a :: after) :
    ∃ after', after = after' ++ [last] ∧ row = before ++ a :: after' := by
  rcases List.eq_nil_or_concat after with rfl | ⟨after', b, rfl⟩
  · exact absurd (List.append_inj_right' heq rfl) (by simpa using Ne.symm hne)
  · rw [List.concat_eq_append, ← List.cons_append, ← List.append_assoc] at heq
    obtain ⟨hrow, hlast⟩ := List.append_inj' heq rfl
    cases hlast
    exact ⟨after', List.concat_eq_append, hrow⟩

/-- A text that begins with the delimiter of literals that end on their line, and not with that of
literals of several lines, begins like the former. -/
theorem opening?_singleLine {r : Rules} {d : Char} {text : List Char}
    (hd : r.stringDelimiter = some d) (hhead : [d] <+: text)
    (hnot : ∀ mark ∈ r.multilineDelimiter, ¬ mark <+: text) :
    opening? r text = some (.singleLine, [d]) := by
  obtain ⟨rest, rfl⟩ := hhead
  have hmulti : (r.multilineDelimiter.filter fun mark =>
      !mark.isEmpty && mark.isPrefixOf ([d] ++ rest)) = none := by
    rw [Option.filter_eq_none_iff]
    intro mark hmark hpre
    simp only [Bool.and_eq_true] at hpre
    exact hnot mark hmark (List.isPrefixOf_iff_prefix.mp hpre.2)
  have hsingle : ((some d).filter fun d' => ([d] ++ rest).head? == some d') = some d := by
    simp [Option.filter]
  rw [opening?, hmulti, hd, hsingle]

/-- **What a single-line literal costs.**  In whatever text or window of it, under the
configuration of the family with curly braces:

* from the opening of a single-line literal to its own closing, every line end stands behind the
  opening of a block, and there behind that of a comment between delimiters or of a literal of
  several lines;
* the same goes for an error that begins with a single quotation mark and not with three, and
  what follows the error is a line end or the end of the input.

So without such a comment or literal in a block, a single-line literal costs its own line only. -/
theorem singleLine_costs_its_line (source : String) (asked : Option Span) :
    let tokens := tokenize source Config.curlyBrace asked
    let ways := [["$\x7b".toList], ["/*".toList, "\"\"\"".toList]]
    (∀ (before inner after : List Token) (opener closer : Token),
      tokens = before ++ opener :: (inner ++ closer :: after) →
      opener.kind = .string (.opening .singleLine) →
      closer.kind = .string (.closing .singleLine) →
      Lexeme.Balanced (inner.map Token.lexeme) →
      ∃ text, Text.slice? source.toList opener.span.start closer.span.stop = some text ∧
        Sheltered ways text) ∧
    ∀ (before after : List Token) (error : Token),
      tokens = before ++ error :: after → error.kind = .error →
      "\"".toList <+: error.text.toList → ¬ "\"\"\"".toList <+: error.text.toList →
      Sheltered ways error.text.toList ∧
        ∃ next ∈ after.head?, next.kind = .linebreak ∨ next.kind = .eof := by
  intro tokens ways
  let r := Rules.ofConfig Config.curlyBrace
  let w := window source.toList asked
  let body := Lexeme.placeFrom w.start (lexemes r (w.chars source.toList))
  have htokens : tokens = body ++ [Token.eof w.stop] := by
    simp [tokens, tokenize, @Config.keeps_eq_true Config.curlyBrace rfl rfl, body, w, r]
  have hlexemes : lexemes r (w.chars source.toList) = body.map Token.lexeme :=
    (lexeme_placeFrom w.start _).symm
  have hways : StringStyle.singleLine.ways r = ways := by decide
  constructor
  · intro before inner after opener closer heq hopener hcloser hinner
    have hne : closer ≠ Token.eof w.stop := by
      rintro rfl
      cases hcloser
    have hrow : body ++ [Token.eof w.stop] = (before ++ opener :: inner) ++ closer :: after := by
      rw [← htokens, heq, List.append_assoc, List.cons_append]
    obtain ⟨after', _, hbody⟩ := exists_of_concat_eq hne hrow
    rw [List.append_assoc, List.cons_append] at hbody
    have hcovers : Token.Covers source.toList w body :=
      (placeFrom_lexemes_covers r source.toList asked).1
    rw [hbody] at hcovers
    refine ⟨_, hcovers.slice?_between, ?_⟩
    rw [hbody, List.map_append, List.map_cons, List.map_append, List.map_cons] at hlexemes
    rw [List.map_append, List.map_cons, ← hways]
    exact sheltered_literal_of_lexemes oneLine_curlyBrace commentsApart_curlyBrace hlexemes
      hopener hcloser hinner
  · intro before after error heq herror hquote hthree
    have hne : error ≠ Token.eof w.stop := by
      rintro rfl
      cases herror
    obtain ⟨after', rfl, hbody⟩ := exists_of_concat_eq hne (htokens.symm.trans heq)
    have hopening : opening? r error.lexeme.text = some (.singleLine, ['"']) := by
      refine opening?_singleLine rfl hquote ?_
      intro mark hmark
      obtain rfl := Option.some.inj hmark
      exact hthree
    rw [hbody, List.map_append, List.map_cons] at hlexemes
    obtain ⟨hsheltered, hnext⟩ := sheltered_error_of_lexemes oneLine_curlyBrace
      commentsApart_curlyBrace hlexemes herror hopening
    refine ⟨hways ▸ hsheltered, ?_⟩
    cases after' with
    | nil => exact ⟨_, rfl, Or.inr rfl⟩
    | cons next after' => exact ⟨next, rfl, Or.inl hnext⟩

/-- A literal with a comment of two lines in its block, and behind it one that breaks off at the end
of its line. -/
def commentedLiteral : String := "\"$\x7b/*\n*/\x7d\"\"a$\x7b\n"

/-- What stands between the delimiters of the literal. -/
def commentedBlock : List Token :=
  [⟨.string .blockOpen, "$\x7b", ⟨1, 3⟩⟩, ⟨.comment, "/*\n*/", ⟨3, 8⟩⟩,
    ⟨.string .blockClose, "\x7d", ⟨8, 9⟩⟩]

theorem tokenize_commentedLiteral :
    tokenize commentedLiteral Config.curlyBrace none =
      [] ++ ⟨.string (.opening .singleLine), "\"", ⟨0, 1⟩⟩ ::
        (commentedBlock ++ ⟨.string (.closing .singleLine), "\"", ⟨9, 10⟩⟩ ::
          [⟨.error, "\"a$\x7b", ⟨10, 14⟩⟩, ⟨.linebreak, "\n", ⟨14, 15⟩⟩, Token.eof 15]) := by
  cbv

theorem balanced_commentedBlock : Lexeme.Balanced (commentedBlock.map Token.lexeme) :=
  .cons_inert ⟨rfl, rfl⟩ (.cons_inert ⟨rfl, rfl⟩ (.cons_inert ⟨rfl, rfl⟩ .nil))

/-- Both literals, the one that comes to its end and the one that does not. -/
theorem singleLine_costs_its_line_commented :
    let ways := [["$\x7b".toList], ["/*".toList, "\"\"\"".toList]]
    (∃ text, Text.slice? commentedLiteral.toList 0 10 = some text ∧ Sheltered ways text) ∧
      Sheltered ways "\"a$\x7b".toList := by
  intro ways
  obtain ⟨hliteral, herror⟩ := singleLine_costs_its_line commentedLiteral none
  have htokens := tokenize_commentedLiteral
  constructor
  · exact hliteral _ _ _ _ _ htokens rfl rfl balanced_commentedBlock
  · rw [List.append_cons commentedBlock, ← List.cons_append, ← List.append_assoc] at htokens
    exact (herror _ _ _ htokens rfl (by decide) (by decide)).1

/-- **A comment takes a single-line literal beyond its line.**  There is a line end between the
opening and the closing of a literal, and there is one in an error that is left of another. -/
theorem singleLine_beyond_its_line :
    (∃ (before inner after : List Token) (opener closer : Token) (text : List Char),
      tokenize commentedLiteral Config.curlyBrace none =
          before ++ opener :: (inner ++ closer :: after) ∧
        opener.kind = .string (.opening .singleLine) ∧
        closer.kind = .string (.closing .singleLine) ∧
        Lexeme.Balanced (inner.map Token.lexeme) ∧
        Text.slice? commentedLiteral.toList opener.span.start closer.span.stop = some text ∧
        '\n' ∈ text) ∧
      ∃ error ∈ tokenize "\"$\x7b/*\n*/" Config.curlyBrace none,
        error.kind = .error ∧ "\"".toList <+: error.text.toList ∧
          ¬ "\"\"\"".toList <+: error.text.toList ∧ '\n' ∈ error.text.toList := by
  constructor
  · exact ⟨_, _, _, _, _, "\"$\x7b/*\n*/\x7d\"".toList, tokenize_commentedLiteral, rfl, rfl,
      balanced_commentedBlock, by decide, by decide⟩
  · have htokens : tokenize "\"$\x7b/*\n*/" Config.curlyBrace none =
        [⟨.error, "\"$\x7b/*\n*/", ⟨0, 8⟩⟩, Token.eof 8] := by cbv
    rw [htokens]
    exact ⟨_, List.mem_cons_self, rfl, by decide, by decide, by decide⟩

end Lossless
