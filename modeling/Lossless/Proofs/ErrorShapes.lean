import Lossless.Proofs.LexemeOrigins

/-!
# Shapes of errors

An error of the lexer is one of five things: a character with which nothing begins, the prefix of
a number without a digit, a comment without its end, a malformed character literal, or what is
left of a string that broke off.  For each of them the rule that reads it says where it stops; the
first part of this module reads that off the rules, for any configuration.

For the family of languages with curly braces **every error has one of five exact shapes**
(`tokenize_errorShape`), whatever the text and the window.
-/

namespace Lossless

/-! ## Characters that are escaped -/

namespace Text

/-- The place of the first mark in a text that is not escaped.  An escape character takes the
character behind it along. -/
def firstUnescaped? (escape mark : Char) : List Char → Option Nat
  | [] => none
  | c :: cs =>
    if c = escape then
      match cs with
      | [] => none
      | _ :: ds => (firstUnescaped? escape mark ds).map (· + 2)
    else if c = mark then some 0
    else (firstUnescaped? escape mark cs).map (· + 1)

variable {escape mark c : Char} {cs : List Char}

@[simp] theorem firstUnescaped?_escape (escape mark d : Char) (ds : List Char) :
    firstUnescaped? escape mark (escape :: d :: ds) =
      (firstUnescaped? escape mark ds).map (· + 2) := by
  simp [firstUnescaped?]

theorem firstUnescaped?_mark (hescape : c ≠ escape) (hmark : c = mark) :
    firstUnescaped? escape mark (c :: cs) = some 0 := by
  rw [firstUnescaped?.eq_def]
  simp only [if_neg hescape, if_pos hmark]

theorem firstUnescaped?_cons (hescape : c ≠ escape) (hmark : c ≠ mark) :
    firstUnescaped? escape mark (c :: cs) = (firstUnescaped? escape mark cs).map (· + 1) := by
  rw [firstUnescaped?.eq_def]
  simp only [if_neg hescape, if_neg hmark]

end Text

/-- Where reading stops that looks for a mark on the line: just behind the first mark that is not
escaped, or if there is none before that, at the end of the line or of the text. -/
inductive StopsAtMark (escape mark : Char) (taken rest : List Char) : Prop
  | mark {n : Nat} (hfirst : Text.firstUnescaped? escape mark (taken ++ rest) = some n)
      (hlength : taken.length = n + 1)
  | line (hnone : Text.firstUnescaped? escape mark taken = none) (hend : AtLineEnd rest)

namespace StopsAtMark

variable {escape mark c : Char} {taken rest : List Char}

theorem nil (hend : AtLineEnd rest) : StopsAtMark escape mark [] rest :=
  .line rfl hend

/-- An escape character that has nothing behind it on its line. -/
theorem dangling (hend : AtLineEnd rest) : StopsAtMark escape mark [escape] rest :=
  .line (by simp [Text.firstUnescaped?]) hend

theorem single (hescape : c ≠ escape) (hmark : c = mark) : StopsAtMark escape mark [c] rest :=
  .mark (Text.firstUnescaped?_mark hescape hmark) rfl

theorem escaped (d : Char) (h : StopsAtMark escape mark taken rest) :
    StopsAtMark escape mark (escape :: d :: taken) rest := by
  cases h with
  | @mark n hfirst hlength => exact .mark (n := n + 2) (by simp [hfirst]) (by simp [hlength])
  | line hnone hend => exact .line (by simp [hnone]) hend

theorem cons (hescape : c ≠ escape) (hmark : c ≠ mark) (h : StopsAtMark escape mark taken rest) :
    StopsAtMark escape mark (c :: taken) rest := by
  have hcons : ∀ cs, Text.firstUnescaped? escape mark (c :: cs) =
      (Text.firstUnescaped? escape mark cs).map (· + 1) :=
    fun _ => Text.firstUnescaped?_cons hescape hmark
  cases h with
  | @mark n hfirst hlength =>
      exact .mark (n := n + 1) (by simp [hcons, hfirst]) (by simp [hlength])
  | line hnone hend => exact .line (by simp [hcons, hnone]) hend

end StopsAtMark

/-! ## What the rules make into errors -/

/-- A character literal: one character or one escape between two marks. -/
inductive IsCharLiteral (escape mark : Char) : List Char → Prop
  | plain {c : Char} (hescape : c ≠ escape) (hmark : c ≠ mark)
      (hline : Text.isLineEnd c = false) : IsCharLiteral escape mark [mark, c, mark]
  | escaped {c : Char} (hline : Text.isLineEnd c = false) :
      IsCharLiteral escape mark [mark, escape, c, mark]

namespace Plain

variable {r : Rules} {escape delimiter : Char}

theorem throughDelimiter_stops (escape delimiter : Char) (cs : List Char) :
    StopsAtMark escape delimiter (throughDelimiter (some escape) delimiter cs).1
      (throughDelimiter (some escape) delimiter cs).2 := by
  have hlineEnd : ∀ {c : Char} {cs : List Char}, Text.isLineEnd c = true → AtLineEnd (c :: cs) :=
    fun hline => by simpa [AtLineEnd] using hline
  fun_induction throughDelimiter (some escape) delimiter cs with
  | case1 => exact .nil atLineEnd_nil
  | case2 c hline => exact .nil (hlineEnd hline)
  | case3 c hline =>
      by_cases hescape : c = escape
      · exact hescape ▸ .dangling atLineEnd_nil
      · by_cases hmark : c = delimiter
        · exact .single hescape hmark
        · exact .cons hescape hmark (.nil atLineEnd_nil)
  | case4 c d cs hline => exact .nil (hlineEnd hline)
  | case5 c d cs hline hescape hend =>
      obtain rfl : c = escape := by simpa using hescape
      exact .dangling (hlineEnd hend)
  | case6 c d cs hline hescape hend taken rest heq ih =>
      obtain rfl : c = escape := by simpa using hescape
      rw [heq] at ih
      exact .escaped d ih
  | case7 c d cs hline hescape hmark => exact .single (by simpa using hescape) (by simpa using hmark)
  | case8 c d cs hline hescape hmark taken rest heq ih =>
      rw [heq] at ih
      exact .cons (by simpa using hescape) (by simpa using hmark) ih

/-- Before the end of a line there is nothing to go through. -/
theorem throughDelimiter_of_atLineEnd {escapeChar : Option Char} {cs : List Char}
    (hend : AtLineEnd cs) : throughDelimiter escapeChar delimiter cs = ([], cs) := by
  fun_cases throughDelimiter escapeChar delimiter cs <;> simp_all [AtLineEnd]

/-- A malformed literal ends with its line or behind the first delimiter, from its opening on. -/
theorem charBody_stops (hescape : r.escapeChar = some escape) (delimiter : Char) (cs : List Char) :
    StopsAtMark escape delimiter
      ((charBody r delimiter cs).1 ++
        (throughDelimiter r.escapeChar delimiter (charBody r delimiter cs).2.1).1)
      (throughDelimiter r.escapeChar delimiter (charBody r delimiter cs).2.1).2 := by
  have hstops : ∀ cs, StopsAtMark escape delimiter
      (throughDelimiter r.escapeChar delimiter cs).1 (throughDelimiter r.escapeChar delimiter cs).2 :=
    fun cs => hescape ▸ throughDelimiter_stops escape delimiter cs
  fun_cases charBody r delimiter cs with
  | case1 => exact hstops []
  | case2 c hc d ds hline =>
      obtain rfl : c = escape := by simpa [hescape] using hc
      have hend : AtLineEnd (d :: ds) := by simpa [AtLineEnd] using hline
      simpa [throughDelimiter_of_atLineEnd hend] using StopsAtMark.dangling hend
  | case3 c hc d ds hline =>
      obtain rfl : c = escape := by simpa [hescape] using hc
      exact .escaped d (hstops ds)
  | case4 c hc =>
      obtain rfl : c = escape := by simpa [hescape] using hc
      exact .dangling atLineEnd_nil
  | case5 c cs hc hends => exact hstops (c :: cs)
  | case6 c cs hc hends =>
      have hplain : c ≠ escape := by simpa [hescape] using hc
      obtain ⟨hmark, _⟩ : c ≠ delimiter ∧ _ := by simpa using hends
      exact .cons hplain hmark (hstops cs)

/-- A character literal is read as one. -/
theorem charLiteral_of_isCharLiteral (hescape : r.escapeChar = some escape) {body : List Char}
    (h : IsCharLiteral escape delimiter (delimiter :: body)) (rest : List Char) :
    (charLiteral r delimiter (body ++ rest)).kind = .literal .char := by
  cases h with
  | plain hplain hmark hline => simp [charLiteral, charBody, hescape, hplain, hmark, hline]
  | escaped hline => simp [charLiteral, charBody, hescape, hline]

/-- **A character literal is malformed, or it is no error**, and reading stops at a delimiter. -/
theorem charLiteral_error (hescape : r.escapeChar = some escape) {cs : List Char}
    (herror : (charLiteral r delimiter cs).kind = .error) :
    ∃ body, (charLiteral r delimiter cs).text = delimiter :: body ∧
      StopsAtMark escape delimiter body (charLiteral r delimiter cs).rest ∧
      ¬ IsCharLiteral escape delimiter (delimiter :: body) := by
  have hsplits := (charLiteral_splits r delimiter cs).joined
  have hstops := charBody_stops hescape delimiter cs
  obtain ⟨body, htext, hrest⟩ : ∃ body, (charLiteral r delimiter cs).text = delimiter :: body ∧
      StopsAtMark escape delimiter body (charLiteral r delimiter cs).rest := by
    simp only [charLiteral] at herror ⊢
    split at herror
    · cases herror
    · rename_i hmalformed
      rw [if_neg hmalformed]
      exact ⟨_, rfl, hstops⟩
  refine ⟨body, htext, hrest, ?_⟩
  intro hliteral
  rw [htext, List.cons_append] at hsplits
  have hread := charLiteral_of_isCharLiteral hescape hliteral (charLiteral r delimiter cs).rest
  rw [(List.cons.inj hsplits).2, herror] at hread
  cases hread

/-- Where the mark does not stand a text does not go through it. -/
theorem not_infix_of_through?_eq_none {mark cs : List Char} (h : through? mark cs = none) :
    ¬ mark <:+: cs := by
  induction cs with
  | nil =>
      rw [through?] at h
      simpa using h
  | cons c cs ih =>
      rw [through?] at h
      split at h
      · cases h
      · rename_i hbegins
        rw [List.infix_cons_iff]
        rintro (hstart | hwithin)
        · exact hbegins (List.isPrefixOf_iff_prefix.mpr hstart)
        · exact ih (Option.map_eq_none_iff.mp h) hwithin

theorem blockComment_error {opener closer cs : List Char} (hopener : opener.isPrefixOf cs = true)
    (herror : (blockComment opener closer cs).kind = .error) :
    ∃ body, blockComment opener closer cs = ⟨.error, opener ++ body, []⟩ ∧ ¬ closer <:+: body := by
  unfold blockComment at herror ⊢
  split at herror
  · cases herror
  · rename_i hthrough
    refine ⟨cs.drop opener.length, ?_, not_infix_of_through?_eq_none hthrough⟩
    rw [append_drop_of_isPrefixOf hopener]

/-- **A comment that is an error lacks its end** and takes all of the text. -/
theorem comment?_error {cs : List Char} {cut : Cut} (h : comment? r cs = some cut)
    (herror : cut.kind = .error) :
    ∃ opener closer body, (opener, closer) ∈ r.blockComments ∧
      cut = ⟨.error, opener ++ body, []⟩ ∧ ¬ closer <:+: body := by
  have hblock : ∀ {opener closer}, longest? Prod.fst cs r.blockComments = some (opener, closer) →
      blockComment opener closer cs = cut → ∃ opener closer body,
        (opener, closer) ∈ r.blockComments ∧ cut = ⟨.error, opener ++ body, []⟩ ∧
          ¬ closer <:+: body := by
    rintro opener closer hmark rfl
    obtain ⟨body, hcut, hopen⟩ := blockComment_error (longest?_isPrefixOf hmark).2 herror
    exact ⟨opener, closer, body, longest?_mem hmark, hcut, hopen⟩
  unfold comment? at h
  split at h
  · rename_i hmark
    split at h
    · exact hblock hmark (Option.some.inj h)
    · cases h
      cases herror
  · cases h
    cases herror
  · rename_i hmark
    exact hblock hmark (Option.some.inj h)
  · cases h

end Plain

theorem Number.isDigit_of_digits_eq_nil {base : IntegerBase} {cs rest : List Char}
    (h : digits base cs = ([], rest)) : ∀ d ∈ rest.head?, base.isDigit d = false := by
  cases cs with
  | nil =>
      obtain ⟨_, rfl⟩ := Prod.mk.inj h
      simp
  | cons c cs =>
      rw [digits] at h
      split at h
      · cases h
      · rename_i hdigit
        obtain ⟨_, rfl⟩ := Prod.mk.inj h
        simpa using hdigit

/-- **A number that is an error is a prefix** without a digit of its base behind it. -/
theorem Number.cut_error {r : Rules} {cs : List Char} (herror : (cut r cs).kind = .error) :
    ∃ mark base, (mark, base) ∈ r.numberPrefixes ∧ (cut r cs).text = mark ∧
      ∀ d ∈ (cut r cs).rest.head?, base.isDigit d = false := by
  unfold cut at herror ⊢
  split at herror
  · rename_i mark base hmark
    refine ⟨mark, base, longest?_mem hmark, ?_⟩
    unfold prefixed at herror ⊢
    split at herror
    · rename_i rest hdigits
      exact ⟨rfl, isDigit_of_digits_eq_nil hdigits⟩
    · cases herror
  · rename_i hnone
    simp only [decimal] at herror
    split at herror
    · cases herror
    · split at herror <;> cases herror

/-- **Any other error is one character** with which nothing begins. -/
theorem Plain.other_error {r : Rules} {c : Char} {cs : List Char} (hdigit : c.isDigit = false)
    (herror : (other r c cs).kind = .error) :
    other r c cs = ⟨.error, [c], cs⟩ ∧ r.startsWord c = false ∧
      longest? id (c :: cs) r.punctuation = none ∧ longest? id (c :: cs) r.operators = none := by
  simp only [other, symbol?, hdigit] at herror ⊢
  cases hpunctuation : longest? id (c :: cs) r.punctuation with
  | some mark => simp [hpunctuation] at herror
  | none =>
      cases hoperator : longest? id (c :: cs) r.operators with
      | some mark => simp [hpunctuation, hoperator] at herror
      | none =>
          by_cases hword : r.startsWord c = true
          · simp only [hpunctuation, hoperator, hword, word, Bool.false_eq_true, if_false,
              if_true] at herror
            split at herror <;> cases herror
          · simp [hword]

/-! ## The family of languages with curly braces -/

/-- The prefixes of numbers in the family of languages with curly braces. -/
def curlyBracePrefixes : List (String × IntegerBase) :=
  [("0x", .hex), ("0X", .hex), ("0b", .bin), ("0B", .bin), ("0o", .oct), ("0O", .oct)]

/-- **The shape of an error** in this family, where `rest` is the text behind it. -/
inductive ErrorShape : List Char → List Char → Prop
  /-- A character with which nothing begins. -/
  | stray {c : Char} {rest : List Char} (hopen : Config.curlyBrace.LeavesOpen (c :: rest))
      (hword : (Rules.ofConfig Config.curlyBrace).startsWord c = false)
      (hpunctuation : ¬ BeginsWith Config.curlyBrace.punctuation (c :: rest))
      (hoperator : ¬ BeginsWith Config.curlyBrace.operators (c :: rest)) : ErrorShape [c] rest
  /-- The prefix of a number without a digit. -/
  | number {mark : String} {base : IntegerBase} {rest : List Char}
      (hmark : (mark, base) ∈ curlyBracePrefixes)
      (hdigit : ∀ d ∈ rest.head?, base.isDigit d = false) : ErrorShape mark.toList rest
  /-- A comment without its end, up to the end of the window. -/
  | comment {body : List Char} (hopen : ¬ "*/".toList <:+: body) :
      ErrorShape ("/*".toList ++ body) []
  /-- A malformed character literal. -/
  | char {body rest : List Char} (hline : Text.OneLine body)
      (hmalformed : ¬ IsCharLiteral '\\' '\'' ('\'' :: body))
      (hstops : StopsAtMark '\\' '\'' body rest) : ErrorShape ('\'' :: body) rest
  /-- A string that broke off at the end of a line or of the window. -/
  | string {body rest : List Char} (hend : AtLineEnd rest) : ErrorShape ('"' :: body) rest

section CurlyBrace

variable {c : Char} {cs : List Char}

/-- An error among the tokens that are read where no comment and no string begins. -/
theorem errorShape_of_token (h : (Rules.ofConfig Config.curlyBrace).IsPlainAt c cs)
    (herror : (Plain.token (Rules.ofConfig Config.curlyBrace) c cs).kind = .error) :
    ErrorShape (Plain.token (Rules.ofConfig Config.curlyBrace) c cs).text
      (Plain.token (Rules.ofConfig Config.curlyBrace) c cs).rest := by
  unfold Plain.token at herror ⊢
  split at herror
  · rename_i hchar
    obtain rfl : '\'' = c := by simpa [Rules.ofConfig, Config.curlyBrace] using hchar
    rw [if_pos hchar]
    obtain ⟨body, htext, hstops, hmalformed⟩ := Plain.charLiteral_error rfl herror
    have hline := Plain.charLiteral_oneLine oneLine_curlyBrace h.line cs
    rw [htext] at hline ⊢
    exact .char (Text.OneLine.cons_iff.mp hline).2 hmalformed hstops
  · rename_i hchar
    rw [if_neg hchar]
    cases hdigit : c.isDigit with
    | true =>
        have hnumber : Plain.other (Rules.ofConfig Config.curlyBrace) c cs =
            Number.cut (Rules.ofConfig Config.curlyBrace) (c :: cs) := by
          simp [Plain.other, hdigit]
        rw [hnumber] at herror ⊢
        obtain ⟨mark, base, hmark, htext, hrest⟩ := Number.cut_error herror
        have hprefixes : ∀ p ∈ (Rules.ofConfig Config.curlyBrace).numberPrefixes,
            ∃ q ∈ curlyBracePrefixes, q.1.toList = p.1 ∧ q.2 = p.2 := by decide
        obtain ⟨⟨mark, base⟩, hmem, rfl, rfl⟩ := hprefixes _ hmark
        rw [htext]
        exact .number hmem hrest
    | false =>
        have hnot : (Rules.ofConfig Config.curlyBrace).charDelimiter ≠ some c := by
          simpa using hchar
        obtain ⟨hcut, hword, hpunctuation, hoperator⟩ := Plain.other_error hdigit herror
        rw [hcut]
        exact .stray (Config.leavesOpen_of_isPlainAt h hnot hdigit) hword
          (not_beginsWith_of_longest? (Config.punctuation_keys _) hpunctuation)
          (not_beginsWith_of_longest? (Config.operators_keys _) hoperator)

/-- **Every lexeme that is an error has one of the five shapes.** -/
theorem errorShape_of_originates {l : Lexeme} {rest : List Char}
    (h : (Rules.ofConfig Config.curlyBrace).Originates l rest) (herror : l.kind = .error) :
    ErrorShape l.text rest := by
  cases h with
  | part part text rest => exact absurd herror (TokenKind.string_ne_error part)
  | name c cs =>
      simp only [Cut.lexeme, Plain.word] at herror
      split at herror <;> cases herror
  | @trivia cs cut hcut =>
      have hkind : cut.kind = .error := herror
      simp only [Option.orElse_eq_orElse, Option.orElse_eq_or, Option.or_eq_some_iff] at hcut
      rcases hcut with hline | ⟨_, hblanks | ⟨_, hcomment⟩⟩
      · simp [Plain.linebreak?_kind hline] at hkind
      · simp [Plain.blanks?_kind hblanks] at hkind
      · obtain ⟨opener, closer, body, hmark, rfl, hopen⟩ := Plain.comment?_error hcomment hkind
        obtain ⟨rfl, rfl⟩ : opener = "/*".toList ∧ closer = "*/".toList := by
          simpa [Rules.ofConfig, Config.curlyBrace] using hmark
        exact .comment hopen
  | token hplain => exact errorShape_of_token hplain herror
  | @broken text rest style delimiter hopening hbegins hend =>
      -- both delimiters begin with this quotation mark
      have hquote : ['"'] <+: text := by
        rcases opening?_delimiter hopening with ⟨_, hmark⟩ | ⟨_, d, hd, rfl⟩
        · obtain rfl : "\"\"\"".toList = delimiter := Option.some.inj hmark
          exact List.IsPrefix.trans ⟨"\"\"".toList, rfl⟩ hbegins
        · obtain rfl : '"' = d := Option.some.inj hd
          exact hbegins
      obtain ⟨body, rfl⟩ := hquote
      exact .string hend

end CurlyBrace

/-- **Every error has one of five exact shapes.**  In whatever text or window of it, under the
configuration of the family of languages with curly braces, an error is

* a character that is neither a blank nor a digit nor a quotation mark nor the start of a word, and
  with which no comment, no punctuation and no operator begins;
* the prefix of a number, without a digit of its base behind it;
* an opened comment that is not closed, up to the end of the window;
* what begins as a character literal and is none, up to the next quotation mark that is not
  escaped, or if there is none on the line, up to its end or that of the window;
* what begins as a string, up to the end of a line or of the window. -/
theorem tokenize_errorShape (source : String) (asked : Option Span) :
    ∀ t ∈ tokenize source Config.curlyBrace asked, t.kind = .error →
      ∃ rest, Text.slice? source.toList t.span.start (window source.toList asked).stop =
          some (t.text.toList ++ rest) ∧
        ErrorShape t.text.toList rest := by
  intro t ht herror
  obtain ⟨rest, hslice, horigin⟩ := originates_of_mem_tokenize ht (by rw [herror]; simp)
  exact ⟨rest, hslice, errorShape_of_originates horigin herror⟩

/-- One error of each shape, a character literal with and without its closing mark among them, and
a window that ends within the closer of a comment. -/
theorem tokenize_errorShape_each :
    let source := "# 0xg 'ab\\'' '\\\n\"$\x7b'a' 1\n/**/ /* *\n*/"
    let asked := some ⟨0, 36⟩
    let errors : List Token := [⟨.error, "#", ⟨0, 1⟩⟩, ⟨.error, "0x", ⟨2, 4⟩⟩,
      ⟨.error, "'ab\\''", ⟨6, 12⟩⟩, ⟨.error, "'\\", ⟨13, 15⟩⟩,
      ⟨.error, "\"$\x7b'a' 1", ⟨16, 24⟩⟩, ⟨.error, "/* *\n*", ⟨30, 36⟩⟩]
    (tokenize source Config.curlyBrace asked).filter (fun t => t.kind == .error) = errors ∧
      ∀ t ∈ errors, ∃ rest,
        Text.slice? source.toList t.span.start (window source.toList asked).stop =
            some (t.text.toList ++ rest) ∧
          ErrorShape t.text.toList rest := by
  intro source asked errors
  have herrors : (tokenize source Config.curlyBrace asked).filter (fun t => t.kind == .error) =
      errors := by cbv
  refine ⟨herrors, ?_⟩
  intro t ht
  rw [← herrors] at ht
  obtain ⟨hmem, hkind⟩ := List.mem_filter.mp ht
  exact tokenize_errorShape source asked t hmem (by simpa using hkind)

end Lossless
