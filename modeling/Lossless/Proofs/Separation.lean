import Lossless.Proofs.StringGrammar

/-!
# Tokens kept apart by blanks

What is written behind a token may change it: in a row `=` and `=` are one operator, and `1`
and `f` one number.  A blank changes nothing, as long as no mark of the language has a blank in
it (`Rules.BlankFree`): each rule outside of strings then cuts off what it would cut off at the
end of the text (`other_append`).

So a token that is read from its own text (`Rules.ReadsAlone`) is read in front of a blank, and
**a row of such tokens with one blank between any two is read as it was written**
(`lexemes_spaced`).
-/

namespace Lossless

/-- Nothing follows, or a blank does. -/
def BlankFirst (rest : List Char) : Prop :=
  rest = [] ∨ ∃ cs, rest = ' ' :: cs

/-- No mark of a language has a blank in it, and no word or number goes on with one. -/
structure Rules.BlankFree (r : Rules) : Prop where
  symbols : ∀ mark ∈ r.punctuation ++ r.operators, ' ' ∉ mark
  lineComments : ∀ mark ∈ r.lineComments, ' ' ∉ mark
  blockComments : ∀ comment ∈ r.blockComments, ' ' ∉ comment.1
  strings : ∀ mark ∈ r.multilineDelimiter, ' ' ∉ mark
  numberPrefixes : ∀ mark ∈ r.numberPrefixes, ' ' ∉ mark.1
  suffixes : some ' ' ≠ r.floatSuffix ∧ some ' ' ≠ r.doubleSuffix
  words : r.continuesWord ' ' = false

/-- A cut of a text with more behind it. -/
def Cut.before (cut : Cut) (rest : List Char) : Cut :=
  { cut with rest := cut.rest ++ rest }

section Marks

variable {rest : List Char} (hrest : BlankFirst rest)
include hrest

theorem isPrefixOf_append {mark : List Char} (hmark : ' ' ∉ mark) (cs : List Char) :
    mark.isPrefixOf (cs ++ rest) = mark.isPrefixOf cs := by
  induction mark generalizing cs with
  | nil => simp
  | cons m ms ih =>
      simp only [List.mem_cons, not_or] at hmark
      cases cs with
      | cons c cs => simp [List.isPrefixOf, ih hmark.2]
      | nil =>
          obtain rfl | ⟨cs, rfl⟩ := hrest
          · rfl
          · simp [List.isPrefixOf, Ne.symm hmark.1]

theorem longest?_append {α : Type} (key : α → List Char) {as : List α}
    (has : ∀ a ∈ as, ' ' ∉ key a) (cs : List Char) :
    longest? key (cs ++ rest) as = longest? key cs as := by
  induction as with
  | nil => rfl
  | cons a as ih =>
      have htail := ih (fun b hb => has b (List.mem_cons_of_mem _ hb))
      simp only [longest?, isPrefixOf_append hrest (has a List.mem_cons_self), htail]

theorem takeWhile_append {p : Char → Bool} (hp : p ' ' = false) (cs : List Char) :
    (cs ++ rest).takeWhile p = cs.takeWhile p := by
  induction cs with
  | nil =>
      obtain rfl | ⟨cs, rfl⟩ := hrest
      · rfl
      · simp [hp]
  | cons c cs ih => simp [List.takeWhile_cons, ih]

theorem dropWhile_append {p : Char → Bool} (hp : p ' ' = false) (cs : List Char) :
    (cs ++ rest).dropWhile p = cs.dropWhile p ++ rest := by
  induction cs with
  | nil =>
      obtain rfl | ⟨cs, rfl⟩ := hrest
      · rfl
      · simp [hp]
  | cons c cs ih =>
      cases hc : p c with
      | true => simp [hc, ih]
      | false => simp [hc]

end Marks

/-! ## Numbers -/

namespace Number

section

variable {rest : List Char} (hrest : BlankFirst rest)
include hrest

theorem digits_append (base : IntegerBase) (cs : List Char) :
    digits base (cs ++ rest) = ((digits base cs).1, (digits base cs).2 ++ rest) := by
  have hdigit : base.isDigit ' ' = false := by cases base <;> decide
  have hcontinues : continues base ' ' = false := by simp [continues, hdigit]
  cases cs with
  | nil =>
      obtain rfl | ⟨cs, rfl⟩ := hrest
      · rfl
      · simp [digits, hdigit]
  | cons c cs =>
      cases hc : base.isDigit c with
      | true =>
          simp [digits, hc, takeWhile_append hrest hcontinues, dropWhile_append hrest hcontinues]
      | false => simp [digits, hc]

theorem startsWithDigit_append (cs : List Char) :
    startsWithDigit (cs ++ rest) = startsWithDigit cs := by
  cases cs with
  | cons c cs => rfl
  | nil =>
      obtain rfl | ⟨cs, rfl⟩ := hrest
      · rfl
      · rfl

theorem fraction_append (cs : List Char) :
    fraction (cs ++ rest) = ((fraction cs).1, (fraction cs).2 ++ rest) := by
  fun_cases fraction cs with
  | case1 cs hdigit ds tail heq =>
      simp [fraction, startsWithDigit_append hrest, hdigit, digits_append hrest, heq]
  | case2 cs hdigit => simp [fraction, startsWithDigit_append hrest, hdigit]
  | case3 cs hpoint =>
      have hpoint' : ∀ ds, cs ++ rest = '.' :: ds → False := by
        intro ds hds
        cases cs with
        | cons c cs =>
            obtain rfl := (List.cons.inj hds).1
            exact hpoint cs rfl
        | nil => obtain rfl | ⟨cs, rfl⟩ := hrest <;> simp at hds
      rw [fraction.eq_def]
      split
      · rename_i ds heq
        exact absurd heq (hpoint' ds)
      · rfl

theorem sign_append (cs : List Char) : sign (cs ++ rest) = ((sign cs).1, (sign cs).2 ++ rest) := by
  cases cs with
  | nil =>
      obtain rfl | ⟨cs, rfl⟩ := hrest
      · rfl
      · rfl
  | cons c cs =>
      by_cases hplus : c = '+'
      · subst hplus
        rfl
      · by_cases hminus : c = '-'
        · subst hminus
          rfl
        · simp [sign, hplus, hminus]

theorem exponent_append (cs : List Char) :
    exponent (cs ++ rest) = ((exponent cs).1, (exponent cs).2 ++ rest) := by
  cases cs with
  | nil =>
      obtain rfl | ⟨cs, rfl⟩ := hrest
      · rfl
      · rfl
  | cons c cs =>
      cases hexponent : (c == 'e' || c == 'E') with
      | false => simp [exponent, hexponent]
      | true =>
          cases hdigit : startsWithDigit (sign cs).2 with
          | false =>
              simp [exponent, hexponent, sign_append hrest, startsWithDigit_append hrest, hdigit]
          | true =>
              simp [exponent, hexponent, sign_append hrest, startsWithDigit_append hrest, hdigit,
                digits_append hrest]

variable {r : Rules} (hr : r.BlankFree)
include hr

theorem suffix?_append (cs : List Char) : suffix? r (cs ++ rest) = suffix? r cs := by
  obtain rfl | ⟨tail, rfl⟩ := hrest
  · simp
  · match cs with
    | c :: d :: cs => rfl
    | [c] => simp [suffix?, standalone?, hr.words]
    | [] =>
        -- the blank itself is no suffix, whether it stands alone or not
        have hsuffix := hr.suffixes
        cases tail with
        | nil => simp [suffix?, standalone?, hsuffix]
        | cons c tail =>
            cases hword : r.continuesWord c with
            | true => simp [suffix?, standalone?, hword]
            | false => simp [suffix?, standalone?, hword, hsuffix]

theorem decimal_append (cs : List Char) : decimal r (cs ++ rest) = (decimal r cs).before rest := by
  simp only [decimal, digits_append hrest, fraction_append hrest, exponent_append hrest,
    suffix?_append hrest hr]
  generalize (exponent (fraction (digits .dec cs).2).2).2 = tail
  cases hsuffix : suffix? r tail with
  | none =>
      simp only
      split <;> rfl
  | some precision =>
      cases tail with
      | nil => cases hsuffix
      | cons c tail => rfl

theorem cut_append (cs : List Char) : cut r (cs ++ rest) = (cut r cs).before rest := by
  simp only [cut, longest?_append hrest Prod.fst hr.numberPrefixes]
  cases hmark : longest? Prod.fst cs r.numberPrefixes with
  | none => exact decimal_append hrest hr cs
  | some entry =>
      obtain ⟨mark, base⟩ := entry
      obtain ⟨_, hprefix⟩ := longest?_isPrefixOf hmark
      obtain ⟨tail, rfl⟩ := List.isPrefixOf_iff_prefix.mp hprefix
      simp only [prefixed, List.append_assoc, List.drop_left, digits_append hrest]
      obtain ⟨ds, after⟩ := digits base tail
      cases ds <;> rfl

end

end Number

/-! ## Tokens outside of strings -/

namespace Plain

section

variable {rest : List Char} (hrest : BlankFirst rest) {r : Rules} (hr : r.BlankFree)
include hrest hr

theorem comment?_eq_none_append {cs : List Char} (h : comment? r cs = none) :
    comment? r (cs ++ rest) = none := by
  unfold comment? at h ⊢
  rw [longest?_append hrest id hr.lineComments, longest?_append hrest Prod.fst hr.blockComments]
  split at h
  · split at h <;> cases h
  · cases h
  · cases h
  · rfl

theorem symbol?_append (cs : List Char) :
    symbol? r (cs ++ rest) = (symbol? r cs).map (·.before rest) := by
  have hmarks := hr.symbols
  rw [List.forall_mem_append] at hmarks
  have hdrop : ∀ marks mark, longest? id cs marks = some mark →
      (cs ++ rest).drop mark.length = cs.drop mark.length ++ rest := by
    intro marks mark hmark
    obtain ⟨tail, rfl⟩ := List.isPrefixOf_iff_prefix.mp (longest?_isPrefixOf hmark).2
    simp
  unfold symbol?
  rw [longest?_append hrest id hmarks.1, longest?_append hrest id hmarks.2]
  cases hmark : longest? id cs r.punctuation with
  | some mark => simp [hdrop _ _ hmark, Cut.before]
  | none =>
      cases hmark : longest? id cs r.operators with
      | some mark => simp [hdrop _ _ hmark, Cut.before]
      | none => rfl

theorem word_append (c : Char) (cs : List Char) :
    word r c (cs ++ rest) = (word r c cs).before rest := by
  simp [word, takeWhile_append hrest hr.words, dropWhile_append hrest hr.words, Cut.before]

/-- **A blank behind a number, a symbol or a word changes nothing.** -/
theorem other_append (c : Char) (cs : List Char) :
    other r c (cs ++ rest) = (other r c cs).before rest := by
  have hnumber := Number.cut_append hrest hr (c :: cs)
  have hsymbol := symbol?_append hrest hr (c :: cs)
  rw [List.cons_append] at hnumber hsymbol
  unfold other
  rw [hnumber, hsymbol]
  split
  · rfl
  · cases symbol? r (c :: cs) with
    | some cut => rfl
    | none =>
        simp only [Option.map_none]
        split
        · exact word_append hrest hr c cs
        · rfl

end

/-- A character literal that is complete does not depend on what follows. -/
theorem charLiteral_append {r : Rules} {delimiter : Char} {cs : List Char}
    (h : (charLiteral r delimiter cs).kind = .literal .char) (rest : List Char) :
    charLiteral r delimiter (cs ++ rest) = (charLiteral r delimiter cs).before rest := by
  have hbody : ∀ body after, charBody r delimiter cs = (body, after, true) →
      charBody r delimiter (cs ++ rest) = (body, after ++ rest, true) := by
    intro body after hcs
    fun_cases charBody r delimiter cs <;> simp_all [charBody]
  unfold charLiteral at h ⊢
  rcases heq : charBody r delimiter cs with ⟨body, after, wellFormed⟩
  simp only [heq] at h ⊢
  split at h
  · rename_i hcomplete
    simp only [Bool.and_eq_true, beq_iff_eq] at hcomplete
    obtain ⟨rfl, hhead⟩ := hcomplete
    obtain ⟨tail, rfl⟩ := List.head?_eq_some_iff.mp hhead
    simp [hbody _ _ heq, Cut.before]
  · cases h

end Plain

/-! ## Where a plain token is read -/

/-- A kind of token that is neither trivia nor an error nor a piece of a string. -/
def TokenKind.isPlain : TokenKind → Bool
  | identifier | keyword | punctuation | operator => true
  | literal (.string _) => false
  | literal _ => true
  | _ => false

/-- The number, symbol, word or character that starts with `c`, in front of `cs`. -/
def Plain.token (r : Rules) (c : Char) (cs : List Char) : Cut :=
  if r.charDelimiter == some c then charLiteral r c cs else other r c cs

theorem Plain.token_append {r : Rules} (hr : r.BlankFree) {rest : List Char}
    (hrest : BlankFirst rest) {c : Char} {cs : List Char}
    (h : (Plain.token r c cs).kind.isPlain = true) :
    Plain.token r c (cs ++ rest) = (Plain.token r c cs).before rest := by
  unfold Plain.token at h ⊢
  split
  · rename_i hchar
    rw [if_pos hchar] at h
    refine charLiteral_append ?_ rest
    unfold charLiteral at h ⊢
    simp only at h ⊢
    split at h
    · rename_i hcomplete
      rw [if_pos hcomplete]
    · cases h
  · exact other_append hrest hr c cs

/-- At the text `c :: cs` there is neither trivia nor a string. -/
structure Rules.IsPlainAt (r : Rules) (c : Char) (cs : List Char) : Prop where
  line : Text.isLineEnd c = false
  blank : Text.isInlineBlank c = false
  comment : Plain.comment? r (c :: cs) = none
  string : opening? r (c :: cs) = none

theorem Plain.linebreak?_eq_none {c : Char} (h : Text.isLineEnd c = false) (cs : List Char) :
    linebreak? (c :: cs) = none := by
  unfold linebreak?
  split
  · rename_i heq
    cases heq
    simp [Text.isLineEnd] at h
  · rename_i heq
    cases heq
    simp [h]
  · rfl

namespace Rules.IsPlainAt

variable {r : Rules} {c : Char} {cs : List Char}

theorem lexemesAt_eq (h : r.IsPlainAt c cs) (block? : Option BlockScanner) (rounds : Nat) :
    lexemesAt r block? rounds c cs =
      ([(Plain.token r c cs).lexeme], (Plain.token r c cs).rest) := by
  have hblank : Plain.blanks? (c :: cs) = none := by simp [Plain.blanks?, h.blank]
  simp [lexemesAt, Plain.linebreak?_eq_none h.line, hblank, h.comment, h.string, Plain.token]

theorem append (h : r.IsPlainAt c cs) (hr : r.BlankFree) {rest : List Char}
    (hrest : BlankFirst rest) : r.IsPlainAt c (cs ++ rest) := by
  refine ⟨h.line, h.blank, Plain.comment?_eq_none_append hrest hr h.comment, ?_⟩
  have hprefix := fun mark hmark => isPrefixOf_append hrest (hr.strings mark hmark) (c :: cs)
  have hstring := h.string
  unfold opening? at hstring ⊢
  cases hmark : r.multilineDelimiter with
  | none => simpa [hmark] using hstring
  | some mark =>
      simp only [hmark, Option.filter_some, List.head?_cons] at hstring ⊢
      rwa [← List.cons_append, hprefix mark hmark]

end Rules.IsPlainAt

/-- Trivia is no plain token. -/
theorem isPlain_of_trivia {r : Rules} {cs : List Char} {cut : Cut}
    (h : (Plain.linebreak? cs <|> Plain.blanks? cs <|> Plain.comment? r cs) = some cut) :
    cut.kind.isPlain = false := by
  have hblock : ∀ opener closer, (Plain.blockComment opener closer cs).kind.isPlain = false := by
    intro opener closer
    unfold Plain.blockComment
    split <;> rfl
  rcases hline : Plain.linebreak? cs with _ | line
  · rcases hblank : Plain.blanks? cs with _ | blank
    · rw [hline, hblank] at h
      change Plain.comment? r cs = some cut at h
      unfold Plain.comment? at h
      split at h
      · split at h <;> cases h
        · exact hblock _ _
        · rfl
      · cases h
        rfl
      · cases h
        exact hblock _ _
      · cases h
    · rw [hline, hblank] at h
      cases h
      unfold Plain.blanks? at hblank
      split at hblank
      · split at hblank <;> cases hblank
        rfl
      · cases hblank
  · rw [hline] at h
    cases h
    unfold Plain.linebreak? at hline
    split at hline
    · cases hline
      rfl
    · split at hline <;> cases hline
      rfl
    · cases hline

/-- No string is read as one plain token. -/
theorem isPlain_of_stringLiteral {r : Rules} {block? : Option BlockScanner} {style : StringStyle}
    {delimiter : List Char} {rounds : Nat} {cs : List Char} {l : Lexeme}
    (h : (stringLiteral r block? style delimiter rounds cs).1 = [l]) :
    l.kind.isPlain = false := by
  simp only [stringLiteral, Scan.sealed] at h
  split at h
  · obtain ⟨rfl, _⟩ := List.cons.inj h
    rfl
  · obtain ⟨rfl, _⟩ := List.cons.inj h
    rfl

theorem isPlainAt_of_lexemesAt {r : Rules} {block? : Option BlockScanner} {rounds : Nat} {c : Char}
    {cs : List Char} {l : Lexeme} (h : (lexemesAt r block? rounds c cs).1 = [l])
    (hl : l.kind.isPlain = true) : r.IsPlainAt c cs := by
  unfold lexemesAt at h
  split at h
  · rename_i cut hcut
    obtain ⟨rfl, _⟩ := List.cons.inj h
    exact absurd ((isPlain_of_trivia hcut).symm.trans hl) (by simp)
  · rename_i htrivia
    simp only [Option.orElse_eq_orElse, Option.orElse_eq_or, Option.or_eq_none_iff] at htrivia
    obtain ⟨hline, hblank, hcomment⟩ := htrivia
    split at h
    · exact absurd ((isPlain_of_stringLiteral h).symm.trans hl) (by simp)
    · rename_i hstring
      refine ⟨Plain.isLineEnd_of_linebreak?_eq_none hline, ?_, hcomment, hstring⟩
      simpa [Plain.blanks?] using hblank

/-! ## Tokens that are read alone -/

/-- A token that is all that is read from its own text. -/
structure Rules.ReadsAlone (r : Rules) (l : Lexeme) : Prop where
  lexemes : lexemes r l.text = [l]
  plain : l.kind.isPlain = true

theorem lexemes_cons (r : Rules) (c : Char) (cs : List Char) :
    ∃ block : BlockScanner, block.Splits ∧
      lexemes r (c :: cs) = (lexemesAt r (some block) cs.length c cs).1 ++
        (tokensIn r (some block) .top cs.length 0
          (lexemesAt r (some block) cs.length c cs).2).lexemes :=
  ⟨_, fun rounds lineBound cs => code_split r (maxBlockDepth - 1) (.block lineBound) rounds cs, rfl⟩

/-- **A token that is read alone is read in front of a blank as well**, and what begins with the
blank is left. -/
theorem Rules.ReadsAlone.lexemesAt_append {r : Rules} {l : Lexeme} (h : r.ReadsAlone l)
    (hr : r.BlankFree) {rest : List Char} (hrest : BlankFirst rest) :
    ∃ c cs, l.text = c :: cs ∧ Text.isInlineBlank c = false ∧
      ∀ block? rounds, lexemesAt r block? rounds c (cs ++ rest) = ([l], rest) := by
  have hread := h.lexemes
  obtain ⟨kind, text⟩ := l
  cases text with
  | nil => cases hread
  | cons c cs =>
      obtain ⟨block, hblock, heq⟩ := lexemes_cons r c cs
      have hblocks : ∀ b ∈ some block, BlockScanner.Splits b := by simpa using hblock
      obtain ⟨hsplit, hne⟩ := lexemesAt_split r hblocks cs.length c cs
      rw [hread] at heq
      have hfirst : (lexemesAt r (some block) cs.length c cs).1 = [⟨kind, c :: cs⟩] := by
        obtain ⟨x, xs, hxs⟩ := List.exists_cons_of_ne_nil hne
        rw [hxs] at heq ⊢
        simp at heq
        simp [heq.1, heq.2.1]
      have hplain := isPlainAt_of_lexemesAt hfirst h.plain
      rw [hplain.lexemesAt_eq] at hfirst hsplit
      have hlexeme : (Plain.token r c cs).lexeme = ⟨kind, c :: cs⟩ := (List.cons.inj hfirst).1
      -- the token takes all of the text, so nothing but what was put behind it is left
      have hnone : (Plain.token r c cs).rest = [] := by
        have hjoined := hsplit.joined
        rw [hlexeme] at hjoined
        simpa [Lexeme.joined] using hjoined
      have hkind : (Plain.token r c cs).kind.isPlain = true := by
        have hkind' := congrArg Lexeme.kind hlexeme
        rw [show (Plain.token r c cs).kind = kind from hkind']
        exact h.plain
      refine ⟨c, cs, rfl, hplain.blank, ?_⟩
      intro block? rounds
      rw [(hplain.append hr hrest).lexemesAt_eq, Plain.token_append hr hrest hkind]
      show ([(Plain.token r c cs).lexeme], (Plain.token r c cs).rest ++ rest) = _
      rw [hlexeme, hnone, List.nil_append]

/-! ## Rows of tokens -/

/-- A blank as a token. -/
def Lexeme.blank : Lexeme := ⟨.whitespace, [' ']⟩

/-- The text of tokens with one blank between any two. -/
def Lexeme.spaced (ls : List Lexeme) : List Char :=
  joined (ls.intersperse blank)

theorem Lexeme.spaced_cons_cons (k l : Lexeme) (ls : List Lexeme) :
    spaced (k :: l :: ls) = k.text ++ ' ' :: spaced (l :: ls) := by
  simp [spaced, blank]

/-- A text that begins with another character than a blank, behind one blank. -/
theorem lexemesAt_blank (r : Rules) (block? : Option BlockScanner) (rounds : Nat) {c : Char}
    (hc : Text.isInlineBlank c = false) (cs : List Char) :
    lexemesAt r block? rounds ' ' (c :: cs) = ([.blank], c :: cs) := by
  have hline : Plain.linebreak? (' ' :: c :: cs) = none := Plain.linebreak?_eq_none rfl _
  have hblank : Text.isInlineBlank ' ' = true := by decide
  simp [lexemesAt, hline, Plain.blanks?, hblank, hc, Cut.lexeme, Lexeme.blank]

theorem tokensIn_token (r : Rules) (block? : Option BlockScanner) (rounds : Nat) (c : Char)
    (cs : List Char) :
    (tokensIn r block? .top (rounds + 1) 0 (c :: cs)).lexemes =
      (lexemesAt r block? rounds c cs).1 ++
        (tokensIn r block? .top rounds 0 (lexemesAt r block? rounds c cs).2).lexemes := rfl

theorem tokensIn_nil (r : Rules) (block? : Option BlockScanner) (region : Region) (rounds : Nat) :
    (tokensIn r block? region rounds 0 []).lexemes = [] := by
  cases rounds <;> rfl

/-- A row of tokens begins with no blank. -/
theorem Lexeme.spaced_head {r : Rules} (hr : r.BlankFree) {l : Lexeme} (h : r.ReadsAlone l)
    (ls : List Lexeme) :
    ∃ c cs, spaced (l :: ls) = c :: cs ∧ Text.isInlineBlank c = false := by
  obtain ⟨c, cs, htext, hblank, _⟩ := h.lexemesAt_append hr (Or.inl rfl)
  refine ⟨c, cs ++ joined ((l :: ls).intersperse blank).tail, ?_, hblank⟩
  cases ls <;> simp [spaced, htext]

/-- One round of reading for each token and one for each blank. -/
theorem tokensIn_spaced {r : Rules} (hr : r.BlankFree) {ls : List Lexeme}
    (hls : ∀ l ∈ ls, r.ReadsAlone l) (block? : Option BlockScanner) {rounds : Nat}
    (hrounds : (Lexeme.spaced ls).length ≤ rounds) :
    (tokensIn r block? .top rounds 0 (Lexeme.spaced ls)).lexemes = ls.intersperse .blank := by
  induction ls generalizing rounds with
  | nil => exact tokensIn_nil r block? .top rounds
  | cons l ls ih =>
      have hl := hls l List.mem_cons_self
      cases ls with
      | nil =>
          obtain ⟨c, cs, htext, _, hat⟩ := hl.lexemesAt_append hr (Or.inl rfl)
          have hspaced : Lexeme.spaced [l] = c :: (cs ++ []) := by
            simp [Lexeme.spaced, Lexeme.joined, htext]
          rw [hspaced] at hrounds ⊢
          obtain ⟨rounds, rfl⟩ := Nat.exists_eq_add_of_lt hrounds
          rw [tokensIn_token, hat, tokensIn_nil]
          rfl
      | cons k ks =>
          obtain ⟨d, ds, hnext, hd⟩ := Lexeme.spaced_head hr (hls k (by simp)) ks
          obtain ⟨c, cs, htext, _, hat⟩ := hl.lexemesAt_append hr (Or.inr ⟨d :: ds, rfl⟩)
          rw [Lexeme.spaced_cons_cons, hnext, htext, List.cons_append] at hrounds ⊢
          have hlength : (Lexeme.spaced (k :: ks)).length + 2 ≤ rounds := by
            rw [hnext]
            simp at hrounds ⊢
            omega
          obtain ⟨n, rfl⟩ : ∃ n, rounds = n + 1 + 1 := ⟨rounds - 2, by omega⟩
          have hrest := ih (fun x hx => hls x (List.mem_cons_of_mem _ hx))
            (Nat.le_of_add_le_add_right hlength)
          rw [hnext] at hrest
          rw [tokensIn_token, hat, tokensIn_token, lexemesAt_blank r block? n hd, hrest]
          rfl

/-- **A row of tokens with one blank between any two is read as it was written.** -/
theorem lexemes_spaced {r : Rules} (hr : r.BlankFree) {ls : List Lexeme}
    (hls : ∀ l ∈ ls, r.ReadsAlone l) :
    lexemes r (Lexeme.spaced ls) = ls.intersperse .blank :=
  tokensIn_spaced hr hls _ (Nat.le_refl _)

/-- Whether a lexeme is neither trivia nor the end of the input. -/
def Lexeme.isSignificant (l : Lexeme) : Bool :=
  !l.kind.isTrivia && l.kind != .eof

theorem Lexeme.isSignificant_of_isPlain {l : Lexeme} (h : l.kind.isPlain = true) :
    l.isSignificant = true := by
  obtain ⟨kind, text⟩ := l
  cases kind <;> simp_all [Lexeme.isSignificant, TokenKind.isPlain, TokenKind.isTrivia]

/-- Without trivia, what is left of a row of tokens are the tokens. -/
theorem filter_intersperse_blank {ls : List Lexeme} (hls : ∀ l ∈ ls, l.kind.isPlain = true) :
    (ls.intersperse .blank).filter Lexeme.isSignificant = ls := by
  induction ls with
  | nil => rfl
  | cons l ls ih =>
      obtain ⟨hl, hls⟩ := List.forall_mem_cons.mp hls
      have hkept := Lexeme.isSignificant_of_isPlain hl
      have hrest := ih hls
      cases ls with
      | nil => simp [hkept]
      | cons k ks =>
          rw [List.intersperse_cons_cons, List.filter_cons_of_pos hkept,
            List.filter_cons_of_neg (by decide), hrest]

end Lossless
