import Lossless.Lexer.Code

/-!
# Rules take beginnings off a text

Every rule of the lexer hands back a beginning of the text, classified, with the rest.
This file says so rule by rule: **each rule splits its text, takes at least one
character, and never calls it the end of the input** (`Cut.Splits`).  The rules for
strings, which nest, follow from these in the file on coverage.

The bodies of rules are cut off by small splitting functions.  Of each of these it is
enough to know that its two parts make up the text.
-/

namespace Lossless

/-- A cut takes a beginning off a text, and classifies it as something. -/
structure Cut.Splits (cut : Cut) (cs : List Char) : Prop where
  joined : cut.text ++ cut.rest = cs
  text_ne_nil : cut.text ≠ []
  kind_ne_eof : cut.kind ≠ .eof

/-- An entry that begins a text and the text without it make up the text. -/
theorem append_drop_of_isPrefixOf {mark cs : List Char} (h : mark.isPrefixOf cs = true) :
    mark ++ cs.drop mark.length = cs := by
  obtain ⟨rest, rfl⟩ := List.isPrefixOf_iff_prefix.mp h
  simp

/-- The entry that `longest?` chooses is not empty and begins the text. -/
theorem longest?_isPrefixOf {α : Type} {key : α → List Char} {cs : List Char} {as : List α} {a : α}
    (h : longest? key cs as = some a) : key a ≠ [] ∧ (key a).isPrefixOf cs = true := by
  induction as generalizing a with
  | nil => simp [longest?] at h
  | cons b bs ih =>
      unfold longest? at h
      split at h
      · rename_i hb
        have hb' : key b ≠ [] ∧ (key b).isPrefixOf cs = true := by simpa using hb
        cases hrest : longest? key cs bs with
        | none =>
            rw [hrest] at h
            cases h
            exact hb'
        | some d =>
            rw [hrest] at h
            simp only at h
            split at h <;> cases h
            · exact ih hrest
            · exact hb'
      · exact ih h

/-! ## Numbers -/

namespace Number

/-- Digits and the rest make up the text. -/
theorem digits_joined (base : IntegerBase) (cs : List Char) :
    (digits base cs).1 ++ (digits base cs).2 = cs := by
  cases cs with
  | nil => rfl
  | cons c cs =>
      by_cases hc : base.isDigit c = true
      · simp [digits, hc]
      · simp [digits, hc]

/-- A fraction and the rest make up the text. -/
theorem fraction_joined (cs : List Char) : (fraction cs).1 ++ (fraction cs).2 = cs := by
  fun_cases fraction cs with
  | case1 cs hdigit ds rest heq =>
      have hjoined := digits_joined .dec cs
      rw [heq] at hjoined
      simpa using hjoined
  | case2 | case3 => simp

/-- A sign and the rest make up the text. -/
theorem sign_joined (cs : List Char) : (sign cs).1 ++ (sign cs).2 = cs := by
  fun_cases sign cs <;> simp

/-- An exponent and the rest make up the text. -/
theorem exponent_joined (cs : List Char) : (exponent cs).1 ++ (exponent cs).2 = cs := by
  fun_cases exponent cs with
  | case1 => rfl
  | case2 e cs he s unsigned hsign hdigit ds rest hdigits =>
      have hs := sign_joined cs
      have hd := digits_joined .dec unsigned
      rw [hsign] at hs
      rw [hdigits] at hd
      simp only [List.cons_append, List.append_assoc]
      rw [hd, hs]
  | case3 | case4 => simp

/-- A decimal number takes a beginning off a text that starts with a digit. -/
theorem decimal_splits (r : Rules) {c : Char} (cs : List Char) (hc : c.isDigit = true) :
    (decimal r (c :: cs)).Splits (c :: cs) := by
  have hwhole := digits_joined .dec (c :: cs)
  have hfrac := fraction_joined (digits .dec (c :: cs)).2
  have hexp := exponent_joined (fraction (digits .dec (c :: cs)).2).2
  have hne : (digits .dec (c :: cs)).1 ≠ [] := by simp [digits, IntegerBase.isDigit, hc]
  have hjoined : (digits .dec (c :: cs)).1 ++ (fraction (digits .dec (c :: cs)).2).1
      ++ (exponent (fraction (digits .dec (c :: cs)).2).2).1
      ++ (exponent (fraction (digits .dec (c :: cs)).2).2).2 = c :: cs := by
    rw [List.append_assoc, hexp, List.append_assoc, hfrac, hwhole]
  unfold decimal
  simp only
  split
  · refine ⟨?_, by simp [hne], by simp⟩
    simp only
    rw [List.append_assoc, List.take_append_drop]
    exact hjoined
  · split
    · exact ⟨hjoined, by simp [hne], by simp⟩
    · exact ⟨hjoined, by simp [hne], by simp⟩

/-- A number with a prefix takes a beginning off a text that starts with the prefix. -/
theorem prefixed_splits {mark cs : List Char} (base : IntegerBase) (hne : mark ≠ [])
    (hmark : mark.isPrefixOf cs = true) : (prefixed mark base cs).Splits cs := by
  have hjoined := append_drop_of_isPrefixOf hmark
  have hdigits := digits_joined base (cs.drop mark.length)
  unfold prefixed
  split
  · rename_i rest heq
    rw [heq] at hdigits
    refine ⟨?_, hne, by simp⟩
    rw [← hjoined, ← hdigits]
    simp
  · rename_i ds rest hds heq
    rw [heq] at hdigits
    refine ⟨?_, by simp [hne], by simp⟩
    simp only [List.append_assoc]
    rw [hdigits, hjoined]

/-- A number takes a beginning off a text that starts with a digit. -/
theorem cut_splits (r : Rules) {c : Char} (cs : List Char) (hc : c.isDigit = true) :
    (cut r (c :: cs)).Splits (c :: cs) := by
  unfold cut
  split
  · rename_i mark base hmark
    obtain ⟨hne, hpre⟩ := longest?_isPrefixOf hmark
    exact prefixed_splits base hne hpre
  · exact decimal_splits r cs hc

end Number

/-! ## Everything else outside strings -/

namespace Plain

/-- A line end takes a beginning off its text. -/
theorem linebreak?_splits {cs : List Char} {cut : Cut} (h : linebreak? cs = some cut) :
    cut.Splits cs := by
  fun_cases linebreak? cs with
  | case1 cs =>
      simp only [linebreak?, Option.some.injEq] at h
      subst h
      exact ⟨rfl, by simp, by simp⟩
  | case2 c cs hcrlf hend =>
      simp [linebreak?, hend] at h
      subst h
      exact ⟨rfl, by simp, by simp⟩
  | case3 c cs hcrlf hend => simp [linebreak?, hend] at h
  | case4 => simp [linebreak?] at h

/-- A text that starts with a line end has a line end to be cut off. -/
theorem isLineEnd_of_linebreak?_eq_none {c : Char} {cs : List Char}
    (h : linebreak? (c :: cs) = none) : Text.isLineEnd c = false := by
  unfold linebreak? at h
  split at h
  · cases h
  · rename_i c' cs' hcrlf heq
    cases heq
    simpa using h
  · rename_i heq
    cases heq

/-- Blanks take a beginning off their text. -/
theorem blanks?_splits {cs : List Char} {cut : Cut} (h : blanks? cs = some cut) :
    cut.Splits cs := by
  fun_cases blanks? cs with
  | case1 c cs hblank =>
      simp [blanks?, hblank] at h
      subst h
      exact ⟨by simp, by simp, by simp⟩
  | case2 c cs hblank => simp [blanks?, hblank] at h
  | case3 => simp [blanks?] at h

/-- A text through a mark and the rest make up the text. -/
theorem through?_joined {mark cs taken rest : List Char}
    (h : through? mark cs = some (taken, rest)) : taken ++ rest = cs := by
  induction cs generalizing taken rest with
  | nil =>
      unfold through? at h
      split at h
      · cases h; rfl
      · cases h
  | cons c cs ih =>
      unfold through? at h
      split at h
      · rename_i hmark
        cases h
        exact append_drop_of_isPrefixOf hmark
      · obtain ⟨⟨t, r⟩, hin, heq⟩ := Option.map_eq_some_iff.mp h
        cases heq
        simp [ih hin]

/-- A line comment takes a beginning off a text that does not start with a line end. -/
theorem lineComment_splits {c : Char} {cs : List Char} (hc : Text.isLineEnd c = false) :
    (lineComment (c :: cs)).Splits (c :: cs) := by
  refine ⟨?_, ?_, by simp [lineComment]⟩
  · exact List.takeWhile_append_dropWhile
  · simp [lineComment, restOfLine, hc]

/-- A block comment takes a beginning off a text that starts with its opener. -/
theorem blockComment_splits {opener closer cs : List Char} (hne : opener ≠ [])
    (hopener : opener.isPrefixOf cs = true) : (blockComment opener closer cs).Splits cs := by
  have hjoined := append_drop_of_isPrefixOf hopener
  unfold blockComment
  split
  · rename_i taken rest hthrough
    refine ⟨?_, by simp [hne], by simp⟩
    rw [List.append_assoc, through?_joined hthrough, hjoined]
  · refine ⟨by simp, ?_, by simp⟩
    intro hnil
    simp only at hnil
    rw [hnil] at hjoined
    simp [hne] at hjoined

/-- A comment takes a beginning off a text that does not start with a line end. -/
theorem comment?_splits {r : Rules} {c : Char} {cs : List Char} {cut : Cut}
    (hc : Text.isLineEnd c = false) (h : comment? r (c :: cs) = some cut) :
    cut.Splits (c :: cs) := by
  unfold comment? at h
  split at h
  · rename_i line opener closer hline hblock
    obtain ⟨hne, hpre⟩ := longest?_isPrefixOf hblock
    split at h <;> cases h
    · exact blockComment_splits hne hpre
    · exact lineComment_splits hc
  · cases h
    exact lineComment_splits hc
  · rename_i opener closer hline hblock
    obtain ⟨hne, hpre⟩ := longest?_isPrefixOf hblock
    cases h
    exact blockComment_splits hne hpre
  · cases h

/-- The body of a character literal and the rest make up the text. -/
theorem charBody_joined (r : Rules) (delimiter : Char) (cs : List Char) :
    (charBody r delimiter cs).1 ++ (charBody r delimiter cs).2.1 = cs := by
  fun_cases charBody r delimiter cs <;> simp

/-- A text through a delimiter and the rest make up the text. -/
theorem throughDelimiter_joined (escapeChar : Option Char) (delimiter : Char) (cs : List Char) :
    (throughDelimiter escapeChar delimiter cs).1
      ++ (throughDelimiter escapeChar delimiter cs).2 = cs := by
  fun_induction throughDelimiter escapeChar delimiter cs <;> simp_all

/-- A character literal takes a beginning off a text that starts with its delimiter. -/
theorem charLiteral_splits (r : Rules) (delimiter : Char) (cs : List Char) :
    (charLiteral r delimiter cs).Splits (delimiter :: cs) := by
  have hbody := charBody_joined r delimiter cs
  unfold charLiteral
  simp only
  split
  · rename_i hclosed
    refine ⟨?_, by simp, by simp⟩
    have hhead : (charBody r delimiter cs).2.1.head? = some delimiter := by
      simp only [Bool.and_eq_true, beq_iff_eq] at hclosed
      exact hclosed.2
    obtain ⟨rest, hrest⟩ := List.head?_eq_some_iff.mp hhead
    rw [hrest] at hbody
    simp only [hrest, List.cons_append, List.append_assoc, List.nil_append, List.drop_succ_cons,
      List.drop_zero]
    rw [hbody]
  · refine ⟨?_, by simp, by simp⟩
    have hstray := throughDelimiter_joined r.escapeChar delimiter (charBody r delimiter cs).2.1
    simp only [List.cons_append, List.append_assoc]
    rw [hstray, hbody]

/-- A word takes a beginning off its text. -/
theorem word_splits (r : Rules) (c : Char) (cs : List Char) : (word r c cs).Splits (c :: cs) := by
  refine ⟨by simp [word], by simp [word], ?_⟩
  simp only [word]
  split <;> simp

/-- A symbol takes a beginning off its text. -/
theorem symbol?_splits {r : Rules} {cs : List Char} {cut : Cut} (h : symbol? r cs = some cut) :
    cut.Splits cs := by
  unfold symbol? at h
  split at h
  · rename_i mark hmark
    obtain ⟨hne, hpre⟩ := longest?_isPrefixOf hmark
    cases h
    exact ⟨append_drop_of_isPrefixOf hpre, hne, by simp⟩
  · split at h
    · rename_i mark hmark
      obtain ⟨hne, hpre⟩ := longest?_isPrefixOf hmark
      cases h
      exact ⟨append_drop_of_isPrefixOf hpre, hne, by simp⟩
    · cases h

/-- Whatever stands at a place where no other rule applies, a beginning of it is taken. -/
theorem other_splits (r : Rules) (c : Char) (cs : List Char) : (other r c cs).Splits (c :: cs) := by
  unfold other
  split
  · rename_i hdigit
    exact Number.cut_splits r cs hdigit
  · split
    · rename_i cut hsymbol
      exact symbol?_splits hsymbol
    · split
      · exact word_splits r c cs
      · exact ⟨rfl, by simp, by simp⟩

end Plain

end Lossless
