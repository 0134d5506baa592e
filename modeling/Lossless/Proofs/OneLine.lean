import Lossless.Proofs.StringGrammar

/-!
# What stays on its line

Most rules of the lexer do not go beyond a line: blanks, comments that run to the end of the line,
character literals, numbers, symbols and words hold no line end, and neither does a broken number
or a broken character literal.  This is so under all rules whose own texts hold none
(`Rules.OneLine`).

Two things may go beyond it: a comment between delimiters and a literal of several lines.  Both
say so at their beginning (`Rules.shelters`).  A text is *sheltered* if **every line end in it
stands behind such a beginning**, and `Plain.comment?_sheltered` and `Plain.other_oneLine` say
between them what that means for the rules outside of strings.  More is asked of a literal that
ends on its line: there a block has to be opened first (`Rules.blockMarks`).
-/

namespace Lossless

/-! ## Texts without a line end -/

/-- A text that holds no line end. -/
def Text.OneLine (cs : List Char) : Prop :=
  ∀ c ∈ cs, Text.isLineEnd c = false

instance (cs : List Char) : Decidable (Text.OneLine cs) :=
  decidable_of_iff (cs.all (!Text.isLineEnd ·) = true) (by simp [Text.OneLine])

namespace Text.OneLine

@[simp] theorem nil : OneLine [] := by
  simp [OneLine]

@[simp] theorem cons_iff {c : Char} {cs : List Char} :
    OneLine (c :: cs) ↔ isLineEnd c = false ∧ OneLine cs := by
  simp [OneLine]

@[simp] theorem append_iff {as bs : List Char} : OneLine (as ++ bs) ↔ OneLine as ∧ OneLine bs := by
  simp [OneLine, or_imp, forall_and]

/-- A character of a class that no line end is of. -/
theorem isLineEnd_eq_false {p : Char → Bool} (h : ∀ c, isLineEnd c = true → p c = false) {c : Char}
    (hc : p c = true) : isLineEnd c = false := by
  rw [Bool.eq_false_iff]
  intro hend
  rw [h c hend] at hc
  cases hc

theorem takeWhile {p : Char → Bool} (h : ∀ c, isLineEnd c = true → p c = false) (cs : List Char) :
    OneLine (cs.takeWhile p) := by
  intro c hc
  exact isLineEnd_eq_false h (List.all_eq_true.mp List.all_takeWhile c hc)

end Text.OneLine

open Text (OneLine)

theorem Text.isLineEnd_iff {c : Char} : Text.isLineEnd c = true ↔ c = '\n' ∨ c = '\r' := by
  simp [Text.isLineEnd]

/-- Rules none of whose texts holds a line end. -/
structure Rules.OneLine (r : Rules) : Prop where
  startsWord : ∀ c, Text.isLineEnd c = true → r.startsWord c = false
  continuesWord : ∀ c, Text.isLineEnd c = true → r.continuesWord c = false
  punctuation : ∀ mark ∈ r.punctuation, Text.OneLine mark
  operators : ∀ mark ∈ r.operators, Text.OneLine mark
  blockComments : ∀ mark ∈ r.blockComments, Text.OneLine mark.1
  numberPrefixes : ∀ mark ∈ r.numberPrefixes, Text.OneLine mark.1
  floatSuffix : ∀ c ∈ r.floatSuffix, Text.isLineEnd c = false
  doubleSuffix : ∀ c ∈ r.doubleSuffix, Text.isLineEnd c = false
  escapeChar : ∀ c ∈ r.escapeChar, Text.isLineEnd c = false
  interpolationChar : ∀ c ∈ r.interpolationChar, Text.isLineEnd c = false
  stringDelimiter : ∀ c ∈ r.stringDelimiter, Text.isLineEnd c = false
  multilineDelimiter : ∀ mark ∈ r.multilineDelimiter, Text.OneLine mark

/-! ## Rules that stay on their line -/

namespace Number

theorem digits_oneLine (base : IntegerBase) (cs : List Char) : OneLine (digits base cs).1 := by
  have hdigit : ∀ c, Text.isLineEnd c = true → base.isDigit c = false := by
    intro c hc
    rcases Text.isLineEnd_iff.mp hc with rfl | rfl <;> cases base <;> rfl
  have hcontinues : ∀ c, Text.isLineEnd c = true → continues base c = false := by
    intro c hc
    rw [continues, hdigit c hc]
    rcases Text.isLineEnd_iff.mp hc with rfl | rfl <;> rfl
  cases cs with
  | nil => exact .nil
  | cons c cs =>
      simp only [digits]
      split
      · rename_i hc
        exact Text.OneLine.cons_iff.mpr
          ⟨Text.OneLine.isLineEnd_eq_false hdigit hc, .takeWhile hcontinues cs⟩
      · exact .nil

theorem fraction_oneLine (cs : List Char) : OneLine (fraction cs).1 := by
  fun_cases fraction cs with
  | case1 cs hdigit ds rest heq =>
      have hds := digits_oneLine .dec cs
      rw [heq] at hds
      exact Text.OneLine.cons_iff.mpr ⟨rfl, hds⟩
  | case2 | case3 => exact .nil

theorem sign_oneLine (cs : List Char) : OneLine (sign cs).1 := by
  fun_cases sign cs <;> simp <;> rfl

theorem exponent_oneLine (cs : List Char) : OneLine (exponent cs).1 := by
  fun_cases exponent cs with
  | case1 => exact .nil
  | case2 e cs he s unsigned hsign hdigit ds rest hdigits =>
      have hs := sign_oneLine cs
      have hds := digits_oneLine .dec unsigned
      rw [hsign] at hs
      rw [hdigits] at hds
      have hline : Text.isLineEnd e = false := by
        simp only [Bool.or_eq_true, beq_iff_eq] at he
        rcases he with rfl | rfl <;> rfl
      simp [hline, hs, hds]
  | case3 | case4 => exact .nil

variable {r : Rules}

theorem suffix_oneLine (h : r.OneLine) {cs : List Char} {precision : Precision}
    (hsuffix : suffix? r cs = some precision) : OneLine (cs.take 1) := by
  unfold suffix? at hsuffix
  cases cs with
  | nil => exact .nil
  | cons c cs =>
      have halone : ∀ d, standalone? r (c :: cs) = some d → d = c := by
        intro d hd
        unfold standalone? at hd
        split at hd
        · cases hd
        · cases hd
          rename_i heq
          exact (List.cons.inj heq).1.symm
        · rename_i heq
          split at hd <;> cases hd
          exact (List.cons.inj heq).1.symm
      split at hsuffix
      · cases hsuffix
      · rename_i d hd
        obtain rfl := halone d hd
        have hline : Text.isLineEnd d = false := by
          split at hsuffix
          · rename_i hfloat
            exact h.floatSuffix d (by simpa using (beq_iff_eq.mp hfloat).symm)
          · split at hsuffix
            · rename_i hdouble
              exact h.doubleSuffix d (by simpa using (beq_iff_eq.mp hdouble).symm)
            · cases hsuffix
        simp [hline]

theorem cut_oneLine (h : r.OneLine) (cs : List Char) : OneLine (cut r cs).text := by
  unfold cut
  split
  · rename_i mark base hmark
    have hbegin := h.numberPrefixes _ (longest?_mem hmark)
    have hdigits := digits_oneLine base (cs.drop mark.length)
    unfold prefixed
    split
    · exact hbegin
    · rename_i ds rest hds heq
      rw [heq] at hdigits
      simp [hbegin, hdigits]
  · have hwhole := Text.OneLine.append_iff.mpr
      ⟨digits_oneLine .dec cs, fraction_oneLine (digits .dec cs).2⟩
    have hnumber := Text.OneLine.append_iff.mpr
      ⟨hwhole, exponent_oneLine (fraction (digits .dec cs).2).2⟩
    unfold decimal
    simp only
    split
    · rename_i precision hsuffix
      exact Text.OneLine.append_iff.mpr ⟨hnumber, suffix_oneLine h hsuffix⟩
    · split <;> exact hnumber

end Number

namespace Plain

variable {r : Rules} {cs : List Char} {cut : Cut}

theorem blanks?_oneLine (h : blanks? cs = some cut) : OneLine cut.text := by
  have hblank : ∀ c, Text.isLineEnd c = true → Text.isInlineBlank c = false := by
    intro c hc
    simp [Text.isInlineBlank, hc]
  unfold blanks? at h
  split at h
  · split at h <;> cases h
    rename_i c cs hc
    refine Text.OneLine.cons_iff.mpr ⟨?_, .takeWhile hblank cs⟩
    simp only [Text.isInlineBlank, Bool.and_eq_true, Bool.not_eq_true'] at hc
    exact hc.2
  · cases h

theorem lineComment_oneLine (cs : List Char) : OneLine (lineComment cs).text :=
  Text.OneLine.takeWhile (fun c hc => by simp [hc]) cs

theorem charBody_oneLine (h : r.OneLine) (delimiter : Char) (cs : List Char) :
    OneLine (charBody r delimiter cs).1 := by
  have hescape : ∀ {c : Char}, (some c == r.escapeChar) = true → Text.isLineEnd c = false := by
    intro c hc
    exact h.escapeChar c (by simpa using (beq_iff_eq.mp hc).symm)
  fun_cases charBody r delimiter cs <;> simp_all

theorem throughDelimiter_oneLine (escapeChar : Option Char) (delimiter : Char) (cs : List Char) :
    OneLine (throughDelimiter escapeChar delimiter cs).1 := by
  fun_induction throughDelimiter escapeChar delimiter cs <;> simp_all

theorem charLiteral_oneLine (h : r.OneLine) {delimiter : Char}
    (hline : Text.isLineEnd delimiter = false) (cs : List Char) :
    OneLine (charLiteral r delimiter cs).text := by
  have hbody := charBody_oneLine h delimiter cs
  have hstray := throughDelimiter_oneLine r.escapeChar delimiter (charBody r delimiter cs).2.1
  unfold charLiteral
  simp only
  split <;> simp [hline, hbody, hstray]

theorem word_oneLine (h : r.OneLine) {c : Char} (hc : r.startsWord c = true) (cs : List Char) :
    OneLine (word r c cs).text :=
  Text.OneLine.cons_iff.mpr
    ⟨Text.OneLine.isLineEnd_eq_false h.startsWord hc, .takeWhile h.continuesWord cs⟩

theorem symbol?_oneLine (h : r.OneLine) (hcut : symbol? r cs = some cut) : OneLine cut.text := by
  unfold symbol? at hcut
  split at hcut
  · rename_i mark hmark
    cases hcut
    exact h.punctuation mark (longest?_mem hmark)
  · split at hcut <;> cases hcut
    rename_i mark hmark
    exact h.operators mark (longest?_mem hmark)

/-- **Numbers, symbols, words and stray characters stay on their line.** -/
theorem other_oneLine (h : r.OneLine) {c : Char} (hline : Text.isLineEnd c = false)
    (cs : List Char) : OneLine (other r c cs).text := by
  unfold other
  split
  · exact Number.cut_oneLine h _
  · split
    · rename_i cut hcut
      exact symbol?_oneLine h hcut
    · split
      · rename_i hc
        exact word_oneLine h hc cs
      · simp [hline]

end Plain

/-! ## Sheltered texts -/

/-- One mark of each group stands in a text, in the order of the groups. -/
def Passes : List (List (List Char)) → List Char → Prop
  | [], _ => True
  | marks :: ways, text => ∃ mark ∈ marks, ∃ as bs, text = as ++ (mark ++ bs) ∧ Passes ways bs

/-- Every line end in a text stands behind one mark of each group. -/
def Sheltered (ways : List (List (List Char))) (text : List Char) : Prop :=
  ∀ pre c post, text = pre ++ c :: post → Text.isLineEnd c = true → Passes ways pre

/-- What opens a comment or a literal that may go beyond its line. -/
def Rules.shelters (r : Rules) : List (List Char) :=
  r.blockComments.map Prod.fst ++ r.multilineDelimiter.toList

/-- What opens a block in a literal. -/
def Rules.blockMarks (r : Rules) : List (List Char) :=
  r.interpolationChar.toList.map fun c => [c, '\x7b']

section Sheltering

variable {marks : List (List Char)} {ways : List (List (List Char))} {as bs : List Char}

theorem Passes.append (h : Passes ways bs) : Passes ways (as ++ bs) := by
  cases ways with
  | nil => trivial
  | cons marks ways =>
      obtain ⟨mark, hmem, as', bs', rfl, hpasses⟩ := h
      exact ⟨mark, hmem, as ++ as', bs', by simp, hpasses⟩

theorem Passes.tail (h : Passes (marks :: ways) bs) : Passes ways bs := by
  obtain ⟨mark, _, as', bs', rfl, hpasses⟩ := h
  exact hpasses.append.append

theorem Text.OneLine.sheltered (h : OneLine as) : Sheltered ways as := by
  intro pre c post heq hend
  rw [h c (by rw [heq]; simp)] at hend
  cases hend

/-- Any text is sheltered if nothing is asked for. -/
theorem sheltered_nil (text : List Char) : Sheltered [] text :=
  fun _ _ _ _ _ => trivial

theorem Sheltered.tail (h : Sheltered (marks :: ways) as) : Sheltered ways as :=
  fun pre c post heq hend => (h pre c post heq hend).tail

theorem Sheltered.append (h : Sheltered ways as) (h' : Sheltered ways bs) :
    Sheltered ways (as ++ bs) := by
  intro pre c post heq hend
  rcases List.append_eq_append_iff.mp heq with ⟨ds, rfl, hbs⟩ | ⟨ds, has, hpost⟩
  · exact (h' ds c post hbs hend).append
  · cases ds with
    | nil =>
        have hpre : Passes ways (pre ++ []) := (h' [] c post hpost.symm hend).append
        rwa [List.append_nil] at hpre
    | cons d ds =>
        obtain ⟨rfl, _⟩ := List.cons.inj hpost
        exact h pre c ds has hend

/-- A text behind a mark. -/
theorem Sheltered.behind (h : Sheltered ways bs) {mark : List Char} (hmem : mark ∈ marks)
    (hline : Text.OneLine mark) : Sheltered (marks :: ways) (mark ++ bs) := by
  intro pre c post heq hend
  rcases List.append_eq_append_iff.mp heq with ⟨ds, rfl, hbs⟩ | ⟨ds, hmark, hpost⟩
  · exact ⟨mark, hmem, [], ds, rfl, h ds c post hbs hend⟩
  · cases ds with
    | nil =>
        refine ⟨mark, hmem, [], [], by simpa using hmark.symm, ?_⟩
        exact h [] c post hpost.symm hend
    | cons d ds =>
        obtain ⟨rfl, _⟩ := List.cons.inj hpost
        rw [hline c (by rw [hmark]; simp)] at hend
        cases hend

end Sheltering

namespace Plain

variable {r : Rules} {cs : List Char} {cut : Cut}

theorem blockComment_sheltered (h : r.OneLine) {opener closer : List Char}
    (hmem : (opener, closer) ∈ r.blockComments) (hopener : opener.isPrefixOf cs = true) :
    Sheltered [r.shelters] (blockComment opener closer cs).text := by
  have hshelter : opener ∈ r.shelters :=
    List.mem_append_left _ (List.mem_map.mpr ⟨_, hmem, rfl⟩)
  have hline := h.blockComments _ hmem
  unfold blockComment
  split
  · exact (sheltered_nil _).behind hshelter hline
  · rw [← append_drop_of_isPrefixOf hopener]
    exact (sheltered_nil _).behind hshelter hline

/-- **A comment that goes beyond its line says so at its beginning**, whether it is closed or
not. -/
theorem comment?_sheltered (h : r.OneLine) (hcut : comment? r cs = some cut) :
    Sheltered [r.shelters] cut.text := by
  unfold comment? at hcut
  split at hcut
  · rename_i line opener closer _ hblock
    split at hcut <;> cases hcut
    · exact blockComment_sheltered h (longest?_mem hblock) (longest?_isPrefixOf hblock).2
    · exact (lineComment_oneLine cs).sheltered
  · cases hcut
    exact (lineComment_oneLine cs).sheltered
  · rename_i opener closer _ hblock
    cases hcut
    exact blockComment_sheltered h (longest?_mem hblock) (longest?_isPrefixOf hblock).2
  · cases hcut

end Plain

/-- The texts of the family of languages with curly braces hold no line end. -/
theorem oneLine_curlyBrace : (Rules.ofConfig Config.curlyBrace).OneLine := by
  constructor
  case startsWord | continuesWord =>
    intro c hc
    rcases Text.isLineEnd_iff.mp hc with rfl | rfl <;> decide
  case punctuation | operators | blockComments | numberPrefixes => decide
  case multilineDelimiter => decide
  case doubleSuffix => simp [Rules.ofConfig, Config.curlyBrace]
  case floatSuffix | escapeChar | interpolationChar | stringDelimiter =>
    intro c hc
    cases hc
    rfl

end Lossless
