import Lossless.Proofs.Atoms
import Lossless.Proofs.RulePriority
import Lossless.Proofs.Steps
import Lossless.Proofs.Windows
import Mathlib.Computability.Language

/-!
# The languages of numbers

For every kind of number there is a regular language (`integerLanguage`, `floatingLanguage`),
built from classes of characters by union, concatenation and repetition, with no mention of how
numbers are read.  **A text is read as one number of a kind exactly if it is a word of the
language of that kind** (`tokenize_eq_number_iff`).

The two sides meet in the shape of numbers, `IsAtom`.  Words of a language have the shape, and
what has the shape belongs to the language of its kind; that is a matter of taking texts apart.
What has the shape is read as one number, as atoms are; and only the rule for numbers reads
numbers, and what it cuts off has the shape (`IsAtom.of_cut`).
-/

namespace Lossless

open scoped Computability

/-! ## Languages -/

/-- The words of one character, taken from a list. -/
def oneOf (chars : String) : Language Char :=
  {w | ∃ c ∈ chars.toList, w = [c]}

/-- The digits of a base. -/
def IntegerBase.digits : IntegerBase → String
  | dec => "0123456789"
  | hex => "0123456789abcdefABCDEF"
  | bin => "01"
  | oct => "01234567"

/-- A digit, and then digits and underscores. -/
def digitRun (base : IntegerBase) : Language Char :=
  oneOf base.digits * (oneOf base.digits + oneOf "_")∗

/-- A letter, a sign if there is one, and digits. -/
def exponentPart : Language Char :=
  oneOf "eE" * (1 + oneOf "+-") * digitRun .dec

/-- Decimal numbers with a fraction or an exponent. -/
def fractional : Language Char :=
  digitRun .dec * oneOf "." * digitRun .dec * (1 + exponentPart) + digitRun .dec * exponentPart

/-- What tells a base from the others: nothing for decimal numbers, else a zero and a letter. -/
def baseMark : IntegerBase → Language Char
  | .dec => 1
  | .hex => oneOf "0" * oneOf "xX"
  | .bin => oneOf "0" * oneOf "bB"
  | .oct => oneOf "0" * oneOf "oO"

/-- The integers of a base. -/
def integerLanguage (base : IntegerBase) : Language Char :=
  baseMark base * digitRun base

/-- The floating-point numbers of a precision. -/
def floatingLanguage : Precision → Language Char
  | .double => fractional
  | .float => (digitRun .dec + fractional) * oneOf "f"

theorem mem_oneOf {chars : String} {w : List Char} :
    w ∈ oneOf chars ↔ ∃ c ∈ chars.toList, w = [c] :=
  Iff.rfl

/-- Repetitions of words of one character. -/
theorem mem_kstar_iff_forall {l : Language Char} {p : Char → Prop}
    (h : ∀ w, w ∈ l ↔ ∃ c, p c ∧ w = [c]) {w : List Char} : w ∈ l∗ ↔ ∀ c ∈ w, p c := by
  rw [Language.mem_kstar]
  constructor
  · rintro ⟨ws, rfl, hws⟩ c hc
    obtain ⟨v, hv, hcv⟩ := List.mem_flatten.mp hc
    obtain ⟨d, hd, rfl⟩ := (h v).mp (hws v hv)
    exact List.mem_singleton.mp hcv ▸ hd
  · intro hw
    refine ⟨w.map ([·]), by rw [← List.flatMap_def, List.flatMap_singleton'], ?_⟩
    intro v hv
    obtain ⟨c, hc, rfl⟩ := List.mem_map.mp hv
    exact (h [c]).mpr ⟨c, hw c hc, rfl⟩

/-- All digits are among the first characters. -/
theorem toNat_lt_of_isDigit {base : IntegerBase} {c : Char} (h : base.isDigit c = true) :
    c.toNat < 128 := by
  cases base with
  | bin =>
      simp only [IntegerBase.isDigit, Bool.or_eq_true, beq_iff_eq] at h
      obtain rfl | rfl := h <;> decide
  | dec | hex | oct =>
      simp [IntegerBase.isDigit, Char.isDigit, Char.le_def, UInt32.le_iff_toNat_le] at h
      have hcode : c.toNat = c.val.toNat := rfl
      omega

/-- The digits of a base are the listed ones. -/
theorem isDigit_iff_mem {base : IntegerBase} {c : Char} :
    base.isDigit c = true ↔ c ∈ base.digits.toList := by
  have hlisted : (List.range 128).all (fun n =>
      !base.isDigit (Char.ofNat n) || base.digits.toList.contains (Char.ofNat n)) = true := by
    cases base <;> decide +kernel
  have hdigits : base.digits.toList.all base.isDigit = true := by
    cases base <;> decide +kernel
  refine ⟨fun h => ?_, List.all_eq_true.mp hdigits c⟩
  have hmem := List.all_eq_true.mp hlisted c.toNat (List.mem_range.mpr (toNat_lt_of_isDigit h))
  rw [Char.ofNat_toNat, h] at hmem
  simpa using hmem

namespace Calculator

/-- Runs of digits are the digits of numbers. -/
theorem mem_digitRun {base : IntegerBase} {w : List Char} :
    w ∈ digitRun base ↔ IsDigits base w := by
  have hletters : ∀ v, v ∈ oneOf base.digits + oneOf "_" ↔
      ∃ c, Number.continues base c = true ∧ v = [c] := by
    intro v
    simp only [Language.mem_add, mem_oneOf, ← isDigit_iff_mem, Number.continues]
    simp [or_and_right, exists_or]
  rw [digitRun, Language.mem_mul]
  simp only [mem_kstar_iff_forall hletters, mem_oneOf, ← isDigit_iff_mem]
  constructor
  · rintro ⟨_, ⟨c, hc, rfl⟩, cs, hcs, rfl⟩
    exact ⟨hc, hcs⟩
  · intro h
    cases w with
    | nil => cases h
    | cons c cs => exact ⟨[c], ⟨c, h.1, rfl⟩, cs, h.2, rfl⟩

/-- An optional sign. -/
theorem mem_sign {w : List Char} : w ∈ 1 + oneOf "+-" ↔ w ∈ [[], ['+'], ['-']] := by
  rw [Language.mem_add, Language.mem_one, mem_oneOf]
  simp

theorem mem_exponentPart {w : List Char} : w ∈ exponentPart ↔ w ≠ [] ∧ IsExponent w := by
  simp only [exponentPart, Language.mem_mul, mem_sign, mem_digitRun, mem_oneOf]
  constructor
  · rintro ⟨_, ⟨_, ⟨e, he, rfl⟩, sign, hsign, rfl⟩, ds, hds, rfl⟩
    exact ⟨by simp, Or.inr ⟨e, sign, ds, by simp, he, hsign, hds⟩⟩
  · rintro ⟨hne, rfl | ⟨e, sign, ds, rfl, he, hsign, hds⟩⟩
    · exact absurd rfl hne
    · exact ⟨e :: sign, ⟨[e], ⟨e, he, rfl⟩, sign, hsign, rfl⟩, ds, hds, rfl⟩

theorem mem_exponent {w : List Char} : w ∈ 1 + exponentPart ↔ IsExponent w := by
  rw [Language.mem_add, Language.mem_one, mem_exponentPart]
  constructor
  · rintro (rfl | h)
    · exact Or.inl rfl
    · exact h.2
  · intro h
    by_cases hw : w = []
    · exact Or.inl hw
    · exact Or.inr ⟨hw, h⟩

/-- Numbers with a fraction or an exponent, part by part. -/
theorem mem_fractional {w : List Char} :
    w ∈ fractional ↔ ∃ whole part exponent, w = whole ++ (part ++ exponent) ∧
      IsDigits .dec whole ∧ IsFraction part ∧ IsExponent exponent ∧ part ++ exponent ≠ [] := by
  rw [fractional, Language.mem_add]
  simp only [Language.mem_mul, mem_exponent, mem_exponentPart, mem_digitRun, mem_oneOf]
  constructor
  · rintro (⟨_, ⟨_, ⟨whole, hwhole, _, ⟨c, hc, rfl⟩, rfl⟩, ds, hds, rfl⟩, exponent, hexponent, rfl⟩ |
      ⟨whole, hwhole, exponent, ⟨hne, hexponent⟩, rfl⟩)
    · obtain rfl : c = '.' := by simpa using hc
      exact ⟨whole, '.' :: ds, exponent, by simp, hwhole, Or.inr ⟨ds, rfl, hds⟩, hexponent, by simp⟩
    · exact ⟨whole, [], exponent, rfl, hwhole, Or.inl rfl, hexponent, hne⟩
  · rintro ⟨whole, part, exponent, rfl, hwhole, rfl | ⟨ds, rfl, hds⟩, hexponent, hne⟩
    · exact Or.inr ⟨whole, hwhole, exponent, ⟨hne, hexponent⟩, rfl⟩
    · refine Or.inl ⟨whole ++ ['.'] ++ ds, ⟨whole ++ ['.'], ⟨whole, hwhole, ['.'], ?_, rfl⟩, ds, hds,
        rfl⟩, exponent, hexponent, by simp⟩
      exact ⟨'.', by simp, rfl⟩

/-- Decimal numbers without a suffix, part by part. -/
theorem mem_unsuffixed {w : List Char} :
    w ∈ digitRun .dec + fractional ↔ ∃ whole part exponent, w = whole ++ (part ++ exponent) ∧
      IsDigits .dec whole ∧ IsFraction part ∧ IsExponent exponent := by
  rw [Language.mem_add, mem_digitRun, mem_fractional]
  constructor
  · rintro (hw | ⟨whole, part, exponent, rfl, hwhole, hpart, hexponent, _⟩)
    · exact ⟨w, [], [], by simp, hw, Or.inl rfl, Or.inl rfl⟩
    · exact ⟨whole, part, exponent, rfl, hwhole, hpart, hexponent⟩
  · rintro ⟨whole, part, exponent, rfl, hwhole, hpart, hexponent⟩
    by_cases hne : part ++ exponent = []
    · exact Or.inl (by simpa [hne] using hwhole)
    · exact Or.inr ⟨whole, part, exponent, rfl, hwhole, hpart, hexponent, hne⟩

/-! ## The shape of numbers -/

/-- The prefixes of numbers are the marks of the bases. -/
theorem mem_numberPrefixes {mark : List Char} {base : IntegerBase} :
    (mark, base) ∈ rules.numberPrefixes ↔ base ≠ .dec ∧ mark ∈ baseMark base := by
  rw [numberPrefixes_eq]
  cases base with
  | dec => simp
  | hex | bin | oct =>
      simp only [baseMark, Language.mem_mul, mem_oneOf]
      simp [eq_comm]

/-- A decimal number without a suffix. -/
theorem isAtom_unsuffixed {whole fraction exponent : List Char} (hwhole : IsDigits .dec whole)
    (hfraction : IsFraction fraction) (hexponent : IsExponent exponent) :
    IsAtom ⟨decimalKind fraction exponent [], whole ++ (fraction ++ exponent)⟩ .number := by
  have hsuffix : [] ∈ [[], ['f']] := List.mem_cons_self
  have hatom := IsAtom.decimal hwhole hfraction hexponent hsuffix
  rwa [List.append_nil] at hatom

/-- A decimal number with a suffix. -/
theorem isAtom_suffixed {whole fraction exponent : List Char} (hwhole : IsDigits .dec whole)
    (hfraction : IsFraction fraction) (hexponent : IsExponent exponent) :
    IsAtom ⟨.literal (.floating .float), whole ++ (fraction ++ exponent) ++ ['f']⟩ .number := by
  have hsuffix : ['f'] ∈ [[], ['f']] := by simp
  simpa [decimalKind] using IsAtom.decimal hwhole hfraction hexponent hsuffix

theorem isAtom_integer_iff {base : IntegerBase} {w : List Char} :
    IsAtom ⟨.literal (.integer base), w⟩ .number ↔ w ∈ integerLanguage base := by
  rw [integerLanguage, Language.mem_mul]
  constructor
  · generalize hl : (⟨.literal (.integer base), w⟩ : Lexeme) = l
    intro h
    cases h with
    | @prefixed mark ds _ hmark hds =>
        simp only [Lexeme.mk.injEq, TokenKind.literal.injEq, LiteralKind.integer.injEq] at hl
        obtain ⟨rfl, rfl⟩ := hl
        exact ⟨mark, (mem_numberPrefixes.mp hmark).2, ds, mem_digitRun.mpr hds, rfl⟩
    | @decimal whole fraction exponent suffix hwhole hfraction hexponent hsuffix =>
        simp only [Lexeme.mk.injEq] at hl
        obtain ⟨hkind, rfl⟩ := hl
        cases suffix <;> cases fraction <;> cases exponent <;> cases hkind
        exact ⟨[], rfl, whole, mem_digitRun.mpr hwhole, by simp⟩
  · rintro ⟨mark, hmark, ds, hds, rfl⟩
    rw [mem_digitRun] at hds
    by_cases hbase : base = .dec
    · subst hbase
      obtain rfl : mark = [] := hmark
      simpa [decimalKind] using isAtom_unsuffixed hds (Or.inl rfl) (Or.inl rfl)
    · exact IsAtom.prefixed (mem_numberPrefixes.mpr ⟨hbase, hmark⟩) hds

theorem isAtom_floating_iff {precision : Precision} {w : List Char} :
    IsAtom ⟨.literal (.floating precision), w⟩ .number ↔ w ∈ floatingLanguage precision := by
  constructor
  · generalize hl : (⟨.literal (.floating precision), w⟩ : Lexeme) = l
    intro h
    cases h with
    | prefixed => cases hl
    | @decimal whole fraction exponent suffix hwhole hfraction hexponent hsuffix =>
        simp only [Lexeme.mk.injEq] at hl
        obtain ⟨hkind, rfl⟩ := hl
        simp only [List.mem_cons, List.not_mem_nil, or_false] at hsuffix
        obtain rfl | rfl := hsuffix
        · -- without a suffix there is a fraction or an exponent
          have hne : fraction ++ exponent ≠ [] := by
            intro hnil
            obtain ⟨rfl, rfl⟩ := List.append_eq_nil_iff.mp hnil
            cases hkind
          obtain rfl : precision = .double := by
            cases fraction <;> cases exponent <;> cases hkind <;> rfl
          exact mem_fractional.mpr
            ⟨whole, fraction, exponent, by simp, hwhole, hfraction, hexponent, hne⟩
        · obtain rfl : precision = .float := by
            cases hkind
            rfl
          rw [floatingLanguage, Language.mem_mul]
          exact ⟨whole ++ (fraction ++ exponent),
            mem_unsuffixed.mpr ⟨whole, fraction, exponent, rfl, hwhole, hfraction, hexponent⟩,
            ['f'], ⟨'f', by simp, rfl⟩, by simp⟩
  · intro h
    cases precision with
    | double =>
        obtain ⟨whole, part, exponent, rfl, hwhole, hpart, hexponent, hne⟩ := mem_fractional.mp h
        have hatom := isAtom_unsuffixed hwhole hpart hexponent
        have hkind : decimalKind part exponent [] = .literal (.floating .double) := by
          cases part <;> cases exponent <;> first | rfl | exact absurd rfl hne
        rwa [hkind] at hatom
    | float =>
        obtain ⟨v, hv, _, ⟨c, hc, rfl⟩, rfl⟩ := Language.mem_mul.mp h
        obtain ⟨whole, part, exponent, rfl, hwhole, hpart, hexponent⟩ := mem_unsuffixed.mp hv
        obtain rfl : c = 'f' := by simpa using hc
        exact isAtom_suffixed hwhole hpart hexponent

/-! ## What is read as a number -/

theorem isDigits_digits {base : IntegerBase} {cs : List Char}
    (h : (Number.digits base cs).1 ≠ []) : IsDigits base (Number.digits base cs).1 := by
  cases cs with
  | nil => exact absurd rfl h
  | cons c cs =>
      by_cases hc : base.isDigit c = true
      · simp only [Number.digits, hc, if_true, IsDigits, true_and]
        exact fun d hd => List.mem_takeWhile_imp hd
      · simp [Number.digits, hc] at h

/-- Where digits begin there are some. -/
theorem digits_ne_nil {cs : List Char} (h : Number.startsWithDigit cs = true) :
    (Number.digits .dec cs).1 ≠ [] := by
  cases cs with
  | nil => cases h
  | cons c cs =>
      have hc : IntegerBase.dec.isDigit c = true := h
      simp [Number.digits, hc]

theorem isFraction_fraction (cs : List Char) : IsFraction (Number.fraction cs).1 := by
  fun_cases Number.fraction cs with
  | case1 cs hdigit ds rest heq =>
      have hds := isDigits_digits (digits_ne_nil hdigit)
      rw [heq] at hds
      exact Or.inr ⟨ds, rfl, hds⟩
  | case2 | case3 => exact Or.inl rfl

theorem mem_signs (cs : List Char) : (Number.sign cs).1 ∈ [[], ['+'], ['-']] := by
  fun_cases Number.sign cs <;> simp

theorem isExponent_exponent (cs : List Char) : IsExponent (Number.exponent cs).1 := by
  fun_cases Number.exponent cs with
  | case2 e cs he sign unsigned hsign hdigit ds rest hdigits =>
      have hds := isDigits_digits (digits_ne_nil hdigit)
      have hmem := mem_signs cs
      rw [hdigits] at hds
      rw [hsign] at hmem
      exact Or.inr ⟨e, sign, ds, by simp, by simpa using he, hmem, hds⟩
  | case1 | case3 | case4 => exact Or.inl rfl

/-- The one suffix of the language. -/
theorem suffix_of_suffix? {cs : List Char} {precision : Precision}
    (h : Number.suffix? rules cs = some precision) : precision = .float ∧ cs.take 1 = ['f'] := by
  have hfloat : rules.floatSuffix = some 'f' := rfl
  have hdouble : rules.doubleSuffix = none := rfl
  simp only [Number.suffix?, hfloat, hdouble] at h
  cases hc : Number.standalone? rules cs with
  | none => simp [hc] at h
  | some c =>
      have hhead : cs.take 1 = [c] := by
        rcases cs with _ | ⟨d, _ | ⟨e, es⟩⟩
        · cases hc
        · simpa [Number.standalone?] using hc
        · simp only [Number.standalone?] at hc
          split at hc
          · cases hc
          · simpa using hc
      rw [hc] at h
      by_cases hf : c = 'f'
      · subst hf
        exact ⟨by simpa using h.symm, hhead⟩
      · simp [hf] at h

/-- A decimal number is digits, a fraction, an exponent and a suffix, which decide its kind. -/
theorem exists_decimal_eq {c : Char} (cs : List Char) (hdigit : c.isDigit = true) :
    ∃ whole fraction exponent suffix rest, IsDigits .dec whole ∧ IsFraction fraction ∧
      IsExponent exponent ∧ suffix ∈ [[], ['f']] ∧
      Number.decimal rules (c :: cs) = ⟨decimalKind fraction exponent suffix,
        whole ++ (fraction ++ (exponent ++ suffix)), rest⟩ := by
  have hstarts : Number.startsWithDigit (c :: cs) = true := hdigit
  have hwhole := isDigits_digits (digits_ne_nil hstarts)
  have hfraction := isFraction_fraction (Number.digits .dec (c :: cs)).2
  have hexponent := isExponent_exponent (Number.fraction (Number.digits .dec (c :: cs)).2).2
  simp only [Number.decimal]
  generalize (Number.fraction (Number.digits .dec (c :: cs)).2).2 = unread at hexponent ⊢
  cases hsuffix : Number.suffix? rules (Number.exponent unread).2 with
  | some precision =>
      obtain ⟨rfl, hf⟩ := suffix_of_suffix? hsuffix
      exact ⟨_, _, _, ['f'], (Number.exponent unread).2.drop 1, hwhole, hfraction, hexponent,
        by simp, by simp [hf, decimalKind]⟩
  | none =>
      refine ⟨_, _, _, [], (Number.exponent unread).2, hwhole, hfraction, hexponent, by simp, ?_⟩
      simp only [decimalKind, List.append_nil, List.append_assoc]
      split <;> simp_all

/-- **What is cut off as a number has the shape of one.** -/
theorem IsAtom.of_cut {c : Char} {cs : List Char} {cut : Cut} (hdigit : c.isDigit = true)
    (h : Number.cut rules (c :: cs) = cut) (hkind : cut.kind ≠ .error) :
    IsAtom cut.lexeme .number := by
  subst h
  unfold Number.cut at hkind ⊢
  split
  · rename_i mark base hmark
    simp only [hmark, Number.prefixed] at hkind ⊢
    split at hkind
    · exact absurd rfl hkind
    · rename_i ds tail hne hdigits
      have hds : IsDigits base ds := by
        have hrun : (Number.digits base ((c :: cs).drop mark.length)).1 = ds :=
          congrArg Prod.fst hdigits
        rw [← hrun] at hne ⊢
        exact isDigits_digits hne
      exact .prefixed (longest?_mem hmark) hds
  · obtain ⟨whole, fraction, exponent, suffix, rest, hwhole, hfraction, hexponent, hsuffix, heq⟩ :=
      exists_decimal_eq cs hdigit
    rw [heq]
    exact .decimal hwhole hfraction hexponent hsuffix

end Calculator

theorem Plain.charLiteral_isNumber (r : Rules) (delimiter : Char) (cs : List Char) :
    (charLiteral r delimiter cs).kind.isNumber = false := by
  simp only [charLiteral]
  split <;> rfl

/-- A number starts with a digit, and is cut off by the rule for numbers. -/
theorem Plain.Reads.of_isNumber {r : Rules} {c : Char} {cs : List Char} {cut : Cut}
    (h : Reads r c cs cut) (hnumber : cut.kind.isNumber = true) :
    c.isDigit = true ∧ cut = Number.cut r (c :: cs) := by
  cases h with
  | number hdigit => exact ⟨hdigit, rfl⟩
  | punctuation | operator | stray => cases hnumber
  | word =>
      simp only [Plain.word] at hnumber
      split at hnumber <;> cases hnumber

theorem TokenKind.isPlain_of_isNumber {kind : TokenKind} (h : kind.isNumber = true) :
    kind.isPlain = true := by
  unfold isNumber at h
  split at h
  · rfl
  · rfl
  · cases h

/-- Only the rule for numbers reads numbers. -/
theorem cut_of_isNumber {r : Rules} {block? : Option BlockScanner} {rounds : Nat} {c : Char}
    {cs : List Char} {l : Lexeme} (h : (lexemesAt r block? rounds c cs).1 = [l])
    (hnumber : l.kind.isNumber = true) : c.isDigit = true ∧ (Number.cut r (c :: cs)).lexeme = l := by
  have hplain := isPlainAt_of_lexemesAt h (TokenKind.isPlain_of_isNumber hnumber)
  rw [hplain.lexemesAt_eq] at h
  obtain rfl := (List.cons.inj h).1
  unfold Plain.token at hnumber ⊢
  by_cases hchar : (r.charDelimiter == some c) = true
  · simp [hchar, Cut.lexeme, Plain.charLiteral_isNumber] at hnumber
  · simp only [hchar, Bool.false_eq_true, if_false] at hnumber ⊢
    obtain ⟨hdigit, heq⟩ := (Plain.reads_other r c cs).of_isNumber hnumber
    exact ⟨hdigit, by rw [heq]⟩

namespace Calculator

/-- **A text is one number of a kind exactly if it has the shape of one.** -/
theorem lexemes_eq_number_iff {kind : TokenKind} (hnumber : kind.isNumber = true) (w : List Char) :
    lexemes rules w = [⟨kind, w⟩] ↔ IsAtom ⟨kind, w⟩ .number := by
  refine ⟨fun h => ?_, IsAtom.lexemes_eq⟩
  cases w with
  | nil => simp at h
  | cons c cs =>
      rw [lexemes_step] at h
      obtain ⟨_, hne⟩ := lexemesAtTop_split rules c cs
      have hone : (lexemesAtTop rules c cs).1 = [⟨kind, c :: cs⟩] := by
        obtain ⟨m, ms, hms⟩ := List.exists_cons_of_ne_nil hne
        rw [hms] at h ⊢
        obtain ⟨rfl, hnil⟩ := List.cons.inj h
        rw [(List.append_eq_nil_iff.mp hnil).1]
      obtain ⟨hdigit, hcut⟩ := cut_of_isNumber hone hnumber
      rw [← hcut]
      refine IsAtom.of_cut hdigit rfl ?_
      intro herror
      have hkind : (Number.cut rules (c :: cs)).kind = kind := congrArg Lexeme.kind hcut
      rw [← hkind, herror] at hnumber
      cases hnumber

end Calculator

/-! ## Tokens -/

/-- A text is one token exactly if it is read as one lexeme. -/
theorem tokenize_eq_singleton_iff {source : String} {config : Config} {kind : TokenKind}
    (hwhitespace : config.keepWhitespace = true) (hcomments : config.keepComments = true) :
    (tokenize source config none).map (fun t => (t.kind, t.text)) = [(kind, source), (.eof, "")] ↔
      lexemes (Rules.ofConfig config) source.toList = [⟨kind, source.toList⟩] := by
  have hkeeps : ∀ ts : List Token, ts.filter (fun t => config.keeps t.kind) = ts :=
    fun ts => List.filter_eq_self.mpr fun t _ => Config.keeps_eq_true hwhitespace hcomments t.kind
  have hmap : ∀ ls : List Lexeme, (Lexeme.placeFrom 0 ls).map (fun t => (t.kind, t.text)) =
      ls.map fun l => (l.kind, String.ofList l.text) := by
    intro ls
    conv_rhs => rw [← lexeme_placeFrom 0 ls]
    simp [Token.lexeme]
  rw [tokenize_whole, hkeeps, List.map_append, hmap]
  generalize lexemes (Rules.ofConfig config) source.toList = ls
  constructor
  · intro h
    have hends : ls.map (fun l => (l.kind, String.ofList l.text)) ++ [(.eof, "")] =
        [(kind, source)] ++ [(.eof, "")] := h
    obtain ⟨l, rfl, hl⟩ := List.map_eq_singleton_iff.mp (List.append_cancel_right hends)
    obtain ⟨hkind, htext⟩ := Prod.mk.inj hl
    rw [← hkind, ← htext, String.toList_ofList]
  · rintro rfl
    simp [Token.eof]

/-- **The language of each kind of number.**  A text is one token of a kind, with the end of the
input behind it, exactly if it is a word of the language of that kind. -/
theorem tokenize_eq_number_iff (source : String) :
    (∀ base, (tokenize source Config.curlyBrace none).map (fun t => (t.kind, t.text)) =
        [(.literal (.integer base), source), (.eof, "")] ↔
      source.toList ∈ integerLanguage base) ∧
    ∀ precision, (tokenize source Config.curlyBrace none).map (fun t => (t.kind, t.text)) =
        [(.literal (.floating precision), source), (.eof, "")] ↔
      source.toList ∈ floatingLanguage precision := by
  refine ⟨fun base => ?_, fun precision => ?_⟩
  · rw [tokenize_eq_singleton_iff rfl rfl, ← Calculator.isAtom_integer_iff]
    exact Calculator.lexemes_eq_number_iff rfl source.toList
  · rw [tokenize_eq_singleton_iff rfl rfl, ← Calculator.isAtom_floating_iff]
    exact Calculator.lexemes_eq_number_iff rfl source.toList

end Lossless
