import Lossless.Proofs.Separation
import Lossless.Calculator
import Mathlib.Data.List.TakeWhile

/-!
# Words, numbers and characters

The atoms of an expression, character by character: names, truth values, characters, and
numbers in four bases, with fractions, exponents and a suffix (`IsAtom`).

Each of them is **read as one token of its kind and nothing else** (`IsAtom.lexemes_eq`).  No
mark of the language and no blank begins with a character that begins an atom, so the rule for
words, numbers or characters is the first to apply; and it takes the whole text, because each
part of a number ends where the next one begins.
-/

namespace Lossless

namespace Text.CodeSet

/-- The stretches of members between two points at which membership changes. -/
def ranges : List Nat → List (Nat × Nat)
  | first :: after :: bounds => (first, after) :: ranges bounds
  | _ => []

/-- A member lies in one of the stretches, if the last of them ends. -/
theorem exists_range {x : Nat} {bounds : List Nat} (h : member x bounds false = true)
    (heven : bounds.length % 2 = 0) : ∃ range ∈ ranges bounds, range.1 ≤ x ∧ x < range.2 := by
  match bounds with
  | [] => cases h
  | [_] => cases heven
  | first :: after :: bounds =>
      simp only [List.length_cons] at heven
      simp only [member, Bool.not_false, Bool.not_true] at h
      split at h
      · cases h
      · split at h
        · exact ⟨(first, after), List.mem_cons_self, by omega, by omega⟩
        · obtain ⟨range, hrange, hmem⟩ := exists_range h (by omega)
          exact ⟨range, List.mem_cons_of_mem _ hrange, hmem⟩

end Text.CodeSet

namespace Calculator

/-- The rules by which programs are read. -/
abbrev rules : Rules := Rules.ofConfig config

/-! ## The texts of atoms -/

/-- Digits of a base: one digit, and then digits and underscores. -/
def IsDigits (base : IntegerBase) : List Char → Prop
  | [] => False
  | c :: cs => base.isDigit c = true ∧ ∀ d ∈ cs, Number.continues base d = true

instance (base : IntegerBase) : DecidablePred (IsDigits base)
  | [] => .isFalse id
  | c :: cs => decidable_of_iff ((base.isDigit c && cs.all (Number.continues base)) = true)
      (by simp [IsDigits])

/-- Nothing, or a point and digits. -/
def IsFraction (cs : List Char) : Prop :=
  cs = [] ∨ ∃ ds, cs = '.' :: ds ∧ IsDigits .dec ds

/-- Nothing, or a letter, a sign if there is one, and digits. -/
def IsExponent (cs : List Char) : Prop :=
  cs = [] ∨ ∃ e sign ds, cs = e :: (sign ++ ds) ∧ e ∈ ['e', 'E'] ∧ sign ∈ [[], ['+'], ['-']] ∧
    IsDigits .dec ds

/-- A character that needs no escape, or an escape and a character. -/
def IsCharBody (cs : List Char) : Prop :=
  (∃ c, cs = [c] ∧ c ≠ '\\' ∧ c ≠ '\'' ∧ Text.isLineEnd c = false) ∨
    ∃ c, cs = ['\\', c] ∧ Text.isLineEnd c = false

/-- The kind of a decimal number, by what follows its first digits. -/
def decimalKind (fraction exponent suffix : List Char) : TokenKind :=
  if !suffix.isEmpty then .literal (.floating .float)
  else if fraction.isEmpty && exponent.isEmpty then .literal (.integer .dec)
  else .literal (.floating .double)

/-- The tokens that are atoms, with the kinds of elements that they make. -/
inductive IsAtom : Lexeme → Kind → Prop
  | name {c : Char} {cs : List Char} (hfirst : rules.startsWord c = true)
      (hrest : ∀ d ∈ cs, rules.continuesWord d = true) (hword : rules.isKeyword (c :: cs) = false) :
      IsAtom ⟨.identifier, c :: cs⟩ .name
  | truth {text : String} (htext : text ∈ ["true", "false"]) : IsAtom ⟨.keyword, text.toList⟩ .bool
  | char {cs : List Char} (hbody : IsCharBody cs) :
      IsAtom ⟨.literal .char, '\'' :: cs ++ ['\'']⟩ .char
  | prefixed {mark ds : List Char} {base : IntegerBase} (hmark : (mark, base) ∈ rules.numberPrefixes)
      (hds : IsDigits base ds) : IsAtom ⟨.literal (.integer base), mark ++ ds⟩ .number
  | decimal {whole fraction exponent suffix : List Char} (hwhole : IsDigits .dec whole)
      (hfraction : IsFraction fraction) (hexponent : IsExponent exponent)
      (hsuffix : suffix ∈ [[], ['f']]) :
      IsAtom ⟨decimalKind fraction exponent suffix,
        whole ++ (fraction ++ (exponent ++ suffix))⟩ .number

/-- The kind of element that a token makes as an atom. -/
def atomKind? (l : Lexeme) : Option Kind :=
  match l.kind with
  | .identifier => some .name
  | .literal .char => some .char
  | .literal (.integer _) | .literal (.floating _) => some .number
  | .keyword => if l.text = "true".toList ∨ l.text = "false".toList then some .bool else none
  | _ => none

theorem IsAtom.admitted {l : Lexeme} {kind : Kind} (h : IsAtom l kind) :
    atomKind? l = some kind := by
  cases h with
  | name | char | prefixed => rfl
  | @truth text htext =>
      revert text
      decide
  | @decimal whole fraction exponent suffix =>
      rw [decimalKind]
      cases suffix.isEmpty <;> cases fraction.isEmpty && exponent.isEmpty <;> rfl

/-! ## Where atoms begin -/

/-- Whether an atom begins with a character. -/
def opensAtom (c : Char) : Bool :=
  rules.startsWord c || c.isDigit || c == '\''

theorem mem_digits {c : Char} (h : c.isDigit = true) : c ∈ "0123456789".toList := by
  simp only [Char.isDigit, Bool.and_eq_true, decide_eq_true_eq] at h
  obtain ⟨hlow, hhigh⟩ := h
  have hcode : c.toNat ∈ List.range' 48 10 := by
    rw [List.mem_range'_1]
    exact ⟨hlow, Nat.lt_succ_of_le hhigh⟩
  rw [← Char.ofNat_toNat c]
  generalize c.toNat = n at hcode
  revert n
  decide

/-- No blank begins an atom. -/
theorem isBlank_of_opensAtom {c : Char} (h : opensAtom c = true) : Text.isBlank c = false := by
  have htable : ∀ range ∈ Text.CodeSet.ranges Text.whiteSpace.bounds,
      ∀ n ∈ List.range' range.1 (range.2 - range.1), opensAtom (Char.ofNat n) = false := by
    decide +kernel
  rw [Bool.eq_false_iff]
  intro hblank
  obtain ⟨range, hrange, hlow, hhigh⟩ := Text.CodeSet.exists_range hblank (by decide)
  have hnot := htable range hrange c.toNat (by rw [List.mem_range'_1]; omega)
  rw [Char.ofNat_toNat, h] at hnot
  cases hnot

/-- The marks that open trivia and strings. -/
def openers : List (List Char) :=
  rules.lineComments ++ rules.blockComments.map Prod.fst ++ rules.multilineDelimiter.toList ++
    rules.stringDelimiter.toList.map ([·])

theorem opensAtom_openers : ∀ mark ∈ openers, mark.head?.any opensAtom = false := by
  decide +kernel

/-- No entry counts with which the text does not begin. -/
theorem longest?_eq_none {α : Type} {key : α → List Char} {as : List α}
    {cs : List Char} (h : ∀ a ∈ as, (key a).isPrefixOf cs = false ∨ key a = []) :
    longest? key cs as = none := by
  induction as with
  | nil => rfl
  | cons a as ih =>
      have hrest := ih (fun b hb => h b (List.mem_cons_of_mem _ hb))
      rcases h a List.mem_cons_self with hnot | hnil
      · simp [longest?, hnot, hrest]
      · simp [longest?, hnil, hrest]

theorem isPrefixOf_eq_false {mark : List Char} {c : Char} (hne : mark ≠ [])
    (h : mark.head? ≠ some c) (cs : List Char) : mark.isPrefixOf (c :: cs) = false := by
  cases mark with
  | nil => exact absurd rfl hne
  | cons d ds =>
      have hd : d ≠ c := fun heq => h (congrArg some heq)
      simp [List.isPrefixOf, hd]

theorem longest?_eq_none_of_head {α : Type} (key : α → List Char) {as : List α} {c : Char}
    (h : ∀ a ∈ as, (key a).head? ≠ some c) (cs : List Char) : longest? key (c :: cs) as = none := by
  apply longest?_eq_none
  intro a ha
  cases hkey : key a with
  | nil => exact Or.inr rfl
  | cons d ds => exact Or.inl (isPrefixOf_eq_false (by simp) (hkey ▸ h a ha) cs)

/-- **Where an atom begins there is neither trivia nor a string.** -/
theorem isPlainAt_of_opensAtom {c : Char} (h : opensAtom c = true) (cs : List Char) :
    rules.IsPlainAt c cs := by
  have hblank := isBlank_of_opensAtom h
  have hhead : ∀ mark ∈ openers, mark.head? ≠ some c := by
    intro mark hmark heq
    have hnot := opensAtom_openers mark hmark
    rw [heq, Option.any_some, h] at hnot
    cases hnot
  simp only [openers, List.forall_mem_append, List.forall_mem_map] at hhead
  obtain ⟨⟨⟨hline, hblock⟩, hmulti⟩, hstring⟩ := hhead
  refine ⟨?_, by simp [Text.isInlineBlank, hblank], ?_, ?_⟩
  · rw [Bool.eq_false_iff]
    intro hends
    rw [Text.isBlank_of_isLineEnd hends] at hblank
    cases hblank
  · rw [Plain.comment?, longest?_eq_none_of_head id hline, longest?_eq_none_of_head Prod.fst hblock]
  · have hmark : (rules.multilineDelimiter.filter
        fun d => !d.isEmpty && d.isPrefixOf (c :: cs)) = none := by
      rw [Option.filter_eq_none_iff]
      intro mark hmark
      cases hempty : mark.isEmpty with
      | true => simp
      | false =>
          have hne : mark ≠ [] := by simpa using hempty
          simp [isPrefixOf_eq_false hne (hmulti mark (Option.mem_toList.mpr hmark))]
    have hquote : (rules.stringDelimiter.filter fun d => (c :: cs).head? == some d) = none := by
      rw [Option.filter_eq_none_iff]
      intro quote hmark heq
      exact hstring quote (Option.mem_toList.mpr hmark) (beq_iff_eq.mp heq).symm
    rw [opening?, hmark, hquote]

theorem lexemes_eq_of_token {c : Char} {cs : List Char} {kind : TokenKind}
    (hopens : opensAtom c = true) (h : Plain.token rules c cs = ⟨kind, c :: cs, []⟩) :
    lexemes rules (c :: cs) = [⟨kind, c :: cs⟩] := by
  obtain ⟨block, _, hlexemes⟩ := lexemes_cons rules c cs
  rw [hlexemes, (isPlainAt_of_opensAtom hopens cs).lexemesAt_eq, h]
  show [_] ++ (tokensIn rules (some block) .top cs.length 0 []).lexemes = _
  rw [tokensIn_nil]
  rfl

/-! ## Words and characters -/

/-- A word is neither a number nor a symbol nor a character. -/
theorem token_word {c : Char} {cs : List Char} (hfirst : rules.startsWord c = true)
    (hrest : ∀ d ∈ cs, rules.continuesWord d = true) (hword : rules.isKeyword (c :: cs) = false) :
    Plain.token rules c cs = ⟨.identifier, c :: cs, []⟩ := by
  have hchar : ¬ rules.charDelimiter = some c := by
    have hquote : rules.charDelimiter.any rules.startsWord = false := by decide +kernel
    intro heq
    rw [heq, Option.any_some, hfirst] at hquote
    cases hquote
  have hdigit : c.isDigit = false := by
    have hdigits : "0123456789".toList.any rules.startsWord = false := by decide +kernel
    rw [Bool.eq_false_iff]
    intro heq
    exact List.any_eq_false.mp hdigits c (mem_digits heq) hfirst
  have hsymbol : Plain.symbol? rules (c :: cs) = none := by
    have hmarks : ∀ mark ∈ rules.punctuation ++ rules.operators,
        mark.head?.any rules.startsWord = false := by decide +kernel
    have hhead : ∀ mark ∈ rules.punctuation ++ rules.operators, mark.head? ≠ some c := by
      intro mark hmark heq
      have hnot := hmarks mark hmark
      rw [heq, Option.any_some, hfirst] at hnot
      cases hnot
    rw [List.forall_mem_append] at hhead
    rw [Plain.symbol?, longest?_eq_none_of_head id hhead.1, longest?_eq_none_of_head id hhead.2]
  have htake : cs.takeWhile rules.continuesWord = cs := List.takeWhile_eq_self_iff.mpr hrest
  have hdrop : cs.dropWhile rules.continuesWord = [] := List.dropWhile_eq_nil_iff.mpr hrest
  simp [Plain.token, hchar, Plain.other, hdigit, hsymbol, hfirst, Plain.word, htake, hdrop, hword]

theorem token_char {cs : List Char} (h : IsCharBody cs) :
    Plain.token rules '\'' (cs ++ ['\'']) = ⟨.literal .char, '\'' :: cs ++ ['\''], []⟩ := by
  have hdelimiter : rules.charDelimiter = some '\'' := rfl
  have hescape : rules.escapeChar = some '\\' := rfl
  obtain ⟨c, rfl, hplain, hquote, hline⟩ | ⟨c, rfl, hline⟩ := h
  · simp [Plain.token, hdelimiter, Plain.charLiteral, Plain.charBody, hescape, hplain, hquote, hline]
  · simp [Plain.token, hdelimiter, Plain.charLiteral, Plain.charBody, hescape, hline]

/-! ## Numbers -/

/-- Digits end in front of a character that does not go on with them. -/
theorem IsDigits.digits_append {base : IntegerBase} {ds : List Char} (h : IsDigits base ds)
    {rest : List Char} (hrest : ∀ c ∈ rest.head?, Number.continues base c = false) :
    Number.digits base (ds ++ rest) = (ds, rest) := by
  cases ds with
  | nil => cases h
  | cons d ds =>
      obtain ⟨hd, hds⟩ := h
      have hstop : rest.takeWhile (Number.continues base) = [] ∧
          rest.dropWhile (Number.continues base) = rest := by
        cases rest with
        | nil => exact ⟨rfl, rfl⟩
        | cons c cs => simp [hrest c rfl]
      simp [Number.digits, hd, List.takeWhile_append_of_pos hds, List.dropWhile_append_of_pos hds,
        hstop.1, hstop.2]

theorem IsDigits.startsWithDigit_append {ds : List Char} (h : IsDigits .dec ds)
    (rest : List Char) : Number.startsWithDigit (ds ++ rest) = true := by
  cases ds with
  | nil => cases h
  | cons d ds => exact h.1

/-- Behind a part of a decimal number the next part or the suffix begins. -/
theorem continues_dec_eq_false {c : Char} (h : c ∈ ['.', 'e', 'E', 'f']) :
    Number.continues .dec c = false := by
  have hnone : ['.', 'e', 'E', 'f'].any (Number.continues .dec) = false := by decide
  simpa using List.any_eq_false.mp hnone c h

theorem IsFraction.fraction_append {cs : List Char} (h : IsFraction cs) {rest : List Char}
    (hrest : ∀ c ∈ rest.head?, c ∈ ['e', 'E', 'f']) :
    Number.fraction (cs ++ rest) = (cs, rest) := by
  obtain rfl | ⟨ds, rfl, hds⟩ := h
  · rw [List.nil_append]
    unfold Number.fraction
    split
    · exact absurd (hrest '.' rfl) (by decide)
    · rfl
  · have hdigits := hds.digits_append fun c hc =>
      continues_dec_eq_false (List.mem_cons_of_mem _ (hrest c hc))
    simp [Number.fraction, hds.startsWithDigit_append, hdigits]

/-- With a fraction a point comes first. -/
theorem IsFraction.head_append {cs : List Char} (h : IsFraction cs) {rest : List Char}
    (hrest : ∀ c ∈ rest.head?, c ∈ ['e', 'E', 'f']) :
    ∀ c ∈ (cs ++ rest).head?, c ∈ ['.', 'e', 'E', 'f'] := by
  intro c hc
  obtain rfl | ⟨ds, rfl, _⟩ := h
  · exact List.mem_cons_of_mem _ (hrest c hc)
  · obtain rfl := Option.some.inj hc
    exact List.mem_cons_self

theorem IsDigits.sign_append {ds : List Char} (h : IsDigits .dec ds) {sign : List Char}
    (hsign : sign ∈ [[], ['+'], ['-']]) (rest : List Char) :
    Number.sign (sign ++ ds ++ rest) = (sign, ds ++ rest) := by
  simp only [List.mem_cons, List.not_mem_nil, or_false] at hsign
  obtain rfl | rfl | rfl := hsign
  · cases ds with
    | nil => cases h
    | cons d ds =>
        have hplus : d ≠ '+' := by
          rintro rfl
          cases h.1
        have hminus : d ≠ '-' := by
          rintro rfl
          cases h.1
        simp [Number.sign, hplus, hminus]
  · rfl
  · rfl

theorem mem_suffix {suffix : List Char} (h : suffix ∈ [[], ['f']]) {c : Char}
    (hc : c ∈ suffix.head?) : c ∈ ['f'] := by
  simp only [List.mem_cons, List.not_mem_nil, or_false] at h
  obtain rfl | rfl := h
  · cases hc
  · obtain rfl := Option.some.inj hc
    exact List.mem_cons_self

theorem IsExponent.exponent_append {cs : List Char} (h : IsExponent cs) {suffix : List Char}
    (hsuffix : suffix ∈ [[], ['f']]) : Number.exponent (cs ++ suffix) = (cs, suffix) := by
  have hrest : ∀ c ∈ suffix.head?, Number.continues .dec c = false :=
    fun c hc => continues_dec_eq_false (List.mem_append_right ['.', 'e', 'E'] (mem_suffix hsuffix hc))
  obtain rfl | ⟨e, sign, ds, rfl, he, hsign, hds⟩ := h
  · simp only [List.mem_cons, List.not_mem_nil, or_false] at hsuffix
    obtain rfl | rfl := hsuffix <;> rfl
  · have hsigned := hds.sign_append hsign suffix
    have hletter : (e == 'e' || e == 'E') = true := by simpa using he
    simp only [List.cons_append, Number.exponent, hletter, if_true, hsigned,
      hds.startsWithDigit_append, hds.digits_append hrest]

theorem IsExponent.head_append {cs : List Char} (h : IsExponent cs) {suffix : List Char}
    (hsuffix : suffix ∈ [[], ['f']]) : ∀ c ∈ (cs ++ suffix).head?, c ∈ ['e', 'E', 'f'] := by
  intro c hc
  obtain rfl | ⟨e, sign, ds, rfl, he, _, _⟩ := h
  · exact List.mem_append_right ['e', 'E'] (mem_suffix hsuffix hc)
  · obtain rfl := Option.some.inj hc
    exact List.mem_append_left ['f'] he

/-- The letters in the prefixes of bases. -/
def prefixLetters : List Char := ['x', 'X', 'b', 'B', 'o', 'O']

/-- No decimal number has such a letter behind its first digit. -/
theorem not_continues_prefixLetters {c : Char} (h : c ∈ prefixLetters) :
    Number.continues .dec c = false ∧ c ∉ ['.', 'e', 'E', 'f'] := by
  have hnone : prefixLetters.any
      (fun c => Number.continues .dec c || ['.', 'e', 'E', 'f'].contains c) = false := by
    decide
  simpa using List.any_eq_false.mp hnone c h

section Decimals

variable {whole fraction exponent suffix : List Char} (hwhole : IsDigits .dec whole)
  (hfraction : IsFraction fraction) (hexponent : IsExponent exponent)
  (hsuffix : suffix ∈ [[], ['f']])
include hwhole hfraction hexponent hsuffix

/-- A decimal number is read part by part. -/
theorem decimal_append :
    Number.decimal rules (whole ++ (fraction ++ (exponent ++ suffix))) =
      ⟨decimalKind fraction exponent suffix, whole ++ (fraction ++ (exponent ++ suffix)), []⟩ := by
  have hhead := hexponent.head_append hsuffix
  have hdigits := hwhole.digits_append fun c hc =>
    continues_dec_eq_false (hfraction.head_append hhead c hc)
  simp only [Number.decimal, hdigits, hfraction.fraction_append hhead,
    hexponent.exponent_append hsuffix]
  simp only [List.mem_cons, List.not_mem_nil, or_false] at hsuffix
  obtain rfl | rfl := hsuffix
  · simp only [Number.suffix?, Number.standalone?, decimalKind, List.append_nil, List.append_assoc]
    cases fraction.isEmpty && exponent.isEmpty <;> rfl
  · simp only [List.append_assoc]
    rfl

/-- A decimal number begins with no prefix of a base. -/
theorem cut_decimal :
    Number.cut rules (whole ++ (fraction ++ (exponent ++ suffix))) =
      ⟨decimalKind fraction exponent suffix, whole ++ (fraction ++ (exponent ++ suffix)), []⟩ := by
  have hmarks : ∀ entry ∈ rules.numberPrefixes, entry.1 ∈ prefixLetters.map (['0', ·]) := by
    decide +kernel
  have hnone : longest? Prod.fst (whole ++ (fraction ++ (exponent ++ suffix)))
      rules.numberPrefixes = none := by
    apply longest?_eq_none
    intro entry hentry
    obtain ⟨c, hc, hmark⟩ := List.mem_map.mp (hmarks entry hentry)
    obtain ⟨hdigit, hbehind⟩ := not_continues_prefixLetters hc
    refine Or.inl ?_
    rw [← hmark, Bool.eq_false_iff, Ne, List.isPrefixOf_iff_prefix]
    rintro ⟨tail, htail⟩
    match whole, hwhole with
    | [_], _ =>
        have hrest : c :: tail = fraction ++ (exponent ++ suffix) := (List.cons.inj htail).2
        exact hbehind (hfraction.head_append (hexponent.head_append hsuffix) c
          (by rw [← hrest]; rfl))
    | _ :: d :: _, ⟨_, hds⟩ =>
        obtain ⟨_, hrest⟩ := List.cons.inj htail
        obtain ⟨rfl, _⟩ := List.cons.inj hrest
        rw [hds c List.mem_cons_self] at hdigit
        cases hdigit
  rw [Number.cut, hnone]
  exact decimal_append hwhole hfraction hexponent hsuffix

end Decimals

/-- The prefixes of bases in the language. -/
theorem numberPrefixes_eq : rules.numberPrefixes =
    [(['0', 'x'], .hex), (['0', 'X'], .hex), (['0', 'b'], .bin), (['0', 'B'], .bin),
      (['0', 'o'], .oct), (['0', 'O'], .oct)] := by
  decide +kernel

/-- A number behind the prefix of its base. -/
theorem cut_prefixed {mark ds : List Char} {base : IntegerBase}
    (hmark : (mark, base) ∈ rules.numberPrefixes) (hds : IsDigits base ds) :
    Number.cut rules (mark ++ ds) = ⟨.literal (.integer base), mark ++ ds, []⟩ := by
  have hlongest : longest? Prod.fst (mark ++ ds) rules.numberPrefixes = some (mark, base) := by
    rw [numberPrefixes_eq] at hmark ⊢
    simp only [List.mem_cons, Prod.mk.injEq, List.not_mem_nil, or_false] at hmark
    rcases hmark with ⟨rfl, rfl⟩ | ⟨rfl, rfl⟩ | ⟨rfl, rfl⟩ | ⟨rfl, rfl⟩ | ⟨rfl, rfl⟩ | ⟨rfl, rfl⟩ <;>
      simp [longest?, List.isPrefixOf]
  have hdigits : Number.digits base ds = (ds, []) := by
    have hend : ∀ c ∈ ([] : List Char).head?, Number.continues base c = false := by simp
    simpa using hds.digits_append hend
  rw [Number.cut, hlongest]
  simp only [Number.prefixed, List.drop_left, hdigits]
  cases ds with
  | nil => cases hds
  | cons d ds => rfl

/-- What begins with a digit is read as a number. -/
theorem lexemes_eq_of_cut {c : Char} {cs : List Char} {kind : TokenKind} (hdigit : c.isDigit = true)
    (h : Number.cut rules (c :: cs) = ⟨kind, c :: cs, []⟩) :
    lexemes rules (c :: cs) = [⟨kind, c :: cs⟩] := by
  refine lexemes_eq_of_token (by simp [opensAtom, hdigit]) ?_
  have hchar : ¬ rules.charDelimiter = some c := by
    have hquote : rules.charDelimiter.any Char.isDigit = false := by decide +kernel
    intro heq
    rw [heq, Option.any_some, hdigit] at hquote
    cases hquote
  simp [Plain.token, hchar, Plain.other, hdigit, h]

/-- **An atom is read as one token.** -/
theorem IsAtom.lexemes_eq {l : Lexeme} {kind : Kind} (h : IsAtom l kind) :
    lexemes rules l.text = [l] := by
  cases h with
  | name hfirst hrest hword =>
      exact lexemes_eq_of_token (by simp [opensAtom, hfirst]) (token_word hfirst hrest hword)
  | @truth text htext =>
      have htruth : ∀ text ∈ ["true", "false"],
          lexemes rules text.toList = [⟨.keyword, text.toList⟩] := by
        decide +kernel
      exact htruth text htext
  | char hbody => exact lexemes_eq_of_token rfl (token_char hbody)
  | @prefixed mark ds base hmark hds =>
      have hfirst : ∀ entry ∈ rules.numberPrefixes, entry.1.head?.any Char.isDigit = true := by
        decide +kernel
      obtain ⟨d, hhead, hdigit⟩ := (Option.any_eq_true _ _).mp (hfirst _ hmark)
      have hcut := cut_prefixed hmark hds
      obtain ⟨tail, rfl⟩ := List.head?_eq_some_iff.mp hhead
      exact lexemes_eq_of_cut hdigit hcut
  | @decimal whole fraction exponent suffix hwhole hfraction hexponent hsuffix =>
      have hcut := cut_decimal hwhole hfraction hexponent hsuffix
      cases whole with
      | nil => cases hwhole
      | cons d ds => exact lexemes_eq_of_cut hwhole.1 hcut

end Calculator

end Lossless
