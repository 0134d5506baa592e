import Lossless.Proofs.RulePriority

/-!
# The lists of a configuration are sets

A configuration lists its keywords, its symbols, its comments and its prefixes in some order, and
an entry may be listed twice.  Neither matters: **two configurations with the same entries read
every text into the same tokens** (`tokenize_eq_of_sameEntries`).

Words are looked up by membership.  Everything else is chosen by length among the entries that
begin the text (`longest?`), and two of these with one length are the same characters, so only
the choice among entries with the same key is left to the order (`longest?_eq_some_iff`).  For
prefixes of numbers, bases are tried in an order of their own.  For comments there is no such
order, which is why the closers of an opener must not differ.

The lexer asks a configuration a few questions and nothing else (`Rules.Agree`); where the answers
are the same, each of its functions gives the same.
-/

namespace Lossless

/-! ## The longest entry -/

section Longest

variable {α : Type} {key : α → List Char} {cs : List Char} {as bs : List α}

/-- **What the longest entry is**: it begins the text and is not empty, no entry that begins the
text is longer, and it is the first with its key. -/
theorem longest?_eq_some_iff {a : α} :
    longest? key cs as = some a ↔
      key a ≠ [] ∧ key a <+: cs ∧ (∀ b ∈ as, key b <+: cs → (key b).length ≤ (key a).length) ∧
        as.find? (fun b => key b == key a) = some a := by
  constructor
  · intro h
    obtain ⟨hne, hbegins⟩ := longest?_isPrefixOf h
    exact ⟨hne, List.isPrefixOf_iff_prefix.mp hbegins, fun b hb => length_le_of_longest? h hb,
      find?_of_longest? h⟩
  · rintro ⟨hne, hbegins, hlongest, hfind⟩
    have ha := List.mem_of_find?_eq_some hfind
    cases hchosen : longest? key cs as with
    | none => exact absurd (eq_nil_of_longest?_eq_none hchosen ha hbegins) hne
    | some b =>
        have hb := List.isPrefixOf_iff_prefix.mp (longest?_isPrefixOf hchosen).2
        have hlength : (key b).length = (key a).length :=
          Nat.le_antisymm (hlongest b (longest?_mem hchosen) hb)
            (length_le_of_longest? hchosen ha hbegins)
        -- of one length, both keys are the same beginning of the text
        have hkey : key b = key a :=
          (List.prefix_of_prefix_length_le hb hbegins hlength.le).eq_of_length hlength
        have hfirst := find?_of_longest? hchosen
        rw [hkey, hfind] at hfirst
        exact hfirst.symm

/-- The longest entry depends on the first entry with each key, and on nothing else. -/
theorem longest?_congr (h : ∀ k, as.find? (fun a => key a == k) = bs.find? (fun b => key b == k))
    (cs : List Char) : longest? key cs as = longest? key cs bs := by
  have hkeys : ∀ {as bs : List α},
      (∀ k, as.find? (fun a => key a == k) = bs.find? (fun b => key b == k)) →
      ∀ a ∈ as, ∃ b ∈ bs, key b = key a := by
    intro as bs h a ha
    have hsome : (as.find? fun b => key b == key a).isSome = true :=
      List.find?_isSome.mpr ⟨a, ha, by simp⟩
    rw [h (key a), List.find?_isSome] at hsome
    simpa using hsome
  have hbound : ∀ k : List Char, (∀ a ∈ as, key a <+: cs → (key a).length ≤ k.length) ↔
      ∀ b ∈ bs, key b <+: cs → (key b).length ≤ k.length := by
    intro k
    constructor
    · intro hle b hb hbegins
      obtain ⟨a, ha, hkey⟩ := hkeys (fun k => (h k).symm) b hb
      exact hkey ▸ hle a ha (hkey ▸ hbegins)
    · intro hle a ha hbegins
      obtain ⟨b, hb, hkey⟩ := hkeys h a ha
      exact hkey ▸ hle b hb (hkey ▸ hbegins)
  apply Option.ext
  intro a
  rw [longest?_eq_some_iff, longest?_eq_some_iff, hbound, h]

/-- Where a key occurs with one entry only, the first entry with it is the only one. -/
theorem find?_eq_of_mem_iff (hmem : ∀ a, a ∈ as ↔ a ∈ bs)
    (hkey : ∀ a ∈ as, ∀ b ∈ as, key a = key b → a = b) (k : List Char) :
    as.find? (fun a => key a == k) = bs.find? (fun b => key b == k) := by
  have hfind : ∀ {as bs : List α}, (∀ a, a ∈ as ↔ a ∈ bs) →
      (∀ a ∈ as, ∀ b ∈ as, key a = key b → a = b) → ∀ a, as.find? (fun a => key a == k) = some a →
      bs.find? (fun b => key b == k) = some a := by
    intro as bs hmem hkey a ha
    have hak : key a = k := by simpa using List.find?_some ha
    have has := List.mem_of_find?_eq_some ha
    cases hb : bs.find? (fun b => key b == k) with
    | none => simpa [hak] using List.find?_eq_none.mp hb a ((hmem a).mp has)
    | some b =>
        have hbk : key b = k := by simpa using List.find?_some hb
        have hbs := (hmem b).mpr (List.mem_of_find?_eq_some hb)
        rw [hkey b hbs a has (hbk.trans hak.symm)]
  have hkey' : ∀ a ∈ bs, ∀ b ∈ bs, key a = key b → a = b := fun a ha b hb =>
    hkey a ((hmem a).mpr ha) b ((hmem b).mpr hb)
  apply Option.ext
  exact fun a => ⟨hfind hmem hkey a, hfind (fun a => (hmem a).symm) hkey' a⟩

end Longest

/-! ## Rules that answer alike -/

/-- Two sets of rules give the same answers to all that the lexer asks. -/
structure Rules.Agree (r r' : Rules) : Prop where
  isKeyword : ∀ word, r.isKeyword word = r'.isKeyword word
  startsWord : ∀ c, r.startsWord c = r'.startsWord c
  continuesWord : r.continuesWord = r'.continuesWord
  punctuation : ∀ cs, longest? id cs r.punctuation = longest? id cs r'.punctuation
  operators : ∀ cs, longest? id cs r.operators = longest? id cs r'.operators
  lineComments : ∀ cs, longest? id cs r.lineComments = longest? id cs r'.lineComments
  blockComments : ∀ cs, longest? Prod.fst cs r.blockComments = longest? Prod.fst cs r'.blockComments
  numberPrefixes :
    ∀ cs, longest? Prod.fst cs r.numberPrefixes = longest? Prod.fst cs r'.numberPrefixes
  stringDelimiter : r.stringDelimiter = r'.stringDelimiter
  multilineDelimiter : r.multilineDelimiter = r'.multilineDelimiter
  charDelimiter : r.charDelimiter = r'.charDelimiter
  escapeChar : r.escapeChar = r'.escapeChar
  interpolationChar : r.interpolationChar = r'.interpolationChar
  floatSuffix : r.floatSuffix = r'.floatSuffix
  doubleSuffix : r.doubleSuffix = r'.doubleSuffix

namespace Rules.Agree

variable {r r' : Rules} (h : r.Agree r')
include h

theorem number (cs : List Char) : Number.cut r cs = Number.cut r' cs := by
  have halone : Number.standalone? r = Number.standalone? r' := by
    funext cs
    match cs with
    | [] | [_] => rfl
    | c :: d :: _ => simp only [Number.standalone?, h.continuesWord]
  have hsuffix : Number.suffix? r = Number.suffix? r' := by
    funext cs
    simp only [Number.suffix?, halone, h.floatSuffix, h.doubleSuffix]
  simp only [Number.cut, h.numberPrefixes, Number.decimal, hsuffix]

theorem word (c : Char) (cs : List Char) : Plain.word r c cs = Plain.word r' c cs := by
  simp only [Plain.word, h.continuesWord, h.isKeyword]

theorem other (c : Char) (cs : List Char) : Plain.other r c cs = Plain.other r' c cs := by
  have hsymbol : Plain.symbol? r (c :: cs) = Plain.symbol? r' (c :: cs) := by
    simp only [Plain.symbol?, h.punctuation, h.operators]
  simp only [Plain.other, h.number, hsymbol, h.startsWord, h.word]

theorem charLiteral (delimiter : Char) (cs : List Char) :
    Plain.charLiteral r delimiter cs = Plain.charLiteral r' delimiter cs := by
  have hbody : Plain.charBody r delimiter cs = Plain.charBody r' delimiter cs := by
    cases cs with
    | nil => rfl
    | cons c cs => simp only [Plain.charBody, h.escapeChar]
  simp only [Plain.charLiteral, hbody, h.escapeChar]

theorem comment? (cs : List Char) : Plain.comment? r cs = Plain.comment? r' cs := by
  simp only [Plain.comment?, h.lineComments, h.blockComments]

theorem interpolation? : interpolation? r = interpolation? r' := by
  funext blocks cs
  match cs with
  | [] | [_] => rfl
  | c :: d :: _ => simp only [Lossless.interpolation?, h.interpolationChar, h.startsWord]

theorem contentStops : contentStops r = contentStops r' := by
  funext blocks style delimiter cs
  cases cs with
  | nil => rfl
  | cons c cs => simp only [Lossless.contentStops, h.escapeChar, h.interpolation?]

/-- The same pieces are read behind the opening of a literal. -/
theorem pieces (block? : Option BlockScanner) (style : StringStyle) (delimiter : List Char)
    (rounds : Nat) (cs : List Char) :
    pieces r block? style delimiter rounds cs = pieces r' block? style delimiter rounds cs := by
  induction rounds generalizing cs with
  | zero => rfl
  | succ rounds ih =>
      match cs with
      | [] => rfl
      | [c] =>
          simp only [Lossless.pieces, h.escapeChar, h.interpolation?, h.contentStops, ih]
      | c :: d :: cs =>
          simp only [Lossless.pieces, h.escapeChar, h.interpolation?, h.contentStops, h.word, ih]

theorem lexemesAt (block? : Option BlockScanner) (rounds : Nat) (c : Char) (cs : List Char) :
    lexemesAt r block? rounds c cs = lexemesAt r' block? rounds c cs := by
  have hopening : opening? r (c :: cs) = opening? r' (c :: cs) := by
    simp only [opening?, h.multilineDelimiter, h.stringDelimiter]
  simp only [Lossless.lexemesAt, h.comment?, hopening, stringLiteral, h.pieces, h.charDelimiter,
    h.charLiteral, h.other]

theorem tokensIn (block? : Option BlockScanner) (region : Region) (rounds braces : Nat)
    (cs : List Char) :
    tokensIn r block? region rounds braces cs = tokensIn r' block? region rounds braces cs := by
  induction rounds generalizing braces cs with
  | zero => rfl
  | succ rounds ih =>
      cases cs with
      | nil => rfl
      | cons c cs => simp only [Lossless.tokensIn, h.lexemesAt, ih]

/-- **Rules that answer alike read alike**, however deep blocks nest. -/
theorem code (levels : Nat) (region : Region) (rounds : Nat) (cs : List Char) :
    code r levels region rounds cs = code r' levels region rounds cs := by
  induction levels generalizing region rounds cs with
  | zero => exact h.tokensIn none region rounds 0 cs
  | succ levels ih =>
      have hblock : (fun rounds lineBound => Lossless.code r levels (.block lineBound) rounds) =
          fun rounds lineBound => Lossless.code r' levels (.block lineBound) rounds := by
        funext rounds lineBound cs
        exact ih (.block lineBound) rounds cs
      rw [Lossless.code, Lossless.code, h.tokensIn, hblock]

theorem lexemes (cs : List Char) : lexemes r cs = lexemes r' cs := by
  rw [Lossless.lexemes, Lossless.lexemes, h.code]

end Rules.Agree

/-! ## Configurations with the same entries -/

/-- Two lists have the same members, in whatever order and however often. -/
def SameMembers {α : Type} (as bs : List α) : Prop :=
  ∀ a, a ∈ as ↔ a ∈ bs

namespace SameMembers

variable {α β : Type} {as bs : List α}

theorem map (h : SameMembers as bs) (f : α → β) : SameMembers (as.map f) (bs.map f) := by
  intro b
  simp only [List.mem_map, h _]

theorem contains_eq [BEq α] [LawfulBEq α] (h : SameMembers as bs) (a : α) :
    as.contains a = bs.contains a := by
  rw [Bool.eq_iff_iff, List.contains_iff_mem, List.contains_iff_mem, h a]

theorem isEmpty_eq (h : SameMembers as bs) : as.isEmpty = bs.isEmpty := by
  rw [Bool.eq_iff_iff, List.isEmpty_iff, List.isEmpty_iff, List.eq_nil_iff_forall_not_mem,
    List.eq_nil_iff_forall_not_mem]
  exact forall_congr' fun a => not_congr (h a)

/-- Of texts alone, those with the same members have the same longest entry. -/
theorem longest? {as bs : List (List Char)} (h : SameMembers as bs) (cs : List Char) :
    longest? id cs as = longest? id cs bs :=
  longest?_congr (find?_eq_of_mem_iff h fun _ _ _ _ heq => heq) cs

/-- The prefixes of one base: the entry found for a text does not depend on the order. -/
theorem find?_digitPrefixes {ps qs : List String} (h : SameMembers ps qs) (base : IntegerBase)
    (k : List Char) :
    (Rules.digitPrefixes base ps).find? (fun p => p.1 == k) =
      (Rules.digitPrefixes base qs).find? (fun p => p.1 == k) := by
  have hmem : ∀ p, p ∈ Rules.digitPrefixes base ps ↔ p ∈ Rules.digitPrefixes base qs := by
    intro p
    simp only [Rules.digitPrefixes, List.mem_filterMap]
    exact exists_congr fun text => and_congr_left' (h.map String.toList text)
  have hbase : ∀ p ∈ Rules.digitPrefixes base ps, p.2 = base := by
    intro p hp
    obtain ⟨text, _, htext⟩ := List.mem_filterMap.mp hp
    split at htext
    · split at htext <;> cases htext
      rfl
    · cases htext
  -- all entries have the base itself as their second component
  have hkey : ∀ p ∈ Rules.digitPrefixes base ps, ∀ q ∈ Rules.digitPrefixes base ps,
      p.1 = q.1 → p = q := fun p hp q hq hkey =>
    Prod.ext hkey ((hbase p hp).trans (hbase q hq).symm)
  exact find?_eq_of_mem_iff hmem hkey k

end SameMembers

/-- Two configurations with the same entries in each of their lists, in whatever order and
however often, and with the same settings otherwise. -/
structure Config.SameEntries (c c' : Config) : Prop where
  keywords : SameMembers c.keywords c'.keywords
  foldedKeywords : SameMembers c.foldedKeywords c'.foldedKeywords
  punctuation : SameMembers c.punctuation c'.punctuation
  operators : SameMembers c.operators c'.operators
  lineComments : SameMembers c.lineComments c'.lineComments
  blockComments : SameMembers c.blockComments c'.blockComments
  hexPrefixes : SameMembers c.hexPrefixes c'.hexPrefixes
  binPrefixes : SameMembers c.binPrefixes c'.binPrefixes
  octPrefixes : SameMembers c.octPrefixes c'.octPrefixes
  wordStartExtra : SameMembers c.wordStartExtra.toList c'.wordStartExtra.toList
  wordPartExtra : SameMembers c.wordPartExtra.toList c'.wordPartExtra.toList
  /-- With the lists of the one, the other is the one. -/
  elsewhere : { c' with
    keywords := c.keywords, foldedKeywords := c.foldedKeywords, punctuation := c.punctuation,
    operators := c.operators, lineComments := c.lineComments, blockComments := c.blockComments,
    hexPrefixes := c.hexPrefixes, binPrefixes := c.binPrefixes, octPrefixes := c.octPrefixes,
    wordStartExtra := c.wordStartExtra, wordPartExtra := c.wordPartExtra } = c

/-- Each opener of a block comment has one closer. -/
def Config.ClosersAgree (c : Config) : Prop :=
  ∀ a ∈ c.blockComments, ∀ b ∈ c.blockComments, a.opener = b.opener → a.closer = b.closer

namespace Config.SameEntries

variable {c c' : Config} (h : c.SameEntries c')
include h

theorem isKeyword (word : List Char) :
    (Rules.ofConfig c).isKeyword word = (Rules.ofConfig c').isKeyword word := by
  have hkeywords := h.keywords.map String.toList
  have hfolded := h.foldedKeywords.map fun w => Text.lowercase w.toList
  simp only [Rules.isKeyword, Rules.ofConfig, hkeywords.contains_eq, hfolded.contains_eq,
    hfolded.isEmpty_eq]

theorem longest?_blockComments (hclosers : c.ClosersAgree) (cs : List Char) :
    longest? Prod.fst cs (Rules.ofConfig c).blockComments =
      longest? Prod.fst cs (Rules.ofConfig c').blockComments := by
  refine longest?_congr (find?_eq_of_mem_iff ?_ ?_) cs
  · intro p
    have hmap := h.blockComments.map fun b => (b.opener.toList, b.closer.toList)
    simpa only [Rules.ofConfig, List.mem_reverse] using hmap p
  · intro p hp q hq hkey
    simp only [Rules.ofConfig, List.mem_reverse, List.mem_map] at hp hq
    obtain ⟨a, ha, rfl⟩ := hp
    obtain ⟨b, hb, rfl⟩ := hq
    exact Prod.ext hkey (congrArg String.toList (hclosers a ha b hb (String.toList_inj.mp hkey)))

/-- The bases are tried one after the other, whatever the order within one is. -/
theorem longest?_numberPrefixes (cs : List Char) :
    longest? Prod.fst cs (Rules.ofConfig c).numberPrefixes =
      longest? Prod.fst cs (Rules.ofConfig c').numberPrefixes := by
  apply longest?_congr
  intro k
  simp only [Rules.ofConfig, List.find?_append, h.hexPrefixes.find?_digitPrefixes,
    h.binPrefixes.find?_digitPrefixes, h.octPrefixes.find?_digitPrefixes]

/-- **The same entries make rules that answer alike.** -/
theorem agree (hclosers : c.ClosersAgree) : (Rules.ofConfig c).Agree (Rules.ofConfig c') where
  isKeyword := h.isKeyword
  startsWord ch := by
    simp only [Rules.startsWord, Rules.ofConfig, h.wordStartExtra.contains_eq]
  continuesWord := by
    funext ch
    simp only [Rules.continuesWord, Rules.ofConfig, h.wordPartExtra.contains_eq]
  punctuation := (h.punctuation.map String.toList).longest?
  operators := (h.operators.map String.toList).longest?
  lineComments := (h.lineComments.map String.toList).longest?
  blockComments := h.longest?_blockComments hclosers
  numberPrefixes := h.longest?_numberPrefixes
  stringDelimiter := (congrArg Config.stringDelimiter h.elsewhere).symm
  multilineDelimiter :=
    (congrArg (fun k : Config => k.multilineDelimiter.map String.toList) h.elsewhere).symm
  charDelimiter := (congrArg Config.charDelimiter h.elsewhere).symm
  escapeChar := (congrArg Config.escapeChar h.elsewhere).symm
  interpolationChar := (congrArg Config.interpolationChar h.elsewhere).symm
  floatSuffix := (congrArg Config.floatSuffix h.elsewhere).symm
  doubleSuffix := (congrArg Config.doubleSuffix h.elsewhere).symm

theorem keeps : c.keeps = c'.keeps := by
  funext kind
  cases kind with
  | whitespace => exact (congrArg Config.keepWhitespace h.elsewhere).symm
  | comment => exact (congrArg Config.keepComments h.elsewhere).symm
  | _ => rfl

end Config.SameEntries

end Lossless
