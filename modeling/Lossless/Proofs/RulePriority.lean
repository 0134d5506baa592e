import Lossless.Proofs.LineBounds
import Lossless.Proofs.Resumption
import Lossless.Proofs.Separation

/-!
# Which rule reads a token

Rules of the lexer overlap, and an order among them decides: blanks and line ends first, then
comments, strings and characters, numbers, punctuation, operators, and words last.  Within a rule
the longest entry that begins the text is taken.

**A token of code depends on the text from its start on and on nothing else**
(`heeds_lexemes`): wherever it stands, in a block of a literal or outside of all literals, it is
what the first rule that applies reads there.  The one exception is the name behind an
interpolation mark, which is read as a name whatever else begins with its first character.

What that says of each kind of token is written down in terms of the configuration
(`Config.Explains`).  Empty entries of a configuration begin every text; they are never taken, and
nothing is ever held up by them.
-/

namespace Lossless

/-! ## The longest entry -/

section Longest

variable {α : Type} {key : α → List Char} {cs : List Char} {as : List α}

/-- Where no entry is chosen none begins the text, but for empty ones. -/
theorem eq_nil_of_longest?_eq_none {b : α} (h : longest? key cs as = none) (hb : b ∈ as)
    (hbegins : key b <+: cs) : key b = [] := by
  by_contra hempty
  have hcounts : (!(key b).isEmpty && (key b).isPrefixOf cs) = true := by
    simpa [hempty] using hbegins
  induction as with
  | nil => cases hb
  | cons d ds ih =>
      unfold longest? at h
      cases hrest : longest? key cs ds with
      | some e =>
          simp only [hrest] at h
          split at h
          · split at h <;> cases h
          · cases h
      | none =>
          rcases List.mem_cons.mp hb with rfl | hb
          · simp [hcounts, hrest] at h
          · exact ih hrest hb

/-- No entry that begins the text is longer than the chosen one. -/
theorem length_le_of_longest? {a b : α} (h : longest? key cs as = some a) (hb : b ∈ as)
    (hbegins : key b <+: cs) : (key b).length ≤ (key a).length := by
  by_cases hempty : key b = []
  · simp [hempty]
  have hcounts : (!(key b).isEmpty && (key b).isPrefixOf cs) = true := by
    simpa [hempty] using hbegins
  induction as generalizing a with
  | nil => cases hb
  | cons d ds ih =>
      unfold longest? at h
      rcases List.mem_cons.mp hb with rfl | hb
      · rw [if_pos hcounts] at h
        cases hrest : longest? key cs ds with
        | none => simp_all
        | some e =>
            simp only [hrest] at h
            split at h <;> cases h <;> omega
      · cases hrest : longest? key cs ds with
        | none => exact absurd (eq_nil_of_longest?_eq_none hrest hb hbegins) hempty
        | some e =>
            have hle := ih hrest hb
            simp only [hrest] at h
            split at h
            · split at h <;> cases h <;> omega
            · cases h
              exact hle

/-- Of entries with one key the first is chosen. -/
theorem find?_of_longest? {a : α} (h : longest? key cs as = some a) :
    as.find? (fun b => key b == key a) = some a := by
  induction as generalizing a with
  | nil => cases h
  | cons d ds ih =>
      have hcounts := longest?_isPrefixOf h
      unfold longest? at h
      by_cases hd : (!(key d).isEmpty && (key d).isPrefixOf cs) = true
      · rw [if_pos hd] at h
        cases hrest : longest? key cs ds with
        | none =>
            rw [hrest] at h
            cases h
            simp
        | some e =>
            simp only [hrest] at h
            split at h
            · cases h
              have hne : ¬ key d = key a := by
                intro heq
                simp_all
              simpa [hne] using ih hrest
            · cases h
              simp
      · rw [if_neg hd] at h
        have hne : ¬ key d = key a := by
          intro heq
          simp [heq, hcounts.1, hcounts.2] at hd
        simpa [hne] using ih h

end Longest

/-! ## Where a rule applies -/

/-- What is read where neither a blank nor a comment nor a literal begins. -/
inductive Plain.Reads (r : Rules) (c : Char) (cs : List Char) : Cut → Prop
  | number (hdigit : c.isDigit = true) : Reads r c cs (Number.cut r (c :: cs))
  | punctuation {mark : List Char} (hdigit : c.isDigit = false)
      (hmark : longest? id (c :: cs) r.punctuation = some mark) :
      Reads r c cs ⟨.punctuation, mark, (c :: cs).drop mark.length⟩
  | operator {mark : List Char} (hdigit : c.isDigit = false)
      (hpunctuation : longest? id (c :: cs) r.punctuation = none)
      (hmark : longest? id (c :: cs) r.operators = some mark) :
      Reads r c cs ⟨.operator, mark, (c :: cs).drop mark.length⟩
  | word (hdigit : c.isDigit = false) (hpunctuation : longest? id (c :: cs) r.punctuation = none)
      (hoperator : longest? id (c :: cs) r.operators = none) (hword : r.startsWord c = true) :
      Reads r c cs (Plain.word r c cs)
  | stray : Reads r c cs ⟨.error, [c], cs⟩

theorem Plain.reads_other (r : Rules) (c : Char) (cs : List Char) :
    Reads r c cs (other r c cs) := by
  cases hdigit : c.isDigit with
  | true =>
      have heq : other r c cs = Number.cut r (c :: cs) := by simp [other, hdigit]
      exact heq ▸ .number hdigit
  | false =>
      cases hpunctuation : longest? id (c :: cs) r.punctuation with
      | some mark =>
          have heq : other r c cs = ⟨.punctuation, mark, (c :: cs).drop mark.length⟩ := by
            simp [other, hdigit, symbol?, hpunctuation]
          exact heq ▸ .punctuation hdigit hpunctuation
      | none =>
          cases hoperator : longest? id (c :: cs) r.operators with
          | some mark =>
              have heq : other r c cs = ⟨.operator, mark, (c :: cs).drop mark.length⟩ := by
                simp [other, hdigit, symbol?, hpunctuation, hoperator]
              exact heq ▸ .operator hdigit hpunctuation hoperator
          | none =>
              by_cases hword : r.startsWord c = true
              · have heq : other r c cs = word r c cs := by
                  simp [other, hdigit, symbol?, hpunctuation, hoperator, hword]
                exact heq ▸ .word hdigit hpunctuation hoperator hword
              · have heq : other r c cs = ⟨.error, [c], cs⟩ := by
                  simp [other, hdigit, symbol?, hpunctuation, hoperator, hword]
                exact heq ▸ .stray

/-- What begins with a digit is read as a number or as an error. -/
theorem Number.cut_kind (r : Rules) (cs : List Char) :
    (Number.cut r cs).kind = .error ∨ (Number.cut r cs).kind.isNumber = true := by
  unfold Number.cut
  split
  · unfold Number.prefixed
    split
    · exact Or.inl rfl
    · exact Or.inr rfl
  · refine Or.inr ?_
    simp only [Number.decimal]
    split
    · rfl
    · split <;> rfl

theorem Plain.Reads.kind_ne_comment {r : Rules} {c : Char} {cs : List Char} {cut : Cut}
    (h : Reads r c cs cut) : cut.kind ≠ .comment := by
  cases h with
  | number =>
      intro hkind
      rcases Number.cut_kind r (c :: cs) with h | h <;> rw [hkind] at h <;> cases h
  | punctuation | operator | stray => simp
  | word =>
      simp only [Plain.word]
      split <;> simp

/-- What is neither a literal nor an error is read outside of the rule for characters. -/
theorem Plain.reads_token {r : Rules} {c : Char} {cs : List Char}
    (hliteral : (Plain.token r c cs).kind.isLiteral = false)
    (herror : (Plain.token r c cs).kind ≠ .error) :
    r.charDelimiter ≠ some c ∧ Reads r c cs (Plain.token r c cs) := by
  unfold Plain.token at hliteral herror ⊢
  by_cases hchar : (r.charDelimiter == some c) = true
  · rw [if_pos hchar] at hliteral herror
    simp only [charLiteral] at hliteral herror
    split at hliteral
    · cases hliteral
    · rename_i hmalformed
      rw [if_neg hmalformed] at herror
      exact absurd rfl herror
  · rw [if_neg hchar]
    exact ⟨by simpa using hchar, reads_other r c cs⟩

/-- Comments are read by their own rule only. -/
theorem Plain.token_kind_ne_comment (r : Rules) (c : Char) (cs : List Char) :
    (Plain.token r c cs).kind ≠ .comment := by
  unfold Plain.token
  split
  · simp only [charLiteral]
    split <;> simp
  · exact (reads_other r c cs).kind_ne_comment

theorem Plain.longest?_of_comment?_eq_none {r : Rules} {cs : List Char}
    (h : comment? r cs = none) :
    longest? id cs r.lineComments = none ∧ longest? Prod.fst cs r.blockComments = none := by
  unfold comment? at h
  split at h
  · split at h <;> cases h
  · cases h
  · cases h
  · rename_i hline hblock
    exact ⟨hline, hblock⟩

/-- A text goes through the first place at which the mark stands. -/
theorem Plain.through?_first {mark cs taken rest : List Char}
    (h : through? mark cs = some (taken, rest)) :
    ∃ body, taken = body ++ mark ∧ ∀ k < body.length, ¬ mark <+: cs.drop k := by
  induction cs generalizing taken with
  | nil =>
      unfold through? at h
      split at h
      · rename_i hempty
        cases h
        exact ⟨[], (List.isEmpty_iff.mp hempty).symm, by simp⟩
      · cases h
  | cons c cs ih =>
      unfold through? at h
      split at h
      · cases h
        exact ⟨[], rfl, by simp⟩
      · rename_i hbegins
        obtain ⟨⟨taken, tail⟩, hthrough, hsplit⟩ := Option.map_eq_some_iff.mp h
        obtain ⟨rfl, rfl⟩ := Prod.mk.inj hsplit
        obtain ⟨body, rfl, hfirst⟩ := ih hthrough
        refine ⟨c :: body, rfl, ?_⟩
        intro k hk
        cases k with
        | zero => simpa using hbegins
        | succ k => exact hfirst k (Nat.lt_of_succ_lt_succ hk)

/-- Where neither a line end nor a row of blanks begins there is no blank. -/
theorem Plain.isBlank_eq_false {c : Char} {cs : List Char} (hline : linebreak? (c :: cs) = none)
    (hblanks : blanks? (c :: cs) = none) : Text.isBlank c = false := by
  have hend := isLineEnd_of_linebreak?_eq_none hline
  have hinline : Text.isInlineBlank c = false := by simpa [blanks?] using hblanks
  simpa [Text.isInlineBlank, hend] using hinline

/-- **What the rules make of a text.**  A lexeme is what the first rule to apply reads at the
start of the text, if it is a plain token or a comment. -/
structure Rules.Applies (r : Rules) (l : Lexeme) (text : List Char) : Prop where
  token : l.kind.isPlain = true →
    ∃ c cs, text = c :: cs ∧ r.IsPlainAt c cs ∧ (Plain.token r c cs).lexeme = l
  comment : l.kind = .comment → ∃ c cs cut, text = c :: cs ∧ Text.isBlank c = false ∧
    Plain.comment? r (c :: cs) = some cut ∧ cut.lexeme = l

/-- Each lexeme of a row is what the rules make of the text from its start on, with `rest` behind
the row, but for the names behind marks. -/
def Rules.Heeds (r : Rules) (ls : List Lexeme) (rest : List Char) : Prop :=
  ∀ before l after, ls = before ++ l :: after →
    (∀ m ∈ before.getLast?, m.kind ≠ .string .nameMark) →
      r.Applies l (Lexeme.joined (l :: after) ++ rest)

/-- Neither a piece of a literal nor an error is a plain token or a comment. -/
theorem Rules.applies_trivially {r : Rules} {l : Lexeme} (hplain : l.kind.isPlain = false)
    (hcomment : l.kind ≠ .comment) (text : List Char) : r.Applies l text :=
  ⟨fun h => absurd (hplain.symm.trans h) (by simp), fun h => absurd h hcomment⟩

namespace Rules.Heeds

variable {r : Rules} {ls ms : List Lexeme} {rest : List Char}

theorem nil (rest : List Char) : r.Heeds [] rest := by
  intro before l after h
  simp at h

theorem single {l : Lexeme} (h : r.Applies l (l.text ++ rest)) : r.Heeds [l] rest := by
  intro before k after hsplit _
  obtain ⟨rfl, rfl, rfl⟩ : before = [] ∧ k = l ∧ after = [] := by
    cases before with
    | nil => simpa [eq_comm] using hsplit
    | cons b bs => simp at hsplit
  simpa [Lexeme.joined] using h

theorem append (hls : r.Heeds ls (Lexeme.joined ms ++ rest)) (hms : r.Heeds ms rest) :
    r.Heeds (ls ++ ms) rest := by
  intro before l after hsplit hmark
  rcases List.append_eq_append_iff.mp hsplit with ⟨front, rfl, hback⟩ | ⟨back, rfl, hback⟩
  · -- the lexeme is one of the second row
    refine hms front l after hback ?_
    intro m hm
    exact hmark m (List.mem_getLast?_append_of_mem_getLast? hm)
  · cases back with
    | nil =>
        have happlies := hms [] l after hback.symm (by simp)
        simpa using happlies
    | cons k back =>
        obtain ⟨rfl, rfl⟩ := List.cons.inj hback
        have happlies := hls before l back rfl hmark
        rwa [← List.append_assoc, ← Lexeme.joined_append] at happlies

/-- Behind a mark a name may be anything. -/
theorem marked {mark name : Lexeme} (hmark : mark.kind = .string .nameMark) :
    r.Heeds [mark, name] rest := by
  intro before l after hsplit hbefore
  match before with
  | [] =>
      obtain ⟨rfl, rfl⟩ := List.cons.inj hsplit
      exact applies_trivially (by rw [hmark]; rfl) (by simp [hmark, TokenKind.string]) _
  | [_] =>
      obtain ⟨rfl, _⟩ := List.cons.inj hsplit
      exact absurd hmark (hbefore _ rfl)
  | _ :: _ :: before => simp at hsplit

/-- A piece of a literal, in front of a row. -/
theorem part {part : StringPart} {text : List Char} (hms : r.Heeds ms rest) :
    r.Heeds (⟨.string part, text⟩ :: ms) rest := by
  have hfirst : r.Heeds [⟨.string part, text⟩] (Lexeme.joined ms ++ rest) :=
    single (applies_trivially rfl (by simp [TokenKind.string]) _)
  exact hfirst.append hms

/-- A scan behind a row. -/
theorem after {scan : Scan} {middle : List Char} (hls : r.Heeds ls middle)
    (hsplit : Lexeme.Split scan.lexemes scan.rest middle) (h : r.Heeds scan.lexemes scan.rest) :
    r.Heeds (scan.after ls).lexemes (scan.after ls).rest := by
  rw [← hsplit.joined] at hls
  exact hls.append h

end Rules.Heeds

section Scanners

variable {r : Rules} {block? : Option BlockScanner}
  (hsplits : ∀ block ∈ block?, BlockScanner.Splits block)
  (hblock : ∀ block ∈ block?, ∀ rounds lineBound cs,
    r.Heeds (block rounds lineBound cs).lexemes (block rounds lineBound cs).rest)
include hsplits hblock

theorem pieces_heeds (style : StringStyle) {delimiter : List Char} (hdelimiter : delimiter ≠ [])
    (rounds : Nat) (cs : List Char) :
    r.Heeds (pieces r block? style delimiter rounds cs).lexemes
      (pieces r block? style delimiter rounds cs).rest := by
  have hsplit := pieces_split r hsplits style hdelimiter
  fun_induction pieces r block? style delimiter rounds cs with
  | case1 | case2 | case3 => exact .nil _
  | case4 | case5 | case6 => exact .part (.nil _)
  | case7 rounds c hbreaks hescape d ds hbreaks' hclose ih =>
      exact .after (.part (.nil _)) (hsplit rounds ds) ih
  | case8 rounds c cs hbreaks hclose hescape block hb hopens inner hclosed ih =>
      subst hb
      simp only [hopens]
      rw [if_pos hclosed]
      exact .after (.part (hblock block rfl _ _ _)) (hsplit rounds _) ih
  | case9 rounds c cs hbreaks hclose hescape block hb hopens inner hclosed =>
      subst hb
      simp only [hopens]
      rw [if_neg hclosed]
      exact .part (hblock block rfl _ _ _)
  | case10 rounds c hbreaks hescape hclose hopens =>
      simp only [hopens]
      exact .part (.nil _)
  | case11 rounds c hbreaks hescape d ds name hclose hopens ih =>
      simp only [hopens]
      exact .after (.marked rfl) (hsplit rounds _) ih
  | case12 rounds c cs hbreaks hclose hescape run rest hrun hname hopens ih =>
      split
      · rename_i block hinterpolation
        exact absurd rfl (hopens block hinterpolation)
      · rename_i hinterpolation
        exact absurd hinterpolation hname
      · rw [hrun]
        exact .after (.part (.nil _)) (hsplit rounds _) ih

theorem stringLiteral_heeds {style : StringStyle} {delimiter : List Char} (rounds : Nat)
    {cs : List Char} (hopening : opening? r cs = some (style, delimiter)) :
    r.Heeds (stringLiteral r block? style delimiter rounds cs).1
      (stringLiteral r block? style delimiter rounds cs).2 := by
  have hpieces := pieces_heeds hsplits hblock style (opening?_isPrefixOf hopening).1 rounds
    (cs.drop delimiter.length)
  simp only [stringLiteral, Scan.sealed]
  split
  · exact hpieces.part
  · exact .single (Rules.applies_trivially rfl (by simp) _)

/-- **One step of code.** -/
theorem lexemesAt_heeds (rounds : Nat) (c : Char) (cs : List Char) :
    r.Heeds (lexemesAt r block? rounds c cs).1 (lexemesAt r block? rounds c cs).2 := by
  have hsplit := (lexemesAt_split r hsplits rounds c cs).1
  unfold lexemesAt at hsplit ⊢
  split at hsplit
  · rename_i cut hcut
    have htext : cut.lexeme.text ++ cut.rest = c :: cs := by
      simpa [Lexeme.joined] using hsplit.joined
    simp only
    refine .single ⟨fun h => absurd ((isPlain_of_trivia hcut).symm.trans h) (by simp), ?_⟩
    intro hkind
    have hcut' : cut.kind = .comment := hkind
    simp only [Option.orElse_eq_orElse, Option.orElse_eq_or, Option.or_eq_some_iff] at hcut
    rcases hcut with hline | ⟨hline, hblanks | ⟨hblanks, hcomment⟩⟩
    · simp [Plain.linebreak?_kind hline] at hcut'
    · simp [Plain.blanks?_kind hblanks] at hcut'
    · exact ⟨c, cs, cut, htext, Plain.isBlank_eq_false hline hblanks, hcomment, rfl⟩
  · rename_i htrivia
    simp only [Option.orElse_eq_orElse, Option.orElse_eq_or, Option.or_eq_none_iff] at htrivia
    obtain ⟨hline, hblanks, hcomment⟩ := htrivia
    split at hsplit
    · rename_i style delimiter hopening
      exact stringLiteral_heeds hsplits hblock rounds hopening
    · rename_i hstring
      have hplain : r.IsPlainAt c cs :=
        ⟨Plain.isLineEnd_of_linebreak?_eq_none hline, by simpa [Plain.blanks?] using hblanks,
          hcomment, hstring⟩
      refine .single ⟨fun _ => ⟨c, cs, ?_, hplain, rfl⟩, ?_⟩
      · simpa [Lexeme.joined] using hsplit.joined
      · exact fun hkind => absurd hkind (Plain.token_kind_ne_comment r c cs)

theorem tokensIn_heeds (region : Region) (rounds braces : Nat) (cs : List Char) :
    r.Heeds (tokensIn r block? region rounds braces cs).lexemes
      (tokensIn r block? region rounds braces cs).rest := by
  have hsplit := tokensIn_split r hsplits region
  fun_induction tokensIn r block? region rounds braces cs with
  | case1 | case2 | case4 => exact .nil _
  | case3 => exact .part (.nil _)
  | case5 rounds braces c cs open' hgate ls rest hstep ih =>
      have hls := lexemesAt_heeds hsplits hblock rounds c cs
      rw [hstep] at hls
      exact hls.after (hsplit rounds open' rest) ih

end Scanners

theorem code_heeds (r : Rules) (levels : Nat) (region : Region) (rounds : Nat) (cs : List Char) :
    r.Heeds (code r levels region rounds cs).lexemes (code r levels region rounds cs).rest := by
  induction levels generalizing region rounds cs with
  | zero => exact tokensIn_heeds (by simp) (by simp) region rounds 0 cs
  | succ levels ih =>
      refine tokensIn_heeds ?_ ?_ region rounds 0 cs
      · intro block hb
        obtain rfl := Option.some.inj hb
        exact fun rounds lineBound cs => code_split r levels (.block lineBound) rounds cs
      · intro block hb
        obtain rfl := Option.some.inj hb
        exact fun rounds lineBound cs => ih (.block lineBound) rounds cs

/-- **Every token of code is what the rules make of the text from its start on.** -/
theorem heeds_lexemes (r : Rules) (cs : List Char) : r.Heeds (lexemes r cs) [] := by
  have hcode := code_heeds r maxBlockDepth .top cs.length cs
  rwa [code_top_rest] at hcode

/-! ## What a configuration says of a token -/

/-- An entry that is not empty begins the text. -/
def BeginsWith (entries : List String) (text : List Char) : Prop :=
  ∃ entry ∈ entries, entry ≠ "" ∧ entry.toList <+: text

/-- The longest entry that begins the text. -/
structure IsLongest (entries : List String) (mark text : List Char) : Prop where
  mem : ∃ entry ∈ entries, entry.toList = mark
  ne_nil : mark ≠ []
  begins : mark <+: text
  longest : ∀ entry ∈ entries, entry.toList <+: text → entry.toList.length ≤ mark.length

/-- Only empty entries begin a text with which nothing else begins. -/
theorem toList_eq_nil_of_begins {entries : List String} {text : List Char} {entry : String}
    (h : ¬ BeginsWith entries text) (hentry : entry ∈ entries) (hbegins : entry.toList <+: text) :
    entry.toList = [] := by
  by_contra hne
  exact h ⟨entry, hentry, by simpa using hne, hbegins⟩

section Entries

variable {α : Type} {key : α → List Char} {text : List Char} {as : List α} {entries : List String}
  (hkeys : ∀ w, w ∈ as.map key ↔ w ∈ entries.map String.toList)
include hkeys

theorem isLongest_of_longest? {a : α} (h : longest? key text as = some a) :
    IsLongest entries (key a) text := by
  obtain ⟨hne, hbegins⟩ := longest?_isPrefixOf h
  refine ⟨?_, hne, List.isPrefixOf_iff_prefix.mp hbegins, ?_⟩
  · have hmem := (hkeys (key a)).mp (List.mem_map_of_mem (longest?_mem h))
    simpa using hmem
  · intro entry hentry hpre
    obtain ⟨b, hb, heq⟩ := List.mem_map.mp ((hkeys _).mpr (List.mem_map_of_mem hentry))
    rw [← heq] at hpre ⊢
    exact length_le_of_longest? h hb hpre

theorem not_beginsWith_of_longest? (h : longest? key text as = none) :
    ¬ BeginsWith entries text := by
  rintro ⟨entry, hentry, hne, hpre⟩
  obtain ⟨b, hb, heq⟩ := List.mem_map.mp ((hkeys _).mpr (List.mem_map_of_mem hentry))
  rw [← heq] at hpre
  have hempty := eq_nil_of_longest?_eq_none h hb hpre
  rw [heq] at hempty
  exact hne (by simpa using hempty)

end Entries

namespace Config

/-- Neither a blank nor a digit nor a comment nor a literal begins the text. -/
structure LeavesOpen (c : Config) (text : List Char) : Prop where
  blank : ∀ ch ∈ text.head?, Text.isBlank ch = false
  digit : ∀ ch ∈ text.head?, ch.isDigit = false
  comment : ¬ BeginsWith (c.lineComments ++ c.blockComments.map (·.opener)) text
  multiline : ¬ BeginsWith c.multilineDelimiter.toList text
  string : ∀ ch ∈ text.head?, c.stringDelimiter ≠ some ch
  char : ∀ ch ∈ text.head?, c.charDelimiter ≠ some ch

/-- The word with which a text begins: a character with which words start, and all characters
behind it with which they go on. -/
def IsWord (c : Config) (word text : List Char) : Prop :=
  ∃ first behind, text = first :: behind ∧ (Rules.ofConfig c).startsWord first = true ∧
    word = first :: behind.takeWhile (Rules.ofConfig c).continuesWord

/-- A word that stands among the keywords, or in lower case among those in lower case. -/
def IsKeyword (c : Config) (word : List Char) : Prop :=
  (∃ entry ∈ c.keywords, entry.toList = word) ∨
    ∃ entry ∈ c.foldedKeywords, Text.lowercase entry.toList = Text.lowercase word

/-- A comment up to the end of the line.  No longer opener begins the text. -/
def IsLineComment (c : Config) (comment text : List Char) : Prop :=
  ∃ opener, IsLongest c.lineComments opener text ∧
    (∀ b ∈ c.blockComments, b.opener.toList <+: text → b.opener.toList.length ≤ opener.length) ∧
    comment = text.takeWhile (!Text.isLineEnd ·)

/-- A comment through the first closer behind its opener.  No longer opener begins the text, and
no line comment with one as long; of two comments with one opener the last one holds. -/
def IsBlockComment (c : Config) (comment text : List Char) : Prop :=
  ∃ b body, IsLongest (c.blockComments.map (·.opener)) b.opener.toList text ∧
    (∀ entry ∈ c.lineComments, entry.toList <+: text →
      entry.toList.length < b.opener.toList.length) ∧
    c.blockComments.reverse.find? (·.opener == b.opener) = some b ∧
    comment = b.opener.toList ++ body ++ b.closer.toList ∧
    ∀ k < body.length, ¬ b.closer.toList <+: text.drop (b.opener.toList.length + k)

/-- **What is known of a token in code** by its kind, where `rest` is the text from its start on. -/
def Explains (c : Config) (kind : TokenKind) (text rest : List Char) : Prop :=
  match kind with
  | .punctuation => c.LeavesOpen rest ∧ IsLongest c.punctuation text rest
  | .operator =>
    c.LeavesOpen rest ∧ ¬ BeginsWith c.punctuation rest ∧ IsLongest c.operators text rest
  | .identifier =>
    c.LeavesOpen rest ∧ ¬ BeginsWith c.punctuation rest ∧ ¬ BeginsWith c.operators rest ∧
      c.IsWord text rest ∧ ¬ c.IsKeyword text
  | .keyword =>
    c.LeavesOpen rest ∧ ¬ BeginsWith c.punctuation rest ∧ ¬ BeginsWith c.operators rest ∧
      c.IsWord text rest ∧ c.IsKeyword text
  | .comment => c.IsLineComment text rest ∨ c.IsBlockComment text rest
  | _ => True

theorem isKeyword_iff {c : Config} {word : List Char} :
    (Rules.ofConfig c).isKeyword word = true ↔ c.IsKeyword word := by
  simp only [Rules.isKeyword, Rules.ofConfig, IsKeyword, Bool.or_eq_true, Bool.and_eq_true,
    List.contains_iff_mem, List.mem_map]
  refine or_congr Iff.rfl ⟨And.right, fun h => ⟨?_, h⟩⟩
  obtain ⟨entry, hentry, _⟩ := h
  have hne : c.foldedKeywords ≠ [] := List.ne_nil_of_mem hentry
  simp [hne]

theorem lineComments_keys (c : Config) (w : List Char) :
    w ∈ (Rules.ofConfig c).lineComments.map id ↔ w ∈ c.lineComments.map String.toList := by
  simp [Rules.ofConfig]

theorem blockComments_keys (c : Config) (w : List Char) :
    w ∈ (Rules.ofConfig c).blockComments.map Prod.fst ↔
      w ∈ (c.blockComments.map (·.opener)).map String.toList := by
  simp [Rules.ofConfig]

theorem punctuation_keys (c : Config) (w : List Char) :
    w ∈ (Rules.ofConfig c).punctuation.map id ↔ w ∈ c.punctuation.map String.toList := by
  simp [Rules.ofConfig]

theorem operators_keys (c : Config) (w : List Char) :
    w ∈ (Rules.ofConfig c).operators.map id ↔ w ∈ c.operators.map String.toList := by
  simp [Rules.ofConfig]

theorem leavesOpen_of_isPlainAt {c : Config} {ch : Char} {cs : List Char}
    (h : (Rules.ofConfig c).IsPlainAt ch cs) (hchar : (Rules.ofConfig c).charDelimiter ≠ some ch)
    (hdigit : ch.isDigit = false) : c.LeavesOpen (ch :: cs) := by
  have hhead : ∀ {p : Char → Prop}, p ch → ∀ d ∈ (ch :: cs).head?, p d := by
    rintro p hp d ⟨⟩
    exact hp
  obtain ⟨hline, hblock⟩ := Plain.longest?_of_comment?_eq_none h.comment
  have hopening := h.string
  unfold opening? at hopening
  refine ⟨hhead ?_, hhead hdigit, ?_, ?_, hhead ?_, hhead hchar⟩
  · simpa [Text.isInlineBlank, h.line] using h.blank
  · rintro ⟨entry, hentry, hbegins⟩
    rcases List.mem_append.mp hentry with hentry | hentry
    · exact not_beginsWith_of_longest? (lineComments_keys c) hline ⟨entry, hentry, hbegins⟩
    · exact not_beginsWith_of_longest? (blockComments_keys c) hblock ⟨entry, hentry, hbegins⟩
  · rintro ⟨entry, hentry, hne, hbegins⟩
    have hmark : c.multilineDelimiter = some entry := Option.mem_toList.mp hentry
    have hfilter : ((Rules.ofConfig c).multilineDelimiter.filter
        fun d => !d.isEmpty && d.isPrefixOf (ch :: cs)) = some entry.toList := by
      simp [Rules.ofConfig, hmark, hne, hbegins]
    rw [hfilter] at hopening
    cases hopening
  · intro hquote
    have hfilter : ((Rules.ofConfig c).stringDelimiter.filter
        fun d => (ch :: cs).head? == some d) = some ch := by
      simp [Rules.ofConfig, hquote]
    rw [hfilter] at hopening
    split at hopening <;> cases hopening

/-- A number, a symbol, a word or an error is explained by the entries that begin the text. -/
theorem explains_of_reads {c : Config} {ch : Char} {cs : List Char} {cut : Cut}
    (hplain : (Rules.ofConfig c).IsPlainAt ch cs)
    (hchar : (Rules.ofConfig c).charDelimiter ≠ some ch)
    (h : Plain.Reads (Rules.ofConfig c) ch cs cut) : c.Explains cut.kind cut.text (ch :: cs) := by
  cases h with
  | number =>
      rcases Number.cut_kind (Rules.ofConfig c) (ch :: cs) with hkind | hkind
      · rw [hkind]
        trivial
      · unfold TokenKind.isNumber at hkind
        unfold Explains
        split at hkind <;> simp_all
  | punctuation hdigit hmark =>
      exact ⟨leavesOpen_of_isPlainAt hplain hchar hdigit,
        isLongest_of_longest? (punctuation_keys c) hmark⟩
  | operator hdigit hpunctuation hmark =>
      exact ⟨leavesOpen_of_isPlainAt hplain hchar hdigit,
        not_beginsWith_of_longest? (punctuation_keys c) hpunctuation,
        isLongest_of_longest? (operators_keys c) hmark⟩
  | word hdigit hpunctuation hoperator hword =>
      have hopen := leavesOpen_of_isPlainAt hplain hchar hdigit
      have hpunctuation' := not_beginsWith_of_longest? (punctuation_keys c) hpunctuation
      have hoperator' := not_beginsWith_of_longest? (operators_keys c) hoperator
      have hrun : c.IsWord (Plain.word (Rules.ofConfig c) ch cs).text (ch :: cs) :=
        ⟨ch, cs, rfl, hword, rfl⟩
      by_cases hkeyword : (Rules.ofConfig c).isKeyword
          (Plain.word (Rules.ofConfig c) ch cs).text = true
      · have hkind : (Plain.word (Rules.ofConfig c) ch cs).kind = .keyword := if_pos hkeyword
        rw [hkind]
        exact ⟨hopen, hpunctuation', hoperator', hrun, isKeyword_iff.mp hkeyword⟩
      · have hkind : (Plain.word (Rules.ofConfig c) ch cs).kind = .identifier := if_neg hkeyword
        rw [hkind]
        exact ⟨hopen, hpunctuation', hoperator', hrun, fun hk => hkeyword (isKeyword_iff.mpr hk)⟩
  | stray => trivial

/-- Of the block comments with one opener the one configured last is read. -/
theorem exists_blockComment {c : Config} {opener closer cs : List Char}
    (h : longest? Prod.fst cs (Rules.ofConfig c).blockComments = some (opener, closer)) :
    ∃ b : BlockComment, b.opener.toList = opener ∧ b.closer.toList = closer ∧
      c.blockComments.reverse.find? (·.opener == b.opener) = some b := by
  have hfind := find?_of_longest? h
  simp only [Rules.ofConfig, ← List.map_reverse, List.find?_map, Option.map_eq_some_iff] at hfind
  obtain ⟨b, hb, hpair⟩ := hfind
  obtain ⟨rfl, rfl⟩ := Prod.mk.inj hpair
  refine ⟨b, rfl, rfl, ?_⟩
  rw [← hb]
  congr 1
  funext b'
  simp [Function.comp, String.toList_inj]

/-- A block comment is explained by its opener, if no opener of line comments is as long. -/
theorem explains_of_blockComment {c : Config} {opener closer cs : List Char}
    (hmark : longest? Prod.fst cs (Rules.ofConfig c).blockComments = some (opener, closer))
    (hline : ∀ entry ∈ c.lineComments, entry.toList <+: cs → entry.toList.length < opener.length)
    (hkind : (Plain.blockComment opener closer cs).kind = .comment) :
    c.IsBlockComment (Plain.blockComment opener closer cs).text cs := by
  obtain ⟨b, rfl, rfl, hlast⟩ := exists_blockComment hmark
  have hlongest := isLongest_of_longest? (blockComments_keys c) hmark
  unfold Plain.blockComment at hkind ⊢
  cases hthrough : Plain.through? b.closer.toList (cs.drop b.opener.toList.length) with
  | none => simp [hthrough] at hkind
  | some split =>
      obtain ⟨taken, rest⟩ := split
      obtain ⟨body, rfl, hfirst⟩ := Plain.through?_first hthrough
      refine ⟨b, body, hlongest, hline, hlast, (List.append_assoc _ _ _).symm, ?_⟩
      simpa [List.drop_drop] using hfirst

/-- A comment is explained by the longest opener that begins the text. -/
theorem explains_of_comment {c : Config} {cs : List Char} {cut : Cut}
    (h : Plain.comment? (Rules.ofConfig c) cs = some cut) (hkind : cut.kind = .comment) :
    c.IsLineComment cut.text cs ∨ c.IsBlockComment cut.text cs := by
  have hlineKeys := lineComments_keys c
  have hblockKeys := blockComments_keys c
  unfold Plain.comment? at h
  split at h
  · rename_i line opener closer hline hblock
    have hlongest := isLongest_of_longest? hlineKeys hline
    split at h <;> cases h
    · refine Or.inr (explains_of_blockComment hblock ?_ hkind)
      intro entry hentry hbegins
      exact Nat.lt_of_le_of_lt (hlongest.longest entry hentry hbegins) ‹_›
    · refine Or.inl ⟨line, hlongest, ?_, rfl⟩
      intro b hb hbegins
      have hle := (isLongest_of_longest? hblockKeys hblock).longest b.opener
        (List.mem_map_of_mem hb) hbegins
      simp only [id] at *
      omega
  · rename_i line hline hblock
    cases h
    refine Or.inl ⟨line, isLongest_of_longest? hlineKeys hline, ?_, rfl⟩
    intro b hb hbegins
    have hnone := not_beginsWith_of_longest? hblockKeys hblock
    simp [toList_eq_nil_of_begins hnone (List.mem_map_of_mem hb) hbegins]
  · rename_i opener closer hline hblock
    cases h
    refine Or.inr (explains_of_blockComment hblock ?_ hkind)
    intro entry hentry hbegins
    have hnone := not_beginsWith_of_longest? hlineKeys hline
    rw [toList_eq_nil_of_begins hnone hentry hbegins]
    exact List.length_pos_iff.mpr (longest?_isPrefixOf hblock).1
  · cases h

/-- What the rules make of a text, read off the configuration. -/
theorem explains_of_applies {c : Config} {l : Lexeme} {text : List Char}
    (h : (Rules.ofConfig c).Applies l text) : c.Explains l.kind l.text text := by
  cases hkind : l.kind with
  | comment =>
      obtain ⟨ch, cs, cut, rfl, _, hcomment, rfl⟩ := h.comment hkind
      exact explains_of_comment hcomment hkind
  | punctuation | operator | identifier | keyword =>
      obtain ⟨ch, cs, rfl, hplain, rfl⟩ := h.token (by rw [hkind]; rfl)
      have hkind' : (Plain.token (Rules.ofConfig c) ch cs).kind = _ := hkind
      obtain ⟨hchar, hreads⟩ := Plain.reads_token (by rw [hkind']; rfl) (by rw [hkind']; simp)
      have hexplains := explains_of_reads hplain hchar hreads
      rwa [hkind'] at hexplains
  | _ => trivial

end Config

namespace Lexeme

variable {keeps : TokenKind → Bool}

/-- **The lexeme of a token.**  A token of a stream is a lexeme that is kept, with the tokens of
the lexemes on both sides of it around it, or it is the end of the input. -/
theorem stream_eq_append {offset : Nat} {ls : List Lexeme} {before after : List Token} {t : Token}
    (h : stream keeps offset ls = before ++ t :: after) :
    (∃ ks l ms, ls = ks ++ l :: ms ∧ keeps l.kind = true ∧ t.lexeme = l ∧
        t.span.start = offset + Text.byteSize (joined ks) ∧
        before = (placeFrom offset ks).filter (fun t => keeps t.kind) ∧
        after = stream keeps t.span.stop ms) ∨
      t = Token.eof (offset + Text.byteSize (joined ls)) ∧ after = [] ∧
        before = (placeFrom offset ls).filter fun t => keeps t.kind := by
  induction ls generalizing offset before with
  | nil =>
      refine Or.inr ?_
      cases before with
      | nil => simpa [stream, placeFrom, joined, eq_comm] using h
      | cons b before => simp [stream, placeFrom] at h
  | cons l ls ih =>
      by_cases hl : keeps l.kind = true
      · rw [stream_cons_of_pos offset hl] at h
        cases before with
        | nil =>
            obtain ⟨rfl, rfl⟩ := List.cons.inj h
            exact Or.inl ⟨[], l, ls, rfl, hl, by simp [Token.lexeme], by simp [joined], rfl, rfl⟩
        | cons b before =>
            obtain ⟨rfl, hrest⟩ := List.cons.inj h
            rcases ih hrest with ⟨ks, m, ms, rfl, hm, hlexeme, hstart, rfl, hafter⟩ |
              ⟨rfl, hafter, rfl⟩
            · refine Or.inl ⟨l :: ks, m, ms, rfl, hm, hlexeme, ?_, ?_, hafter⟩
              · simp [hstart, Text.byteSize_append, Nat.add_assoc]
              · simp [placeFrom, hl]
            · refine Or.inr ⟨?_, hafter, ?_⟩
              · simp [Text.byteSize_append, Nat.add_assoc]
              · simp [placeFrom, hl]
      · rw [stream_cons_of_neg offset hl] at h
        rcases ih h with ⟨ks, m, ms, rfl, hm, hlexeme, hstart, rfl, hafter⟩ | ⟨rfl, hafter, rfl⟩
        · refine Or.inl ⟨l :: ks, m, ms, rfl, hm, hlexeme, ?_, ?_, hafter⟩
          · simp [hstart, Text.byteSize_append, Nat.add_assoc]
          · simp [placeFrom, hl]
        · refine Or.inr ⟨?_, hafter, ?_⟩
          · simp [Text.byteSize_append, Nat.add_assoc]
          · simp [placeFrom, hl]

end Lexeme

/-- The tokens of a window are a stream. -/
theorem tokenize_eq_stream {source : String} {as ms bs : List Char} (config : Config)
    {asked : Option Span} (hsource : source.toList = as ++ (ms ++ bs))
    (hwindow : window source.toList asked =
      ⟨Text.byteSize as, Text.byteSize as + Text.byteSize ms⟩) :
    tokenize source config asked =
      Lexeme.stream config.keeps (Text.byteSize as) (lexemes (Rules.ofConfig config) ms) := by
  rw [tokenize_middle config hsource hwindow, Lexeme.stream, lexemes_joined]

/-- A mark is kept, so it is the last token before what stands behind it. -/
theorem exists_nameMark {config : Config} {offset : Nat} {ks : List Lexeme} {m : Lexeme}
    (hm : m ∈ ks.getLast?) (hmark : m.kind = .string .nameMark) :
    ∃ t ∈ ((Lexeme.placeFrom offset ks).filter fun t => config.keeps t.kind).getLast?,
      t.kind = .string .nameMark := by
  obtain ⟨front, rfl⟩ := List.getLast?_eq_some_iff.mp hm
  have hkept : config.keeps m.kind = true := by rw [hmark]; rfl
  have hlast :=
    congrArg List.getLast? (map_lexeme_filter_placeFrom config.keeps offset (front ++ [m]))
  have hends : ((front ++ [m]).filter fun l => config.keeps l.kind).getLast? = some m := by
    simp [hkept]
  rw [List.getLast?_map, hends] at hlast
  obtain ⟨t, ht, hlexeme⟩ := Option.map_eq_some_iff.mp hlast
  exact ⟨t, ht, (congrArg Lexeme.kind hlexeme).trans hmark⟩

end Lossless
