import Lossless.Proofs.Coverage

/-!
# Strings nest in a stream of tokens

A string literal is a row of tokens, and code in its blocks may hold further literals.  A
`Nest` is the list of literals that are open at a place in a stream, innermost first, and
`Nest.step` says what a token does to it: which pieces may stand in a literal, that a mark is
followed by a name, and that a literal ends with the delimiter of its own style.

The lexer makes an error of a literal that breaks off, so **the tokens of every window close
every literal that they open** (`tokenize_nested`), and trivia stands only in code.  Words and
symbols are told apart by their spelling alone (`Rules.Spells`).
-/

namespace Lossless

/-! ## Open literals -/

/-- What comes next in an open string literal. -/
inductive StringPlace where
  /-- A piece of the literal, or its end. -/
  | piece
  /-- The name behind a mark. -/
  | name
  /-- Code of a block. -/
  | block
deriving DecidableEq, Repr

/-- A string literal that has been opened. -/
structure OpenString where
  style : StringStyle
  place : StringPlace
deriving DecidableEq, Repr

/-- The string literals that are open, innermost first. -/
abbrev Nest := List OpenString

namespace Nest

/-- Whether code comes next: outside of all literals, or in a block. -/
def isCode : Nest → Bool
  | [] => true
  | o :: _ => o.place == .block

/-- What a token does where a piece of a literal is expected. -/
def pieceStep (style : StringStyle) (outer : Nest) : TokenKind → Option Nest
  | .literal (.string (.closing s)) => if s = style then some outer else none
  | .literal (.string .basic) => some (⟨style, .piece⟩ :: outer)
  | .literal (.string .escaped) => some (⟨style, .piece⟩ :: outer)
  | .literal (.string .nameMark) => some (⟨style, .name⟩ :: outer)
  | .literal (.string .blockOpen) => some (⟨style, .block⟩ :: outer)
  | _ => none

/-- What a token does where a name is expected. -/
def nameStep (style : StringStyle) (outer : Nest) : TokenKind → Option Nest
  | .identifier => some (⟨style, .piece⟩ :: outer)
  | .keyword => some (⟨style, .piece⟩ :: outer)
  | _ => none

/-- The literals that are open behind the brace that closes a block. -/
def closeBlock : Nest → Option Nest
  | ⟨style, .block⟩ :: outer => some (⟨style, .piece⟩ :: outer)
  | _ => none

/-- What a token does in code. -/
def codeStep (n : Nest) : TokenKind → Option Nest
  | .literal (.string (.opening style)) => some (⟨style, .piece⟩ :: n)
  | .literal (.string .blockClose) => n.closeBlock
  | .literal (.string _) => none
  | .eof => none
  | _ => some n

/-- The literals that are open behind a token, if it may stand here. -/
def step (n : Nest) (kind : TokenKind) : Option Nest :=
  match n with
  | ⟨style, .piece⟩ :: outer => pieceStep style outer kind
  | ⟨style, .name⟩ :: outer => nameStep style outer kind
  | _ => codeStep n kind

/-- The literals that are open behind a row of tokens, if they may stand here. -/
def follow (n : Nest) : List TokenKind → Option Nest
  | [] => some n
  | kind :: kinds => (n.step kind).bind fun n' => follow n' kinds

/-- How many literals a token opens. -/
def opens : TokenKind → Nat
  | .literal (.string (.opening _)) => 1
  | _ => 0

/-- How many literals a token closes. -/
def closes : TokenKind → Nat
  | .literal (.string (.closing _)) => 1
  | _ => 0

theorem opens_plain {kind : TokenKind} (h : kind.isStringPart = false) :
    opens kind = 0 ∧ closes kind = 0 := by
  unfold opens closes
  constructor
  · split
    · cases h
    · rfl
  · split
    · cases h
    · rfl

theorem follow_append (n : Nest) (ks ls : List TokenKind) :
    n.follow (ks ++ ls) = (n.follow ks).bind fun n' => n'.follow ls := by
  induction ks generalizing n with
  | nil => rfl
  | cons kind ks ih =>
      rw [List.cons_append, follow, follow, Option.bind_assoc]
      exact congrArg _ (funext ih)

theorem step_code {n : Nest} (h : n.isCode = true) (kind : TokenKind) :
    n.step kind = n.codeStep kind := by
  match n, h with
  | [], _ => rfl
  | ⟨_, .block⟩ :: _, _ => rfl

/-- Where code comes next, a token that is no piece of a literal changes nothing. -/
theorem step_plain {n : Nest} (h : n.isCode = true) {kind : TokenKind}
    (hpart : kind.isStringPart = false) (heof : kind ≠ .eof) : n.step kind = some n := by
  rw [step_code h]
  unfold codeStep
  split
  · cases hpart
  · cases hpart
  · cases hpart
  · exact absurd rfl heof
  · rfl

/-- Trivia stands only in code, and changes nothing there. -/
theorem step_trivia {n n' : Nest} {kind : TokenKind} (htrivia : kind.isTrivia = true)
    (h : n.step kind = some n') : n.isCode = true ∧ n' = n := by
  have hkind : kind = .whitespace ∨ kind = .comment := by
    cases kind <;> simp_all [TokenKind.isTrivia]
  rcases n with _ | ⟨⟨style, place⟩, outer⟩
  · rcases hkind with rfl | rfl <;> exact ⟨rfl, (Option.some.inj h).symm⟩
  · cases place with
    | block => rcases hkind with rfl | rfl <;> exact ⟨rfl, (Option.some.inj h).symm⟩
    | piece => rcases hkind with rfl | rfl <;> cases h
    | name => rcases hkind with rfl | rfl <;> cases h

/-- Behind a mark there stands a name, and then the literal goes on. -/
theorem step_name {style : StringStyle} {outer n' : Nest} {kind : TokenKind}
    (h : step (⟨style, .name⟩ :: outer) kind = some n') :
    (kind = .identifier ∨ kind = .keyword) ∧ n' = ⟨style, .piece⟩ :: outer := by
  change nameStep style outer kind = some n' at h
  unfold nameStep at h
  split at h
  · exact ⟨Or.inl rfl, (Option.some.inj h).symm⟩
  · exact ⟨Or.inr rfl, (Option.some.inj h).symm⟩
  · cases h

theorem step_eof (n : Nest) : n.step .eof = none := by
  match n with
  | [] | ⟨_, .piece⟩ :: _ | ⟨_, .name⟩ :: _ | ⟨_, .block⟩ :: _ => rfl

/-- The end of the input stands nowhere else. -/
theorem not_mem_of_follow {n n' : Nest} {kinds : List TokenKind} (h : n.follow kinds = some n') :
    .eof ∉ kinds := by
  induction kinds generalizing n with
  | nil => simp
  | cons kind kinds ih =>
      obtain ⟨n₁, hstep, hrest⟩ := Option.bind_eq_some_iff.mp h
      refine List.not_mem_cons_of_ne_of_not_mem ?_ (ih hrest)
      rintro rfl
      rw [step_eof] at hstep
      cases hstep

/-- A stream stays nested if some of its trivia is left out. -/
theorem follow_filter {n n' : Nest} {kinds : List TokenKind} (h : n.follow kinds = some n')
    {keeps : TokenKind → Bool} (hkeeps : ∀ kind, kind.isTrivia = false → keeps kind = true) :
    n.follow (kinds.filter keeps) = some n' := by
  induction kinds generalizing n with
  | nil => exact h
  | cons kind kinds ih =>
      obtain ⟨n₁, hstep, hrest⟩ := Option.bind_eq_some_iff.mp h
      by_cases hkept : keeps kind = true
      · rw [List.filter_cons_of_pos hkept, follow, hstep]
        exact ih hrest
      · rw [List.filter_cons_of_neg hkept]
        cases htrivia : kind.isTrivia with
        | false => exact absurd (hkeeps kind htrivia) hkept
        | true =>
            obtain ⟨_, rfl⟩ := step_trivia htrivia hstep
            exact ih hrest

end Nest

/-! ## Spelling -/

/-- A lexeme is spelled as the rules have it: words are keywords or not by their text, symbols
stand in the lists of symbols, and a line end begins with a character that ends lines. -/
def Rules.Spells (r : Rules) (l : Lexeme) : Prop :=
  match l.kind with
  | .keyword => r.isKeyword l.text = true
  | .identifier => r.isKeyword l.text = false ∧ ∃ c cs, l.text = c :: cs ∧ r.startsWord c = true
  | .operator => l.text ∈ r.operators
  | .punctuation => l.text ∈ r.punctuation
  | .linebreak => ∃ c cs, l.text = c :: cs ∧ Text.isLineEnd c = true
  | _ => True

/-- A cut that changes nothing in code, and is spelled as the rules have it. -/
structure Cut.Plain (r : Rules) (cut : Cut) : Prop where
  inCode : ∀ n : Nest, n.codeStep cut.kind = some n
  spelled : r.Spells cut.lexeme

theorem longest?_mem {α : Type} {key : α → List Char} {cs : List Char} {as : List α} {a : α}
    (h : longest? key cs as = some a) : a ∈ as := by
  induction as generalizing a with
  | nil => cases h
  | cons b bs ih =>
      unfold longest? at h
      split at h
      · split at h
        · rename_i d hrest
          split at h
          · exact List.mem_cons_of_mem _ (ih (hrest.trans h))
          · exact Option.some.inj h ▸ List.mem_cons_self
        · exact Option.some.inj h ▸ List.mem_cons_self
      · exact List.mem_cons_of_mem _ (ih h)

namespace Plain

variable {r : Rules} {cs : List Char} {cut : Cut}

theorem linebreak?_plain (h : linebreak? cs = some cut) : cut.Plain r := by
  unfold linebreak? at h
  split at h
  · cases h
    exact ⟨fun _ => rfl, _, _, rfl, rfl⟩
  · split at h <;> cases h
    rename_i hc
    exact ⟨fun _ => rfl, _, _, rfl, hc⟩
  · cases h

theorem blanks?_plain (h : blanks? cs = some cut) : cut.Plain r := by
  unfold blanks? at h
  split at h
  · split at h <;> cases h
    exact ⟨fun _ => rfl, trivial⟩
  · cases h

theorem blockComment_plain (opener closer cs : List Char) :
    (blockComment opener closer cs).Plain r := by
  unfold blockComment
  split <;> exact ⟨fun _ => rfl, trivial⟩

theorem comment?_plain (h : comment? r cs = some cut) : cut.Plain r := by
  unfold comment? at h
  split at h
  · split at h <;> cases h
    · exact blockComment_plain _ _ _
    · exact ⟨fun _ => rfl, trivial⟩
  · cases h
    exact ⟨fun _ => rfl, trivial⟩
  · cases h
    exact blockComment_plain _ _ _
  · cases h

theorem charLiteral_plain (r : Rules) (delimiter : Char) (cs : List Char) :
    (charLiteral r delimiter cs).Plain r := by
  unfold charLiteral
  simp only
  split <;> exact ⟨fun _ => rfl, trivial⟩

theorem number_plain (r : Rules) (cs : List Char) : (Number.cut r cs).Plain r := by
  unfold Number.cut
  split
  · unfold Number.prefixed
    split <;> exact ⟨fun _ => rfl, trivial⟩
  · unfold Number.decimal
    simp only
    split
    · exact ⟨fun _ => rfl, trivial⟩
    · split <;> exact ⟨fun _ => rfl, trivial⟩

theorem symbol?_plain (h : symbol? r cs = some cut) : cut.Plain r := by
  unfold symbol? at h
  split at h
  · rename_i mark hmark
    cases h
    exact ⟨fun _ => rfl, longest?_mem hmark⟩
  · split at h <;> cases h
    rename_i mark hmark
    exact ⟨fun _ => rfl, longest?_mem hmark⟩

/-- A word is a keyword or an identifier, and either is spelled as such. -/
theorem word_plain {c : Char} (hc : r.startsWord c = true) (cs : List Char) :
    ((word r c cs).kind = .keyword ∨ (word r c cs).kind = .identifier) ∧ (word r c cs).Plain r := by
  unfold word
  simp only
  split
  · rename_i hkeyword
    exact ⟨Or.inl rfl, fun _ => rfl, hkeyword⟩
  · rename_i hkeyword
    exact ⟨Or.inr rfl, fun _ => rfl, Bool.eq_false_iff.mpr hkeyword, c, _, rfl, hc⟩

theorem other_plain (r : Rules) (c : Char) (cs : List Char) : (other r c cs).Plain r := by
  unfold other
  split
  · exact number_plain r _
  · split
    · rename_i cut hcut
      exact symbol?_plain hcut
    · split
      · rename_i hc
        exact (word_plain hc cs).2
      · exact ⟨fun _ => rfl, trivial⟩

end Plain

/-! ## Rows of lexemes -/

/-- Lexemes lead from some open literals to others, and are spelled as the rules have it. -/
structure Rules.Leads (r : Rules) (n : Nest) (ls : List Lexeme) (n' : Nest) : Prop where
  follow : n.follow (ls.map (·.kind)) = some n'
  spelled : ∀ l ∈ ls, r.Spells l

namespace Rules.Leads

variable {r : Rules} {n n₁ n' : Nest}

theorem nil (r : Rules) (n : Nest) : r.Leads n [] n :=
  ⟨rfl, by simp⟩

theorem cons {l : Lexeme} {ls : List Lexeme} (hstep : n.step l.kind = some n₁)
    (hl : r.Spells l) (h : r.Leads n₁ ls n') : r.Leads n (l :: ls) n' := by
  refine ⟨?_, List.forall_mem_cons.mpr ⟨hl, h.spelled⟩⟩
  rw [List.map_cons, Nest.follow, hstep]
  exact h.follow

theorem append {ks ls : List Lexeme} (h : r.Leads n ks n₁) (h' : r.Leads n₁ ls n') :
    r.Leads n (ks ++ ls) n' := by
  refine ⟨?_, List.forall_mem_append.mpr ⟨h.spelled, h'.spelled⟩⟩
  rw [List.map_append, Nest.follow_append, h.follow]
  exact h'.follow

end Rules.Leads

theorem Cut.Plain.leads {r : Rules} {cut : Cut} (h : cut.Plain r) {n : Nest}
    (hcode : n.isCode = true) : r.Leads n [cut.lexeme] n :=
  .cons ((Nest.step_code hcode _).trans (h.inCode n)) h.spelled (.nil r n)

/-! ## Literals and code -/

/-- A reader of blocks that leads out of a block, if it comes to the end of it. -/
def BlockScanner.Leads (r : Rules) (block : BlockScanner) : Prop :=
  ∀ rounds lineBound cs, (block rounds lineBound cs).closed = true → ∀ style outer,
    r.Leads (⟨style, .block⟩ :: outer) (block rounds lineBound cs).lexemes
      (⟨style, .piece⟩ :: outer)

theorem interpolation?_name {r : Rules} {blocks : Bool} {c d : Char} {cs : List Char}
    (h : interpolation? r blocks (c :: d :: cs) = some .name) : r.startsWord d = true := by
  unfold interpolation? at h
  simp only at h
  split at h
  · split at h
    · cases h
    · split at h
      · assumption
      · cases h
  · cases h

/-- **The pieces of a literal that comes to its end lead out of it.** -/
theorem pieces_leads (r : Rules) {block? : Option BlockScanner}
    (hblock : ∀ block ∈ block?, BlockScanner.Leads r block) (style : StringStyle)
    (delimiter : List Char) (rounds : Nat) (cs : List Char) (outer : Nest)
    (hclosed : (pieces r block? style delimiter rounds cs).closed = true) :
    r.Leads (⟨style, .piece⟩ :: outer) (pieces r block? style delimiter rounds cs).lexemes
      outer := by
  fun_induction pieces r block? style delimiter rounds cs with
  | case1 cs => cases hclosed
  | case2 rounds => cases hclosed
  | case3 rounds c cs hbreaks => cases hclosed
  | case4 rounds c cs hbreaks hclose => exact .cons (if_pos rfl) trivial (.nil r outer)
  | case5 rounds c hbreaks hescape hclose => cases hclosed
  | case6 rounds c hbreaks hescape d ds hbreaks' hclose => cases hclosed
  | case7 rounds c hbreaks hescape d ds hbreaks' hclose ih => exact .cons rfl trivial (ih hclosed)
  | case8 rounds c cs hbreaks hclose hescape block hb hopens inner hinner ih =>
      subst hb
      simp only [hopens] at hclosed ⊢
      rw [if_pos hinner] at hclosed ⊢
      have hcode := hblock block rfl _ _ _ hinner style outer
      have hopened : r.Leads (⟨style, .piece⟩ :: outer)
          (⟨.string .blockOpen, c :: cs.take 1⟩ :: inner.lexemes) (⟨style, .piece⟩ :: outer) :=
        .cons rfl trivial hcode
      exact hopened.append (ih hclosed)
  | case9 rounds c cs hbreaks hclose hescape block hb hopens inner hinner =>
      subst hb
      simp only [hopens] at hclosed
      rw [if_neg hinner] at hclosed
      cases hclosed
  | case10 rounds c hbreaks hescape hclose hopens =>
      simp only [hopens] at hclosed
      cases hclosed
  | case11 rounds c hbreaks hescape d ds name hclose hopens ih =>
      simp only [hopens] at hclosed ⊢
      obtain ⟨hkind, hplain⟩ := Plain.word_plain (interpolation?_name hopens) ds
      have hname : Nest.step (⟨style, .name⟩ :: outer) name.kind =
          some (⟨style, .piece⟩ :: outer) := by
        rcases hkind with hkind | hkind <;> simp only [name, hkind] <;> rfl
      exact .cons rfl trivial (.cons hname hplain.spelled (ih hclosed))
  | case12 rounds c cs hbreaks hclose hescape run rest hrun hname hopens ih =>
      revert hclosed
      split
      · rename_i block hinterpolation
        exact absurd rfl (hopens block hinterpolation)
      · rename_i hinterpolation
        exact absurd hinterpolation hname
      · rw [hrun]
        exact fun hclosed => .cons rfl trivial (ih hclosed)

/-- A string literal in code leads back to the code, whether it comes to its end or not. -/
theorem stringLiteral_leads (r : Rules) {block? : Option BlockScanner}
    (hblock : ∀ block ∈ block?, BlockScanner.Leads r block) (style : StringStyle)
    (delimiter : List Char) (rounds : Nat) (cs : List Char) {n : Nest} (hcode : n.isCode = true) :
    r.Leads n (stringLiteral r block? style delimiter rounds cs).1 n := by
  unfold stringLiteral Scan.sealed
  simp only
  split
  · rename_i hclosed
    have hpieces :=
      pieces_leads r hblock style delimiter rounds (cs.drop delimiter.length) n hclosed
    exact .cons (by rw [Nest.step_code hcode]; rfl) trivial hpieces
  · exact .cons (by rw [Nest.step_code hcode]; rfl) trivial (.nil r n)

theorem lexemesAt_leads (r : Rules) {block? : Option BlockScanner}
    (hblock : ∀ block ∈ block?, BlockScanner.Leads r block) (rounds : Nat) (c : Char)
    (cs : List Char) {n : Nest} (hcode : n.isCode = true) :
    r.Leads n (lexemesAt r block? rounds c cs).1 n := by
  unfold lexemesAt
  split
  · rename_i cut hcut
    have hplain : cut.Plain r := by
      simp only [Option.orElse_eq_orElse, Option.orElse_eq_or, Option.or_eq_some_iff] at hcut
      rcases hcut with hline | ⟨_, hblank | ⟨_, hcomment⟩⟩
      · exact Plain.linebreak?_plain hline
      · exact Plain.blanks?_plain hblank
      · exact Plain.comment?_plain hcomment
    exact hplain.leads hcode
  · split
    · exact stringLiteral_leads r hblock _ _ rounds _ hcode
    · simp only
      split
      · exact (Plain.charLiteral_plain r c cs).leads hcode
      · exact (Plain.other_plain r c cs).leads hcode

/-- Where code in a region may stand: outside of all literals, or in a block. -/
def Region.Admits (region : Region) (n : Nest) : Prop :=
  match region with
  | .top => n = []
  | .block _ => ∃ style outer, n = ⟨style, .block⟩ :: outer

theorem Region.Admits.isCode {region : Region} {n : Nest} (h : region.Admits n) :
    n.isCode = true := by
  cases region with
  | top =>
      obtain rfl : n = [] := h
      rfl
  | block lineBound =>
      obtain ⟨style, outer, rfl⟩ := h
      rfl

/-- **Code leads back to where it stands, and out of its block if it closes it.** -/
theorem tokensIn_leads (r : Rules) {block? : Option BlockScanner}
    (hblock : ∀ block ∈ block?, BlockScanner.Leads r block) (region : Region)
    (rounds braces : Nat) (cs : List Char) {n : Nest} (hn : region.Admits n) :
    ∃ n', r.Leads n (tokensIn r block? region rounds braces cs).lexemes n' ∧
      if (tokensIn r block? region rounds braces cs).closed then n.closeBlock = some n'
      else n' = n := by
  fun_induction tokensIn r block? region rounds braces cs with
  | case1 braces cs => exact ⟨n, .nil r n, rfl⟩
  | case2 rounds braces => exact ⟨n, .nil r n, rfl⟩
  | case3 rounds braces c cs hgate =>
      cases region with
      | top => cases hgate
      | block lineBound =>
          obtain ⟨style, outer, rfl⟩ := hn
          exact ⟨⟨style, .piece⟩ :: outer, .cons rfl trivial (.nil r _), rfl⟩
  | case4 rounds braces c cs hgate => exact ⟨n, .nil r n, rfl⟩
  | case5 rounds braces c cs open' hgate ls rest hstep ih =>
      obtain ⟨n', hrest, hclosed⟩ := ih
      have hls := lexemesAt_leads r hblock rounds c cs hn.isCode
      rw [hstep] at hls
      exact ⟨n', hls.append hrest, hclosed⟩

/-- Code in a region, however deep blocks may nest. -/
theorem code_leads (r : Rules) (levels : Nat) (region : Region) (rounds : Nat) (cs : List Char)
    {n : Nest} (hn : region.Admits n) :
    ∃ n', r.Leads n (code r levels region rounds cs).lexemes n' ∧
      if (code r levels region rounds cs).closed then n.closeBlock = some n' else n' = n := by
  induction levels generalizing region rounds cs n with
  | zero => exact tokensIn_leads r (by simp) region rounds 0 cs hn
  | succ levels ih =>
      refine tokensIn_leads r ?_ region rounds 0 cs hn
      intro block hb rounds lineBound cs hclosed style outer
      obtain rfl := Option.some.inj hb
      obtain ⟨n', hleads, hend⟩ := ih (.block lineBound) rounds cs ⟨style, outer, rfl⟩
      rw [if_pos hclosed] at hend
      obtain rfl := Option.some.inj hend
      exact hleads

/-- Outside of all literals there is no block to close. -/
theorem lexemes_leads (r : Rules) (cs : List Char) : r.Leads [] (lexemes r cs) [] := by
  obtain ⟨n', hleads, hend⟩ := code_leads r maxBlockDepth .top cs.length cs rfl
  split at hend
  · cases hend
  · subst hend
    exact hleads

theorem kinds_placeFrom (offset : Nat) (ls : List Lexeme) :
    (Lexeme.placeFrom offset ls).map (·.kind) = ls.map (·.kind) := by
  induction ls generalizing offset with
  | nil => rfl
  | cons l ls ih => exact congrArg _ (ih _)

/-- **The tokens of a window nest**, up to the end of the input: every literal that is opened
is closed, and each token is spelled as the rules have it. -/
theorem tokenize_nested (source : String) (config : Config) (asked : Option Span) :
    ∃ body stop, tokenize source config asked = body ++ [Token.eof stop] ∧
      Nest.follow [] (body.map (·.kind)) = some [] ∧
      ∀ t ∈ body, (Rules.ofConfig config).Spells ⟨t.kind, t.text.toList⟩ := by
  let w := window source.toList asked
  let ls := lexemes (Rules.ofConfig config) (w.chars source.toList)
  have hleads : (Rules.ofConfig config).Leads [] ls [] := lexemes_leads _ _
  refine ⟨_, w.stop, rfl, ?_, ?_⟩
  · have hkinds := (List.filter_map (f := Token.kind) (p := config.keeps)
      (l := Lexeme.placeFrom w.start ls)).symm
    rw [kinds_placeFrom] at hkinds
    exact hkinds ▸ Nest.follow_filter hleads.follow fun _ => config.keeps_significant
  · intro t ht
    obtain ⟨l, hl, hkind, htext⟩ := exists_of_mem_placeFrom (List.mem_filter.mp ht).1
    rw [hkind, htext]
    exact hleads.spelled l hl

end Lossless
