import Lossless.Config.Check
import Lossless.Proofs.LineBounds
import Lossless.Proofs.Resumption
import Lossless.Proofs.RulePriority

/-!
# The braces of a block

An interpolation block ends at the brace that balances the one in its opening.  The lexer keeps
count of the braces by the characters with which tokens begin, before it is known what the rules
make of them.

So the count is right where every brace at the start of a token is a token of its own
(`Rules.ReadsBraces`), and then **the braces that lie directly in a block are balanced**
(`tokenize_blocks_balance`).  The configuration has to keep braces out of all the other texts it
lists (`Config.BracesApart`), and in addition no comment may open with one: such a comment is
counted as a brace, and its block does not end where its braces do
(`tokenize_bracedComment`).

What lies directly in a block is told by counting literals: it is what stands where as many have
been closed as opened since the block began (`Lexeme.direct`).
-/

namespace Lossless

/-! ## What lies directly in a row -/

namespace Lexeme

/-- The lexemes of a row at which no literal is open, if `depth` literals are open in front of the
row. -/
def direct : Nat → List Lexeme → List Lexeme
  | _, [] => []
  | depth, l :: ls =>
    let inside := direct (depth + Nest.opens l.kind - Nest.closes l.kind) ls
    if depth = 0 then l :: inside else inside

theorem direct_append {depth : Nat} {ks : List Lexeme}
    (h : ∀ qs, qs <+: ks → closed qs ≤ depth + opened qs) (ls : List Lexeme) :
    direct depth (ks ++ ls) = direct depth ks ++ direct (depth + opened ks - closed ks) ls := by
  induction ks generalizing depth with
  | nil => rfl
  | cons k ks ih =>
      have hfirst := h [k] (List.prefix_append [k] ks)
      simp only [closed_cons, closed_nil, opened_cons, opened_nil] at hfirst
      have htail : ∀ qs, qs <+: ks →
          closed qs ≤ depth + Nest.opens k.kind - Nest.closes k.kind + opened qs := by
        intro qs hqs
        have hle := h (k :: qs) (List.cons_prefix_cons.mpr ⟨rfl, hqs⟩)
        simp only [closed_cons, opened_cons] at hle
        omega
      have hdepth : depth + Nest.opens k.kind - Nest.closes k.kind + opened ks - closed ks =
          depth + opened (k :: ks) - closed (k :: ks) := by
        simp only [closed_cons, opened_cons]
        omega
      simp only [List.cons_append, direct, ih htail, hdepth]
      split <;> rfl

/-- Where a literal is open all along, nothing lies directly in the row. -/
theorem direct_eq_nil {depth : Nat} {ls : List Lexeme}
    (h : ∀ qs, qs <+: ls → qs ≠ ls → closed qs < depth + opened qs) : direct depth ls = [] := by
  induction ls generalizing depth with
  | nil => rfl
  | cons l ls ih =>
      have hdepth := h [] (List.nil_prefix) (by simp)
      simp only [closed_nil, opened_nil] at hdepth
      have htail : ∀ qs, qs <+: ls → qs ≠ ls →
          closed qs < depth + Nest.opens l.kind - Nest.closes l.kind + opened qs := by
        intro qs hqs hne
        have hlt := h (l :: qs) (List.cons_prefix_cons.mpr ⟨rfl, hqs⟩) (by simpa using hne)
        simp only [closed_cons, opened_cons] at hlt
        omega
      have hopen : depth ≠ 0 := by omega
      simp [direct, ih htail, hopen]

/-- Rows one after the other, of which the first closes all the literals it opens. -/
theorem Balanced.direct_append {ks : List Lexeme} (h : Balanced ks) (ls : List Lexeme) :
    direct 0 (ks ++ ls) = direct 0 ks ++ direct 0 ls := by
  have hbound : ∀ qs, qs <+: ks → closed qs ≤ 0 + opened qs := by
    intro qs hqs
    simpa using h.beginning qs hqs
  rw [Lexeme.direct_append hbound, h.whole]
  simp

/-- Lexemes that are left out have no part in this. -/
theorem direct_filter {keeps : Lexeme → Bool} (hkeeps : ∀ l, keeps l = false → l.IsInert)
    (depth : Nat) (ls : List Lexeme) :
    direct depth (ls.filter keeps) = (direct depth ls).filter keeps := by
  induction ls generalizing depth with
  | nil => rfl
  | cons l ls ih =>
      cases hl : keeps l with
      | true =>
          by_cases hdepth : depth = 0
          · simp [direct, hl, ih, hdepth]
          · simp [direct, hl, ih, hdepth]
      | false =>
          obtain ⟨hopens, hcloses⟩ := hkeeps l hl
          by_cases hdepth : depth = 0
          · simp [direct, hl, ih, hdepth, hopens, hcloses]
          · simp [direct, hl, ih, hdepth, hopens, hcloses]

theorem counts_filter {keeps : Lexeme → Bool} (hkeeps : ∀ l, keeps l = false → l.IsInert)
    (ls : List Lexeme) :
    opened (ls.filter keeps) = opened ls ∧ closed (ls.filter keeps) = closed ls := by
  induction ls with
  | nil => exact ⟨rfl, rfl⟩
  | cons l ls ih =>
      cases hl : keeps l with
      | true => simp [hl, ih]
      | false => simp [hl, ih, (hkeeps l hl).1, (hkeeps l hl).2]

theorem Balanced.filter {ls : List Lexeme} (h : Balanced ls) {keeps : Lexeme → Bool}
    (hkeeps : ∀ l, keeps l = false → l.IsInert) : Balanced (ls.filter keeps) := by
  refine ⟨?_, ?_⟩
  · obtain ⟨hopened, hclosed⟩ := counts_filter hkeeps ls
    rw [hopened, hclosed, h.whole]
  · intro ks hks
    obtain ⟨qs, hqs, rfl⟩ := List.prefix_filter_iff.mp hks
    obtain ⟨hopened, hclosed⟩ := counts_filter hkeeps qs
    rw [hopened, hclosed]
    exact h.beginning qs hqs

end Lexeme

open Lexeme (direct Balanced opened closed)

/-- Of what one step reads, the first lexeme is all that lies directly in a row. -/
theorem IsStep.direct_eq {l : Lexeme} {ls : List Lexeme} (h : IsStep (l :: ls)) :
    direct 0 (l :: ls) = [l] := by
  have hinside : direct (0 + Nest.opens l.kind - Nest.closes l.kind) ls = [] := by
    apply Lexeme.direct_eq_nil
    intro qs hqs hne
    obtain ⟨ms, rfl⟩ := hqs
    have hms : ms ≠ [] := by
      rintro rfl
      exact hne (List.append_nil _).symm
    have hsplit : IsStep ([l] ++ (qs ++ ms)) := h
    have hfirst := hsplit.closed_lt_opened (List.cons_ne_nil l []) (by simp [hms])
    have hlt := IsStep.closed_lt_opened h (List.cons_ne_nil l qs) hms
    simp only [Lexeme.closed_cons, Lexeme.opened_cons, Lexeme.closed_nil, Lexeme.opened_nil]
      at hfirst hlt
    omega
  simp only [direct, hinside, if_true]

/-! ## Braces -/

/-- Whether a character is a brace. -/
def isBrace (c : Char) : Bool := c == '\x7b' || c == '\x7d'

/-- The punctuation that opens a pair of braces. -/
def Lexeme.openBrace : Lexeme := ⟨.punctuation, ['\x7b']⟩

/-- The punctuation that closes a pair of braces. -/
def Lexeme.closeBrace : Lexeme := ⟨.punctuation, ['\x7d']⟩

open Lexeme (openBrace closeBrace)

/-- Braces that are balanced in a row, if `braces` of them are open in front of it: none is closed
before it is opened, and in the end all are. -/
structure BracesPair (braces : Nat) (ls : List Lexeme) : Prop where
  whole : ls.count closeBrace = braces + ls.count openBrace
  beginning : ∀ ks, ks <+: ls → ks.count closeBrace ≤ braces + ks.count openBrace

namespace BracesPair

variable {braces : Nat} {ls : List Lexeme}

theorem nil : BracesPair 0 [] := by
  refine ⟨rfl, ?_⟩
  intro ks hks
  obtain rfl := List.prefix_nil.mp hks
  exact Nat.le_refl _

/-- A lexeme in front of the row, by what it does to the number of open braces. -/
theorem cons {l : Lexeme} {braces' : Nat} (h : BracesPair braces' ls)
    (hl : [l].count closeBrace + braces' = braces + [l].count openBrace) :
    BracesPair braces (l :: ls) := by
  have hcount : ∀ (b : Lexeme) (ks : List Lexeme),
      (l :: ks).count b = [l].count b + ks.count b := by
    intro b ks
    rw [← List.singleton_append, List.count_append]
  refine ⟨?_, ?_⟩
  · have hwhole := h.whole
    have hopens := hcount openBrace ls
    have hcloses := hcount closeBrace ls
    omega
  · intro ks hks
    rcases List.prefix_cons_iff.mp hks with rfl | ⟨qs, rfl, hqs⟩
    · simp
    · have hle := h.beginning qs hqs
      have hopens := hcount openBrace qs
      have hcloses := hcount closeBrace qs
      omega

theorem filter (h : BracesPair braces ls) {keeps : Lexeme → Bool} (hopen : keeps openBrace = true)
    (hclose : keeps closeBrace = true) : BracesPair braces (ls.filter keeps) := by
  refine ⟨?_, ?_⟩
  · rw [List.count_filter hopen, List.count_filter hclose, h.whole]
  · intro ks hks
    obtain ⟨qs, hqs, rfl⟩ := List.prefix_filter_iff.mp hks
    rw [List.count_filter hopen, List.count_filter hclose]
    exact h.beginning qs hqs

end BracesPair

/-- The lexeme closes a block that holds the row: the literals in the row are closed, and no block
is closed directly in it. -/
structure ClosesBlock (inner : List Lexeme) (closer : Lexeme) : Prop where
  kind : closer.kind = .string .blockClose
  balanced : Balanced inner
  first : ∀ l ∈ direct 0 inner, l.kind ≠ .string .blockClose

/-- A block is closed in one place. -/
theorem ClosesBlock.unique {inner inner' rest rest' : List Lexeme} {closer closer' : Lexeme}
    (h : ClosesBlock inner closer) (h' : ClosesBlock inner' closer')
    (heq : inner ++ closer :: rest = inner' ++ closer' :: rest') : inner = inner' := by
  -- a lexeme that closes the shorter of two rows lies directly in the longer one
  have hlonger : ∀ {ks ks' ms : List Lexeme} {k k' : Lexeme}, ClosesBlock ks k → ClosesBlock ks' k' →
      ks' = ks ++ k :: ms → False := by
    rintro ks ks' ms k k' hk hk' rfl
    refine hk'.first k ?_ hk.kind
    rw [hk.balanced.direct_append]
    exact List.mem_append_right _ (by simp [direct])
  rcases List.append_eq_append_iff.mp heq with ⟨ks, hks, hrest⟩ | ⟨ks, hks, hrest⟩
  · cases ks with
    | nil => exact (hks.trans (List.append_nil _)).symm
    | cons k ks =>
        obtain ⟨rfl, _⟩ := List.cons.inj hrest
        exact (hlonger h h' hks).elim
  · cases ks with
    | nil => exact hks.trans (List.append_nil _)
    | cons k ks =>
        obtain ⟨rfl, _⟩ := List.cons.inj hrest
        exact (hlonger h' h hks).elim

/-- Every block that is opened in the row is closed in it, and the braces directly in it are
balanced. -/
def BlocksPair (ls : List Lexeme) : Prop :=
  ∀ before opener after, ls = before ++ opener :: after → opener.kind = .string .blockOpen →
    ∃ inner closer rest, after = inner ++ closer :: rest ∧ ClosesBlock inner closer ∧
      BracesPair 0 (direct 0 inner)

namespace BlocksPair

theorem nil : BlocksPair [] := by
  intro before opener after h
  simp at h

theorem single {l : Lexeme} (hl : l.kind ≠ .string .blockOpen) : BlocksPair [l] := by
  intro before opener after h hopener
  obtain ⟨rfl, rfl, rfl⟩ : before = [] ∧ opener = l ∧ after = [] := by
    cases before with
    | nil => simpa [eq_comm] using h
    | cons b bs => simp at h
  exact absurd hopener hl

theorem append {ks ls : List Lexeme} (hks : BlocksPair ks) (hls : BlocksPair ls) :
    BlocksPair (ks ++ ls) := by
  intro before opener after h hopener
  rcases List.append_eq_append_iff.mp h with ⟨front, rfl, hback⟩ | ⟨back, rfl, hback⟩
  · exact hls front opener after hback hopener
  · cases back with
    | nil => exact hls [] opener after hback.symm hopener
    | cons k back =>
        obtain ⟨rfl, rfl⟩ := List.cons.inj hback
        obtain ⟨inner, closer, rest, rfl, hcloses, hbraces⟩ := hks before _ back rfl hopener
        exact ⟨inner, closer, rest ++ ls, by simp, hcloses, hbraces⟩

theorem cons {l : Lexeme} {ls : List Lexeme} (hl : l.kind ≠ .string .blockOpen)
    (hls : BlocksPair ls) : BlocksPair (l :: ls) :=
  (single hl).append hls

/-- A block with its delimiters. -/
theorem block {opener closer : Lexeme} {inner : List Lexeme} (hinner : BlocksPair inner)
    (hcloses : ClosesBlock inner closer) (hbraces : BracesPair 0 (direct 0 inner)) :
    BlocksPair (opener :: (inner ++ [closer])) := by
  have hcloser : closer.kind ≠ .string .blockOpen := by
    rw [hcloses.kind]
    simp [TokenKind.string]
  intro before start after h hstart
  cases before with
  | nil =>
      obtain ⟨rfl, rfl⟩ := List.cons.inj h
      exact ⟨inner, closer, [], rfl, hcloses, hbraces⟩
  | cons b before =>
      obtain ⟨_, hrest⟩ := List.cons.inj h
      exact hinner.append (single hcloser) before start after hrest hstart

end BlocksPair

/-- A scan of a block that came to its end: a row in which the braces are balanced, with `braces`
of them open in front of it, and then what closes the block. -/
def Scan.EndsBlock (scan : Scan) (braces : Nat) : Prop :=
  ∃ inner closer, scan.lexemes = inner ++ [closer] ∧ BlocksPair inner ∧ ClosesBlock inner closer ∧
    BracesPair braces (direct 0 inner)

/-- Every brace at the start of a token is a token of its own. -/
def Rules.ReadsBraces (r : Rules) : Prop :=
  ∀ c, isBrace c = true → ∀ block? rounds cs,
    lexemesAt r block? rounds c cs = ([⟨.punctuation, [c]⟩], cs)

section Scanners

variable {r : Rules} {block? : Option BlockScanner}

theorem pieces_blocksPair
    (hblock : ∀ block ∈ block?, ∀ rounds lineBound cs, (block rounds lineBound cs).closed = true →
      (block rounds lineBound cs).EndsBlock 0)
    (style : StringStyle) (delimiter : List Char) (rounds : Nat) (cs : List Char)
    (hclosed : (pieces r block? style delimiter rounds cs).closed = true) :
    BlocksPair (pieces r block? style delimiter rounds cs).lexemes := by
  fun_induction pieces r block? style delimiter rounds cs with
  | case1 | case2 | case3 | case5 | case6 => cases hclosed
  | case4 => exact .single (by simp [TokenKind.string])
  | case7 rounds c hbreaks hescape d ds hbreaks' hclose ih =>
      exact .cons (by simp [TokenKind.string]) (ih hclosed)
  | case8 rounds c cs hbreaks hclose hescape block hb hopens inner hinner ih =>
      subst hb
      simp only [hopens] at hclosed ⊢
      rw [if_pos hinner] at hclosed ⊢
      obtain ⟨row, closer, hrow, hblocks, hcloses, hbraces⟩ := hblock block rfl _ _ _ hinner
      rw [Scan.after, hrow]
      exact (BlocksPair.block hblocks hcloses hbraces).append (ih hclosed)
  | case9 rounds c cs hbreaks hclose hescape block hb hopens inner hinner =>
      subst hb
      simp only [hopens] at hclosed
      rw [if_neg hinner] at hclosed
      cases hclosed
  | case10 rounds c hbreaks hescape hclose hopens =>
      simp only [hopens] at hclosed
      cases hclosed
  | case11 rounds c hbreaks hescape d ds name hclose hopens ih =>
      simp only [hopens] at hclosed ⊢
      have hname : name.lexeme.kind ≠ .string .blockOpen := by
        simp only [name, Plain.word, Cut.lexeme]
        split <;> simp [TokenKind.string]
      exact .cons (by simp [TokenKind.string]) (.cons hname (ih hclosed))
  | case12 rounds c cs hbreaks hclose hescape run rest hrun hname hopens ih =>
      revert hclosed
      split
      · rename_i block hinterpolation
        exact absurd rfl (hopens block hinterpolation)
      · rename_i hinterpolation
        exact absurd hinterpolation hname
      · rw [hrun]
        exact fun hclosed => .cons (by simp [TokenKind.string]) (ih hclosed)

/-- Code begins with no delimiter of a block. -/
theorem WellNested.head_ne {around : Option StringStyle} {levels : Nat} {l : Lexeme}
    {ls : List Lexeme} (h : WellNested (.code around levels) (l :: ls)) :
    l.kind ≠ .string .blockOpen ∧ l.kind ≠ .string .blockClose := by
  generalize hrow : l :: ls = row at h
  cases h with
  | empty => cases hrow
  | plain hpart =>
      obtain ⟨rfl, _⟩ := List.cons.inj hrow
      constructor <;> intro hkind <;> rw [hkind] at hpart <;> cases hpart
  | literal hopener =>
      obtain ⟨rfl, _⟩ := List.cons.inj hrow
      rw [hopener]
      simp [TokenKind.string]

/-- What a brace at the start of a token does to the number of open braces, and that nothing else
changes it. -/
theorem Region.gate_token {lineBound : Bool} {braces open' : Nat} {c : Char}
    (h : (Region.block lineBound).gate braces c = .token open') :
    [⟨.punctuation, [c]⟩].count closeBrace + open' =
      braces + [⟨.punctuation, [c]⟩].count openBrace := by
  unfold gate at h
  by_cases hclose : c = '\x7d'
  · subst hclose
    cases braces with
    | zero => cases h
    | succ n =>
        cases h
        simp [openBrace, closeBrace, Nat.add_comm]
  · by_cases hopen : c = '\x7b'
    · subst hopen
      cases h
      simp [openBrace, closeBrace]
    · have hopens : open' = braces := by
        simp only [beq_iff_eq, hclose, hopen, if_false] at h
        split at h <;> cases h
        rfl
      simp [openBrace, closeBrace, hclose, hopen, hopens]

theorem Region.gate_close {lineBound : Bool} {braces : Nat} {c : Char}
    (h : (Region.block lineBound).gate braces c = .close) : braces = 0 := by
  obtain rfl := eq_brace_of_gate h
  cases braces with
  | zero => rfl
  | succ n => cases h

theorem lexemesAt_inCode {levels : Nat} (hnest : BlocksNest levels block?) (rounds : Nat) (c : Char)
    (cs : List Char) : WellNested (.code none levels) (lexemesAt r block? rounds c cs).1 :=
  lexemesAt_wellNested r hnest rounds c cs (by intro h; cases h)

/-- **One step of code.**  Of what it reads, one lexeme lies directly in the row, and it begins
with the first character of the text. -/
theorem lexemesAt_first (hsplits : ∀ block ∈ block?, BlockScanner.Splits block) {levels : Nat}
    (hnest : BlocksNest levels block?) (rounds : Nat) (c : Char) (cs : List Char) :
    ∃ l, direct 0 (lexemesAt r block? rounds c cs).1 = [l] ∧ l.text.head? = some c ∧
      l.kind ≠ .string .blockClose := by
  obtain ⟨hsplit, hne⟩ := lexemesAt_split r hsplits rounds c cs
  have hstep := lexemesAt_isStep r hnest rounds c cs
  have hnested := lexemesAt_inCode (r := r) hnest rounds c cs
  generalize (lexemesAt r block? rounds c cs).1 = row at hsplit hne hstep hnested
  obtain ⟨l, tail, rfl⟩ := List.exists_cons_of_ne_nil hne
  refine ⟨l, hstep.direct_eq, ?_, hnested.head_ne.2⟩
  have hjoined := hsplit.joined
  obtain ⟨d, ds, htext⟩ := List.exists_cons_of_ne_nil (hsplit.proper l List.mem_cons_self).1
  rw [Lexeme.joined_cons, htext] at hjoined
  rw [htext, (List.cons.inj hjoined).1]
  rfl

section

variable (hsplits : ∀ block ∈ block?, BlockScanner.Splits block) {levels : Nat}
  (hnest : BlocksNest levels block?)
  (hblock : ∀ block ∈ block?, ∀ rounds lineBound cs, (block rounds lineBound cs).closed = true →
    (block rounds lineBound cs).EndsBlock 0)
include hnest hblock

theorem lexemesAt_blocksPair (rounds : Nat) (c : Char) (cs : List Char) :
    BlocksPair (lexemesAt r block? rounds c cs).1 := by
  have hnested := lexemesAt_inCode (r := r) hnest rounds c cs
  unfold lexemesAt at hnested ⊢
  split at hnested
  · exact .single hnested.head_ne.1
  · split at hnested
    · rename_i style delimiter hopening
      simp only [stringLiteral, Scan.sealed]
      split
      · rename_i hclosed
        exact .cons (by simp [TokenKind.string])
          (pieces_blocksPair hblock style delimiter rounds _ hclosed)
      · exact .single (by simp [TokenKind.string])
    · exact .single hnested.head_ne.1

theorem tokensIn_blocksPair (region : Region) (rounds braces : Nat) (cs : List Char) :
    BlocksPair (tokensIn r block? region rounds braces cs).lexemes := by
  fun_induction tokensIn r block? region rounds braces cs with
  | case1 | case2 | case4 => exact .nil
  | case3 => exact .single (by simp [TokenKind.string])
  | case5 rounds braces c cs open' hgate ls rest hstep ih =>
      have hls := lexemesAt_blocksPair (r := r) hnest hblock rounds c cs
      rw [hstep] at hls
      exact hls.append ih

include hsplits

/-- **The braces of a block are counted by the characters with which its tokens begin.** -/
theorem tokensIn_endsBlock (hbraces : r.ReadsBraces) (lineBound : Bool) (rounds braces : Nat)
    (cs : List Char)
    (hclosed : (tokensIn r block? (.block lineBound) rounds braces cs).closed = true) :
    (tokensIn r block? (.block lineBound) rounds braces cs).EndsBlock braces := by
  fun_induction tokensIn r block? (.block lineBound) rounds braces cs with
  | case1 | case2 | case4 => cases hclosed
  | case3 rounds braces c cs hgate =>
      obtain rfl := Region.gate_close hgate
      exact ⟨[], _, rfl, .nil, ⟨rfl, .nil, by simp [direct]⟩, .nil⟩
  | case5 rounds braces c cs open' hgate ls rest hstep ih =>
      obtain ⟨inner, closer, hinner, hblocks, hcloses, hpair⟩ := ih hclosed
      have hls := lexemesAt_blocksPair (r := r) hnest hblock rounds c cs
      have hbalanced := (lexemesAt_inCode (r := r) hnest rounds c cs).balanced
      obtain ⟨l, hdirect, hhead, hkind⟩ := lexemesAt_first hsplits hnest rounds c cs
      -- the lexeme changes the number of open braces as its first character does
      have hcount : [l].count closeBrace + open' = braces + [l].count openBrace := by
        have hgated := Region.gate_token hgate
        by_cases hc : isBrace c = true
        · rw [hbraces c hc] at hdirect
          obtain rfl : ⟨.punctuation, [c]⟩ = l := by simpa [direct] using hdirect
          exact hgated
        · have hother : ∀ k : Lexeme, k.text.head? = some c → k ≠ openBrace ∧ k ≠ closeBrace := by
            intro k hk
            constructor <;> rintro rfl <;> obtain rfl := Option.some.inj hk <;> exact hc rfl
          have hl := hother l hhead
          have hfirst := hother ⟨.punctuation, [c]⟩ rfl
          simp only [List.count_singleton, beq_eq_false_iff_ne.mpr hl.1,
            beq_eq_false_iff_ne.mpr hl.2, beq_eq_false_iff_ne.mpr hfirst.1,
            beq_eq_false_iff_ne.mpr hfirst.2] at hgated ⊢
          exact hgated
      rw [hstep] at hls hbalanced hdirect
      refine ⟨ls ++ inner, closer, ?_, hls.append hblocks, ⟨hcloses.kind,
        hbalanced.append hcloses.balanced, ?_⟩, ?_⟩
      · rw [Scan.after, hinner, List.append_assoc]
      · rw [hbalanced.direct_append, hdirect]
        intro k hk
        rcases List.mem_cons.mp hk with rfl | hk
        · exact hkind
        · exact hcloses.first k hk
      · rw [hbalanced.direct_append, hdirect]
        exact hpair.cons hcount

end

end Scanners

theorem blocksNest_code (r : Rules) (levels : Nat) :
    BlocksNest (levels + 1)
      (some fun rounds lineBound => code r levels (.block lineBound) rounds) := by
  intro block hb
  obtain rfl := Option.some.inj hb
  refine ⟨levels, rfl, ?_⟩
  intro rounds style cs hclosed
  exact ((code_isCode r levels (.block (style == .singleLine)) rounds cs ⟨style, rfl, rfl⟩).closed
    hclosed).2

theorem code_braces {r : Rules} (hbraces : r.ReadsBraces) (levels : Nat) (rounds : Nat)
    (cs : List Char) :
    BlocksPair (code r levels .top rounds cs).lexemes ∧
      ∀ lineBound, (code r levels (.block lineBound) rounds cs).closed = true →
        (code r levels (.block lineBound) rounds cs).EndsBlock 0 := by
  induction levels generalizing rounds cs with
  | zero =>
      have hnest : BlocksNest 0 none := by simp [BlocksNest]
      exact ⟨tokensIn_blocksPair hnest (by simp) .top rounds 0 cs, fun lineBound hclosed =>
        tokensIn_endsBlock (by simp) hnest (by simp) hbraces lineBound rounds 0 cs hclosed⟩
  | succ levels ih =>
      have hsplits : ∀ block ∈ some fun rounds lineBound =>
          code r levels (.block lineBound) rounds, BlockScanner.Splits block := by
        intro block hb
        obtain rfl := Option.some.inj hb
        exact fun rounds lineBound cs => code_split r levels (.block lineBound) rounds cs
      have hblock : ∀ block ∈ some fun rounds lineBound =>
          code r levels (.block lineBound) rounds, ∀ rounds lineBound cs,
            (block rounds lineBound cs).closed = true →
              (block rounds lineBound cs).EndsBlock 0 := by
        intro block hb
        obtain rfl := Option.some.inj hb
        exact fun rounds lineBound cs hclosed => (ih rounds cs).2 lineBound hclosed
      have hnest := blocksNest_code r levels
      exact ⟨tokensIn_blocksPair hnest hblock .top rounds 0 cs, fun lineBound hclosed =>
        tokensIn_endsBlock hsplits hnest hblock hbraces lineBound rounds 0 cs hclosed⟩

/-! ## Configurations that keep braces apart -/

/-- Braces are punctuation, and no other text that a configuration lists for symbols, words and
literals has a brace in it. -/
structure Config.BracesApart (c : Config) : Prop where
  opens : "\x7b" ∈ c.punctuation
  closes : "\x7d" ∈ c.punctuation
  symbols : ∀ mark ∈ c.punctuation ++ c.operators, mark ∉ ["\x7b", "\x7d"] →
    mark.toList.any isBrace = false
  words : (c.wordStartExtra.toList ++ c.wordPartExtra.toList).any isBrace = false
  delimiters : (c.stringDelimiter.toList ++ c.charDelimiter.toList).any isBrace = false
  multiline : ∀ delimiter ∈ c.multilineDelimiter, delimiter.toList.any isBrace = false

/-- No comment opens with a brace. -/
def Config.CommentsOpenApart (c : Config) : Prop :=
  ∀ opener ∈ c.lineComments ++ c.blockComments.map (·.opener),
    opener.toList.head?.any isBrace = false

/-- No entry is chosen at a brace if none begins with one. -/
theorem longest?_eq_none_of_isBrace {α : Type} {key : α → List Char} {as : List α}
    (h : ∀ a ∈ as, (key a).head?.any isBrace = false) {c : Char} (hc : isBrace c = true)
    (cs : List Char) : longest? key (c :: cs) as = none := by
  cases hlongest : longest? key (c :: cs) as with
  | none => rfl
  | some a =>
      obtain ⟨hne, hbegins⟩ := longest?_isPrefixOf hlongest
      obtain ⟨d, ds, hkey⟩ := List.exists_cons_of_ne_nil hne
      have hhead := h a (longest?_mem hlongest)
      rw [hkey] at hbegins hhead
      obtain ⟨rfl, _⟩ := List.cons_prefix_cons.mp (List.isPrefixOf_iff_prefix.mp hbegins)
      rw [List.head?_cons, Option.any_some, hc] at hhead
      cases hhead

namespace Config.BracesApart

variable {c : Config} (h : c.BracesApart)
include h

/-- At a brace the brace is the longest punctuation. -/
theorem longest?_punctuation {ch : Char} (hch : isBrace ch = true) (cs : List Char) :
    longest? id (ch :: cs) (Rules.ofConfig c).punctuation = some [ch] := by
  have hmem : [ch] ∈ (Rules.ofConfig c).punctuation := by
    have hlisted : String.ofList [ch] ∈ c.punctuation := by
      simp only [isBrace, Bool.or_eq_true, beq_iff_eq] at hch
      obtain rfl | rfl := hch
      · exact h.opens
      · exact h.closes
    exact List.mem_map.mpr ⟨_, hlisted, String.toList_ofList⟩
  cases hlongest : longest? id (ch :: cs) (Rules.ofConfig c).punctuation with
  | none =>
      have hempty := eq_nil_of_longest?_eq_none hlongest hmem (List.prefix_append [ch] cs)
      cases hempty
  | some mark =>
      obtain ⟨hne, hbegins⟩ := longest?_isPrefixOf hlongest
      obtain ⟨entry, hentry, rfl⟩ := List.mem_map.mp (longest?_mem hlongest)
      obtain ⟨d, ds, hkey⟩ := List.exists_cons_of_ne_nil hne
      rw [hkey] at hbegins
      obtain ⟨rfl, _⟩ := List.cons_prefix_cons.mp (List.isPrefixOf_iff_prefix.mp hbegins)
      have hbrace : entry ∈ ["\x7b", "\x7d"] := by
        by_contra hother
        have hfree := h.symbols entry (List.mem_append_left _ hentry) hother
        rw [show entry.toList = d :: ds from hkey, List.any_cons, hch] at hfree
        cases hfree
      have hsingle : ds = [] := by
        simp only [List.mem_cons, List.not_mem_nil, or_false] at hbrace
        obtain rfl | rfl := hbrace <;> exact (List.cons.inj hkey).2.symm
      rw [hsingle] at hkey
      exact congrArg some hkey

theorem readsBraces (hcomments : c.CommentsOpenApart) : (Rules.ofConfig c).ReadsBraces := by
  intro ch hch block? rounds cs
  have hblank : Text.isBlank ch = false ∧ ch.isDigit = false := by
    simp only [isBrace, Bool.or_eq_true, beq_iff_eq] at hch
    obtain rfl | rfl := hch <;> decide
  have hline : Text.isLineEnd ch = false := by
    rw [Bool.eq_false_iff]
    intro hend
    rw [Text.isBlank_of_isLineEnd hend] at hblank
    cases hblank.1
  have hdelimiters := h.delimiters
  rw [List.any_append, Bool.or_eq_false_iff] at hdelimiters
  have hne : ∀ {d : Option Char}, d.toList.any isBrace = false → d ≠ some ch := by
    rintro d hd rfl
    simp [hch] at hd
  have hplain : (Rules.ofConfig c).IsPlainAt ch cs := by
    refine ⟨hline, by simp [Text.isInlineBlank, hblank.1], ?_, ?_⟩
    · rw [Config.CommentsOpenApart, List.forall_mem_append] at hcomments
      have hlines : longest? id (ch :: cs) (Rules.ofConfig c).lineComments = none := by
        apply longest?_eq_none_of_isBrace _ hch
        simpa [Rules.ofConfig] using hcomments.1
      have hblocks : longest? Prod.fst (ch :: cs) (Rules.ofConfig c).blockComments = none := by
        apply longest?_eq_none_of_isBrace _ hch
        simpa [Rules.ofConfig] using hcomments.2
      rw [Plain.comment?, hlines, hblocks]
    · have hmultiline : ((Rules.ofConfig c).multilineDelimiter.filter
          fun d => !d.isEmpty && d.isPrefixOf (ch :: cs)) = none := by
        rw [Option.filter_eq_none_iff]
        intro mark hmark hbegins
        obtain ⟨delimiter, hdelimiter, rfl⟩ := Option.mem_map.mp hmark
        have hfree := h.multiline delimiter hdelimiter
        cases htext : delimiter.toList with
        | nil => simp [htext] at hbegins
        | cons d ds =>
            simp only [htext, List.isEmpty_cons, Bool.not_false, Bool.true_and] at hbegins
            obtain ⟨rfl, _⟩ := List.cons_prefix_cons.mp (List.isPrefixOf_iff_prefix.mp hbegins)
            rw [htext, List.any_cons, hch] at hfree
            cases hfree
      have hstring : ((Rules.ofConfig c).stringDelimiter.filter
          fun d => (ch :: cs).head? == some d) = none := by
        rw [Option.filter_eq_none_iff]
        intro quote hquote heq
        rw [← Option.some.inj (beq_iff_eq.mp heq)] at hquote
        exact hne hdelimiters.1 hquote
      rw [opening?, hmultiline, hstring]
  have htoken : Plain.token (Rules.ofConfig c) ch cs = ⟨.punctuation, [ch], cs⟩ := by
    have hchar : ¬ (Rules.ofConfig c).charDelimiter = some ch := hne hdelimiters.2
    simp [Plain.token, hchar, Plain.other, hblank.2, Plain.symbol?, h.longest?_punctuation hch]
  rw [hplain.lexemesAt_eq, htoken]
  rfl

end Config.BracesApart

namespace Lexeme

theorem stream_append (keeps : TokenKind → Bool) (offset : Nat) (ks ls : List Lexeme) :
    stream keeps offset (ks ++ ls) = (placeFrom offset ks).filter (fun t => keeps t.kind) ++
      stream keeps (offset + Text.byteSize (joined ks)) ls := by
  induction ks generalizing offset with
  | nil => rfl
  | cons k ks ih =>
      rw [List.cons_append, joined_cons, Text.byteSize_append, ← Nat.add_assoc]
      by_cases hk : keeps k.kind = true
      · rw [stream_cons_of_pos offset hk, ih]
        simp [placeFrom, hk]
      · rw [stream_cons_of_neg offset hk, ih]
        simp [placeFrom, hk]

end Lexeme

theorem ClosesBlock.filter {inner : List Lexeme} {closer : Lexeme} (h : ClosesBlock inner closer)
    {keeps : Lexeme → Bool} (hkeeps : ∀ l, keeps l = false → l.IsInert) :
    ClosesBlock (inner.filter keeps) closer := by
  refine ⟨h.kind, h.balanced.filter hkeeps, ?_⟩
  intro l hl
  rw [Lexeme.direct_filter hkeeps] at hl
  exact h.first l (List.mem_of_mem_filter hl)

/-- **A block ends at the brace that balances it.**  Behind the opening of a block there is one
place at which it is closed, and directly in the block no brace is closed before it is opened and
all are closed. -/
theorem tokenize_blocks_balance (source : String) (config : Config) (asked : Option Span)
    (hbraces : config.BracesApart) (hcomments : config.CommentsOpenApart)
    {before after : List Token} {opener : Token}
    (htokens : tokenize source config asked = before ++ opener :: after)
    (hopener : opener.kind = .string .blockOpen) :
    ∃ (inner : List Token) (closer : Token) (rest : List Token), after = inner ++ closer :: rest ∧
      ClosesBlock (inner.map Token.lexeme) closer.lexeme ∧
      BracesPair 0 (direct 0 (inner.map Token.lexeme)) ∧
      ∀ (inner' : List Token) (closer' : Token) (rest' : List Token),
        after = inner' ++ closer' :: rest' →
          ClosesBlock (inner'.map Token.lexeme) closer'.lexeme → inner' = inner := by
  obtain ⟨as, ms, bs, hsource, hwindow⟩ := window_eq source.toList asked
  rw [tokenize_eq_stream config hsource hwindow] at htokens
  have hinert : ∀ l : Lexeme, config.keeps l.kind = false → l.IsInert :=
    fun l => Config.isInert_of_keeps
  rcases Lexeme.stream_eq_append htokens with ⟨ks, l, ls, hls, _, rfl, _, _, hafter⟩ | ⟨rfl, _, _⟩
  · -- the block among the lexemes
    obtain ⟨row, closer, rest, rfl, hcloses, hpair⟩ :=
      (code_braces (hbraces.readsBraces hcomments) maxBlockDepth ms.length ms).1 ks _ ls hls hopener
    have hkept : config.keeps closer.kind = true := by
      rw [hcloses.kind]
      rfl
    rw [Lexeme.stream_append, Lexeme.stream_cons_of_pos _ hkept] at hafter
    generalize hend : Token.mk closer.kind _ _ = t at hafter
    have hlexeme : t.lexeme = closer := by simp [← hend, Token.lexeme]
    have hrow := map_lexeme_filter_placeFrom config.keeps opener.span.stop row
    have hcloses' := hcloses.filter hinert
    rw [← hrow, ← hlexeme] at hcloses'
    refine ⟨_, t, _, hafter, hcloses', ?_, ?_⟩
    · rw [hrow, Lexeme.direct_filter hinert]
      exact hpair.filter rfl rfl
    · intro inner' closer' rest' heq h'
      have hrows := congrArg (List.map Token.lexeme) (heq.symm.trans hafter)
      simp only [List.map_append, List.map_cons] at hrows
      have hlength := congrArg List.length (h'.unique hcloses' hrows)
      simp only [List.length_map] at hlength
      exact (List.append_inj (heq.symm.trans hafter) hlength).1
  · cases hopener

theorem bracesApart_curlyBrace : Config.curlyBrace.BracesApart where
  opens := by decide
  closes := by decide
  symbols := by decide +kernel
  words := by decide
  delimiters := by decide
  multiline := by decide +kernel

/-- Comments have no part in this. -/
theorem Config.BracesApart.withComments {c : Config} (h : c.BracesApart)
    (comments : List BlockComment) : { c with blockComments := comments }.BracesApart :=
  ⟨h.opens, h.closes, h.symbols, h.words, h.delimiters, h.multiline⟩

/-- A block with a pair of braces, a literal with a brace in it, and a comment with one. -/
theorem tokenize_blocks_balance_nested :
    let source := "\"$\x7b \x7b \"\x7d\" /*\x7b*/ \x7d \x7d\""
    let before : List Token := [⟨.string (.opening .singleLine), "\"", ⟨0, 1⟩⟩]
    let opener : Token := ⟨.string .blockOpen, "$\x7b", ⟨1, 3⟩⟩
    let after := (tokenize source Config.curlyBrace none).drop 2
    Config.curlyBrace.BracesApart ∧ Config.curlyBrace.CommentsOpenApart ∧
      tokenize source Config.curlyBrace none = before ++ opener :: after ∧
      opener.kind = .string .blockOpen ∧
      ∃ (inner : List Token) (closer : Token) (rest : List Token), after = inner ++ closer :: rest ∧
        ClosesBlock (inner.map Token.lexeme) closer.lexeme ∧
        BracesPair 0 (direct 0 (inner.map Token.lexeme)) ∧
        ∀ (inner' : List Token) (closer' : Token) (rest' : List Token),
          after = inner' ++ closer' :: rest' →
            ClosesBlock (inner'.map Token.lexeme) closer'.lexeme → inner' = inner := by
  intro source before opener after
  have hcomments : Config.curlyBrace.CommentsOpenApart := by
    unfold Config.CommentsOpenApart
    decide +kernel
  have hfront : (tokenize source Config.curlyBrace none).take 2 = before ++ [opener] := by cbv
  have htokens : tokenize source Config.curlyBrace none = before ++ opener :: after := by
    rw [List.append_cons, ← hfront]
    exact (List.take_append_drop 2 _).symm
  exact ⟨bracesApart_curlyBrace, hcomments, htokens, rfl,
    tokenize_blocks_balance source _ none bracesApart_curlyBrace hcomments htokens rfl⟩

/-- A comment that opens with a brace is counted as a brace, though none is open: the block goes on
behind the brace that would close it, and that one has no partner. -/
theorem tokenize_bracedComment :
    let config : Config := { Config.curlyBrace with blockComments := [⟨"\x7b-", "-\x7d"⟩] }
    config.check = .ok config ∧ config.BracesApart ∧
      ∃ (before : List Token) (opener : Token) (inner : List Token) (closer : Token)
          (after : List Token),
        tokenize "\"$\x7b\x7b- -\x7d\x7d\x7d\"" config none =
          before ++ opener :: (inner ++ closer :: after) ∧
        opener.kind = .string .blockOpen ∧
        ClosesBlock (inner.map Token.lexeme) closer.lexeme ∧
        ¬ BracesPair 0 (direct 0 (inner.map Token.lexeme)) := by
  intro config
  let before : List Token := [⟨.string (.opening .singleLine), "\"", ⟨0, 1⟩⟩]
  let opener : Token := ⟨.string .blockOpen, "$\x7b", ⟨1, 3⟩⟩
  let inner : List Token := [⟨.comment, "\x7b- -\x7d", ⟨3, 8⟩⟩, ⟨.punctuation, "\x7d", ⟨8, 9⟩⟩]
  let closer : Token := ⟨.string .blockClose, "\x7d", ⟨9, 10⟩⟩
  let after : List Token := [⟨.string (.closing .singleLine), "\"", ⟨10, 11⟩⟩, Token.eof 11]
  have hdirect : direct 0 (inner.map Token.lexeme) =
      [⟨.comment, "\x7b- -\x7d".toList⟩, closeBrace] := by decide
  have hcloses : ClosesBlock (inner.map Token.lexeme) closer.lexeme := by
    refine ⟨rfl, .cons_inert ⟨rfl, rfl⟩ (.cons_inert ⟨rfl, rfl⟩ .nil), ?_⟩
    rw [hdirect]
    decide
  refine ⟨by decide +kernel, bracesApart_curlyBrace.withComments _, before, opener, inner, closer,
    after, by cbv, rfl, hcloses, ?_⟩
  rw [hdirect]
  intro h
  exact absurd h.whole (by decide)

end Lossless
