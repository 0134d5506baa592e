import Lossless.Proofs.Diagnosis
import Lossless.Proofs.LineIndependence

/-!
# The complaint about strings that break off

Reading a string reports "unterminated string" where no piece of the string follows.  The lexer
leaves no literal open, so it seems that this never happens.  It does: the word behind a mark may
be a keyword, and the parser reads only an identifier as the name that a mark announces.  **That
is the only place where it happens** (`unterminated_at_marked_keyword`).

The invariant is `Session.Inside`: where the parser is inside of `k` literals, at least as many
are open among the tokens, and whatever has been reported so far has its excuse.  Nothing but the
pieces of a string changes how many literals the parser is inside of.
-/

namespace Lossless

variable {κ : Type}

/-- An error about a string that breaks off stands at a keyword behind a mark. -/
def ParseError.Excused (tokens : Array Token) (e : ParseError) : Prop :=
  e.message = "unterminated string" → e.span = (tokenIn tokens e.index).span ∧
    (tokenIn tokens e.index).kind = .keyword ∧
    ∃ i, e.index = i + 1 ∧ (tokenIn tokens i).kind = .string .nameMark

namespace Session

/-- At least `k` literals are open at the cursor, the tokens from there on close them, and every
error about a string that breaks off has its excuse. -/
structure Inside (k : Nat) (s : Session κ) : Prop where
  within : ∃ n : Nest, s.Within n ∧ k ≤ n.length
  excused : ∀ e ∈ s.errors, e.Excused s.tokens

/-- The innermost literal is open at a place of a certain sort, inside of at least `k` others. -/
structure AtPlace (place : StringPlace) (k : Nat) (s : Session κ) : Prop where
  within : ∃ style, ∃ outer : Nest, s.Within (⟨style, place⟩ :: outer) ∧ k ≤ outer.length
  excused : ∀ e ∈ s.errors, e.Excused s.tokens

section Inside

variable {s : Session κ} {k : Nat} {place : StringPlace}

theorem Inside.ready (h : s.Inside k) : s.Ready := by
  obtain ⟨n, hwithin, -⟩ := h.within
  exact hwithin.ready

theorem Inside.weaken (h : s.Inside (k + 1)) : s.Inside k := by
  obtain ⟨n, hwithin, hk⟩ := h.within
  exact ⟨⟨n, hwithin, Nat.le_of_succ_le hk⟩, h.excused⟩

theorem AtPlace.inside (h : s.AtPlace place k) : s.Inside (k + 1) := by
  obtain ⟨style, outer, hwithin, hk⟩ := h.within
  exact ⟨⟨_, hwithin, Nat.succ_le_succ hk⟩, h.excused⟩

/-- Moving past a token, trivia included. -/
theorem Within.onward {n : Nest} (h : s.Within n) (hkind : s.current.kind ≠ .eof) :
    ∃ n', n.step s.current.kind = some n' ∧ s.advance.Within n' := by
  have hcloses : n.Closes s.rest := h
  rw [rest_cons h.ready.cursor_lt] at hcloses
  obtain ⟨n', hstep, htail⟩ := hcloses.tail hkind
  refine ⟨n', hstep, ?_⟩
  rw [(h.ready.advance_eq hkind).2]
  exact htail

/-- There is nowhere to go from the end of the input. -/
theorem Within.advance_eof {n : Nest} (h : s.Within n) (hkind : s.current.kind = .eof) :
    s.advance = s := by
  have hcloses : n.Closes s.rest := h
  rw [rest_cons h.ready.cursor_lt] at hcloses
  have hend := List.drop_eq_nil_iff.mp (hcloses.eq_nil hkind)
  exact if_neg (Nat.not_lt.mpr (by simpa using hend))

theorem excused_advance (h : ∀ e ∈ s.errors, e.Excused s.tokens) :
    ∀ e ∈ s.advance.errors, e.Excused s.advance.tokens := by
  rwa [errors_advance, s.moves_advance.tokens]

/-- **Moving past a token that closes no literal.** -/
theorem Inside.advance (h : s.Inside k) (hclose : Nest.closes s.current.kind = 0) :
    s.advance.Inside k := by
  obtain ⟨n, hwithin, hk⟩ := h.within
  by_cases hkind : s.current.kind = .eof
  · rw [hwithin.advance_eof hkind]
    exact h
  · obtain ⟨n', hstep, hnext⟩ := hwithin.onward hkind
    have hlength := Nest.length_step hstep
    exact ⟨⟨n', hnext, by omega⟩, excused_advance h.excused⟩

theorem Inside.advance_plain (h : s.Inside k) (hpart : s.current.kind.isStringPart = false) :
    s.advance.Inside k :=
  h.advance (Nest.opens_plain hpart).2

theorem Inside.skipTrivia (h : s.Inside k) : s.skipTrivia.Inside k := by
  obtain ⟨n, hwithin, hk⟩ := h.within
  exact ⟨⟨n, hwithin.skipTrivia, hk⟩, h.excused⟩

/-- Reporting an error that has its excuse. -/
theorem Inside.report (h : s.Inside k) {message : String}
    (hexcused : ParseError.Excused s.tokens ⟨s.cursor, message, s.current.span⟩) :
    (s.error message).Inside k := by
  refine ⟨h.within, fun e he => ?_⟩
  rcases List.mem_append.mp he with he | he
  · exact h.excused e he
  · rw [List.mem_singleton.mp he]
    exact hexcused

theorem Inside.error (h : s.Inside k) {message : String}
    (hother : message ≠ "unterminated string") : (s.error message).Inside k :=
  h.report fun hmessage => absurd hmessage hother

theorem Inside.openAt (h : s.Inside k) (start : Nat) (precedes : Option Nat) :
    (s.openAt start precedes).2.Inside k :=
  ⟨h.within, h.excused⟩

theorem Inside.complete (h : s.Inside k) (m : OpenMarker) (kind : κ) :
    (s.complete m kind).2.Inside k :=
  ⟨h.within, h.excused⟩

theorem Inside.drop (h : s.Inside k) (m : OpenMarker) : (s.drop m).Inside k :=
  ⟨h.within, h.excused⟩

theorem Inside.withDepth (h : s.Inside k) (depth : Nat) :
    Inside k { s with depth := depth } :=
  ⟨h.within, h.excused⟩

/-- Skipping to a token leaves the parser somewhere among the tokens. -/
theorem Inside.advanceTo (h : s.Inside k) {stops : Token → Bool}
    (hstops : ∀ e : Token, e.kind = .eof → stops e = true) : (s.advanceTo stops).Inside 0 := by
  obtain ⟨n, hwithin, -⟩ := h.within
  have hmoved := ((s.moves_advanceTo stops).reaches h.ready).ready h.ready
  have hsuffix : (s.advanceTo stops).rest <:+ s.rest := by
    rw [h.ready.rest_advanceTo hstops]
    exact List.dropWhile_suffix _
  have hne : (s.advanceTo stops).rest ≠ [] := by
    rw [rest_cons hmoved.cursor_lt]
    exact List.cons_ne_nil _ _
  obtain ⟨n', hcloses⟩ := hwithin.exists_suffix hsuffix hne
  exact ⟨⟨n', hcloses, Nat.zero_le _⟩, h.excused⟩

theorem Inside.eat (h : s.Inside k) {e : Expectation}
    (hplain : ∀ {t}, e.holds t = true → t.kind.isStringPart = false) : (s.eat e).2.Inside k := by
  simp only [Session.eat]
  split
  · rename_i hmet
    exact h.skipTrivia.advance_plain (hplain hmet)
  · exact h.skipTrivia

theorem expected_ne (e : Expectation) : "expected " ++ e.display ≠ "unterminated string" := by
  intro h
  have hfirst := congrArg (fun message => message.toList.head?) h
  simp at hfirst

theorem Inside.expect (h : s.Inside k) {e : Expectation}
    (hplain : ∀ {t}, e.holds t = true → t.kind.isStringPart = false) : (s.expect e).2.Inside k := by
  have heat := h.eat hplain
  unfold Session.expect
  generalize s.eat e = r at heat ⊢
  obtain ⟨met, s₁⟩ := r
  cases met with
  | true => exact heat
  | false => exact heat.error (expected_ne e)

end Inside

/-! ### The pieces of a literal -/

section Pieces

variable {s : Session κ} {k : Nat} {place : StringPlace}

/-- Moving past a piece of a literal. -/
theorem AtPlace.onward (h : s.AtPlace .piece k) :
    ∃ style, ∃ outer n' : Nest, k ≤ outer.length ∧
      Nest.pieceStep style outer s.current.kind = some n' ∧ s.advance.Within n' := by
  obtain ⟨style, outer, hwithin, hk⟩ := h.within
  obtain ⟨n', hstep, hnext⟩ := hwithin.onward (hwithin.significant rfl).2
  exact ⟨style, outer, n', hk, hstep, hnext⟩

/-- Where a piece of a literal is expected there is one. -/
theorem AtPlace.exists_part (h : s.AtPlace .piece k) : ∃ part, s.current.kind = .string part := by
  obtain ⟨style, outer, n', -, hstep, -⟩ := h.onward
  generalize s.current.kind = kind at hstep ⊢
  unfold Nest.pieceStep at hstep
  split at hstep
  · exact ⟨_, rfl⟩
  · exact ⟨_, rfl⟩
  · exact ⟨_, rfl⟩
  · exact ⟨_, rfl⟩
  · exact ⟨_, rfl⟩
  · cases hstep

/-- Behind the closing delimiter one literal less is open. -/
theorem AtPlace.past_closing (h : s.AtPlace .piece k) {style : StringStyle}
    (hkind : s.current.kind = .string (.closing style)) : s.advance.Inside k := by
  obtain ⟨style', outer, n', hk, hstep, hnext⟩ := h.onward
  rw [hkind] at hstep
  have hsame : n' = outer := by
    have hstyle : (if style = style' then some outer else none) = some n' := hstep
    split at hstyle
    · exact (Option.some.inj hstyle).symm
    · cases hstyle
  subst hsame
  exact ⟨⟨n', hnext, hk⟩, excused_advance h.excused⟩

/-- Behind content the literal goes on. -/
theorem AtPlace.past_content (h : s.AtPlace .piece k) {part : StringPart}
    (hkind : s.current.kind = .string part) (hclosing : ∀ style, part ≠ .closing style)
    (hmark : part ≠ .nameMark) (hblock : part ≠ .blockOpen) : s.advance.AtPlace .piece k := by
  obtain ⟨style, outer, n', hk, hstep, hnext⟩ := h.onward
  rw [hkind] at hstep
  have hsame : n' = ⟨style, .piece⟩ :: outer := by
    cases part with
    | basic => exact (Option.some.inj hstep).symm
    | escaped => exact (Option.some.inj hstep).symm
    | closing style => exact absurd rfl (hclosing style)
    | nameMark => exact absurd rfl hmark
    | blockOpen => exact absurd rfl hblock
    | _ => cases hstep
  subst hsame
  exact ⟨⟨style, outer, hnext, hk⟩, excused_advance h.excused⟩

/-- Behind a mark a name comes next. -/
theorem AtPlace.past_mark (h : s.AtPlace .piece k) (hmark : s.current.kind = .string .nameMark) :
    s.advance.AtPlace .name k := by
  obtain ⟨style, outer, n', hk, hstep, hname⟩ := h.onward
  rw [hmark] at hstep
  obtain rfl := Option.some.inj hstep
  exact ⟨⟨style, outer, hname, hk⟩, excused_advance h.excused⟩

/-- A name is an identifier or a keyword, and behind it the literal goes on. -/
theorem AtPlace.past_name (h : s.AtPlace .name k) :
    (s.current.kind = .identifier ∨ s.current.kind = .keyword) ∧
      s.advance.AtPlace .piece k := by
  obtain ⟨style, outer, hwithin, hk⟩ := h.within
  obtain ⟨n', hstep, hnext⟩ := hwithin.onward (hwithin.significant rfl).2
  obtain ⟨hkind, rfl⟩ := Nest.step_name hstep
  exact ⟨hkind, ⟨style, outer, hnext, hk⟩, excused_advance h.excused⟩

theorem AtPlace.openAt (h : s.AtPlace place k) (start : Nat) (precedes : Option Nat) :
    (s.openAt start precedes).2.AtPlace place k :=
  ⟨h.within, h.excused⟩

theorem AtPlace.complete (h : s.AtPlace place k) (m : OpenMarker) (kind : κ) :
    (s.complete m kind).2.AtPlace place k :=
  ⟨h.within, h.excused⟩

/-- Behind the brace that closes a block the literal goes on. -/
theorem Inside.past_blockClose (h : s.Inside (k + 1))
    (hkind : s.current.kind = .string .blockClose) : s.advance.AtPlace .piece k := by
  obtain ⟨n, hwithin, hk⟩ := h.within
  obtain ⟨n', hstep, hnext⟩ := hwithin.onward (Token.kind_ne_eof_of_string hkind)
  rw [hkind] at hstep
  match n, hstep with
  | ⟨style, .block⟩ :: outer, hstep =>
      obtain rfl := Option.some.inj hstep
      exact ⟨⟨style, outer, hnext, Nat.le_of_succ_le_succ hk⟩, excused_advance h.excused⟩

/-- A closing delimiter stands where a piece of its literal may stand. -/
theorem Inside.atPiece_closing (h : s.Inside (k + 1)) {style : StringStyle}
    (hkind : s.current.kind = .string (.closing style)) : s.AtPlace .piece k := by
  obtain ⟨n, hwithin, hk⟩ := h.within
  obtain ⟨n', hstep, -⟩ := hwithin.onward (Token.kind_ne_eof_of_string hkind)
  rw [hkind] at hstep
  match n, hstep with
  | ⟨style, .piece⟩ :: outer, _ =>
      exact ⟨⟨style, outer, hwithin, Nat.le_of_succ_le_succ hk⟩, h.excused⟩

/-- Behind an opening delimiter a piece of its literal comes next. -/
theorem Inside.past_opening (h : s.Inside k) {style : StringStyle}
    (hkind : s.current.kind = .string (.opening style)) : s.advance.AtPlace .piece k := by
  obtain ⟨n, hwithin, hk⟩ := h.within
  obtain ⟨n', hstep, hnext⟩ := hwithin.onward (Token.kind_ne_eof_of_string hkind)
  rw [hkind] at hstep
  have hopened : n' = ⟨style, .piece⟩ :: n := by
    match n, hstep with
    | [], hstep => exact (Option.some.inj hstep).symm
    | ⟨_, .block⟩ :: _, hstep => exact (Option.some.inj hstep).symm
  subst hopened
  exact ⟨⟨style, n, hnext, hk⟩, excused_advance h.excused⟩

end Pieces

end Session

/-! ## Expressions -/

section Expressions

open ExpressionGrammar Session

/-- A way to read expressions that stays inside of the literals that it begins in. -/
def StaysInside (parse : Nat → ElementParser κ) : Prop :=
  ∀ k least (s : Session κ), s.Inside k → (parse least s).2.Inside k

/-- Reading an atom stays inside of the literals that it begins in, if reading inside of it
does. -/
def AtomStaysInside (g : ExpressionGrammar κ) : Prop :=
  ∀ inner, StaysInside inner → ∀ k (s : Session κ), s.Inside k →
    (g.startingPower? s.current).isSome = true → (g.atom inner s).2.Inside k

variable {g : ExpressionGrammar κ} {inner : Nat → ElementParser κ} {s : Session κ} {k : Nat}

theorem inside_settle (h : s.Inside k) (m : OpenMarker) (kind : κ) (found : Bool) :
    (settle m kind found s).2.Inside k := by
  cases found with
  | true => exact h.complete m kind
  | false => exact h.drop m

/-- Behind an operator, whose marker is opened. -/
theorem inside_behind_operator (h : s.Inside k)
    (hoperates : Operators.mayOperate s.current = true) (start : Nat) (precedes : Option Nat) :
    (s.openAt start precedes).2.advance.Inside k :=
  (h.openAt start precedes).advance_plain (Lockstep.isStringPart_of_mayOperate hoperates)

theorem inside_operand (hatom : AtomStaysInside g) (hinner : StaysInside inner) (h : s.Inside k)
    (hstarts : (g.startingPower? s.current).isSome = true) : (g.operand inner s).2.Inside k := by
  unfold operand
  split
  · exact hatom inner hinner k s h hstarts
  · rename_i op hop
    have hbehind := inside_behind_operator h (Operators.mayOperate_of_before? _ hop) s.cursor none
    exact inside_settle (hinner k op.power _ hbehind) _ _ _

theorem inside_ternaryOperands (hinner : StaysInside inner) (op : TernaryOperator κ)
    (h : s.Inside k) : (ternaryOperands op inner s).2.Inside k := by
  have hfirst := hinner k 0 s h
  unfold ternaryOperands
  generalize inner 0 s = r at hfirst ⊢
  obtain ⟨found, s₁⟩ := r
  cases found with
  | none => exact hfirst
  | some m =>
      have hexpect : (s₁.expect (.text op.separator)).2.Inside k :=
        hfirst.expect Expectation.isStringPart_of_text
      simp only
      generalize s₁.expect (.text op.separator) = r at hexpect ⊢
      obtain ⟨met, s₂⟩ := r
      cases met with
      | false => exact hexpect
      | true => exact hinner k op.power s₂ hexpect

theorem inside_extend (hinner : StaysInside inner) (left : Marker κ) (h : s.Inside k) :
    (g.extend inner left s).2.Inside k := by
  have hbehind : Operators.mayOperate s.current = true →
      (s.precede left).2.advance.Inside k :=
    fun hoperates => inside_behind_operator h hoperates left.start (some left.id)
  unfold extend
  split
  · rename_i op hop
    have hopened := hbehind (Operators.mayOperate_of_ternary? _ hop)
    exact inside_settle (inside_ternaryOperands hinner op hopened) _ _ _
  · split
    · rename_i op hop
      have hopened := hbehind (Operators.mayOperate_of_between? _ hop)
      exact inside_settle (hinner k op.rightPower _ hopened) _ _ _
    · split
      · rename_i op hop
        exact inside_settle (hbehind (Operators.mayOperate_of_after? _ hop)) _ _ _
      · exact h

theorem inside_extendWhile (hinner : StaysInside inner) (least rounds : Nat) (left : Marker κ)
    (h : s.Inside k) : (g.extendWhile inner least rounds left s).2.Inside k := by
  induction rounds generalizing left s with
  | zero => exact h
  | succ rounds ih =>
      have hextend := inside_extend (g := g) hinner left h.skipTrivia
      unfold extendWhile
      split
      · exact h
      · split
        · generalize g.extend inner left s.skipTrivia = r at hextend ⊢
          obtain ⟨wider, s₁⟩ := r
          cases wider with
          | none => exact hextend
          | some wider => exact ih wider hextend
        · exact h

theorem inside_expressionBody (hatom : AtomStaysInside g) (hinner : StaysInside inner)
    (least : Nat) (h : s.Inside k) (hstarts : (g.startingPower? s.current).isSome = true) :
    (g.expressionBody inner least s).2.Inside k := by
  have hoperand := inside_operand hatom hinner h hstarts
  unfold expressionBody
  generalize g.operand inner s = r at hoperand ⊢
  obtain ⟨left, s₁⟩ := r
  cases left with
  | none => exact hoperand
  | some left => exact inside_extendWhile hinner least s₁.remaining left hoperand

theorem unexpected_ne (text : String) :
    "unexpected token '" ++ text ++ "'" ≠ "unterminated string" := by
  intro h
  have hthird := congrArg (fun message => message.toList[2]?) h
  simp at hthird

/-- **Reading an expression stays inside of the literals that it begins in**, however deep it may
nest. -/
theorem staysInside_expressionAt (hatom : AtomStaysInside g) (levels : Nat) :
    StaysInside (g.expressionAt levels) := by
  induction levels using Nat.strong_induction_on with
  | _ levels ih =>
      intro k least s h
      have hskip := h.skipTrivia
      unfold expressionAt
      simp only
      split
      · exact hskip.error (by decide)
      · split
        · exact hskip.error (unexpected_ne _)
        · rename_i hstarts
          have hstarts : (g.startingPower? s.skipTrivia.current).isSome = true := by
            simpa [Option.isSome_iff_ne_none] using hstarts
          cases levels with
          | zero => exact hskip.error (by decide)
          | succ n =>
              have hdeeper := hskip.withDepth (s.skipTrivia.depth + 1)
              exact (inside_expressionBody hatom (ih n (Nat.lt_succ_self n)) least hdeeper
                hstarts).withDepth _

end Expressions

namespace Calculator

open ExpressionGrammar Session

variable {s : Session Kind} {inner : Inner} {k : Nat}

/-! ## Strings -/

theorem inside_single (h : s.Inside k) (hpart : s.current.kind.isStringPart = false)
    (kind : Kind) : (single kind s).2.Inside k :=
  ((h.openAt s.cursor none).advance_plain hpart).complete _ kind

/-- Where a literal is open, skipping the rest of a block ends at the end of a block or of a
literal. -/
theorem inside_toBlockEnd (h : s.Inside (k + 1)) :
    (s.advanceTo endsBlock).Inside (k + 1) ∧
      ((s.advanceTo endsBlock).current.kind = .string .blockClose ∨
        ∃ style, (s.advanceTo endsBlock).current.kind = .string (.closing style)) := by
  obtain ⟨n, hwithin, hk⟩ := h.within
  have hends := h.ready.stops_advanceTo endsBlock_of_eof
  have hmoved := ((s.moves_advanceTo endsBlock).reaches h.ready).ready h.ready
  have hopen : n ≠ [] := by
    rintro rfl
    exact Nat.not_succ_le_zero k hk
  obtain ⟨n', t, us, hdrop, hkind, hcloses, hle⟩ := hwithin.dropWhile_block hopen
  have hsplit := (h.ready.rest_advanceTo endsBlock_of_eof).trans hdrop
  rw [← hsplit] at hcloses
  rw [rest_cons hmoved.cursor_lt] at hsplit
  rw [← (List.cons.inj hsplit).1] at hkind
  refine ⟨⟨⟨n', hcloses, Nat.le_trans hk hle⟩, h.excused⟩, ?_⟩
  unfold endsBlock at hends
  split at hends
  · rename_i hclose
    exact Or.inl hclose
  · rename_i style hclose
    exact Or.inr ⟨style, hclose⟩
  · rename_i heof
    exact absurd heof hkind
  · cases hends

/-- Behind what is left of a broken block the literal goes on. -/
theorem atPiece_skipBlock (h : s.Inside (k + 1)) : (skipBlock s).AtPlace .piece k := by
  have hreport : (if s.isAt blockEnd then s else s.error "expected '\x7d'").Inside (k + 1) := by
    split
    · exact h
    · exact h.error (by decide)
  obtain ⟨hend, hkind⟩ := inside_toBlockEnd hreport
  unfold skipBlock
  generalize (if s.isAt blockEnd then s else s.error "expected '\x7d'").advanceTo endsBlock = s₁
    at hend hkind ⊢
  rcases hkind with hkind | ⟨style, hkind⟩
  · have heat : (s₁.eat blockEnd).2 = s₁.advance := by
      simp [eat, skipTrivia_eq_self (Token.isTrivia_of_kind hkind rfl), blockEnd,
        Expectation.holds, hkind]
    rw [heat]
    exact hend.past_blockClose hkind
  · have heat : (s₁.eat blockEnd).2 = s₁ := by
      simp [eat, skipTrivia_eq_self (Token.isTrivia_of_kind hkind rfl), blockEnd,
        Expectation.holds, hkind, TokenKind.string]
    rw [heat]
    exact hend.atPiece_closing hkind

theorem atPiece_block (hinner : StaysInside inner) (h : s.Inside (k + 1)) :
    (block inner s).AtPlace .piece k := by
  have hread := hinner (k + 1) 0 s h
  rcases hs : inner 0 s with ⟨_ | e, s₁⟩ <;> rw [hs] at hread
  · rw [block_none hs]
    exact atPiece_skipBlock hread
  · cases hholds : blockEnd.holds s₁.skipTrivia.current with
    | true =>
        rw [block_closed hs hholds]
        exact hread.skipTrivia.past_blockClose (kind_of_blockEnd hholds)
    | false =>
        rw [block_open hs hholds]
        exact atPiece_skipBlock hread.skipTrivia

/-- **At a keyword behind a mark the string is given up.** -/
theorem inside_markedKeyword (h : s.AtPlace .piece k)
    (hmark : s.current.kind = .string .nameMark)
    (hkeyword : s.advance.current.kind = .keyword) (rounds : Nat) :
    (stringPieces inner rounds s.advance).Inside k := by
  have hinside : s.advance.Inside k := (h.past_mark hmark).inside.weaken
  cases rounds with
  | zero => exact hinside
  | succ rounds =>
      have hnone : stringPart? s.advance.current = none := by simp only [stringPart?, hkeyword]
      have hcursor : s.advance.cursor = s.cursor + 1 := by
        rw [(h.inside.ready.advance_eq (Token.kind_ne_eof_of_string hmark)).2]
      have hbehind : (tokenIn s.advance.tokens s.cursor).kind = .string .nameMark := by
        rw [s.moves_advance.tokens]
        exact hmark
      simp only [stringPieces, hnone]
      exact hinside.report fun _ => ⟨rfl, hkeyword, s.cursor, hcursor, hbehind⟩

/-- **The pieces of a string are read to its end**, or up to a keyword behind a mark. -/
theorem inside_stringPieces (hinner : StaysInside inner) (rounds : Nat)
    (h : s.AtPlace .piece k) : (stringPieces inner rounds s).Inside k := by
  induction rounds generalizing s with
  | zero => exact h.inside.weaken
  | succ rounds ih =>
      obtain ⟨part, hkind⟩ := h.exists_part
      have hpart : stringPart? s.current = some part := by
        simp only [stringPart?, hkind, TokenKind.string]
      unfold stringPieces
      rw [hpart]
      split
      · rename_i hnone
        cases hnone
      · rename_i style hclosing
        obtain rfl := Option.some.inj hclosing
        exact h.past_closing hkind
      · rename_i hmark
        obtain rfl := Option.some.inj hmark
        have hname := h.past_mark hkind
        simp only
        split
        · exact ih ((hname.openAt s.advance.cursor none).past_name.2.complete _ .name)
        · rename_i hother
          have hkeyword := hname.past_name.1.resolve_left
            fun hidentifier => hother (by simp [hidentifier])
          exact inside_markedKeyword h hkind hkeyword rounds
      · rename_i hopens
        obtain rfl := Option.some.inj hopens
        have hinside : s.advance.Inside (k + 1) := h.inside.advance (by rw [hkind]; rfl)
        exact ih (atPiece_block hinner hinside)
      · rename_i other hclosing hmark hopens hsome
        obtain rfl := Option.some.inj hsome
        exact ih (h.past_content hkind hclosing hmark hopens)

theorem inside_string (hinner : StaysInside inner) (h : s.Inside k) {style : StringStyle}
    (hopening : s.current.kind = .string (.opening style)) : (string inner s).2.Inside k := by
  have hopened : s.mark.2.advance.AtPlace .piece k := (h.openAt s.cursor none).past_opening hopening
  exact (inside_stringPieces hinner _ hopened).complete _ _

theorem inside_group (hinner : StaysInside inner) (h : s.Inside k)
    (hkind : s.current.kind = .punctuation) : (group inner s).2.Inside k := by
  have hopened : (s.openAt s.cursor none).2.advance.Inside k :=
    (h.openAt s.cursor none).advance_plain (by rw [current_openAt, hkind]; rfl)
  have hread := hinner k 0 _ hopened
  rw [group_eq]
  generalize inner 0 (s.openAt s.cursor none).2.advance = r at hread ⊢
  obtain ⟨found, s₁⟩ := r
  cases found with
  | none => exact hread.complete _ .group
  | some e => exact (hread.expect Expectation.isStringPart_of_text).complete _ .group

theorem atomStaysInside_grammar : AtomStaysInside grammar := by
  intro inner hinner k s h hstarts
  show (atom inner s).2.Inside k
  have hsingle : ∀ kind : Kind, s.current.kind.isStringPart = false →
      (single kind s).2.Inside k := fun kind hpart => inside_single h hpart kind
  unfold atom
  split
  · rename_i hkind
    exact hsingle .name (by rw [hkind]; rfl)
  · rename_i hkind
    exact hsingle .bool (by rw [hkind]; rfl)
  · rename_i hkind
    exact inside_group hinner h hkind
  · rename_i hkind
    exact hsingle .char (by rw [hkind]; rfl)
  · rename_i part hkind
    obtain ⟨style, rfl⟩ := isOpening_of_startingPower? hkind hstarts
    exact inside_string hinner h hkind
  · rename_i literal hchar hstring hkind
    exact hsingle .number (by
      rw [hkind]
      cases literal <;> simp_all [TokenKind.isStringPart])
  · exact h

theorem staysInside_expression : StaysInside grammar.expression := by
  intro k least s h
  exact staysInside_expressionAt atomStaysInside_grammar _ k least s h

/-! ## Statements -/

theorem inside_letName (h : s.Inside k) : (letName s).Inside k := by
  have hplain : ∀ {t : Token}, (Expectation.kind .identifier).holds t = true →
      t.kind.isStringPart = false := by
    intro t hmet
    rw [Expectation.kind_of_holds hmet]
    rfl
  unfold letName
  split
  · rename_i hat
    rw [h.ready.isAt_eq] at hat
    exact inside_single h.skipTrivia (hplain hat) .name
  · exact h.expect hplain

theorem inside_letStatement (h : s.Inside k) (hat : s.isAt (.text "let") = true) :
    (letStatement s).Inside k := by
  rw [h.ready.isAt_eq] at hat
  have hpart := Expectation.isStringPart_of_text hat
  have hopened : s.skipTrivia.mark.2.advance.Inside k :=
    (h.skipTrivia.openAt s.skipTrivia.cursor none).advance_plain hpart
  have hsign : ((letName s.skipTrivia.mark.2.advance).expect (.text "=")).2.Inside k :=
    (inside_letName hopened).expect Expectation.isStringPart_of_text
  unfold letStatement
  simp only
  generalize (letName s.skipTrivia.mark.2.advance).expect (.text "=") = r at hsign ⊢
  obtain ⟨met, s₁⟩ := r
  cases met with
  | false => exact hsign.complete _ .letStatement
  | true => exact (staysInside_expression k 0 s₁ hsign).complete _ .letStatement

theorem inside_expressionStatement (h : s.Inside k) : (expressionStatement s).Inside k := by
  have hread := staysInside_expression k 0 s h
  unfold expressionStatement
  generalize grammar.expression 0 s = r at hread ⊢
  obtain ⟨found, s₁⟩ := r
  cases found with
  | none => exact hread
  | some e => exact (hread.openAt e.start (some e.id)).complete _ .expressionStatement

theorem inside_recoverToLineEnd (h : s.Inside 0) (kind : Kind) :
    (s.recoverToLineEnd kind).2.Inside 0 := by
  unfold recoverToLineEnd
  split
  · exact h
  · have hopened : s.mark.2.Inside 0 := h.openAt s.cursor none
    exact (hopened.advanceTo fun e he => by simp [endsLine, he]).complete _ kind

theorem inside_statement (h : s.Inside 0) : (statement s).Inside 0 := by
  have hread : (lineContent s).Inside 0 := by
    unfold lineContent
    split
    · rename_i hat
      exact inside_letStatement h hat
    · exact inside_expressionStatement h
  rw [statement_eq]
  split
  · exact hread.skipTrivia
  · apply inside_recoverToLineEnd
    split
    · exact hread.skipTrivia.error (by decide)
    · exact hread.skipTrivia

theorem inside_statements (rounds : Nat) (h : s.Inside 0) : (statements rounds s).Inside 0 := by
  induction rounds generalizing s with
  | zero => exact h
  | succ rounds ih =>
      unfold statements
      simp only
      split
      · exact h.skipTrivia
      · rename_i hkind
        exact ih (h.skipTrivia.advance_plain (by rw [hkind]; rfl))
      · exact ih (inside_statement h.skipTrivia)

/-! ## Programs -/

/-- A session starts outside of all literals, and without errors. -/
theorem inside_parse (source : String) (traced : Bool) : (parse source traced).Inside 0 := by
  have hwithin := (lexed_start source { } traced).1.within
  exact inside_statements _ ⟨⟨[], hwithin, Nat.le_refl _⟩, fun e he => by cases he⟩

/-- Two tokens in a row, the second of which is no end of the input. -/
theorem exists_eq_append_of_tokenIn {ts : List Token} {i : Nat}
    (h : (tokenIn ts.toArray (i + 1)).kind ≠ .eof) :
    ∃ front later, front.length = i ∧
      ts = front ++ tokenIn ts.toArray i :: tokenIn ts.toArray (i + 1) :: later := by
  have hlt : i + 1 < ts.length := by
    by_contra hbeyond
    apply h
    simp [tokenIn, Nat.not_lt.mp hbeyond, Token.eof]
  have hlt' : i < ts.length := Nat.lt_of_succ_lt hlt
  have hdrop : ts.drop i = tokenIn ts.toArray i :: ts.drop (i + 1) := by
    rw [List.drop_eq_getElem_cons hlt']
    simp [tokenIn, hlt']
  have hdrop' : ts.drop (i + 1) = tokenIn ts.toArray (i + 1) :: ts.drop (i + 1 + 1) := by
    rw [List.drop_eq_getElem_cons hlt]
    simp [tokenIn, hlt]
  refine ⟨ts.take i, ts.drop (i + 1 + 1), List.length_take_of_le (Nat.le_of_lt hlt'), ?_⟩
  rw [← hdrop', ← hdrop, List.take_append_drop]

/-- **"unterminated string" is reported only at a keyword that stands behind a mark**, where a name
was expected, in every program. -/
theorem unterminated_at_marked_keyword (source : String) (traced : Bool) {e : ParseError}
    (he : e ∈ (parse source traced).errors) (hmessage : e.message = "unterminated string") :
    ∃ (front : List Token) (mark keyword : Token) (later : List Token),
      tokenize source config none = front ++ mark :: keyword :: later ∧
      mark.kind = .string .nameMark ∧ keyword.kind = .keyword ∧
      e.index = front.length + 1 ∧ e.span = keyword.span := by
  have hinside := inside_parse source traced
  have htokens := tokens_parse source traced
  generalize parse source traced = s at he hinside htokens
  obtain ⟨hspan, hkeyword, i, hindex, hmark⟩ := hinside.excused e he hmessage
  have harray : s.tokens = (tokenize source config none).toArray := by
    rw [← htokens]
  rw [harray, hindex] at hspan hkeyword
  rw [harray] at hmark
  have hnot : (tokenIn (tokenize source config none).toArray (i + 1)).kind ≠ .eof := by
    rw [hkeyword]
    decide
  obtain ⟨front, later, rfl, hsplit⟩ := exists_eq_append_of_tokenIn hnot
  exact ⟨front, _, _, later, hsplit, hmark, hkeyword, hindex, hspan⟩

theorem unterminated_let :
    ⟨2, "unterminated string", ⟨2, 5⟩⟩ ∈ (parse "\"$let\"" false).errors := by
  decide +kernel

theorem unterminated_at_marked_let :
    ⟨2, "unterminated string", ⟨2, 5⟩⟩ ∈ (parse "\"$let\"" false).errors ∧
      ∃ (front : List Token) (mark keyword : Token) (later : List Token),
        tokenize "\"$let\"" config none = front ++ mark :: keyword :: later ∧
        mark.kind = .string .nameMark ∧ keyword.kind = .keyword ∧
        2 = front.length + 1 ∧ ⟨2, 5⟩ = keyword.span :=
  ⟨unterminated_let, unterminated_at_marked_keyword "\"$let\"" false unterminated_let rfl⟩

/-- The complaint can be had, although the lexer has closed the string. -/
theorem unterminated_reachable :
    ¬ ∀ source, ∀ e ∈ (parse source false).errors, e.message ≠ "unterminated string" := by
  intro h
  exact h _ _ unterminated_let rfl

end Calculator

end Lossless
