import Lossless.Calculator
import Lossless.Proofs.Actions
import Lossless.Proofs.Reading

/-!
# The parser of the calculator language goes on

Every function of the parser leaves the tokens as they are, does not move beyond the last of
them, and **takes back no error** (`Session.Reaches`).  So if none is reported in the end, none
was reported on the way (`Reaches.same`).

The functions are taken apart here as well: each is what its parts do one after the other.
-/

namespace Lossless

namespace Session

variable {κ : Type}

theorem Moves.reaches {s s' : Session κ} (h : s.Moves s') (hs : s.Ready) : s.Reaches s' :=
  ⟨h.tokens, h.tokens ▸ h.cursor_lt hs.cursor_lt, h.errors.length_le⟩

/-- If no error is reported from one session to a third, none is on either part of the way. -/
theorem Reaches.same {s s₁ s' : Session κ} (h : s.Reaches s₁) (h' : s₁.Reaches s')
    (hsame : s'.errors.length = s.errors.length) :
    s₁.errors.length = s.errors.length ∧ s'.errors.length = s₁.errors.length := by
  have hle := h.errors
  have hle' := h'.errors
  omega

theorem errors_advance (s : Session κ) : s.advance.errors = s.errors := by
  unfold advance
  split <;> rfl

@[simp] theorem errors_complete (s : Session κ) (m : OpenMarker) (kind : κ) :
    (s.complete m kind).2.errors = s.errors := rfl

theorem length_errors_error (s : Session κ) (message : String) :
    (s.error message).errors.length = s.errors.length + 1 := by
  simp [error, record]

theorem Ready.reaches_openAt {s : Session κ} (hs : s.Ready) (start : Nat) (precedes : Option Nat) :
    s.Reaches (s.openAt start precedes).2 :=
  ⟨rfl, hs.cursor_lt, Nat.le_refl _⟩

theorem Ready.reaches_recoverToLineEnd {s : Session κ} (hs : s.Ready) (kind : κ) :
    s.Reaches (s.recoverToLineEnd kind).2 := by
  unfold recoverToLineEnd
  split
  · exact hs.reaches
  · have hopen := hs.reaches_openAt s.cursor none
    have hmoved := (moves_advanceTo s.mark.2 endsLine).reaches (hopen.ready hs)
    exact (hopen.trans hmoved).complete s.mark.1 kind

end Session

namespace Calculator

open ExpressionGrammar

/-! ## The parts of the parser -/

theorem single_eq (kind : Kind) (s : Session Kind) :
    (single kind s).2 = (s.mark.2.advance.complete s.mark.1 kind).2 := rfl

theorem errors_single (kind : Kind) (s : Session Kind) : (single kind s).2.errors = s.errors := by
  rw [single_eq, Session.errors_complete, Session.errors_advance]
  rfl

theorem string_eq (inner : Inner) (s : Session Kind) :
    (string inner s).2 = ((stringPieces inner s.mark.2.advance.remaining
      s.mark.2.advance).complete s.mark.1 .string).2 := rfl

theorem group_eq (inner : Inner) (s : Session Kind) :
    group inner s = match inner 0 (s.openAt s.cursor none).2.advance with
      | (some _, s₁) => (s₁.expect (.text ")")).2.complete s.mark.1 .group
      | (none, s₁) => s₁.complete s.mark.1 .group := rfl

/-- The brace that closes a block. -/
def blockEnd : Expectation := .kind (.string .blockClose)

/-- What becomes of a block that is not closed behind its expression. -/
def skipBlock (s : Session Kind) : Session Kind :=
  (((if s.isAt blockEnd then s else s.error "expected '\x7d'").advanceTo endsBlock).eat blockEnd).2

section Blocks

variable {inner : Inner} {s s₁ : Session Kind} {e : Marker Kind}

theorem block_none (h : inner 0 s = (none, s₁)) : block inner s = skipBlock s₁ := by
  rw [block, h]
  rfl

theorem block_some (h : inner 0 s = (some e, s₁)) :
    block inner s =
      if (s₁.eat blockEnd).1 then (s₁.eat blockEnd).2 else skipBlock (s₁.eat blockEnd).2 := by
  rw [block, h]
  rfl

theorem block_closed (h : inner 0 s = (some e, s₁))
    (hholds : blockEnd.holds s₁.skipTrivia.current = true) :
    block inner s = s₁.skipTrivia.advance := by
  have heat : s₁.eat blockEnd = (true, s₁.skipTrivia.advance) := by simp [Session.eat, hholds]
  rw [block_some h, heat]
  rfl

theorem block_open (h : inner 0 s = (some e, s₁))
    (hholds : blockEnd.holds s₁.skipTrivia.current = false) :
    block inner s = skipBlock s₁.skipTrivia := by
  have heat : s₁.eat blockEnd = (false, s₁.skipTrivia) := by simp [Session.eat, hholds]
  rw [block_some h, heat]
  rfl

end Blocks

section Operators

variable {inner : Inner} {s : Session Kind} {left : Marker Kind}

theorem operand_atom (hop : operators.before? s.current = none) :
    grammar.operand inner s = atom inner s := by
  simp only [operand, grammar, hop]

theorem operand_before {op : UnaryOperator Kind} (hop : operators.before? s.current = some op) :
    grammar.operand inner s =
      settle s.mark.1 op.kind (inner op.power (s.openAt s.cursor none).2.advance).1.isSome
        (inner op.power (s.openAt s.cursor none).2.advance).2 := by
  simp only [operand, grammar, hop]
  rfl

theorem extend_ternary {op : TernaryOperator Kind} (hop : operators.ternary? s.current = some op) :
    grammar.extend inner left s =
      settle (s.precede left).1 op.kind
        (ternaryOperands op inner (s.openAt left.start (some left.id)).2.advance).1
        (ternaryOperands op inner (s.openAt left.start (some left.id)).2.advance).2 := by
  simp only [extend, grammar, hop]
  rfl

theorem extend_between (hternary : operators.ternary? s.current = none) {op : BinaryOperator Kind}
    (hop : operators.between? s.current = some op) :
    grammar.extend inner left s =
      settle (s.precede left).1 op.kind
        (inner op.rightPower (s.openAt left.start (some left.id)).2.advance).1.isSome
        (inner op.rightPower (s.openAt left.start (some left.id)).2.advance).2 := by
  simp only [extend, grammar, hternary, hop]
  rfl

end Operators

theorem kind_of_stringPart? {t : Token} {part : StringPart} (h : stringPart? t = some part) :
    t.kind = .literal (.string part) := by
  unfold stringPart? at h
  split at h
  · rename_i hkind
    rw [hkind, Option.some.inj h]
  · cases h

/-- Where the line is not over, a statement is read. -/
theorem statements_succ {s : Session Kind} (h : Session.endsLine s.skipTrivia.current = false)
    (rounds : Nat) :
    statements (rounds + 1) s = statements rounds (statement s.skipTrivia) := by
  simp only [Session.endsLine, Bool.or_eq_false_iff, beq_eq_false_iff_ne, ne_eq] at h
  rw [statements]
  split
  · rename_i hkind
    exact absurd hkind h.2
  · rename_i hkind
    exact absurd hkind h.1
  · rfl

/-! ## Going on -/

section GoingOn

variable {s : Session Kind} {inner : Inner}

theorem reaches_single (hs : s.Ready) (kind : Kind) : s.Reaches (single kind s).2 := by
  have hopen := hs.reaches_openAt s.cursor none
  exact (hopen.trans (hopen.ready hs).reaches_advance).complete s.mark.1 kind

theorem moves_toBlockEnd (s : Session Kind) : s.Moves ((s.advanceTo endsBlock).eat blockEnd).2 :=
  (s.moves_advanceTo endsBlock).trans (Session.moves_eat _ blockEnd)

theorem reaches_skipBlock (hs : s.Ready) : s.Reaches (skipBlock s) := by
  have hreport : s.Reaches (if s.isAt blockEnd then s else s.error "expected '\x7d'") := by
    split
    · exact hs.reaches
    · exact (hs.reaches.error _).1
  exact hreport.trans ((moves_toBlockEnd _).reaches (hreport.ready hs))

theorem reaches_block (hinner : GoesOn inner) (hs : s.Ready) : s.Reaches (block inner s) := by
  have hfirst := hinner 0 s hs
  rcases hread : inner 0 s with ⟨_ | e, s₁⟩ <;> rw [hread] at hfirst
  · rw [block_none hread]
    exact hfirst.trans (reaches_skipBlock (hfirst.ready hs))
  · have hs₁ : s₁.Ready := hfirst.ready hs
    cases hholds : blockEnd.holds s₁.skipTrivia.current with
    | true =>
        rw [block_closed hread hholds]
        exact (hfirst.trans hs₁.reaches_skipTrivia).trans hs₁.skipTrivia.reaches_advance
    | false =>
        rw [block_open hread hholds]
        exact (hfirst.trans hs₁.reaches_skipTrivia).trans (reaches_skipBlock hs₁.skipTrivia)

theorem reaches_stringPieces (hinner : GoesOn inner) (rounds : Nat) (hs : s.Ready) :
    s.Reaches (stringPieces inner rounds s) := by
  induction rounds generalizing s with
  | zero => exact hs.reaches
  | succ rounds ih =>
      have hadvance := hs.reaches_advance
      have hs₁ := hadvance.ready hs
      unfold stringPieces
      split
      · exact (hs.reaches.error _).1
      · exact hadvance
      · simp only
        split
        · have hname := hadvance.trans (reaches_single hs₁ .name)
          exact hname.trans (ih (hname.ready hs))
        · exact hadvance.trans (ih hs₁)
      · have hblock := hadvance.trans (reaches_block hinner hs₁)
        exact hblock.trans (ih (hblock.ready hs))
      · exact hadvance.trans (ih hs₁)

theorem reaches_string (hinner : GoesOn inner) (hs : s.Ready) : s.Reaches (string inner s).2 := by
  have hopen := hs.reaches_openAt s.cursor none
  have hadvance := hopen.trans (hopen.ready hs).reaches_advance
  have hpieces := reaches_stringPieces hinner s.mark.2.advance.remaining (hadvance.ready hs)
  exact (hadvance.trans hpieces).complete s.mark.1 .string

theorem reaches_group (hinner : GoesOn inner) (hs : s.Ready) : s.Reaches (group inner s).2 := by
  have hread := (hinner.behind_open hs s.cursor none 0).2
  change s.Reaches (inner 0 s.mark.2.advance).2 at hread
  unfold group
  simp only
  generalize inner 0 s.mark.2.advance = r at hread ⊢
  obtain ⟨found, s₁⟩ := r
  cases found with
  | none => exact hread.complete s.mark.1 .group
  | some e =>
      have hexpect := reaches_expect (hread.ready hs) (.text ")")
      exact (hread.trans hexpect).complete s.mark.1 .group

theorem atomGoesOn_grammar : AtomGoesOn grammar := by
  intro inner hinner s hs
  show s.Reaches (atom inner s).2
  unfold atom
  split
  · exact reaches_single hs .name
  · exact reaches_single hs .bool
  · exact reaches_group hinner hs
  · exact reaches_single hs .char
  · exact reaches_string hinner hs
  · exact reaches_single hs .number
  · exact hs.reaches

theorem goesOn_expression : GoesOn grammar.expression := by
  intro least s hs
  exact goesOn_expressionAt atomGoesOn_grammar _ least s hs

theorem reaches_letName (hs : s.Ready) : s.Reaches (letName s) := by
  unfold letName
  split
  · exact hs.reaches_skipTrivia.trans (reaches_single hs.skipTrivia .name)
  · exact reaches_expect hs _

theorem reaches_letStatement (hs : s.Ready) : s.Reaches (letStatement s) := by
  have hskip := hs.reaches_skipTrivia
  have hopen := hskip.trans (hs.skipTrivia.reaches_openAt s.skipTrivia.cursor none)
  have hadvance := hopen.trans (hopen.ready hs).reaches_advance
  have hname := hadvance.trans (reaches_letName (hadvance.ready hs))
  change s.Reaches (letName s.skipTrivia.mark.2.advance) at hname
  have hsign := hname.trans (reaches_expect (hname.ready hs) (.text "="))
  unfold letStatement
  simp only
  generalize (letName s.skipTrivia.mark.2.advance).expect (.text "=") = r at hsign ⊢
  obtain ⟨met, s₁⟩ := r
  cases met with
  | false => exact hsign.complete _ .letStatement
  | true =>
      exact (hsign.trans (goesOn_expression 0 s₁ (hsign.ready hs))).complete _ .letStatement

theorem reaches_expressionStatement (hs : s.Ready) : s.Reaches (expressionStatement s) := by
  have hread := goesOn_expression 0 s hs
  unfold expressionStatement
  generalize grammar.expression 0 s = r at hread ⊢
  obtain ⟨found, s₁⟩ := r
  cases found with
  | none => exact hread
  | some e =>
      have hopen := hread.trans ((hread.ready hs).reaches_openAt e.start (some e.id))
      exact hopen.complete _ .expressionStatement

theorem reaches_statement (hs : s.Ready) : s.Reaches (statement s) := by
  have hread : s.Reaches
      (if s.isAt (.text "let") then letStatement s else expressionStatement s) := by
    split
    · exact reaches_letStatement hs
    · exact reaches_expressionStatement hs
  unfold statement
  simp only
  generalize (if s.isAt (.text "let") then letStatement s else expressionStatement s) = s₁
    at hread ⊢
  have hs₁ : s₁.Ready := hread.ready hs
  have hskip := hread.trans hs₁.reaches_skipTrivia
  split
  · exact hskip
  · split
    · have herror := (hskip.error "expected end of line").1
      exact herror.trans ((herror.ready hs).reaches_recoverToLineEnd _)
    · exact hskip.trans (hs₁.skipTrivia.reaches_recoverToLineEnd _)

theorem reaches_statements (rounds : Nat) (hs : s.Ready) : s.Reaches (statements rounds s) := by
  induction rounds generalizing s with
  | zero => exact hs.reaches
  | succ rounds ih =>
      have hskip := hs.reaches_skipTrivia
      unfold statements
      simp only
      split
      · exact hskip
      · have hadvance := hskip.trans hs.skipTrivia.reaches_advance
        exact hadvance.trans (ih (hadvance.ready hs))
      · have hstatement := hskip.trans (reaches_statement hs.skipTrivia)
        exact hstatement.trans (ih (hstatement.ready hs))

end GoingOn

end Calculator

end Lossless
