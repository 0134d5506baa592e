import Lossless.Proofs.CleanNesting
import Lossless.Proofs.Lockstep

/-!
# Programs in lockstep

The calculator skips trivia wherever it stands in code, and inside of a string it reads pieces
as they come.  So **it keeps two sessions in step** over whatever it meets: on the errors of an
operand, on the way out of a broken block, and up to the end of a line that cannot be read.

The left side is read to its end.  On the right there may be more to read then, if the line goes
on there (`statements_follow`).
-/

namespace Lossless.Calculator

open ExpressionGrammar

variable {L : Lockstep Kind} {k : Nat} {s t : Session Kind} {inner : Inner}

/-! ## Atoms -/

theorem stringPart?_alike {a b : Token} (h : Alike a b) : stringPart? b = stringPart? a := by
  cases h with
  | same => rfl
  | lineEnd ha hb => simp [stringPart?, ha, hb]

theorem agree_single (h : L.Abreast k s t) (hkind : s.current.kind ≠ .eof)
    (hpart : s.current.kind.isStringPart = false) (kind : Kind) :
    L.Agree k (some (single kind s).1, (single kind s).2)
      (some (single kind t).1, (single kind t).2) := by
  obtain ⟨hopens, hopened⟩ := h.mark
  exact (hopened.advance_plain hkind hpart).agree_complete hopens kind

/-- The name behind a mark in a string. -/
theorem abreast_name (h : L.Abreast k s t) (hmark : s.current.kind = .string .nameMark)
    (hname : s.advance.current.kind = .identifier) :
    L.Abreast k (single .name s.advance).2 (single .name t.advance).2 := by
  have hkind := Token.kind_ne_eof_of_string hmark
  have hkind' : s.advance.current.kind ≠ .eof := by
    rw [hname]
    decide
  -- the places at the name still know of the mark in front of it
  have hboth := h.advance (Q := fun ts us => Meeting (L.near k) ts us ∧
    L.near k (s.current :: ts) (s.current :: us)) hkind
    fun hnear => ⟨L.piece hnear hmark (by simp), hnear⟩
  have hnext : L.Abreast k s.advance t.advance := hboth.imp And.left
  obtain ⟨hopens, _⟩ := hnext.mark
  have hopened : L.Follows (fun ts us => Meeting (L.near k) ts us ∧
      L.near k (s.current :: ts) (s.current :: us)) s.advance.mark.2 t.advance.mark.2 := by
    have hopened := (hboth.openAt s.advance.cursor none).2
    rwa [← hnext.close.cursor_eq] at hopened
  have hready : s.advance.mark.2.Ready ∧ t.advance.mark.2.Ready :=
    ⟨⟨hnext.close.cursor_lt.1, hnext.close.ready_left.last_kind⟩,
      hnext.close.cursor_lt.2, hnext.close.ready_right.last_kind⟩
  have hbehind : L.Abreast k s.advance.mark.2.advance t.advance.mark.2.advance :=
    hopened.step hready.1 hready.2 (hnext.current_eq hkind') hkind'
      fun hplaces => L.name hplaces.2 hmark hname
  exact (hbehind.complete hbehind.close.cursor_eq hopens .name).2

theorem blockEnd_inline : blockEnd.Inline := by
  simp [blockEnd, Expectation.Inline, TokenKind.string]

theorem kind_of_blockEnd {a : Token} (h : blockEnd.holds a = true) :
    a.kind = .string .blockClose :=
  Expectation.kind_of_holds h

theorem endsBlock_of_eof (e : Token) (h : e.kind = .eof) : endsBlock e = true := by
  simp [endsBlock, h]

/-- Both sessions skip what is left of a broken block. -/
theorem abreast_skipBlock (h : L.Abreast (k + 1) s t) :
    L.Abreast (k + 1) (skipBlock s) (skipBlock t) := by
  have hreport : L.Abreast (k + 1) (if s.isAt blockEnd then s else s.error "expected '\x7d'")
      (if t.isAt blockEnd then t else t.error "expected '\x7d'") := by
    rw [h.close.isAt_eq blockEnd_inline]
    split
    · exact h
    · exact h.error _
  have hend := hreport.close.advanceTo endsBlock_of_eof L.block
  unfold skipBlock
  rcases hend.close.eat blockEnd_inline
    (fun hmet hnear => L.piece hnear (kind_of_blockEnd hmet) (by simp)) with
    ⟨s', t', hs, ht, hpast⟩ | ⟨hs, ht⟩
  · rw [hs, ht]
    exact hpast
  · rw [hs, ht]
    exact hend.close.skipTrivia

theorem abreast_block (hinner : L.InStep inner) (h : L.Close (k + 1) s t) :
    L.Abreast (k + 1) (block inner s) (block inner t) := by
  have hread := hinner (k + 1) 0 s t h
  rcases hs : inner 0 s with ⟨found, s₁⟩
  rcases ht : inner 0 t with ⟨found', t₁⟩
  rw [hs, ht] at hread
  cases hread with
  | missing hread =>
      rw [block_none hs, block_none ht]
      exact abreast_skipBlock hread
  | found hread =>
      have hskip := hread.skipTrivia
      have hholds' := blockEnd_inline.holds_eq hskip.current
      cases hholds : blockEnd.holds s₁.skipTrivia.current with
      | true =>
          rw [block_closed hs hholds, block_closed ht (hholds'.trans hholds)]
          exact hskip.advance (blockEnd_inline.kind_ne_eof hholds)
            fun hnear => L.piece hnear (kind_of_blockEnd hholds) (by simp)
      | false =>
          rw [block_open hs hholds, block_open ht (hholds'.trans hholds)]
          exact abreast_skipBlock hskip

/-- The pieces of a string are no more than the tokens that are left. -/
theorem close_stringPieces (hthrives : Thrives inner) (hinner : L.InStep inner)
    {rounds rounds' : Nat} (h : L.Abreast (k + 1) s t) (hrounds : s.remaining ≤ rounds)
    (hrounds' : t.remaining ≤ rounds') :
    L.Close k (stringPieces inner rounds s) (stringPieces inner rounds' t) := by
  induction rounds generalizing rounds' s t with
  | zero =>
      have hlt := h.close.cursor_lt.1
      rw [Session.remaining] at hrounds
      omega
  | succ rounds ih =>
      obtain ⟨rounds', rfl⟩ : ∃ n, rounds' = n + 1 := by
        have hlt := h.close.cursor_lt.2
        rw [Session.remaining] at hrounds'
        exact ⟨rounds' - 1, by omega⟩
      have hparts := stringPart?_alike h.current
      unfold stringPieces
      rw [hparts]
      -- the sessions behind a piece go on with a round less
      have hgo : ∀ {s₁ t₁ : Session Kind}, (stringPart? s.current).isSome = true →
          L.Abreast (k + 1) s₁ t₁ → s.advance.cursor ≤ s₁.cursor → t.advance.cursor ≤ t₁.cursor →
          L.Close k (stringPieces inner rounds s₁) (stringPieces inner rounds' t₁) := by
        intro s₁ t₁ hpart h₁ hle hle'
        obtain ⟨part, hpart⟩ := Option.isSome_iff_exists.mp hpart
        have hadvance := (h.close.ready_left.advance_eq
          (Token.kind_ne_eof_of_string (kind_of_stringPart? hpart))).2
        have hadvance' := (h.close.ready_right.advance_eq
          (Token.kind_ne_eof_of_string (kind_of_stringPart? (hparts.trans hpart)))).2
        rw [hadvance] at hle
        rw [hadvance'] at hle'
        exact ih h₁ (Session.remaining_le (h₁.left.trans h.left.symm) hle hrounds)
          (Session.remaining_le (h₁.right.trans h.right.symm) hle' hrounds')
      split
      · exact (h.error _).close.weaken
      · rename_i style hpart
        have hkind := kind_of_stringPart? hpart
        exact h.advance (Token.kind_ne_eof_of_string hkind) fun hnear => L.closing hnear hkind
      · rename_i hpart
        have hkind := kind_of_stringPart? hpart
        have hnext : L.Abreast (k + 1) s.advance t.advance :=
          h.advance (Token.kind_ne_eof_of_string hkind) fun hnear => L.piece hnear hkind (by simp)
        have hname : t.advance.current.kind = .identifier ↔ s.advance.current.kind = .identifier :=
          hnext.current.kind_eq_iff (by decide) (by decide)
        simp only [beq_iff_eq, hname]
        split
        · rename_i hidentifier
          have hidentifier' := hname.mpr hidentifier
          have hgrows := grows_single hnext.close.ready_left
            (Token.isTrivia_of_kind hidentifier rfl) (by rw [hidentifier]; decide) .name
          have hgrows' := grows_single hnext.close.ready_right
            (Token.isTrivia_of_kind hidentifier' rfl) (by rw [hidentifier']; decide) .name
          exact hgo (by rw [hpart]; rfl) (abreast_name h hkind hidentifier) hgrows.forward
            hgrows'.forward
        · exact hgo (by rw [hpart]; rfl) hnext (Nat.le_refl _) (Nat.le_refl _)
      · rename_i hpart
        have hkind := kind_of_stringPart? hpart
        have hnext : L.Close (k + 1) s.advance t.advance :=
          h.advance (Token.kind_ne_eof_of_string hkind) fun hnear => L.blockOpen hnear hkind
        obtain ⟨_, hgrows⟩ := grows_block hthrives hnext.ready_left
        obtain ⟨_, hgrows'⟩ := grows_block hthrives hnext.ready_right
        exact hgo (by rw [hpart]; rfl) (abreast_block hinner hnext) hgrows.forward hgrows'.forward
      · rename_i part hclosing hmark hblock hpart
        have hkind := kind_of_stringPart? hpart
        have hnext : L.Abreast (k + 1) s.advance t.advance := by
          apply h.advance (Token.kind_ne_eof_of_string hkind)
          intro ts us hnear
          cases part with
          | opening style => exact Lockstep.meeting_weaken (L.opening hnear hkind)
          | closing style => exact absurd rfl (hclosing style)
          | nameMark => exact absurd rfl hmark
          | blockOpen => exact absurd rfl hblock
          | _ => exact L.piece hnear hkind (by simp)
        exact hgo (by rw [hpart]; rfl) hnext (Nat.le_refl _) (Nat.le_refl _)

theorem agree_string (hthrives : Thrives inner) (hinner : L.InStep inner) (h : L.Abreast k s t)
    {style : StringStyle} (hopening : s.current.kind = .string (.opening style)) :
    L.Agree k (some (string inner s).1, (string inner s).2)
      (some (string inner t).1, (string inner t).2) := by
  have hkind := Token.kind_ne_eof_of_string hopening
  obtain ⟨hopens, hopened⟩ := h.mark
  have hinside : L.Abreast (k + 1) s.mark.2.advance t.mark.2.advance :=
    hopened.advance hkind fun hnear => L.opening hnear hopening
  have hpieces := close_stringPieces hthrives hinner hinside (Nat.le_refl _) (Nat.le_refl _)
  exact hpieces.agree_complete hopens .string

theorem agree_group (hinner : L.InStep inner) (h : L.Abreast k s t)
    (hkind : s.current.kind = .punctuation) :
    L.Agree k (some (group inner s).1, (group inner s).2)
      (some (group inner t).1, (group inner t).2) := by
  obtain ⟨hopens, hopened⟩ := h.mark
  have hinside : L.Close k s.mark.2.advance t.mark.2.advance :=
    hopened.advance_plain (by rw [Session.current_mark, hkind]; decide)
      (by rw [Session.current_mark, hkind]; rfl)
  have hread := hinner k 0 _ _ hinside
  unfold group
  simp only
  generalize inner 0 s.mark.2.advance = r at hread ⊢
  generalize inner 0 t.mark.2.advance = r' at hread ⊢
  cases hread with
  | missing h => exact h.close.agree_complete hopens .group
  | found h => exact (h.expect_text ")").close.agree_complete hopens .group

theorem isOpening_of_startsAtom {a : Token} {part : StringPart}
    (hkind : a.kind = .literal (.string part)) (h : startsAtom a = true) :
    ∃ style, part = .opening style := by
  cases part with
  | opening style => exact ⟨style, rfl⟩
  | _ => simp [startsAtom, startsPlainAtom, hkind] at h

/-- Of the pieces of a string only the opening delimiter starts an expression. -/
theorem isOpening_of_startingPower? {a : Token} {part : StringPart}
    (hkind : a.kind = .literal (.string part))
    (hstarts : (grammar.startingPower? a).isSome = true) : ∃ style, part = .opening style := by
  apply isOpening_of_startsAtom hkind
  have hnot : Operators.mayOperate a = false := by simp [Operators.mayOperate, hkind]
  by_contra hno
  simp [startingPower?, grammar, Operators.before?, hnot, hno] at hstarts

theorem atomInStep_grammar : L.AtomInStep grammar := by
  intro inner hthrives hinner k s t h hkind hstarts
  show L.Agree k (atom inner s) (atom inner t)
  have hsingle : ∀ kind : Kind, s.current.kind.isStringPart = false →
      L.Agree k (some (single kind s).1, (single kind s).2)
        (some (single kind t).1, (single kind t).2) := fun kind hpart =>
    agree_single h hkind hpart kind
  unfold atom
  rw [h.current_eq hkind]
  split
  · rename_i hkind
    exact hsingle .name (by rw [hkind]; rfl)
  · rename_i hkind
    exact hsingle .bool (by rw [hkind]; rfl)
  · rename_i hkind
    exact agree_group hinner h hkind
  · rename_i hkind
    exact hsingle .char (by rw [hkind]; rfl)
  · rename_i part hkind
    obtain ⟨style, rfl⟩ := isOpening_of_startingPower? hkind hstarts
    exact agree_string hthrives hinner h hkind
  · rename_i literal hchar hstring hkind
    exact hsingle .number (by
      rw [hkind]
      cases literal <;> simp_all [TokenKind.isStringPart])
  · exact .missing h

theorem inStep_expression : L.InStep grammar.expression := by
  intro k least s t h
  rw [expression, expression, h.options, h.depth]
  exact Lockstep.inStep_expressionAt atomThrives_grammar atomInStep_grammar _ k least s t h

/-! ## Statements -/

theorem close_letName (h : L.Close k s t) : L.Close k (letName s) (letName t) := by
  have hinline : (Expectation.kind .identifier).Inline := by simp [Expectation.Inline]
  unfold letName
  rw [h.isAt_eq hinline]
  split
  · rename_i hat
    rw [h.ready_left.isAt_eq] at hat
    have hkind := Expectation.kind_of_holds hat
    exact (agree_single h.skipTrivia (by rw [hkind]; decide) (by rw [hkind]; rfl) .name).close
  · exact (h.expect hinline fun hmet => by rw [Expectation.kind_of_holds hmet]; rfl).close

theorem close_letStatement (h : L.Close k s t) (hat : s.isAt (.text "let") = true) :
    L.Close k (letStatement s) (letStatement t) := by
  have hskip := h.skipTrivia
  rw [h.ready_left.isAt_eq] at hat
  have hkind : s.skipTrivia.current.kind ≠ .eof :=
    Expectation.Inline.kind_ne_eof (e := .text "let") trivial hat
  have hpart := Expectation.isStringPart_of_text hat
  obtain ⟨hopens, hopened⟩ := hskip.mark
  have hname := close_letName (hopened.advance_plain hkind hpart)
  have hsign := hname.expect_text "="
  unfold letStatement
  simp only
  generalize (letName s.skipTrivia.mark.2.advance).expect (.text "=") = r at hsign ⊢
  generalize (letName t.skipTrivia.mark.2.advance).expect (.text "=") = r' at hsign ⊢
  cases hsign with
  | failed h => exact (h.close.agree_complete hopens .letStatement).close
  | done h =>
      exact ((inStep_expression k 0 _ _ h).close.agree_complete hopens .letStatement).close

theorem close_expressionStatement (h : L.Close k s t) :
    L.Close k (expressionStatement s) (expressionStatement t) := by
  have hread := inStep_expression k 0 s t h
  unfold expressionStatement
  generalize grammar.expression 0 s = r at hread ⊢
  generalize grammar.expression 0 t = r' at hread ⊢
  cases hread with
  | missing h => exact h.close
  | @found e s₁ t₁ h =>
      obtain ⟨hopens, hopened⟩ := h.precede e
      exact (hopened.agree_complete hopens .expressionStatement).close

theorem close_recoverToLineEnd (h : L.Abreast 0 s t) (kind : Kind) :
    L.Close 0 (s.recoverToLineEnd kind).2 (t.recoverToLineEnd kind).2 := by
  unfold Session.recoverToLineEnd
  rw [h.current.endsLine_eq]
  split
  · exact h.close
  · obtain ⟨hopens, hopened⟩ := h.mark
    have hend := hopened.close.advanceTo (fun e he => by simp [Session.endsLine, he]) L.line
    exact (hend.close.agree_complete hopens kind).close

theorem close_statement (h : L.Close 0 s t) : L.Close 0 (statement s) (statement t) := by
  have hread : L.Close 0 (lineContent s) (lineContent t) := by
    unfold lineContent
    rw [h.isAt_eq (e := .text "let") trivial]
    split
    · rename_i hat
      exact close_letStatement h hat
    · exact close_expressionStatement h
  have hskip := hread.skipTrivia
  -- both sides have reported as many errors since the start of the line
  have hcount : ((lineContent t).skipTrivia.errors.length == t.errors.length) =
      ((lineContent s).skipTrivia.errors.length == s.errors.length) := by
    rw [hskip.errors, h.errors, List.length_append, List.length_append, List.length_map,
      List.length_map, Bool.eq_iff_iff, beq_iff_eq, beq_iff_eq]
    omega
  rw [statement_eq, statement_eq, hskip.current.endsLine_eq, hcount]
  split
  · exact hskip.close
  · split
    · exact close_recoverToLineEnd (hskip.error _) _
    · exact close_recoverToLineEnd hskip _

/-! ## Programs -/

/-- The session that has read some tokens as a program. -/
def run (tokens : List Token) (options : SessionOptions) (traced : Bool) : Session Kind :=
  program (.start tokens options traced)

theorem endsLine_advanceTo {κ : Type} {s : Session κ} (hs : s.Ready) :
    Session.endsLine (s.advanceTo Session.endsLine).current = true :=
  hs.stops_advanceTo fun e he => by simp [Session.endsLine, he]

/-- A statement is read up to the end of its line, so from within a line it goes on. -/
theorem cursor_lt_statement (hs : s.Ready) (hline : Session.endsLine s.current = false) :
    s.cursor < (statement s).cursor := by
  have hend : Session.endsLine (statement s).current = true := by
    obtain ⟨ps, hread⟩ := grows_lineContent hs
    have hs₁ := (hread.ready hs).skipTrivia
    rw [statement_eq]
    generalize (lineContent s).skipTrivia = s₁ at hs₁ ⊢
    split
    · assumption
    · have hs₂ : (if s₁.errors.length == s.errors.length then s₁.error "expected end of line"
          else s₁).Ready := by
        split
        · exact ⟨hs₁.cursor_lt, hs₁.last_kind⟩
        · exact hs₁
      generalize (if s₁.errors.length == s.errors.length then s₁.error "expected end of line"
          else s₁) = s₂ at hs₂ ⊢
      unfold Session.recoverToLineEnd
      split
      · assumption
      · exact endsLine_advanceTo (s := s₂.mark.2) ⟨hs₂.cursor_lt, hs₂.last_kind⟩
  obtain ⟨ps, hgrows⟩ := grows_statement hs
  apply Nat.lt_of_le_of_ne hgrows.forward
  intro hsame
  have hcurrent : (statement s).current = s.current := by
    rw [Session.current, Session.current, Session.tokenAt, Session.tokenAt, hgrows.tokens, hsame]
  rw [hcurrent, hline] at hend
  cases hend

/-- Reading statements skips trivia first. -/
theorem statements_skipTrivia (rounds : Nat) (hs : s.Ready) (hrounds : s.remaining ≤ rounds) :
    statements rounds s = statements rounds s.skipTrivia := by
  obtain ⟨rounds, rfl⟩ : ∃ n, rounds = n + 1 := by
    have hlt := hs.cursor_lt
    rw [Session.remaining] at hrounds
    exact ⟨rounds - 1, by omega⟩
  rw [statements, statements, Session.skipTrivia_eq_self hs.current_skipTrivia]

/-- **The left side is read to its end in step with the right one**, which then has to read on
from there. -/
theorem statements_follow {rounds rounds' : Nat} (h : L.Close 0 s t)
    (hrounds : s.remaining ≤ rounds) (hrounds' : t.remaining ≤ rounds') :
    ∃ t₁ rounds₁, statements rounds' t = statements rounds₁ t₁ ∧ t₁.remaining ≤ rounds₁ ∧
      L.Abreast 0 (statements rounds s) t₁ ∧ (statements rounds s).current.kind = .eof := by
  induction rounds generalizing rounds' s t with
  | zero =>
      have hlt := h.cursor_lt.1
      rw [Session.remaining] at hrounds
      omega
  | succ rounds ih =>
      have hskip := h.skipTrivia
      have hle := h.ready_left.skipTrivia_first.le
      have hle' := h.ready_right.skipTrivia_first.le
      by_cases heof : s.skipTrivia.current.kind = .eof
      · have hstatements : statements (rounds + 1) s = s.skipTrivia := by
          simp only [statements, heof]
        rw [hstatements]
        refine ⟨t.skipTrivia, rounds', statements_skipTrivia _ h.ready_right hrounds', ?_, hskip,
          heof⟩
        rw [Session.remaining] at hrounds' ⊢
        show t.tokens.size - _ ≤ _
        omega
      have hsame := hskip.current_eq heof
      obtain ⟨rounds', rfl⟩ : ∃ n, rounds' = n + 1 := by
        have hlt := h.cursor_lt.2
        rw [Session.remaining] at hrounds'
        exact ⟨rounds' - 1, by omega⟩
      have hgo : ∀ {s₁ t₁ : Session Kind}, statements (rounds + 1) s = statements rounds s₁ →
          statements (rounds' + 1) t = statements rounds' t₁ → L.Close 0 s₁ t₁ →
          s.skipTrivia.cursor < s₁.cursor → t.skipTrivia.cursor < t₁.cursor →
          ∃ t₂ rounds₂, statements (rounds' + 1) t = statements rounds₂ t₂ ∧
            t₂.remaining ≤ rounds₂ ∧ L.Abreast 0 (statements (rounds + 1) s) t₂ ∧
            (statements (rounds + 1) s).current.kind = .eof := by
        intro s₁ t₁ hs₁ ht₁ h₁ hlt hlt'
        rw [hs₁, ht₁]
        exact ih h₁ (Session.remaining_le (h₁.left.trans h.left.symm) (by omega) hrounds)
          (Session.remaining_le (h₁.right.trans h.right.symm) (by omega) hrounds')
      by_cases hline : s.skipTrivia.current.kind = .linebreak
      · have hadvance := (hskip.close.ready_left.advance_eq heof).2
        have hadvance' := (hskip.close.ready_right.advance_eq (by rw [hsame]; exact heof)).2
        refine hgo (by simp only [statements, hline]) (by simp only [statements, hsame, hline])
          (hskip.advance_plain heof (by rw [hline]; rfl)) ?_ ?_
        · rw [hadvance]
          exact Nat.lt_succ_self _
        · rw [hadvance']
          exact Nat.lt_succ_self _
      · have hwithin : Session.endsLine s.skipTrivia.current = false := by
          simp [Session.endsLine, hline, heof]
        have hwithin' : Session.endsLine t.skipTrivia.current = false := by
          rw [hsame]
          exact hwithin
        exact hgo (statements_succ hwithin rounds) (statements_succ hwithin' rounds')
          (close_statement hskip.close) (cursor_lt_statement hskip.close.ready_left hwithin)
          (cursor_lt_statement hskip.close.ready_right hwithin')

end Lossless.Calculator
