import Lossless.Proofs.ProgramWalk

/-!
# The calculator ends cleanly

**Whatever the tokens are, the walk of the calculator comes to an end**, at an end of input, with
no expression and no marker open (`program_ends_cleanly`); and the session it ends with is the one
that the parser gives.
-/

namespace Lossless.Calculator

open ExpressionGrammar
open Lossless.Walk (Runs)

variable {s : Session Kind} {inner : Inner} {levels lag : Nat}

/-! ## Where the walk leads: atoms -/

theorem leads_single (hs : s.Allows levels lag) (kind : Kind) :
    Leads s.openIds (Walk.single kind) s (single kind s) := by
  have hopen := hs.openAt s.cursor none
  have hadvance := leads_advance hopen
  refine leads_open hs rfl (fun _ => rfl) (hadvance.bind ?_)
  exact leads_complete (m := s.mark.1) (hadvance.allows hopen) hadvance.openIds kind

/-- The walk leads where `inner` does, if expressions may nest `levels` deeper. -/
def LeadsInside (levels : Nat) (inner : Inner) : Prop :=
  ∀ least (s : Session Kind), s.Allows levels 0 →
    Leads s.openIds (Walk.expression least) s (inner least s)

theorem leads_skipBlock (hs : s.Allows levels lag) :
    Leads s.openIds Walk.skipBlock s ((), skipBlock s) := by
  have hreport : Leads s.openIds Walk.reportBlock s
      ((), if s.isAt blockEnd then s else s.error "expected '\x7d'") := by
    refine leads_see (fun _ => rfl) ?_
    split
    · exact leads_pure () rfl
    · exact leads_error hs _
  have hs₁ := hreport.allows hs
  have hseek := leads_advanceTo endsBlock endsBlock_of_eof hs₁
  have heat := leads_eat (hseek.allows hs₁) blockEnd
  rw [hseek.openIds, hreport.openIds] at heat
  exact hreport.bind (hseek.bind (heat.answer fun _ => ()))

theorem leads_block (hinner : LeadsInside levels inner) (hs : s.Allows levels 0) :
    Leads s.openIds Walk.block s ((), block inner s) := by
  have hread := hinner 0 s hs
  refine hread.bind ?_
  have hs₁ := hread.allows hs
  have hids := hread.openIds
  rcases hr : inner 0 s with ⟨_ | e, s₁⟩ <;> rw [hr] at hs₁ hids <;> rw [← hids]
  · rw [block_none hr]
    exact leads_skipBlock hs₁
  · have heat := leads_eat hs₁ blockEnd
    have hs₂ := heat.allows hs₁
    rw [block_some hr]
    refine heat.bind ?_
    split
    · exact leads_pure () heat.openIds
    · rw [← heat.openIds]
      exact leads_skipBlock hs₂

theorem leads_stringPieces (hinner : LeadsInside levels inner) {rounds : Nat}
    (hs : s.Allows levels 0) (hrounds : s.remaining ≤ rounds) :
    Leads s.openIds Walk.stringPieces s ((), stringPieces inner rounds s) := by
  induction rounds generalizing s with
  | zero =>
      have hlt := hs.ready.cursor_lt
      rw [Session.remaining] at hrounds
      omega
  | succ rounds ih =>
      have hadvance := leads_advance hs
      have hs₁ := hadvance.allows hs
      refine leads_call (leads_see (fun _ => rfl) ?_)
      cases hpart : stringPart? s.current with
      | none =>
          simp only [stringPieces, hpart]
          exact leads_error hs _
      | some part =>
          have hkind := Token.kind_ne_eof_of_string (kind_of_stringPart? hpart)
          -- the pieces behind this one are read in the rounds that are left
          have hlater : ∀ {β : Type} {w : Walk Routine Kind β} {r : β × Session Kind},
              Leads s.openIds w s.advance r →
              Leads s.openIds Walk.stringPieces r.2 ((), stringPieces inner rounds r.2) := by
            intro β w r h
            have hle := h.forward
            rw [(hs.ready.advance_eq hkind).2] at hle
            rw [← h.openIds]
            exact ih (h.allows hs₁)
              (Session.remaining_le (h.tokens.trans hadvance.tokens) hle hrounds)
          have hnext := hlater (leads_pure () hadvance.openIds)
          cases part with
          | closing style =>
              simp only [stringPieces, hpart]
              exact hadvance
          | nameMark =>
              simp only [stringPieces, hpart]
              refine hadvance.bind (leads_see (fun _ => rfl) ?_)
              have hname := leads_single hs₁ .name
              rw [hadvance.openIds] at hname
              split
              · exact hname.bind (hlater hname)
              · exact hnext
          | blockOpen =>
              simp only [stringPieces, hpart]
              have hblock := leads_block hinner hs₁
              rw [hadvance.openIds] at hblock
              exact hadvance.bind (hblock.bind (hlater hblock))
          | opening _ | basic | escaped | blockClose =>
              simp only [stringPieces, hpart]
              exact hadvance.bind hnext

theorem leads_string (hinner : LeadsInside levels inner) (hs : s.Allows levels 1)
    (hkind : s.current.kind ≠ .eof) : Leads s.openIds Walk.string s (string inner s) := by
  have hadvance := leads_advance (hs.openAt s.cursor none)
  have hs₁ := hs.behind_open hkind s.cursor none
  have hpieces := leads_stringPieces hinner hs₁ (Nat.le_refl _)
  have hids := hpieces.openIds.trans hadvance.openIds
  refine leads_open hs rfl (fun _ => rfl) (hadvance.bind (hpieces.bind ?_))
  exact leads_complete (m := s.mark.1) (hpieces.allows hs₁) hids .string

theorem leads_group (hinner : LeadsInside levels inner) (hs : s.Allows levels 1)
    (hkind : s.current.kind ≠ .eof) : Leads s.openIds Walk.group s (group inner s) := by
  have hadvance := leads_advance (hs.openAt s.cursor none)
  have hbehind := hs.behind_open hkind s.cursor none
  have hread := hinner 0 _ hbehind
  have hs₁ := hread.allows hbehind
  have hids := hread.openIds.trans hadvance.openIds
  rw [group_eq]
  refine leads_open hs rfl (fun _ => rfl) (hadvance.bind (hread.bind ?_))
  generalize inner 0 (s.openAt s.cursor none).2.advance = r at hs₁ hids ⊢
  obtain ⟨_ | e, s₁⟩ := r
  · exact leads_complete (m := s.mark.1) hs₁ hids .group
  · have hexpect := leads_expect hs₁ (.text ")")
    exact hexpect.bind (leads_complete (m := s.mark.1) (hexpect.allows hs₁)
      (hexpect.openIds.trans hids) .group)

theorem leads_atom (hinner : LeadsInside levels inner) (hs : s.Allows levels 1) :
    Leads s.openIds Walk.atom s (atom inner s) := by
  refine leads_see (fun _ => rfl) ?_
  unfold atom
  simp only
  cases hkind : s.current.kind with
  | identifier => exact (leads_single hs .name).answer some
  | keyword => exact (leads_single hs .bool).answer some
  | punctuation => exact (leads_group hinner hs (by rw [hkind]; decide)).answer some
  | literal literal =>
      cases literal with
      | char => exact (leads_single hs .char).answer some
      | string part => exact (leads_string hinner hs (by rw [hkind]; simp)).answer some
      | _ => exact (leads_single hs .number).answer some
  | _ => exact leads_pure none rfl

/-! ## Where the walk leads: expressions -/

theorem leads_operand (hinner : LeadsInside levels inner) (hs : s.Allows levels 1) :
    Leads s.openIds Walk.operand s (grammar.operand inner s) := by
  refine leads_see (fun _ => rfl) ?_
  cases hop : operators.before? s.current with
  | none =>
      rw [operand_atom hop]
      exact leads_atom hinner hs
  | some op =>
      have hadvance := leads_advance (hs.openAt s.cursor none)
      have hs₁ := hs.behind_open (operators.kind_ne_eof_of_before? hop) s.cursor none
      have hread := hinner op.power _ hs₁
      rw [operand_before hop]
      refine leads_open hs rfl (fun _ => rfl) (hadvance.bind (hread.bind ?_))
      exact leads_settle (m := s.mark.1) (hread.allows hs₁)
        (hread.openIds.trans hadvance.openIds) op.kind _

theorem leads_ternaryOperands (hinner : LeadsInside levels inner) (op : TernaryOperator Kind)
    (hs : s.Allows levels 0) :
    Leads s.openIds (Walk.ternaryOperands op) s (ternaryOperands op inner s) := by
  have hfirst := hinner 0 s hs
  have hs₁ := hfirst.allows hs
  have hids := hfirst.openIds
  rw [ternaryOperands]
  refine hfirst.bind ?_
  generalize inner 0 s = r at hs₁ hids ⊢
  obtain ⟨_ | e, s₁⟩ := r
  · exact leads_pure false hids
  · have hexpect := leads_expect hs₁ (.text op.separator)
    have hs₂ := hexpect.allows hs₁
    have hids₂ := hexpect.openIds.trans hids
    refine hexpect.bind ?_
    simp only
    generalize s₁.expect (.text op.separator) = r' at hs₂ hids₂ ⊢
    obtain ⟨_ | _, s₂⟩ := r'
    · exact leads_pure false hids₂
    · have hsecond := hinner op.power s₂ hs₂
      rw [← hids₂]
      exact hsecond.answer Option.isSome

theorem leads_extend (hinner : LeadsInside levels inner) (left : Marker Kind)
    (hs : s.Allows levels 1) :
    Leads s.openIds (Walk.extend left) s (grammar.extend inner left s) := by
  have hadvance := leads_advance (hs.openAt left.start (some left.id))
  refine leads_see (fun _ => rfl) ?_
  cases hternary : operators.ternary? s.current with
  | some op =>
      have hs₁ := hs.behind_open (operators.kind_ne_eof_of_ternary? hternary) left.start
        (some left.id)
      have hread := leads_ternaryOperands hinner op hs₁
      rw [extend_ternary hternary]
      refine leads_open hs rfl (fun _ => rfl) (hadvance.bind (hread.bind ?_))
      exact leads_settle (m := (s.precede left).1) (hread.allows hs₁)
        (hread.openIds.trans hadvance.openIds) op.kind _
  | none =>
      cases hbetween : operators.between? s.current with
      | some op =>
          have hs₁ := hs.behind_open (operators.kind_ne_eof_of_between? hbetween) left.start
            (some left.id)
          have hread := hinner op.rightPower _ hs₁
          rw [extend_between hternary hbetween]
          refine leads_open hs rfl (fun _ => rfl) (hadvance.bind (hread.bind ?_))
          exact leads_settle (m := (s.precede left).1) (hread.allows hs₁)
            (hread.openIds.trans hadvance.openIds) op.kind _
      | none =>
          simp only [extend, grammar, hternary, hbetween]
          cases hafter : operators.after? s.current with
          | some op =>
              refine leads_open hs rfl (fun _ => rfl) (hadvance.bind ?_)
              exact leads_settle (m := (s.precede left).1)
                (hadvance.allows (hs.openAt left.start (some left.id))) hadvance.openIds op.kind
                true
          | none => exact leads_pure none rfl

/-- The operators on one level are no more than the tokens that are left. -/
theorem leads_extendWhile (hthrives : Thrives inner) (hinner : LeadsInside levels inner)
    (least : Nat) {rounds : Nat} (left : Marker Kind) (hs : s.Allows levels 1)
    (hrounds : s.remaining ≤ rounds) :
    Leads s.openIds (Walk.extendWhile least left) s
      (grammar.extendWhile inner least rounds left s) := by
  induction rounds generalizing s left with
  | zero =>
      have hlt := hs.ready.cursor_lt
      rw [Session.remaining] at hrounds
      omega
  | succ rounds ih =>
      have hoperators : grammar.operators = operators := rfl
      rw [extendWhile, hoperators]
      refine leads_call (leads_see (fun _ => rfl) ?_)
      cases operators.continuingPower? (s.nth 0) with
      | none => exact leads_pure left rfl
      | some power =>
          simp only
          split
          · have hskip := leads_skipTrivia hs
            have hs₁ := hskip.allows hs
            have hextend := leads_extend hinner left hs₁
            have hs₂ := hextend.allows hs₁
            have hforward := cursor_lt_extend (g := grammar) hthrives hs₁.ready left
            have htokens := hextend.tokens.trans hskip.tokens
            have hids := hextend.openIds.trans hskip.openIds
            have hle := hskip.forward
            refine hskip.bind (hextend.bind ?_)
            simp only at hs₂ hforward htokens hids hle ⊢
            generalize grammar.extend inner left s.skipTrivia = r at hs₂ hforward htokens hids ⊢
            obtain ⟨_ | wider, s₂⟩ := r
            · exact leads_pure left hids
            · have hlater := ih wider hs₂ (Session.remaining_le htokens
                (Nat.lt_of_le_of_lt hle (hforward rfl)) hrounds)
              rw [show s₂.openIds = s.openIds from hids] at hlater
              exact hlater
          · exact leads_pure left rfl

theorem leads_body (hthrives : Thrives inner) (hinner : LeadsInside levels inner) (least : Nat)
    (hs : s.Allows levels 1) :
    Leads s.openIds (Walk.body least) s (grammar.expressionBody inner least s) := by
  have hoperand := leads_operand hinner hs
  have hs₁ := hoperand.allows hs
  have hids := hoperand.openIds
  rw [expressionBody]
  refine hoperand.bind ?_
  generalize grammar.operand inner s = r at hs₁ hids ⊢
  obtain ⟨_ | left, s₁⟩ := r
  · exact leads_pure none hids
  · have hextend := leads_extendWhile hthrives hinner least left hs₁ (Nat.le_refl _)
    rw [show s₁.openIds = s.openIds from hids] at hextend
    exact hextend.answer some

/-! ## No expression without an error -/

/-- A way to read expressions that reports an error where it finds none. -/
def Reports (parse : Inner) : Prop :=
  ∀ least (s : Session Kind), s.Ready → (parse least s).1 = none →
    s.errors.length < (parse least s).2.errors.length

theorem isSome_atom (hstarts : startsAtom s.current = true) : (atom inner s).1.isSome = true := by
  unfold atom
  unfold startsAtom startsPlainAtom at hstarts
  cases hkind : s.current.kind with
  | literal literal => cases literal <;> rfl
  | _ => simp_all

theorem errors_lt_operand (hinner : Reports inner) (hs : s.Ready)
    (hstarts : (grammar.startingPower? s.current).isSome = true)
    (hnone : (grammar.operand inner s).1 = none) :
    s.errors.length < (grammar.operand inner s).2.errors.length := by
  cases hop : operators.before? s.current with
  | none =>
      have hatom : startsAtom s.current = true := by
        by_contra hno
        simp [startingPower?, grammar, hop, hno] at hstarts
      have hfound : (atom inner s).1.isSome = true := isSome_atom hatom
      rw [operand_atom hop] at hnone
      rw [hnone] at hfound
      cases hfound
  | some op =>
      have hopen : (s.openAt s.cursor none).2.Ready := ⟨hs.cursor_lt, hs.last_kind⟩
      have hmissing := hinner op.power _ (hopen.reaches_advance.ready hopen)
      rw [Session.errors_advance] at hmissing
      rw [operand_before hop] at hnone ⊢
      rw [errors_settle]
      generalize inner op.power (s.openAt s.cursor none).2.advance = r at hmissing hnone ⊢
      obtain ⟨_ | e, s₁⟩ := r
      · exact hmissing rfl
      · cases hnone

/-- **Where no expression is found, an error is reported.** -/
theorem reports_expressionAt (levels : Nat) : Reports (grammar.expressionAt levels) := by
  induction levels using Nat.strong_induction_on with
  | _ levels ih =>
      intro least s hs hnone
      rcases expressionAt_cases grammar levels least s with
        ⟨message, heq⟩ | ⟨n, rfl, _, hstarts, heq⟩
      · rw [heq]
        exact (hs.reaches_skipTrivia.error message).2
      · have hdeeper : Session.Ready { s.skipTrivia with depth := s.skipTrivia.depth + 1 } :=
          ⟨hs.skipTrivia.cursor_lt, hs.last_kind⟩
        have hoperand := errors_lt_operand (ih n (Nat.lt_succ_self n)) hdeeper hstarts
        rw [heq] at hnone ⊢
        unfold expressionBody at hnone ⊢
        generalize grammar.operand _ _ = r at hnone hoperand ⊢
        obtain ⟨_ | left, s₁⟩ := r
        · exact hoperand rfl
        · cases hnone

/-- **Reading an expression comes to an end**, whatever follows and however deep it nests. -/
theorem leadsInside_expressionAt (levels : Nat) :
    LeadsInside levels (grammar.expressionAt levels) := by
  induction levels using Nat.strong_induction_on with
  | _ levels ih =>
      intro least s hs
      have hskip := leads_skipTrivia hs
      have hs₁ := hskip.allows hs
      have hrefuse := fun message =>
        (leads_error hs₁ message).answer fun _ => (none : Option (Marker Kind))
      refine leads_call (leads_noted ?_ (reports_expressionAt levels least s hs.ready))
      refine hskip.bind (leads_see (fun _ => rfl) ?_)
      unfold expressionAt
      simp only
      split
      · exact hrefuse _
      · rename_i hline
        split
        · exact hrefuse _
        · cases levels with
          | zero =>
              have hkind : s.skipTrivia.current.kind ≠ .eof := by
                intro heof
                simp [Session.endsLine, heof] at hline
              exact leads_refused hs₁ hkind (hrefuse _) s.skipTrivia.complains_error
          | succ levels =>
              have hthrives := thrives_expressionAt atomThrives_grammar levels
              have hdeeper :
                  Session.Allows { s.skipTrivia with depth := s.depth + 1 } levels 1 := by
                refine ⟨⟨hs₁.ready.cursor_lt, hs₁.ready.last_kind⟩, ?_, ?_⟩
                · show s.depth + 1 + levels = s.options.maxDepth
                  rw [← hs.levels]
                  omega
                · exact Nat.succ_le_succ hs₁.depth_le
              exact leads_nested hs₁
                (leads_body hthrives (ih levels (Nat.lt_succ_self _)) least hdeeper)

theorem leads_expression (least : Nat) (hs : s.Allows levels 0) :
    Leads s.openIds (Walk.expression least) s (grammar.expression least s) := by
  have hlevels : s.options.maxDepth - s.depth = levels := by
    have hsum := hs.levels
    omega
  rw [expression, hlevels]
  exact leadsInside_expressionAt levels least s hs

/-! ## Where the walk leads: statements -/

theorem leads_letName (hs : s.Allows levels 0) :
    Leads s.openIds Walk.letName s ((), letName s) := by
  refine leads_see (fun _ => rfl) ?_
  unfold letName
  split
  · have hskip := leads_skipTrivia hs
    have hname := leads_single (hskip.allows hs) .name
    rw [hskip.openIds] at hname
    exact hskip.bind (hname.answer fun _ => ())
  · exact (leads_expect hs _).answer fun _ => ()

/-- The value behind the name of a `let` statement. -/
def letValue (s : Session Kind) : Session Kind :=
  match s.expect (.text "=") with
  | (true, s) => (grammar.expression 0 s).2
  | (false, s) => s

theorem leads_letValue (hs : s.Allows levels 0) :
    Leads s.openIds Walk.letValue s ((), letValue s) := by
  have hexpect := leads_expect hs (.text "=")
  have hs₁ := hexpect.allows hs
  have hids := hexpect.openIds
  refine hexpect.bind ?_
  unfold letValue
  generalize s.expect (.text "=") = r at hs₁ hids ⊢
  obtain ⟨_ | _, s₁⟩ := r
  · exact leads_pure () hids
  · rw [← hids]
    exact (leads_expression 0 hs₁).answer fun _ => ()

theorem leads_letStatement (hs : s.Allows levels 0) :
    Leads s.openIds Walk.letStatement s ((), letStatement s) := by
  have hskip := leads_skipTrivia hs
  have hs₁ := hskip.allows hs
  have hopen := hs₁.openAt s.skipTrivia.cursor none
  have hadvance := leads_advance hopen
  have hs₂ := hadvance.allows hopen
  have hname := leads_letName hs₂
  have hs₃ := hname.allows hs₂
  have hvalue := leads_letValue hs₃
  have hcomplete := leads_complete (m := s.skipTrivia.mark.1) (hvalue.allows hs₃)
    (hvalue.openIds.trans (hname.openIds.trans hadvance.openIds)) .letStatement
  refine hskip.bind (leads_open hs₁ rfl (fun _ => rfl) ?_)
  refine hadvance.bind (hname.bind (hvalue.bind ?_))
  exact hcomplete.answer fun _ => ()

theorem leads_expressionStatement (hs : s.Allows levels 0) :
    Leads s.openIds Walk.expressionStatement s ((), expressionStatement s) := by
  have hread := leads_expression 0 hs
  have hs₁ := hread.allows hs
  have hids := hread.openIds
  refine hread.bind ?_
  unfold expressionStatement
  generalize grammar.expression 0 s = r at hs₁ hids ⊢
  obtain ⟨_ | e, s₁⟩ := r
  · exact leads_pure () hids
  · rw [← hids]
    refine leads_open hs₁ rfl (fun _ => rfl) ?_
    exact (leads_complete (m := (s₁.precede e).1) (hs₁.openAt e.start (some e.id)) rfl
      .expressionStatement).answer fun _ => ()

theorem leads_lineContent (hs : s.Allows levels 0) :
    Leads s.openIds Walk.lineContent s ((), lineContent s) := by
  refine leads_see (fun _ => rfl) ?_
  unfold lineContent
  split
  · exact leads_letStatement hs
  · exact leads_expressionStatement hs

theorem leads_statement (hs : s.Allows levels 0) :
    Leads s.openIds Walk.statement s ((), statement s) := by
  have hread := leads_lineContent hs
  have hskip := leads_skipTrivia (hread.allows hs)
  have hs₁ := hskip.allows (hread.allows hs)
  have hids := hskip.openIds.trans hread.openIds
  refine leads_see (fun _ => rfl) ?_
  rw [statement_eq]
  refine hread.bind (hskip.bind (leads_see (fun _ => rfl) ?_))
  simp only at hs₁ hids ⊢
  generalize (lineContent s).skipTrivia = s₁ at hs₁ hids ⊢
  rw [← hids]
  split
  · exact leads_pure () rfl
  · have hreport : Leads s₁.openIds (Walk.reportRest s.errors.length) s₁
        ((), if s₁.errors.length == s.errors.length then s₁.error "expected end of line"
          else s₁) := by
      refine leads_see (fun _ => rfl) ?_
      split
      · exact leads_error hs₁ _
      · exact leads_pure () rfl
    have hrecover := leads_recoverToLineEnd (hreport.allows hs₁) Kind.badStatement
    rw [hreport.openIds] at hrecover
    exact hreport.bind (hrecover.answer fun _ => ())

/-- **The statements come to an end**, and the walk ends at an end of input. -/
theorem leads_statements {rounds : Nat} (hs : s.Allows levels 0) (hrounds : s.remaining ≤ rounds) :
    Leads s.openIds Walk.program s ((), statements rounds s) ∧
      (statements rounds s).current.kind = .eof := by
  induction rounds generalizing s with
  | zero =>
      have hlt := hs.ready.cursor_lt
      rw [Session.remaining] at hrounds
      omega
  | succ rounds ih =>
      have hskip := leads_skipTrivia hs
      have hs₁ := hskip.allows hs
      -- what follows is read in the rounds that are left
      have hgo : ∀ {w : Walk Routine Kind Unit} {s₁ : Session Kind},
          Leads s.openIds w s.skipTrivia ((), s₁) → s.skipTrivia.cursor < s₁.cursor →
          Leads s.openIds (w >>= fun _ => Walk.program) s.skipTrivia ((), statements rounds s₁) ∧
            (statements rounds s₁).current.kind = .eof := by
        intro w s₁ h hlt
        obtain ⟨hlater, hend⟩ := ih (h.allows hs₁) (Session.remaining_le
          (h.tokens.trans hskip.tokens) (Nat.lt_of_le_of_lt hskip.forward hlt) hrounds)
        rw [h.openIds] at hlater
        exact ⟨h.bind hlater, hend⟩
      by_cases heof : s.skipTrivia.current.kind = .eof
      · simp only [statements, heof, and_true]
        refine leads_call (hskip.bind (leads_see (fun _ => rfl) ?_))
        simp only [heof]
        exact leads_pure () rfl
      by_cases hline : s.skipTrivia.current.kind = .linebreak
      · have hadvance := leads_advance hs₁
        have hlt : s.skipTrivia.cursor < s.skipTrivia.advance.cursor := by
          rw [(hs₁.ready.advance_eq heof).2]
          exact Nat.lt_succ_self _
        rw [hskip.openIds] at hadvance
        obtain ⟨hleads, hend⟩ := hgo hadvance hlt
        simp only [statements, hline]
        refine ⟨leads_call (hskip.bind (leads_see (fun _ => rfl) ?_)), hend⟩
        simp only [hline]
        exact hleads
      · have hwithin : Session.endsLine s.skipTrivia.current = false := by
          simp [Session.endsLine, heof, hline]
        have hstatement := leads_statement hs₁
        rw [hskip.openIds] at hstatement
        obtain ⟨hleads, hend⟩ := hgo hstatement (cursor_lt_statement hs₁.ready hwithin)
        rw [statements_succ hwithin]
        refine ⟨leads_call (hskip.bind (leads_see (fun _ => rfl) ?_)), hend⟩
        split
        · contradiction
        · contradiction
        · exact hleads

theorem allows_start (tokens : List Token) (options : SessionOptions) (traced : Bool) :
    (Session.start tokens options traced : Session Kind).Allows options.maxDepth 0 :=
  ⟨Session.ready_start tokens options traced, Nat.zero_add _, Nat.zero_le _⟩

/-- **The parser ends cleanly on any tokens**, be they the tokens of a text or not.  The walk has
one run, and it comes to an end where the parser does: at an end of input, with no expression and
no marker open.  On its way the cursor never goes back and expressions are never nested deeper than
they may be; and every expression that is asked for is answered on the level on which it was asked
for, with an error if there is none. -/
theorem program_ends_cleanly (tokens : List Token) (options : SessionOptions) (traced : Bool) :
    let start : Session Kind := .start tokens options traced
    let done := run tokens options traced
    ∃ trail calls,
      (∀ r trail' calls', Runs Walk.routine Walk.program start r trail' calls' ↔
        r = ((), done) ∧ trail' = trail ∧ calls' = calls) ∧
      (start :: trail).getLast? = some done ∧
      (start :: trail).IsChain (fun s s' => s.cursor ≤ s'.cursor) ∧
      (∀ s ∈ trail, s.depth ≤ options.maxDepth) ∧
      (∀ c ∈ calls, c.left.depth = c.entered.depth ∧
        (c.found = none → ∃ e more, c.left.errors = c.entered.errors ++ e :: more)) ∧
      (∃ t, done.tokens[done.cursor]? = some t ∧ t.kind = .eof) ∧
      done.depth = 0 ∧ done.openIds = [] := by
  intro start done
  have hstart := allows_start tokens options traced
  obtain ⟨hleads, hend⟩ := leads_statements hstart (Nat.le_refl start.remaining)
  obtain ⟨trail, calls, hrun, hpassage, hcalls⟩ := hleads.ends
  have hdone : done.cursor < done.tokens.size := hpassage.cursor_lt hstart.ready.cursor_lt
  refine ⟨trail, calls, fun r trail' calls' => ⟨hrun.unique, ?_⟩, hpassage.getLast?,
    hpassage.isChain, hpassage.depth_le, ?_, ?_, hleads.depth, hleads.openIds⟩
  · rintro ⟨rfl, rfl, rfl⟩
    exact hrun
  · intro c hc
    have hkept := hcalls c hc
    refine ⟨hkept.depth, fun hnone => ?_⟩
    obtain ⟨more, hmore⟩ := hkept.errors
    have hlt := hkept.missing hnone
    rw [← hmore, List.length_append] at hlt
    obtain ⟨e, more, rfl⟩ := List.exists_cons_of_length_pos (l := more) (by omega)
    exact ⟨e, more, hmore.symm⟩
  · refine ⟨done.tokens[done.cursor], Array.getElem?_eq_getElem hdone, ?_⟩
    have hcurrent : done.current = done.tokens[done.cursor] := by
      simp [Session.current, Session.tokenAt, Array.getD, hdone]
    rw [← hcurrent]
    exact hend

end Lossless.Calculator
