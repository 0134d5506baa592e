import Lossless.Proofs.Forest
import Lossless.Proofs.Headway

/-!
# What a grammar marks is a forest

A grammar completes markers one after another, and drops those whose element turns out to be
missing.  What it has completed on its way from one session to another is a row of plots over
the tokens in between (`Session.Grows`), **whatever it met**: a marker that is dropped leaves
the plots that would have been inside of it in the row, and the tokens behind them are passed.

The elements of expressions have a token of their own: an operator, a bracket, the token of an
atom (`thrives_expressionAt`).  So all that has to be said about an element is which token that
is (`Grows.wrap`).
-/

namespace Lossless

variable {κ : Type}

theorem Token.isTrivia_of_kind {t : Token} {kind : TokenKind} (h : t.kind = kind)
    (hkind : kind.isTrivia = false) : t.isTrivia = false := by
  rw [Token.isTrivia, h]
  exact hkind

namespace Session

/-- Seeking from a token at which it does not stop is seeking from the next one. -/
theorem Ready.advanceTo_eq {s : Session κ} (hs : s.Ready) {stops : Token → Bool}
    (hgo : stops s.current = false) (hkind : s.current.kind ≠ .eof) :
    s.advanceTo stops = s.advance.advanceTo stops := by
  obtain ⟨hlt, hadvance⟩ := hs.advance_eq hkind
  have hremaining : s.remaining = (s.tokens.size - (s.cursor + 1)) + 1 := by
    unfold remaining
    omega
  have hseek : seek stops s.tokens s.remaining s.cursor =
      seek stops s.tokens (s.tokens.size - (s.cursor + 1)) (s.cursor + 1) := by
    have hhere : s.tokens.getD s.cursor (Token.eof 0) = s.current := rfl
    rw [hremaining, seek, hhere, hgo]
    simp [hlt]
  rw [hadvance]
  show { s with cursor := _ } = _
  rw [hseek]
  rfl

/-- From one session to another over the same tokens, the markers of plots are completed.  The
plots are a row between the two cursors, and each of them is as it should be. -/
structure Grows (good : Array Token → Plot κ → Prop) (s s' : Session κ) (ps : List (Plot κ)) :
    Prop where
  tokens : s'.tokens = s.tokens
  options : s'.options = s.options
  depth : s'.depth = s.depth
  cursor_lt : s'.cursor < s'.tokens.size
  records : s.Records s' (Plot.markers ps)
  row : Plot.Row s.cursor s'.cursor ps
  good : ∀ p ∈ ps, good s.tokens p

section Growing

variable {good good' : Array Token → Plot κ → Prop} {s s₁ s' : Session κ} {ps qs : List (Plot κ)}

theorem Grows.ready (h : s.Grows good s' ps) (hs : s.Ready) : s'.Ready :=
  ⟨h.cursor_lt, by rw [h.tokens]; exact hs.last_kind⟩

theorem Grows.forward (h : s.Grows good s' ps) : s.cursor ≤ s'.cursor :=
  h.row.le

theorem Grows.trans (h : s.Grows good s₁ ps) (h' : s₁.Grows good s' qs) :
    s.Grows good s' (ps ++ qs) where
  tokens := h'.tokens.trans h.tokens
  options := h'.options.trans h.options
  depth := h'.depth.trans h.depth
  cursor_lt := h'.cursor_lt
  records := by
    rw [Plot.markers_append]
    exact h.records.append h'.records
  row := h.row.append h'.row
  good := by
    have hgood := h'.good
    rw [h.tokens] at hgood
    exact List.forall_mem_append.mpr ⟨h.good, hgood⟩

/-- What comes before completes nothing. -/
theorem Grows.behind (h : s.Grows good s₁ []) (h' : s₁.Grows good s' qs) : s.Grows good s' qs :=
  h.trans h'

/-- What follows completes nothing. -/
theorem Grows.ahead (h : s.Grows good s₁ ps) (h' : s₁.Grows good s' []) : s.Grows good s' ps := by
  have hboth := h.trans h'
  rwa [List.append_nil] at hboth

theorem Grows.imp (h : s.Grows good s' ps)
    (himp : ∀ p, good s.tokens p → good' s.tokens p) : s.Grows good' s' ps :=
  { h with good := fun p hp => himp p (h.good p hp) }

/-- A session that moves on on its level. -/
theorem Moves.grows (h : s.Moves s') (hs : s.Ready) (hdepth : s'.depth = s.depth) :
    s.Grows good s' [] where
  tokens := h.tokens
  options := h.options
  depth := hdepth
  cursor_lt := h.tokens ▸ h.cursor_lt hs.cursor_lt
  records := .nil h.completed (Nat.le_of_eq h.opened.symm)
  row := h.forward
  good := by simp

theorem depth_advance (s : Session κ) : s.advance.depth = s.depth := by
  unfold advance
  split <;> rfl

theorem depth_eat (s : Session κ) (e : Expectation) : (s.eat e).2.depth = s.depth := by
  simp only [eat]
  split
  · exact depth_advance _
  · rfl

theorem depth_expect (s : Session κ) (e : Expectation) : (s.expect e).2.depth = s.depth := by
  simp only [expect, eat]
  split
  · rename_i heq
    split at heq
    · cases heq
      exact depth_advance _
    · cases heq
  · rename_i heq
    split at heq
    · cases heq
    · cases heq
      rfl

theorem Ready.grows (hs : s.Ready) : s.Grows good s [] :=
  s.moves_refl.grows hs rfl

theorem Ready.grows_advanceTo (hs : s.Ready) (stops : Token → Bool) :
    s.Grows good (s.advanceTo stops) [] :=
  (s.moves_advanceTo stops).grows hs rfl

theorem Ready.grows_skipTrivia (hs : s.Ready) : s.Grows good s.skipTrivia [] :=
  hs.grows_advanceTo _

theorem Ready.grows_advance (hs : s.Ready) : s.Grows good s.advance [] :=
  s.moves_advance.grows hs s.depth_advance

theorem Ready.grows_error (hs : s.Ready) (message : String) : s.Grows good (s.error message) [] :=
  (s.moves_error message).grows hs rfl

theorem Ready.grows_eat (hs : s.Ready) (e : Expectation) : s.Grows good (s.eat e).2 [] :=
  (s.moves_eat e).grows hs (s.depth_eat e)

theorem Ready.grows_expect (hs : s.Ready) (e : Expectation) : s.Grows good (s.expect e).2 [] :=
  (s.moves_expect e).grows hs (s.depth_expect e)

/-- Opening a marker uses up a number. -/
theorem Ready.grows_openAt (hs : s.Ready) (start : Nat) (precedes : Option Nat) :
    s.Grows good (s.openAt start precedes).2 [] :=
  ⟨rfl, rfl, rfl, hs.cursor_lt, .nil rfl (Nat.le_succ _), Nat.le_refl _, by simp⟩

/-- Opening a marker and moving past a token. -/
theorem Ready.grows_behind_open (hs : s.Ready) (start : Nat) (precedes : Option Nat) :
    s.Grows good (s.openAt start precedes).2.advance [] := by
  have hopen : s.Grows good (s.openAt start precedes).2 [] := hs.grows_openAt start precedes
  exact hopen.behind (hopen.ready hs).grows_advance

theorem Grows.drop (h : s.Grows good s' ps) (m : OpenMarker) : s.Grows good (s'.drop m) ps :=
  ⟨h.tokens, h.options, h.depth, h.cursor_lt,
    ⟨h.records.completed, h.records.opened, h.records.ids, h.records.nodup⟩, h.row, h.good⟩

/-- One level deeper and back. -/
theorem Grows.exitExpression
    (h : Grows good { s with depth := s.depth + 1 } s' ps) : s.Grows good s'.exitExpression ps where
  tokens := h.tokens
  options := h.options
  depth := by
    show s'.depth - 1 = s.depth
    rw [h.depth]
    exact Nat.add_sub_cancel _ _
  cursor_lt := h.cursor_lt
  records := ⟨h.records.completed, h.records.opened, h.records.ids, h.records.nodup⟩
  row := h.row
  good := h.good

/-- Behind an opened marker the session moves past a token. -/
theorem Grows.past {start : Nat} {precedes : Option Nat} (hs : s.Ready)
    (hkind : s.current.kind ≠ .eof)
    (h : (s.openAt start precedes).2.advance.Grows good s' ps) : s.cursor < s'.cursor := by
  have hopen : (s.openAt start precedes).2.Ready := ⟨hs.cursor_lt, hs.last_kind⟩
  have hforward := h.forward
  rw [(hopen.advance_eq hkind).2] at hforward
  exact hforward

/-- **An element with a token of its own.**  Behind the plots `ps` its marker is opened, at the
start of these or at the cursor, the session moves past a significant token, which is the
element's own, and the plots `qs` follow. -/
theorem Grows.wrap {s₂ : Session κ} {start : Nat} {precedes : Option Nat}
    (h : s.Grows Plot.Rooted s₁ ps) (hs : s.Ready) (hle : s.cursor ≤ start)
    (hfirst : (tokenIn s.tokens start).isTrivia = false)
    (hrow : Plot.Row start s₁.cursor ps) (hcurrent : s₁.current.isTrivia = false)
    (hkind : s₁.current.kind ≠ .eof)
    (h' : (s₁.openAt start precedes).2.advance.Grows Plot.Rooted s₂ qs) (kind : κ) :
    s.Grows Plot.Rooted (s₂.complete (s₁.openAt start precedes).1 kind).2
      [.mk (s₂.complete (s₁.openAt start precedes).1 kind).1 (ps ++ qs)] := by
  have hs₁ := h.ready hs
  have hopen : (s₁.openAt start precedes).2.Ready := ⟨hs₁.cursor_lt, hs₁.last_kind⟩
  have hpast : s₁.cursor < s₂.cursor := h'.past hs₁ hkind
  rw [(hopen.advance_eq hkind).2] at h'
  have htokens : s₂.tokens = s.tokens := h'.tokens.trans h.tokens
  have hqs : Plot.Row (s₁.cursor + 1) s₂.cursor qs := h'.row
  have hstart : start ≤ s₁.cursor := hrow.le
  have hmarker := complete_fst (s := s₂) (m := (s₁.openAt start precedes).1) kind
    (by show start ≤ s₂.cursor; omega)
  have hinner : Plot.Row start s₂.cursor (ps ++ qs) :=
    hrow.append (hqs.mono_start (Nat.le_succ _))
  have hrecords := h.records.complete h'.records rfl rfl
    (rfl : (s₁.openAt start precedes).1.id = s₁.opened) kind
  have hrooted : ∀ p ∈ qs, p.Rooted s.tokens := by
    have hgood := h'.good
    rwa [show ({ (s₁.openAt start precedes).2 with cursor := _ } : Session κ).tokens = s.tokens
      from h.tokens] at hgood
  refine ⟨htokens, h'.options.trans h.options, h'.depth.trans h.depth, h'.cursor_lt, ?_, ?_, ?_⟩
  · rw [Plot.markers_cons, Plot.markers_nil, List.append_nil, Plot.markers_append]
    exact hrecords
  · rw [hmarker]
    exact ⟨hle, ⟨Nat.le_trans hstart (Nat.le_of_lt hpast), hinner⟩, Nat.le_refl _⟩
  · intro p hp
    obtain rfl := List.mem_singleton.mp hp
    refine .mk (i := s₁.cursor) (by rw [hmarker]; exact hfirst) (h.tokens ▸ hs₁.cursor_lt) ?_ ?_ ?_
      (List.forall_mem_append.mpr ⟨h.good, hrooted⟩)
    · rw [← h.tokens]
      exact hcurrent
    · rw [hmarker]
      simp only [Marker.covers, Bool.and_eq_true, decide_eq_true_eq]
      exact ⟨hstart, hpast⟩
    · -- the plots in front of the token end there, and those behind it begin later
      intro p hp
      simp only [Marker.covers, Bool.and_eq_false_iff, decide_eq_false_iff_not]
      rcases List.mem_append.mp hp with hp | hp
      · have hbefore := (hrow.mem hp).2
        omega
      · have hbehind := (hqs.mem hp).1
        omega

/-- An element that begins with its own token. -/
theorem Ready.grows_mark {s₂ : Session κ} (hs : s.Ready) (hcurrent : s.current.isTrivia = false)
    (hkind : s.current.kind ≠ .eof) (h : s.mark.2.advance.Grows Plot.Rooted s₂ qs) (kind : κ) :
    s.Grows Plot.Rooted (s₂.complete s.mark.1 kind).2 [.mk (s₂.complete s.mark.1 kind).1 qs] :=
  hs.grows.wrap hs (Nat.le_refl _) hcurrent (Nat.le_refl _) hcurrent hkind h kind

end Growing

end Session

/-! ## Expressions -/

section Expressions

open ExpressionGrammar

/-- From a session, plots with tokens of their own are completed, and the element that is given
is the first of them. -/
def Yields (s : Session κ) (r : Option (Marker κ) × Session κ) : Prop :=
  ∃ ps, s.Grows Plot.Rooted r.2 ps ∧ ∀ m, r.1 = some m → ∃ p rest, ps = p :: rest ∧ p.marker = m

/-- A way to read expressions that yields plots whatever it meets. -/
def Thrives (parse : Nat → ElementParser κ) : Prop :=
  ∀ least (s : Session κ), s.Ready → Yields s (parse least s)

/-- Reading an atom yields plots at every significant token, if reading inside of it does. -/
def AtomThrives (g : ExpressionGrammar κ) : Prop :=
  ∀ inner, Thrives inner → ∀ s : Session κ, s.Ready → s.current.isTrivia = false →
    Yields s (g.atom inner s)

section Yielding

variable {g : ExpressionGrammar κ} {inner : Nat → ElementParser κ} {s s₁ : Session κ}
  {ps : List (Plot κ)}

theorem Session.Grows.yields_none (h : s.Grows Plot.Rooted s₁ ps) : Yields s (none, s₁) :=
  ⟨ps, h, by simp⟩

theorem Session.Grows.yields_some {p : Plot κ} (h : s.Grows Plot.Rooted s₁ (p :: ps)) :
    Yields s (some p.marker, s₁) :=
  ⟨p :: ps, h, fun _ hm => ⟨p, ps, rfl, Option.some.inj hm⟩⟩

theorem Session.Grows.yields {r : Option (Marker κ) × Session κ} (h : s.Grows Plot.Rooted s₁ [])
    (h' : Yields s₁ r) : Yields s r := by
  obtain ⟨ps, hgrows, hfirst⟩ := h'
  exact ⟨ps, h.behind hgrows, hfirst⟩

theorem yields_operand (hatom : AtomThrives g) (hinner : Thrives inner) (hs : s.Ready)
    (hcurrent : s.current.isTrivia = false) : Yields s (g.operand inner s) := by
  unfold operand
  split
  · exact hatom inner hinner s hs hcurrent
  · rename_i op hop
    have hbehind : s.Grows Plot.Rooted s.mark.2.advance [] := hs.grows_behind_open s.cursor none
    obtain ⟨qs, hoperand, _⟩ := hinner op.power _ (hbehind.ready hs)
    unfold settle
    simp only
    split
    · exact (hs.grows_mark hcurrent (Operators.kind_ne_eof_of_before? _ hop) hoperand
        op.kind).yields_some
    · exact ((hbehind.behind hoperand).drop s.mark.1).yields_none

theorem grows_ternaryOperands (hinner : Thrives inner) (hs : s.Ready) (op : TernaryOperator κ) :
    ∃ ps, s.Grows Plot.Rooted (ternaryOperands op inner s).2 ps := by
  obtain ⟨ps, hfirst, _⟩ := hinner 0 s hs
  unfold ternaryOperands
  generalize inner 0 s = r at hfirst ⊢
  obtain ⟨found, s₁⟩ := r
  cases found with
  | none => exact ⟨ps, hfirst⟩
  | some m =>
      have hs₁ : s₁.Ready := hfirst.ready hs
      have hexpect : s₁.Grows Plot.Rooted (s₁.expect (.text op.separator)).2 [] :=
        hs₁.grows_expect _
      simp only
      generalize s₁.expect (.text op.separator) = r' at hexpect ⊢
      obtain ⟨present, s₂⟩ := r'
      cases present with
      | false => exact ⟨ps, hfirst.ahead hexpect⟩
      | true =>
          obtain ⟨qs, hsecond, _⟩ := hinner op.power s₂ (hexpect.ready hs₁)
          exact ⟨ps ++ qs, (hfirst.ahead hexpect).trans hsecond⟩

/-- What becomes of an expression when it is continued behind its element `p`: there is a wider
element in its place, or `p` stands as it is. -/
def Continues (s₀ : Session κ) (p : Plot κ) (r : Option (Marker κ) × Session κ) : Prop :=
  ∃ q qs, s₀.Grows Plot.Rooted r.2 (q :: qs) ∧ q.marker = r.1.getD p.marker

section Continuing

variable {s₀ s₂ : Session κ} {p : Plot κ} {qs : List (Plot κ)}

/-- An operator wraps the element on its left and all that was completed since, or leaves them
as they are. -/
theorem continues_settle (h : s₀.Grows Plot.Rooted s (p :: ps)) (hs₀ : s₀.Ready)
    (hcurrent : s.current.isTrivia = false) (hkind : s.current.kind ≠ .eof)
    (h' : (s.precede p.marker).2.advance.Grows Plot.Rooted s₂ qs) (kind : κ) (found : Bool) :
    Continues s₀ p (settle (s.precede p.marker).1 kind found s₂) := by
  cases found with
  | true =>
      have hfirst := (h.good p List.mem_cons_self).first
      exact ⟨_, [], h.wrap hs₀ h.row.1 hfirst ⟨Nat.le_refl _, h.row.2⟩ hcurrent hkind h' kind, rfl⟩
  | false =>
      have hbehind := ((h.ready hs₀).grows_behind_open _ _).behind h'
      exact ⟨p, ps ++ qs, (h.trans hbehind).drop (s.precede p.marker).1, rfl⟩

theorem continues_extend (hinner : Thrives inner) (h : s₀.Grows Plot.Rooted s (p :: ps))
    (hs₀ : s₀.Ready) (hcurrent : s.current.isTrivia = false) :
    Continues s₀ p (g.extend inner p.marker s) := by
  have hs := h.ready hs₀
  have hbehind : s.Grows Plot.Rooted (s.precede p.marker).2.advance [] :=
    hs.grows_behind_open _ _
  have hs₁ := hbehind.ready hs
  unfold extend
  split
  · rename_i op hop
    obtain ⟨qs, hoperands⟩ := grows_ternaryOperands hinner hs₁ op
    exact continues_settle h hs₀ hcurrent (Operators.kind_ne_eof_of_ternary? _ hop) hoperands _ _
  · split
    · rename_i op hop
      obtain ⟨qs, hoperand, _⟩ := hinner op.rightPower _ hs₁
      exact continues_settle h hs₀ hcurrent (Operators.kind_ne_eof_of_between? _ hop) hoperand _ _
    · split
      · rename_i op hop
        exact continues_settle h hs₀ hcurrent (Operators.kind_ne_eof_of_after? _ hop) hs₁.grows _ _
      · exact ⟨p, ps, h, rfl⟩

/-- An expression that is continued goes on by a token or more. -/
theorem cursor_lt_extend (hinner : Thrives inner) (hs : s.Ready) (left : Marker κ)
    (hfound : (g.extend inner left s).1.isSome = true) :
    s.cursor < (g.extend inner left s).2.cursor := by
  have hs₁ : (s.precede left).2.advance.Ready :=
    (hs.grows_behind_open _ _ : s.Grows Plot.Rooted _ []).ready hs
  have hcursor : ∀ (m : OpenMarker) (kind : κ) (found : Bool) (s : Session κ),
      (settle m kind found s).2.cursor = s.cursor := by
    intro m kind found s
    cases found <;> rfl
  unfold extend at hfound ⊢
  split
  · rename_i op hop
    obtain ⟨qs, hoperands⟩ := grows_ternaryOperands hinner hs₁ op
    rw [hcursor]
    exact hoperands.past hs (Operators.kind_ne_eof_of_ternary? _ hop)
  · rename_i hternary
    split
    · rename_i op hop
      obtain ⟨qs, hoperand, _⟩ := hinner op.rightPower _ hs₁
      rw [hcursor]
      exact hoperand.past hs (Operators.kind_ne_eof_of_between? _ hop)
    · rename_i hbetween
      split
      · rename_i op hop
        have hnone : (s.precede left).2.advance.Grows Plot.Rooted _ [] := hs₁.grows
        rw [hcursor]
        exact hnone.past hs (Operators.kind_ne_eof_of_after? _ hop)
      · rename_i hafter
        simp [hternary, hbetween, hafter] at hfound

theorem grows_extendWhile (hinner : Thrives inner) (least rounds : Nat)
    (h : s₀.Grows Plot.Rooted s (p :: ps)) (hs₀ : s₀.Ready) :
    ∃ q qs, s₀.Grows Plot.Rooted (g.extendWhile inner least rounds p.marker s).2 (q :: qs) ∧
      q.marker = (g.extendWhile inner least rounds p.marker s).1 := by
  induction rounds generalizing s p ps with
  | zero => exact ⟨p, ps, h, rfl⟩
  | succ rounds ih =>
      have hs := h.ready hs₀
      unfold extendWhile
      split
      · exact ⟨p, ps, h, rfl⟩
      · split
        · obtain ⟨q, qs, hgrows, hmarker⟩ := continues_extend (g := g) hinner
            (h.ahead hs.grows_skipTrivia) hs₀ hs.skipTrivia_first.significant
          split
          · rename_i wider s' hwider
            rw [hwider] at hgrows hmarker
            obtain rfl : q.marker = wider := hmarker
            exact ih hgrows
          · rename_i s' hnone
            rw [hnone] at hgrows hmarker
            exact ⟨q, qs, hgrows, hmarker⟩
        · exact ⟨p, ps, h, rfl⟩

end Continuing

theorem yields_expressionBody (hatom : AtomThrives g) (hinner : Thrives inner) (least : Nat)
    (hs : s.Ready) (hcurrent : s.current.isTrivia = false) :
    Yields s (g.expressionBody inner least s) := by
  obtain ⟨ps, hoperand, hfirst⟩ := yields_operand hatom hinner hs hcurrent
  unfold expressionBody
  split
  · rename_i s₁ hnone
    rw [hnone] at hoperand
    exact hoperand.yields_none
  · rename_i left s₁ hsome
    rw [hsome] at hoperand hfirst
    obtain ⟨p, rest, rfl, rfl⟩ := hfirst left rfl
    obtain ⟨q, qs, hgrows, hmarker⟩ :=
      grows_extendWhile (g := g) hinner least s₁.remaining hoperand hs
    exact ⟨q :: qs, hgrows, fun m hm => ⟨q, qs, rfl, hmarker.trans (Option.some.inj hm)⟩⟩

/-- **Reading an expression completes a row of plots with tokens of their own**, however deep it
may nest, whether an expression is found or not. -/
theorem thrives_expressionAt (hatom : AtomThrives g) (levels : Nat) :
    Thrives (g.expressionAt levels) := by
  induction levels using Nat.strong_induction_on with
  | _ levels ih =>
      intro least s hs
      have hskip : s.Grows Plot.Rooted s.skipTrivia [] := hs.grows_skipTrivia
      rcases expressionAt_cases g levels least s with ⟨message, heq⟩ | ⟨n, rfl, _, _, heq⟩
      · rw [heq]
        exact (hskip.behind (hs.skipTrivia.grows_error message)).yields_none
      · have hdeeper : Session.Ready { s.skipTrivia with depth := s.skipTrivia.depth + 1 } :=
          ⟨hs.skipTrivia.cursor_lt, hs.last_kind⟩
        obtain ⟨ps, hgrows, hfirst⟩ := yields_expressionBody hatom (ih n (Nat.lt_succ_self n)) least
          hdeeper hs.skipTrivia_first.significant
        rw [heq]
        exact hskip.yields ⟨ps, hgrows.exitExpression, hfirst⟩

end Yielding

end Expressions

end Lossless
