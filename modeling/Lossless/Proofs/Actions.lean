import Lossless.Proofs.Cursor

/-!
# Runs of actions

A grammar works on a session by actions, and it closes a marker only while it has the
marker in hand.  `Live` is a session together with the markers in hand, and `Action.run`
is one action on it.  A marker that is closed leaves the hand, so **no marker is closed
twice**, in whatever order markers are closed.

What an action can do is said once (`Action.effect`): it moves on, it opens a marker,
it completes, drops or rolls back a marker in hand, or it wraps the rest of a line.  Whatever
holds along all runs follows from these seven cases.
-/

namespace Lossless

variable {κ : Type}

/-- One action on a session; a marker is closed by handing it over. -/
inductive Action (κ : Type) where
  | advance
  | skipTrivia
  | eat (expected : Expectation)
  | expect (expected : Expectation)
  | error (message : String)
  | recoverToLineEnd (kind : κ)
  | enterExpression
  | exitExpression
  | mark
  /-- Opens a marker to wrap a completed one. -/
  | precede (inner : Marker κ)
  | complete (m : OpenMarker) (kind : κ)
  | drop (m : OpenMarker)
  | rollBack (m : OpenMarker)

/-- A session and the markers opened in it that are not closed yet. -/
structure Live (κ : Type) where
  session : Session κ
  /-- The markers in hand, the last opened first. -/
  held : List OpenMarker

namespace Live

/-- A session at the first of some tokens, with no marker in hand. -/
def start (tokens : List Token) (options : SessionOptions) (traced : Bool) : Live κ :=
  ⟨.start tokens options traced, []⟩

/-- The same markers in hand, in another session. -/
def withSession (l : Live κ) (s : Session κ) : Live κ := { l with session := s }

/-- One more marker in hand. -/
def hold (l : Live κ) (r : OpenMarker × Session κ) : Live κ := ⟨r.2, r.1 :: l.held⟩

/-- Gives a marker out of hand, which leads to the session `s`.  Nothing happens if the
marker is not in hand. -/
def release (l : Live κ) (m : OpenMarker) (s : Session κ) : Live κ :=
  if m ∈ l.held then ⟨s, l.held.erase m⟩ else l

end Live

/-- The effect of one action on a live session. -/
def Action.run (l : Live κ) : Action κ → Live κ
  | advance => l.withSession l.session.advance
  | skipTrivia => l.withSession l.session.skipTrivia
  | eat e => l.withSession (l.session.eat e).2
  | expect e => l.withSession (l.session.expect e).2
  | error message => l.withSession (l.session.error message)
  | recoverToLineEnd kind => l.withSession (l.session.recoverToLineEnd kind).2
  | enterExpression => l.withSession l.session.enterExpression.2
  | exitExpression => l.withSession l.session.exitExpression
  | mark => l.hold l.session.mark
  | precede inner => l.hold (l.session.precede inner)
  | complete m kind => l.release m (l.session.complete m kind).2
  | drop m => l.release m (l.session.drop m)
  | rollBack m => l.release m (l.session.rollBack m)

/-- Actions in order. -/
def Live.run (l : Live κ) (acts : List (Action κ)) : Live κ :=
  acts.foldl Action.run l

@[simp] theorem Live.run_nil (l : Live κ) : l.run [] = l := rfl

@[simp] theorem Live.run_cons (l : Live κ) (act : Action κ) (acts : List (Action κ)) :
    l.run (act :: acts) = (act.run l).run acts := rfl

/-! ## Moving on -/

namespace Session

/-- An error is reported at one of the tokens of a session, with the span of that token. -/
def Locates (s : Session κ) (e : ParseError) : Prop :=
  ∃ t, s.tokens[e.index]? = some t ∧ t.span = e.span

/-- A session moves on: it opens, closes and completes nothing, and takes nothing back. -/
structure Moves (s s' : Session κ) : Prop where
  tokens : s'.tokens = s.tokens
  options : s'.options = s.options
  opened : s'.opened = s.opened
  openIds : s'.openIds = s.openIds
  completed : s'.completed = s.completed
  errors : s.errors <+: s'.errors
  located : s.cursor < s.tokens.size → ∀ e ∈ s'.errors, e ∈ s.errors ∨ s.Locates e
  forward : s.cursor ≤ s'.cursor
  cursor_lt : s.cursor < s.tokens.size → s'.cursor < s.tokens.size

theorem Moves.trans {s s₁ s' : Session κ} (h : s.Moves s₁) (h' : s₁.Moves s') : s.Moves s' where
  tokens := h'.tokens.trans h.tokens
  options := h'.options.trans h.options
  opened := h'.opened.trans h.opened
  openIds := h'.openIds.trans h.openIds
  completed := h'.completed.trans h.completed
  errors := h.errors.trans h'.errors
  located := by
    intro hlt e he
    have hlocated := h'.located
    unfold Locates at hlocated
    rw [h.tokens] at hlocated
    rcases hlocated (h.cursor_lt hlt) e he with he | he
    · exact h.located hlt e he
    · exact Or.inr he
  forward := Nat.le_trans h.forward h'.forward
  cursor_lt := by
    intro hlt
    have hlt' := h'.cursor_lt
    rw [h.tokens] at hlt'
    exact hlt' (h.cursor_lt hlt)

theorem Moves.ready {s s' : Session κ} (h : s.Moves s') (hs : s.Ready) : s'.Ready := by
  constructor
  · rw [h.tokens]
    exact h.cursor_lt hs.cursor_lt
  · rw [h.tokens]
    exact hs.last_kind

/-- A session that differs in its cursor, which has not gone back, and in its depth. -/
theorem moves_cursor (s : Session κ) {cursor : Nat} (depth : Nat) (hforward : s.cursor ≤ cursor)
    (hlt : s.cursor < s.tokens.size → cursor < s.tokens.size) :
    s.Moves { s with cursor := cursor, depth := depth } :=
  ⟨rfl, rfl, rfl, rfl, rfl, List.prefix_refl _, fun _ _ he => Or.inl he, hforward, hlt⟩

theorem moves_refl (s : Session κ) : s.Moves s :=
  s.moves_cursor s.depth (Nat.le_refl _) id

/-- Seeking goes forward and stays among the tokens. -/
theorem seek_bounds (stops : Token → Bool) (tokens : Array Token) (rounds i : Nat) :
    i ≤ seek stops tokens rounds i ∧
      (i < tokens.size → seek stops tokens rounds i < tokens.size) := by
  fun_induction seek stops tokens rounds i with
  | case1 i => exact ⟨Nat.le_refl _, id⟩
  | case2 rounds i hstop => exact ⟨Nat.le_refl _, id⟩
  | case3 rounds i hgo ih =>
      simp only [Bool.or_eq_true, decide_eq_true_eq, not_or] at hgo
      obtain ⟨hforward, hlt⟩ := ih
      exact ⟨by omega, fun _ => hlt (by omega)⟩

theorem moves_advanceTo (s : Session κ) (stops : Token → Bool) : s.Moves (s.advanceTo stops) := by
  obtain ⟨hforward, hlt⟩ := seek_bounds stops s.tokens s.remaining s.cursor
  exact s.moves_cursor s.depth hforward hlt

theorem moves_advance (s : Session κ) : s.Moves s.advance := by
  unfold advance
  split
  · rename_i hlt
    exact s.moves_cursor s.depth (Nat.le_succ _) (fun _ => hlt)
  · exact s.moves_refl

theorem moves_eat (s : Session κ) (e : Expectation) : s.Moves (s.eat e).2 := by
  have hskip : s.Moves s.skipTrivia := s.moves_advanceTo _
  simp only [eat]
  split
  · exact hskip.trans (moves_advance _)
  · exact hskip

theorem moves_error (s : Session κ) (message : String) : s.Moves (s.error message) := by
  refine ⟨rfl, rfl, rfl, rfl, rfl, List.prefix_append _ _, ?_, Nat.le_refl _, id⟩
  intro hlt e he
  rcases List.mem_append.mp he with he | he
  · exact Or.inl he
  · obtain rfl := List.mem_singleton.mp he
    refine Or.inr ⟨s.tokens[s.cursor], Array.getElem?_eq_getElem hlt, ?_⟩
    simp [record, current, tokenAt, Array.getD, hlt]

theorem moves_expect (s : Session κ) (e : Expectation) : s.Moves (s.expect e).2 := by
  have heat := s.moves_eat e
  unfold expect
  split
  · rename_i s' hmet
    rwa [hmet] at heat
  · rename_i s' hmissing
    rw [hmissing] at heat
    exact heat.trans (moves_error _ _)

theorem moves_enterExpression (s : Session κ) : s.Moves s.enterExpression.2 := by
  unfold enterExpression
  split
  · exact s.moves_refl
  · exact s.moves_cursor (s.depth + 1) (Nat.le_refl _) id

theorem moves_exitExpression (s : Session κ) : s.Moves s.exitExpression :=
  s.moves_cursor (s.depth - 1) (Nat.le_refl _) id

end Session

/-! ## What an action does -/

/-- What an action makes of a live session. -/
inductive Action.Effect (l : Live κ) : Action κ → Live κ → Prop
  /-- It moves on, or does nothing. -/
  | moves {act : Action κ} {s : Session κ} (h : l.session.Moves s) : Effect l act ⟨s, l.held⟩
  | marks : Effect l .mark ⟨l.session.mark.2, l.session.mark.1 :: l.held⟩
  | precedes (inner : Marker κ) :
      Effect l (.precede inner) ⟨(l.session.precede inner).2, (l.session.precede inner).1 :: l.held⟩
  | completes {m : OpenMarker} (kind : κ) (h : m ∈ l.held) :
      Effect l (.complete m kind) ⟨(l.session.complete m kind).2, l.held.erase m⟩
  | drops {m : OpenMarker} (h : m ∈ l.held) :
      Effect l (.drop m) ⟨l.session.drop m, l.held.erase m⟩
  | rollsBack {m : OpenMarker} (h : m ∈ l.held) :
      Effect l (.rollBack m) ⟨l.session.rollBack m, l.held.erase m⟩
  /-- It opens a marker, moves on and completes the marker. -/
  | recovers (kind : κ) {s : Session κ} (h : l.session.mark.2.Moves s) :
      Effect l (.recoverToLineEnd kind) ⟨(s.complete l.session.mark.1 kind).2, l.held⟩

/-- A marker that is not in hand cannot be closed. -/
theorem Action.effect_release {l : Live κ} {m : OpenMarker} {s : Session κ} {act : Action κ}
    (h : m ∈ l.held → Effect l act ⟨s, l.held.erase m⟩) : Effect l act (l.release m s) := by
  unfold Live.release
  split
  · rename_i hheld
    exact h hheld
  · exact .moves l.session.moves_refl

/-- **Every action has one of the seven effects.** -/
theorem Action.effect (l : Live κ) (act : Action κ) : Effect l act (act.run l) := by
  cases act with
  | advance => exact .moves l.session.moves_advance
  | skipTrivia => exact .moves (l.session.moves_advanceTo _)
  | eat e => exact .moves (l.session.moves_eat e)
  | expect e => exact .moves (l.session.moves_expect e)
  | error message => exact .moves (l.session.moves_error message)
  | recoverToLineEnd kind =>
      simp only [run, Session.recoverToLineEnd]
      split
      · exact .moves l.session.moves_refl
      · exact .recovers kind (Session.moves_advanceTo _ _)
  | enterExpression => exact .moves l.session.moves_enterExpression
  | exitExpression => exact .moves l.session.moves_exitExpression
  | mark => exact .marks
  | precede inner => exact .precedes inner
  | complete m kind => exact effect_release (.completes kind)
  | drop m => exact effect_release .drops
  | rollBack m => exact effect_release .rollsBack

end Lossless
