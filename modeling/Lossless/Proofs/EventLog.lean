import Lossless.Proofs.Actions
import Mathlib.Data.List.DropRight

/-!
# The events of a session are a faithful log

A session that is followed records an event for everything that happens to its markers and
errors.  `Ledger.replay` reads such a record back: a completed marker and a reported error are
put down, and going back crosses out **as many of the last entries as the event says**.  All
other events tell nothing about either list.

The counts of an event that goes back are taken from lists that may have become shorter than the
marker remembers.  They are the entries that are really cut off (`logs_rollBack`), so the record
can be read back after every run of actions (`run_replays`), also one with stale markers.  And a
session does the same whether it is followed or not: forgetting the events (`Session.silent`)
commutes with every operation.
-/

namespace Lossless

variable {κ : Type}

/-! ## Reading events back -/

/-- What the events of a session tell: the completed markers, and the token index and the
message of each reported error. -/
structure Ledger (κ : Type) where
  completed : List (Marker κ)
  errors : List (Nat × String)
deriving DecidableEq, Repr

namespace Ledger

/-- Nothing was told yet. -/
def empty : Ledger κ := ⟨[], []⟩

/-- What is known after one more event. -/
def replay (l : Ledger κ) : Event κ → Ledger κ
  | .completed m => { l with completed := l.completed ++ [m] }
  | .errorReported index message => { l with errors := l.errors ++ [(index, message)] }
  | .rolledBack _ _ markers errors => ⟨l.completed.rdrop markers, l.errors.rdrop errors⟩
  | .opened _ _ | .dropped _ | .anomaly _ | .rejected _ _ => l

/-- What is known after a row of events. -/
def replayAll (l : Ledger κ) (events : List (Event κ)) : Ledger κ :=
  events.foldl replay l

end Ledger

/-- Without as many of its last members as it has more than `n`, a list is its beginning of
length `n`. -/
theorem rdrop_length_sub {α : Type} {as : List α} {n : Nat} (h : n ≤ as.length) :
    as.rdrop (as.length - n) = as.take n := by
  rw [List.rdrop, Nat.sub_sub_self h]

namespace Session

/-- What the events of a session should tell about it. -/
def ledger (s : Session κ) : Ledger κ :=
  ⟨s.completed, s.errors.map fun e => (e.index, e.message)⟩

/-- On the way from a session to another one events were recorded, if they are at all, and they
tell what became of the markers and errors. -/
def Logs (s s' : Session κ) : Prop :=
  ∃ events, s'.trace = s.trace.map (· ++ events) ∧ s.ledger.replayAll events = s'.ledger

theorem Logs.trans {s s₁ s' : Session κ} (h : s.Logs s₁) (h' : s₁.Logs s') : s.Logs s' := by
  obtain ⟨events, htrace, hledger⟩ := h
  obtain ⟨events', htrace', hledger'⟩ := h'
  refine ⟨events ++ events', ?_, ?_⟩
  · rw [htrace', htrace, Option.map_map]
    congr 1
    funext earlier
    exact List.append_assoc _ _ _
  · rw [Ledger.replayAll, List.foldl_append]
    exact (congrArg (Ledger.replayAll · events') hledger).trans hledger'

/-- Nothing is recorded where nothing happens to markers and errors. -/
theorem logs_nothing {s s' : Session κ} (htrace : s'.trace = s.trace)
    (hcompleted : s'.completed = s.completed) (herrors : s'.errors = s.errors) : s.Logs s' := by
  refine ⟨[], ?_, ?_⟩
  · simp [htrace]
  · simp only [ledger, hcompleted, herrors]
    rfl

/-- One event is recorded. -/
theorem logs_event {s s' : Session κ} (event : Event κ)
    (htrace : s'.trace = s.trace.map (· ++ [event])) (hledger : s.ledger.replay event = s'.ledger) :
    s.Logs s' :=
  ⟨[event], htrace, hledger⟩

theorem logs_advanceTo (s : Session κ) (stops : Token → Bool) : s.Logs (s.advanceTo stops) :=
  logs_nothing rfl rfl rfl

theorem logs_advance (s : Session κ) : s.Logs s.advance := by
  unfold advance
  split <;> exact logs_nothing rfl rfl rfl

theorem logs_eat (s : Session κ) (e : Expectation) : s.Logs (s.eat e).2 := by
  have hskip : s.Logs s.skipTrivia := s.logs_advanceTo _
  simp only [eat]
  split
  · exact hskip.trans (logs_advance _)
  · exact hskip

theorem logs_error (s : Session κ) (message : String) : s.Logs (s.error message) := by
  refine logs_event (.errorReported s.cursor message) rfl ?_
  simp [ledger, Ledger.replay, error, record]

theorem logs_expect (s : Session κ) (e : Expectation) : s.Logs (s.expect e).2 := by
  have heat := s.logs_eat e
  unfold expect
  split
  · rename_i s' hmet
    rwa [hmet] at heat
  · rename_i s' hmissing
    rw [hmissing] at heat
    exact heat.trans (logs_error _ _)

theorem logs_enterExpression (s : Session κ) : s.Logs s.enterExpression.2 := by
  unfold enterExpression
  split <;> exact logs_nothing rfl rfl rfl

theorem logs_exitExpression (s : Session κ) : s.Logs s.exitExpression :=
  logs_nothing rfl rfl rfl

theorem logs_openAt (s : Session κ) (start : Nat) (precedes : Option Nat) :
    s.Logs (s.openAt start precedes).2 :=
  logs_event (.opened s.opened start) rfl rfl

theorem logs_complete (s : Session κ) (m : OpenMarker) (kind : κ) :
    s.Logs (s.complete m kind).2 :=
  logs_event (.completed (s.complete m kind).1) rfl rfl

theorem logs_drop (s : Session κ) (m : OpenMarker) : s.Logs (s.drop m) :=
  logs_event (.dropped m.id) rfl rfl

theorem keptErrors_le (s : Session κ) (m : OpenMarker) : s.keptErrors m ≤ s.errors.length := by
  unfold keptErrors
  split
  · exact Nat.le_refl _
  · exact Nat.min_le_right _ _

/-- **The counts of the event are what is cut off**, however long the lists were when the marker
was opened. -/
theorem logs_rollBack (s : Session κ) (m : OpenMarker) : s.Logs (s.rollBack m) := by
  refine logs_event (.rolledBack m.id m.cursor
    (s.completed.length - min m.completed s.completed.length)
    (s.errors.length - s.keptErrors m)) rfl ?_
  have hcompleted := rdrop_length_sub (Nat.min_le_right m.completed s.completed.length)
  have herrors : (s.errors.map fun e => (e.index, e.message)).rdrop
      (s.errors.length - s.keptErrors m) =
        (s.errors.take (s.keptErrors m)).map fun e => (e.index, e.message) := by
    have hkept : s.keptErrors m ≤ (s.errors.map fun e => (e.index, e.message)).length := by
      rw [List.length_map]
      exact s.keptErrors_le m
    have hcut := rdrop_length_sub hkept
    rwa [List.length_map, ← List.map_take] at hcut
  rw [ledger, Ledger.replay, hcompleted, herrors]
  rfl

theorem logs_recoverToLineEnd (s : Session κ) (kind : κ) :
    s.Logs (s.recoverToLineEnd kind).2 := by
  unfold recoverToLineEnd
  split
  · exact logs_nothing rfl rfl rfl
  · exact ((s.logs_openAt _ _).trans (logs_advanceTo _ _)).trans (logs_complete _ _ _)

/-! ## Forgetting the events -/

/-- The session without its events, and none will be recorded. -/
def silent (s : Session κ) : Session κ :=
  { s with trace := none }

theorem silent_advance (s : Session κ) : s.silent.advance = s.advance.silent := by
  by_cases hlt : s.cursor + 1 < s.tokens.size
  · simp [advance, silent, hlt]
  · simp [advance, silent, hlt]

theorem silent_eat (s : Session κ) (e : Expectation) :
    s.silent.eat e = ((s.eat e).1, (s.eat e).2.silent) := by
  have hskip : s.silent.skipTrivia = s.skipTrivia.silent := rfl
  have hcurrent : s.skipTrivia.silent.current = s.skipTrivia.current := rfl
  simp only [eat, hskip, hcurrent, silent_advance]
  split <;> rfl

theorem silent_expect (s : Session κ) (e : Expectation) :
    s.silent.expect e = ((s.expect e).1, (s.expect e).2.silent) := by
  simp only [expect, silent_eat]
  rcases s.eat e with ⟨met, s'⟩
  cases met <;> rfl

theorem silent_enterExpression (s : Session κ) :
    s.silent.enterExpression = (s.enterExpression.1, s.enterExpression.2.silent) := by
  by_cases hdeep : s.options.maxDepth ≤ s.depth
  · simp [enterExpression, silent, hdeep]
  · simp [enterExpression, silent, hdeep]

theorem silent_recoverToLineEnd (s : Session κ) (kind : κ) :
    s.silent.recoverToLineEnd kind =
      ((s.recoverToLineEnd kind).1, (s.recoverToLineEnd kind).2.silent) := by
  have hcurrent : s.silent.current = s.current := rfl
  simp only [recoverToLineEnd, hcurrent]
  split <;> rfl

end Session

/-! ## Runs -/

/-- The same markers in hand, and a session without events. -/
def Live.silent (l : Live κ) : Live κ :=
  { l with session := l.session.silent }

theorem Live.silent_release (l : Live κ) (m : OpenMarker) (s : Session κ) :
    l.silent.release m s.silent = (l.release m s).silent := by
  have hheld : l.silent.held = l.held := rfl
  simp only [Live.release, hheld]
  split <;> rfl

/-- **Whether a session is followed makes no difference to an action.** -/
theorem Action.run_silent (l : Live κ) (act : Action κ) : act.run l.silent = (act.run l).silent := by
  cases act with
  | advance => exact congrArg l.withSession l.session.silent_advance
  | skipTrivia => rfl
  | eat e => exact congrArg (fun r => l.withSession r.2) (l.session.silent_eat e)
  | expect e => exact congrArg (fun r => l.withSession r.2) (l.session.silent_expect e)
  | error message => rfl
  | recoverToLineEnd kind =>
      exact congrArg (fun r => l.withSession r.2) (l.session.silent_recoverToLineEnd kind)
  | enterExpression =>
      exact congrArg (fun r => l.withSession r.2) l.session.silent_enterExpression
  | exitExpression => rfl
  | mark => rfl
  | precede inner => rfl
  | complete m kind => exact l.silent_release m (l.session.complete m kind).2
  | drop m => exact l.silent_release m (l.session.drop m)
  | rollBack m => exact l.silent_release m (l.session.rollBack m)

theorem Live.run_silent (l : Live κ) (acts : List (Action κ)) :
    l.silent.run acts = (l.run acts).silent := by
  induction acts generalizing l with
  | nil => rfl
  | cons act acts ih => rw [run_cons, run_cons, Action.run_silent, ih]

theorem Live.logs_release (l : Live κ) (m : OpenMarker) {s : Session κ} (h : l.session.Logs s) :
    l.session.Logs (l.release m s).session := by
  unfold Live.release
  split
  · exact h
  · exact Session.logs_nothing rfl rfl rfl

/-- **Every action records what it does to markers and errors.** -/
theorem Action.logs (l : Live κ) (act : Action κ) : l.session.Logs (act.run l).session := by
  cases act with
  | advance => exact l.session.logs_advance
  | skipTrivia => exact l.session.logs_advanceTo _
  | eat e => exact l.session.logs_eat e
  | expect e => exact l.session.logs_expect e
  | error message => exact l.session.logs_error message
  | recoverToLineEnd kind => exact l.session.logs_recoverToLineEnd kind
  | enterExpression => exact l.session.logs_enterExpression
  | exitExpression => exact l.session.logs_exitExpression
  | mark => exact l.session.logs_openAt l.session.cursor none
  | precede inner => exact l.session.logs_openAt inner.start (some inner.id)
  | complete m kind => exact l.logs_release m (l.session.logs_complete m kind)
  | drop m => exact l.logs_release m (l.session.logs_drop m)
  | rollBack m => exact l.logs_release m (l.session.logs_rollBack m)

theorem Live.logs_run (l : Live κ) (acts : List (Action κ)) :
    l.session.Logs (l.run acts).session := by
  induction acts generalizing l with
  | nil => exact Session.logs_nothing rfl rfl rfl
  | cons act acts ih => exact (act.logs l).trans (ih _)

/-- **The log is faithful.**  Whatever is done to a session that is followed from its start, its
events read back are its completed markers and its errors, by index and message.  The session that
is not followed has the same markers in hand and is the same in everything but the events. -/
theorem run_replays (tokens : List Token) (options : SessionOptions) (acts : List (Action κ)) :
    let followed := (Live.start tokens options true : Live κ).run acts
    let plain := (Live.start tokens options false : Live κ).run acts
    (∃ events, followed.session.trace = some events ∧
      Ledger.empty.replayAll events =
        ⟨followed.session.completed, followed.session.errors.map fun e => (e.index, e.message)⟩) ∧
      plain.held = followed.held ∧ plain.session = { followed.session with trace := none } := by
  intro followed plain
  have hplain : plain = followed.silent := Live.run_silent (Live.start tokens options true) acts
  obtain ⟨events, htrace, hledger⟩ := Live.logs_run (Live.start tokens options true : Live κ) acts
  refine ⟨⟨events, htrace, hledger⟩, ?_, ?_⟩
  · rw [hplain]
    rfl
  · rw [hplain]
    rfl

/-- The second time, the session goes back to a marker from which on everything was cut off already:
there is nothing left to cross out. -/
example :
    let tokens : List Token := [⟨.identifier, "a", ⟨0, 1⟩⟩, Token.eof 1]
    let outer : OpenMarker := ⟨0, 0, 0, 0, 0, none⟩
    let inner : OpenMarker := ⟨2, 1, 1, 1, 1, none⟩
    let acts : List (Action String) :=
      [.mark, .advance, .mark, .complete ⟨1, 1, 1, 0, 0, none⟩ "empty", .error "late", .mark,
        .rollBack outer, .rollBack inner]
    (((Live.start tokens ⟨.retractErrors, 256⟩ true).run acts).session.trace.map (·.drop 5)) =
      some [.rolledBack 0 0 1 1, .rolledBack 2 1 0 0] := by
  decide

end Lossless
