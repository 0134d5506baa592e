import Lossless.Proofs.Growth

/-!
# Walks

A parser goes through its tokens in loops that know no bound: it skips trivia while there is
some, and continues an expression while an operator follows.  A `Walk` is such a program on a
session, written with routines that may call one another.  How it runs is a relation
(`Walk.Runs`), so a walk that goes on forever has no run, and no walk has two (`Runs.unique`).
**A run leaves a trail**: every session that it has made, one for each change, and every
expression that was asked for.

A `Passage` is a trail on which the cursor never goes back, no error is taken back and expressions
are never nested too deeply.
-/

namespace Lossless

variable {ρ : Type → Type} {κ α β : Type}

/-- An expression that was asked for: where, what was found, and the session after it. -/
structure Call (κ : Type) where
  entered : Session κ
  found : Option (Marker κ)
  left : Session κ

/-- A program on a session.  Its routines are named by `ρ`. -/
inductive Walk (ρ : Type → Type) (κ : Type) : Type → Type 1
  | done {α : Type} (a : α) : Walk ρ κ α
  | andThen {α β : Type} (w : Walk ρ κ α) (k : α → Walk ρ κ β) : Walk ρ κ β
  /-- Changes the session. -/
  | step {α : Type} (f : Session κ → α × Session κ) : Walk ρ κ α
  /-- Looks at the session. -/
  | see {α : Type} (f : Session κ → α) : Walk ρ κ α
  /-- Notes that an expression was asked for. -/
  | note (entered : Session κ) (found : Option (Marker κ)) : Walk ρ κ Unit
  | repeatUntil (stops : Session κ → Bool) (w : Walk ρ κ Unit) : Walk ρ κ Unit
  | call {α : Type} (name : ρ α) : Walk ρ κ α

instance : Monad (Walk ρ κ) where
  pure := .done
  bind := .andThen

namespace Walk

/-- Changes the session and answers nothing. -/
def move (f : Session κ → Session κ) : Walk ρ κ Unit :=
  step fun s => ((), f s)

/-- Moves past tokens until one satisfies `stops`. -/
def advanceTo (stops : Token → Bool) : Walk ρ κ Unit :=
  repeatUntil (fun s => stops s.current) (move Session.advance)

/-- Moves past trivia. -/
def skipTrivia : Walk ρ κ Unit :=
  advanceTo (!·.isTrivia)

/-- Moves past trivia, and past the next token if it is the one looked for. -/
def eat (e : Expectation) : Walk ρ κ Bool := do
  skipTrivia
  if e.holds (← see (·.current)) then
    move Session.advance
    pure true
  else
    pure false

/-- Reports an error at the current token. -/
def error (message : String) : Walk ρ κ Unit :=
  move (·.error message)

/-- Moves past trivia, and past the next token if it is the one looked for; otherwise reports
that it is missing. -/
def expect (e : Expectation) : Walk ρ κ Bool := do
  if ← eat e then
    pure true
  else
    error ("expected " ++ e.display)
    pure false

/-- Completes a marker if what belongs to its element was found, and drops it otherwise. -/
def settle (m : OpenMarker) (kind : κ) (found : Bool) : Walk ρ κ (Option (Marker κ)) := do
  if found then
    let marker ← step (·.complete m kind)
    pure (some marker)
  else
    move (·.drop m)
    pure none

/-- Wraps everything up to the end of the line in an element, unless the line is over. -/
def recoverToLineEnd (kind : κ) : Walk ρ κ (Option (Marker κ)) := do
  if Session.endsLine (← see (·.current)) then
    pure none
  else
    let m ← step Session.mark
    advanceTo Session.endsLine
    let marker ← step (·.complete m kind)
    pure (some marker)

/-- Leaves the expression that was entered for a walk, if it was. -/
def within (w refused : Walk ρ κ α) (entered : Bool) : Walk ρ κ α := do
  if entered then
    let a ← w
    move Session.exitExpression
    pure a
  else
    refused

/-- Enters an expression and leaves it again, unless it would be nested too deeply. -/
def nested (w refused : Walk ρ κ α) : Walk ρ κ α :=
  step Session.enterExpression >>= within w refused

/-- Notes that an expression was asked for when it is answered. -/
def noted (w : Walk ρ κ (Option (Marker κ))) : Walk ρ κ (Option (Marker κ)) := do
  let entered ← see id
  let found ← w
  note entered found
  pure found

/-! ## Runs -/

/-- A walk comes to an end with a result, having left a trail. -/
inductive Runs (routine : ∀ α, ρ α → Walk ρ κ α) : ∀ {α : Type}, Walk ρ κ α → Session κ →
    α × Session κ → List (Session κ) → List (Call κ) → Prop
  | done {α : Type} (a : α) (s : Session κ) : Runs routine (.done a) s (a, s) [] []
  | andThen {α β : Type} {w : Walk ρ κ α} {k : α → Walk ρ κ β} {s : Session κ}
      {r : α × Session κ} {r' : β × Session κ} {trail trail' : List (Session κ)}
      {calls calls' : List (Call κ)} (first : Runs routine w s r trail calls)
      (rest : Runs routine (k r.1) r.2 r' trail' calls') :
      Runs routine (.andThen w k) s r' (trail ++ trail') (calls ++ calls')
  | step {α : Type} (f : Session κ → α × Session κ) (s : Session κ) :
      Runs routine (.step f) s (f s) [(f s).2] []
  | see {α : Type} (f : Session κ → α) (s : Session κ) : Runs routine (.see f) s (f s, s) [] []
  | note (entered : Session κ) (found : Option (Marker κ)) (s : Session κ) :
      Runs routine (.note entered found) s ((), s) [] [⟨entered, found, s⟩]
  | stop {stops : Session κ → Bool} {w : Walk ρ κ Unit} {s : Session κ}
      (hstop : stops s = true) : Runs routine (.repeatUntil stops w) s ((), s) [] []
  | again {stops : Session κ → Bool} {w : Walk ρ κ Unit} {s : Session κ}
      {r : Unit × Session κ} {trail : List (Session κ)} {calls : List (Call κ)}
      (hgoes : stops s = false)
      (round : Runs routine (w >>= fun _ => .repeatUntil stops w) s r trail calls) :
      Runs routine (.repeatUntil stops w) s r trail calls
  | call {α : Type} {name : ρ α} {s : Session κ} {r : α × Session κ} {trail : List (Session κ)}
      {calls : List (Call κ)} (body : Runs routine (routine α name) s r trail calls) :
      Runs routine (.call name) s r trail calls

variable {routine : ∀ α, ρ α → Walk ρ κ α}

/-- **A walk has one run at most.** -/
theorem Runs.unique {w : Walk ρ κ α} {s : Session κ} {r r' : α × Session κ}
    {trail trail' : List (Session κ)} {calls calls' : List (Call κ)}
    (h : Runs routine w s r trail calls) (h' : Runs routine w s r' trail' calls') :
    r' = r ∧ trail' = trail ∧ calls' = calls := by
  induction h generalizing trail' calls' with
  | done a s => cases h'; exact ⟨rfl, rfl, rfl⟩
  | andThen _ _ ih ih' =>
      cases h' with
      | andThen first rest =>
          obtain ⟨rfl, rfl, rfl⟩ := ih first
          obtain ⟨rfl, rfl, rfl⟩ := ih' rest
          exact ⟨rfl, rfl, rfl⟩
  | step f s => cases h'; exact ⟨rfl, rfl, rfl⟩
  | see f s => cases h'; exact ⟨rfl, rfl, rfl⟩
  | note entered found s => cases h'; exact ⟨rfl, rfl, rfl⟩
  | stop hstop =>
      cases h' with
      | stop _ => exact ⟨rfl, rfl, rfl⟩
      | again hgoes _ => simp [hstop] at hgoes
  | again hgoes _ ih =>
      cases h' with
      | stop hstop => simp [hgoes] at hstop
      | again _ round => exact ih round
  | call _ ih =>
      cases h' with
      | call body => exact ih body

theorem Runs.nested {w refused : Walk ρ κ α} {s : Session κ} {r : α × Session κ}
    {trail : List (Session κ)} {calls : List (Call κ)} (hlt : s.depth < s.options.maxDepth)
    (h : Runs routine w { s with depth := s.depth + 1 } r trail calls) :
    Runs routine (nested w refused) s (r.1, r.2.exitExpression)
      ({ s with depth := s.depth + 1 } :: (trail ++ [r.2.exitExpression])) calls := by
  have henter : s.enterExpression = (true, { s with depth := s.depth + 1 }) := by
    simp [Session.enterExpression, Nat.not_le.mpr hlt]
  have hstep : Runs routine (Walk.step Session.enterExpression) _ _ _ _ := .step _ s
  rw [henter] at hstep
  have hinside : Runs routine (within w refused true) { s with depth := s.depth + 1 }
      (r.1, r.2.exitExpression) _ _ :=
    h.andThen (.andThen (.step _ r.2) (.done r.1 _))
  have hruns : Runs routine (Walk.nested w refused) s (r.1, r.2.exitExpression) _ _ :=
    hstep.andThen hinside
  simpa using hruns

theorem Runs.noted {w : Walk ρ κ (Option (Marker κ))} {s : Session κ}
    {r : Option (Marker κ) × Session κ} {trail : List (Session κ)} {calls : List (Call κ)}
    (h : Runs routine w s r trail calls) :
    Runs routine (noted w) s r trail (calls ++ [⟨s, r.1, r.2⟩]) := by
  have hruns : Runs routine (Walk.noted w) s r _ _ :=
    .andThen (.see id s) (h.andThen (.andThen (.note s r.1 r.2) (.done r.1 r.2)))
  simpa using hruns

end Walk

/-! ## Trails -/

/-- A session one step after another: the cursor has not gone back, no error is taken back, and
expressions are not nested deeper than they may be. -/
structure Session.Onto (s s' : Session κ) : Prop where
  tokens : s'.tokens = s.tokens
  options : s'.options = s.options
  forward : s.cursor ≤ s'.cursor
  cursor_lt : s'.cursor < s'.tokens.size
  depth_le : s'.depth ≤ s'.options.maxDepth
  errors : s.errors <+: s'.errors

/-- A trail leads from one session to another, step by step. -/
inductive Passage : Session κ → List (Session κ) → Session κ → Prop
  | stay (s : Session κ) : Passage s [] s
  | go {s s₁ s' : Session κ} {trail : List (Session κ)} (first : s.Onto s₁)
      (rest : Passage s₁ trail s') : Passage s (s₁ :: trail) s'

namespace Passage

variable {s s₁ s' : Session κ} {trail trail' : List (Session κ)}

theorem append (h : Passage s trail s₁) (h' : Passage s₁ trail' s') :
    Passage s (trail ++ trail') s' := by
  induction h with
  | stay s => exact h'
  | go first _ ih => exact .go first (ih h')

theorem tokens (h : Passage s trail s') : s'.tokens = s.tokens := by
  induction h with
  | stay s => rfl
  | go first _ ih => exact ih.trans first.tokens

theorem options (h : Passage s trail s') : s'.options = s.options := by
  induction h with
  | stay s => rfl
  | go first _ ih => exact ih.trans first.options

theorem forward (h : Passage s trail s') : s.cursor ≤ s'.cursor := by
  induction h with
  | stay s => exact Nat.le_refl _
  | go first _ ih => exact Nat.le_trans first.forward ih

theorem cursor_lt (h : Passage s trail s') (hs : s.cursor < s.tokens.size) :
    s'.cursor < s'.tokens.size := by
  induction h with
  | stay s => exact hs
  | go first _ ih => exact ih first.cursor_lt

theorem errors (h : Passage s trail s') : s.errors <+: s'.errors := by
  induction h with
  | stay s => exact List.prefix_refl _
  | go first _ ih => exact first.errors.trans ih

/-- A trail ends with the session that it leads to. -/
theorem getLast? (h : Passage s trail s') : (s :: trail).getLast? = some s' := by
  induction h with
  | stay s => rfl
  | go _ _ ih => rw [List.getLast?_cons_cons, ih]

/-- **On a trail the cursor never goes back.** -/
theorem isChain (h : Passage s trail s') :
    (s :: trail).IsChain fun s₁ s₂ => s₁.cursor ≤ s₂.cursor := by
  induction h with
  | stay s => exact List.isChain_singleton s
  | go first _ ih => exact List.isChain_cons_cons.mpr ⟨first.forward, ih⟩

/-- **On a trail expressions are never nested deeper than they may be.** -/
theorem depth_le (h : Passage s trail s') :
    ∀ s₁ ∈ trail, s₁.depth ≤ s.options.maxDepth := by
  induction h with
  | stay s => simp
  | go first _ ih =>
      refine List.forall_mem_cons.mpr ⟨first.options ▸ first.depth_le, ?_⟩
      rw [← first.options]
      exact ih

end Passage

/-- An expression is answered on the level on which it was asked for, with the markers open that
were open then; no error is taken back, and there is one more if none was found. -/
structure Call.Kept (c : Call κ) : Prop where
  depth : c.left.depth = c.entered.depth
  openIds : c.left.openIds = c.entered.openIds
  errors : c.entered.errors <+: c.left.errors
  missing : c.found = none → c.entered.errors.length < c.left.errors.length

/-- A session in which expressions may nest `levels` deeper, and in which no more of them are
open than there are tokens behind it, or one more if it is at the first token of one. -/
structure Session.Allows (s : Session κ) (levels lag : Nat) : Prop where
  ready : s.Ready
  levels : s.depth + levels = s.options.maxDepth
  depth_le : s.depth ≤ s.cursor + lag

namespace Session.Allows

variable {s : Session κ} {levels lag : Nat}

theorem openAt (h : s.Allows levels lag) (start : Nat) (precedes : Option Nat) :
    (s.openAt start precedes).2.Allows levels lag :=
  ⟨⟨h.ready.cursor_lt, h.ready.last_kind⟩, h.levels, h.depth_le⟩

theorem weaken (h : s.Allows levels 0) : s.Allows levels lag :=
  ⟨h.ready, h.levels, Nat.le_trans h.depth_le (Nat.le_add_right _ _)⟩

/-- Behind its first token an expression may have others inside of it. -/
theorem advance (h : s.Allows levels 1) (hkind : s.current.kind ≠ .eof) :
    s.advance.Allows levels 0 := by
  obtain ⟨hlt, hadvance⟩ := h.ready.advance_eq hkind
  rw [hadvance]
  exact ⟨⟨hlt, h.ready.last_kind⟩, h.levels, h.depth_le⟩

/-- Behind its first token an expression may have others inside of it, also while the marker of
an element is open. -/
theorem behind_open (h : s.Allows levels 1) (hkind : s.current.kind ≠ .eof) (start : Nat)
    (precedes : Option Nat) : (s.openAt start precedes).2.advance.Allows levels 0 :=
  (h.openAt start precedes).advance hkind

end Session.Allows

/-! ## The limit on nesting -/

/-- A session with another limit on how deep expressions may nest. -/
def Session.withLimit (s : Session κ) (limit : Nat) : Session κ :=
  { s with options := { s.options with maxDepth := limit } }

/-- It has been reported that an expression is nested too deeply. -/
def Session.Complains (s : Session κ) : Prop :=
  ∃ e ∈ s.errors, e.message = "expression nested too deeply"

theorem Session.complains_error (s : Session κ) :
    (s.error "expression nested too deeply").Complains :=
  ⟨⟨s.cursor, _, s.current.span⟩, List.mem_append_right _ (List.mem_singleton.mpr rfl), rfl⟩

theorem Session.Complains.mono {s s' : Session κ} (h : s.Complains)
    (herrors : s.errors <+: s'.errors) : s'.Complains := by
  obtain ⟨e, he, hmessage⟩ := h
  exact ⟨e, herrors.subset he, hmessage⟩

theorem Session.advance_withLimit (s : Session κ) (limit : Nat) :
    (s.withLimit limit).advance = s.advance.withLimit limit := by
  show (if s.cursor + 1 < s.tokens.size then _ else _) =
    (if _ then _ else _ : Session κ).withLimit _
  split <;> rfl

end Lossless
