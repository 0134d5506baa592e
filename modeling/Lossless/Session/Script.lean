import Lossless.Expression

/-!
# Scripts

A script is a session written down: a list of steps, each of them one operation of a
session.  Open markers and completed ones are kept under names, so that a later step
can refer to what an earlier one gave; a name that is used again stands for what was
kept under it last.  Every step has an outcome.
-/

namespace Lossless.Script

/-- One operation of a session. -/
inductive Step (κ : Type) where
  | mark (name : String)
  | complete (name : String) (kind : κ)
  | drop (name : String)
  | rollBack (name : String)
  /-- Opens a marker to wrap a completed one. -/
  | precede (inner name : String)
  | advance (count : Nat)
  | skipTrivia
  | error (message : String)
  | enterExpression
  | exitExpression
  /-- Forgets the events recorded so far. -/
  | clearTrace
  | peek
  | nth (n : Nat)
  | isAt (expected : Expectation)
  | eat (expected : Expectation)
  | expect (expected : Expectation)
  | isAtEnd
  | recover (kind : κ)
  /-- Reads an expression and keeps it under a name, if one is given. -/
  | expression (least : Nat) (name : Option String)
  | options

/-- What a step gives. -/
inductive Outcome (κ : Type) where
  | nothing
  | opened (marker : OpenMarker)
  | marker (marker : Option (Marker κ))
  | truth (value : Bool)
  | current (token : Token)
  | token (token : Token)
  | options (options : SessionOptions)
  /-- No marker is kept under the name. -/
  | unknownName (name : String)

/-- A session with the markers that are kept under names. -/
structure State (κ : Type) where
  session : Session κ
  openMarkers : List (String × OpenMarker)
  completed : List (String × Marker κ)

namespace State

variable {κ : Type}

/-- A session with no markers kept yet. -/
def ofSession (s : Session κ) : State κ := ⟨s, [], []⟩

/-- The state with an open marker kept under a name. -/
def keepOpen (st : State κ) (name : String) (r : OpenMarker × Session κ) :
    Outcome κ × State κ :=
  (.opened r.1, { st with session := r.2, openMarkers := (name, r.1) :: st.openMarkers })

/-- Takes the open marker that is kept under a name. -/
def takeOpen (st : State κ) (name : String)
    (use : OpenMarker → State κ → Outcome κ × State κ) : Outcome κ × State κ :=
  match st.openMarkers.lookup name with
  | none => (.unknownName name, st)
  | some m => use m { st with openMarkers := st.openMarkers.filter (·.1 != name) }

/-- The state with a completed marker, if there is one, kept under a name, if there is one. -/
def keepCompleted (st : State κ) (name : Option String)
    (r : Option (Marker κ) × Session κ) : Outcome κ × State κ :=
  let completed :=
    match name, r.1 with
    | some name, some m => (name, m) :: st.completed
    | _, _ => st.completed
  (.marker r.1, { st with session := r.2, completed })

/-- The state with another session. -/
def withSession (st : State κ) (s : Session κ) : State κ := { st with session := s }

end State

variable {κ : Type}

/-- Runs one step; `g` is the grammar of expressions. -/
def Step.run (g : ExpressionGrammar κ) (st : State κ) : Step κ → Outcome κ × State κ
  | mark name => st.keepOpen name st.session.mark
  | complete name kind =>
    st.takeOpen name fun m st =>
      let (marker, s) := st.session.complete m kind
      st.keepCompleted (some name) (some marker, s)
  | drop name =>
    st.takeOpen name fun m st => (.nothing, st.withSession (st.session.drop m))
  | rollBack name =>
    st.takeOpen name fun m st => (.nothing, st.withSession (st.session.rollBack m))
  | precede inner name =>
    match st.completed.lookup inner with
    | none => (.unknownName inner, st)
    | some m => st.keepOpen name (st.session.precede m)
  | advance count =>
    let s := st.session
    (.nothing, st.withSession (Nat.repeat Session.advance (min count s.tokens.size) s))
  | skipTrivia => (.nothing, st.withSession st.session.skipTrivia)
  | error message => (.nothing, st.withSession (st.session.error message))
  | enterExpression =>
    let (entered, s) := st.session.enterExpression
    (.truth entered, st.withSession s)
  | exitExpression => (.nothing, st.withSession st.session.exitExpression)
  | clearTrace =>
    (.nothing, st.withSession { st.session with trace := st.session.trace.map fun _ => [] })
  | peek => (.current st.session.current, st)
  | nth n => (.token (st.session.nth n), st)
  | isAt expected => (.truth (st.session.isAt expected), st)
  | eat expected =>
    let (eaten, s) := st.session.eat expected
    (.truth eaten, st.withSession s)
  | expect expected =>
    let (met, s) := st.session.expect expected
    (.truth met, st.withSession s)
  | isAtEnd => (.truth st.session.isAtEnd, st)
  | recover kind => st.keepCompleted none (st.session.recoverToLineEnd kind)
  | expression least name => st.keepCompleted name (g.expression least st.session)
  | options => (.options st.session.options, st)

/-- Runs steps in order and gives the outcome of each with the session after it, and the
last session. -/
def run (g : ExpressionGrammar κ) (st : State κ) :
    List (Step κ) → List (Outcome κ × Session κ) × Session κ
  | [] => ([], st.session)
  | step :: steps =>
    let (outcome, st) := step.run g st
    let (later, s) := run g st steps
    ((outcome, st.session) :: later, s)

end Lossless.Script
