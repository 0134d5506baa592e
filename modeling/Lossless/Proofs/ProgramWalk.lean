import Lossless.Proofs.ProgramLockstep
import Lossless.Proofs.Walk

/-!
# The calculator as a walk

`Walk.program` is the parser of the calculator as a walk.  There are no rounds to run out of, and
how deep expressions are nested is looked up in the session when one is entered.

A walk *leads* from a session to a result (`Leads`) if it comes to an end there, with the nesting
as it was, having left a passage.  What single steps lead to is said here, and that walks one after
the other lead where both do.
-/

namespace Lossless.Calculator

variable {α β : Type}

/-- The routines of the parser that call themselves, be it through others. -/
inductive Routine : Type → Type
  | expression (least : Nat) : Routine (Option (Marker Kind))
  | stringPieces : Routine Unit
  | extendWhile (least : Nat) (left : Marker Kind) : Routine (Marker Kind)
  | program : Routine Unit

namespace Walk

open Lossless.Walk

/-- An element of the current token alone. -/
def single (kind : Kind) : Walk Routine Kind (Marker Kind) := do
  let m ← step Session.mark
  move Session.advance
  step (·.complete m kind)

/-- Reports a block that is not closed here. -/
def reportBlock : Walk Routine Kind Unit := do
  if ← see (·.isAt blockEnd) then
    pure ()
  else
    error "expected '\x7d'"

/-- What becomes of a block that is not closed behind its expression. -/
def skipBlock : Walk Routine Kind Unit := do
  reportBlock
  advanceTo endsBlock
  let _ ← eat blockEnd

/-- An expression whose operators have at least the power `least`. -/
def expression (least : Nat) : Walk Routine Kind (Option (Marker Kind)) :=
  call (.expression least)

/-- The pieces of a string behind its opening. -/
def stringPieces : Walk Routine Kind Unit :=
  call .stringPieces

/-- Continues an expression behind `left` as long as the next operator has at least the power
`least`. -/
def extendWhile (least : Nat) (left : Marker Kind) : Walk Routine Kind (Marker Kind) :=
  call (.extendWhile least left)

/-- The statements up to the end of the input: a program. -/
def program : Walk Routine Kind Unit :=
  call .program

/-- The rest of an interpolation block behind its opening. -/
def block : Walk Routine Kind Unit := do
  match ← expression 0 with
  | none => skipBlock
  | some _ =>
    if ← eat blockEnd then
      pure ()
    else
      skipBlock

/-- The next piece of a string and the pieces behind it. -/
def stringPiece : Walk Routine Kind Unit := do
  match stringPart? (← see (·.current)) with
  | none => error "unterminated string"
  | some (.closing _) => move Session.advance
  | some .nameMark =>
    move Session.advance
    if (← see (·.current)).kind == .identifier then
      let _ ← single .name
      stringPieces
    else
      stringPieces
  | some .blockOpen =>
    move Session.advance
    block
    stringPieces
  | some _ =>
    move Session.advance
    stringPieces

/-- A string. -/
def string : Walk Routine Kind (Marker Kind) := do
  let m ← step Session.mark
  move Session.advance
  stringPieces
  step (·.complete m .string)

/-- An expression in brackets. -/
def group : Walk Routine Kind (Marker Kind) := do
  let m ← step Session.mark
  move Session.advance
  match ← expression 0 with
  | none => step (·.complete m .group)
  | some _ =>
    let _ ← expect (.text ")")
    step (·.complete m .group)

/-- An atom. -/
def atom : Walk Routine Kind (Option (Marker Kind)) := do
  match (← see (·.current)).kind with
  | .identifier => return some (← single .name)
  | .keyword => return some (← single .bool)
  | .punctuation => return some (← group)
  | .literal .char => return some (← single .char)
  | .literal (.string _) => return some (← string)
  | .literal _ => return some (← single .number)
  | _ => return none

/-- An operator with the operand behind it, or an atom. -/
def operand : Walk Routine Kind (Option (Marker Kind)) := do
  match operators.before? (← see (·.current)) with
  | none => atom
  | some op =>
    let m ← step Session.mark
    move Session.advance
    let found ← expression op.power
    settle m op.kind found.isSome

/-- The two further operands of a ternary operator, behind its opener. -/
def ternaryOperands (op : TernaryOperator Kind) : Walk Routine Kind Bool := do
  match ← expression 0 with
  | none => pure false
  | some _ =>
    if ← expect (.text op.separator) then
      let found ← expression op.power
      pure found.isSome
    else
      pure false

/-- Continues an expression behind `left` with the operator at the cursor. -/
def extend (left : Marker Kind) : Walk Routine Kind (Option (Marker Kind)) := do
  let t ← see (·.current)
  match operators.ternary? t with
  | some op =>
    let m ← step (·.precede left)
    move Session.advance
    let found ← ternaryOperands op
    settle m op.kind found
  | none =>
    match operators.between? t with
    | some op =>
      let m ← step (·.precede left)
      move Session.advance
      let found ← expression op.rightPower
      settle m op.kind found.isSome
    | none =>
      match operators.after? t with
      | some op =>
        let m ← step (·.precede left)
        move Session.advance
        settle m op.kind true
      | none => pure none

/-- The next operator behind `left`, if it has at least the power `least`, and those behind it. -/
def extendOnce (least : Nat) (left : Marker Kind) : Walk Routine Kind (Marker Kind) := do
  match operators.continuingPower? (← see (·.nth 0)) with
  | none => pure left
  | some power =>
    if least ≤ power then
      skipTrivia
      match ← extend left with
      | some wider => extendWhile least wider
      | none => pure left
    else
      pure left

/-- An operand and the operators behind it. -/
def body (least : Nat) : Walk Routine Kind (Option (Marker Kind)) := do
  match ← operand with
  | none => pure none
  | some left =>
    let whole ← extendWhile least left
    pure (some whole)

/-- Reports that no expression is read here. -/
def refuse (message : String) : Walk Routine Kind (Option (Marker Kind)) := do
  error message
  pure none

/-- Reads an expression, if one starts here and it is not nested too deeply. -/
def read (least : Nat) : Walk Routine Kind (Option (Marker Kind)) := do
  skipTrivia
  let t ← see (·.current)
  if Session.endsLine t then
    refuse "expected expression"
  else if (grammar.startingPower? t).isNone then
    refuse ("unexpected token '" ++ t.text ++ "'")
  else
    nested (body least) (refuse "expression nested too deeply")

/-- The name behind the keyword of a `let` statement. -/
def letName : Walk Routine Kind Unit := do
  if ← see (·.isAt (.kind .identifier)) then
    skipTrivia
    let _ ← single .name
  else
    let _ ← expect (.kind .identifier)

/-- The value behind the name of a `let` statement. -/
def letValue : Walk Routine Kind Unit := do
  if ← expect (.text "=") then
    let _ ← expression 0
  else
    pure ()

/-- A `let` statement. -/
def letStatement : Walk Routine Kind Unit := do
  skipTrivia
  let m ← step Session.mark
  move Session.advance
  letName
  letValue
  let _ ← step (·.complete m .letStatement)

/-- An expression that stands as a statement. -/
def expressionStatement : Walk Routine Kind Unit := do
  match ← expression 0 with
  | none => pure ()
  | some e =>
    let m ← step (·.precede e)
    let _ ← step (·.complete m .expressionStatement)

/-- What a line is read as. -/
def lineContent : Walk Routine Kind Unit := do
  if ← see (·.isAt (.text "let")) then
    letStatement
  else
    expressionStatement

/-- Reports that a line goes on, unless an error has been reported since there were `before`. -/
def reportRest (before : Nat) : Walk Routine Kind Unit := do
  if (← see (·.errors.length)) == before then
    error "expected end of line"
  else
    pure ()

/-- A statement and what is left of its line. -/
def statement : Walk Routine Kind Unit := do
  let before ← see (·.errors.length)
  lineContent
  skipTrivia
  if Session.endsLine (← see (·.current)) then
    pure ()
  else
    reportRest before
    let _ ← recoverToLineEnd .badStatement

/-- The next line and the lines behind it. -/
def line : Walk Routine Kind Unit := do
  skipTrivia
  match (← see (·.current)).kind with
  | .eof => pure ()
  | .linebreak =>
    move Session.advance
    program
  | _ =>
    statement
    program

/-- What the routines do; that an expression was asked for is noted when it is answered. -/
def routine : ∀ α, Routine α → Walk Routine Kind α
  | _, .expression least => noted (read least)
  | _, .stringPieces => stringPiece
  | _, .extendWhile least left => extendOnce least left
  | _, .program => line

end Walk

open Lossless.Walk

/-! ## Where a walk leads -/

/-- A walk leads from a session to a result: **it comes to an end**, the trail is a trail, every
expression it was asked for was answered, and in the end expressions are nested as in the
beginning and the markers `ids` are open.

A higher limit on nesting makes no difference, unless it is reported that an expression is nested
too deeply, for which there have to be tokens enough. -/
structure Leads (ids : List Nat) (w : Walk Routine Kind α) (s : Session Kind)
    (r : α × Session Kind) : Prop where
  ends : ∃ trail calls, Runs Walk.routine w s r trail calls ∧ Passage s trail r.2 ∧
    ∀ c ∈ calls, c.Kept
  depth : r.2.depth = s.depth
  openIds : r.2.openIds = ids
  guarded : ∀ limit, s.options.maxDepth ≤ limit →
    (∃ trail calls,
      Runs Walk.routine w (s.withLimit limit) (r.1, r.2.withLimit limit) trail calls) ∨
      r.2.Complains ∧ s.options.maxDepth + 1 < s.tokens.size

variable {s : Session Kind} {ids : List Nat} {w : Walk Routine Kind α}
  {k : α → Walk Routine Kind β} {r : α × Session Kind} {r' : β × Session Kind} {levels lag : Nat}

theorem Leads.passage (h : Leads ids w s r) : ∃ trail, Passage s trail r.2 := by
  obtain ⟨trail, _, _, hpassage, _⟩ := h.ends
  exact ⟨trail, hpassage⟩

theorem Leads.tokens (h : Leads ids w s r) : r.2.tokens = s.tokens := by
  obtain ⟨_, hpassage⟩ := h.passage
  exact hpassage.tokens

theorem Leads.options (h : Leads ids w s r) : r.2.options = s.options := by
  obtain ⟨_, hpassage⟩ := h.passage
  exact hpassage.options

theorem Leads.forward (h : Leads ids w s r) : s.cursor ≤ r.2.cursor := by
  obtain ⟨_, hpassage⟩ := h.passage
  exact hpassage.forward

theorem Leads.errors (h : Leads ids w s r) : s.errors <+: r.2.errors := by
  obtain ⟨_, hpassage⟩ := h.passage
  exact hpassage.errors

theorem Leads.allows (h : Leads ids w s r) (hs : s.Allows levels lag) : r.2.Allows levels lag := by
  obtain ⟨_, hpassage⟩ := h.passage
  refine ⟨⟨hpassage.cursor_lt hs.ready.cursor_lt, ?_⟩, ?_, ?_⟩
  · rw [hpassage.tokens]
    exact hs.ready.last_kind
  · rw [h.depth, hpassage.options]
    exact hs.levels
  · rw [h.depth]
    exact Nat.le_trans hs.depth_le (Nat.add_le_add_right hpassage.forward _)

/-! ## One walk after the other -/

theorem leads_pure (a : α) (hids : s.openIds = ids) : Leads ids (pure a) s (a, s) where
  ends := ⟨[], [], .done a s, .stay s, by simp⟩
  depth := rfl
  openIds := hids
  guarded := fun _ _ => Or.inl ⟨_, _, .done a _⟩

/-- **Two walks one after the other lead where both do.** -/
theorem Leads.bind {ids' : List Nat} (h : Leads ids' w s r) (h' : Leads ids (k r.1) r.2 r') :
    Leads ids (w >>= k) s r' := by
  obtain ⟨trail, calls, hends, hpassage, hcalls⟩ := h.ends
  obtain ⟨trail', calls', hends', hpassage', hcalls'⟩ := h'.ends
  refine ⟨⟨_, _, hends.andThen hends', hpassage.append hpassage',
    List.forall_mem_append.mpr ⟨hcalls, hcalls'⟩⟩, h'.depth.trans h.depth, h'.openIds, ?_⟩
  intro limit hlimit
  have hguarded := h'.guarded limit (by rw [h.options]; exact hlimit)
  rw [h.options, h.tokens] at hguarded
  -- a complaint on the way is never taken back
  rcases h.guarded limit hlimit with ⟨_, _, hfirst⟩ | ⟨hcomplains, hroom⟩
  · rcases hguarded with ⟨_, _, hsecond⟩ | hcomplains
    · exact Or.inl ⟨_, _, hfirst.andThen hsecond⟩
    · exact Or.inr hcomplains
  · exact Or.inr ⟨hcomplains.mono h'.errors, hroom⟩

/-- A walk leads where another does if it runs as that one does, whatever the limit is. -/
theorem Leads.of_runs {w' : Walk Routine Kind α} (h : Leads ids w s r)
    (hruns : ∀ limit r trail calls, Runs Walk.routine w (s.withLimit limit) r trail calls →
      Runs Walk.routine w' (s.withLimit limit) r trail calls) :
    Leads ids w' s r := by
  obtain ⟨trail, calls, hends, hkept⟩ := h.ends
  refine ⟨⟨trail, calls, hruns s.options.maxDepth _ _ _ hends, hkept⟩, h.depth, h.openIds, ?_⟩
  intro limit hlimit
  rcases h.guarded limit hlimit with ⟨_, _, hends⟩ | hcomplains
  · exact Or.inl ⟨_, _, hruns limit _ _ _ hends⟩
  · exact Or.inr hcomplains

/-- A routine leads where its body does. -/
theorem leads_call {name : Routine α} (h : Leads ids (Walk.routine α name) s r) :
    Leads ids (call name) s r :=
  h.of_runs fun _ _ _ _ => .call

/-- Looking changes nothing, and the limit on nesting is not looked at. -/
theorem leads_see {f : Session Kind → α} (hf : ∀ limit, f (s.withLimit limit) = f s)
    (h : Leads ids (k (f s)) s r') : Leads ids (see f >>= k) s r' := by
  refine h.of_runs fun limit _ _ _ hends => ?_
  rw [← hf limit] at hends
  exact .andThen (.see f _) hends

/-- What a walk answers may be put in other words. -/
theorem Leads.answer (h : Leads ids w s r) (g : α → β) :
    Leads ids (w >>= fun a => pure (g a)) s (g r.1, r.2) :=
  h.bind (leads_pure (g r.1) h.openIds)

/-! ## Single steps -/

/-- A step that stays on its level, whatever the limit is. -/
theorem leads_step (hs : s.Allows levels lag) {f : Session Kind → α × Session Kind}
    (htokens : (f s).2.tokens = s.tokens) (hoptions : (f s).2.options = s.options)
    (hforward : s.cursor ≤ (f s).2.cursor) (hlt : (f s).2.cursor < s.tokens.size)
    (herrors : s.errors <+: (f s).2.errors) (hdepth : (f s).2.depth = s.depth)
    (hblind : ∀ limit, f (s.withLimit limit) = ((f s).1, (f s).2.withLimit limit)) :
    Leads (f s).2.openIds (step f) s (f s) := by
  have hle : (f s).2.depth ≤ (f s).2.options.maxDepth := by
    rw [hdepth, hoptions, ← hs.levels]
    exact Nat.le_add_right _ _
  refine ⟨⟨_, _, (.step f s),
    .go ⟨htokens, hoptions, hforward, htokens ▸ hlt, hle, herrors⟩ (.stay _), by simp⟩, hdepth, rfl,
    ?_⟩
  intro limit _
  have hends : Runs Walk.routine (step f) _ _ _ _ := .step f (s.withLimit limit)
  rw [hblind] at hends
  exact Or.inl ⟨_, _, hends⟩

theorem leads_move (hs : s.Allows levels lag) {f : Session Kind → Session Kind} (h : s.Moves (f s))
    (hdepth : (f s).depth = s.depth)
    (hblind : ∀ limit, f (s.withLimit limit) = (f s).withLimit limit) :
    Leads s.openIds (move f) s ((), f s) := by
  rw [← h.openIds]
  exact leads_step (f := fun s => ((), f s)) hs h.tokens h.options h.forward
    (h.cursor_lt hs.ready.cursor_lt) h.errors hdepth fun limit => by rw [hblind]

theorem leads_advance (hs : s.Allows levels lag) :
    Leads s.openIds (move Session.advance) s ((), s.advance) :=
  leads_move hs s.moves_advance s.depth_advance s.advance_withLimit

theorem leads_error (hs : s.Allows levels lag) (message : String) :
    Leads s.openIds (error message) s ((), s.error message) :=
  leads_move hs (s.moves_error message) rfl fun _ => rfl

/-- Opening a marker, and what is done while it is open. -/
theorem leads_open (hs : s.Allows levels lag) {f : Session Kind → OpenMarker × Session Kind}
    {start : Nat} {precedes : Option Nat} (hf : f s = s.openAt start precedes)
    (hblind : ∀ limit, f (s.withLimit limit) = ((f s).1, (f s).2.withLimit limit))
    {k : OpenMarker → Walk Routine Kind β}
    (h : Leads ids (k (s.openAt start precedes).1) (s.openAt start precedes).2 r') :
    Leads ids (step f >>= k) s r' := by
  have hopen : Leads (f s).2.openIds (step f) s (f s) := by
    refine leads_step hs ?_ ?_ ?_ ?_ ?_ ?_ hblind <;> rw [hf]
    · rfl
    · rfl
    · exact Nat.le_refl _
    · exact hs.ready.cursor_lt
    · exact List.prefix_refl _
    · rfl
  rw [hf] at hopen
  exact hopen.bind h

/-- Closing the marker that was opened last. -/
theorem leads_complete (hs : s.Allows levels lag) {m : OpenMarker} (hm : s.openIds = m.id :: ids)
    (kind : Kind) : Leads ids (step (·.complete m kind)) s (s.complete m kind) := by
  have hids : (s.complete m kind).2.openIds = ids := by
    show s.openIds.erase m.id = ids
    rw [hm, List.erase_cons_head]
  have hstep := leads_step (f := (·.complete m kind)) hs rfl rfl (Nat.le_refl _)
    hs.ready.cursor_lt (List.prefix_refl _) rfl fun _ => rfl
  rwa [hids] at hstep

theorem leads_drop (hs : s.Allows levels lag) {m : OpenMarker} (hm : s.openIds = m.id :: ids) :
    Leads ids (move (·.drop m)) s ((), s.drop m) := by
  have hids : (s.drop m).openIds = ids := by
    show s.openIds.erase m.id = ids
    rw [hm, List.erase_cons_head]
  have hstep := leads_step (f := fun s => ((), s.drop m)) hs rfl rfl (Nat.le_refl _)
    hs.ready.cursor_lt (List.prefix_refl _) rfl fun _ => rfl
  rwa [hids] at hstep

theorem leads_settle (hs : s.Allows levels lag) {m : OpenMarker} (hm : s.openIds = m.id :: ids)
    (kind : Kind) (found : Bool) :
    Leads ids (settle m kind found) s (ExpressionGrammar.settle m kind found s) := by
  cases found with
  | true => exact (leads_complete hs hm kind).answer some
  | false => exact (leads_drop hs hm).answer fun _ => none

/-! ## Expressions inside of one another -/

/-- One level deeper and back. -/
theorem leads_nested (hs : s.Allows (levels + 1) lag) {refused : Walk Routine Kind α}
    (h : Leads s.openIds w { s with depth := s.depth + 1 } r) :
    Leads s.openIds (nested w refused) s (r.1, r.2.exitExpression) := by
  obtain ⟨trail, calls, hends, hpassage, hcalls⟩ := h.ends
  have hlt : s.depth < s.options.maxDepth := by
    have hlevels := hs.levels
    omega
  have hdepth : r.2.exitExpression.depth = s.depth := by
    show r.2.depth - 1 = s.depth
    rw [h.depth]
    exact Nat.add_sub_cancel _ _
  have hfirst : s.Onto { s with depth := s.depth + 1 } :=
    ⟨rfl, rfl, Nat.le_refl _, hs.ready.cursor_lt, hlt, List.prefix_refl _⟩
  have hlast : r.2.Onto r.2.exitExpression := by
    refine ⟨rfl, rfl, Nat.le_refl _, hpassage.cursor_lt hs.ready.cursor_lt, ?_, List.prefix_refl _⟩
    show r.2.exitExpression.depth ≤ r.2.options.maxDepth
    rw [hdepth, h.options]
    exact Nat.le_of_lt hlt
  refine ⟨⟨_, calls, hends.nested hlt, .go hfirst (hpassage.append (.go hlast (.stay _))),
    hcalls⟩, hdepth, h.openIds, ?_⟩
  intro limit hlimit
  rcases h.guarded limit hlimit with ⟨_, _, hends⟩ | hcomplains
  · exact Or.inl ⟨_, _, Runs.nested (s := s.withLimit limit) (Nat.lt_of_lt_of_le hlt hlimit) hends⟩
  · exact Or.inr hcomplains

/-- Where expressions may not nest any deeper, none is entered.  As many are open then as may be,
each of them at a token of its own. -/
theorem leads_refused (hs : s.Allows 0 0) (hkind : s.current.kind ≠ .eof)
    {refused : Walk Routine Kind α} (h : Leads s.openIds refused s r) (hcomplains : r.2.Complains) :
    Leads s.openIds (nested w refused) s r := by
  have hfull : s.options.maxDepth = s.depth := hs.levels.symm
  have hstay : s.enterExpression = (false, s) := by
    simp [Session.enterExpression, hfull]
  obtain ⟨trail, calls, hends, hpassage, hcalls⟩ := h.ends
  have hstep : Runs Walk.routine (step Session.enterExpression) _ _ _ _ := .step _ s
  rw [hstay] at hstep
  have honto : s.Onto s :=
    ⟨rfl, rfl, Nat.le_refl _, hs.ready.cursor_lt, Nat.le_of_eq hfull.symm, List.prefix_refl _⟩
  refine ⟨⟨_, _, hstep.andThen (k := within w refused) hends,
    .go honto hpassage, hcalls⟩, h.depth, h.openIds, ?_⟩
  intro limit _
  have hlt := (hs.ready.advance_eq hkind).1
  have hle := hs.depth_le
  exact Or.inr ⟨hcomplains, by omega⟩

/-- An expression that is answered is noted. -/
theorem leads_noted {w : Walk Routine Kind (Option (Marker Kind))}
    {r : Option (Marker Kind) × Session Kind} (h : Leads s.openIds w s r)
    (hmissing : r.1 = none → s.errors.length < r.2.errors.length) :
    Leads s.openIds (noted w) s r := by
  obtain ⟨trail, calls, hends, hpassage, hcalls⟩ := h.ends
  have hkept : Call.Kept ⟨s, r.1, r.2⟩ := ⟨h.depth, h.openIds, hpassage.errors, hmissing⟩
  refine ⟨⟨trail, _, hends.noted, hpassage,
    List.forall_mem_append.mpr ⟨hcalls, by simpa using hkept⟩⟩, h.depth, h.openIds, ?_⟩
  intro limit hlimit
  rcases h.guarded limit hlimit with ⟨_, _, hends⟩ | hcomplains
  · exact Or.inl ⟨_, _, hends.noted⟩
  · exact Or.inr hcomplains

/-! ## Moving on -/

/-- **Seeking comes to an end**, since the end of input stops it. -/
theorem leads_advanceTo (stops : Token → Bool)
    (hstops : ∀ t : Token, t.kind = .eof → stops t = true) (hs : s.Allows levels lag) :
    Leads s.openIds (advanceTo stops) s ((), s.advanceTo stops) := by
  induction hrest : s.remaining generalizing s with
  | zero =>
      have hlt := hs.ready.cursor_lt
      rw [Session.remaining] at hrest
      omega
  | succ rest ih =>
      cases hstop : stops s.current with
      | true =>
          have hstay : s.advanceTo stops = s := by
            have hhere : s.tokens.getD s.cursor (Token.eof 0) = s.current := rfl
            show { s with cursor := Session.seek stops s.tokens s.remaining s.cursor } = s
            rw [hrest, Session.seek, hhere, hstop]
            rfl
          rw [hstay]
          refine (leads_pure () rfl).of_runs fun _ _ _ _ hends => ?_
          cases hends
          exact .stop hstop
      | false =>
          have hkind : s.current.kind ≠ .eof := by
            intro heof
            rw [hstops _ heof] at hstop
            cases hstop
          have hadvance := leads_advance hs
          have hnext : s.advance.remaining = rest := by
            rw [(hs.ready.advance_eq hkind).2]
            rw [Session.remaining] at hrest ⊢
            show s.tokens.size - (s.cursor + 1) = rest
            omega
          have hlater := ih (hadvance.allows hs) hnext
          rw [hadvance.openIds, ← hs.ready.advanceTo_eq hstop hkind] at hlater
          exact (hadvance.bind hlater).of_runs fun _ _ _ _ => .again hstop

theorem leads_skipTrivia (hs : s.Allows levels lag) :
    Leads s.openIds skipTrivia s ((), s.skipTrivia) :=
  leads_advanceTo _ (fun t ht => by simp [Token.isTrivia_of_kind ht rfl]) hs

theorem leads_eat (hs : s.Allows levels lag) (e : Expectation) :
    Leads s.openIds (eat e) s (s.eat e) := by
  have hskip := leads_skipTrivia hs
  refine hskip.bind (leads_see (fun _ => rfl) ?_)
  unfold Session.eat
  simp only
  split
  · exact (leads_advance (hskip.allows hs)).answer fun _ => true
  · exact leads_pure false rfl

theorem leads_expect (hs : s.Allows levels lag) (e : Expectation) :
    Leads s.openIds (expect e) s (s.expect e) := by
  have heat := leads_eat hs e
  refine heat.bind ?_
  unfold Session.expect
  have hs₁ := heat.allows hs
  have hids := heat.openIds
  generalize s.eat e = r at hs₁ hids ⊢
  obtain ⟨met, s₁⟩ := r
  cases met with
  | true => exact leads_pure true hids
  | false =>
      rw [← hids]
      exact (leads_error hs₁ _).answer fun _ => false

theorem leads_recoverToLineEnd (hs : s.Allows levels lag) (kind : Kind) :
    Leads s.openIds (recoverToLineEnd kind) s (s.recoverToLineEnd kind) := by
  refine leads_see (fun _ => rfl) ?_
  unfold Session.recoverToLineEnd
  split
  · exact leads_pure none rfl
  · have hopen := hs.openAt s.cursor none
    have hseek := leads_advanceTo Session.endsLine
      (fun t ht => by simp [Session.endsLine, ht]) hopen
    refine leads_open hs rfl (fun _ => rfl) (hseek.bind ?_)
    exact (leads_complete (m := s.mark.1) (hseek.allows hopen) hseek.openIds kind).answer some

end Lossless.Calculator
