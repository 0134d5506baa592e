import Lossless.Proofs.Actions

/-!
# Going back

An open marker remembers only how many markers were completed and how many errors were
reported when it was opened.  Going back cuts both lists to these lengths, and this is right
only if the old lists are still the beginnings of the new ones.

They are, as long as no marker opened earlier is rolled back (`Live.Since`): completing and
reporting add at the end, and a marker opened later remembers longer lists.  So **going back
to a marker restores the session in which it was opened** (`rollBack_restores`), whatever was
opened, completed, wrapped, dropped and rolled back since.
-/

namespace Lossless

variable {κ : Type}

/-! ## What no action changes -/

/-- The tokens and the options of a session stay, and numbers are only used up. -/
theorem Action.Effect.fixed {l l₁ : Live κ} {act : Action κ} (h : Effect l act l₁) :
    l₁.session.tokens = l.session.tokens ∧ l₁.session.options = l.session.options ∧
      l.session.opened ≤ l₁.session.opened := by
  cases h with
  | moves h => exact ⟨h.tokens, h.options, Nat.le_of_eq h.opened.symm⟩
  | marks => exact ⟨rfl, rfl, Nat.le_succ _⟩
  | precedes inner => exact ⟨rfl, rfl, Nat.le_succ _⟩
  | completes kind h => exact ⟨rfl, rfl, Nat.le_refl _⟩
  | drops h => exact ⟨rfl, rfl, Nat.le_refl _⟩
  | rollsBack h => exact ⟨rfl, rfl, Nat.le_refl _⟩
  | recovers kind h =>
      exact ⟨h.tokens, h.options, Nat.le_trans (Nat.le_succ _) (Nat.le_of_eq h.opened.symm)⟩

theorem Live.run_fixed (l : Live κ) (acts : List (Action κ)) :
    (l.run acts).session.tokens = l.session.tokens ∧
      (l.run acts).session.options = l.session.options := by
  induction acts generalizing l with
  | nil => exact ⟨rfl, rfl⟩
  | cons act acts ih =>
      obtain ⟨htokens, hoptions, _⟩ := (act.effect l).fixed
      obtain ⟨htokens', hoptions'⟩ := ih (act.run l)
      exact ⟨htokens'.trans htokens, hoptions'.trans hoptions⟩

/-- A marker in hand is one that was in hand before, or one that the action has opened. -/
theorem Action.Effect.held {l l₁ : Live κ} {act : Action κ} (h : Effect l act l₁)
    {o : OpenMarker} (ho : o ∈ l₁.held) :
    o ∈ l.held ∨ o.id = l.session.opened ∧ l₁.session.opened = l.session.opened + 1 ∧
      o.completed = l.session.completed.length ∧ o.errors = l.session.errors.length := by
  cases h with
  | moves h => exact Or.inl ho
  | marks =>
      rcases List.mem_cons.mp ho with rfl | ho
      · exact Or.inr ⟨rfl, rfl, rfl, rfl⟩
      · exact Or.inl ho
  | precedes inner =>
      rcases List.mem_cons.mp ho with rfl | ho
      · exact Or.inr ⟨rfl, rfl, rfl, rfl⟩
      · exact Or.inl ho
  | completes kind h => exact Or.inl (List.mem_of_mem_erase ho)
  | drops h => exact Or.inl (List.mem_of_mem_erase ho)
  | rollsBack h => exact Or.inl (List.mem_of_mem_erase ho)
  | recovers kind h => exact Or.inl ho

/-- The markers in hand have numbers that are used up. -/
def Live.Numbered (l : Live κ) : Prop :=
  ∀ o ∈ l.held, o.id < l.session.opened

theorem Live.Numbered.step {l : Live κ} (h : l.Numbered) (act : Action κ) :
    (act.run l).Numbered := by
  intro o ho
  obtain ⟨_, _, hopened⟩ := (act.effect l).fixed
  rcases (act.effect l).held ho with ho | ⟨hid, hnew, _⟩
  · exact Nat.lt_of_lt_of_le (h o ho) hopened
  · omega

theorem Live.Numbered.run {l : Live κ} (h : l.Numbered) (acts : List (Action κ)) :
    (l.run acts).Numbered := by
  induction acts generalizing l with
  | nil => exact h
  | cons act acts ih => exact ih (h.step act)

/-! ## Since a marker was opened -/

/-- From `l`, in which a marker was opened, a live session has come to `l'`: what was completed
and reported then is still there, and so it is for every marker opened since. -/
structure Live.Since (l : Live κ) (m : OpenMarker) (l' : Live κ) : Prop where
  completed : l.session.completed <+: l'.session.completed
  errors : l.session.errors <+: l'.session.errors
  later : ∀ o ∈ l'.held, m.id ≤ o.id →
    l.session.completed.length ≤ o.completed ∧ l.session.errors.length ≤ o.errors

/-- A list that is cut, but not below its beginning, still has the beginning. -/
theorem prefix_take_of_le {α : Type} {as bs : List α} (h : as <+: bs) {n : Nat}
    (hn : as.length ≤ n) : as <+: bs.take n := by
  rw [List.prefix_take_iff]
  exact ⟨h, hn⟩

/-- What was completed and reported when a marker was opened survives going back to a marker
opened later. -/
theorem Live.Since.rollBack {l l' : Live κ} {m o : OpenMarker} (h : l.Since m l')
    (ho : o ∈ l'.held) (hlater : m.id ≤ o.id) :
    l.session.completed <+: (l'.session.rollBack o).completed ∧
      l.session.errors <+: (l'.session.rollBack o).errors := by
  obtain ⟨hcompleted, herrors⟩ := h.later o ho hlater
  refine ⟨prefix_take_of_le h.completed (Nat.le_min.mpr ⟨hcompleted, h.completed.length_le⟩),
    prefix_take_of_le h.errors ?_⟩
  unfold Session.keptErrors
  split
  · exact h.errors.length_le
  · exact Nat.le_min.mpr ⟨herrors, h.errors.length_le⟩

/-- One action later, unless it rolls back a marker opened earlier. -/
theorem Live.Since.step {l l' l₁ : Live κ} {m : OpenMarker} (h : l.Since m l')
    {act : Action κ} (heffect : Action.Effect l' act l₁)
    (hop : ∀ o, act = .rollBack o → m.id ≤ o.id) : l.Since m l₁ := by
  have hlists : l.session.completed <+: l₁.session.completed ∧
      l.session.errors <+: l₁.session.errors := by
    cases heffect with
    | moves h' => exact ⟨h'.completed ▸ h.completed, h.errors.trans h'.errors⟩
    | marks => exact ⟨h.completed, h.errors⟩
    | precedes inner => exact ⟨h.completed, h.errors⟩
    | completes kind h' => exact ⟨h.completed.trans (List.prefix_append _ _), h.errors⟩
    | drops h' => exact ⟨h.completed, h.errors⟩
    | rollsBack h' => exact h.rollBack h' (hop _ rfl)
    | recovers kind h' =>
        have hmoved : l.session.completed <+: _ := h'.completed ▸ h.completed
        exact ⟨hmoved.trans (List.prefix_append _ _), h.errors.trans h'.errors⟩
  refine ⟨hlists.1, hlists.2, ?_⟩
  intro o ho hlater
  rcases heffect.held ho with ho | ⟨_, _, hcompleted, herrors⟩
  · exact h.later o ho hlater
  · rw [hcompleted, herrors]
    exact ⟨h.completed.length_le, h.errors.length_le⟩

theorem Live.Since.run {l l' : Live κ} {m : OpenMarker} (h : l.Since m l')
    {acts : List (Action κ)} (hops : ∀ o, .rollBack o ∈ acts → m.id ≤ o.id) :
    l.Since m (l'.run acts) := by
  induction acts generalizing l' with
  | nil => exact h
  | cons act acts ih =>
      refine ih (h.step (act.effect l') ?_) (fun o ho => hops o (List.mem_cons_of_mem _ ho))
      rintro o rfl
      exact hops o List.mem_cons_self

/-- Nothing is lost right after a marker is opened. -/
theorem Live.Numbered.since_openAt {l : Live κ} (h : l.Numbered) (start : Nat)
    (precedes : Option Nat) :
    l.Since (l.session.openAt start precedes).1 (l.hold (l.session.openAt start precedes)) := by
  refine ⟨List.prefix_refl _, List.prefix_refl _, ?_⟩
  intro o ho hlater
  rcases List.mem_cons.mp ho with rfl | ho
  · exact ⟨Nat.le_refl _, Nat.le_refl _⟩
  · have hlt := h o ho
    exact absurd hlater (Nat.not_le_of_lt hlt)

/-- **Going back is a transaction.**  A marker is opened in `l`, at the cursor or to wrap an
element; then anything happens, except that a marker opened before it is rolled back, until
`l'`.  Going back to the marker restores the cursor and the completed markers of `l`, and its
errors too if errors are retracted; all else stays as it is in `l'`. -/
theorem rollBack_restores (tokens : List Token) (options : SessionOptions) (traced : Bool)
    (before between : List (Action κ)) (start : Nat) (precedes : Option Nat) :
    let l : Live κ := (Live.start tokens options traced).run before
    let m := (l.session.openAt start precedes).1
    let l' := (l.hold (l.session.openAt start precedes)).run between
    let s := l'.session.rollBack m
    m ∈ l'.held → (∀ o, .rollBack o ∈ between → m.id ≤ o.id) →
      s.cursor = l.session.cursor ∧ s.completed = l.session.completed ∧
      (options.rollback = .retractErrors → s.errors = l.session.errors) ∧
      (options.rollback = .keepErrors → s.errors = l'.session.errors) ∧
      s.tokens = l'.session.tokens ∧ s.options = l'.session.options ∧
      s.depth = l'.session.depth := by
  intro l m l' s _ houter
  have hnumbered : l.Numbered := Live.Numbered.run (by simp [Live.Numbered, Live.start]) before
  have hsince : l.Since m l' := (hnumbered.since_openAt start precedes).run houter
  have hoptions : l'.session.options = options :=
    (Live.run_fixed _ between).2.trans (Live.run_fixed _ before).2
  have hcompleted : m.completed = l.session.completed.length := rfl
  have herrors : m.errors = l.session.errors.length := rfl
  refine ⟨rfl, ?_, ?_, ?_, rfl, rfl, rfl⟩
  · show l'.session.completed.take (min m.completed l'.session.completed.length) = _
    rw [hcompleted, Nat.min_eq_left hsince.completed.length_le]
    exact (List.prefix_iff_eq_take.mp hsince.completed).symm
  · intro hretract
    show l'.session.errors.take (l'.session.keptErrors m) = _
    rw [Session.keptErrors, hoptions, hretract]
    simp only
    rw [herrors, Nat.min_eq_left hsince.errors.length_le]
    exact (List.prefix_iff_eq_take.mp hsince.errors).symm
  · intro hkeep
    show l'.session.errors.take (l'.session.keptErrors m) = _
    rw [Session.keptErrors, hoptions, hkeep]
    exact List.take_length

/-- A session over three tokens in which an element is completed and an error reported. -/
def sessionWithElement : Live String :=
  (Live.start (Token.lay [(.identifier, "a"), (.operator, "+"), (.identifier, "b")])
    ⟨.retractErrors, 256⟩ false).run
    [.mark, .advance, .complete ⟨0, 0, 0, 0, 0, none⟩ "name", .error "early"]

/-- An element is completed, and a second attempt is given up again; both report errors. -/
def nestedAttempts : List (Action String) :=
  [.mark, .advance, .complete ⟨2, 1, 1, 1, 1, none⟩ "sign", .mark, .error "late", .advance,
    .rollBack ⟨3, 2, 2, 2, 1, none⟩, .enterExpression, .error "again"]

/-- The session after the nested attempts, with the marker in hand that is to wrap the first
element. -/
def sessionAfterAttempts : Live String :=
  (sessionWithElement.hold (sessionWithElement.session.openAt 0 (some 0))).run nestedAttempts

/-- The marker that wraps the first element is rolled back behind the nested attempts. -/
theorem rollBack_restores_nested_attempts :
    let m : OpenMarker := ⟨1, 0, 1, 1, 1, some 0⟩
    let s := sessionAfterAttempts.session.rollBack m
    m ∈ sessionAfterAttempts.held ∧ (∀ o, .rollBack o ∈ nestedAttempts → m.id ≤ o.id) ∧
      sessionAfterAttempts.session.completed.map (·.kind) = ["name", "sign"] ∧
      sessionAfterAttempts.session.errors.map (·.message) = ["early", "again"] ∧
      s.cursor = 1 ∧ s.completed = [⟨0, 0, 1, "name", none⟩] ∧
      s.errors.map (·.message) = ["early"] ∧ s.depth = 1 := by
  intro m s
  have hheld : m ∈ sessionAfterAttempts.held := by decide
  have houter : ∀ o, .rollBack o ∈ nestedAttempts → m.id ≤ o.id := by
    intro o ho
    obtain rfl : o = ⟨3, 2, 2, 2, 1, none⟩ := by simpa [nestedAttempts] using ho
    decide
  have hrestored := rollBack_restores _ ⟨.retractErrors, 256⟩ false _ nestedAttempts 0 (some 0)
    hheld houter
  have hcompleted : s.completed = sessionWithElement.session.completed := hrestored.2.1
  have herrors : s.errors = sessionWithElement.session.errors := hrestored.2.2.1 rfl
  refine ⟨hheld, houter, by decide, by decide, hrestored.1, ?_, ?_, by decide⟩
  · rw [hcompleted]
    decide
  · rw [herrors]
    decide

end Lossless
