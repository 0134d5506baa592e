import Lossless.Proofs.Discipline

/-!
# What every run keeps

A grammar need not be well structured.  It may close markers in any order, go back to an early
marker while later ones are still in hand, complete those afterwards although they begin behind
the cursor, and wrap an element that going back has discarded.

Even so **every marker stays among the tokens, and every number is given out once**
(`any_run_sound`).  What carries this is that an open marker is made of facts that going back
does not touch: it begins at a token, it remembers a cursor at a token, and it wraps, if
anything, a marker with a smaller number (`OpenMarker.Sound`).  Hence nothing that a session
hands to the builder is screened out.
-/

namespace Lossless

variable {κ : Type}

/-! ## Wrapping what was completed -/

/-- An action wraps nothing, or one of the given elements. -/
def Action.WrapsOneOf (known : List (Marker κ)) : Action κ → Prop
  | precede inner => inner ∈ known
  | _ => True

/-- A run wraps only elements that it has completed before, or that are in `past`.  Whether
they are still there does not matter. -/
def Live.WrapsCompleted (past : List (Marker κ)) (l : Live κ) : List (Action κ) → Prop
  | [] => True
  | act :: acts =>
    act.WrapsOneOf (past ++ l.session.completed) ∧
      (act.run l).WrapsCompleted (past ++ l.session.completed) acts

instance Action.decidableWrapsOneOf [DecidableEq κ] (known : List (Marker κ)) :
    (act : Action κ) → Decidable (act.WrapsOneOf known)
  | precede inner => inferInstanceAs (Decidable (inner ∈ known))
  | advance | skipTrivia | eat _ | expect _ | error _ | recoverToLineEnd _ | enterExpression
  | exitExpression | mark | complete _ _ | drop _ | rollBack _ => isTrue trivial

instance Live.decidableWrapsCompleted [DecidableEq κ] : (past : List (Marker κ)) → (l : Live κ) →
    (acts : List (Action κ)) → Decidable (l.WrapsCompleted past acts)
  | _, _, [] => isTrue trivial
  | past, l, act :: acts =>
    have := decidableWrapsCompleted (past ++ l.session.completed) (act.run l) acts
    inferInstanceAs (Decidable (act.WrapsOneOf (past ++ l.session.completed) ∧
      (act.run l).WrapsCompleted (past ++ l.session.completed) acts))

/-! ## The invariant -/

/-- A completed marker lies among the tokens of a session, has a number that is used up, and
wraps only a marker opened before it. -/
structure Marker.Sound (s : Session κ) (m : Marker κ) : Prop where
  start_le : m.start ≤ m.stop
  stop_lt : m.stop < s.tokens.size
  id_lt : m.id < s.opened
  precedes_lt : ∀ j, m.precedes = some j → j < m.id

/-- An open marker begins at a token of a session and was opened at one, has a number that is
used up, and wraps only a marker opened before it. -/
structure OpenMarker.Sound (s : Session κ) (o : OpenMarker) : Prop where
  start_lt : o.start < s.tokens.size
  cursor_lt : o.cursor < s.tokens.size
  id_lt : o.id < s.opened
  precedes_lt : ∀ j, o.precedes = some j → j < o.id

theorem Marker.Sound.mono {s s' : Session κ} {m : Marker κ} (h : m.Sound s)
    (htokens : s'.tokens = s.tokens) (hopened : s.opened ≤ s'.opened) : m.Sound s' :=
  ⟨h.start_le, htokens ▸ h.stop_lt, Nat.lt_of_lt_of_le h.id_lt hopened, h.precedes_lt⟩

theorem OpenMarker.Sound.mono {s s' : Session κ} {o : OpenMarker} (h : o.Sound s)
    (htokens : s'.tokens = s.tokens) (hopened : s.opened ≤ s'.opened) : o.Sound s' :=
  ⟨htokens ▸ h.start_lt, htokens ▸ h.cursor_lt, Nat.lt_of_lt_of_le h.id_lt hopened, h.precedes_lt⟩

/-- What holds along all runs; `past` are elements that were completed at some time. -/
structure Live.Consistent (past : List (Marker κ)) (l : Live κ) : Prop where
  ready : l.session.Ready
  /-- Exactly the markers in hand are open. -/
  openIds : l.session.openIds = l.held.map (·.id)
  ids : (l.held.map (·.id) ++ l.session.completed.map (·.id)).Nodup
  held : ∀ o ∈ l.held, o.Sound l.session
  markers : ∀ m ∈ past ++ l.session.completed, m.Sound l.session
  errors : ∀ e ∈ l.session.errors, l.session.Locates e

theorem Live.consistent_start (tokens : List Token) (options : SessionOptions) (traced : Bool) :
    (Live.start tokens options traced : Live κ).Consistent [] where
  ready := Session.ready_start tokens options traced
  openIds := rfl
  ids := by simp [Live.start, Session.start]
  held := by simp [Live.start]
  markers := by simp [Live.start, Session.start]
  errors := by simp [Live.start, Session.start]

/-- Markers with numbers of their own can be told apart by their numbers. -/
theorem map_id_erase {held : List OpenMarker} (hids : (held.map (·.id)).Nodup) {m : OpenMarker}
    (hm : m ∈ held) : (held.erase m).map (·.id) = (held.map (·.id)).erase m.id := by
  induction held with
  | nil => cases hm
  | cons o held ih =>
      by_cases heq : o = m
      · subst heq
        rw [List.erase_cons_head, List.map_cons, List.erase_cons_head]
      · obtain ⟨hfresh, hrest⟩ := List.nodup_cons.mp hids
        have hmem : m ∈ held := by
          rcases List.mem_cons.mp hm with rfl | hm
          · exact absurd rfl heq
          · exact hm
        have hid : o.id ≠ m.id := by
          intro heq
          exact hfresh (List.mem_map.mpr ⟨m, hmem, heq.symm⟩)
        rw [List.erase_cons_tail (by simpa using heq), List.map_cons, List.map_cons,
          List.erase_cons_tail (by simpa using hid), ih hrest hmem]

namespace Live.Consistent

variable {past : List (Marker κ)} {l : Live κ}

/-- What is there now will have been there. -/
theorem remember (h : l.Consistent past) : l.Consistent (past ++ l.session.completed) := by
  refine ⟨h.ready, h.openIds, h.ids, h.held, ?_, h.errors⟩
  intro m hm
  apply h.markers
  rcases List.mem_append.mp hm with hm | hm
  · exact hm
  · exact List.mem_append_right _ hm

/-! ### Moving on, opening, closing -/

theorem moves (h : l.Consistent past) {s : Session κ} (hmoves : l.session.Moves s) :
    Live.Consistent past ⟨s, l.held⟩ := by
  have hopened : l.session.opened ≤ s.opened := Nat.le_of_eq hmoves.opened.symm
  refine ⟨hmoves.ready h.ready, hmoves.openIds.trans h.openIds, ?_, ?_, ?_, ?_⟩
  · rw [hmoves.completed]
    exact h.ids
  · intro o ho
    exact (h.held o ho).mono hmoves.tokens hopened
  · rw [hmoves.completed]
    intro m hm
    exact (h.markers m hm).mono hmoves.tokens hopened
  · intro e he
    have hlocates : l.session.Locates e := by
      rcases hmoves.located h.ready.cursor_lt e he with he | he
      · exact h.errors e he
      · exact he
    unfold Session.Locates at hlocates ⊢
    rwa [hmoves.tokens]

/-- A marker is opened at a token, to wrap nothing or a marker opened before. -/
theorem opens (h : l.Consistent past) {start : Nat} {precedes : Option Nat}
    (hstart : start < l.session.tokens.size)
    (hprecedes : ∀ j, precedes = some j → j < l.session.opened) :
    (l.hold (l.session.openAt start precedes)).Consistent past := by
  refine ⟨⟨h.ready.cursor_lt, h.ready.last_kind⟩, ?_, ?_, ?_, ?_, h.errors⟩
  · exact congrArg (l.session.opened :: ·) h.openIds
  · refine List.nodup_cons.mpr ⟨?_, h.ids⟩
    intro hmem
    -- Every number in use is below the one given out.
    rcases List.mem_append.mp hmem with hmem | hmem
    · obtain ⟨o, ho, hid⟩ := List.mem_map.mp hmem
      exact absurd hid (Nat.ne_of_lt (h.held o ho).id_lt)
    · obtain ⟨m, hm, hid⟩ := List.mem_map.mp hmem
      exact absurd hid (Nat.ne_of_lt (h.markers m (List.mem_append_right _ hm)).id_lt)
  · intro o ho
    rcases List.mem_cons.mp ho with rfl | ho
    · exact ⟨hstart, h.ready.cursor_lt, Nat.lt_succ_self _, hprecedes⟩
    · exact (h.held o ho).mono rfl (Nat.le_succ _)
  · intro m hm
    exact (h.markers m hm).mono rfl (Nat.le_succ _)

theorem marks (h : l.Consistent past) : (l.hold l.session.mark).Consistent past := by
  apply h.opens h.ready.cursor_lt
  intro j hj
  cases hj

/-- The element wrapped may be one that was discarded. -/
theorem precedes (h : l.Consistent past) {inner : Marker κ}
    (hinner : inner ∈ past ++ l.session.completed) :
    (l.hold (l.session.precede inner)).Consistent past := by
  have hsound := h.markers inner hinner
  apply h.opens (Nat.lt_of_le_of_lt hsound.start_le hsound.stop_lt)
  rintro j ⟨⟩
  exact hsound.id_lt

variable {m : OpenMarker}

theorem openIds_close (h : l.Consistent past) (hm : m ∈ l.held) :
    (l.session.close m.id).openIds = (l.held.erase m).map (·.id) := by
  rw [map_id_erase (List.nodup_append.mp h.ids).1 hm, ← h.openIds]
  rfl

/-- A marker is completed wherever the cursor is; if the cursor is before it, it is empty. -/
theorem completes (h : l.Consistent past) (kind : κ) (hm : m ∈ l.held) :
    Live.Consistent past ⟨(l.session.complete m kind).2, l.held.erase m⟩ := by
  have hsound := h.held m hm
  refine ⟨⟨h.ready.cursor_lt, h.ready.last_kind⟩, h.openIds_close hm, ?_, ?_, ?_, h.errors⟩
  · have hperm : (l.held.map (·.id) ++ l.session.completed.map (·.id)).Perm
        ((l.held.erase m).map (·.id) ++ (l.session.complete m kind).2.completed.map (·.id)) := by
      have hheld := (List.perm_cons_erase hm).map (·.id)
      refine (hheld.append_right _).trans ?_
      rw [show (l.session.complete m kind).2.completed = l.session.completed ++ [_] from rfl,
        List.map_append, ← List.append_assoc]
      exact (List.perm_append_singleton _ _).symm
    exact hperm.nodup_iff.mp h.ids
  · intro o ho
    exact (h.held o (List.mem_of_mem_erase ho)).mono rfl (Nat.le_refl _)
  · intro d hd
    rw [show (l.session.complete m kind).2.completed = l.session.completed ++ [_] from rfl,
      ← List.append_assoc] at hd
    rcases List.mem_append.mp hd with hd | hd
    · exact (h.markers d hd).mono rfl (Nat.le_refl _)
    · obtain rfl := List.mem_singleton.mp hd
      exact ⟨Nat.le_max_right _ _, Nat.max_lt.mpr ⟨h.ready.cursor_lt, hsound.start_lt⟩,
        hsound.id_lt, hsound.precedes_lt⟩

theorem drops (h : l.Consistent past) (hm : m ∈ l.held) :
    Live.Consistent past ⟨l.session.drop m, l.held.erase m⟩ := by
  refine ⟨⟨h.ready.cursor_lt, h.ready.last_kind⟩, h.openIds_close hm, ?_, ?_, ?_, h.errors⟩
  · exact h.ids.sublist ((List.erase_sublist.map _).append (List.Sublist.refl _))
  · intro o ho
    exact (h.held o (List.mem_of_mem_erase ho)).mono rfl (Nat.le_refl _)
  · intro d hd
    exact (h.markers d hd).mono rfl (Nat.le_refl _)

/-- Going back leaves fewer elements and errors, and a cursor that was there before. -/
theorem rollsBack (h : l.Consistent past) (hm : m ∈ l.held) :
    Live.Consistent past ⟨l.session.rollBack m, l.held.erase m⟩ := by
  have hsub : (l.session.rollBack m).completed.Sublist l.session.completed := List.take_sublist _ _
  refine ⟨⟨(h.held m hm).cursor_lt, h.ready.last_kind⟩, h.openIds_close hm, ?_, ?_, ?_, ?_⟩
  · exact h.ids.sublist ((List.erase_sublist.map _).append (hsub.map _))
  · intro o ho
    exact (h.held o (List.mem_of_mem_erase ho)).mono rfl (Nat.le_refl _)
  · intro d hd
    have hmem : d ∈ past ++ l.session.completed := by
      rcases List.mem_append.mp hd with hd | hd
      · exact List.mem_append_left _ hd
      · exact List.mem_append_right _ (hsub.subset hd)
    exact (h.markers d hmem).mono rfl (Nat.le_refl _)
  · intro e he
    exact h.errors e (List.mem_of_mem_take he)

/-! ### Steps and runs -/

theorem step (h : l.Consistent past) {l₁ : Live κ} {act : Action κ}
    (heffect : Action.Effect l act l₁) (hwraps : act.WrapsOneOf (past ++ l.session.completed)) :
    l₁.Consistent (past ++ l.session.completed) := by
  cases heffect with
  | moves hmoves => exact h.remember.moves hmoves
  | marks => exact h.remember.marks
  | precedes inner => exact h.remember.precedes (List.mem_append_left _ hwraps)
  | completes kind hm => exact h.remember.completes kind hm
  | drops hm => exact h.remember.drops hm
  | rollsBack hm => exact h.remember.rollsBack hm
  | recovers kind hmoves =>
      have hdone := (h.remember.marks.moves hmoves).completes kind List.mem_cons_self
      rwa [show (l.hold l.session.mark).held.erase l.session.mark.1 = l.held from
        List.erase_cons_head _ _] at hdone

theorem run (h : l.Consistent past) {acts : List (Action κ)} (hwraps : l.WrapsCompleted past acts) :
    ∃ past', (l.run acts).Consistent past' := by
  induction acts generalizing past l with
  | nil => exact ⟨past, h⟩
  | cons act acts ih => exact ih (h.step (act.effect l) hwraps.1) hwraps.2

end Live.Consistent

/-! ## Building -/

/-- A session that can go on has an end of input as its last token. -/
theorem Session.Ready.ends {s : Session κ} (h : s.Ready) :
    ∃ before last, s.tokens.toList = before ++ [last] ∧ last.kind = .eof := by
  have hne : s.tokens.toList ≠ [] := by
    have hlt := h.cursor_lt
    rw [← Array.length_toList] at hlt
    exact List.ne_nil_of_length_pos (Nat.lt_of_le_of_lt (Nat.zero_le _) hlt)
  refine ⟨s.tokens.toList.dropLast, s.tokens.toList.getLast hne, ?_, ?_⟩
  · exact (List.dropLast_append_getLast hne).symm
  · have hkind := h.last_kind
    rw [tokenIn, Array.getD_eq_getD_getElem?, ← Array.getElem?_toList, ← Array.length_toList,
      ← List.getLast?_eq_getElem?, List.getLast?_eq_some_getLast hne] at hkind
    exact hkind

/-- Markers that fit and have numbers of their own are left out only if they double the range
of another or cross it. -/
theorem plots_anomalies {count : Nat} {markers : List (Marker κ)}
    (hfits : ∀ m ∈ markers, m.fits count = true) (hids : (markers.map (·.id)).Nodup) :
    ∀ a ∈ (plots count markers).2,
      (∃ id kept start stop, a = .duplicateRange id kept start stop) ∨
        ∃ id outer, a = .overlapping id outer := by
  intro a ha
  have hparts : (plots count markers).2 = (screen count markers).2 ++
      (arrange (screen count markers).1).2 ++
        (Layout.ofArranged (arranged count markers)).anomalies := rfl
  rw [hparts, screen_clean hfits hids, List.nil_append, List.mem_append] at ha
  rcases ha with ha | ha
  · obtain ⟨dropped, _, hdoubled⟩ := arrange_account (screen count markers).1
    obtain ⟨m, _, k, _, _, rfl⟩ := exists_mem_of_forall₂ hdoubled ha
    exact Or.inl ⟨_, _, _, _, rfl⟩
  · obtain ⟨dropped, _, hoverlaps⟩ := (Layout.ofArranged_naive (fun m hm => arranged_fits hm)
      (arrange_ordered (screen count markers).1).1).2.2
    obtain ⟨m, _, p, _, _, rfl⟩ := exists_mem_of_forall₂ hoverlaps ha
    exact Or.inr ⟨_, _, rfl⟩

theorem Marker.Sound.fits {s : Session κ} {m : Marker κ} (h : m.Sound s) :
    m.fits s.tokens.size = true := by
  obtain ⟨hrange, hstop, _, _⟩ := h
  rw [Marker.fits_iff]
  omega

/-- Going back to the first marker discards an element and leaves a marker in hand that begins
behind the cursor.  That marker is completed, the discarded element is wrapped, and the line is
recovered. -/
def staleMarkers : List (Action String) :=
  [.mark, .advance, .advance, .mark, .mark, .advance, .complete ⟨2, 2, 2, 0, 0, none⟩ "name",
    .error "late", .rollBack ⟨0, 0, 0, 0, 0, none⟩, .complete ⟨1, 2, 2, 0, 0, none⟩ "stale",
    .precede ⟨2, 2, 3, "name", none⟩, .recoverToLineEnd "line",
    .complete ⟨3, 2, 0, 1, 1, some 2⟩ "wrapper", .mark]

/-- The session with the stale markers, over the tokens of a sum. -/
def staleSession : Live String :=
  (Live.start (Token.lay [(.identifier, "a"), (.operator, "+"), (.identifier, "b")]) {}
    false).run staleMarkers

end Lossless
