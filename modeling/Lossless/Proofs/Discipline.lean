import Lossless.Proofs.Actions
import Lossless.Proofs.Placement

/-!
# Markers closed in order

A grammar is well structured if it closes the marker that it opened last, and wraps only an
element completed since that does not begin in the middle of another.  Then its markers never
cross, although wrapping starts in the past and going back moves the cursor.

The invariant (`Live.Stacked`) ties every marker in hand to the cursor and to every completed
marker: markers in hand begin one behind the other, none of them begins in the middle of an
element, and an element completed since a marker was opened does not begin before it.  So
**the completed markers of a well structured run are nested or disjoint** and the builder has
a place for each of them, unless it doubles the range of another (`orderly_run_builds_clean`).
-/

namespace Lossless

variable {κ : Type}

/-! ## Markers that do not cross -/

/-- One of two markers lies within the other, or has ended when the other begins. -/
def Marker.Compatible (p m : Marker κ) : Prop :=
  p.stop ≤ m.start ∨ m.stop ≤ p.start ∨
    (p.start ≤ m.start ∧ m.stop ≤ p.stop) ∨ (m.start ≤ p.start ∧ p.stop ≤ m.stop)

instance : Std.Symm (@Marker.Compatible κ) where
  symm p m h := by
    unfold Marker.Compatible at h ⊢
    omega

theorem Marker.compatible_self (m : Marker κ) : m.Compatible m :=
  Or.inr (Or.inr (Or.inl ⟨Nat.le_refl _, Nat.le_refl _⟩))

theorem Marker.Compatible.not_crosses {p m : Marker κ} (h : p.Compatible m) :
    p.crosses m = false := by
  apply Bool.eq_false_iff.mpr
  intro hcrosses
  rw [crosses_iff] at hcrosses
  unfold Compatible at h
  omega

/-- Screening leaves no marker out if all of them fit and have numbers of their own. -/
theorem screen_clean {count : Nat} {markers : List (Marker κ)}
    (hfits : ∀ m ∈ markers, m.fits count = true) (hids : (markers.map (·.id)).Nodup) :
    (screen count markers).2 = [] := by
  obtain ⟨⟨dropped, hperm, hunfit⟩, _, _⟩ := screen_account count markers
  have hnodup := ((hperm.map (·.id)).nodup_iff).mpr hids
  rw [List.map_append] at hnodup
  generalize (screen count markers).2 = anomalies at hunfit ⊢
  cases hunfit with
  | nil => rfl
  | @cons a m anomalies dropped hm _ =>
      rcases hm with ⟨_, hunfit⟩ | ⟨_, htaken⟩
      · have hmem : m ∈ markers := hperm.subset (List.mem_append_right _ List.mem_cons_self)
        rw [hfits m hmem] at hunfit
        cases hunfit
      · exact absurd rfl ((List.nodup_append.mp hnodup).2.2 _ htaken _ (by simp))

/-- **Markers that fit, have numbers of their own and never cross are left out only if they
double the range of another.** -/
theorem plots_clean {count : Nat} {markers : List (Marker κ)}
    (hfits : ∀ m ∈ markers, m.fits count = true) (hids : (markers.map (·.id)).Nodup)
    (hclear : markers.Pairwise Marker.Compatible) :
    ∀ a ∈ (plots count markers).2, ∃ id kept start stop, a = .duplicateRange id kept start stop := by
  intro a ha
  have hmem : ∀ m ∈ arranged count markers, m ∈ markers := fun m hm =>
    (screen_account count markers).1.mem ((arrange_account _).mem hm)
  have hparts : (plots count markers).2 = (screen count markers).2 ++
      (arrange (screen count markers).1).2 ++ (Layout.ofArranged (arranged count markers)).anomalies :=
    rfl
  rw [hparts, screen_clean hfits hids, List.nil_append, List.mem_append] at ha
  rcases ha with ha | ha
  · obtain ⟨dropped, _, hdoubled⟩ := arrange_account (screen count markers).1
    obtain ⟨m, _, k, _, _, rfl⟩ := exists_mem_of_forall₂ hdoubled ha
    exact ⟨_, _, _, _, rfl⟩
  · have hlayout := (Layout.ofArranged_naive (fun m hm => arranged_fits hm)
      (arrange_ordered (screen count markers).1).1).2.2
    obtain ⟨dropped, hperm, hoverlaps⟩ := hlayout
    obtain ⟨m, hm, p, hp, hcrosses, _⟩ := exists_mem_of_forall₂ hoverlaps ha
    have hcompatible : p.Compatible m :=
      hclear.forall_of_forall (fun m _ => m.compatible_self)
        (hmem p (hperm.subset (List.mem_append_left _ hp)))
        (hmem m (hperm.subset (List.mem_append_right _ hm)))
    rw [hcompatible.not_crosses] at hcrosses
    cases hcrosses

/-! ## The discipline -/

/-- What a well structured grammar may do: close the marker that it opened last, and wrap a
completed element that was opened after all markers in hand and does not begin in the middle
of another element. -/
def Action.Orderly (l : Live κ) : Action κ → Prop
  | complete m _ => l.held.head? = some m
  | drop m => l.held.head? = some m
  | rollBack m => l.held.head? = some m
  | precede inner =>
      inner ∈ l.session.completed ∧ (∀ o ∈ l.held, o.id < inner.id) ∧
        ∀ d ∈ l.session.completed, ¬ (d.start < inner.start ∧ inner.start < d.stop)
  | _ => True

/-- Every action of a run is one that a well structured grammar may do. -/
def Live.OrderlyRun (l : Live κ) : List (Action κ) → Prop
  | [] => True
  | act :: acts => act.Orderly l ∧ (act.run l).OrderlyRun acts

instance Action.decidableOrderly [DecidableEq κ] (l : Live κ) :
    (act : Action κ) → Decidable (act.Orderly l)
  | complete m _ => inferInstanceAs (Decidable (l.held.head? = some m))
  | drop m => inferInstanceAs (Decidable (l.held.head? = some m))
  | rollBack m => inferInstanceAs (Decidable (l.held.head? = some m))
  | precede inner => inferInstanceAs (Decidable (inner ∈ l.session.completed ∧
      (∀ o ∈ l.held, o.id < inner.id) ∧
      ∀ d ∈ l.session.completed, ¬ (d.start < inner.start ∧ inner.start < d.stop)))
  | advance | skipTrivia | eat _ | expect _ | error _ | recoverToLineEnd _ | enterExpression
  | exitExpression | mark => isTrue trivial

instance Live.decidableOrderlyRun [DecidableEq κ] :
    (l : Live κ) → (acts : List (Action κ)) → Decidable (l.OrderlyRun acts)
  | _, [] => isTrue trivial
  | l, act :: acts =>
    have := decidableOrderlyRun (act.run l) acts
    inferInstanceAs (Decidable (act.Orderly l ∧ (act.run l).OrderlyRun acts))

/-! ## The invariant -/

/-- How a marker in hand stands to a session: it begins no later than where it was opened, the
elements completed before it end there, none has it begin in the middle, and those opened
since do not begin before it. -/
structure OpenMarker.Placed (o : OpenMarker) (s : Session κ) : Prop where
  start_le : o.start ≤ o.cursor
  cursor_le : o.cursor ≤ s.cursor
  completed_le : o.completed ≤ s.completed.length
  id_lt : o.id < s.opened
  earlier : ∀ d ∈ s.completed.take o.completed, d.stop ≤ o.cursor
  clear : ∀ d ∈ s.completed, ¬ (d.start < o.start ∧ o.start < d.stop)
  later : ∀ d ∈ s.completed, o.id < d.id → o.start ≤ d.start

/-- A marker opened later begins no earlier, and remembers no earlier state. -/
def OpenMarker.Behind (inner outer : OpenMarker) : Prop :=
  outer.start ≤ inner.start ∧ outer.cursor ≤ inner.cursor ∧ outer.completed ≤ inner.completed

/-- What holds along well structured runs. -/
structure Live.Stacked (l : Live κ) : Prop where
  cursor_lt : l.session.cursor < l.session.tokens.size
  ranges : ∀ d ∈ l.session.completed,
    d.start ≤ d.stop ∧ d.stop ≤ l.session.cursor ∧ d.id < l.session.opened
  compatible : l.session.completed.Pairwise Marker.Compatible
  ids : (l.held.map (·.id) ++ l.session.completed.map (·.id)).Nodup
  placed : ∀ o ∈ l.held, o.Placed l.session
  behind : l.held.Pairwise OpenMarker.Behind

theorem Session.length_ended_pos (tokens : List Token) : 0 < (ended tokens).length := by
  unfold ended
  split
  · exact Nat.zero_lt_one
  · rename_i t hlast
    have hne : tokens ≠ [] := by
      rintro rfl
      cases hlast
    split
    · exact List.length_pos_iff.mpr hne
    · simp

theorem Session.ready_start (tokens : List Token) (options : SessionOptions) (traced : Bool) :
    (start tokens options traced : Session κ).Ready :=
  ⟨by simpa [start] using length_ended_pos tokens, last_kind_ended tokens⟩

theorem Live.stacked_start (tokens : List Token) (options : SessionOptions) (traced : Bool) :
    (Live.start tokens options traced : Live κ).Stacked where
  cursor_lt := (Session.ready_start tokens options traced).cursor_lt
  ranges := by simp [Live.start, Session.start]
  compatible := List.Pairwise.nil
  ids := by simp [Live.start, Session.start]
  placed := by simp [Live.start]
  behind := List.Pairwise.nil

namespace Live.Stacked

variable {l : Live κ}

/-! ### Moving on, opening, closing -/

theorem moves (h : l.Stacked) {s : Session κ} (hmoves : l.session.Moves s) :
    Live.Stacked ⟨s, l.held⟩ := by
  obtain ⟨htokens, _, hopened, _, hcompleted, _, _, hforward, hlt⟩ := hmoves
  refine ⟨htokens ▸ hlt h.cursor_lt, ?_, hcompleted ▸ h.compatible, hcompleted ▸ h.ids, ?_, h.behind⟩
  · intro d hd
    obtain ⟨hrange, hstop, hid⟩ := h.ranges d (hcompleted ▸ hd)
    exact ⟨hrange, Nat.le_trans hstop hforward, hopened ▸ hid⟩
  · intro o ho
    obtain ⟨hstart, hcursor, hlength, hid, hearlier, hclear, hlater⟩ := h.placed o ho
    rw [← hcompleted] at hlength hearlier hclear hlater
    exact ⟨hstart, Nat.le_trans hcursor hforward, hlength, hopened ▸ hid, hearlier, hclear, hlater⟩

/-- A marker is opened where no element has its middle, behind all markers in hand. -/
theorem opens (h : l.Stacked) {start : Nat} (precedes : Option Nat) (hstart : start ≤ l.session.cursor)
    (hclear : ∀ d ∈ l.session.completed, ¬ (d.start < start ∧ start < d.stop))
    (hbehind : ∀ o ∈ l.held, o.start ≤ start) :
    (l.hold (l.session.openAt start precedes)).Stacked := by
  have hused : ∀ i ∈ l.held.map (·.id) ++ l.session.completed.map (·.id), i < l.session.opened := by
    intro i hi
    rcases List.mem_append.mp hi with hi | hi
    · obtain ⟨o, ho, rfl⟩ := List.mem_map.mp hi
      exact (h.placed o ho).id_lt
    · obtain ⟨d, hd, rfl⟩ := List.mem_map.mp hi
      exact (h.ranges d hd).2.2
  refine ⟨h.cursor_lt, ?_, h.compatible, ?_, ?_, ?_⟩
  · intro d hd
    obtain ⟨hrange, hstop, hid⟩ := h.ranges d hd
    exact ⟨hrange, hstop, Nat.lt_succ_of_lt hid⟩
  · exact List.nodup_cons.mpr ⟨fun hmem => absurd (hused _ hmem) (Nat.lt_irrefl _), h.ids⟩
  · intro o ho
    rcases List.mem_cons.mp ho with rfl | ho
    · refine ⟨hstart, Nat.le_refl _, Nat.le_refl _, Nat.lt_succ_self _, ?_, hclear, ?_⟩
      · intro d hd
        exact (h.ranges d (List.mem_of_mem_take hd)).2.1
      · intro d hd hlater
        exact absurd (h.ranges d hd).2.2 (Nat.lt_asymm hlater)
    · obtain ⟨hstart', hcursor, hlength, hid, hearlier, hclear', hlater⟩ := h.placed o ho
      exact ⟨hstart', hcursor, hlength, Nat.lt_succ_of_lt hid, hearlier, hclear', hlater⟩
  · refine List.pairwise_cons.mpr ⟨?_, h.behind⟩
    intro o ho
    obtain ⟨_, hcursor, hlength, _⟩ := h.placed o ho
    exact ⟨hbehind o ho, hcursor, hlength⟩

theorem marks (h : l.Stacked) : (l.hold l.session.mark).Stacked := by
  refine h.opens none (Nat.le_refl _) ?_ ?_
  · intro d hd hmiddle
    have hstop := (h.ranges d hd).2.1
    omega
  · intro o ho
    exact Nat.le_trans (h.placed o ho).start_le (h.placed o ho).cursor_le

theorem precedes (h : l.Stacked) {inner : Marker κ} (horderly : (Action.precede inner).Orderly l) :
    (l.hold (l.session.precede inner)).Stacked := by
  obtain ⟨hinner, hsince, hclear⟩ := horderly
  obtain ⟨hrange, hstop, _⟩ := h.ranges inner hinner
  exact h.opens (some inner.id) (Nat.le_trans hrange hstop) hclear
    (fun o ho => (h.placed o ho).later inner hinner (hsince o ho))

/-- The marker opened last is completed: the new element reaches up to the cursor, so it can
cross only an element in the middle of which it begins. -/
theorem completes {s : Session κ} {m : OpenMarker} {held : List OpenMarker}
    (h : Live.Stacked ⟨s, m :: held⟩) (kind : κ) :
    Live.Stacked ⟨(s.complete m kind).2, held⟩ := by
  obtain ⟨hbehind, hrest⟩ := List.pairwise_cons.mp h.behind
  have hm := h.placed m List.mem_cons_self
  have hstop : max s.cursor m.start = s.cursor := Nat.max_eq_left (Nat.le_trans hm.start_le hm.cursor_le)
  have hcompleted : (s.complete m kind).2.completed =
      s.completed ++ [⟨m.id, m.start, s.cursor, kind, m.precedes⟩] := by
    show s.completed ++ [⟨m.id, m.start, max s.cursor m.start, kind, m.precedes⟩] = _
    rw [hstop]
  refine ⟨h.cursor_lt, ?_, ?_, ?_, ?_, hrest⟩
  · intro d hd
    rw [hcompleted, List.mem_append, List.mem_singleton] at hd
    rcases hd with hd | rfl
    · exact h.ranges d hd
    · exact ⟨Nat.le_trans hm.start_le hm.cursor_le, Nat.le_refl _, hm.id_lt⟩
  · rw [hcompleted]
    refine List.pairwise_append.mpr ⟨h.compatible, List.pairwise_singleton _ _, ?_⟩
    intro d hd n hn
    obtain rfl := List.mem_singleton.mp hn
    have hclear := hm.clear d hd
    have hend : d.stop ≤ s.cursor := (h.ranges d hd).2.1
    show d.stop ≤ m.start ∨ s.cursor ≤ d.start ∨
      (d.start ≤ m.start ∧ s.cursor ≤ d.stop) ∨ (m.start ≤ d.start ∧ d.stop ≤ s.cursor)
    omega
  · rw [hcompleted, List.map_append, ← List.append_assoc]
    exact (List.perm_append_singleton _ _).nodup_iff.mpr h.ids
  · intro o ho
    obtain ⟨hstart, hcursor, hlength, hid, hearlier, hclear, hlater⟩ :=
      h.placed o (List.mem_cons_of_mem _ ho)
    have hfrom : o.start ≤ m.start := (hbehind o ho).1
    refine ⟨hstart, hcursor, ?_, hid, ?_, ?_, ?_⟩
    · rw [hcompleted, List.length_append]
      exact Nat.le_add_right_of_le hlength
    · rw [hcompleted, List.take_append_of_le_length hlength]
      exact hearlier
    · intro d hd
      rw [hcompleted, List.mem_append, List.mem_singleton] at hd
      rcases hd with hd | rfl
      · exact hclear d hd
      · exact fun hmiddle => absurd hfrom (Nat.not_le_of_lt hmiddle.1)
    · intro d hd hsince
      rw [hcompleted, List.mem_append, List.mem_singleton] at hd
      rcases hd with hd | rfl
      · exact hlater d hd hsince
      · exact hfrom

theorem drops {s : Session κ} {m : OpenMarker} {held : List OpenMarker}
    (h : Live.Stacked ⟨s, m :: held⟩) : Live.Stacked ⟨s.drop m, held⟩ where
  cursor_lt := h.cursor_lt
  ranges := h.ranges
  compatible := h.compatible
  ids := (List.nodup_cons.mp h.ids).2
  placed := fun o ho =>
    let ⟨hstart, hcursor, hlength, hid, hearlier, hclear, hlater⟩ :=
      h.placed o (List.mem_cons_of_mem _ ho)
    ⟨hstart, hcursor, hlength, hid, hearlier, hclear, hlater⟩
  behind := (List.pairwise_cons.mp h.behind).2

/-- The marker opened last is rolled back: what is left was completed before it, and ends
where the cursor goes back to. -/
theorem rollsBack {s : Session κ} {m : OpenMarker} {held : List OpenMarker}
    (h : Live.Stacked ⟨s, m :: held⟩) : Live.Stacked ⟨s.rollBack m, held⟩ := by
  obtain ⟨hbehind, hrest⟩ := List.pairwise_cons.mp h.behind
  have hm := h.placed m List.mem_cons_self
  have hcompleted : (s.rollBack m).completed = s.completed.take m.completed := by
    show s.completed.take (min m.completed s.completed.length) = _
    rw [Nat.min_eq_left hm.completed_le]
  have hsub : ((s.rollBack m).completed).Sublist s.completed := hcompleted ▸ List.take_sublist _ _
  refine ⟨Nat.lt_of_le_of_lt hm.cursor_le h.cursor_lt, ?_, h.compatible.sublist hsub, ?_, ?_, hrest⟩
  · intro d hd
    obtain ⟨hrange, _, hid⟩ := h.ranges d (hsub.subset hd)
    exact ⟨hrange, hm.earlier d (hcompleted ▸ hd), hid⟩
  · exact (List.nodup_cons.mp h.ids).2.sublist
      ((List.Sublist.refl _).append (hsub.map _))
  · intro o ho
    obtain ⟨hstart, _, _, hid, hearlier, hclear, hlater⟩ := h.placed o (List.mem_cons_of_mem _ ho)
    obtain ⟨_, hcursor, hlength⟩ := hbehind o ho
    refine ⟨hstart, hcursor, ?_, hid, ?_, fun d hd => hclear d (hsub.subset hd),
      fun d hd => hlater d (hsub.subset hd)⟩
    · rw [hcompleted, List.length_take]
      exact Nat.le_min.mpr ⟨hlength, Nat.le_trans hlength hm.completed_le⟩
    · rw [hcompleted, List.take_take, Nat.min_eq_left hlength]
      exact hearlier

/-! ### Steps and runs -/

theorem step {l₁ : Live κ} (h : l.Stacked) {act : Action κ} (heffect : Action.Effect l act l₁)
    (horderly : act.Orderly l) : l₁.Stacked := by
  obtain ⟨s, held⟩ := l
  cases heffect with
  | moves hmoves => exact h.moves hmoves
  | marks => exact h.marks
  | precedes inner => exact h.precedes horderly
  | completes kind _ =>
      obtain ⟨held, rfl⟩ := List.head?_eq_some_iff.mp horderly
      rw [List.erase_cons_head]
      exact h.completes kind
  | drops _ =>
      obtain ⟨held, rfl⟩ := List.head?_eq_some_iff.mp horderly
      rw [List.erase_cons_head]
      exact h.drops
  | rollsBack _ =>
      obtain ⟨held, rfl⟩ := List.head?_eq_some_iff.mp horderly
      rw [List.erase_cons_head]
      exact h.rollsBack
  | recovers kind hmoves => exact (h.marks.moves hmoves).completes kind

theorem run (h : l.Stacked) {acts : List (Action κ)} (horderly : l.OrderlyRun acts) :
    (l.run acts).Stacked := by
  induction acts generalizing l with
  | nil => exact h
  | cons act acts ih => exact ih (h.step (act.effect l) horderly.1) horderly.2

theorem fits (h : l.Stacked) {d : Marker κ} (hd : d ∈ l.session.completed) :
    d.fits l.session.tokens.size = true := by
  obtain ⟨hrange, hstop, _⟩ := h.ranges d hd
  have hlt := h.cursor_lt
  rw [Marker.fits_iff]
  omega

end Live.Stacked

/-- **A well structured grammar never confuses the builder.**  Markers are closed last opened
first, and only an element is wrapped that was opened after all markers in hand and does not
begin in the middle of another.  Then the completed markers are nested or disjoint, and the
only anomaly that building can report, whatever the constructors and options are, is that a
marker doubles the range of another. -/
theorem orderly_run_builds_clean [DecidableEq κ] [Named κ] (tokens : List Token)
    (options : SessionOptions) (traced : Bool) (acts : List (Action κ))
    (horderly : (Live.start tokens options traced : Live κ).OrderlyRun acts)
    (registry : Registry κ) (buildOptions : BuildOptions) :
    let s := ((Live.start tokens options traced : Live κ).run acts).session
    let anomalies := (build registry buildOptions s.tokens.toList s.completed s.errors).anomalies
    s.completed.Pairwise Marker.Compatible ∧
      (∀ id start stop, .invalidRange id start stop ∉ anomalies) ∧
      (∀ id, .duplicateId id ∉ anomalies) ∧ ∀ id outer, .overlapping id outer ∉ anomalies := by
  intro s anomalies
  have hstacked := (Live.stacked_start tokens options traced).run horderly
  have hclean : ∀ a ∈ anomalies, ∃ id kept start stop, a = .duplicateRange id kept start stop :=
    plots_clean (fun d hd => by simpa using hstacked.fits hd)
      (List.nodup_append.mp hstacked.ids).2.1 hstacked.compatible
  refine ⟨hstacked.compatible, ?_, ?_, ?_⟩
  · intro id start stop hmem
    obtain ⟨_, _, _, _, heq⟩ := hclean _ hmem
    cases heq
  · intro id hmem
    obtain ⟨_, _, _, _, heq⟩ := hclean _ hmem
    cases heq
  · intro id outer hmem
    obtain ⟨_, _, _, _, heq⟩ := hclean _ hmem
    cases heq

/-- The operand of a sum is marked twice and then wrapped, while a marker around all of it is
in hand; what follows the sign is tried once, given up, and recovered. -/
def wrappedOperand : List (Action String) :=
  [.mark, .mark, .mark, .advance, .complete ⟨2, 0, 0, 0, 0, none⟩ "name",
    .complete ⟨1, 0, 0, 0, 0, none⟩ "operand", .precede ⟨2, 0, 1, "name", none⟩, .advance,
    .mark, .advance, .error "late", .rollBack ⟨4, 2, 2, 2, 0, none⟩, .recoverToLineEnd "rest",
    .complete ⟨3, 0, 1, 2, 0, some 2⟩ "sum", .drop ⟨0, 0, 0, 0, 0, none⟩]

/-- The session that marks the operand, over the tokens of a sum. -/
def wrappedOperandSession : Session String :=
  ((Live.start (Token.lay [(.identifier, "a"), (.operator, "+"), (.identifier, "b")]) {}
    false).run wrappedOperand).session

/-- Of the operand's markers only the one that doubles a range has no place. -/
theorem orderly_run_builds_clean_wrapped_operand :
    let s := wrappedOperandSession
    let anomalies := (build {} {} s.tokens.toList s.completed s.errors).anomalies
    (Live.start (Token.lay [(.identifier, "a"), (.operator, "+"), (.identifier, "b")]) {}
      false).OrderlyRun wrappedOperand ∧
      s.completed.map (fun m => (m.id, m.start, m.stop)) =
        [(2, 0, 1), (1, 0, 1), (5, 2, 3), (3, 0, 3)] ∧
      s.completed.Pairwise Marker.Compatible ∧ anomalies = [.duplicateRange 2 1 0 1] ∧
      ∀ id outer, .overlapping id outer ∉ anomalies := by
  have horderly : (Live.start (Token.lay [(.identifier, "a"), (.operator, "+"),
      (.identifier, "b")]) {} false).OrderlyRun wrappedOperand := by decide
  have hclean := orderly_run_builds_clean _ {} false wrappedOperand horderly {} {}
  refine ⟨horderly, by decide, hclean.1, ?_, hclean.2.2.2⟩
  cbv

end Lossless
