import Lossless.Build.Layout
import Mathlib.Data.List.Forall2

/-!
# Nesting of markers, the naive way

The layout of markers is found in one pass that looks at the innermost open marker only.
This file says what it has to find, by comparing all markers with one another: a marker is
kept if no marker kept before **crosses** it, that is, if none has it begin inside and end
outside; and it belongs into the last marker kept before that contains it
(`naiveLayout`).

Markers come in an order in which each *leads* the next: it starts earlier, or at the same
token and reaches at least as far.  For markers in this order, containment, crossing and
coming to an end are the only ways in which two of them can stand to each other.
-/

namespace Lossless

variable {κ : Type}

namespace Marker

/-- Whether a marker begins inside of another and ends outside of it. -/
def crosses (outer m : Marker κ) : Bool :=
  outer.start < m.start && m.start < outer.stop && outer.stop < m.stop

/-- A marker may stand in front of another in a layout: it starts earlier, or at the same
token and reaches at least as far. -/
def Leads (p m : Marker κ) : Prop :=
  p.start < m.start ∨ p.start = m.start ∧ m.stop ≤ p.stop

/-- A marker is over when the markers from a token on are placed.  An empty one is over
only behind its token, since another empty one there would lie inside of it. -/
def Past (p : Marker κ) (position : Nat) : Prop :=
  p.stop ≤ position ∧ (p.start = p.stop → p.stop < position)

/-- What containment says about the four ends. -/
theorem contains_iff (p m : Marker κ) :
    p.contains m = true ↔
      p.start ≤ m.start ∧ m.stop ≤ p.stop ∧ (m.start < p.stop ∨ p.start = p.stop) := by
  simp [contains, and_assoc]

/-- What crossing says about the four ends. -/
theorem crosses_iff (p m : Marker κ) :
    p.crosses m = true ↔ p.start < m.start ∧ m.start < p.stop ∧ p.stop < m.stop := by
  simp [crosses, and_assoc]

/-- Containment is transitive. -/
theorem contains_trans {p q m : Marker κ} (hpq : p.contains q = true) (hqm : q.contains m = true)
    (hm : m.start ≤ m.stop) : p.contains m = true := by
  rw [contains_iff] at hpq hqm ⊢
  omega

/-- A marker does not cross what it contains. -/
theorem not_crosses_of_contains {p m : Marker κ} (h : p.contains m = true) :
    p.crosses m = false := by
  rw [contains_iff] at h
  simp [crosses]
  omega

/-- A marker that is over stays over. -/
theorem Past.mono {p : Marker κ} {i j : Nat} (h : p.Past i) (hij : i ≤ j) : p.Past j :=
  ⟨Nat.le_trans h.1 hij, fun heq => Nat.lt_of_lt_of_le (h.2 heq) hij⟩

/-- A marker that is over contains no later one. -/
theorem Past.not_contains {p m : Marker κ} (h : p.Past m.start) (hm : m.start ≤ m.stop) :
    p.contains m = false := by
  obtain ⟨hstop, hempty⟩ := h
  apply Bool.eq_false_iff.mpr
  intro hcontains
  rw [contains_iff] at hcontains
  omega

/-- A marker that is over crosses no later one. -/
theorem Past.not_crosses {p m : Marker κ} (h : p.Past m.start) : p.crosses m = false := by
  have hstop := h.1
  simp [crosses]
  omega

/-- An open marker that ends before the next one is over. -/
theorem Leads.past_of_endsBefore {p m : Marker κ} (hleads : p.Leads m) (hm : m.start ≤ m.stop)
    (hends : Layout.endsBefore p m = true) : p.Past m.start := by
  simp only [Layout.endsBefore, Bool.and_eq_true, Bool.not_eq_true', decide_eq_true_eq] at hends
  obtain ⟨hcontains, hstop⟩ := hends
  refine ⟨hstop, ?_⟩
  intro hempty
  -- An empty marker that leads another at its own token has the same range, and contains it.
  rcases Nat.lt_or_ge p.stop m.start with hlt | hge
  · exact hlt
  · have hinside : p.contains m = true := by
      rw [contains_iff]
      rcases hleads with hlt | ⟨heq, hle⟩ <;> omega
    rw [hinside] at hcontains
    cases hcontains

/-- An open marker that neither contains the next one nor ends before it crosses it. -/
theorem Leads.crosses_of_open {p m : Marker κ} (hleads : p.Leads m)
    (hcontains : p.contains m = false) (hends : Layout.endsBefore p m = false) :
    p.crosses m = true := by
  have hopen : m.start < p.stop := by
    simpa [Layout.endsBefore, hcontains] using hends
  have hout : ¬ (p.start ≤ m.start ∧ m.stop ≤ p.stop ∧ (m.start < p.stop ∨ p.start = p.stop)) := by
    rw [← contains_iff, hcontains]
    simp
  rw [crosses_iff]
  rcases hleads with hlt | ⟨heq, hle⟩ <;> omega

/-- A marker that leads another and does not cross it has stopped before, or contains it. -/
theorem Leads.stop_le_or_contains {p m : Marker κ} (hleads : p.Leads m)
    (hcrosses : p.crosses m = false) : p.stop ≤ m.start ∨ p.contains m = true := by
  have hnot : ¬ (p.start < m.start ∧ m.start < p.stop ∧ p.stop < m.stop) := by
    rw [← crosses_iff, hcrosses]
    simp
  rw [contains_iff]
  rcases hleads with hlt | ⟨heq, hle⟩ <;> omega

/-- Of two markers that contain a third, the one that leads contains the other, unless it
crosses it. -/
theorem Leads.contains_of_contains {p q m : Marker κ} (hleads : p.Leads q)
    (hcrosses : p.crosses q = false) (hp : p.contains m = true) (hq : q.contains m = true)
    (hm : m.start ≤ m.stop) : p.contains q = true := by
  have hnot : ¬ (p.start < q.start ∧ q.start < p.stop ∧ p.stop < q.stop) := by
    rw [← crosses_iff, hcrosses]
    simp
  rw [contains_iff] at hp hq ⊢
  rcases hleads with hlt | ⟨heq, hle⟩ <;> omega

end Marker

/-! ## The reference -/

/-- The innermost of some markers in order that contains another: the last one. -/
def innermost? (kept : List (Marker κ)) (m : Marker κ) : Option (Marker κ) :=
  (kept.filter (·.contains m)).getLast?

/-- The naive layout of markers in order, behind those already kept: each marker that no
kept one crosses, with the innermost kept one that contains it. -/
def naiveLayout (kept : List (Marker κ × Option (Marker κ))) :
    List (Marker κ) → List (Marker κ × Option (Marker κ))
  | [] => kept
  | m :: ms =>
    if kept.any (·.1.crosses m) then
      naiveLayout kept ms
    else
      naiveLayout (kept ++ [(m, innermost? (kept.map Prod.fst) m)]) ms

/-- What it means that a marker is right inside of another one, or of none, when some are
kept before it: that one contains it and lies inside of all others that do. -/
def Innermost (before : List (Marker κ)) (m : Marker κ) : Option (Marker κ) → Prop
  | none => ∀ q ∈ before, q.contains m = false
  | some p => p ∈ before ∧ p.contains m = true ∧
      ∀ q ∈ before, q.contains m = true → q = p ∨ q.contains p = true

/-- A layout in order, in which no marker crosses a later one and each is right inside of
the innermost one before that contains it. -/
structure Laminar (kept : List (Marker κ × Option (Marker κ))) : Prop where
  clear : (kept.map Prod.fst).Pairwise (fun p m => p.Leads m ∧ p.crosses m = false)
  parents : ∀ before m parent after, kept = before ++ (m, parent) :: after →
    Innermost (before.map Prod.fst) m parent

/-- Where no marker crosses a later one, the last that contains a marker is the innermost. -/
theorem innermost_innermost? {before : List (Marker κ)} {m : Marker κ} (hm : m.start ≤ m.stop)
    (hclear : before.Pairwise (fun p m => p.Leads m ∧ p.crosses m = false)) :
    Innermost before m (innermost? before m) := by
  cases hlast : innermost? before m with
  | none =>
      intro q hq
      rw [innermost?, List.getLast?_eq_none_iff, List.filter_eq_nil_iff] at hlast
      simpa using hlast q hq
  | some p =>
      obtain ⟨outer, houter⟩ := List.getLast?_eq_some_iff.mp hlast
      have hsub : (outer ++ [p]).Sublist before := houter ▸ List.filter_sublist
      have hmem : ∀ q, q ∈ before → q.contains m = true → q ∈ outer ++ [p] := by
        intro q hq hcontains
        rw [← houter]
        exact List.mem_filter.mpr ⟨hq, hcontains⟩
      have hcontains : ∀ q ∈ outer ++ [p], q.contains m = true := by
        intro q hq
        rw [← houter] at hq
        exact (List.mem_filter.mp hq).2
      have hp : p ∈ outer ++ [p] := by simp
      refine ⟨hsub.subset hp, hcontains p hp, ?_⟩
      intro q hq hqm
      rcases List.mem_append.mp (hmem q hq hqm) with hq' | hq'
      · obtain ⟨hleads, hcrosses⟩ := (List.pairwise_append.mp (hclear.sublist hsub)).2.2 q hq' p
          List.mem_cons_self
        exact Or.inr (hleads.contains_of_contains hcrosses hqm (hcontains p hp) hm)
      · exact Or.inl (List.mem_singleton.mp hq')

/-- One more marker that none of those kept crosses. -/
theorem Laminar.concat {kept : List (Marker κ × Option (Marker κ))} {m : Marker κ}
    (h : Laminar kept) (hm : m.start ≤ m.stop)
    (hlast : ∀ q ∈ kept.map Prod.fst, q.Leads m ∧ q.crosses m = false) :
    Laminar (kept ++ [(m, innermost? (kept.map Prod.fst) m)]) := by
  constructor
  · rw [List.map_append]
    refine List.pairwise_append.mpr ⟨h.clear, List.pairwise_singleton _ _, ?_⟩
    intro q hq n hn
    obtain rfl := List.mem_singleton.mp hn
    exact hlast q hq
  · intro before n parent after heq
    rcases List.eq_nil_or_concat after with rfl | ⟨after, x, rfl⟩
    · have hbefore := List.append_inj_left' heq rfl
      have hpair := List.append_inj_right' heq rfl
      subst hbefore
      cases hpair
      exact innermost_innermost? hm h.clear
    · rw [List.concat_eq_append, ← List.cons_append, ← List.append_assoc] at heq
      exact h.parents before n parent after (List.append_inj_left' heq rfl)

/-- **In a naive layout any two markers are disjoint or nested, and each is right inside of
the innermost one before that contains it.** -/
theorem Laminar.naiveLayout {kept : List (Marker κ × Option (Marker κ))} {ms : List (Marker κ)}
    (h : Laminar kept) (hms : ∀ m ∈ ms, m.start ≤ m.stop) (hordered : ms.Pairwise Marker.Leads)
    (hleads : ∀ q ∈ kept.map Prod.fst, ∀ m ∈ ms, q.Leads m) :
    Laminar (naiveLayout kept ms) := by
  induction ms generalizing kept with
  | nil => exact h
  | cons m ms ih =>
      have hm := hms m List.mem_cons_self
      obtain ⟨hfirst, hordered⟩ := List.pairwise_cons.mp hordered
      have hms' : ∀ n ∈ ms, n.start ≤ n.stop := fun n hn => hms n (List.mem_cons_of_mem _ hn)
      have hold : ∀ q ∈ kept.map Prod.fst, ∀ n ∈ ms, q.Leads n :=
        fun q hq n hn => hleads q hq n (List.mem_cons_of_mem _ hn)
      rw [Lossless.naiveLayout]
      split
      · exact ih h hms' hordered hold
      · rename_i hany
        have hlast : ∀ q ∈ kept.map Prod.fst, q.Leads m ∧ q.crosses m = false := by
          intro q hq
          refine ⟨hleads q hq m List.mem_cons_self, ?_⟩
          obtain ⟨k, hk, rfl⟩ := List.mem_map.mp hq
          apply Bool.eq_false_iff.mpr
          intro hcrosses
          exact hany (List.any_eq_true.mpr ⟨k, hk, hcrosses⟩)
        refine ih (h.concat hm hlast) hms' hordered ?_
        intro q hq n hn
        rw [List.map_append, List.mem_append] at hq
        rcases hq with hq | hq
        · exact hold q hq n hn
        · obtain rfl := List.mem_singleton.mp hq
          exact hfirst n hn

mutual

/-- The marker of a plot and those inside of it, in order, each with the marker that it is
right inside of. -/
def Plot.family (parent : Option (Marker κ)) : Plot κ → List (Marker κ × Option (Marker κ))
  | .mk m inner => (m, parent) :: Plot.families (some m) inner

/-- The markers of plots right inside of `parent`. -/
def Plot.families (parent : Option (Marker κ)) :
    List (Plot κ) → List (Marker κ × Option (Marker κ))
  | [] => []
  | p :: ps => p.family parent ++ Plot.families parent ps

end

mutual

/-- A plot whose marker is not inverted, with a row of plots inside of it. -/
def Plot.Tidy : Plot κ → Prop
  | .mk m inner => m.start ≤ m.stop ∧ Plot.Row m.start m.stop inner

/-- Tidy plots between two tokens, in order and disjoint: none begins before the one in
front of it stops. -/
def Plot.Row (start stop : Nat) : List (Plot κ) → Prop
  | [] => start ≤ stop
  | p :: ps => start ≤ p.marker.start ∧ p.Tidy ∧ Plot.Row p.marker.stop stop ps

end

namespace Plot

/-- Families of plots in a row. -/
theorem families_append (parent : Option (Marker κ)) (ps qs : List (Plot κ)) :
    families parent (ps ++ qs) = families parent ps ++ families parent qs := by
  induction ps with
  | nil => rfl
  | cons p ps ih => simp [families, ih]

/-- The family of one plot. -/
@[simp] theorem families_singleton (parent : Option (Marker κ)) (m : Marker κ)
    (inner : List (Plot κ)) :
    families parent [mk m inner] = (m, parent) :: families (some m) inner := by
  simp [families, family]

/-- The markers of plots, in order. -/
def markers (ps : List (Plot κ)) : List (Marker κ) :=
  (families none ps).map Prod.fst

/-- Whatever plots are inside of, their markers are the same. -/
theorem map_fst_families (parent : Option (Marker κ)) (ps : List (Plot κ)) :
    (families parent ps).map Prod.fst = markers ps := by
  unfold markers
  induction ps with
  | nil => rfl
  | cons p ps ih =>
      obtain ⟨m, inner⟩ := p
      simp [families, family, ih]

/-- The markers of plots in a row. -/
@[simp] theorem markers_append (ps qs : List (Plot κ)) :
    markers (ps ++ qs) = markers ps ++ markers qs := by
  simp [markers, families_append]

/-- The markers of one plot in front of others. -/
@[simp] theorem markers_cons (m : Marker κ) (inner ps : List (Plot κ)) :
    markers (mk m inner :: ps) = m :: (markers inner ++ markers ps) := by
  rw [← map_fst_families none (mk m inner :: ps), families, family, List.map_append, List.map_cons,
    map_fst_families, map_fst_families]
  rfl

/-- No plots have no markers. -/
@[simp] theorem markers_nil : markers ([] : List (Plot κ)) = [] := rfl

theorem marker_mem_markers {p : Plot κ} {ps : List (Plot κ)} (hp : p ∈ ps) :
    p.marker ∈ markers ps := by
  induction ps with
  | nil => cases hp
  | cons q ps ih =>
      obtain ⟨m, inner⟩ := q
      rw [markers_cons]
      rcases List.mem_cons.mp hp with rfl | hp
      · exact List.mem_cons_self
      · exact List.mem_cons_of_mem _ (List.mem_append_right _ (ih hp))

/-- The marker of a tidy plot is not inverted. -/
theorem Tidy.le {p : Plot κ} (h : p.Tidy) : p.marker.start ≤ p.marker.stop := by
  cases p
  exact h.1

/-- A row reaches from its start to its stop. -/
theorem Row.le {start stop : Nat} {ps : List (Plot κ)} (h : Row start stop ps) : start ≤ stop := by
  induction ps generalizing start with
  | nil => exact h
  | cons p ps ih =>
      obtain ⟨hstart, htidy, hrow⟩ := h
      have hstop := ih hrow
      have hp := htidy.le
      omega

/-- A row may be given more room behind it. -/
theorem Row.mono {start stop stop' : Nat} {ps : List (Plot κ)} (h : Row start stop ps)
    (hle : stop ≤ stop') : Row start stop' ps := by
  induction ps generalizing start with
  | nil => exact Nat.le_trans h hle
  | cons p ps ih => exact ⟨h.1, h.2.1, ih h.2.2⟩

/-- The plots of a row stand between its start and its stop. -/
theorem Row.mem {start stop : Nat} {ps : List (Plot κ)} (h : Row start stop ps) {p : Plot κ}
    (hp : p ∈ ps) : start ≤ p.marker.start ∧ p.marker.stop ≤ stop := by
  induction ps generalizing start with
  | nil => cases hp
  | cons q ps ih =>
      obtain ⟨hstart, htidy, hrow⟩ := h
      have hq := htidy.le
      rcases List.mem_cons.mp hp with rfl | hp
      · exact ⟨hstart, hrow.le⟩
      · obtain ⟨hfrom, hto⟩ := ih hrow hp
        exact ⟨by omega, hto⟩

/-- A tidy plot behind a row makes a longer row. -/
theorem Row.concat {start stop : Nat} {ps : List (Plot κ)} {p : Plot κ} (h : Row start stop ps)
    (hstart : stop ≤ p.marker.start) (hp : p.Tidy) : Row start p.marker.stop (ps ++ [p]) := by
  induction ps generalizing start with
  | nil => exact ⟨Nat.le_trans h hstart, hp, Nat.le_refl _⟩
  | cons q ps ih => exact ⟨h.1, h.2.1, ih h.2.2⟩

end Plot

/-! ## Accounts -/

/-- A pass accounts for its markers: those that it keeps and those that it leaves out are
together the markers given to it, each as often as it was given, and for each one left out
there is an anomaly that explains it. -/
def Accounted (explains : Anomaly → Marker κ → Prop) (ms kept : List (Marker κ))
    (anomalies : List Anomaly) : Prop :=
  ∃ dropped, (kept ++ dropped).Perm ms ∧ List.Forall₂ explains anomalies dropped

namespace Accounted

variable {explains : Anomaly → Marker κ → Prop} {ms kept : List (Marker κ)}
  {anomalies : List Anomaly}

/-- No markers are accounted for by doing nothing. -/
theorem nil : Accounted explains [] [] [] :=
  ⟨[], .refl _, .nil⟩

/-- One more marker that is kept. -/
theorem keep (h : Accounted explains ms kept anomalies) (m : Marker κ) :
    Accounted explains (m :: ms) (m :: kept) anomalies := by
  obtain ⟨dropped, hperm, hall⟩ := h
  exact ⟨dropped, hperm.cons m, hall⟩

/-- One more marker that is left out, with the anomaly that explains it. -/
theorem drop (h : Accounted explains ms kept anomalies) {m : Marker κ} {a : Anomaly}
    (ha : explains a m) : Accounted explains (m :: ms) kept (a :: anomalies) := by
  obtain ⟨dropped, hperm, hall⟩ := h
  exact ⟨m :: dropped, List.perm_middle.trans (hperm.cons m), .cons ha hall⟩

/-- An account holds for any order of the markers. -/
theorem perm {ms' kept' : List (Marker κ)} (h : Accounted explains ms kept anomalies)
    (hms : ms.Perm ms') (hkept : kept.Perm kept') : Accounted explains ms' kept' anomalies := by
  obtain ⟨dropped, hperm, hall⟩ := h
  exact ⟨dropped, ((hkept.symm.append_right dropped).trans hperm).trans hms, hall⟩

/-- What explains the anomalies of the given markers may be said in another way. -/
theorem imp {explains' : Anomaly → Marker κ → Prop} (h : Accounted explains ms kept anomalies)
    (himp : ∀ m ∈ ms, ∀ a, explains a m → explains' a m) :
    Accounted explains' ms kept anomalies := by
  obtain ⟨dropped, hperm, hall⟩ := h
  have hmem : ∀ m ∈ dropped, m ∈ ms := fun m hm => hperm.subset (List.mem_append_right _ hm)
  refine ⟨dropped, hperm, ?_⟩
  clear hperm
  induction hall with
  | nil => exact .nil
  | cons ha _ ih =>
      exact .cons (himp _ (hmem _ List.mem_cons_self) _ ha)
        (ih (fun m hm => hmem m (List.mem_cons_of_mem _ hm)))

/-- Accounts of markers in a row. -/
theorem append {ms' kept' : List (Marker κ)} {anomalies' : List Anomaly}
    (h : Accounted explains ms kept anomalies) (h' : Accounted explains ms' kept' anomalies') :
    Accounted explains (ms ++ ms') (kept ++ kept') (anomalies ++ anomalies') := by
  obtain ⟨dropped, hperm, hall⟩ := h
  obtain ⟨dropped', hperm', hall'⟩ := h'
  refine ⟨dropped ++ dropped', ?_, List.rel_append hall hall'⟩
  have hswap : (kept ++ kept' ++ (dropped ++ dropped')).Perm
      (kept ++ dropped ++ (kept' ++ dropped')) := by
    simp only [List.append_assoc]
    refine List.Perm.append_left kept ?_
    rw [← List.append_assoc, ← List.append_assoc]
    exact List.perm_append_comm.append_right dropped'
  exact hswap.trans (hperm.append hperm')

/-- **Two passes account for what the first is given**, if each accounts for its own. -/
theorem trans {kept' : List (Marker κ)} {anomalies' : List Anomaly}
    (h : Accounted explains ms kept anomalies) (h' : Accounted explains kept kept' anomalies') :
    Accounted explains ms kept' (anomalies ++ anomalies') := by
  obtain ⟨dropped, hperm, hall⟩ := h
  obtain ⟨dropped', hperm', hall'⟩ := h'
  refine ⟨dropped ++ dropped', ?_, List.rel_append hall hall'⟩
  have hswap : (kept' ++ (dropped ++ dropped')).Perm (kept' ++ dropped' ++ dropped) := by
    rw [List.append_assoc]
    exact List.Perm.append_left kept' List.perm_append_comm
  exact (hswap.trans (hperm'.append_right dropped)).trans hperm

/-- A marker that is kept was given. -/
theorem mem (h : Accounted explains ms kept anomalies) {m : Marker κ} (hm : m ∈ kept) : m ∈ ms := by
  obtain ⟨dropped, hperm, _⟩ := h
  exact hperm.subset (List.mem_append_left _ hm)

end Accounted

end Lossless
