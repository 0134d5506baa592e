import Lossless.Proofs.Layout
import Lossless.Proofs.Screening
import Mathlib.Data.List.Nodup

/-!
# Forests are laid out as they are

A forest of plots is known from its markers alone: laid out, they give the forest back
(`plots_eq_of_perm`), in whatever order they come, as long as none is empty, no two have the
same number, and no two cover the same tokens.  Two may, if one of them was opened to wrap the
other (`plots_eq_of_wrapper`).

The pass leaves the markers on the right edge of a plot open until the next marker is
placed.  So what is said about a layout in the middle of the pass is what it *settles* to
once the markers that are over are closed.
-/

namespace Lossless

variable {κ : Type}

namespace Layout

/-! ## Settling -/

/-- A layout with plots put behind those inside of its innermost open marker. -/
def append (l : Layout κ) (ps : List (Plot κ)) : Layout κ :=
  match l.chain with
  | [] => { l with roots := l.roots ++ ps }
  | (m, qs) :: rest => { l with chain := (m, qs ++ ps) :: rest }

/-- Whether a marker may be placed inside of the innermost open one. -/
def HasRoom (l : Layout κ) (m : Marker κ) : Prop :=
  ∀ f rest, l.chain = f :: rest → f.1.contains m = true

/-- A layout becomes another when markers are closed, none of them empty, that stop at a token
or before. -/
inductive Settles (position : Nat) : Layout κ → Layout κ → Prop
  | refl (l : Layout κ) : Settles position l l
  | close {l l' : Layout κ} (f : Marker κ × List (Plot κ)) (rest : List (Marker κ × List (Plot κ)))
      (hchain : l.chain = f :: rest) (hopen : f.1.start < f.1.stop) (hstop : f.1.stop ≤ position)
      (hrest : Settles position l.closeTop l') : Settles position l l'

theorem append_nil (l : Layout κ) : l.append [] = l := by
  obtain ⟨chain, roots, anomalies⟩ := l
  cases chain with
  | nil => simp [append]
  | cons f rest => simp [append]

theorem append_append (l : Layout κ) (ps qs : List (Plot κ)) :
    (l.append ps).append qs = l.append (ps ++ qs) := by
  obtain ⟨chain, roots, anomalies⟩ := l
  cases chain with
  | nil => simp [append]
  | cons f rest => simp [append]

theorem HasRoom.append {l : Layout κ} {m : Marker κ} (h : l.HasRoom m) (ps : List (Plot κ)) :
    (l.append ps).HasRoom m := by
  obtain ⟨chain, roots, anomalies⟩ := l
  cases chain with
  | nil =>
      intro f rest hchain
      cases hchain
  | cons g rest' =>
      intro f rest hchain
      cases hchain
      exact h g rest' rfl

theorem Settles.mono {i j : Nat} {l l' : Layout κ} (h : Settles i l l') (hij : i ≤ j) :
    Settles j l l' := by
  induction h with
  | refl l => exact .refl l
  | close f rest hchain hopen hstop _ ih => exact .close f rest hchain hopen (by omega) ih

/-- One more marker may be closed in the end. -/
theorem Settles.closeTop {position : Nat} {l l' : Layout κ} (h : Settles position l l')
    {f : Marker κ × List (Plot κ)} {rest : List (Marker κ × List (Plot κ))}
    (hchain : l'.chain = f :: rest) (hopen : f.1.start < f.1.stop) (hstop : f.1.stop ≤ position) :
    Settles position l l'.closeTop := by
  induction h with
  | refl l => exact .close f rest hchain hopen hstop (.refl _)
  | close g rest' hchain' hopen' hstop' _ ih =>
      exact .close g rest' hchain' hopen' hstop' (ih hchain)

/-- Before a marker from that token on is placed, a layout settles. -/
theorem Settles.closeBefore {position : Nat} {l l' : Layout κ} (h : Settles position l l')
    {m : Marker κ} (hm : position ≤ m.start) (hroom : l'.HasRoom m) : l.closeBefore m = l' := by
  induction h with
  | refl l =>
      apply closeBefore_of_not_endsBefore
      intro f rest hchain
      simp [endsBefore, hroom f rest hchain]
  | close f rest hchain hopen hstop _ ih =>
      have hends : endsBefore f.1 m = true := by
        have hcontains : f.1.contains m = false := by
          apply Bool.eq_false_iff.mpr
          rw [Ne, Marker.contains_iff]
          omega
        simp only [endsBefore, hcontains, Bool.not_false, Bool.true_and, decide_eq_true_eq]
        omega
      rw [closeBefore_of_endsBefore hchain hends]
      exact ih hroom

/-- A marker that has room is opened inside of what the layout settles to. -/
theorem Settles.place {position : Nat} {l l' : Layout κ} (h : Settles position l l')
    {m : Marker κ} (hm : position ≤ m.start) (hroom : l'.HasRoom m) :
    l.place m = { l' with chain := (m, []) :: l'.chain } := by
  rw [Layout.place, h.closeBefore hm hroom]
  cases hchain : l'.chain with
  | nil => simp
  | cons f rest =>
      have hcontains := hroom f rest hchain
      simp [hcontains]

/-- Closing all markers leaves what the layout settles to, if nothing is open in it. -/
theorem Settles.closeAll {position : Nat} {l l' : Layout κ} (h : Settles position l l')
    (hchain : l'.chain = []) : l.closeAll = l' := by
  induction h with
  | refl l => simp [Layout.closeAll, hchain, Nat.repeat]
  | close f rest hfirst _ _ _ ih => rw [closeAll_of_chain hfirst, ih hchain]

/-! ## Placing the markers of a forest -/

mutual

/-- Placing the markers of a plot puts the plot behind the others, once it settles. -/
theorem Settles.plot : ∀ (p : Plot κ) {l l' : Layout κ}, p.Tidy →
    (∀ m ∈ Plot.markers [p], m.start < m.stop) → Settles p.marker.start l l' →
    l'.HasRoom p.marker →
    Settles p.marker.stop ((Plot.markers [p]).foldl Layout.place l) (l'.append [p])
  | .mk m inner, l, l', htidy, hopen, h, hroom => by
      rw [Plot.markers_cons, Plot.markers_nil, List.append_nil] at hopen ⊢
      have hm : m.start < m.stop := hopen m List.mem_cons_self
      have hinner : ∀ n ∈ Plot.markers inner, n.start < n.stop :=
        fun n hn => hopen n (List.mem_cons_of_mem _ hn)
      let opened : Layout κ := { l' with chain := (m, []) :: l'.chain }
      have hplace : l.place m = opened := h.place (Nat.le_refl _) hroom
      have hcontains : ∀ p ∈ inner, opened.HasRoom p.marker := by
        intro p hp f rest hchain
        cases hchain
        obtain ⟨hstart, hstop⟩ := htidy.2.mem hp
        have hp' := hinner p.marker (Plot.marker_mem_markers hp)
        show m.contains p.marker = true
        rw [Marker.contains_iff]
        omega
      have hrow := Settles.row inner htidy.2 hinner (.refl opened) hcontains
      have hclosed : (opened.append inner).closeTop = l'.append [.mk m inner] := by
        obtain ⟨chain, roots, anomalies⟩ := l'
        cases chain with
        | nil => rfl
        | cons f rest => rfl
      rw [List.foldl_cons, hplace, ← hclosed]
      exact hrow.closeTop rfl hm (Nat.le_refl _)

/-- **Placing the markers of a row of plots puts them behind the others**, once they settle. -/
theorem Settles.row : ∀ (ps : List (Plot κ)) {start stop : Nat} {l l' : Layout κ},
    Plot.Row start stop ps → (∀ m ∈ Plot.markers ps, m.start < m.stop) → Settles start l l' →
    (∀ p ∈ ps, l'.HasRoom p.marker) →
    Settles stop ((Plot.markers ps).foldl Layout.place l) (l'.append ps)
  | [], start, stop, l, l', hrow, _, h, _ => by
      rw [Plot.markers_nil, List.foldl_nil, append_nil]
      exact h.mono hrow
  | p :: ps, start, stop, l, l', hrow, hopen, h, hroom => by
      obtain ⟨hstart, htidy, hrow⟩ := hrow
      have hsplit : Plot.markers (p :: ps) = Plot.markers [p] ++ Plot.markers ps := by
        rw [← Plot.markers_append, List.singleton_append]
      rw [hsplit] at hopen ⊢
      have hplot := Settles.plot p htidy (fun m hm => hopen m (List.mem_append_left _ hm))
        (h.mono hstart) (hroom p List.mem_cons_self)
      have hrest := Settles.row ps hrow (fun m hm => hopen m (List.mem_append_right _ hm)) hplot
        (fun q hq => (hroom q (List.mem_cons_of_mem _ hq)).append [p])
      rw [List.foldl_append]
      rwa [append_append, List.singleton_append] at hrest

end

/-- **The layout of the markers of a forest is the forest.** -/
theorem ofArranged_markers {start stop : Nat} {ps : List (Plot κ)} (hrow : Plot.Row start stop ps)
    (hopen : ∀ m ∈ Plot.markers ps, m.start < m.stop) :
    ofArranged (Plot.markers ps) = ⟨[], ps, []⟩ := by
  have hsettles := Settles.row ps hrow hopen (.refl empty) (by
    intro p _ f rest hchain
    cases hchain)
  exact hsettles.closeAll rfl

end Layout

/-! ## Forests in which no two markers cover the same tokens -/

/-- A marker stands in front of another in every layout. -/
def Marker.Precedes (m n : Marker κ) : Prop :=
  m.start < n.start ∨ m.start = n.start ∧ n.stop < m.stop

theorem Marker.Precedes.layoutLe {m n : Marker κ} (h : m.Precedes n) : m.layoutLe n = true := by
  simp only [Marker.layoutLe, Bool.or_eq_true, Bool.and_eq_true, decide_eq_true_eq, beq_iff_eq]
  rcases h with h | ⟨heq, hlt⟩
  · exact Or.inl h
  · exact Or.inr ⟨heq, Or.inl hlt⟩

mutual

/-- A plot that covers something and has a row of such plots inside of it, none of which covers
all that it covers. -/
def Plot.Strict : Plot κ → Prop
  | .mk m inner => m.start < m.stop ∧ (∀ p ∈ inner, m.sameRange p.marker = false) ∧
      Plot.StrictRow m.start m.stop inner

/-- Strict plots between two tokens, in order and disjoint. -/
def Plot.StrictRow (start stop : Nat) : List (Plot κ) → Prop
  | [] => start ≤ stop
  | p :: ps => start ≤ p.marker.start ∧ p.Strict ∧ Plot.StrictRow p.marker.stop stop ps

end

namespace Plot

mutual

theorem Strict.tidy : ∀ {p : Plot κ}, p.Strict → p.Tidy
  | .mk _ _, ⟨hopen, _, hrow⟩ => ⟨Nat.le_of_lt hopen, hrow.row⟩

theorem StrictRow.row : ∀ {ps : List (Plot κ)} {start stop : Nat},
    StrictRow start stop ps → Row start stop ps
  | [], _, _, h => h
  | _ :: _, _, _, ⟨hstart, hstrict, hrow⟩ => ⟨hstart, hstrict.tidy, hrow.row⟩

end

mutual

/-- The markers of a strict plot cover something, and lie inside of it. -/
theorem Strict.within : ∀ {p : Plot κ}, p.Strict → ∀ n ∈ markers [p],
    p.marker.start ≤ n.start ∧ n.start < n.stop ∧ n.stop ≤ p.marker.stop
  | .mk m inner, ⟨hopen, _, hrow⟩, n, hn => by
      rw [markers_cons, markers_nil, List.append_nil] at hn
      rcases List.mem_cons.mp hn with rfl | hn
      · exact ⟨Nat.le_refl _, hopen, Nat.le_refl _⟩
      · exact hrow.within n hn

theorem StrictRow.within : ∀ {ps : List (Plot κ)} {start stop : Nat}, StrictRow start stop ps →
    ∀ n ∈ markers ps, start ≤ n.start ∧ n.start < n.stop ∧ n.stop ≤ stop
  | [], _, _, _, n, hn => by cases hn
  | p :: ps, start, stop, ⟨hstart, hstrict, hrow⟩, n, hn => by
      have hp := hstrict.tidy.le
      have hstop := hrow.row.le
      rw [← List.singleton_append, markers_append] at hn
      rcases List.mem_append.mp hn with hn | hn
      · have hinside := hstrict.within n hn
        omega
      · have hinside := hrow.within n hn
        omega

end

theorem Strict.start_lt_stop {p : Plot κ} (h : p.Strict) : p.marker.start < p.marker.stop := by
  cases p
  exact h.1

theorem StrictRow.strict {ps : List (Plot κ)} {start stop : Nat} (h : StrictRow start stop ps)
    {p : Plot κ} (hp : p ∈ ps) : p.Strict := by
  induction ps generalizing start with
  | nil => cases hp
  | cons q ps ih =>
      obtain ⟨_, hstrict, hrow⟩ := h
      rcases List.mem_cons.mp hp with rfl | hp
      · exact hstrict
      · exact ih hrow hp

/-- A strict row may begin earlier. -/
theorem StrictRow.mono_start {ps : List (Plot κ)} {start start' stop : Nat}
    (h : StrictRow start stop ps) (hstart : start' ≤ start) : StrictRow start' stop ps := by
  cases ps with
  | nil => exact Nat.le_trans hstart h
  | cons p ps => exact ⟨Nat.le_trans hstart h.1, h.2⟩

theorem exists_of_mem_markers {ps : List (Plot κ)} {m : Marker κ} (hm : m ∈ markers ps) :
    ∃ p ∈ ps, m ∈ markers [p] := by
  induction ps with
  | nil => cases hm
  | cons q ps ih =>
      rw [← List.singleton_append, markers_append] at hm
      rcases List.mem_append.mp hm with hm | hm
      · exact ⟨q, List.mem_cons_self, hm⟩
      · obtain ⟨p, hp, hmem⟩ := ih hm
        exact ⟨p, List.mem_cons_of_mem _ hp, hmem⟩

mutual

theorem Strict.ordered : ∀ {p : Plot κ}, p.Strict → (markers [p]).Pairwise Marker.Precedes
  | .mk m inner, ⟨_, hdiffer, hrow⟩ => by
      rw [markers_cons, markers_nil, List.append_nil]
      refine List.pairwise_cons.mpr ⟨?_, hrow.ordered⟩
      intro n hn
      -- The marker is inside of one of the plots, and that one covers less than all.
      obtain ⟨p, hp, hnp⟩ := exists_of_mem_markers hn
      obtain ⟨hstart, hstop⟩ := hrow.row.mem hp
      have hinside := (hrow.strict hp).within n hnp
      have hne : ¬ (m.start = p.marker.start ∧ m.stop = p.marker.stop) := by
        rw [← Marker.sameRange_iff, hdiffer p hp]
        simp
      show m.start < n.start ∨ m.start = n.start ∧ n.stop < m.stop
      omega

/-- **In a strict row each marker stands in front of the later ones.** -/
theorem StrictRow.ordered : ∀ {ps : List (Plot κ)} {start stop : Nat}, StrictRow start stop ps →
    (markers ps).Pairwise Marker.Precedes
  | [], _, _, _ => .nil
  | p :: ps, start, stop, ⟨hstart, hstrict, hrow⟩ => by
      rw [← List.singleton_append, markers_append]
      refine List.pairwise_append.mpr ⟨hstrict.ordered, hrow.ordered, ?_⟩
      intro m hm n hn
      have hfirst := hstrict.within m hm
      have hlater := hrow.within n hn
      exact Or.inl (by omega)

end

end Plot

/-! ## Forests from their markers in any order -/

/-- Screening keeps markers that fit and whose numbers are new. -/
theorem screenFrom_eq_self {count : Nat} {seen : List Nat} {ms : List (Marker κ)}
    (hfits : ∀ m ∈ ms, m.fits count = true) (hnew : ∀ m ∈ ms, m.id ∉ seen)
    (hnodup : (ms.map (·.id)).Nodup) : screenFrom count seen ms = (ms, []) := by
  induction ms generalizing seen with
  | nil => rfl
  | cons m ms ih =>
      obtain ⟨hfirst, hnodup⟩ := List.nodup_cons.mp hnodup
      have hrest : screenFrom count (m.id :: seen) ms = (ms, []) := by
        refine ih (fun n hn => hfits n (List.mem_cons_of_mem _ hn)) ?_ hnodup
        intro n hn hmem
        rcases List.mem_cons.mp hmem with heq | hmem
        · exact hfirst (List.mem_map.mpr ⟨n, hn, heq⟩)
        · exact hnew n (List.mem_cons_of_mem _ hn) hmem
      simp [screenFrom, hfits m List.mem_cons_self, hnew m List.mem_cons_self, hrest]

/-- Arranging keeps sorted markers no two of which cover the same tokens. -/
theorem arrangeSorted_eq_self {rounds : Nat} {ms : List (Marker κ)} (hrounds : ms.length ≤ rounds)
    (hdistinct : ms.Pairwise (fun m n => m.sameRange n = false)) :
    arrangeSorted rounds ms = (ms, []) := by
  induction ms generalizing rounds with
  | nil => cases rounds <;> rfl
  | cons m ms ih =>
      obtain ⟨hfirst, hdistinct⟩ := List.pairwise_cons.mp hdistinct
      obtain ⟨rounds, rfl⟩ : ∃ n, rounds = n + 1 := ⟨rounds - 1, by simp at hrounds; omega⟩
      have hrest : arrangeSorted rounds ms = (ms, []) := ih (by simpa using hrounds) hdistinct
      cases ms with
      | nil => simp [arrangeSorted, chain, hrest]
      | cons n ms => simp [arrangeSorted, chain, hfirst n List.mem_cons_self, hrest]

/-- Markers that fit and have different numbers are put in the order of a layout, whatever order
they come in, and none of them is left out before they are arranged. -/
theorem plots_eq_of_sorted {count : Nat} {ms sorted : List (Marker κ)} (hperm : ms.Perm sorted)
    (hfits : ∀ m ∈ sorted, m.fits count = true) (hnodup : (ms.map (·.id)).Nodup)
    (hsorted : sorted.Pairwise (fun m n => m.layoutLe n = true)) {arranged : List (Marker κ)}
    (harranged : arrangeSorted sorted.length sorted = (arranged, [])) :
    plots count ms =
      ((Layout.ofArranged arranged).roots, (Layout.ofArranged arranged).anomalies) := by
  have hbyId := List.mergeSort_perm ms Marker.idLe
  have hscreen : screen count ms = (ms.mergeSort Marker.idLe, []) := by
    apply screenFrom_eq_self
    · exact fun m hm => hfits m (hperm.mem_iff.mp (hbyId.mem_iff.mp hm))
    · simp
    · exact ((hbyId.map (·.id)).nodup_iff).mpr hnodup
  have hlaid : (ms.mergeSort Marker.idLe).mergeSort Marker.layoutLe = sorted := by
    have hsame := (List.mergeSort_perm (ms.mergeSort Marker.idLe) Marker.layoutLe).trans hbyId
    refine List.Perm.eq_of_pairwise ?_ (pairwise_layoutLe_mergeSort _) hsorted (hsame.trans hperm)
    intro m n hm hn hmn hnm
    have hid : m.id = n.id := by
      simp [Marker.layoutLe] at hmn hnm
      omega
    exact List.inj_on_of_nodup_map hnodup (hsame.mem_iff.mp hm) (hperm.mem_iff.mpr hn) hid
  have harrange : arrange (ms.mergeSort Marker.idLe) = (arranged, []) := by
    rw [arrange, hlaid, List.length_mergeSort, hperm.length_eq, harranged]
  simp [plots, hscreen, harrange]

theorem Marker.Precedes.sameRange {m n : Marker κ} (h : m.Precedes n) : m.sameRange n = false := by
  apply Bool.eq_false_iff.mpr
  rw [Ne, Marker.sameRange_iff]
  rcases h with h | h <;> omega

/-- **A forest is laid out as it is**, whatever the order of its markers. -/
theorem plots_eq_of_perm {count : Nat} {ps : List (Plot κ)} {ms : List (Marker κ)}
    (hrow : Plot.StrictRow 0 count ps) (hperm : ms.Perm (Plot.markers ps))
    (hnodup : (ms.map (·.id)).Nodup) : plots count ms = (ps, []) := by
  have hfits : ∀ m ∈ Plot.markers ps, m.fits count = true := by
    intro m hm
    obtain ⟨_, hlt, hle⟩ := hrow.within m hm
    rw [Marker.fits_iff]
    omega
  have harranged := arrangeSorted_eq_self (Nat.le_refl _)
    (hrow.ordered.imp Marker.Precedes.sameRange)
  have hforest := Layout.ofArranged_markers hrow.row (fun m hm => (hrow.within m hm).2.1)
  rw [plots_eq_of_sorted hperm hfits hnodup (hrow.ordered.imp Marker.Precedes.layoutLe) harranged,
    hforest]

/-- A wrapper over the same tokens is arranged in front of the marker that it precedes. -/
theorem arrangeSorted_wrapper {base m : Marker κ} {ns : List (Marker κ)}
    (hsame : base.sameRange m = true) (hprecedes : m.precedes = some base.id)
    (hfirst : ∀ n ∈ ns, base.sameRange n = false)
    (hdistinct : ns.Pairwise (fun m n => m.sameRange n = false)) :
    arrangeSorted (base :: m :: ns).length (base :: m :: ns) = (m :: base :: ns, []) := by
  have hrest : arrangeSorted (m :: ns).length ns = (ns, []) :=
    arrangeSorted_eq_self (by simp) hdistinct
  have htake : (m :: ns).takeWhile base.sameRange = [m] := by
    cases ns with
    | nil => simp [hsame]
    | cons n ns => simp [hsame, hfirst n List.mem_cons_self]
  have hdrop : (m :: ns).dropWhile base.sameRange = ns := by
    cases ns with
    | nil => simp [hsame]
    | cons n ns => simp [hsame, hfirst n List.mem_cons_self]
  rw [List.length_cons, arrangeSorted, htake, hdrop, hrest]
  simp [chain, hprecedes]

/-- **A plot and a wrapper over the same tokens are laid out inside one another**, if the wrapper
was opened to precede the marker of the plot. -/
theorem plots_eq_of_wrapper {count : Nat} {p : Plot κ} {m : Marker κ} {ms : List (Marker κ)}
    (hp : p.Strict) (hcount : p.marker.stop ≤ count) (hsame : p.marker.sameRange m = true)
    (hprecedes : m.precedes = some p.marker.id) (hid : p.marker.id < m.id)
    (hperm : ms.Perm (m :: Plot.markers [p])) (hnodup : (ms.map (·.id)).Nodup) :
    plots count ms = ([.mk m [p]], []) := by
  have hrange := (Marker.sameRange_iff _ _).mp hsame
  have hrow : Plot.Row 0 count [.mk m [p]] := by
    refine ⟨Nat.zero_le _, ⟨?_, ?_, hp.tidy, ?_⟩, ?_⟩
    · exact hrange.1 ▸ hrange.2 ▸ hp.tidy.le
    · exact Nat.le_of_eq hrange.1.symm
    · exact Nat.le_of_eq hrange.2
    · exact hrange.2 ▸ hcount
  obtain ⟨base, inner⟩ := p
  have hmarkers : Plot.markers [.mk base inner] = base :: Plot.markers inner := by
    rw [Plot.markers_cons, Plot.markers_nil, List.append_nil]
  have hwhole : Plot.markers [.mk m [.mk base inner]] = m :: base :: Plot.markers inner := by
    rw [Plot.markers_cons, Plot.markers_nil, List.append_nil, hmarkers]
  have hordered := hp.ordered
  have hwithin := hp.within
  rw [hmarkers] at hperm hordered hwithin
  simp only [Plot.marker] at hcount hsame hprecedes hid hrange hwithin
  obtain ⟨hfirst, hinner⟩ := List.pairwise_cons.mp hordered
  have hinside : ∀ n ∈ base :: m :: Plot.markers inner, n.start < n.stop ∧ n.stop ≤ count := by
    intro n hn
    rcases List.mem_cons.mp (List.Perm.mem_iff (.swap m base _) |>.mp hn) with rfl | hn
    · have hbase := hwithin base List.mem_cons_self
      omega
    · have hn := hwithin n hn
      omega
  -- of the two markers over all tokens the one with the smaller number comes first
  have hsorted : (base :: m :: Plot.markers inner).Pairwise (fun m n => m.layoutLe n = true) := by
    refine List.pairwise_cons.mpr ⟨List.forall_mem_cons.mpr ⟨?_, ?_⟩, List.pairwise_cons.mpr
      ⟨?_, hinner.imp Marker.Precedes.layoutLe⟩⟩
    · simp only [Marker.layoutLe, Bool.or_eq_true, Bool.and_eq_true, decide_eq_true_eq, beq_iff_eq]
      omega
    · exact fun n hn => (hfirst n hn).layoutLe
    · intro n hn
      have hlt : m.Precedes n := by
        have hlt := hfirst n hn
        simp only [Marker.Precedes] at hlt ⊢
        omega
      exact hlt.layoutLe
  have hforest := Layout.ofArranged_markers hrow (by
    intro n hn
    rw [hwhole] at hn
    exact (hinside n (List.Perm.mem_iff (.swap base m _) |>.mp hn)).1)
  rw [hwhole] at hforest
  rw [plots_eq_of_sorted (hperm.trans (.swap _ _ _)) ?_ hnodup hsorted
    (arrangeSorted_wrapper hsame hprecedes (fun n hn => (hfirst n hn).sameRange)
      (hinner.imp Marker.Precedes.sameRange)), hforest]
  intro n hn
  have hn := hinside n hn
  rw [Marker.fits_iff]
  omega

end Lossless
