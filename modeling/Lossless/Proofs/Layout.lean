import Lossless.Proofs.Nesting

/-!
# The one-pass layout is the naive one

`Layout.ofArranged` keeps a chain of open markers and looks at its innermost member only.
The invariant that carries the pass (`Layout.Sound`) says that the open markers contain
one another, that **every closed marker is over** and so can neither contain nor cross a
later one, and that the plots closed so far form rows.  From it, one step of the pass is
one step of the naive layout (`Sound.place`), and so is the whole pass
(`ofArranged_naive`).
-/

namespace Lossless

variable {κ : Type}

namespace Layout

/-! ## Closing markers -/

/-- The markers of open frames and of the plots in them, outermost first, each with the
marker that it is right inside of. -/
def chainFamily : List (Marker κ × List (Plot κ)) → List (Marker κ × Option (Marker κ))
  | [] => []
  | (m, ps) :: outer =>
    chainFamily outer ++ (m, outer.head?.map Prod.fst) :: Plot.families (some m) ps

/-- All markers of a layout in the order in which they were placed, each with the marker
that it is right inside of. -/
def family (l : Layout κ) : List (Marker κ × Option (Marker κ)) :=
  Plot.families none l.roots ++ chainFamily l.chain

/-- Closing a marker leaves the family as it is. -/
@[simp] theorem family_closeTop (l : Layout κ) : l.closeTop.family = l.family := by
  obtain ⟨chain, roots, anomalies⟩ := l
  match chain with
  | [] => rfl
  | [(m, ps)] => simp [closeTop, family, chainFamily, Plot.families_append]
  | (m, ps) :: (o, qs) :: rest =>
      simp [closeTop, family, chainFamily, Plot.families_append]

/-- Closing a marker leaves the anomalies as they are. -/
@[simp] theorem anomalies_closeTop (l : Layout κ) : l.closeTop.anomalies = l.anomalies := by
  obtain ⟨chain, roots, anomalies⟩ := l
  match chain with
  | [] => rfl
  | [(m, ps)] => rfl
  | (m, ps) :: (o, qs) :: rest => rfl

/-- The markers of the chain without its innermost one. -/
theorem map_fst_chain_closeTop (l : Layout κ) :
    l.closeTop.chain.map Prod.fst = (l.chain.map Prod.fst).tail := by
  obtain ⟨chain, roots, anomalies⟩ := l
  match chain with
  | [] => rfl
  | [(m, ps)] => rfl
  | (m, ps) :: (o, qs) :: rest => rfl

/-- Closing a marker makes the chain shorter by one. -/
theorem length_chain_closeTop (l : Layout κ) :
    l.closeTop.chain.length = l.chain.length - 1 := by
  have hlength := congrArg List.length (map_fst_chain_closeTop l)
  simpa using hlength

/-- Repeated closing may start with one closing. -/
theorem repeat_closeTop_succ (n : Nat) (l : Layout κ) :
    Nat.repeat closeTop (n + 1) l = Nat.repeat closeTop n l.closeTop := by
  induction n with
  | zero => rfl
  | succ n ih =>
      show closeTop (Nat.repeat closeTop (n + 1) l) = closeTop (Nat.repeat closeTop n l.closeTop)
      rw [ih]

/-- How many markers are closed before another depends on the markers of the chain only. -/
theorem closeBefore_eq (l : Layout κ) (m : Marker κ) :
    l.closeBefore m =
      Nat.repeat closeTop ((l.chain.map Prod.fst).takeWhile (endsBefore · m)).length l := by
  have hlength : (l.chain.takeWhile fun f => endsBefore f.1 m).length =
      ((l.chain.map Prod.fst).takeWhile (endsBefore · m)).length := by
    rw [List.takeWhile_map, List.length_map]
    rfl
  rw [closeBefore, hlength]

/-- An innermost marker that ends before another is closed first. -/
theorem closeBefore_of_endsBefore {l : Layout κ} {m : Marker κ} {f : Marker κ × List (Plot κ)}
    {rest : List (Marker κ × List (Plot κ))} (hchain : l.chain = f :: rest)
    (hends : endsBefore f.1 m = true) : l.closeBefore m = l.closeTop.closeBefore m := by
  rw [closeBefore_eq, closeBefore_eq, map_fst_chain_closeTop, hchain]
  simp only [List.map_cons, List.takeWhile_cons, hends, if_true, List.length_cons, List.tail_cons]
  exact repeat_closeTop_succ _ l

/-- Nothing is closed if the innermost marker does not end before the other one. -/
theorem closeBefore_of_not_endsBefore {l : Layout κ} {m : Marker κ}
    (hends : ∀ f rest, l.chain = f :: rest → endsBefore f.1 m = false) : l.closeBefore m = l := by
  rw [closeBefore_eq]
  cases hchain : l.chain with
  | nil => rfl
  | cons f rest => simp [hends f rest hchain, Nat.repeat]

/-- **What each closing keeps, closing before a marker keeps.**  Only markers that end
before it are closed, and the innermost one left does not. -/
theorem closeBefore_induction {m : Marker κ} (P : Layout κ → Prop)
    (hstep : ∀ l f rest, l.chain = f :: rest → endsBefore f.1 m = true → P l → P l.closeTop)
    (l : Layout κ) (hl : P l) :
    P (l.closeBefore m) ∧
      ∀ f rest, (l.closeBefore m).chain = f :: rest → endsBefore f.1 m = false := by
  obtain ⟨n, hn⟩ : ∃ n, l.chain.length = n := ⟨_, rfl⟩
  induction n generalizing l with
  | zero =>
      have hchain : l.chain = [] := List.length_eq_zero_iff.mp hn
      rw [closeBefore_of_not_endsBefore (by simp [hchain])]
      exact ⟨hl, by simp [hchain]⟩
  | succ n ih =>
      obtain ⟨f, rest, hchain⟩ : ∃ f rest, l.chain = f :: rest :=
        List.exists_cons_of_length_pos (by omega)
      cases hends : endsBefore f.1 m with
      | true =>
          rw [closeBefore_of_endsBefore hchain hends]
          exact ih l.closeTop (hstep l f rest hchain hends hl) (by
            rw [length_chain_closeTop]
            omega)
      | false =>
          have hnot : ∀ g rest', l.chain = g :: rest' → endsBefore g.1 m = false := by
            intro g rest' hg
            rw [hchain] at hg
            cases hg
            exact hends
          rw [closeBefore_of_not_endsBefore hnot]
          exact ⟨hl, hnot⟩

/-- Closing everything may start with one closing. -/
theorem closeAll_of_chain {l : Layout κ} {f : Marker κ × List (Plot κ)}
    {rest : List (Marker κ × List (Plot κ))} (hchain : l.chain = f :: rest) :
    l.closeAll = l.closeTop.closeAll := by
  have hlength : l.chain.length = l.closeTop.chain.length + 1 := by
    rw [length_chain_closeTop, hchain, List.length_cons, Nat.add_sub_cancel]
  rw [closeAll, closeAll, hlength]
  exact repeat_closeTop_succ _ l

/-- **What each closing keeps, closing everything keeps.** -/
theorem closeAll_induction (P : Layout κ → Prop)
    (hstep : ∀ l f rest, l.chain = f :: rest → P l → P l.closeTop) (l : Layout κ) (hl : P l) :
    P l.closeAll ∧ l.closeAll.chain = [] := by
  obtain ⟨n, hn⟩ : ∃ n, l.chain.length = n := ⟨_, rfl⟩
  induction n generalizing l with
  | zero =>
      have hchain : l.chain = [] := List.length_eq_zero_iff.mp hn
      simp only [closeAll, hn, Nat.repeat]
      exact ⟨hl, hchain⟩
  | succ n ih =>
      obtain ⟨f, rest, hchain⟩ : ∃ f rest, l.chain = f :: rest :=
        List.exists_cons_of_length_pos (by omega)
      have hlength : l.closeTop.chain.length = n := by
        rw [length_chain_closeTop]
        omega
      rw [closeAll_of_chain hchain]
      exact ih l.closeTop (hstep l f rest hchain hl) hlength

/-! ## The invariant -/

/-- The rows of a layout: the plots of each open marker stand between its start and the
place at which the next inner one begins, or the pass has arrived. -/
def Rows (roots : List (Plot κ)) : Nat → List (Marker κ × List (Plot κ)) → Prop
  | stop, [] => Plot.Row 0 stop roots
  | stop, (m, ps) :: outer =>
    Plot.Row m.start stop ps ∧ stop ≤ m.stop ∧ Rows roots m.start outer

/-- The markers that are closed: those of roots and of the plots in open markers. -/
def closedMarkers (l : Layout κ) : List (Marker κ) :=
  Plot.markers (l.roots ++ l.chain.flatMap Prod.snd)

/-- Rows may be given more room behind them, up to the end of the innermost open marker. -/
theorem Rows.mono {roots : List (Plot κ)} {stop stop' : Nat}
    {chain : List (Marker κ × List (Plot κ))} (h : Rows roots stop chain) (hle : stop ≤ stop')
    (hstop : ∀ f rest, chain = f :: rest → stop' ≤ f.1.stop) : Rows roots stop' chain := by
  cases chain with
  | nil => exact Plot.Row.mono h hle
  | cons f rest => exact ⟨h.1.mono hle, hstop f rest rfl, h.2.2⟩

/-- What holds of a layout when the pass has arrived at a token. -/
structure Sound (l : Layout κ) (position : Nat) : Prop where
  /-- Open markers contain those further inside. -/
  nested : (l.chain.map Prod.fst).Pairwise (fun inner outer => outer.contains inner = true)
  /-- Closed markers are over. -/
  past : ∀ m ∈ l.closedMarkers, m.Past position
  rows : ∃ stop, stop ≤ position ∧ Rows l.roots stop l.chain

/-- A marker of a layout is closed or open. -/
theorem mem_map_fst_family {l : Layout κ} {q : Marker κ} :
    q ∈ l.family.map Prod.fst ↔ q ∈ l.closedMarkers ∨ q ∈ l.chain.map Prod.fst := by
  obtain ⟨chain, roots, anomalies⟩ := l
  have hchain : q ∈ (chainFamily chain).map Prod.fst ↔
      q ∈ Plot.markers (chain.flatMap Prod.snd) ∨ q ∈ chain.map Prod.fst := by
    induction chain with
    | nil => simp [chainFamily]
    | cons f rest ih =>
        obtain ⟨m, ps⟩ := f
        rw [chainFamily, List.map_append, List.mem_append, ih, List.map_cons,
          Plot.map_fst_families]
        simp only [List.mem_cons, List.flatMap_cons, Plot.markers_append, List.mem_append,
          List.map_cons]
        grind
  simp only [family, closedMarkers, List.map_append, List.mem_append, hchain,
    Plot.map_fst_families, Plot.markers_append]
  grind

/-- A marker that is closed after the innermost open one is closed was closed before, or is
that one. -/
theorem mem_closedMarkers_closeTop {l : Layout κ} {f : Marker κ × List (Plot κ)}
    {rest : List (Marker κ × List (Plot κ))} (hchain : l.chain = f :: rest) {q : Marker κ}
    (hq : q ∈ l.closeTop.closedMarkers) : q ∈ l.closedMarkers ∨ q = f.1 := by
  obtain ⟨chain, roots, anomalies⟩ := l
  obtain ⟨m, ps⟩ := f
  subst hchain
  cases rest with
  | nil =>
      simp [closeTop, closedMarkers] at hq ⊢
      grind
  | cons o rest =>
      simp [closeTop, closedMarkers] at hq ⊢
      grind

/-- Closing the innermost open marker puts its plot behind the row that it stands in. -/
theorem Rows.closeTop {l : Layout κ} {stop : Nat} {f : Marker κ × List (Plot κ)}
    {rest : List (Marker κ × List (Plot κ))} (hchain : l.chain = f :: rest)
    (hnested : (l.chain.map Prod.fst).Pairwise (fun inner outer => outer.contains inner = true))
    (h : Rows l.roots stop l.chain) : Rows l.closeTop.roots f.1.stop l.closeTop.chain := by
  obtain ⟨chain, roots, anomalies⟩ := l
  obtain ⟨m, ps⟩ := f
  subst hchain
  obtain ⟨hrow, hstop, houter⟩ := h
  have htidy : (Plot.mk m ps).Tidy := ⟨Nat.le_trans hrow.le hstop, hrow.mono hstop⟩
  cases rest with
  | nil => exact Plot.Row.concat houter (Nat.le_refl _) htidy
  | cons o rest =>
      obtain ⟨hrow', _, houter'⟩ := houter
      have hcontains : o.1.contains m = true := by
        simp only [List.map_cons, List.pairwise_cons] at hnested
        exact hnested.1 o.1 List.mem_cons_self
      rw [Marker.contains_iff] at hcontains
      exact ⟨hrow'.concat (Nat.le_refl _) htidy, hcontains.2.1, houter'⟩

/-- The invariant holds at later tokens too. -/
theorem Sound.mono {l : Layout κ} {i j : Nat} (h : l.Sound i) (hij : i ≤ j) : l.Sound j := by
  obtain ⟨stop, hstop, hrows⟩ := h.rows
  exact ⟨h.nested, fun m hm => (h.past m hm).mono hij, stop, Nat.le_trans hstop hij, hrows⟩

/-- Closing a marker that is over keeps the invariant. -/
theorem Sound.closeTop {l : Layout κ} {position : Nat} (h : l.Sound position)
    {f : Marker κ × List (Plot κ)} {rest : List (Marker κ × List (Plot κ))}
    (hchain : l.chain = f :: rest) (hf : f.1.Past position) : l.closeTop.Sound position := by
  refine ⟨?_, ?_, ?_⟩
  · rw [map_fst_chain_closeTop]
    exact h.nested.tail
  · intro q hq
    rcases mem_closedMarkers_closeTop hchain hq with hq | rfl
    · exact h.past q hq
    · exact hf
  · obtain ⟨stop, _, hrows⟩ := h.rows
    exact ⟨f.1.stop, hf.1, hrows.closeTop hchain h.nested⟩

/-! ## One step of the pass -/

/-- Closing all markers that end before another keeps the family, the anomalies and the
invariant, which then holds where the other one begins. -/
theorem Sound.closeBefore {l : Layout κ} {position : Nat} {m : Marker κ} (h : l.Sound position)
    (hposition : position ≤ m.start) (hm : m.start ≤ m.stop)
    (hleads : ∀ q ∈ l.family.map Prod.fst, q.Leads m) :
    ((l.closeBefore m).family = l.family ∧ (l.closeBefore m).anomalies = l.anomalies ∧
      (l.closeBefore m).Sound m.start) ∧
    ∀ f rest, (l.closeBefore m).chain = f :: rest → endsBefore f.1 m = false := by
  apply closeBefore_induction (fun l' => l'.family = l.family ∧ l'.anomalies = l.anomalies ∧
    l'.Sound m.start)
  · intro l' f rest hchain hends hl'
    obtain ⟨hfamily, hanomalies, hsound⟩ := hl'
    have hf : f.1 ∈ l.family.map Prod.fst := by
      rw [← hfamily, mem_map_fst_family, hchain]
      exact Or.inr List.mem_cons_self
    have hpast := (hleads f.1 hf).past_of_endsBefore hm hends
    exact ⟨by rw [family_closeTop, hfamily], by rw [anomalies_closeTop, hanomalies],
      hsound.closeTop hchain hpast⟩
  · exact ⟨rfl, rfl, h.mono hposition⟩

/-- Where the invariant holds and no marker is open, no marker contains or crosses the next. -/
theorem Sound.eq_false_of_chain_nil {l : Layout κ} {m : Marker κ} (h : l.Sound m.start)
    (hm : m.start ≤ m.stop) (hchain : l.chain = []) {q : Marker κ}
    (hq : q ∈ l.family.map Prod.fst) : q.contains m = false ∧ q.crosses m = false := by
  rw [mem_map_fst_family, hchain] at hq
  rcases hq with hq | hq
  · exact ⟨(h.past q hq).not_contains hm, (h.past q hq).not_crosses⟩
  · cases hq

/-- If the innermost open marker contains the next one, so do all open markers, and no
marker of the layout crosses it. -/
theorem Sound.not_crosses_of_contains {l : Layout κ} {m : Marker κ} (h : l.Sound m.start)
    (hm : m.start ≤ m.stop) {f : Marker κ × List (Plot κ)}
    {rest : List (Marker κ × List (Plot κ))} (hchain : l.chain = f :: rest)
    (hcontains : f.1.contains m = true) {q : Marker κ} (hq : q ∈ l.family.map Prod.fst) :
    q.crosses m = false := by
  rw [mem_map_fst_family, hchain] at hq
  rcases hq with hq | hq
  · exact (h.past q hq).not_crosses
  · have hnested := h.nested
    rw [hchain, List.map_cons, List.pairwise_cons] at hnested
    rcases List.mem_cons.mp hq with rfl | hq
    · exact Marker.not_crosses_of_contains hcontains
    · exact Marker.not_crosses_of_contains
        (Marker.contains_trans (hnested.1 q hq) hcontains hm)

/-- The innermost open marker is the last of all markers that contains the next one, if it
contains it: everything placed after it is closed and over. -/
theorem Sound.innermost?_eq {l : Layout κ} {m : Marker κ} (h : l.Sound m.start)
    (hm : m.start ≤ m.stop) {f : Marker κ × List (Plot κ)}
    {rest : List (Marker κ × List (Plot κ))} (hchain : l.chain = f :: rest)
    (hcontains : f.1.contains m = true) :
    innermost? (l.family.map Prod.fst) m = some f.1 := by
  have hinner : ∀ q ∈ Plot.markers f.2, q.contains m = false := by
    intro q hq
    refine (h.past q ?_).not_contains hm
    simp [closedMarkers, hchain, hq]
  have hfilter : (Plot.markers f.2).filter (·.contains m) = [] := by
    simpa [List.filter_eq_nil_iff] using hinner
  simp [innermost?, family, hchain, chainFamily, Plot.map_fst_families, hcontains, hfilter]

/-- Opening a marker that the innermost open one contains keeps the invariant. -/
theorem Sound.push {l : Layout κ} {m : Marker κ} (h : l.Sound m.start) (hm : m.start ≤ m.stop)
    (hcontains : ∀ f rest, l.chain = f :: rest → f.1.contains m = true) :
    Sound { l with chain := (m, []) :: l.chain } m.start := by
  obtain ⟨stop, hstop, hrows⟩ := h.rows
  have hnested := h.nested
  refine ⟨?_, ?_, m.start, Nat.le_refl _, Nat.le_refl _, hm, hrows.mono hstop ?_⟩
  · rw [List.map_cons, List.pairwise_cons]
    refine ⟨?_, hnested⟩
    intro q hq
    cases hchain : l.chain with
    | nil => simp [hchain] at hq
    | cons f rest =>
        have hf := hcontains f rest hchain
        rw [hchain, List.map_cons] at hq hnested
        rcases List.mem_cons.mp hq with rfl | hq
        · exact hf
        · exact Marker.contains_trans ((List.pairwise_cons.mp hnested).1 q hq) hf hm
  · intro q hq
    refine h.past q ?_
    simpa [closedMarkers] using hq
  · intro f rest hchain
    have hf := hcontains f rest hchain
    rw [Marker.contains_iff] at hf
    omega

/-- **One step of the pass is one step of the naive layout.**  Either a marker of the layout
crosses the next one, which is then left out with an anomaly that names such a marker, or
none does, and the next one is put into the innermost marker that contains it. -/
theorem Sound.place {l : Layout κ} {position : Nat} {m : Marker κ} (h : l.Sound position)
    (hposition : position ≤ m.start) (hm : m.start ≤ m.stop)
    (hleads : ∀ q ∈ l.family.map Prod.fst, q.Leads m) :
    (l.place m).Sound m.start ∧
      ((∃ outer ∈ l.family.map Prod.fst, outer.crosses m = true ∧
          (l.place m).family = l.family ∧
          (l.place m).anomalies = l.anomalies ++ [.overlapping m.id outer.id]) ∨
        ((∀ q ∈ l.family.map Prod.fst, q.crosses m = false) ∧
          (l.place m).family = l.family ++ [(m, innermost? (l.family.map Prod.fst) m)] ∧
          (l.place m).anomalies = l.anomalies)) := by
  obtain ⟨⟨hfamily, hanomalies, hsound⟩, htop⟩ := h.closeBefore hposition hm hleads
  rw [← hfamily, ← hanomalies]
  rw [← hfamily] at hleads
  unfold Layout.place
  generalize l.closeBefore m = l' at hsound htop hleads ⊢
  cases hchain : l'.chain with
  | nil =>
      have hpush := hsound.push hm (by simp [hchain])
      have hnone : ∀ q ∈ l'.family.map Prod.fst, q.contains m = false ∧ q.crosses m = false :=
        fun q hq => hsound.eq_false_of_chain_nil hm hchain hq
      have hinner : innermost? (l'.family.map Prod.fst) m = none := by
        rw [innermost?, List.getLast?_eq_none_iff, List.filter_eq_nil_iff]
        intro q hq
        simp [(hnone q hq).1]
      rw [hchain] at hpush
      simp only [hchain]
      refine ⟨hpush, Or.inr ⟨fun q hq => (hnone q hq).2, ?_, trivial⟩⟩
      rw [hinner]
      simp [family, hchain, chainFamily, Plot.families]
  | cons f rest =>
      have hmem : f.1 ∈ l'.family.map Prod.fst := by
        rw [mem_map_fst_family, hchain]
        exact Or.inr List.mem_cons_self
      cases hcontains : f.1.contains m with
      | true =>
          have hpush := hsound.push hm (by
            intro g rest' hg
            rw [hchain] at hg
            cases hg
            exact hcontains)
          rw [hchain] at hpush
          simp only [hchain, hcontains, if_true]
          refine ⟨hpush, Or.inr ⟨fun q hq => hsound.not_crosses_of_contains hm hchain hcontains hq,
            ?_, trivial⟩⟩
          rw [hsound.innermost?_eq hm hchain hcontains]
          simp [family, hchain, chainFamily, Plot.families]
      | false =>
          have hcrosses := (hleads f.1 hmem).crosses_of_open hcontains (htop f rest hchain)
          simp only [hchain, hcontains, Bool.false_eq_true, if_false]
          refine ⟨⟨?_, ?_, ?_⟩, Or.inl ⟨f.1, hmem, hcrosses, by simp [family, hchain], rfl⟩⟩
          · rw [← hchain]
            exact hsound.nested
          · intro q hq
            exact hsound.past q (by simpa [closedMarkers, hchain] using hq)
          · rw [← hchain]
            exact hsound.rows

/-! ## The whole pass -/

/-- A marker that is left out because a kept one crosses it, and the anomaly that says so. -/
def Overlap (kept : List (Marker κ)) (a : Anomaly) (m : Marker κ) : Prop :=
  ∃ outer ∈ kept, outer.crosses m = true ∧ a = .overlapping m.id outer.id

/-- What a run of the pass over `ms` makes of a layout: the naive layout behind what it
holds already, and an anomaly for each marker that is left out. -/
structure Run (l l' : Layout κ) (ms : List (Marker κ)) : Prop where
  family : l'.family = naiveLayout l.family ms
  kept : ∀ q ∈ l.family.map Prod.fst, q ∈ l'.family.map Prod.fst
  left_out : ∃ dropped anomalies,
    (l'.family.map Prod.fst ++ dropped).Perm (l.family.map Prod.fst ++ ms) ∧
    l'.anomalies = l.anomalies ++ anomalies ∧
    List.Forall₂ (Overlap (l'.family.map Prod.fst)) anomalies dropped

/-- A step that drops a marker, and a run after it. -/
theorem Run.drop {l l₁ l' : Layout κ} {m : Marker κ} {ms : List (Marker κ)} (hrun : Run l₁ l' ms)
    {outer : Marker κ} (houter : outer ∈ l.family.map Prod.fst) (hcrosses : outer.crosses m = true)
    (hfamily : l₁.family = l.family)
    (hanomalies : l₁.anomalies = l.anomalies ++ [.overlapping m.id outer.id]) :
    Run l l' (m :: ms) := by
  have hany : l.family.any (fun k => k.1.crosses m) = true := by
    obtain ⟨k, hk, rfl⟩ := List.mem_map.mp houter
    exact List.any_eq_true.mpr ⟨k, hk, hcrosses⟩
  obtain ⟨dropped, anomalies, hperm, hlist, hall⟩ := hrun.left_out
  refine ⟨?_, hfamily ▸ hrun.kept, m :: dropped, .overlapping m.id outer.id :: anomalies, ?_, ?_, ?_⟩
  · rw [hrun.family, hfamily, naiveLayout, if_pos hany]
  · rw [hfamily] at hperm
    exact List.perm_middle.trans ((hperm.cons m).trans List.perm_middle.symm)
  · rw [hlist, hanomalies, List.append_assoc]
    rfl
  · exact .cons ⟨outer, (hfamily ▸ hrun.kept) outer houter, hcrosses, rfl⟩ hall

/-- A step that keeps a marker, and a run after it. -/
theorem Run.keep {l l₁ l' : Layout κ} {m : Marker κ} {ms : List (Marker κ)} (hrun : Run l₁ l' ms)
    (hnone : ∀ q ∈ l.family.map Prod.fst, q.crosses m = false)
    (hfamily : l₁.family = l.family ++ [(m, innermost? (l.family.map Prod.fst) m)])
    (hanomalies : l₁.anomalies = l.anomalies) : Run l l' (m :: ms) := by
  have hany : ¬ l.family.any (fun k => k.1.crosses m) = true := by
    rw [List.any_eq_true]
    rintro ⟨k, hk, hcrosses⟩
    rw [hnone k.1 (List.mem_map_of_mem hk)] at hcrosses
    cases hcrosses
  obtain ⟨dropped, anomalies, hperm, hlist, hall⟩ := hrun.left_out
  refine ⟨?_, ?_, dropped, anomalies, ?_, ?_, hall⟩
  · rw [hrun.family, hfamily, naiveLayout, if_neg hany]
  · intro q hq
    apply hrun.kept
    rw [hfamily, List.map_append, List.mem_append]
    exact Or.inl hq
  · rw [hfamily] at hperm
    simpa using hperm
  · rw [hlist, hanomalies]

/-- **The pass over markers in order is the naive layout**, and the invariant holds after
it. -/
theorem Sound.foldl_place {count : Nat} {ms : List (Marker κ)} {l : Layout κ} {position : Nat}
    (h : l.Sound position) (hposition : position ≤ count)
    (hleads : ∀ q ∈ l.family.map Prod.fst, ∀ m ∈ ms, q.Leads m)
    (hms : ∀ m ∈ ms, position ≤ m.start ∧ m.start ≤ m.stop ∧ m.stop ≤ count)
    (hordered : ms.Pairwise Marker.Leads) :
    Run l (ms.foldl Layout.place l) ms ∧
      ∃ position', position' ≤ count ∧ (ms.foldl Layout.place l).Sound position' := by
  induction ms generalizing l position with
  | nil => exact ⟨⟨rfl, fun q hq => hq, [], [], by simp, by simp, .nil⟩, position, hposition, h⟩
  | cons m ms ih =>
      obtain ⟨hstart, hm, hcount⟩ := hms m List.mem_cons_self
      obtain ⟨hfirst, hordered⟩ := List.pairwise_cons.mp hordered
      obtain ⟨hsound, hstep⟩ := h.place hstart hm (fun q hq => hleads q hq m List.mem_cons_self)
      have hms' : ∀ n ∈ ms, m.start ≤ n.start ∧ n.start ≤ n.stop ∧ n.stop ≤ count := by
        intro n hn
        obtain ⟨_, hle, hfit⟩ := hms n (List.mem_cons_of_mem _ hn)
        refine ⟨?_, hle, hfit⟩
        rcases hfirst n hn with hlt | ⟨heq, _⟩ <;> omega
      have hold : ∀ q ∈ l.family.map Prod.fst, ∀ n ∈ ms, q.Leads n :=
        fun q hq n hn => hleads q hq n (List.mem_cons_of_mem _ hn)
      rw [List.foldl_cons]
      rcases hstep with ⟨outer, houter, hcrosses, hfamily, hanomalies⟩ |
        ⟨hnone, hfamily, hanomalies⟩
      · obtain ⟨hrun, hend⟩ := ih hsound (by omega) (hfamily ▸ hold) hms' hordered
        exact ⟨hrun.drop houter hcrosses hfamily hanomalies, hend⟩
      · have hleads' : ∀ q ∈ (l.place m).family.map Prod.fst, ∀ n ∈ ms, q.Leads n := by
          intro q hq n hn
          rw [hfamily, List.map_append, List.mem_append] at hq
          rcases hq with hq | hq
          · exact hold q hq n hn
          · obtain rfl := List.mem_singleton.mp hq
            exact hfirst n hn
        obtain ⟨hrun, hend⟩ := ih hsound (by omega) hleads' hms' hordered
        exact ⟨hrun.keep hnone hfamily hanomalies, hend⟩

/-- Closing all open markers keeps the family and the anomalies, and leaves one row. -/
theorem Sound.closeAll {count : Nat} {l : Layout κ} {position : Nat} (h : l.Sound position)
    (hposition : position ≤ count) (hcount : ∀ q ∈ l.family.map Prod.fst, q.stop ≤ count) :
    l.closeAll.family = l.family ∧ l.closeAll.anomalies = l.anomalies ∧ l.closeAll.chain = [] ∧
      Plot.Row 0 count l.closeAll.roots := by
  obtain ⟨⟨hfamily, hanomalies, hnested, stop, hstop, hrows⟩, hchain⟩ := closeAll_induction
    (fun l' => l'.family = l.family ∧ l'.anomalies = l.anomalies ∧
      (l'.chain.map Prod.fst).Pairwise (fun inner outer => outer.contains inner = true) ∧
      ∃ stop, stop ≤ count ∧ Rows l'.roots stop l'.chain)
    (by
      intro l' f rest hchain hl'
      obtain ⟨hfamily, hanomalies, hnested, stop, hstop, hrows⟩ := hl'
      have hf : f.1 ∈ l.family.map Prod.fst := by
        rw [← hfamily, mem_map_fst_family, hchain]
        exact Or.inr List.mem_cons_self
      refine ⟨by rw [family_closeTop, hfamily], by rw [anomalies_closeTop, hanomalies], ?_,
        f.1.stop, hcount f.1 hf, hrows.closeTop hchain hnested⟩
      rw [map_fst_chain_closeTop]
      exact hnested.tail)
    l
    (by
      obtain ⟨stop, hstop, hrows⟩ := h.rows
      exact ⟨rfl, rfl, h.nested, stop, by omega, hrows⟩)
  rw [hchain] at hrows
  exact ⟨hfamily, hanomalies, hchain, Plot.Row.mono hrows hstop⟩

/-- **The one-pass layout is the naive layout.**  For markers in order that fit the tokens it
keeps the same markers and puts each into the same one; the plots form rows; and the
anomalies are those of the markers left out, one for each. -/
theorem ofArranged_naive {count : Nat} {ms : List (Marker κ)}
    (hms : ∀ m ∈ ms, m.start ≤ m.stop ∧ m.stop ≤ count) (hordered : ms.Pairwise Marker.Leads) :
    Plot.families none (ofArranged ms).roots = naiveLayout [] ms ∧
      Plot.Row 0 count (ofArranged ms).roots ∧
      Accounted (Overlap (Plot.markers (ofArranged ms).roots)) ms
        (Plot.markers (ofArranged ms).roots) (ofArranged ms).anomalies := by
  have hempty : (empty : Layout κ).Sound 0 := ⟨by simp [empty], by simp [empty, closedMarkers],
    0, Nat.le_refl _, Nat.le_refl _⟩
  obtain ⟨hrun, position, hposition, hsound⟩ := hempty.foldl_place (Nat.zero_le count)
    (by simp [empty, family, chainFamily, Plot.families])
    (fun m hm => ⟨Nat.zero_le _, hms m hm⟩) hordered
  obtain ⟨dropped, anomalies, hperm, hanomalies, hall⟩ := hrun.left_out
  have hnil : (empty : Layout κ).family = [] := rfl
  rw [hnil, List.map_nil, List.nil_append] at hperm
  have hcount : ∀ q ∈ (ms.foldl place empty).family.map Prod.fst, q.stop ≤ count := by
    intro q hq
    exact (hms q (hperm.subset (List.mem_append_left _ hq))).2
  obtain ⟨hfamily, hanomalies', hchain, hrow⟩ := hsound.closeAll hposition hcount
  have hroots : Plot.families none (ofArranged ms).roots = (ms.foldl place empty).family := by
    rw [← hfamily, family, hchain, chainFamily, List.append_nil]
    rfl
  have hmarkers : Plot.markers (ofArranged ms).roots =
      (ms.foldl place empty).family.map Prod.fst := by
    rw [Plot.markers, hroots]
  refine ⟨by rw [hroots, hrun.family, hnil], hrow, dropped, by rwa [hmarkers], ?_⟩
  have hlist : (ofArranged ms).anomalies = anomalies := by
    rw [ofArranged, hanomalies', hanomalies]
    rfl
  rwa [hmarkers, hlist]

end Layout

end Lossless
