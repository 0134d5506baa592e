import Lossless.Proofs.Cursor
import Lossless.Proofs.Replay

/-!
# Forests in which every element has a token of its own

What a grammar marks is a forest of plots, and mostly each element of it has a significant
token that belongs to no element inside: an operator, a bracket, the only token of an atom.
Such a plot is `Rooted`.  No two rooted plots cover the same tokens, and this does not depend
on trivia: **it stays so if token indices are counted in another way that goes up at every
significant token** (`Rooted.strict`).

A wrapper may have no token of its own.  If it was opened to wrap the first plot inside of it,
the builder still knows where it belongs, so a row of such plots is laid out as it is
(`plots_eq_of_grounded`).
-/

namespace Lossless

variable {κ : Type}

/-! ## Other token indices -/

/-- The marker with its ends counted in another way. -/
def Marker.rebase (φ : Nat → Nat) (m : Marker κ) : Marker κ :=
  { m with start := φ m.start, stop := φ m.stop }

/-- A way to count tokens: in order, and up at every significant one. -/
structure Climbs (tokens : Array Token) (φ : Nat → Nat) : Prop where
  mono : ∀ {i j : Nat}, i ≤ j → φ i ≤ φ j
  lt_succ : ∀ {i : Nat}, i < tokens.size → (tokenIn tokens i).isTrivia = false → φ i < φ (i + 1)

theorem climbs_id (tokens : Array Token) : Climbs tokens id :=
  ⟨id, fun _ _ => Nat.lt_succ_self _⟩

namespace Plot

mutual

/-- The plot with all ends counted in another way. -/
def rebase (φ : Nat → Nat) : Plot κ → Plot κ
  | .mk m inner => .mk (m.rebase φ) (rebaseAll φ inner)

/-- The plots with all ends counted in another way. -/
def rebaseAll (φ : Nat → Nat) : List (Plot κ) → List (Plot κ)
  | [] => []
  | p :: ps => p.rebase φ :: rebaseAll φ ps

end

theorem rebaseAll_eq_map (φ : Nat → Nat) (ps : List (Plot κ)) :
    rebaseAll φ ps = ps.map (rebase φ) := by
  induction ps with
  | nil => rfl
  | cons p ps ih => rw [rebaseAll, ih, List.map_cons]

theorem rebase_mk (φ : Nat → Nat) (m : Marker κ) (inner : List (Plot κ)) :
    (mk m inner).rebase φ = mk (m.rebase φ) (inner.map (rebase φ)) := by
  rw [rebase, rebaseAll_eq_map]

@[simp] theorem marker_rebase (φ : Nat → Nat) (p : Plot κ) :
    (p.rebase φ).marker = p.marker.rebase φ := by
  cases p
  rfl

mutual

theorem rebase_id : ∀ p : Plot κ, p.rebase id = p
  | .mk m inner => by
      rw [rebase, rebaseAll_id inner]
      rfl

theorem rebaseAll_id : ∀ ps : List (Plot κ), rebaseAll id ps = ps
  | [] => rfl
  | p :: ps => by rw [rebaseAll, rebase_id p, rebaseAll_id ps]

end

mutual

theorem markers_rebase (φ : Nat → Nat) : ∀ p : Plot κ,
    markers [p.rebase φ] = (markers [p]).map (Marker.rebase φ)
  | .mk m inner => by
      rw [rebase, markers_cons, markers_cons, markers_nil, List.append_nil, List.append_nil,
        markers_rebaseAll φ inner, List.map_cons]

/-- The markers of plots are counted in the new way. -/
theorem markers_rebaseAll (φ : Nat → Nat) : ∀ ps : List (Plot κ),
    markers (rebaseAll φ ps) = (markers ps).map (Marker.rebase φ)
  | [] => rfl
  | p :: ps => by
      rw [rebaseAll, ← List.singleton_append, ← @List.singleton_append _ p ps, markers_append,
        markers_append, markers_rebase φ p, markers_rebaseAll φ ps, List.map_append]

end

/-! ## Tokens of their own -/

/-- A plot begins with a significant token, and has one that none of the plots inside of it
covers; so does each plot inside of it. -/
inductive Rooted (tokens : Array Token) : Plot κ → Prop
  | mk {m : Marker κ} {inner : List (Plot κ)} {i : Nat}
      (hfirst : (tokenIn tokens m.start).isTrivia = false) (hlt : i < tokens.size)
      (hsignificant : (tokenIn tokens i).isTrivia = false) (hcovers : m.covers i = true)
      (hown : ∀ p ∈ inner, p.marker.covers i = false) (hinner : ∀ p ∈ inner, Rooted tokens p) :
      Rooted tokens (.mk m inner)

theorem Rooted.first {tokens : Array Token} {p : Plot κ} (h : p.Rooted tokens) :
    (tokenIn tokens p.marker.start).isTrivia = false := by
  cases h with
  | mk hfirst => exact hfirst

theorem Row.tidy {start stop : Nat} {ps : List (Plot κ)} (h : Row start stop ps) {p : Plot κ}
    (hp : p ∈ ps) : p.Tidy := by
  induction ps generalizing start with
  | nil => cases hp
  | cons q ps ih =>
      obtain ⟨_, htidy, hrow⟩ := h
      rcases List.mem_cons.mp hp with rfl | hp
      · exact htidy
      · exact ih hrow hp

theorem Row.append {i j k : Nat} {ps qs : List (Plot κ)} (h : Row i j ps) (h' : Row j k qs) :
    Row i k (ps ++ qs) := by
  induction ps generalizing i with
  | nil =>
      cases qs with
      | nil => exact Nat.le_trans h h'
      | cons q qs => exact ⟨Nat.le_trans h h'.1, h'.2⟩
  | cons p ps ih => exact ⟨h.1, h.2.1, ih h.2.2⟩

theorem Row.mono_start {i j k : Nat} {ps : List (Plot κ)} (h : Row j k ps) (hij : i ≤ j) :
    Row i k ps :=
  @Row.append κ i j k [] ps hij h

section Rebased

variable {tokens : Array Token} {φ : Nat → Nat} {p : Plot κ} {ps : List (Plot κ)} {start stop : Nat}

theorem Row.rebase_strict (hφ : Climbs tokens φ) (hrow : Row start stop ps)
    (hstrict : ∀ p ∈ ps, (p.rebase φ).Strict) :
    StrictRow (φ start) (φ stop) (ps.map (rebase φ)) := by
  induction ps generalizing start with
  | nil => exact hφ.mono hrow
  | cons p ps ih =>
      obtain ⟨hstart, _, hrow⟩ := hrow
      obtain ⟨hfirst, hrest⟩ := List.forall_mem_cons.mp hstrict
      have hlater := ih hrow hrest
      refine ⟨?_, hfirst, ?_⟩
      · rw [marker_rebase]
        exact hφ.mono hstart
      · rw [marker_rebase]
        exact hlater

/-- **A rooted plot covers something, and more than each plot inside of it**, however tokens
are counted. -/
theorem Rooted.strict (hφ : Climbs tokens φ) (h : p.Rooted tokens) (htidy : p.Tidy) :
    (p.rebase φ).Strict := by
  induction h with
  | @mk m inner i _ hlt hsignificant hcovers hown _ ih =>
      have hup := hφ.lt_succ hlt hsignificant
      simp only [Marker.covers, Bool.and_eq_true, decide_eq_true_eq] at hcovers
      have hstart : φ m.start ≤ φ i := hφ.mono hcovers.1
      have hstop : φ (i + 1) ≤ φ m.stop := hφ.mono hcovers.2
      rw [rebase_mk]
      refine ⟨?_, ?_, Row.rebase_strict hφ htidy.2 fun p hp => ih p hp (htidy.2.tidy hp)⟩
      · show φ m.start < φ m.stop
        omega
      · intro q hq
        obtain ⟨p, hp, rfl⟩ := List.mem_map.mp hq
        -- the token is in front of the plot inside, or behind it
        have hout : i < p.marker.start ∨ p.marker.stop ≤ i := by
          have hnot := hown p hp
          simp only [Marker.covers, Bool.and_eq_false_iff, decide_eq_false_iff_not] at hnot
          omega
        rw [marker_rebase, Bool.eq_false_iff, Ne, Marker.sameRange_iff]
        show ¬ (φ m.start = φ p.marker.start ∧ φ m.stop = φ p.marker.stop)
        rcases hout with hfront | hbehind
        · have hle : φ (i + 1) ≤ φ p.marker.start := hφ.mono hfront
          omega
        · have hle : φ p.marker.stop ≤ φ i := hφ.mono hbehind
          omega

theorem Rooted.isStrict (h : p.Rooted tokens) (htidy : p.Tidy) : p.Strict := by
  have hstrict := h.strict (climbs_id tokens) htidy
  rwa [rebase_id] at hstrict

end Rebased

end Plot

/-! ## Wrappers over the same tokens -/

/-- Arranging keeps markers that cover other tokens than all those behind them. -/
theorem arrangeSorted_append {ms ns : List (Marker κ)} (rounds : Nat)
    (hdistinct : ms.Pairwise fun m n => m.sameRange n = false)
    (hothers : ∀ m ∈ ms, ∀ n ∈ ns, m.sameRange n = false) :
    arrangeSorted (ms.length + rounds) (ms ++ ns) =
      (ms ++ (arrangeSorted rounds ns).1, (arrangeSorted rounds ns).2) := by
  induction ms with
  | nil => simp
  | cons m ms ih =>
      obtain ⟨hfirst, hdistinct⟩ := List.pairwise_cons.mp hdistinct
      obtain ⟨hothers₁, hothers⟩ := List.forall_mem_cons.mp hothers
      have hnone : (ms ++ ns).takeWhile m.sameRange = [] ∧
          (ms ++ ns).dropWhile m.sameRange = ms ++ ns := by
        have hall := List.forall_mem_append.mpr ⟨hfirst, hothers₁⟩
        cases hrow : ms ++ ns with
        | nil => exact ⟨rfl, rfl⟩
        | cons n rest => simp [hall n (by rw [hrow]; exact List.mem_cons_self)]
      rw [List.length_cons, Nat.add_right_comm, List.cons_append, arrangeSorted, hnone.1, hnone.2,
        ih hdistinct hothers]
      rfl

namespace Plot

/-- A strict plot, or a wrapper over all tokens of one, which it was opened to precede. -/
inductive Snug : Plot κ → Prop
  | strict {p : Plot κ} (h : p.Strict) : Snug p
  | wrapper {m : Marker κ} {p : Plot κ} (h : p.Strict) (hsame : p.marker.sameRange m = true)
      (hprecedes : m.precedes = some p.marker.id) (hid : p.marker.id < m.id) : Snug (.mk m [p])

/-- The markers of a snug plot cover something, and lie inside of it. -/
theorem Snug.within {p : Plot κ} (h : p.Snug) : ∀ n ∈ markers [p],
    p.marker.start ≤ n.start ∧ n.start < n.stop ∧ n.stop ≤ p.marker.stop := by
  cases h with
  | strict h => exact h.within
  | @wrapper m p h hsame _ _ =>
      intro n hn
      have hrange := (Marker.sameRange_iff _ _).mp hsame
      have hopen := h.start_lt_stop
      rw [markers_cons, markers_nil, List.append_nil] at hn
      show m.start ≤ n.start ∧ n.start < n.stop ∧ n.stop ≤ m.stop
      rcases List.mem_cons.mp hn with rfl | hn
      · omega
      · have hinside := h.within n hn
        omega

/-- Markers are in the order of a layout, and arranging puts them as they stand in plots. -/
structure Sorts (ps : List (Plot κ)) (sorted : List (Marker κ)) : Prop where
  perm : sorted.Perm (markers ps)
  ordered : sorted.Pairwise fun m n => m.layoutLe n = true
  arranged : ∀ rounds, sorted.length ≤ rounds → arrangeSorted rounds sorted = (markers ps, [])

theorem sorts_nil : Sorts ([] : List (Plot κ)) [] :=
  ⟨.refl _, .nil, fun rounds _ => by cases rounds <;> rfl⟩

section Rows

variable {p : Plot κ} {ps : List (Plot κ)} {sorted : List (Marker κ)}

/-- A strict plot in front of others. -/
theorem Sorts.strict (h : Sorts ps sorted) (hp : p.Strict)
    (hbehind : ∀ n ∈ sorted, p.marker.stop ≤ n.start) :
    Sorts (p :: ps) (markers [p] ++ sorted) := by
  have hfront : ∀ m ∈ markers [p], ∀ n ∈ sorted, m.Precedes n := by
    intro m hm n hn
    have hinside := hp.within m hm
    have hlater := hbehind n hn
    exact Or.inl (by omega)
  have hsplit : markers (p :: ps) = markers [p] ++ markers ps := by
    rw [← markers_append, List.singleton_append]
  refine ⟨?_, ?_, ?_⟩
  · rw [hsplit]
    exact h.perm.append_left _
  · exact List.pairwise_append.mpr ⟨hp.ordered.imp Marker.Precedes.layoutLe, h.ordered,
      fun m hm n hn => (hfront m hm n hn).layoutLe⟩
  · intro rounds hrounds
    obtain ⟨rest, rfl⟩ : ∃ rest, rounds = (markers [p]).length + rest :=
      ⟨rounds - (markers [p]).length, by rw [List.length_append] at hrounds; omega⟩
    have hrest := h.arranged rest (by rw [List.length_append] at hrounds; omega)
    rw [arrangeSorted_append rest (hp.ordered.imp Marker.Precedes.sameRange)
      (fun m hm n hn => (hfront m hm n hn).sameRange), hrest, hsplit]

/-- A wrapper of a strict plot in front of others: of the two over the same tokens the wrapper
has the larger number, so it is sorted behind the other and then put in front of it. -/
theorem Sorts.wrapper (h : Sorts ps sorted) (hp : p.Strict) {m : Marker κ}
    (hsame : p.marker.sameRange m = true) (hprecedes : m.precedes = some p.marker.id)
    (hid : p.marker.id < m.id) (hbehind : ∀ n ∈ sorted, m.stop ≤ n.start) :
    Sorts (.mk m [p] :: ps) (p.marker :: m :: (markers p.inner ++ sorted)) := by
  obtain ⟨base, inner⟩ := p
  simp only [marker, Plot.inner] at hsame hprecedes hid ⊢
  have hrange := (Marker.sameRange_iff _ _).mp hsame
  have hmarkers : markers [.mk base inner] = base :: markers inner := by
    rw [markers_cons, markers_nil, List.append_nil]
  have hwithin := hp.within
  have hordered := hp.ordered
  rw [hmarkers] at hwithin hordered
  obtain ⟨hbase, hinner⟩ := List.pairwise_cons.mp hordered
  have hopen := (hwithin base List.mem_cons_self).2.1
  have hfirst : ∀ n ∈ markers inner ++ sorted, base.Precedes n ∧ m.Precedes n := by
    intro n hn
    simp only [Marker.Precedes]
    rcases List.mem_append.mp hn with hn | hn
    · have hlt := hbase n hn
      simp only [Marker.Precedes] at hlt
      omega
    · have hlater := hbehind n hn
      omega
  have hlater : ∀ n ∈ markers inner, ∀ k ∈ sorted, n.Precedes k := by
    intro n hn k hk
    have hinside : n.start < n.stop ∧ n.stop ≤ base.stop :=
      (hwithin n (List.mem_cons_of_mem _ hn)).2
    have hk := hbehind k hk
    exact Or.inl (by omega)
  refine ⟨?_, ?_, ?_⟩
  · rw [markers_cons, hmarkers]
    exact (List.Perm.swap _ _ _).trans (((h.perm.append_left _).cons _).cons _)
  · refine List.pairwise_cons.mpr
      ⟨List.forall_mem_cons.mpr ⟨?_, fun n hn => (hfirst n hn).1.layoutLe⟩,
      List.pairwise_cons.mpr ⟨fun n hn => (hfirst n hn).2.layoutLe, List.pairwise_append.mpr
        ⟨hinner.imp Marker.Precedes.layoutLe, h.ordered,
          fun n hn k hk => (hlater n hn k hk).layoutLe⟩⟩⟩
    simp only [Marker.layoutLe, Bool.or_eq_true, Bool.and_eq_true, decide_eq_true_eq, beq_iff_eq]
    omega
  · intro rounds hrounds
    simp only [List.length_cons, List.length_append] at hrounds
    obtain ⟨rest, rfl⟩ : ∃ rest, rounds = (markers inner).length + rest + 1 :=
      ⟨rounds - (markers inner).length - 1, by omega⟩
    have hrest := h.arranged rest (by omega)
    have hgroup : (m :: (markers inner ++ sorted)).takeWhile base.sameRange = [m] ∧
        (m :: (markers inner ++ sorted)).dropWhile base.sameRange = markers inner ++ sorted := by
      cases hrow : markers inner ++ sorted with
      | nil => simp [hsame]
      | cons n ns => simp [hsame, (hfirst n (by rw [hrow]; exact List.mem_cons_self)).1.sameRange]
    have hothers := arrangeSorted_append rest (hinner.imp Marker.Precedes.sameRange)
      (fun n hn k hk => (hlater n hn k hk).sameRange)
    rw [arrangeSorted, hgroup.1, hgroup.2, hothers, hrest]
    simp [chain, hprecedes, hmarkers]

/-- A row of snug plots can be put in the order of a layout. -/
theorem Row.sorts {start stop : Nat} (hrow : Row start stop ps) (hsnug : ∀ p ∈ ps, p.Snug) :
    ∃ sorted, Sorts ps sorted ∧
      ∀ n ∈ sorted, start ≤ n.start ∧ n.start < n.stop ∧ n.stop ≤ stop := by
  induction ps generalizing start with
  | nil => exact ⟨[], sorts_nil, by simp⟩
  | cons p ps ih =>
      obtain ⟨hstart, htidy, hrow⟩ := hrow
      obtain ⟨hfirst, hrest⟩ := List.forall_mem_cons.mp hsnug
      obtain ⟨sorted, hsorted, hbounds⟩ := ih hrow hrest
      have hbehind : ∀ n ∈ sorted, p.marker.stop ≤ n.start := fun n hn => (hbounds n hn).1
      have hsorts : ∃ sorted', Sorts (p :: ps) sorted' := by
        cases hfirst with
        | strict h => exact ⟨_, hsorted.strict h hbehind⟩
        | wrapper h hsame hprecedes hid =>
            exact ⟨_, hsorted.wrapper h hsame hprecedes hid hbehind⟩
      obtain ⟨sorted', hsorts⟩ := hsorts
      refine ⟨sorted', hsorts, ?_⟩
      intro n hn
      have hmem := hsorts.perm.mem_iff.mp hn
      rw [← List.singleton_append, markers_append] at hmem
      have hle := htidy.le
      have hstop := hrow.le
      rcases List.mem_append.mp hmem with hmem | hmem
      · have hinside := hfirst.within n hmem
        omega
      · have hinside := hbounds n (hsorted.perm.mem_iff.mpr hmem)
        omega

end Rows

end Plot

/-- **A row of snug plots is laid out as it is**, whatever the order of its markers. -/
theorem plots_eq_of_snug {count : Nat} {ps : List (Plot κ)} {ms : List (Marker κ)}
    (hrow : Plot.Row 0 count ps) (hsnug : ∀ p ∈ ps, p.Snug) (hperm : ms.Perm (Plot.markers ps))
    (hnodup : (ms.map (·.id)).Nodup) : plots count ms = (ps, []) := by
  obtain ⟨sorted, hsorts, hbounds⟩ := hrow.sorts hsnug
  have hfits : ∀ m ∈ sorted, m.fits count = true := by
    intro m hm
    have hbound := hbounds m hm
    rw [Marker.fits_iff]
    omega
  have hforest := Layout.ofArranged_markers hrow
    (fun m hm => (hbounds m (hsorts.perm.mem_iff.mpr hm)).2.1)
  rw [plots_eq_of_sorted (hperm.trans hsorts.perm.symm) hfits hnodup hsorts.ordered
    (hsorts.arranged _ (Nat.le_refl _)), hforest]

/-! ## Wrappers in a forest -/

namespace Plot

mutual

theorem Tidy.rebase {tokens : Array Token} {φ : Nat → Nat} (hφ : Climbs tokens φ) :
    ∀ {p : Plot κ}, p.Tidy → (p.rebase φ).Tidy
  | .mk _ _, ⟨hle, hrow⟩ => by
      rw [rebase_mk]
      exact ⟨hφ.mono hle, hrow.rebase hφ⟩

theorem Row.rebase {tokens : Array Token} {φ : Nat → Nat} (hφ : Climbs tokens φ) :
    ∀ {ps : List (Plot κ)} {start stop : Nat}, Row start stop ps →
      Row (φ start) (φ stop) (ps.map (Plot.rebase φ))
  | [], _, _, hle => hφ.mono hle
  | p :: ps, _, _, ⟨hstart, htidy, hrow⟩ => by
      refine ⟨?_, htidy.rebase hφ, ?_⟩
      · rw [marker_rebase]
        exact hφ.mono hstart
      · rw [marker_rebase]
        exact hrow.rebase hφ

end

/-- A rooted plot, or a wrapper of a certain kind around rooted plots, opened to wrap the first
of them. -/
inductive Grounded (wrapper : κ) (tokens : Array Token) : Plot κ → Prop
  | rooted {p : Plot κ} (h : p.Rooted tokens) : Grounded wrapper tokens p
  | wraps {m : Marker κ} {p : Plot κ} {rest : List (Plot κ)} (hkind : m.kind = wrapper)
      (hprecedes : m.precedes = some p.marker.id) (hid : p.marker.id < m.id)
      (hstart : m.start = p.marker.start) (hinner : ∀ q ∈ p :: rest, q.Rooted tokens) :
      Grounded wrapper tokens (.mk m (p :: rest))

section Grounding

variable {wrapper : κ} {tokens : Array Token} {φ : Nat → Nat}

/-- However tokens are counted, a wrapper covers more than the first plot inside of it, or that
plot is the only one. -/
theorem Grounded.snug (hφ : Climbs tokens φ) {p : Plot κ} (h : p.Grounded wrapper tokens)
    (htidy : p.Tidy) : (p.rebase φ).Snug := by
  cases h with
  | rooted h => exact .strict (h.strict hφ htidy)
  | @wraps m p rest _ hprecedes hid hstart hinner =>
      obtain ⟨_, hrow⟩ := htidy
      have hstrict : ∀ q ∈ p :: rest, (q.rebase φ).Strict := fun q hq =>
        (hinner q hq).strict hφ (hrow.tidy hq)
      have hfirst := hstrict p List.mem_cons_self
      have hopen := hfirst.start_lt_stop
      rw [marker_rebase] at hopen
      change φ p.marker.start < φ p.marker.stop at hopen
      have hstop : φ p.marker.stop ≤ φ m.stop := hφ.mono (hrow.mem List.mem_cons_self).2
      have hbehind : ∀ q ∈ rest, φ p.marker.stop ≤ φ q.marker.start ∧
          φ q.marker.start < φ q.marker.stop ∧ φ q.marker.stop ≤ φ m.stop := by
        intro q hq
        have hlt := (hstrict q (List.mem_cons_of_mem _ hq)).start_lt_stop
        rw [marker_rebase] at hlt
        exact ⟨hφ.mono (hrow.2.2.mem hq).1, hlt, hφ.mono (hrow.2.2.mem hq).2⟩
      by_cases hsame : φ p.marker.stop = φ m.stop
      · have halone : rest = [] := by
          cases rest with
          | nil => rfl
          | cons q rest =>
              have hq := hbehind q List.mem_cons_self
              omega
        subst halone
        rw [rebase_mk]
        refine .wrapper hfirst ?_ ?_ ?_
        · rw [marker_rebase, Marker.sameRange_iff]
          exact ⟨congrArg φ hstart.symm, hsame⟩
        · rwa [marker_rebase]
        · rwa [marker_rebase]
      · rw [rebase_mk]
        refine .strict ⟨?_, ?_, hrow.rebase_strict hφ hstrict⟩
        · show φ m.start < φ m.stop
          rw [hstart]
          omega
        · intro q' hq'
          obtain ⟨q, hq, rfl⟩ := List.mem_map.mp hq'
          rw [marker_rebase, Bool.eq_false_iff, Ne, Marker.sameRange_iff]
          show ¬ (φ m.start = φ q.marker.start ∧ φ m.stop = φ q.marker.stop)
          rcases List.mem_cons.mp hq with rfl | hq
          · exact fun h => hsame h.2.symm
          · have hq := hbehind q hq
            rw [hstart]
            omega

theorem Grounded.isSnug {p : Plot κ} (h : p.Grounded wrapper tokens) (htidy : p.Tidy) :
    p.Snug := by
  have hsnug := h.snug (climbs_id tokens) htidy
  rwa [rebase_id] at hsnug

/-- **Two markers of a grounded row cover the same tokens only if one is a wrapper that
precedes the other.** -/
theorem Row.sameRange_of_grounded {ps : List (Plot κ)} {start stop : Nat} (hrow : Row start stop ps)
    (hgrounded : ∀ p ∈ ps, p.Grounded wrapper tokens) :
    (markers ps).Pairwise fun m n =>
      m.sameRange n = true → m.kind = wrapper ∧ m.precedes = some n.id := by
  have hdiffer : ∀ {m n : Marker κ}, m.Precedes n →
      m.sameRange n = true → m.kind = wrapper ∧ m.precedes = some n.id := by
    intro m n hprecedes hsame
    rw [hprecedes.sameRange] at hsame
    cases hsame
  induction ps generalizing start with
  | nil => exact .nil
  | cons p ps ih =>
      obtain ⟨_, htidy, hrow⟩ := hrow
      obtain ⟨hfirst, hrest⟩ := List.forall_mem_cons.mp hgrounded
      have hsnug := hfirst.isSnug htidy
      obtain ⟨sorted, hsorts, hbounds⟩ := hrow.sorts fun q hq =>
        (hrest q hq).isSnug (hrow.tidy hq)
      rw [← List.singleton_append, markers_append]
      refine List.pairwise_append.mpr ⟨?_, ih hrow hrest, ?_⟩
      · cases hfirst with
        | rooted h => exact (h.isStrict htidy).ordered.imp hdiffer
        | @wraps m p rest hkind hprecedes _ hstart hinner =>
            have hinside := htidy.2
            have hopen := ((hinner p List.mem_cons_self).isStrict hinside.2.1).start_lt_stop
            have hordered : StrictRow m.start m.stop (p :: rest) := by
              have h := hinside.rebase_strict (climbs_id tokens) (fun q hq =>
                (hinner q hq).strict (climbs_id tokens) (hinside.tidy hq))
              rwa [← rebaseAll_eq_map, rebaseAll_id] at h
            have hpairs := hordered.ordered
            obtain ⟨base, inner⟩ := p
            rw [markers_cons, markers_nil, List.append_nil]
            refine List.pairwise_cons.mpr ⟨?_, hpairs.imp hdiffer⟩
            intro n hn hsame
            rw [markers_cons] at hn hpairs
            have hrange := (Marker.sameRange_iff _ _).mp hsame
            have hbase : base.stop ≤ m.stop := (hinside.mem List.mem_cons_self).2
            rcases List.mem_cons.mp hn with rfl | hn
            · exact ⟨hkind, hprecedes⟩
            · -- any other marker inside begins later, or ends before the first one does
              have hlt := (List.pairwise_cons.mp hpairs).1 n hn
              simp only [Marker.Precedes, marker] at hlt hstart
              omega
      · intro m hm n hn
        have hinside := hsnug.within m hm
        have hlater := hbounds n (hsorts.perm.mem_iff.mpr hn)
        exact hdiffer (Or.inl (by omega))

end Grounding

end Plot

/-- **A grounded row is laid out as it is**, whatever the order of its markers. -/
theorem plots_eq_of_grounded {wrapper : κ} {tokens : Array Token} {count : Nat} {ps : List (Plot κ)}
    {ms : List (Marker κ)} (hrow : Plot.Row 0 count ps)
    (hgrounded : ∀ p ∈ ps, p.Grounded wrapper tokens) (hperm : ms.Perm (Plot.markers ps))
    (hnodup : (ms.map (·.id)).Nodup) : plots count ms = (ps, []) :=
  plots_eq_of_snug hrow (fun p hp => (hgrounded p hp).isSnug (hrow.tidy hp)) hperm hnodup

/-- This is so however tokens are counted. -/
theorem plots_rebase_of_grounded {wrapper : κ} {tokens : Array Token} {φ : Nat → Nat}
    (hφ : Climbs tokens φ) {count : Nat} {ps : List (Plot κ)} {ms : List (Marker κ)}
    (hrow : Plot.Row 0 count ps) (hgrounded : ∀ p ∈ ps, p.Grounded wrapper tokens)
    (hperm : ms.Perm (Plot.markers ps)) (hnodup : (ms.map (·.id)).Nodup) :
    plots (φ count) (ms.map (Marker.rebase φ)) = (ps.map (Plot.rebase φ), []) := by
  apply plots_eq_of_snug ((hrow.rebase hφ).mono_start (Nat.zero_le _))
  · intro q hq
    obtain ⟨p, hp, rfl⟩ := List.mem_map.mp hq
    exact (hgrounded p hp).snug hφ (hrow.tidy hp)
  · rw [← Plot.rebaseAll_eq_map, Plot.markers_rebaseAll]
    exact hperm.map _
  · rw [List.map_map]
    exact hnodup

end Lossless
