import Lossless.Operators
import Lossless.Proofs.Cursor
import Lossless.Proofs.Replay

/-!
# Phrases

A phrase is an expression as its operators group it, each part with the marker that a
grammar completes for it.  Three things can be said about a phrase: that its markers stand
where its parts stand among the tokens (`Phrase.Placed`); that its operators respect their
binding powers (`Phrase.Ranked`); and, if it is placed, that **its markers are laid out as the
phrase is nested** (`Phrase.Placed.plots_eq`).
-/

namespace Lossless

/-! ## Tokens that are operators -/

namespace Operators

variable {κ : Type}

theorem kind_ne_eof_of_mayOperate {t : Token} (h : mayOperate t = true) : t.kind ≠ .eof := by
  intro hkind
  simp [mayOperate, hkind] at h

theorem mayOperate_of_before? (ops : Operators κ) {t : Token} {op : UnaryOperator κ}
    (h : ops.before? t = some op) : mayOperate t = true := by
  by_contra hnot
  simp [before?, hnot] at h

theorem mayOperate_of_between? (ops : Operators κ) {t : Token} {op : BinaryOperator κ}
    (h : ops.between? t = some op) : mayOperate t = true := by
  by_contra hnot
  simp [between?, hnot] at h

theorem mayOperate_of_after? (ops : Operators κ) {t : Token} {op : UnaryOperator κ}
    (h : ops.after? t = some op) : mayOperate t = true := by
  by_contra hnot
  simp [after?, hnot] at h

theorem mayOperate_of_ternary? (ops : Operators κ) {t : Token} {op : TernaryOperator κ}
    (h : ops.ternary? t = some op) : mayOperate t = true := by
  by_contra hnot
  simp [ternary?, hnot] at h

theorem kind_ne_eof_of_before? (ops : Operators κ) {t : Token} {op : UnaryOperator κ}
    (h : ops.before? t = some op) : t.kind ≠ .eof :=
  kind_ne_eof_of_mayOperate (ops.mayOperate_of_before? h)

theorem kind_ne_eof_of_between? (ops : Operators κ) {t : Token} {op : BinaryOperator κ}
    (h : ops.between? t = some op) : t.kind ≠ .eof :=
  kind_ne_eof_of_mayOperate (ops.mayOperate_of_between? h)

theorem kind_ne_eof_of_after? (ops : Operators κ) {t : Token} {op : UnaryOperator κ}
    (h : ops.after? t = some op) : t.kind ≠ .eof :=
  kind_ne_eof_of_mayOperate (ops.mayOperate_of_after? h)

theorem kind_ne_eof_of_ternary? (ops : Operators κ) {t : Token} {op : TernaryOperator κ}
    (h : ops.ternary? t = some op) : t.kind ≠ .eof :=
  kind_ne_eof_of_mayOperate (ops.mayOperate_of_ternary? h)

end Operators

/-! ## Phrases and their markers -/

/-- An expression as its operators group it, with its markers. -/
inductive Phrase (κ : Type) where
  | atom (m : Marker κ)
  | before (m : Marker κ) (op : UnaryOperator κ) (operand : Phrase κ)
  | between (m : Marker κ) (op : BinaryOperator κ) (left right : Phrase κ)
  | after (m : Marker κ) (op : UnaryOperator κ) (operand : Phrase κ)
  | ternary (m : Marker κ) (op : TernaryOperator κ) (first second third : Phrase κ)

namespace Phrase

variable {κ : Type}

/-- The marker of the whole phrase. -/
def marker : Phrase κ → Marker κ
  | atom m | before m _ _ | between m _ _ _ | after m _ _ | ternary m _ _ _ _ => m

/-- The phrase as a plot. -/
def plot : Phrase κ → Plot κ
  | atom m => .mk m []
  | before m _ x => .mk m [x.plot]
  | between m _ x y => .mk m [x.plot, y.plot]
  | after m _ x => .mk m [x.plot]
  | ternary m _ x y z => .mk m [x.plot, y.plot, z.plot]

/-- The markers of a phrase, each in front of those inside of it. -/
def markers (p : Phrase κ) : List (Marker κ) :=
  Plot.markers [p.plot]

@[simp] theorem marker_plot (p : Phrase κ) : p.plot.marker = p.marker := by
  cases p <;> rfl

@[simp] theorem markers_atom (m : Marker κ) : (atom m).markers = [m] := by
  simp [markers, plot]

@[simp] theorem markers_before (m : Marker κ) (op : UnaryOperator κ) (x : Phrase κ) :
    (before m op x).markers = m :: x.markers := by
  simp [markers, plot]

@[simp] theorem markers_between (m : Marker κ) (op : BinaryOperator κ) (x y : Phrase κ) :
    (between m op x y).markers = m :: (x.markers ++ y.markers) := by
  rw [markers, markers, markers, ← Plot.markers_append]
  simp [plot]

@[simp] theorem markers_after (m : Marker κ) (op : UnaryOperator κ) (x : Phrase κ) :
    (after m op x).markers = m :: x.markers := by
  simp [markers, plot]

@[simp] theorem markers_ternary (m : Marker κ) (op : TernaryOperator κ) (x y z : Phrase κ) :
    (ternary m op x y z).markers = m :: (x.markers ++ (y.markers ++ z.markers)) := by
  rw [markers, markers, markers, markers, ← Plot.markers_append, ← Plot.markers_append]
  simp [plot]

theorem marker_mem_markers (p : Phrase κ) : p.marker ∈ p.markers := by
  cases p <;> simp [marker]

/-! ## Binding powers -/

/-- The powers of the operators on the left edge of a phrase, each of which takes what is in
front of it as its first operand. -/
def leftPowers : Phrase κ → List Nat
  | atom _ | before _ _ _ => []
  | between _ op x _ => op.power :: x.leftPowers
  | after _ op x => op.power :: x.leftPowers
  | ternary _ op x _ _ => op.power :: x.leftPowers

/-- The least powers with which the operators on the right edge of a phrase read their last
operands. -/
def rightPowers : Phrase κ → List Nat
  | atom _ | after _ _ _ => []
  | before _ op x => op.power :: x.rightPowers
  | between _ op _ y => op.rightPower :: y.rightPowers
  | ternary _ op _ _ z => op.power :: z.rightPowers

/-- The operators of a phrase respect their powers: an operator on the left edge of a last
operand binds tightly enough for it, and one on the right edge of a first operand would
rather have taken the operator that follows, had it bound tightly enough. -/
def Ranked : Phrase κ → Prop
  | atom _ => True
  | before _ op x => (∀ q ∈ x.leftPowers, op.power ≤ q) ∧ x.Ranked
  | between _ op x y =>
    (∀ q ∈ x.rightPowers, op.power < q) ∧ (∀ q ∈ y.leftPowers, op.rightPower ≤ q) ∧
      x.Ranked ∧ y.Ranked
  | after _ op x => (∀ q ∈ x.rightPowers, op.power < q) ∧ x.Ranked
  | ternary _ op x y z =>
    (∀ q ∈ x.rightPowers, op.power < q) ∧ (∀ q ∈ z.leftPowers, op.power ≤ q) ∧
      x.Ranked ∧ y.Ranked ∧ z.Ranked

/-- The operands of a phrase, in order. -/
def operands : Phrase κ → List (Phrase κ)
  | atom _ => []
  | before _ _ x | after _ _ x => [x]
  | between _ _ x y => [x, y]
  | ternary _ _ x y z => [x, y, z]

/-- The first operand of an operator that has something in front of it, and its power. -/
def first? : Phrase κ → Option (Nat × Phrase κ)
  | atom _ | before _ _ _ => none
  | between _ op x _ => some (op.power, x)
  | after _ op x => some (op.power, x)
  | ternary _ op x _ _ => some (op.power, x)

/-- The last operand of an operator that has something behind it, and the least power with
which it is read. -/
def last? : Phrase κ → Option (Nat × Phrase κ)
  | atom _ | after _ _ _ => none
  | before _ op x => some (op.power, x)
  | between _ op _ y => some (op.rightPower, y)
  | ternary _ op _ _ z => some (op.power, z)

/-- What holds of a phrase if it holds of its operands holds of all phrases. -/
theorem induction_on_operands {P : Phrase κ → Prop}
    (h : ∀ p : Phrase κ, (∀ x ∈ p.operands, P x) → P p) (p : Phrase κ) : P p := by
  induction p with
  | atom m => exact h _ (by simp [operands])
  | before m op x ih => exact h _ (by simpa [operands] using ih)
  | between m op x y ihx ihy => exact h _ (by simpa [operands] using ⟨ihx, ihy⟩)
  | after m op x ih => exact h _ (by simpa [operands] using ih)
  | ternary m op x y z ihx ihy ihz => exact h _ (by simpa [operands] using ⟨ihx, ihy, ihz⟩)

theorem plot_eq (p : Phrase κ) : p.plot = .mk p.marker (p.operands.map plot) := by
  cases p <;> rfl

theorem leftPowers_of_first? {p x : Phrase κ} {power : Nat} (h : p.first? = some (power, x)) :
    p.leftPowers = power :: x.leftPowers := by
  cases p <;> cases h <;> rfl

theorem rightPowers_of_last? {p x : Phrase κ} {power : Nat} (h : p.last? = some (power, x)) :
    p.rightPowers = power :: x.rightPowers := by
  cases p <;> cases h <;> rfl

theorem mem_operands_of_first? {p x : Phrase κ} {power : Nat} (h : p.first? = some (power, x)) :
    x ∈ p.operands := by
  cases p <;> cases h <;> simp [operands]

theorem mem_operands_of_last? {p x : Phrase κ} {power : Nat} (h : p.last? = some (power, x)) :
    x ∈ p.operands := by
  cases p <;> cases h <;> simp [operands]

/-- In a ranked phrase an operator binds more loosely than those on the right edge of its first
operand would accept. -/
theorem Ranked.first {p x : Phrase κ} {power : Nat} (h : p.Ranked)
    (hfirst : p.first? = some (power, x)) : ∀ q ∈ x.rightPowers, power < q := by
  cases p with
  | atom m => cases hfirst
  | before m op y => cases hfirst
  | between m op y z =>
      cases hfirst
      exact h.1
  | after m op y =>
      cases hfirst
      exact h.1
  | ternary m op y z w =>
      cases hfirst
      exact h.1

/-- In a ranked phrase the operators on the left edge of a last operand have at least the power
with which it is read. -/
theorem Ranked.last {p x : Phrase κ} {power : Nat} (h : p.Ranked)
    (hlast : p.last? = some (power, x)) : ∀ q ∈ x.leftPowers, power ≤ q := by
  cases p with
  | atom m => cases hlast
  | before m op y =>
      cases hlast
      exact h.1
  | between m op y z =>
      cases hlast
      exact h.2.1
  | after m op y => cases hlast
  | ternary m op y z w =>
      cases hlast
      exact h.2.1

theorem Ranked.operand {p x : Phrase κ} (h : p.Ranked) (hx : x ∈ p.operands) : x.Ranked := by
  cases p <;> simp [operands] at hx <;> simp [Ranked] at h <;> grind

/-! ## Places -/

/-- The markers of a phrase stand where its parts are: an atom is one significant token, and
what an operator has in front of, between and behind its operands is the operator and
trivia. -/
def Placed (ops : Operators κ) (atomKind : Token → κ) (tokens : Array Token) : Phrase κ → Prop
  | atom m => m.start < m.stop ∧
      ∃ t, significantBetween tokens m.start m.stop = [t] ∧ t.kind ≠ .eof ∧ m.kind = atomKind t
  | before m op x => m.start < x.marker.start ∧ m.stop = x.marker.stop ∧ m.kind = op.kind ∧
      (∃ t, significantBetween tokens m.start x.marker.start = [t] ∧ ops.before? t = some op) ∧
      x.Placed ops atomKind tokens
  | between m op x y => m.start = x.marker.start ∧ x.marker.stop < y.marker.start ∧
      m.stop = y.marker.stop ∧ m.kind = op.kind ∧
      (∃ t, significantBetween tokens x.marker.stop y.marker.start = [t] ∧
        ops.between? t = some op) ∧
      x.Placed ops atomKind tokens ∧ y.Placed ops atomKind tokens
  | after m op x => m.start = x.marker.start ∧ x.marker.stop < m.stop ∧ m.kind = op.kind ∧
      (∃ t, significantBetween tokens x.marker.stop m.stop = [t] ∧ ops.after? t = some op) ∧
      x.Placed ops atomKind tokens
  | ternary m op x y z => m.start = x.marker.start ∧ x.marker.stop < y.marker.start ∧
      y.marker.stop < z.marker.start ∧ m.stop = z.marker.stop ∧ m.kind = op.kind ∧
      (∃ t, significantBetween tokens x.marker.stop y.marker.start = [t] ∧
        ops.ternary? t = some op) ∧
      (∃ t, significantBetween tokens y.marker.stop z.marker.start = [t] ∧ t.kind ≠ .eof ∧
        t.text = op.separator) ∧
      x.Placed ops atomKind tokens ∧ y.Placed ops atomKind tokens ∧ z.Placed ops atomKind tokens

variable {ops : Operators κ} {atomKind : Token → κ} {tokens : Array Token}

theorem Placed.operand {p x : Phrase κ} (h : p.Placed ops atomKind tokens)
    (hx : x ∈ p.operands) : x.Placed ops atomKind tokens := by
  cases p <;> simp [operands] at hx <;> simp [Placed] at h <;> grind

/-- A placed phrase is a strict plot: an operator takes tokens besides its operands. -/
theorem Placed.strict {p : Phrase κ} (h : p.Placed ops atomKind tokens) : p.plot.Strict := by
  induction p with
  | atom m => exact ⟨h.1, by simp, Nat.le_of_lt h.1⟩
  | before m op x ih =>
      obtain ⟨hstart, hstop, _, _, hx⟩ := h
      have hopen := (ih hx).start_lt_stop
      rw [marker_plot] at hopen
      refine ⟨by omega, ?_, ?_⟩
      · simp [Marker.sameRange]
        omega
      · simp only [Plot.StrictRow, marker_plot]
        exact ⟨by omega, ih hx, by omega⟩
  | between m op x y ihx ihy =>
      obtain ⟨hstart, hgap, hstop, _, _, hx, hy⟩ := h
      have hopenx := (ihx hx).start_lt_stop
      have hopeny := (ihy hy).start_lt_stop
      rw [marker_plot] at hopenx hopeny
      refine ⟨by omega, ?_, ?_⟩
      · simp [Marker.sameRange]
        omega
      · simp only [Plot.StrictRow, marker_plot]
        exact ⟨by omega, ihx hx, by omega, ihy hy, by omega⟩
  | after m op x ih =>
      obtain ⟨hstart, hstop, _, _, hx⟩ := h
      have hopen := (ih hx).start_lt_stop
      rw [marker_plot] at hopen
      refine ⟨by omega, ?_, ?_⟩
      · simp [Marker.sameRange]
        omega
      · simp only [Plot.StrictRow, marker_plot]
        exact ⟨by omega, ih hx, by omega⟩
  | ternary m op x y z ihx ihy ihz =>
      obtain ⟨hstart, hgap, hgap', hstop, _, _, _, hx, hy, hz⟩ := h
      have hopenx := (ihx hx).start_lt_stop
      have hopeny := (ihy hy).start_lt_stop
      have hopenz := (ihz hz).start_lt_stop
      rw [marker_plot] at hopenx hopeny hopenz
      refine ⟨by omega, ?_, ?_⟩
      · simp [Marker.sameRange]
        omega
      · simp only [Plot.StrictRow, marker_plot]
        exact ⟨by omega, ihx hx, by omega, ihy hy, by omega, ihz hz, by omega⟩

theorem Placed.start_lt_stop {p : Phrase κ} (h : p.Placed ops atomKind tokens) :
    p.marker.start < p.marker.stop := by
  rw [← marker_plot]
  exact h.strict.start_lt_stop

/-- **The markers of a placed phrase are laid out as the phrase is nested**, in whatever order
they were completed. -/
theorem Placed.plots_eq {p : Phrase κ} (h : p.Placed ops atomKind tokens) {count : Nat}
    (hstop : p.marker.stop ≤ count) {ms : List (Marker κ)} (hperm : ms.Perm p.markers)
    (hnodup : (p.markers.map (·.id)).Nodup) : plots count ms = ([p.plot], []) := by
  refine plots_eq_of_perm ?_ hperm (((hperm.map (·.id)).nodup_iff).mpr hnodup)
  refine ⟨Nat.zero_le _, h.strict, ?_⟩
  rw [marker_plot]
  exact hstop

end Phrase

end Lossless
