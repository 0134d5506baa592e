import Lossless.Proofs.Losslessness
import Mathlib.Data.List.Basic
import Mathlib.Order.Monotone.Basic

/-!
# Of the numbers of markers only their order matters

Markers are numbered as they are opened, and the numbers of those that a grammar gave up are
missing among the completed ones.  The builder asks for numbers often: it goes through markers in
their order, leaves out those that repeat one, chooses by them among markers over the same tokens,
and tells by them which marker wraps which.

**None of this depends on the numbers themselves.**  Giving the markers other numbers in the same
order commutes with each pass of the builder, so the same tree is built, and the anomalies name the
same markers under their new numbers (`build_renumber`).  Two facts carry the passes: a strictly
increasing function keeps every comparison of two numbers, and it takes no two of them to one.
-/

namespace Lossless

variable {κ : Type}

/-! ## Other numbers -/

/-- A marker under another number, which wraps the same marker as before. -/
def Marker.renumber (f : Nat → Nat) (m : Marker κ) : Marker κ :=
  { m with id := f m.id, precedes := m.precedes.map f }

/-- An anomaly of the same markers under other numbers. -/
def Anomaly.renumber (f : Nat → Nat) : Anomaly → Anomaly
  | invalidRange id start stop => invalidRange (f id) start stop
  | duplicateId id => duplicateId (f id)
  | duplicateRange id kept start stop => duplicateRange (f id) (f kept) start stop
  | overlapping id outer => overlapping (f id) (f outer)

/-- An event with the same markers under other numbers. -/
def Event.renumber (f : Nat → Nat) : Event κ → Event κ
  | opened id index => opened (f id) index
  | completed m => completed (m.renumber f)
  | dropped id => dropped (f id)
  | rolledBack id index discarded retracted => rolledBack (f id) index discarded retracted
  | errorReported index message => errorReported index message
  | anomaly a => anomaly (a.renumber f)
  | rejected id message => rejected (f id) message

namespace Plot

mutual

/-- A plot of the same markers under other numbers. -/
def renumber (f : Nat → Nat) : Plot κ → Plot κ
  | .mk m inner => .mk (m.renumber f) (renumberAll f inner)

/-- Plots of the same markers under other numbers. -/
def renumberAll (f : Nat → Nat) : List (Plot κ) → List (Plot κ)
  | [] => []
  | p :: ps => p.renumber f :: renumberAll f ps

end

theorem renumberAll_eq_map (f : Nat → Nat) (ps : List (Plot κ)) :
    renumberAll f ps = ps.map (renumber f) := by
  induction ps with
  | nil => rfl
  | cons p ps ih => rw [renumberAll, ih, List.map_cons]

theorem renumber_mk (f : Nat → Nat) (m : Marker κ) (inner : List (Plot κ)) :
    (mk m inner).renumber f = mk (m.renumber f) (inner.map (renumber f)) := by
  rw [renumber, renumberAll_eq_map]

@[simp] theorem marker_renumber (f : Nat → Nat) (p : Plot κ) :
    (p.renumber f).marker = p.marker.renumber f := by
  cases p
  rw [renumber, marker, marker]

end Plot

/-- What a pass keeps and what it reports, with the markers under other numbers. -/
def renumberPass (f : Nat → Nat) (pass : List (Marker κ) × List Anomaly) :
    List (Marker κ) × List Anomaly :=
  (pass.1.map (Marker.renumber f), pass.2.map (Anomaly.renumber f))

/-! ## What does not depend on numbers -/

namespace Marker

variable (f : Nat → Nat) (m n : Marker κ)

@[simp] theorem id_renumber : (m.renumber f).id = f m.id := rfl

@[simp] theorem start_renumber : (m.renumber f).start = m.start := rfl

@[simp] theorem stop_renumber : (m.renumber f).stop = m.stop := rfl

@[simp] theorem kind_renumber : (m.renumber f).kind = m.kind := rfl

@[simp] theorem isEmpty_renumber : (m.renumber f).isEmpty = m.isEmpty := rfl

@[simp] theorem fits_renumber (count : Nat) : (m.renumber f).fits count = m.fits count := rfl

@[simp] theorem covers_renumber (index : Nat) : (m.renumber f).covers index = m.covers index := rfl

@[simp] theorem contains_renumber : (m.renumber f).contains (n.renumber f) = m.contains n := rfl

end Marker

variable {f : Nat → Nat} (hf : StrictMono f)
include hf

/-! ## Screening and arranging -/

theorem Marker.idLe_renumber (m n : Marker κ) :
    (m.renumber f).idLe (n.renumber f) = m.idLe n :=
  decide_eq_decide.mpr hf.le_iff_le

theorem Marker.layoutLe_renumber (m n : Marker κ) :
    (m.renumber f).layoutLe (n.renumber f) = m.layoutLe n := by
  have hid : decide (f m.id ≤ f n.id) = decide (m.id ≤ n.id) := decide_eq_decide.mpr hf.le_iff_le
  rw [layoutLe, layoutLe, id_renumber, id_renumber, hid]
  rfl

/-- A number was met before if and only if it was met under its old name. -/
theorem contains_map_renumber (seen : List Nat) (id : Nat) :
    (seen.map f).contains (f id) = seen.contains id := by
  rw [Bool.eq_iff_iff, List.contains_iff_mem, List.contains_iff_mem]
  exact List.mem_map_of_injective hf.injective

theorem screenFrom_renumber (count : Nat) (seen : List Nat) (ms : List (Marker κ)) :
    screenFrom count (seen.map f) (ms.map (Marker.renumber f)) =
      renumberPass f (screenFrom count seen ms) := by
  induction ms generalizing seen with
  | nil => rfl
  | cons m ms ih =>
      have hseen := ih (m.id :: seen)
      rw [List.map_cons] at hseen
      simp only [List.map_cons, screenFrom, Marker.fits_renumber, Marker.id_renumber,
        contains_map_renumber hf, ih seen, hseen]
      split
      · rfl
      · split <;> rfl

theorem screen_renumber (count : Nat) (ms : List (Marker κ)) :
    screen count (ms.map (Marker.renumber f)) = renumberPass f (screen count ms) := by
  have hsorted : (ms.map (Marker.renumber f)).mergeSort Marker.idLe =
      (ms.mergeSort Marker.idLe).map (Marker.renumber f) :=
    (List.map_mergeSort fun m _ n _ => (Marker.idLe_renumber hf m n).symm).symm
  rw [screen, screen, hsorted]
  exact screenFrom_renumber hf count [] _

theorem chain_renumber (base last : Marker κ) (ms : List (Marker κ)) :
    chain (base.renumber f) (last.renumber f) (ms.map (Marker.renumber f)) =
      renumberPass f (chain base last ms) := by
  induction ms generalizing last with
  | nil => rfl
  | cons m ms ih =>
      -- a wrapper names the marker before it under the new numbers as it did under the old ones
      have hwraps : ((m.renumber f).precedes == some (last.renumber f).id) =
          (m.precedes == some last.id) := by
        rw [Bool.eq_iff_iff, beq_iff_eq, beq_iff_eq]
        exact (Option.map_injective hf.injective).eq_iff (b := some last.id)
      simp only [List.map_cons, chain, hwraps, ih]
      split <;> rfl

theorem arrangeSorted_renumber (rounds : Nat) (ms : List (Marker κ)) :
    arrangeSorted rounds (ms.map (Marker.renumber f)) =
      renumberPass f (arrangeSorted rounds ms) := by
  induction rounds generalizing ms with
  | zero => rfl
  | succ rounds ih =>
      cases ms with
      | nil => rfl
      | cons base ms =>
          have hrange : (base.renumber f).sameRange ∘ Marker.renumber f = base.sameRange := rfl
          simp only [List.map_cons, arrangeSorted, List.takeWhile_map, List.dropWhile_map, hrange,
            chain_renumber hf, ih]
          simp [renumberPass]

theorem arrange_renumber (ms : List (Marker κ)) :
    arrange (ms.map (Marker.renumber f)) = renumberPass f (arrange ms) := by
  have hsorted : (ms.map (Marker.renumber f)).mergeSort Marker.layoutLe =
      (ms.mergeSort Marker.layoutLe).map (Marker.renumber f) :=
    (List.map_mergeSort fun m _ n _ => (Marker.layoutLe_renumber hf m n).symm).symm
  rw [arrange, arrange, hsorted, List.length_map]
  exact arrangeSorted_renumber hf _ _

omit hf

/-! ## Placing -/

namespace Layout

/-- A layout of the same markers under other numbers. -/
def renumber (f : Nat → Nat) (l : Layout κ) : Layout κ where
  chain := l.chain.map fun frame => (frame.1.renumber f, frame.2.map (Plot.renumber f))
  roots := l.roots.map (Plot.renumber f)
  anomalies := l.anomalies.map (Anomaly.renumber f)

variable (f : Nat → Nat)

theorem closeTop_renumber (l : Layout κ) : (l.renumber f).closeTop = l.closeTop.renumber f := by
  obtain ⟨chain, roots, anomalies⟩ := l
  match chain with
  | [] => rfl
  | [(m, ps)] => simp [closeTop, renumber, Plot.renumber_mk]
  | (m, ps) :: (outer, qs) :: rest => simp [closeTop, renumber, Plot.renumber_mk]

theorem repeat_closeTop_renumber (n : Nat) (l : Layout κ) :
    Nat.repeat closeTop n (l.renumber f) = (Nat.repeat closeTop n l).renumber f := by
  induction n with
  | zero => rfl
  | succ n ih => rw [Nat.repeat, Nat.repeat, ih, closeTop_renumber]

theorem closeBefore_renumber (l : Layout κ) (m : Marker κ) :
    (l.renumber f).closeBefore (m.renumber f) = (l.closeBefore m).renumber f := by
  have hcount : ((l.renumber f).chain.takeWhile
      fun frame => endsBefore frame.1 (m.renumber f)).length =
        (l.chain.takeWhile fun frame => endsBefore frame.1 m).length := by
    simp only [renumber, List.takeWhile_map, List.length_map]
    rfl
  rw [closeBefore, closeBefore, hcount, repeat_closeTop_renumber]

theorem place_renumber (l : Layout κ) (m : Marker κ) :
    (l.renumber f).place (m.renumber f) = (l.place m).renumber f := by
  rw [place, place, closeBefore_renumber]
  obtain ⟨chain, roots, anomalies⟩ := l.closeBefore m
  cases chain with
  | nil => rfl
  | cons top rest =>
      obtain ⟨outer, ps⟩ := top
      simp only [renumber, List.map_cons, Marker.contains_renumber]
      split
      · rfl
      · simp [Anomaly.renumber]

theorem ofArranged_renumber (ms : List (Marker κ)) :
    ofArranged (ms.map (Marker.renumber f)) = (ofArranged ms).renumber f := by
  have hplaced : ∀ l : Layout κ, (ms.map (Marker.renumber f)).foldl place (l.renumber f) =
      (ms.foldl place l).renumber f := by
    intro l
    induction ms generalizing l with
    | nil => rfl
    | cons m ms ih => rw [List.map_cons, List.foldl_cons, List.foldl_cons, place_renumber, ih]
  have hempty : (ms.map (Marker.renumber f)).foldl place empty = (ms.foldl place empty).renumber f :=
    hplaced empty
  have hlength : ((ms.foldl place empty).renumber f).chain.length =
      (ms.foldl place empty).chain.length := List.length_map _
  rw [ofArranged, ofArranged, hempty, closeAll, closeAll, hlength, repeat_closeTop_renumber]

end Layout

/-- **The same markers have the same places under other numbers.** -/
theorem plots_renumber (hf : StrictMono f) (count : Nat) (ms : List (Marker κ)) :
    plots count (ms.map (Marker.renumber f)) =
      ((plots count ms).1.map (Plot.renumber f), (plots count ms).2.map (Anomaly.renumber f)) := by
  simp only [plots, screen_renumber hf, renumberPass, arrange_renumber hf,
    Layout.ofArranged_renumber, Layout.renumber, List.map_append]

/-! ## Building -/

/-- Each constructor makes the same of markers that differ in their numbers only. -/
def Registry.IgnoresNumbers [DecidableEq κ] (r : Registry κ) : Prop :=
  ∀ kind constructor, r.get? kind = some constructor →
    ∀ (m : Marker κ) (id : Nat) (precedes : Option Nat) (parts : List (Tree κ)) (span : Span),
      constructor { m with id, precedes } parts span = constructor m parts span

theorem Registry.construct_renumber [DecidableEq κ] [Named κ] {r : Registry κ}
    (hr : r.IgnoresNumbers) (f : Nat → Nat) (m : Marker κ) (parts : List (Tree κ)) (span : Span) :
    r.construct (m.renumber f) parts span = r.construct m parts span := by
  unfold construct
  rw [Marker.kind_renumber]
  cases hget : r.get? m.kind with
  | none => rfl
  | some constructor =>
      have hsame : constructor (m.renumber f) parts span = constructor m parts span :=
        hr m.kind constructor hget m _ _ parts span
      simp only [hsame]

/-- A tree, with the elements that were refused in it under other numbers. -/
def Assembled.renumber (f : Nat → Nat) (a : Assembled κ) : Assembled κ :=
  { a with refusals := a.refusals.map fun r => (f r.1, r.2) }

namespace BuildContext

theorem ownErrors_renumber (f : Nat → Nat) (inner : List (Plot κ)) (errors : List ParseError) :
    ownErrors (inner.map (Plot.renumber f)) errors = ownErrors inner errors := by
  simp only [ownErrors, List.any_map, Function.comp_def, Plot.marker_renumber,
    Marker.covers_renumber]

variable [DecidableEq κ] [Named κ] {b : BuildContext κ}

theorem close_renumber (hb : b.registry.IgnoresNumbers) (f : Nat → Nat) (m : Marker κ)
    (parts : List (Tree κ)) (refusals : List (Nat × String)) :
    b.close (m.renumber f) parts (refusals.map fun r => (f r.1, r.2)) =
      (b.close m parts refusals).renumber f := by
  simp only [close, Registry.construct_renumber hb, Marker.start_renumber, Marker.stop_renumber]
  split
  · rfl
  · simp [Assembled.renumber]

mutual

theorem assemble_renumber (hb : b.registry.IgnoresNumbers) (f : Nat → Nat) :
    ∀ (p : Plot κ) (errors : List ParseError),
      b.assemble errors (p.renumber f) = (b.assemble errors p).renumber f
  | .mk m inner, errors => by
      rw [Plot.renumber_mk, assemble, assemble, Marker.start_renumber, Marker.stop_renumber,
        assembleParts_renumber hb f inner errors m.start m.stop]
      simp only [ownErrors_renumber]
      exact close_renumber hb f m _ _

/-- **Plots are assembled to the same parts under other numbers.** -/
theorem assembleParts_renumber (hb : b.registry.IgnoresNumbers) (f : Nat → Nat) :
    ∀ (ps : List (Plot κ)) (errors : List ParseError) (cursor stop : Nat),
      b.assembleParts errors cursor stop (ps.map (Plot.renumber f)) =
        ((b.assembleParts errors cursor stop ps).1,
          (b.assembleParts errors cursor stop ps).2.map fun r => (f r.1, r.2))
  | [], errors, cursor, stop => by
      rw [List.map_nil, assembleParts]
      rfl
  | p :: ps, errors, cursor, stop => by
      have htree := assemble_renumber hb f p (errors.filter fun e => p.marker.covers e.index)
      have hlater := assembleParts_renumber hb f ps errors (max cursor p.marker.stop) stop
      rw [List.map_cons, assembleParts, assembleParts]
      simp only [Plot.marker_renumber, Marker.covers_renumber, Marker.start_renumber,
        Marker.stop_renumber, Marker.isEmpty_renumber, htree, hlater, Assembled.renumber,
        List.map_append]

end

end BuildContext

/-- **Of the numbers of markers only their order matters.**  If the constructors ignore the
numbers, then under other numbers in the same order the same tree is built and it is valid in the
same cases; the anomalies, and the events with them, come in the same order and name the same
markers under their new numbers. -/
theorem build_renumber [DecidableEq κ] [Named κ] {registry : Registry κ}
    (hregistry : registry.IgnoresNumbers) {f : Nat → Nat} (hf : StrictMono f)
    (options : BuildOptions) (tokens : List Token) (markers : List (Marker κ))
    (errors : List ParseError) :
    let output := build registry options tokens markers errors
    let renumbered := build registry options tokens (markers.map (Marker.renumber f)) errors
    renumbered.root = output.root ∧ renumbered.valid = output.valid ∧
      renumbered.anomalies = output.anomalies.map (Anomaly.renumber f) ∧
      renumbered.events = output.events.map (Event.renumber f) := by
  intro output renumbered
  let b : BuildContext κ := ⟨tokens.toArray, options, registry⟩
  have hplots := plots_renumber hf tokens.length markers
  have hparts := BuildContext.assembleParts_renumber (b := b) hregistry f
    (plots tokens.length markers).1 (distinctErrors [] errors) 0 tokens.length
  have hroot : renumbered.root = output.root := by
    simp only [renumbered, output, build, hplots, b, BuildContext.ownErrors_renumber] at hparts ⊢
    rw [hparts]
  refine ⟨hroot, ?_, ?_, ?_⟩
  · have hvalid : ∀ ms, (build registry options tokens ms errors).valid =
        (errors.isEmpty && !(build registry options tokens ms errors).root.hasError) :=
      fun ms => rfl
    rw [hvalid, hvalid]
    exact congrArg (fun root : Tree κ => errors.isEmpty && !root.hasError) hroot
  · simp only [renumbered, output, build, hplots]
  · simp only [renumbered, output, build, hplots, b] at hparts ⊢
    rw [hparts]
    simp only [List.map_append, List.map_map]
    rfl

/-- The constructors of the calculator look at the parts of an element only. -/
theorem Calculator.registry_ignoresNumbers : Calculator.registry.IgnoresNumbers := by
  intro kind constructor hget m id precedes parts span
  rcases Calculator.constructor_cases hget with rfl | rfl <;> rfl

/-- A group around a name that it wraps and one that doubles it, two markers with one number, and
markers that cross. -/
theorem build_renumber_doubled_and_crossing :
    let tokens := Token.lay [(.punctuation, "("), (.identifier, "a"), (.operator, "+"),
      (.identifier, "b"), (.operator, "*"), (.identifier, "c")]
    let markers : List (Marker Calculator.Kind) :=
      [⟨1, 1, 2, .name, none⟩, ⟨3, 1, 2, .group, some 1⟩, ⟨6, 1, 2, .neg, some 2⟩,
        ⟨4, 3, 4, .name, none⟩, ⟨2, 1, 4, .add, none⟩, ⟨5, 3, 6, .mul, none⟩,
        ⟨4, 5, 6, .name, none⟩, ⟨7, 4, 9, .name, none⟩]
    let errors : List ParseError := [⟨3, "unknown name", ⟨3, 4⟩⟩]
    let f : Nat → Nat := fun id => 3 * id + 10
    let output := build Calculator.registry {} tokens markers errors
    let renumbered := build Calculator.registry {} tokens (markers.map (Marker.renumber f)) errors
    Calculator.registry.IgnoresNumbers ∧ StrictMono f ∧
      renumbered.root = output.root ∧ renumbered.valid = output.valid ∧
      renumbered.anomalies = output.anomalies.map (Anomaly.renumber f) ∧
      renumbered.events = output.events.map (Event.renumber f) ∧
      output.anomalies = [.duplicateId 4, .invalidRange 7 4 9, .duplicateRange 6 1 1 2,
        .overlapping 5 2] := by
  intro tokens markers errors f output renumbered
  have hregistry := Calculator.registry_ignoresNumbers
  have hf : StrictMono f := fun i j hij => by
    simp only [f]
    omega
  obtain ⟨hroot, hvalid, hanomalies, hevents⟩ :=
    build_renumber hregistry hf {} tokens markers errors
  exact ⟨hregistry, hf, hroot, hvalid, hanomalies, hevents, by cbv⟩

end Lossless
