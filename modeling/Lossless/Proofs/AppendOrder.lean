import Lossless.Calculator
import Lossless.Proofs.Assembly
import Mathlib

/-!
# The order in which markers and errors come does not matter

A grammar completes markers and reports errors in whatever order it likes.  The builder goes
through both more than once, and four times it is the first of several that counts: of markers
with one number, of wrappers over the same tokens, of markers that cross, and of errors that
repeat a message.

Each of these passes works on a list that was sorted before, or looks only at the errors of one
token.  Sorting is stable, so a sorted list depends on nothing but the order among those *with
the same key* (`AgreeBy.mergeSort_eq`).  Hence **two runs that differ in the order of their
markers and errors, but not among markers of one number and errors at one token, are built into
the same tree** (`build_eq_of_reordered`).
-/

namespace Lossless

/-! ## Lists that agree by a key -/

section Keys

variable {α β : Type} [DecidableEq β] {key : α → β} {as bs : List α}

/-- Two lists have the same members with each key, in the same order. -/
def AgreeBy (key : α → β) (as bs : List α) : Prop :=
  ∀ k, as.filter (key · == k) = bs.filter (key · == k)

/-- A list comes in another order, in which members with the same key keep their order. -/
structure Reordered (key : α → β) (as bs : List α) : Prop where
  perm : as.Perm bs
  agree : AgreeBy key as bs

/-- Only the keys that occur have to be looked at. -/
theorem agreeBy_iff :
    AgreeBy key as bs ↔
      ∀ k ∈ (as ++ bs).map key, as.filter (key · == k) = bs.filter (key · == k) := by
  constructor
  · intro h k _
    exact h k
  · intro h k
    by_cases hk : k ∈ (as ++ bs).map key
    · exact h k hk
    · have hnone : ∀ cs : List α, cs ⊆ as ++ bs → cs.filter (key · == k) = [] := by
        intro cs hcs
        rw [List.filter_eq_nil_iff]
        intro a ha hkey
        exact hk (List.mem_map.mpr ⟨a, hcs ha, beq_iff_eq.mp hkey⟩)
      rw [hnone as (List.subset_append_left _ _), hnone bs (List.subset_append_right _ _)]

instance [DecidableEq α] : Decidable (AgreeBy key as bs) :=
  decidable_of_iff _ agreeBy_iff.symm

instance [DecidableEq α] : Decidable (Reordered key as bs) :=
  decidable_of_iff (as.Perm bs ∧ AgreeBy key as bs) ⟨fun h => ⟨h.1, h.2⟩, fun h => ⟨h.perm, h.agree⟩⟩

namespace AgreeBy

theorem filter (h : AgreeBy key as bs) (p : α → Bool) :
    AgreeBy key (as.filter p) (bs.filter p) := by
  intro k
  rw [List.filter_comm, h k, List.filter_comm]

theorem append_right (h : AgreeBy key as bs) (cs : List α) :
    AgreeBy key (as ++ cs) (bs ++ cs) := by
  intro k
  rw [List.filter_append, List.filter_append, h k]

theorem mem_iff (h : AgreeBy key as bs) (a : α) : a ∈ as ↔ a ∈ bs := by
  have hmem : ∀ cs : List α, a ∈ cs ↔ a ∈ cs.filter (key · == key a) := by
    intro cs
    simp [List.mem_filter]
  rw [hmem as, hmem bs, h (key a)]

/-- Lists agree by a key if they agree by another that can be read off the first. -/
theorem map {γ δ : Type} [DecidableEq δ] (h : AgreeBy key as bs) (f : α → γ) (key' : γ → δ)
    (hkey : ∀ k, ∃ j, ∀ a, key' (f a) = k → key a = j) : AgreeBy key' (as.map f) (bs.map f) := by
  intro k
  obtain ⟨j, hj⟩ := hkey k
  have hfilter : ∀ cs : List α, (cs.map f).filter (key' · == k) =
      ((cs.filter (key · == j)).filter (fun a => key' (f a) == k)).map f := by
    intro cs
    rw [List.filter_map, List.filter_filter]
    congr 1
    apply List.filter_congr
    intro a _
    by_cases ha : key' (f a) = k
    · simp [ha, hj a ha]
    · simp [ha]
  rw [hfilter, hfilter, h j]

end AgreeBy

/-! ## Sorting by a key -/

variable {le : α → α → Bool}

/-- Sorting keeps the order among those with the same key. -/
theorem filter_mergeSort (htrans : ∀ a b c, le a b = true → le b c = true → le a c = true)
    (htotal : ∀ a b, (le a b || le b a) = true) (htie : ∀ a b, key a = key b → le a b = true)
    (k : β) : (as.mergeSort le).filter (key · == k) = as.filter (key · == k) := by
  have hself : (as.filter (key · == k)).filter (key · == k) = as.filter (key · == k) := by
    simp
  have hpairwise : (as.filter (key · == k)).Pairwise (fun a b => le a b = true) := by
    apply List.pairwise_of_forall_mem_list
    intro a ha b hb
    simp only [List.mem_filter, beq_iff_eq] at ha hb
    exact htie a b (ha.2.trans hb.2.symm)
  have hsub := (List.sublist_mergeSort htrans htotal hpairwise List.filter_sublist).filter
    (key · == k)
  rw [hself] at hsub
  have hlength := ((List.mergeSort_perm as le).filter (key · == k)).length_eq
  exact (hsub.eq_of_length hlength.symm).symm

/-- Sorted lists that agree by the key they are sorted by are equal. -/
theorem AgreeBy.eq_of_sorted (hantisymm : ∀ a b, le a b = true → le b a = true → key a = key b)
    (has : as.Pairwise (fun a b => le a b = true)) (hbs : bs.Pairwise (fun a b => le a b = true))
    (h : AgreeBy key as bs) : as = bs := by
  induction as generalizing bs with
  | nil =>
      rw [eq_comm, List.eq_nil_iff_forall_not_mem]
      intro b hb
      cases (h.mem_iff b).mpr hb
  | cons a as ih =>
      cases bs with
      | nil => cases (h.mem_iff a).mp List.mem_cons_self
      | cons b bs =>
          obtain ⟨hfirst, hrest⟩ := List.pairwise_cons.mp has
          obtain ⟨hfirst', hrest'⟩ := List.pairwise_cons.mp hbs
          have hkey : key a = key b := by
            by_cases heq : a = b
            · rw [heq]
            · have ha := (h.mem_iff a).mp List.mem_cons_self
              have hb := (h.mem_iff b).mpr List.mem_cons_self
              simp only [List.mem_cons, heq, Ne.symm heq, false_or] at ha hb
              exact hantisymm a b (hfirst b hb) (hfirst' a ha)
          have hhead : a = b := by
            have hfilter := h (key a)
            rw [List.filter_cons_of_pos (by simp), List.filter_cons_of_pos (by simp [hkey])]
              at hfilter
            exact (List.cons.inj hfilter).1
          subst hhead
          refine congrArg _ (ih hrest hrest' ?_)
          intro k
          have hfilter := h k
          by_cases hk : key a = k
          · rw [List.filter_cons_of_pos (by simp [hk]), List.filter_cons_of_pos (by simp [hk])]
              at hfilter
            exact (List.cons.inj hfilter).2
          · rwa [List.filter_cons_of_neg (by simp [hk]), List.filter_cons_of_neg (by simp [hk])]
              at hfilter

/-- **A list sorted by a key depends only on the order among members with the same key.** -/
theorem AgreeBy.mergeSort_eq (htrans : ∀ a b c, le a b = true → le b c = true → le a c = true)
    (htotal : ∀ a b, (le a b || le b a) = true) (htie : ∀ a b, key a = key b → le a b = true)
    (hantisymm : ∀ a b, le a b = true → le b a = true → key a = key b)
    (h : AgreeBy key as bs) : as.mergeSort le = bs.mergeSort le := by
  apply eq_of_sorted hantisymm
  · exact List.pairwise_mergeSort htrans htotal as
  · exact List.pairwise_mergeSort htrans htotal bs
  · intro k
    rw [filter_mergeSort htrans htotal htie, filter_mergeSort htrans htotal htie, h k]

/-- Members that are left out may be left out before or after sorting. -/
theorem mergeSort_filter (htrans : ∀ a b c, le a b = true → le b c = true → le a c = true)
    (htotal : ∀ a b, (le a b || le b a) = true) (htie : ∀ a b, key a = key b → le a b = true)
    (hantisymm : ∀ a b, le a b = true → le b a = true → key a = key b) (p : α → Bool) :
    (as.filter p).mergeSort le = (as.mergeSort le).filter p := by
  apply AgreeBy.eq_of_sorted hantisymm
  · exact List.pairwise_mergeSort htrans htotal _
  · exact (List.pairwise_mergeSort htrans htotal as).filter p
  · intro k
    rw [filter_mergeSort htrans htotal htie, List.filter_comm _ _ (as.mergeSort le),
      filter_mergeSort htrans htotal htie, List.filter_comm]

end Keys

variable {κ : Type}

/-! ## Markers -/

/-- The places of markers depend on their order only among markers with the same number. -/
theorem plots_eq_of_agreeBy {markers markers' : List (Marker κ)}
    (h : AgreeBy Marker.id markers markers') (count : Nat) :
    plots count markers = plots count markers' := by
  have hsorted : markers.mergeSort Marker.idLe = markers'.mergeSort Marker.idLe := by
    apply h.mergeSort_eq
    · intro a b c hab hbc
      simp only [Marker.idLe, decide_eq_true_eq] at hab hbc ⊢
      omega
    · intro a b
      simp only [Marker.idLe, Bool.or_eq_true, decide_eq_true_eq]
      omega
    · intro a b hab
      simp [Marker.idLe, hab]
    · intro a b hab hba
      simp only [Marker.idLe, decide_eq_true_eq] at hab hba
      omega
  have hscreen : screen count markers = screen count markers' := by
    rw [screen, screen, hsorted]
  rw [plots, plots, hscreen]

/-! ## Errors -/

/-- Which errors are left out depends on what was seen of the errors to come, and on nothing
else that was seen. -/
theorem distinctErrors_congr {seen seen' : List (Nat × String)} {errors : List ParseError}
    (h : ∀ e ∈ errors, (e.index, e.message) ∈ seen ↔ (e.index, e.message) ∈ seen') :
    distinctErrors seen errors = distinctErrors seen' errors := by
  induction errors generalizing seen seen' with
  | nil => rfl
  | cons e es ih =>
      obtain ⟨hfirst, hrest⟩ := List.forall_mem_cons.mp h
      have hnext : distinctErrors ((e.index, e.message) :: seen) es =
          distinctErrors ((e.index, e.message) :: seen') es := by
        apply ih
        intro e' he'
        rw [List.mem_cons, List.mem_cons, hrest e' he']
      simp only [distinctErrors, List.contains_iff_mem, hfirst, ih hrest, hnext]

/-- Leaving out repeated errors looks at the errors of each token apart. -/
theorem filter_distinctErrors (index : Nat) (seen : List (Nat × String))
    (errors : List ParseError) :
    (distinctErrors seen errors).filter (·.index == index) =
      distinctErrors seen (errors.filter (·.index == index)) := by
  induction errors generalizing seen with
  | nil => rfl
  | cons e es ih =>
      by_cases hindex : e.index = index
      · rw [List.filter_cons_of_pos (by simp [hindex]), distinctErrors, distinctErrors]
        split
        · exact ih seen
        · rw [List.filter_cons_of_pos (by simp [hindex]), ih]
      · rw [List.filter_cons_of_neg (by simp [hindex]), distinctErrors]
        split
        · exact ih seen
        · rw [List.filter_cons_of_neg (by simp [hindex]), ih]
          apply distinctErrors_congr
          intro e' he'
          have hother : e'.index ≠ e.index := by
            intro heq
            apply hindex
            rw [← heq]
            exact beq_iff_eq.mp (List.mem_filter.mp he').2
          simp [hother]

theorem AgreeBy.distinctErrors {errors errors' : List ParseError}
    (h : AgreeBy ParseError.index errors errors') :
    AgreeBy ParseError.index (distinctErrors [] errors) (distinctErrors [] errors') := by
  intro index
  rw [filter_distinctErrors, filter_distinctErrors, h index]

/-- What parts are sorted by. -/
def Item.key (i : Item κ) : Nat × Nat :=
  (i.index, i.rank)

theorem Item.le_of_key_eq (a b : Item κ) (h : a.key = b.key) : a.le b = true := by
  rw [key, key, Prod.mk.injEq] at h
  rw [le_iff]
  omega

theorem Item.key_eq_of_le (a b : Item κ) (hab : a.le b = true) (hba : b.le a = true) :
    a.key = b.key := by
  rw [le_iff] at hab hba
  rw [key, key, Prod.mk.injEq]
  omega

namespace BuildContext

/-- The parts of a node depend on the order of its errors only among errors at one token. -/
theorem ordered_congr {errors errors' : List ParseError}
    (h : AgreeBy ParseError.index errors errors') (items : List (Item κ)) :
    ordered errors items = ordered errors' items := by
  have hleaves : AgreeBy Item.key (errors.map (@errorLeaf κ)) (errors'.map errorLeaf) := by
    apply h.map
    intro k
    refine ⟨k.1, ?_⟩
    intro e he
    exact congrArg Prod.fst he
  have hsorted : (errors.map errorLeaf ++ items).mergeSort Item.le =
      (errors'.map errorLeaf ++ items).mergeSort Item.le :=
    (hleaves.append_right items).mergeSort_eq Item.le_trans Item.le_total Item.le_of_key_eq
      Item.key_eq_of_le
  rw [ordered, ordered, hsorted]

variable [DecidableEq κ] [Named κ]

mutual

theorem assemble_congr (b : BuildContext κ) : ∀ (p : Plot κ) {errors errors' : List ParseError},
    AgreeBy ParseError.index errors errors' → b.assemble errors p = b.assemble errors' p
  | .mk m inner, errors, errors', h => by
      have hown : AgreeBy ParseError.index (ownErrors inner errors) (ownErrors inner errors') :=
        h.filter _
      rw [assemble, assemble, assembleParts_congr b inner h m.start m.stop]
      simp only [ordered_congr hown]

/-- **The parts of a row of plots, and the refusals among them, depend on the order of errors
only among errors at one token.** -/
theorem assembleParts_congr (b : BuildContext κ) : ∀ (ps : List (Plot κ))
    {errors errors' : List ParseError}, AgreeBy ParseError.index errors errors' →
    ∀ cursor stop, b.assembleParts errors cursor stop ps = b.assembleParts errors' cursor stop ps
  | [], _, _, _, _, _ => by rw [assembleParts, assembleParts]
  | p :: ps, errors, errors', h, cursor, stop => by
      have hbelow : AgreeBy ParseError.index
          (errors.filter fun e => p.marker.covers e.index)
          (errors'.filter fun e => p.marker.covers e.index) := h.filter _
      rw [assembleParts, assembleParts, assemble_congr b p hbelow,
        assembleParts_congr b ps h (max cursor p.marker.stop) stop]

end

end BuildContext

/-! ## The tree -/

/-- **Append order does not matter.**  Whatever the tokens, the constructors and the options are:
if the markers come in another order, in which markers with the same number keep theirs, and so
do the errors, by their tokens, then all that is built is the same, the anomalies in their order
included. -/
theorem build_eq_of_reordered [DecidableEq κ] [Named κ] (registry : Registry κ)
    (options : BuildOptions) (tokens : List Token) {markers markers' : List (Marker κ)}
    {errors errors' : List ParseError} (hmarkers : Reordered Marker.id markers' markers)
    (herrors : Reordered ParseError.index errors' errors) :
    build registry options tokens markers' errors' = build registry options tokens markers errors := by
  have hplots := plots_eq_of_agreeBy hmarkers.agree tokens.length
  have hdistinct := herrors.agree.distinctErrors
  have hempty : errors'.isEmpty = errors.isEmpty := by
    rw [Bool.eq_iff_iff, List.isEmpty_iff_length_eq_zero, List.isEmpty_iff_length_eq_zero,
      herrors.perm.length_eq]
  have hparts := BuildContext.assembleParts_congr ⟨tokens.toArray, options, registry⟩
    (plots tokens.length markers).1 hdistinct 0 tokens.length
  have hown : AgreeBy ParseError.index
      (BuildContext.ownErrors (plots tokens.length markers).1 (distinctErrors [] errors'))
      (BuildContext.ownErrors (plots tokens.length markers).1 (distinctErrors [] errors)) :=
    hdistinct.filter _
  simp only [build, hplots, hparts, hempty, BuildContext.ordered_congr hown]

/-- A wrapper ahead of what it wraps, two markers with one number, markers that cross, and an
error that is reported twice between others. -/
theorem build_eq_of_reordered_shuffled :
    let tokens := Token.lay [(.punctuation, "("), (.identifier, "a"), (.operator, "+"),
      (.identifier, "b"), (.operator, "*"), (.identifier, "c")]
    let markers : List (Marker Calculator.Kind) :=
      [⟨1, 1, 2, .name, none⟩, ⟨3, 1, 2, .group, some 1⟩, ⟨4, 3, 4, .name, none⟩,
        ⟨2, 1, 4, .add, none⟩, ⟨5, 3, 6, .mul, none⟩, ⟨4, 5, 6, .name, none⟩]
    let markers' : List (Marker Calculator.Kind) :=
      [⟨5, 3, 6, .mul, none⟩, ⟨4, 3, 4, .name, none⟩, ⟨3, 1, 2, .group, some 1⟩,
        ⟨1, 1, 2, .name, none⟩, ⟨4, 5, 6, .name, none⟩, ⟨2, 1, 4, .add, none⟩]
    let errors : List ParseError :=
      [⟨3, "first", ⟨3, 4⟩⟩, ⟨3, "second", ⟨3, 4⟩⟩, ⟨3, "first", ⟨3, 4⟩⟩, ⟨0, "third", ⟨0, 1⟩⟩]
    let errors' : List ParseError :=
      [⟨3, "first", ⟨3, 4⟩⟩, ⟨0, "third", ⟨0, 1⟩⟩, ⟨3, "second", ⟨3, 4⟩⟩, ⟨3, "first", ⟨3, 4⟩⟩]
    let output := build Calculator.registry {} tokens markers errors
    Reordered Marker.id markers' markers ∧ Reordered ParseError.index errors' errors ∧
      build Calculator.registry {} tokens markers' errors' = output ∧
      output.anomalies = [.duplicateId 4, .overlapping 5 2] ∧
      output.root.errors.length = 4 := by
  intro tokens markers markers' errors errors' output
  have hmarkers : Reordered Marker.id markers' markers := by decide
  have herrors : Reordered ParseError.index errors' errors := by decide
  refine ⟨hmarkers, herrors, ?_, by cbv, by cbv⟩
  exact build_eq_of_reordered Calculator.registry {} tokens hmarkers herrors

end Lossless
