import Lossless.Proofs.Nesting
import Mathlib.Data.List.Chain
import Mathlib.Data.List.TakeWhile

/-!
# Markers that reach the layout

Before markers are laid out, `screen` leaves out those that fit no tokens or repeat a
number, and `arrange` leaves out those that double the range of another without wrapping
it.  Both account for every marker.  What is left comes in the order of a layout
(`arrange_ordered`): **each marker leads all later ones, and of two neighbours over the
same tokens the first was opened to wrap the second**.
-/

namespace Lossless

variable {κ : Type}

/-! ## Screening -/

/-- Why screening leaves a marker out, given the numbers of markers that are kept. -/
def Unfit (tokenCount : Nat) (ids : List Nat) (a : Anomaly) (m : Marker κ) : Prop :=
  a = .invalidRange m.id m.start m.stop ∧ m.fits tokenCount = false ∨
    a = .duplicateId m.id ∧ m.id ∈ ids

/-- Screening accounts for its markers, keeps only markers that fit, and no number twice. -/
theorem screenFrom_account (tokenCount : Nat) (seen : List Nat) (ms : List (Marker κ)) :
    let kept := (screenFrom tokenCount seen ms).1
    Accounted (Unfit tokenCount (seen ++ kept.map (·.id))) ms kept
        (screenFrom tokenCount seen ms).2 ∧
      (∀ m ∈ kept, m.fits tokenCount = true ∧ m.id ∉ seen) ∧ (kept.map (·.id)).Nodup := by
  induction ms generalizing seen with
  | nil => exact ⟨.nil, by simp [screenFrom], by simp [screenFrom]⟩
  | cons m ms ih =>
      unfold screenFrom
      split
      · rename_i hfits
        obtain ⟨haccount, hkept, hnodup⟩ := ih seen
        exact ⟨haccount.drop (Or.inl ⟨rfl, by simpa using hfits⟩), hkept, hnodup⟩
      · rename_i hfits
        split
        · rename_i hseen
          obtain ⟨haccount, hkept, hnodup⟩ := ih seen
          refine ⟨haccount.drop (Or.inr ⟨rfl, ?_⟩), hkept, hnodup⟩
          exact List.mem_append_left _ (by simpa using hseen)
        · rename_i hseen
          obtain ⟨haccount, hkept, hnodup⟩ := ih (m.id :: seen)
          have hseen' : m.id ∉ seen := by simpa using hseen
          refine ⟨(haccount.imp ?_).keep m, ?_, ?_⟩
          · intro n _ a han
            rcases han with h | ⟨rfl, hmem⟩
            · exact Or.inl h
            · refine Or.inr ⟨rfl, ?_⟩
              simp only [List.cons_append, List.mem_cons, List.mem_append, List.map_cons] at hmem ⊢
              rcases hmem with h | h | h
              · exact Or.inr (Or.inl h)
              · exact Or.inl h
              · exact Or.inr (Or.inr h)
          · intro n hn
            rcases List.mem_cons.mp hn with rfl | hn
            · exact ⟨by simpa using hfits, hseen'⟩
            · obtain ⟨hfit, hnot⟩ := hkept n hn
              exact ⟨hfit, fun h => hnot (List.mem_cons_of_mem _ h)⟩
          · rw [List.map_cons, List.nodup_cons]
            refine ⟨?_, hnodup⟩
            intro hmem
            obtain ⟨n, hn, heq⟩ := List.mem_map.mp hmem
            exact (hkept n hn).2 (heq ▸ List.mem_cons_self)

/-- Screening accounts for all markers, in whatever order they come. -/
theorem screen_account (tokenCount : Nat) (markers : List (Marker κ)) :
    let kept := (screen tokenCount markers).1
    Accounted (Unfit tokenCount (kept.map (·.id))) markers kept (screen tokenCount markers).2 ∧
      (∀ m ∈ kept, m.fits tokenCount = true) ∧ (kept.map (·.id)).Nodup := by
  obtain ⟨haccount, hkept, hnodup⟩ :=
    screenFrom_account tokenCount [] (markers.mergeSort Marker.idLe)
  exact ⟨haccount.perm (List.mergeSort_perm _ _) (.refl _), fun m hm => (hkept m hm).1, hnodup⟩

/-- What fitting says about the two ends. -/
theorem Marker.fits_iff (tokenCount : Nat) (m : Marker κ) :
    m.fits tokenCount = true ↔ m.start ≤ m.stop ∧ m.stop ≤ tokenCount ∧ m.start < tokenCount := by
  simp [Marker.fits, and_assoc]

/-! ## Arranging -/

/-- What the same range says about the two ends. -/
theorem Marker.sameRange_iff (p m : Marker κ) :
    p.sameRange m = true ↔ p.start = m.start ∧ p.stop = m.stop := by
  simp [Marker.sameRange]

/-- Neighbours in a layout: if they cover the same tokens, the first wraps the second. -/
def Marker.Wraps (outer m : Marker κ) : Prop :=
  outer.sameRange m = true → outer.precedes = some m.id

/-- A marker that doubles the range of a kept one, and the anomaly that says so. -/
def Doubled (kept : List (Marker κ)) (a : Anomaly) (m : Marker κ) : Prop :=
  ∃ k ∈ kept, k.sameRange m = true ∧ a = .duplicateRange m.id k.id m.start m.stop

/-- Going through markers over the same tokens accounts for them, and each one kept wraps
the one kept before it. -/
theorem chain_account (base last : Marker κ) (ms : List (Marker κ)) :
    Accounted (fun a m => a = .duplicateRange m.id base.id m.start m.stop) ms
        (chain base last ms).1 (chain base last ms).2 ∧
      (last :: (chain base last ms).1).IsChain (fun m outer => outer.precedes = some m.id) := by
  induction ms generalizing last with
  | nil => exact ⟨.nil, .singleton last⟩
  | cons m ms ih =>
      unfold chain
      split
      · rename_i hwraps
        obtain ⟨haccount, hchain⟩ := ih m
        exact ⟨haccount.keep m, .cons_cons (by simpa using hwraps) hchain⟩
      · obtain ⟨haccount, hchain⟩ := ih last
        exact ⟨haccount.drop rfl, hchain⟩

/-- Arranging accounts for sorted markers. -/
theorem arrangeSorted_account {rounds : Nat} {ms : List (Marker κ)} (hrounds : ms.length ≤ rounds) :
    Accounted (Doubled (arrangeSorted rounds ms).1) ms (arrangeSorted rounds ms).1
      (arrangeSorted rounds ms).2 := by
  induction rounds generalizing ms with
  | zero =>
      obtain rfl := List.length_eq_zero_iff.mp (Nat.le_zero.mp hrounds)
      exact .nil
  | succ rounds ih =>
      cases ms with
      | nil => exact .nil
      | cons base ms =>
          have hlength : (ms.dropWhile base.sameRange).length ≤ rounds := by
            have hle := (List.dropWhile_suffix base.sameRange (l := ms)).length_le
            simp only [List.length_cons] at hrounds
            omega
          have hgroup := (chain_account base base (ms.takeWhile base.sameRange)).1
          have hlater := ih hlength
          simp only [arrangeSorted]
          generalize chain base base (ms.takeWhile base.sameRange) = group at hgroup ⊢
          generalize arrangeSorted rounds (ms.dropWhile base.sameRange) = later at hlater ⊢
          have hgroup' : Accounted (Doubled ((base :: group.1).reverse ++ later.1))
              (base :: ms.takeWhile base.sameRange) (base :: group.1) group.2 := by
            refine (hgroup.imp ?_).keep base
            intro m hm a ha
            exact ⟨base, by simp, List.mem_takeWhile_imp hm, ha⟩
          have hlater' : Accounted (Doubled ((base :: group.1).reverse ++ later.1))
              (ms.dropWhile base.sameRange) later.1 later.2 := by
            refine hlater.imp ?_
            rintro m - a ⟨k, hk, hsame, rfl⟩
            exact ⟨k, List.mem_append_right _ hk, hsame, rfl⟩
          refine (hgroup'.append hlater').perm ?_ ?_
          · rw [List.cons_append, List.takeWhile_append_dropWhile]
          · exact (List.reverse_perm _).symm.append_right _

/-- A marker that leads another one with a different range shares its range with none that
the other one leads. -/
theorem Marker.Leads.not_sameRange {base m n : Marker κ} (hbase : base.Leads m)
    (hdiffers : base.sameRange m = false) (hm : m.Leads n) : base.sameRange n = false := by
  have hne : ¬ (base.start = m.start ∧ base.stop = m.stop) := by
    rw [← Marker.sameRange_iff, hdiffers]
    simp
  apply Bool.eq_false_iff.mpr
  intro hsame
  rw [Marker.sameRange_iff] at hsame
  rcases hbase with hlt | ⟨heq, hle⟩ <;> rcases hm with hlt' | ⟨heq', hle'⟩ <;> omega

/-- Behind the markers over the same tokens as the first there are no more of them. -/
theorem not_sameRange_of_mem_dropWhile {base : Marker κ} {ms : List (Marker κ)}
    (hordered : (base :: ms).Pairwise Marker.Leads) :
    ∀ m ∈ ms.dropWhile base.sameRange, base.sameRange m = false := by
  intro m hm
  have hnot := List.head?_dropWhile_not base.sameRange ms
  cases hrest : ms.dropWhile base.sameRange with
  | nil => simp [hrest] at hm
  | cons n rest =>
      rw [hrest] at hm hnot
      simp only [List.head?_cons] at hnot
      have hsub : (base :: n :: rest).Sublist (base :: ms) := by
        rw [← hrest]
        exact (List.dropWhile_sublist _).cons_cons base
      obtain ⟨hbase, htail⟩ := List.pairwise_cons.mp (hordered.sublist hsub)
      rcases List.mem_cons.mp hm with rfl | hm
      · exact hnot
      · exact (hbase n List.mem_cons_self).not_sameRange hnot ((List.pairwise_cons.mp htail).1 m hm)

/-- Arranging sorted markers keeps them in order, and puts wrappers in front of what they
wrap. -/
theorem arrangeSorted_ordered {rounds : Nat} {ms : List (Marker κ)} (hrounds : ms.length ≤ rounds)
    (hordered : ms.Pairwise Marker.Leads) :
    (arrangeSorted rounds ms).1.Pairwise Marker.Leads ∧
      (arrangeSorted rounds ms).1.IsChain Marker.Wraps := by
  induction rounds generalizing ms with
  | zero => exact ⟨.nil, .nil⟩
  | succ rounds ih =>
      cases ms with
      | nil => exact ⟨.nil, .nil⟩
      | cons base ms =>
          have hsublist := List.dropWhile_sublist base.sameRange (l := ms)
          have hlength : (ms.dropWhile base.sameRange).length ≤ rounds := by
            have hle := hsublist.length_le
            simp only [List.length_cons] at hrounds
            omega
          obtain ⟨hbase, htail⟩ := List.pairwise_cons.mp hordered
          have hmem : ∀ n ∈ (arrangeSorted rounds (ms.dropWhile base.sameRange)).1,
              n ∈ ms.dropWhile base.sameRange := fun n hn => (arrangeSorted_account hlength).mem hn
          obtain ⟨hlater, hwraps⟩ := ih hlength (htail.sublist hsublist)
          obtain ⟨haccount, hchain⟩ := chain_account base base (ms.takeWhile base.sameRange)
          -- The markers of the group all have the range of its innermost one.
          have hgroup : ∀ m ∈ (base :: (chain base base (ms.takeWhile base.sameRange)).1).reverse,
              base.start = m.start ∧ base.stop = m.stop := by
            intro m hm
            rw [List.mem_reverse, List.mem_cons] at hm
            rcases hm with rfl | hm
            · exact ⟨rfl, rfl⟩
            · exact (Marker.sameRange_iff base m).mp (List.mem_takeWhile_imp (haccount.mem hm))
          simp only [arrangeSorted]
          refine ⟨List.pairwise_append.mpr ⟨?_, hlater, ?_⟩, List.isChain_append.mpr ⟨?_, hwraps, ?_⟩⟩
          · apply List.pairwise_of_forall_mem_list
            intro m hm n hn
            obtain ⟨hms, hmt⟩ := hgroup m hm
            obtain ⟨hns, hnt⟩ := hgroup n hn
            exact Or.inr ⟨by omega, by omega⟩
          · intro m hm n hn
            obtain ⟨hms, hmt⟩ := hgroup m hm
            rcases hbase n (hsublist.subset (hmem n hn)) with hlt | ⟨heq, hle⟩
            · exact Or.inl (by omega)
            · exact Or.inr ⟨by omega, by omega⟩
          · rw [List.isChain_reverse]
            exact hchain.imp (fun m outer hprecedes _ => hprecedes)
          · intro m hm n hn hsame
            obtain rfl : m = base := by simpa using hm.symm
            have hn' : n ∈ (arrangeSorted rounds (ms.dropWhile m.sameRange)).1 :=
              List.mem_of_mem_head? hn
            rw [not_sameRange_of_mem_dropWhile hordered n (hmem n hn')] at hsame
            cases hsame

/-- The order of a layout is total, and puts a marker in front of another only if it leads
it. -/
theorem Marker.leads_of_layoutLe {m n : Marker κ} (h : m.layoutLe n = true) : m.Leads n := by
  simp [Marker.layoutLe] at h
  rcases h with hlt | ⟨heq, hlt | ⟨heq', _⟩⟩
  · exact Or.inl hlt
  · exact Or.inr ⟨heq, by omega⟩
  · exact Or.inr ⟨heq, by omega⟩

/-- Markers sorted for a layout are in its order. -/
theorem pairwise_layoutLe_mergeSort (ms : List (Marker κ)) :
    (ms.mergeSort Marker.layoutLe).Pairwise (fun m n => m.layoutLe n = true) := by
  apply List.pairwise_mergeSort
  · intro a b c hab hbc
    simp [Marker.layoutLe] at hab hbc ⊢
    omega
  · intro a b
    simp [Marker.layoutLe]
    omega

/-- Markers sorted for a layout lead one another. -/
theorem pairwise_leads_mergeSort (ms : List (Marker κ)) :
    (ms.mergeSort Marker.layoutLe).Pairwise Marker.Leads :=
  (pairwise_layoutLe_mergeSort ms).imp Marker.leads_of_layoutLe

/-- Arranging accounts for all markers, in whatever order they come. -/
theorem arrange_account (ms : List (Marker κ)) :
    Accounted (Doubled (arrange ms).1) ms (arrange ms).1 (arrange ms).2 := by
  have hlength : (ms.mergeSort Marker.layoutLe).length ≤ ms.length := by simp
  exact (arrangeSorted_account hlength).perm (List.mergeSort_perm _ _) (.refl _)

/-- **Arranged markers are in the order of a layout.**  Each leads all later ones, and of two
neighbours over the same tokens the first wraps the second. -/
theorem arrange_ordered (ms : List (Marker κ)) :
    (arrange ms).1.Pairwise Marker.Leads ∧ (arrange ms).1.IsChain Marker.Wraps := by
  have hlength : (ms.mergeSort Marker.layoutLe).length ≤ ms.length := by simp
  exact arrangeSorted_ordered hlength (pairwise_leads_mergeSort ms)

end Lossless
