import Lossless.Proofs.Assembly
import Lossless.Proofs.Layout
import Lossless.Proofs.Screening
import Mathlib

/-!
# Every marker has a place or an anomaly

The three passes of a layout, taken together.  The markers that survive screening and
arranging are laid out as the naive layout has it, and every marker of the input is either
kept, and then has its node in the tree, or is the subject of one anomaly
(`plots_refine_naive`).
-/

namespace Lossless

variable {κ : Type}

/-- The markers that reach the layout, in its order. -/
def arranged (count : Nat) (markers : List (Marker κ)) : List (Marker κ) :=
  (arrange (screen count markers).1).1

/-- Why a marker has no place, as its anomaly says: its range does not fit, a marker with its
number was taken, one that reaches the layout covers the same tokens, or a kept one crosses
it. -/
def Explains (count : Nat) (markers : List (Marker κ)) (a : Anomaly) (m : Marker κ) : Prop :=
  Unfit count ((screen count markers).1.map (·.id)) a m ∨
    Doubled (arranged count markers) a m ∨
    Layout.Overlap (Plot.markers (plots count markers).1) a m

theorem arranged_fits {count : Nat} {markers : List (Marker κ)} {m : Marker κ}
    (hm : m ∈ arranged count markers) : m.start ≤ m.stop ∧ m.stop ≤ count := by
  have hscreened := (arrange_account (screen count markers).1).mem hm
  have hfits := (screen_account count markers).2.1 m hscreened
  rw [Marker.fits_iff] at hfits
  exact ⟨hfits.1, hfits.2.1⟩

theorem arranged_ids_nodup (count : Nat) (markers : List (Marker κ)) :
    ((arranged count markers).map (·.id)).Nodup := by
  obtain ⟨dropped, hperm, _⟩ := arrange_account (screen count markers).1
  have hnodup := (screen_account count markers).2.2
  have hall := ((hperm.map (·.id)).nodup_iff).mpr hnodup
  rw [List.map_append] at hall
  exact (List.nodup_append.mp hall).1

/-- The plots of markers are those of the naive layout, and form a row. -/
theorem plots_naive (count : Nat) (markers : List (Marker κ)) :
    Plot.families none (plots count markers).1 = naiveLayout [] (arranged count markers) ∧
      Plot.Row 0 count (plots count markers).1 := by
  obtain ⟨hnaive, hrow, _⟩ := Layout.ofArranged_naive (fun m hm => arranged_fits hm)
    (arrange_ordered (screen count markers).1).1
  exact ⟨hnaive, hrow⟩

theorem kept_fits {count : Nat} {markers : List (Marker κ)} {m : Marker κ}
    (hm : m ∈ Plot.markers (plots count markers).1) : m.start ≤ m.stop ∧ m.stop ≤ count := by
  obtain ⟨_, _, haccount⟩ := Layout.ofArranged_naive (fun m hm => arranged_fits hm)
    (arrange_ordered (screen count markers).1).1
  exact arranged_fits (haccount.mem hm)

/-- **Every marker is kept or explained**, whatever markers there are. -/
theorem plots_account (count : Nat) (markers : List (Marker κ)) :
    Accounted (Explains count markers) markers (Plot.markers (plots count markers).1)
      (plots count markers).2 := by
  have hscreen : Accounted (Explains count markers) markers (screen count markers).1
      (screen count markers).2 :=
    (screen_account count markers).1.imp (fun _ _ _ ha => Or.inl ha)
  have harrange : Accounted (Explains count markers) (screen count markers).1
      (arranged count markers) (arrange (screen count markers).1).2 :=
    (arrange_account (screen count markers).1).imp (fun _ _ _ ha => Or.inr (Or.inl ha))
  have hlayout : Accounted (Explains count markers) (arranged count markers)
      (Plot.markers (plots count markers).1)
      (Layout.ofArranged (arranged count markers)).anomalies :=
    (Layout.ofArranged_naive (fun m hm => arranged_fits hm)
      (arrange_ordered (screen count markers).1).1).2.2.imp (fun _ _ _ ha => Or.inr (Or.inr ha))
  exact (hscreen.trans harrange).trans hlayout

/-- Plots of markers are laminar. -/
theorem plots_laminar (count : Nat) (markers : List (Marker κ)) :
    Laminar (Plot.families none (plots count markers).1) := by
  have hempty : Laminar ([] : List (Marker κ × Option (Marker κ))) := ⟨.nil, by simp⟩
  rw [(plots_naive count markers).1]
  exact hempty.naiveLayout (fun m hm => (arranged_fits hm).1)
    (arrange_ordered (screen count markers).1).1 (by simp)

/-- What stands on one side of a correspondence has something on the other side. -/
theorem exists_mem_of_forall₂ {α β : Type} {R : α → β → Prop} {as : List α} {bs : List β}
    (h : List.Forall₂ R as bs) {a : α} (ha : a ∈ as) : ∃ b ∈ bs, R a b := by
  induction h with
  | nil => cases ha
  | cons hR _ ih =>
      rcases List.mem_cons.mp ha with rfl | ha
      · exact ⟨_, List.mem_cons_self, hR⟩
      · obtain ⟨b, hb, hab⟩ := ih ha
        exact ⟨b, List.mem_cons_of_mem _ hb, hab⟩

/-- Only a kept marker that crosses another explains an overlap. -/
theorem overlap_of_explains {count id outer : Nat} {markers : List (Marker κ)} {m : Marker κ}
    (h : Explains count markers (.overlapping id outer) m) :
    ∃ p ∈ Plot.markers (plots count markers).1, p.id = outer ∧ m.id = id ∧ p.crosses m = true := by
  rcases h with (⟨heq, _⟩ | ⟨heq, _⟩) | ⟨k, _, _, heq⟩ | ⟨p, hp, hcrosses, heq⟩
  · cases heq
  · cases heq
  · cases heq
  · cases heq
    exact ⟨p, hp, rfl, rfl, hcrosses⟩

/-! ## The tree -/

variable [DecidableEq κ] [Named κ]

theorem distinctErrors_subset (seen : List (Nat × String)) (errors : List ParseError) :
    distinctErrors seen errors ⊆ errors := by
  induction errors generalizing seen with
  | nil => exact List.Subset.refl _
  | cons e es ih =>
      unfold distinctErrors
      split
      · exact List.subset_cons_of_subset e (ih seen)
      · exact List.cons_subset_cons e (ih _)

/-- What the root is made of. -/
theorem build_root (r : Registry κ) (options : BuildOptions) (tokens : List Token)
    (markers : List (Marker κ)) (errors : List ParseError) :
    (build r options tokens markers errors).root =
      .node .root (tokenSpan tokens.toArray 0 tokens.length)
        (BuildContext.ordered
          (BuildContext.ownErrors (plots tokens.length markers).1 (distinctErrors [] errors))
          (BuildContext.assembleParts ⟨tokens.toArray, options, r⟩ (distinctErrors [] errors) 0
            tokens.length (plots tokens.length markers).1).1) :=
  rfl

/-- The leaves of the tree are all tokens that become leaves, in order. -/
theorem tokens_build {r : Registry κ} (hr : r.KeepsParts) (options : BuildOptions)
    (tokens : List Token) (markers : List (Marker κ)) (errors : List ParseError) :
    (build r options tokens markers errors).root.tokens = tokens.filter options.keeps := by
  let b : BuildContext κ := ⟨tokens.toArray, options, r⟩
  have hb : b.registry.KeepsParts := hr
  obtain ⟨hitems, htokens⟩ := b.tokensOf_assembleParts hb (plots tokens.length markers).1
    (distinctErrors [] errors) 0 tokens.length (plots_naive tokens.length markers).2
  rw [build_root, Tree.tokens, BuildContext.tokensOf_ordered _ hitems, htokens]
  exact BuildContext.leafTokens_all tokens options r

/-- Below the root there is one node for each marker that is kept, and one for each error that
is shown. -/
theorem nodes_build {r : Registry κ} (hr : r.KeepsParts) (options : BuildOptions)
    (tokens : List Token) (markers : List (Marker κ)) (errors : List ParseError) :
    ∃ below, (build r options tokens markers errors).root.nodes =
        (build r options tokens markers errors).root :: below ∧
      BuildContext.NodesFor ⟨tokens.toArray, options, r⟩
        (Plot.markers (plots tokens.length markers).1) errors below := by
  let b : BuildContext κ := ⟨tokens.toArray, options, r⟩
  have hb : b.registry.KeepsParts := hr
  have hparts := b.nodesOf_assembleParts hb (plots tokens.length markers).1
    (distinctErrors [] errors) 0 tokens.length (plots_naive tokens.length markers).2
  have hown := hparts.ordered
    (List.filter_subset_self _ :
      BuildContext.ownErrors (plots tokens.length markers).1 (distinctErrors [] errors) ⊆ _)
  rw [build_root, Tree.nodes]
  exact ⟨_, rfl, hown.mono (distinctErrors_subset [] errors)⟩

/-! ## The account of all markers -/

/-- **No marker disappears.**  Of the markers that reach the layout, which are in its order,
those and only those are kept that no marker kept before crosses, and each is right inside of
the innermost marker kept before that contains it.  So kept markers are disjoint or nested,
and siblings are disjoint and in order.  Each marker of the input, as often as it is given,
has one node in the tree or is explained by one anomaly. -/
theorem plots_refine_naive {r : Registry κ} (hr : r.KeepsParts) (options : BuildOptions)
    (tokens : List Token) (markers : List (Marker κ)) (errors : List ParseError) :
    let count := tokens.length
    let roots := (plots count markers).1
    let output := build r options tokens markers errors
    ((arranged count markers).Pairwise Marker.Leads ∧
      (arranged count markers).IsChain Marker.Wraps ∧
      ((arranged count markers).map (·.id)).Nodup) ∧
    Plot.families none roots = naiveLayout [] (arranged count markers) ∧
    (∀ before m parent after, Plot.families none roots = before ++ (m, parent) :: after →
      Innermost (before.map Prod.fst) m parent) ∧
    (Plot.markers roots).Pairwise (fun p m => p.stop ≤ m.start ∨ p.contains m = true) ∧
    Plot.Row 0 count roots ∧
    ∃ leftOut elements shown, (Plot.markers roots ++ leftOut).Perm markers ∧
      List.Forall₂ (Explains count markers) output.anomalies leftOut ∧
      (∀ id outer, .overlapping id outer ∈ output.anomalies →
        ∃ p ∈ Plot.markers roots, ∃ m ∈ leftOut,
          p.id = outer ∧ m.id = id ∧ p.crosses m = true) ∧
      output.root.nodes.Perm (output.root :: elements ++ BuildContext.reports shown) ∧
      List.Forall₂ (BuildContext.MadeFor ⟨tokens.toArray, options, r⟩) (Plot.markers roots)
        elements ∧
      ∀ e ∈ shown, e ∈ errors := by
  intro count roots output
  obtain ⟨hleads, hwraps⟩ := arrange_ordered (screen count markers).1
  obtain ⟨hnaive, hrow⟩ := plots_naive count markers
  have hlaminar := plots_laminar count markers
  obtain ⟨leftOut, hperm, hexplained⟩ := plots_account count markers
  obtain ⟨below, hroot, elements, shown, hbelow, hmade, hshown⟩ :=
    nodes_build hr options tokens markers errors
  refine ⟨⟨hleads, hwraps, arranged_ids_nodup count markers⟩, hnaive, hlaminar.parents, ?_, hrow,
    leftOut, elements, shown, hperm, hexplained, ?_, ?_, hmade, hshown⟩
  · exact hlaminar.clear.imp (fun h => h.1.stop_le_or_contains h.2)
  · intro id outer hmem
    obtain ⟨m, hm, hexplains⟩ := exists_mem_of_forall₂ hexplained hmem
    obtain ⟨p, hp, houter, hid, hcrosses⟩ := overlap_of_explains hexplains
    exact ⟨p, hp, m, hm, houter, hid, hcrosses⟩
  · rw [hroot]
    exact hbelow.cons _

/-- Seven markers over four tokens, of which one wraps another and four have no place. -/
def assortedMarkers : List (Marker String) :=
  [⟨4, 1, 3, "group", none⟩, ⟨1, 0, 2, "sum", none⟩, ⟨2, 0, 2, "statement", some 1⟩,
    ⟨3, 1, 1, "gap", none⟩, ⟨3, 0, 1, "again", none⟩, ⟨5, 0, 2, "double", none⟩,
    ⟨6, 2, 9, "long", none⟩]

/-- Each of the seven markers has a node or an anomaly. -/
theorem plots_refine_naive_assorted :
    let tokens := Token.lay [(.identifier, "a"), (.operator, "+"), (.identifier, "b")]
    ({} : Registry String).KeepsParts ∧
      (Plot.families none (plots 4 assortedMarkers).1).map
        (fun f => (f.1.id, f.2.map (·.id))) = [(2, none), (1, some 2), (3, some 1)] ∧
      ∃ leftOut elements, (Plot.markers (plots 4 assortedMarkers).1 ++ leftOut).Perm
          assortedMarkers ∧
        List.Forall₂ (Explains 4 assortedMarkers)
          [.duplicateId 3, .invalidRange 6 2 9, .duplicateRange 5 1 0 2, .overlapping 4 1]
          leftOut ∧
        List.Forall₂ (BuildContext.MadeFor ⟨tokens.toArray, {}, {}⟩)
          (Plot.markers (plots 4 assortedMarkers).1) elements := by
  intro tokens
  have hr : ({} : Registry String).KeepsParts := Registry.keepsParts_empty
  obtain ⟨_, _, _, _, _, leftOut, elements, _, hperm, hexplained, _, _, hmade, _⟩ :=
    plots_refine_naive hr {} tokens assortedMarkers []
  refine ⟨hr, by cbv, leftOut, elements, hperm, ?_, hmade⟩
  have hanomalies : (build {} {} tokens assortedMarkers []).anomalies =
      [.duplicateId 3, .invalidRange 6 2 9, .duplicateRange 5 1 0 2, .overlapping 4 1] := by cbv
  rwa [hanomalies] at hexplained

end Lossless
