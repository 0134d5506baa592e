import Lossless.Proofs.CleanNesting
import Lossless.Proofs.Diagnosis

/-!
# Where reported errors land

A node of a built tree does not tell for which marker it was made, and a constructor may give it
any kind and any span.  A *draft* is a tree that does tell: its leaves are tokens with their
indices and reported errors, and its elements are markers.  The builder's tree is grown from the
draft of its plots (`BuildContext.grow_draft`), part by part, if constructors keep the parts.

What is said about errors is said about the draft.  A site in it is a part with the markers
around it, and **the markers around a reported error are all those that cover its token**
(`BuildContext.reports_draft`).  This is so because plots in a row do not overlap: an error that
one of them covers is covered by no marker in the others.
-/

namespace Lossless

variable {κ : Type}

/-! ## Drafts -/

/-- What a part of a tree stands for. -/
inductive Draft (κ : Type) where
  /-- A token, with its index. -/
  | leaf (index : Nat) (token : Token)
  /-- An error that was reported. -/
  | report (error : ParseError)
  /-- The element of a marker, with its parts in order. -/
  | element (marker : Marker κ) (parts : List (Draft κ))

namespace Draft

/-- The index of the token at which a part stands. -/
def index : Draft κ → Nat
  | leaf i _ => i
  | report e => e.index
  | element m _ => m.start

/-- The place among parts with the same index. -/
def rank : Draft κ → Nat
  | leaf _ _ => 2
  | report _ => 0
  | element m _ => if m.isEmpty then 1 else 2

/-- Whether a part is a reported error. -/
def isReport : Draft κ → Bool
  | report _ => true
  | _ => false

/-- Whether a part comes no later than another. -/
def le (a b : Draft κ) : Bool :=
  a.index < b.index || (a.index == b.index && a.rank ≤ b.rank)

/-- The parts of a node in order, from the errors that belong to it and all else. -/
def sorted (own : List ParseError) (parts : List (Draft κ)) : List (Draft κ) :=
  (own.map report ++ parts).mergeSort le

/-- How a part stands to one behind it in a row: a reported error comes behind everything else at
an earlier token, and in front of everything at its own token or a later one. -/
structure Leads (a b : Draft κ) : Prop where
  behind : b.isReport = true → a.isReport = false → a.index < b.index
  front : a.isReport = true → a.index ≤ b.index

theorem le_iff (a b : Draft κ) :
    a.le b = true ↔ a.index < b.index ∨ a.index = b.index ∧ a.rank ≤ b.rank := by
  simp [le]

theorem rank_eq_zero_iff (d : Draft κ) : d.rank = 0 ↔ d.isReport = true := by
  cases d with
  | leaf i t => simp [rank, isReport]
  | report e => simp [rank, isReport]
  | element m parts =>
      simp only [rank, isReport]
      split <;> simp

theorem leads_of_le {a b : Draft κ} (h : a.le b = true) : a.Leads b := by
  rw [le_iff] at h
  constructor
  · intro hb ha
    have hrank := (rank_eq_zero_iff b).mpr hb
    have hrank' : a.rank ≠ 0 := by
      rw [Ne, rank_eq_zero_iff, ha]
      simp
    omega
  · intro _
    omega

/-- **In sorted parts, every reported error is where it belongs.** -/
theorem leads_sorted (own : List ParseError) (parts : List (Draft κ)) :
    (sorted own parts).Pairwise Leads := by
  have htrans : ∀ a b c : Draft κ, a.le b = true → b.le c = true → a.le c = true := by
    intro a b c hab hbc
    rw [le_iff] at hab hbc ⊢
    omega
  have htotal : ∀ a b : Draft κ, (a.le b || b.le a) = true := by
    intro a b
    rw [Bool.or_eq_true, le_iff, le_iff]
    omega
  exact (List.pairwise_mergeSort htrans htotal _).imp leads_of_le

end Draft

/-! ## Sites -/

/-- A part in a draft, with the markers of the elements around it, the outermost first. -/
structure Site (κ : Type) where
  around : List (Marker κ)
  draft : Draft κ

namespace Site

/-- The token of a leaf, with its index. -/
def leaf? (s : Site κ) : Option (Nat × Token) :=
  match s.draft with
  | .leaf i t => some (i, t)
  | _ => none

/-- A reported error, with the markers around it. -/
def report? (s : Site κ) : Option (List (Marker κ) × ParseError) :=
  match s.draft with
  | .report e => some (s.around, e)
  | _ => none

/-- The marker of an element, with the one right around it. -/
def element? (s : Site κ) : Option (Marker κ × Option (Marker κ)) :=
  match s.draft with
  | .element m _ => some (m, s.around.getLast?)
  | _ => none

/-- The parts of an element. -/
def row? (s : Site κ) : Option (List (Draft κ)) :=
  match s.draft with
  | .element _ parts => some parts
  | _ => none

end Site

namespace Draft

mutual

/-- The sites in a draft, each in front of those below it. -/
def sites (around : List (Marker κ)) : Draft κ → List (Site κ)
  | leaf i t => [⟨around, leaf i t⟩]
  | report e => [⟨around, report e⟩]
  | element m parts => ⟨around, element m parts⟩ :: sitesOf (around ++ [m]) parts

/-- The sites in a row of drafts. -/
def sitesOf (around : List (Marker κ)) : List (Draft κ) → List (Site κ)
  | [] => []
  | d :: ds => sites around d ++ sitesOf around ds

end

variable (around : List (Marker κ))

theorem sitesOf_eq_flatMap (ds : List (Draft κ)) :
    sitesOf around ds = ds.flatMap (sites around) := by
  induction ds with
  | nil => rfl
  | cons d ds ih => rw [sitesOf, ih, List.flatMap_cons]

@[simp] theorem sitesOf_append (ds es : List (Draft κ)) :
    sitesOf around (ds ++ es) = sitesOf around ds ++ sitesOf around es := by
  simp [sitesOf_eq_flatMap]

theorem sitesOf_reports (own : List ParseError) :
    sitesOf around (own.map report) = own.map fun e => ⟨around, report e⟩ := by
  induction own with
  | nil => rfl
  | cons e own ih => rw [List.map_cons, sitesOf, ih, sites, List.singleton_append, List.map_cons]

/-- The sites of sorted parts are those of the errors and of the parts. -/
theorem sitesOf_sorted (own : List ParseError) (parts : List (Draft κ)) :
    (sitesOf around (sorted own parts)).Perm
      (own.map (fun e => ⟨around, report e⟩) ++ sitesOf around parts) := by
  have hperm := (List.mergeSort_perm (own.map report ++ parts) le).flatMap_right (sites around)
  rwa [← sitesOf_eq_flatMap, ← sitesOf_eq_flatMap, sitesOf_append, sitesOf_reports] at hperm

end Draft

/-! ## The draft of plots -/

namespace BuildContext

/-- The tokens from `start` up to `stop` that become leaves, with their indices. -/
def stretch (b : BuildContext κ) (start stop : Nat) : List (Nat × Token) :=
  (List.range' start (stop - start)).filterMap fun i =>
    (b.tokens[i]?.filter b.options.keeps).map fun t => (i, t)

theorem stretch_append (b : BuildContext κ) {i j k : Nat} (hij : i ≤ j) (hjk : j ≤ k) :
    b.stretch i j ++ b.stretch j k = b.stretch i k := by
  have hlength : k - i = (j - i) + (k - j) := by omega
  have hmiddle : i + 1 * (j - i) = j := by omega
  have hrange : List.range' i (k - i) = List.range' i (j - i) ++ List.range' j (k - j) := by
    rw [hlength, ← List.range'_append, hmiddle]
  rw [stretch, stretch, stretch, hrange, List.filterMap_append]

/-- The leaves of a stretch. -/
def leafDrafts (b : BuildContext κ) (start stop : Nat) : List (Draft κ) :=
  (b.stretch start stop).map fun u => .leaf u.1 u.2

mutual

/-- What the tree of a plot stands for, given the errors that belong to it or below. -/
def draft (b : BuildContext κ) (errors : List ParseError) : Plot κ → Draft κ
  | .mk m inner =>
    .element m (Draft.sorted (ownErrors inner errors) (draftParts b errors m.start m.stop inner))

/-- What the tokens from `cursor` up to `stop` and the plots among them stand for. -/
def draftParts (b : BuildContext κ) (errors : List ParseError) (cursor stop : Nat) :
    List (Plot κ) → List (Draft κ)
  | [] => b.leafDrafts cursor stop
  | p :: ps =>
    let m := p.marker
    b.leafDrafts cursor m.start ++
      draft b (errors.filter fun e => m.covers e.index) p ::
        draftParts b errors (max cursor m.stop) stop ps

end

variable [DecidableEq κ] [Named κ]

mutual

/-- The tree that a draft stands for. -/
def grow (b : BuildContext κ) : Draft κ → Tree κ
  | .leaf _ t => .leaf t
  | .report e => (errorLeaf e).tree
  | .element m parts => (b.close m (growAll b parts) []).tree

/-- The trees that a row of drafts stands for. -/
def growAll (b : BuildContext κ) : List (Draft κ) → List (Tree κ)
  | [] => []
  | d :: ds => grow b d :: growAll b ds

end

/-- A draft on its way to its place. -/
def item (b : BuildContext κ) (d : Draft κ) : Item κ := ⟨d.index, d.rank, b.grow d⟩

theorem growAll_eq_map (b : BuildContext κ) (ds : List (Draft κ)) :
    b.growAll ds = ds.map b.grow := by
  induction ds with
  | nil => rfl
  | cons d ds ih => rw [growAll, ih, List.map_cons]

/-- Sorting drafts and growing them is growing and sorting. -/
theorem growAll_sorted (b : BuildContext κ) (own : List ParseError) (parts : List (Draft κ)) :
    b.growAll (Draft.sorted own parts) = ordered own (parts.map b.item) := by
  have hsort : ((own.map Draft.report ++ parts).mergeSort Draft.le).map b.item =
      ((own.map Draft.report ++ parts).map b.item).mergeSort Item.le :=
    List.map_mergeSort fun _ _ _ _ => rfl
  have hreports : (own.map Draft.report).map b.item = own.map errorLeaf := by
    rw [List.map_map]
    exact List.map_congr_left fun e _ => by simp [item, Draft.index, Draft.rank, grow, errorLeaf]
  rw [ordered, ← hreports, ← List.map_append, ← hsort, growAll_eq_map, List.map_map]
  rfl

theorem map_item_leafDrafts (b : BuildContext κ) (start stop : Nat) :
    (b.leafDrafts start stop).map b.item = b.leaves start stop := by
  rw [leafDrafts, stretch, leaves, List.map_map, List.map_filterMap]
  congr 1
  funext i
  cases ht : b.tokens[i]? with
  | none => rfl
  | some t =>
      cases hkeeps : b.options.keeps t <;>
        simp [hkeeps, item, Draft.index, Draft.rank, grow]

mutual

/-- **The builder's tree of a plot is grown from its draft.** -/
theorem grow_draft (b : BuildContext κ) :
    ∀ (p : Plot κ) (errors : List ParseError),
      b.grow (b.draft errors p) = (b.assemble errors p).tree
  | .mk m inner, errors => by
      rw [draft, grow, growAll_sorted, map_item_draftParts b inner errors m.start m.stop, assemble]
      exact (close_tree_eq b m _ _).symm

theorem map_item_draftParts (b : BuildContext κ) :
    ∀ (ps : List (Plot κ)) (errors : List ParseError) (cursor stop : Nat),
      (b.draftParts errors cursor stop ps).map b.item = (b.assembleParts errors cursor stop ps).1
  | [], errors, cursor, stop => by
      rw [draftParts, assembleParts, map_item_leafDrafts]
  | p :: ps, errors, cursor, stop => by
      have hrest := map_item_draftParts b ps errors (max cursor p.marker.stop) stop
      have hnode : b.item (b.draft (errors.filter fun e => p.marker.covers e.index) p) =
          ⟨p.marker.start, if p.marker.isEmpty then 1 else 2,
            (b.assemble (errors.filter fun e => p.marker.covers e.index) p).tree⟩ := by
        rw [item, grow_draft b p]
        obtain ⟨m, inner⟩ := p
        rfl
      rw [draftParts, assembleParts, List.map_append, List.map_cons, map_item_leafDrafts, hnode,
        hrest]

end

/-- An element grows into a node whose parts are grown from its parts. -/
theorem grow_element {b : BuildContext κ} (hb : b.registry.KeepsParts) (m : Marker κ)
    (parts : List (Draft κ)) :
    ∃ kind span, b.grow (.element m parts) = .node kind span (b.growAll parts) :=
  close_parts hb m (b.growAll parts) []

end BuildContext

/-! ## The sites of a draft -/

namespace BuildContext

variable (b : BuildContext κ)

theorem sitesOf_leafDrafts (around : List (Marker κ)) (start stop : Nat) :
    Draft.sitesOf around (b.leafDrafts start stop) =
      (b.stretch start stop).map fun u => ⟨around, .leaf u.1 u.2⟩ := by
  rw [leafDrafts]
  induction b.stretch start stop with
  | nil => rfl
  | cons u us ih => rw [List.map_cons, Draft.sitesOf, ih, Draft.sites, List.map_cons]; rfl

section Reading

variable {β : Type} (f : Site κ → Option β) (around : List (Marker κ)) (errors : List ParseError)

/-- What is read off the draft of a plot: off the element itself, off the errors that belong to it,
and off what is below. -/
theorem filterMap_sites_draft (m : Marker κ) (inner : List (Plot κ)) :
    (((b.draft errors (.mk m inner)).sites around).filterMap f).Perm
      ((f ⟨around, b.draft errors (.mk m inner)⟩).toList ++
        ((ownErrors inner errors).filterMap (fun e => f ⟨around ++ [m], .report e⟩) ++
          (Draft.sitesOf (around ++ [m])
            (b.draftParts errors m.start m.stop inner)).filterMap f)) := by
  have hbelow := (Draft.sitesOf_sorted (around ++ [m]) (ownErrors inner errors)
    (b.draftParts errors m.start m.stop inner)).filterMap f
  rw [List.filterMap_append, List.filterMap_map] at hbelow
  rw [draft, Draft.sites, ← List.singleton_append, List.filterMap_append]
  refine List.Perm.append ?_ hbelow
  cases hf : f ⟨around, .element m _⟩ <;> simp [hf]

theorem filterMap_sitesOf_nil (cursor stop : Nat) :
    (Draft.sitesOf around (b.draftParts errors cursor stop [])).filterMap f =
      (b.stretch cursor stop).filterMap fun u => f ⟨around, .leaf u.1 u.2⟩ := by
  rw [draftParts, sitesOf_leafDrafts, List.filterMap_map]
  rfl

/-- What is read off the draft of a row of plots, plot by plot. -/
theorem filterMap_sitesOf_cons (p : Plot κ) (ps : List (Plot κ)) (cursor stop : Nat) :
    (Draft.sitesOf around (b.draftParts errors cursor stop (p :: ps))).filterMap f =
      (b.stretch cursor p.marker.start).filterMap (fun u => f ⟨around, .leaf u.1 u.2⟩) ++
        (((b.draft (errors.filter fun e => p.marker.covers e.index) p).sites around).filterMap f ++
          (Draft.sitesOf around
            (b.draftParts errors (max cursor p.marker.stop) stop ps)).filterMap f) := by
  rw [draftParts, Draft.sitesOf_append, sitesOf_leafDrafts, Draft.sitesOf, List.filterMap_append,
    List.filterMap_append, List.filterMap_map]
  rfl

end Reading

/-! ## Leaves and elements -/

mutual

theorem leaves_draft (around : List (Marker κ)) :
    ∀ (p : Plot κ) (errors : List ParseError), p.Tidy →
      (((b.draft errors p).sites around).filterMap Site.leaf?).Perm
        (b.stretch p.marker.start p.marker.stop)
  | .mk m inner, errors, htidy => by
      have hbelow := leaves_draftParts (around ++ [m]) inner errors m.start m.stop htidy.2
      refine (b.filterMap_sites_draft Site.leaf? around errors m inner).trans ?_
      simpa [Site.leaf?, draft, Plot.marker] using hbelow

/-- The leaves of a row of plots are its tokens, each once. -/
theorem leaves_draftParts (around : List (Marker κ)) :
    ∀ (ps : List (Plot κ)) (errors : List ParseError) (cursor stop : Nat),
      Plot.Row cursor stop ps →
      ((Draft.sitesOf around (b.draftParts errors cursor stop ps)).filterMap Site.leaf?).Perm
        (b.stretch cursor stop)
  | [], errors, cursor, stop, _ => by
      rw [filterMap_sitesOf_nil]
      simp [Site.leaf?]
  | p :: ps, errors, cursor, stop, hrow => by
      obtain ⟨hcursor, htidy, hrow⟩ := hrow
      have hp := htidy.le
      have hmax : max cursor p.marker.stop = p.marker.stop := by omega
      have htree := leaves_draft around p (errors.filter fun e => p.marker.covers e.index) htidy
      have hrest := leaves_draftParts around ps errors p.marker.stop stop hrow
      rw [filterMap_sitesOf_cons, hmax, ← b.stretch_append hcursor (Nat.le_trans hp hrow.le),
        ← b.stretch_append hp hrow.le]
      refine List.Perm.append ?_ (htree.append hrest)
      simp [Site.leaf?]

end

mutual

theorem elements_draft (around : List (Marker κ)) :
    ∀ (p : Plot κ) (errors : List ParseError),
      (((b.draft errors p).sites around).filterMap Site.element?).Perm
        (p.family around.getLast?)
  | .mk m inner, errors => by
      have hbelow := elements_draftParts (around ++ [m]) inner errors m.start m.stop
      refine (b.filterMap_sites_draft Site.element? around errors m inner).trans ?_
      simpa [Site.element?, draft, Plot.family] using hbelow

/-- The elements of a row of plots are its markers, each right inside of the one it belongs
into. -/
theorem elements_draftParts (around : List (Marker κ)) :
    ∀ (ps : List (Plot κ)) (errors : List ParseError) (cursor stop : Nat),
      ((Draft.sitesOf around (b.draftParts errors cursor stop ps)).filterMap Site.element?).Perm
        (Plot.families around.getLast? ps)
  | [], errors, cursor, stop => by
      rw [filterMap_sitesOf_nil]
      simp [Site.element?, Plot.families]
  | p :: ps, errors, cursor, stop => by
      have htree := elements_draft around p (errors.filter fun e => p.marker.covers e.index)
      have hrest := elements_draftParts around ps errors (max cursor p.marker.stop) stop
      rw [filterMap_sitesOf_cons, Plot.families]
      simpa [Site.element?] using htree.append hrest

end

mutual

theorem rows_draft (around : List (Marker κ)) :
    ∀ (p : Plot κ) (errors : List ParseError),
      ∀ row ∈ ((b.draft errors p).sites around).filterMap Site.row?, row.Pairwise Draft.Leads
  | .mk m inner, errors => by
      have hbelow := rows_draftParts (around ++ [m]) inner errors m.start m.stop
      intro row hrow
      rw [(b.filterMap_sites_draft Site.row? around errors m inner).mem_iff] at hrow
      simp only [Site.row?, draft, Option.toList_some, List.filterMap_none, List.nil_append,
        List.singleton_append, List.mem_cons] at hrow
      rcases hrow with rfl | hrow
      · exact Draft.leads_sorted _ _
      · exact hbelow row hrow

/-- **In every element of a row of plots, each reported error is where it belongs.** -/
theorem rows_draftParts (around : List (Marker κ)) :
    ∀ (ps : List (Plot κ)) (errors : List ParseError) (cursor stop : Nat),
      ∀ row ∈ (Draft.sitesOf around (b.draftParts errors cursor stop ps)).filterMap Site.row?,
        row.Pairwise Draft.Leads
  | [], errors, cursor, stop => by
      rw [filterMap_sitesOf_nil]
      simp [Site.row?]
  | p :: ps, errors, cursor, stop => by
      have htree := rows_draft around p (errors.filter fun e => p.marker.covers e.index)
      have hrest := rows_draftParts around ps errors (max cursor p.marker.stop) stop
      rw [filterMap_sitesOf_cons]
      simpa [Site.row?, or_imp, forall_and] using And.intro htree hrest

end

end BuildContext

/-! ## Errors -/

/-- The markers of plots that cover a token, the outermost first. -/
def Plot.covering (ps : List (Plot κ)) (index : Nat) : List (Marker κ) :=
  (markers ps).filter fun m => m.covers index

namespace Plot

variable {ps : List (Plot κ)} {p : Plot κ} {start stop index : Nat}

theorem covering_eq_nil (h : ∀ m ∈ markers ps, m.covers index = false) :
    covering ps index = [] := by
  rw [covering, List.filter_eq_nil_iff]
  intro m hm
  rw [h m hm]
  exact Bool.false_ne_true

theorem covering_cons (p : Plot κ) (ps : List (Plot κ)) (index : Nat) :
    covering (p :: ps) index = covering [p] index ++ covering ps index := by
  rw [covering, ← List.singleton_append, markers_append, List.filter_append]
  rfl

theorem covering_mk {m : Marker κ} (hm : m.covers index = true) (inner : List (Plot κ)) :
    covering [.mk m inner] index = m :: covering inner index := by
  have hall : markers [.mk m inner] = m :: markers inner := by simp
  rw [covering, hall, List.filter_cons, if_pos hm, covering]

theorem covers_iff {m : Marker κ} : m.covers index = true ↔ m.start ≤ index ∧ index < m.stop := by
  simp [Marker.covers]

theorem covers_eq_false {m : Marker κ} (h : index < m.start ∨ m.stop ≤ index) :
    m.covers index = false := by
  rw [Bool.eq_false_iff, Ne, covers_iff]
  omega

/-- A token that a plot does not cover is covered by no marker in it. -/
theorem Tidy.covering_eq_nil (h : p.Tidy) (hp : p.marker.covers index = false) :
    covering [p] index = [] := by
  apply Plot.covering_eq_nil
  intro m hm
  have hinside := h.within m hm
  have hout : ¬ (p.marker.start ≤ index ∧ index < p.marker.stop) := by
    rw [← covers_iff, hp]
    exact Bool.false_ne_true
  exact covers_eq_false (by omega)

/-- A token that no plot of a row covers is covered by no marker. -/
theorem Row.covering_eq_nil (h : Row start stop ps)
    (hps : ∀ p ∈ ps, p.marker.covers index = false) : covering ps index = [] := by
  induction ps generalizing start with
  | nil => rfl
  | cons p ps ih =>
      obtain ⟨hp, hrest⟩ := List.forall_mem_cons.mp hps
      rw [covering_cons, h.2.1.covering_eq_nil hp, ih h.2.2 hrest]
      rfl

/-- **Plots in a row cover different tokens**: what the first one covers, the others do not. -/
theorem Row.covers_apart (h : Row start stop (p :: ps)) (hp : p.marker.covers index = true) :
    ∀ q ∈ ps, q.marker.covers index = false := by
  intro q hq
  have hbehind := (h.2.2.mem hq).1
  rw [covers_iff] at hp
  exact covers_eq_false (by omega)

end Plot

/-- Elements of which one of two things holds, and never both. -/
theorem filter_or_perm {α : Type} {p q : α → Bool} {as : List α}
    (h : ∀ a, p a = true → q a = false) :
    (as.filter fun a => p a || q a).Perm (as.filter p ++ as.filter q) := by
  have hsplit := List.filter_append_perm p (as.filter fun a => p a || q a)
  have hleft : (as.filter fun a => p a || q a).filter p = as.filter p := by
    rw [List.filter_filter]
    refine List.filter_congr fun a _ => ?_
    cases p a <;> rfl
  have hright : ((as.filter fun a => p a || q a).filter fun a => !p a) = as.filter q := by
    rw [List.filter_filter]
    refine List.filter_congr fun a _ => ?_
    cases hp : p a with
    | true => rw [h a hp]; rfl
    | false => rfl
  rw [hleft, hright] at hsplit
  exact hsplit.symm

namespace BuildContext

variable (b : BuildContext κ)

section Sharing

variable {start stop : Nat} {inner : List (Plot κ)} (around : List (Marker κ))
  (errors : List ParseError)

/-- The errors of a node: those that belong to it, and those below. -/
theorem own_append_below_perm (hrow : Plot.Row start stop inner) :
    ((ownErrors inner errors).map (fun e => (around, e)) ++
        (errors.filter fun e => inner.any fun p => p.marker.covers e.index).map fun e =>
          (around ++ Plot.covering inner e.index, e)).Perm
      (errors.map fun e => (around ++ Plot.covering inner e.index, e)) := by
  have hown : (ownErrors inner errors).map (fun e => (around, e)) =
      (ownErrors inner errors).map fun e => (around ++ Plot.covering inner e.index, e) := by
    refine List.map_congr_left fun e he => ?_
    have hnone : (inner.any fun p => p.marker.covers e.index) = false := by
      simpa using (List.mem_filter.mp he).2
    rw [hrow.covering_eq_nil (by simpa using hnone), List.append_nil]
  rw [hown, ← List.map_append]
  refine List.Perm.map _ (List.perm_append_comm.trans ?_)
  exact List.filter_append_perm (fun e => inner.any fun p => p.marker.covers e.index) errors

/-- The errors of a row of plots: those in the first one, and those in the others. -/
theorem first_append_later_perm {p : Plot κ} {ps : List (Plot κ)}
    (hrow : Plot.Row start stop (p :: ps)) :
    ((errors.filter fun e => p.marker.covers e.index).map (fun e =>
          (around ++ Plot.covering [p] e.index, e)) ++
        (errors.filter fun e => ps.any fun q => q.marker.covers e.index).map fun e =>
          (around ++ Plot.covering ps e.index, e)).Perm
      ((errors.filter fun e => (p :: ps).any fun q => q.marker.covers e.index).map fun e =>
        (around ++ Plot.covering (p :: ps) e.index, e)) := by
  have hapart : ∀ e : ParseError, p.marker.covers e.index = true →
      (ps.any fun q => q.marker.covers e.index) = false := by
    intro e he
    simpa using hrow.covers_apart he
  have hfirst : ((errors.filter fun e => p.marker.covers e.index).map fun e =>
        (around ++ Plot.covering (p :: ps) e.index, e)) =
      (errors.filter fun e => p.marker.covers e.index).map fun e =>
        (around ++ Plot.covering [p] e.index, e) := by
    refine List.map_congr_left fun e he => ?_
    have hnone := hrow.2.2.covering_eq_nil (hrow.covers_apart (List.mem_filter.mp he).2)
    rw [Plot.covering_cons, hnone, List.append_nil]
  have hlater : ((errors.filter fun e => ps.any fun q => q.marker.covers e.index).map fun e =>
        (around ++ Plot.covering (p :: ps) e.index, e)) =
      (errors.filter fun e => ps.any fun q => q.marker.covers e.index).map fun e =>
        (around ++ Plot.covering ps e.index, e) := by
    refine List.map_congr_left fun e he => ?_
    have hnot : p.marker.covers e.index = false := by
      rw [Bool.eq_false_iff]
      intro hp
      have hsome := (List.mem_filter.mp he).2
      rw [hapart e hp] at hsome
      cases hsome
    rw [Plot.covering_cons, hrow.2.1.covering_eq_nil hnot, List.nil_append]
  rw [← hfirst, ← hlater, ← List.map_append]
  exact (filter_or_perm hapart).symm.map _

end Sharing

mutual

theorem reports_draft (around : List (Marker κ)) :
    ∀ (p : Plot κ) (errors : List ParseError), p.Tidy →
      (∀ e ∈ errors, p.marker.covers e.index = true) →
      (((b.draft errors p).sites around).filterMap Site.report?).Perm
        (errors.map fun e => (around ++ Plot.covering [p] e.index, e))
  | .mk m inner, errors, htidy, hcovered => by
      have hbelow := reports_draftParts (around ++ [m]) inner errors m.start m.stop htidy.2
      have hall : (errors.map fun e => (around ++ Plot.covering [.mk m inner] e.index, e)) =
          errors.map fun e => (around ++ [m] ++ Plot.covering inner e.index, e) := by
        refine List.map_congr_left fun e he => ?_
        have hm : m.covers e.index = true := hcovered e he
        rw [Plot.covering_mk hm, List.append_assoc, List.singleton_append]
      rw [hall]
      refine (b.filterMap_sites_draft Site.report? around errors m inner).trans ?_
      refine List.Perm.trans ?_ (own_append_below_perm (around ++ [m]) errors htidy.2)
      have hown : ((ownErrors inner errors).filterMap fun e =>
            Site.report? ⟨around ++ [m], .report e⟩) =
          (ownErrors inner errors).map fun e => (around ++ [m], e) :=
        congrFun List.filterMap_eq_map _
      rw [hown]
      simpa only [Site.report?, draft, Option.toList_none, List.nil_append] using
        hbelow.append_left _

/-- **The markers around a reported error are all those that cover its token.** -/
theorem reports_draftParts (around : List (Marker κ)) :
    ∀ (ps : List (Plot κ)) (errors : List ParseError) (cursor stop : Nat),
      Plot.Row cursor stop ps →
      ((Draft.sitesOf around (b.draftParts errors cursor stop ps)).filterMap Site.report?).Perm
        ((errors.filter fun e => ps.any fun p => p.marker.covers e.index).map fun e =>
          (around ++ Plot.covering ps e.index, e))
  | [], errors, cursor, stop, _ => by
      rw [filterMap_sitesOf_nil]
      simp [Site.report?]
  | p :: ps, errors, cursor, stop, hrow => by
      have hmax : max cursor p.marker.stop = p.marker.stop := by
        have hstart := hrow.1
        have hp := hrow.2.1.le
        omega
      have htree := reports_draft around p (errors.filter fun e => p.marker.covers e.index) hrow.2.1
        (fun e he => (List.mem_filter.mp he).2)
      have hrest := reports_draftParts around ps errors p.marker.stop stop hrow.2.2
      refine List.Perm.trans ?_ (first_append_later_perm around errors hrow)
      rw [filterMap_sitesOf_cons, hmax]
      simpa [Site.report?] using htree.append hrest

end

end BuildContext

/-! ## Errors that repeat another -/

/-- Two errors count as one if they have the same token and the same message. -/
def ParseError.same (e d : ParseError) : Bool :=
  d.index == e.index && d.message == e.message

theorem ParseError.same_iff {e d : ParseError} :
    e.same d = true ↔ (d.index, d.message) = (e.index, e.message) := by
  simp [ParseError.same]

/-- **The errors that are shown are the first ones of their kind.** -/
theorem mem_distinctErrors_iff (seen : List (Nat × String)) (errors : List ParseError)
    (e : ParseError) :
    e ∈ distinctErrors seen errors ↔
      (e.index, e.message) ∉ seen ∧ errors.find? e.same = some e := by
  induction errors generalizing seen with
  | nil => simp [distinctErrors]
  | cons d ds ih =>
      rw [distinctErrors]
      by_cases hsame : e.same d = true
      · have hkey := ParseError.same_iff.mp hsame
        rw [List.find?_cons_of_pos hsame]
        split
        · rename_i hseen
          rw [ih, ← hkey]
          simp [List.contains_iff_mem.mp hseen]
        · rename_i hseen
          have hnot : (e.index, e.message) ∉ seen := by
            rw [← hkey]
            simpa using hseen
          rw [List.mem_cons, ih, ← hkey]
          simp [hkey, hnot, eq_comm]
      · have hkey : (e.index, e.message) ≠ (d.index, d.message) :=
          fun heq => hsame (ParseError.same_iff.mpr heq.symm)
        have hne : e ≠ d := by
          rintro rfl
          exact hkey rfl
        rw [List.find?_cons_of_neg hsame]
        split
        · exact ih seen
        · rw [List.mem_cons, ih, List.mem_cons]
          simp [hne, hkey]

theorem nodup_distinctErrors (seen : List (Nat × String)) (errors : List ParseError) :
    ((distinctErrors seen errors).map fun e => (e.index, e.message)).Nodup := by
  induction errors generalizing seen with
  | nil => exact .nil
  | cons d ds ih =>
      rw [distinctErrors]
      split
      · exact ih seen
      · rw [List.map_cons, List.nodup_cons]
        refine ⟨?_, ih _⟩
        intro hmem
        obtain ⟨e, he, hkey⟩ := List.mem_map.mp hmem
        exact ((mem_distinctErrors_iff _ _ e).mp he).1 (hkey ▸ List.mem_cons_self)

/-! ## Trees -/

/-- No constructor builds a node that stands for a reported error. -/
def Registry.MakesNoReport [DecidableEq κ] (r : Registry κ) : Prop :=
  ∀ kind constructor, r.get? kind = some constructor → ∀ m parts span node,
    constructor m parts span = .built node → node.errorIndex? = none

namespace BuildContext

variable [DecidableEq κ] [Named κ] {b : BuildContext κ}

/-- The node that stands at a site, if it is not a leaf. -/
def node? (b : BuildContext κ) (s : Site κ) : Option (Tree κ) :=
  match s.draft with
  | .leaf _ _ => none
  | d => some (b.grow d)

mutual

theorem nodes_grow (hb : b.registry.KeepsParts) (around : List (Marker κ)) :
    ∀ d : Draft κ, (b.grow d).nodes = (d.sites around).filterMap b.node?
  | .leaf i t => rfl
  | .report e => rfl
  | .element m parts => by
      obtain ⟨kind, span, hnode⟩ := grow_element hb m parts
      have hbelow := nodesOf_growAll hb (around ++ [m]) parts
      have hself : b.node? ⟨around, .element m parts⟩ =
          some (.node kind span (b.growAll parts)) := by
        rw [← hnode]
        rfl
      rw [Draft.sites, List.filterMap_cons_some hself, ← hbelow, hnode, Tree.nodes]

/-- **The nodes of a tree are those of the sites in its draft**, one for one. -/
theorem nodesOf_growAll (hb : b.registry.KeepsParts) (around : List (Marker κ)) :
    ∀ ds : List (Draft κ),
      Tree.nodesOf (b.growAll ds) = (Draft.sitesOf around ds).filterMap b.node?
  | [] => rfl
  | d :: ds => by
      rw [growAll, Tree.nodesOf, Draft.sitesOf, List.filterMap_append, nodes_grow hb around d,
        nodesOf_growAll hb around ds]

end

theorem errorIndex?_grow_element (hb : b.registry.MakesNoReport) (m : Marker κ)
    (parts : List (Draft κ)) : (b.grow (.element m parts)).errorIndex? = none := by
  rw [grow]
  rcases b.close_cases m (b.growAll parts) [] with hok | ⟨message, herror⟩
  · rcases Registry.construct_ok hok with hplain | ⟨constructor, hget, hbuilt⟩
    · rw [hplain]
      rfl
    · exact hb _ _ hget _ _ _ _ hbuilt
  · rw [herror]
    rfl

/-- The nodes that stand for reported errors are those at the sites of such. -/
theorem filter_nodes (hb : b.registry.MakesNoReport) (ss : List (Site κ)) :
    (ss.filterMap b.node?).filter (fun n => n.errorIndex?.isSome) =
      (ss.filterMap Site.report?).map fun u => (errorLeaf u.2).tree := by
  rw [List.filter_filterMap, List.map_filterMap]
  refine List.filterMap_congr fun s _ => ?_
  obtain ⟨around, d⟩ := s
  cases d with
  | leaf i t => rfl
  | report e => rfl
  | element m parts => simp [node?, Site.report?, errorIndex?_grow_element hb]

/-- A draft of a tree over all tokens, with the plots of the markers that are kept and the errors
that are shown. -/
structure Outlines (b : BuildContext κ) (roots : List (Plot κ)) (shown : List ParseError)
    (root : Tree κ) (parts : List (Draft κ)) : Prop where
  /-- The tree is grown from the draft, and so is every node of it. -/
  tree : root = .node .root (tokenSpan b.tokens 0 b.tokens.size) (b.growAll parts)
  element : ∀ m row, ∃ kind span, b.grow (.element m row) = .node kind span (b.growAll row)
  nodes : root.nodes = root :: (Draft.sitesOf [] parts).filterMap b.node?
  /-- Its leaves are the tokens that become leaves, each at its index. -/
  leaves : ((Draft.sitesOf [] parts).filterMap Site.leaf?).Perm (b.stretch 0 b.tokens.size)
  /-- Its elements are the markers that are kept, each right inside of the one it belongs into. -/
  elements : ((Draft.sitesOf [] parts).filterMap Site.element?).Perm (Plot.families none roots)
  /-- **Each error that is shown has one leaf, and the elements around it are those of all markers
  that cover its token**, so that it belongs to the innermost of them. -/
  reports : ((Draft.sitesOf [] parts).filterMap Site.report?).Perm
    (shown.map fun e => (Plot.covering roots e.index, e))
  /-- In the root and in every element, reported errors are in front of all that is at their
  token, and behind all that is at earlier ones. -/
  order : ∀ row ∈ parts :: (Draft.sitesOf [] parts).filterMap Site.row?, row.Pairwise Draft.Leads

theorem outlines_build {r : Registry κ} (hr : r.KeepsParts) (options : BuildOptions)
    (tokens : List Token) (markers : List (Marker κ)) (errors : List ParseError) :
    ∃ parts, Outlines ⟨tokens.toArray, options, r⟩ (plots tokens.length markers).1
      (distinctErrors [] errors) (build r options tokens markers errors).root parts := by
  let b : BuildContext κ := ⟨tokens.toArray, options, r⟩
  have hb : b.registry.KeepsParts := hr
  let roots := (plots tokens.length markers).1
  let shown := distinctErrors [] errors
  have hrow : Plot.Row 0 tokens.length roots := (plots_naive tokens.length markers).2
  let below := b.draftParts shown 0 tokens.length roots
  let parts := Draft.sorted (ownErrors roots shown) below
  have hsites : ∀ {β : Type} (f : Site κ → Option β),
      ((Draft.sitesOf [] parts).filterMap f).Perm
        ((ownErrors roots shown).filterMap (fun e => f ⟨[], .report e⟩) ++
          (Draft.sitesOf [] below).filterMap f) := by
    intro β f
    have hperm := (Draft.sitesOf_sorted [] (ownErrors roots shown) below).filterMap f
    rwa [List.filterMap_append, List.filterMap_map] at hperm
  have htree : (build r options tokens markers errors).root =
      .node .root (tokenSpan b.tokens 0 b.tokens.size) (b.growAll parts) := by
    rw [build_root, growAll_sorted, map_item_draftParts]
    rfl
  refine ⟨parts, htree, grow_element hb, ?_, ?_, ?_, ?_, ?_⟩
  · rw [htree, Tree.nodes, nodesOf_growAll hb []]
  · refine (hsites Site.leaf?).trans ?_
    simpa [Site.leaf?] using b.leaves_draftParts [] roots shown 0 tokens.length hrow
  · refine (hsites Site.element?).trans ?_
    simpa [Site.element?] using b.elements_draftParts [] roots shown 0 tokens.length
  · have hown : ((ownErrors roots shown).filterMap fun e =>
          Site.report? (⟨[], .report e⟩ : Site κ)) =
        (ownErrors roots shown).map fun e => ([], e) :=
      congrFun List.filterMap_eq_map _
    refine (hsites Site.report?).trans ?_
    rw [hown]
    exact ((b.reports_draftParts [] roots shown 0 tokens.length hrow).append_left _).trans
      (own_append_below_perm [] shown hrow)
  · refine List.forall_mem_cons.mpr ⟨Draft.leads_sorted _ _, ?_⟩
    intro row hmem
    rw [(hsites Site.row?).mem_iff] at hmem
    have hmem : row ∈ (Draft.sitesOf [] below).filterMap Site.row? := by
      simpa [Site.row?] using hmem
    exact b.rows_draftParts [] roots shown 0 tokens.length row hmem

end BuildContext

/-- The markers that cover a token lie inside of one another. -/
theorem covering_nested (count : Nat) (markers : List (Marker κ)) (index : Nat) :
    (Plot.covering (plots count markers).1 index).Pairwise fun outer m =>
      outer.contains m = true := by
  have hclear := (plots_laminar count markers).clear.imp fun h => h.1.stop_le_or_contains h.2
  refine (List.pairwise_filter.mpr (hclear.imp ?_))
  intro outer m h houter hm
  rw [Plot.covers_iff] at houter hm
  rcases h with hle | hcontains
  · omega
  · exact hcontains

/-- Behind the last token nothing is covered. -/
theorem covering_behind {count index : Nat} (markers : List (Marker κ)) (h : count ≤ index) :
    Plot.covering (plots count markers).1 index = [] := by
  apply Plot.covering_eq_nil
  intro m hm
  have hfits := (kept_fits hm).2
  exact Plot.covers_eq_false (by omega)

end Lossless
