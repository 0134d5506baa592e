import Lossless.Proofs.AppendOrder
import Lossless.Proofs.Diagnosis
import Lossless.Proofs.Forest
import Lossless.Proofs.RoundTrip
import Mathlib.Order.MinMax

/-!
# Trees of fewer tokens

Some trivia is left out of the tokens, and all that was marked and reported stays where it was:
every index becomes the number of tokens in front of it that are kept (`placeAmong`).  **The tree
that is built is the same but for trivia** (`bare_build`): it has the same nodes with the same
parts in the same places, the same significant tokens and the same error nodes.

The spans of nodes are another matter, since a node begins or ends with trivia that it happens to
cover.  They are no part of a bare tree (`Tree.bare`), except for those of reported errors.

Parts of a node are sorted by their indices.  Where a token is left out, two indices become one,
so parts could change places; but elements begin with significant tokens, errors are reported at
tokens that are kept, and these keep their order (`placeAmong_lt_iff`).
-/

namespace Lossless

variable {κ : Type}

/-! ## Tokens that are kept -/

/-- How many of the tokens in front of an index are kept.  This is where the token at the index is
found among those kept, if it is one of them. -/
def placeAmong (keep : Token → Bool) (tokens : List Token) (i : Nat) : Nat :=
  (tokens.take i).countP keep

/-- There is a token at an index, and it is kept. -/
def KeptAt (keep : Token → Bool) (tokens : List Token) (i : Nat) : Prop :=
  ∃ t, tokens[i]? = some t ∧ keep t = true

section Places

variable {keep : Token → Bool} {tokens : List Token} {i j : Nat}

theorem placeAmong_succ (keep : Token → Bool) (tokens : List Token) (i : Nat) :
    placeAmong keep tokens (i + 1) = placeAmong keep tokens i + tokens[i]?.toList.countP keep := by
  rw [placeAmong, List.take_add_one, List.countP_append]
  rfl

theorem placeAmong_length (keep : Token → Bool) (tokens : List Token) :
    placeAmong keep tokens tokens.length = (tokens.filter keep).length := by
  rw [placeAmong, List.take_length, List.countP_eq_length_filter]

theorem placeAmong_mono (keep : Token → Bool) (tokens : List Token) :
    Monotone (placeAmong keep tokens) := by
  apply monotone_nat_of_le_succ
  intro i
  rw [placeAmong_succ]
  exact Nat.le_add_right _ _

theorem KeptAt.placeAmong_succ (h : KeptAt keep tokens i) :
    placeAmong keep tokens (i + 1) = placeAmong keep tokens i + 1 := by
  obtain ⟨t, ht, hkept⟩ := h
  rw [Lossless.placeAmong_succ, ht]
  simp [hkept]

theorem placeAmong_succ_of_not_keptAt (h : ¬ KeptAt keep tokens i) :
    placeAmong keep tokens (i + 1) = placeAmong keep tokens i := by
  rw [Lossless.placeAmong_succ]
  cases ht : tokens[i]? with
  | none => rfl
  | some t =>
      have hnot : keep t = false := by
        by_contra hyes
        exact h ⟨t, ht, by simpa using hyes⟩
      simp [hnot]

/-- A kept token is found at its place. -/
theorem KeptAt.getElem?_filter (h : KeptAt keep tokens i) :
    (tokens.filter keep)[placeAmong keep tokens i]? = tokens[i]? := by
  obtain ⟨t, ht, hkept⟩ := h
  obtain ⟨hlt, hget⟩ := List.getElem?_eq_some_iff.mp ht
  have hsplit : tokens = tokens.take i ++ t :: tokens.drop (i + 1) := by
    rw [← hget, ← List.drop_eq_getElem_cons hlt, List.take_append_drop]
  have hfilter : tokens.filter keep =
      (tokens.take i).filter keep ++ t :: (tokens.drop (i + 1)).filter keep := by
    conv_lhs => rw [hsplit]
    rw [List.filter_append, List.filter_cons_of_pos hkept]
  rw [hfilter, placeAmong, List.countP_eq_length_filter, List.getElem?_append_right (Nat.le_refl _),
    Nat.sub_self, ht]
  rfl

/-- **Places keep the order behind a kept token.** -/
theorem placeAmong_lt_iff (hi : KeptAt keep tokens i) :
    placeAmong keep tokens i < placeAmong keep tokens j ↔ i < j := by
  constructor
  · intro hlt
    by_contra hge
    have hle := placeAmong_mono keep tokens (Nat.le_of_not_lt hge)
    omega
  · intro hlt
    have hle := placeAmong_mono keep tokens (Nat.succ_le_of_lt hlt)
    have hsucc := hi.placeAmong_succ
    rw [Nat.succ_eq_add_one] at hle
    omega

theorem placeAmong_le_iff (hj : KeptAt keep tokens j) :
    placeAmong keep tokens i ≤ placeAmong keep tokens j ↔ i ≤ j := by
  rw [← Nat.not_lt, placeAmong_lt_iff hj, Nat.not_lt]

theorem placeAmong_inj (hi : KeptAt keep tokens i) (hj : KeptAt keep tokens j) :
    placeAmong keep tokens i = placeAmong keep tokens j ↔ i = j := by
  rw [Nat.le_antisymm_iff, Nat.le_antisymm_iff, placeAmong_le_iff hi, placeAmong_le_iff hj]

/-- A marker covers the same kept tokens as before. -/
theorem Marker.covers_rebase (m : Marker κ) (h : KeptAt keep tokens i) :
    (m.rebase (placeAmong keep tokens)).covers (placeAmong keep tokens i) = m.covers i := by
  rw [Bool.eq_iff_iff]
  simp only [covers, rebase, Bool.and_eq_true, decide_eq_true_eq, placeAmong_le_iff h,
    placeAmong_lt_iff h]

end Places

section Significant

variable {keep : Token → Bool} {tokens : Array Token}

variable (hkeep : ∀ t : Token, t.isTrivia = false → keep t = true)

include hkeep

theorem keptAt_of_significant {i : Nat} (hlt : i < tokens.size)
    (h : (tokenIn tokens i).isTrivia = false) : KeptAt keep tokens.toList i := by
  refine ⟨tokens[i], by simp [hlt], hkeep _ ?_⟩
  simpa [tokenIn, hlt] using h

theorem climbs_placeAmong (tokens : Array Token) :
    Climbs tokens (placeAmong keep tokens.toList) where
  mono hle := placeAmong_mono keep tokens.toList hle
  lt_succ hlt hsignificant :=
    (placeAmong_lt_iff (keptAt_of_significant hkeep hlt hsignificant)).mpr (Nat.lt_succ_self _)

end Significant

/-! ## Errors at kept tokens -/

/-- The error with its index counted in another way. -/
def ParseError.rebase (φ : Nat → Nat) (e : ParseError) : ParseError :=
  { e with index := φ e.index }

section Errors

variable {keep : Token → Bool} {tokens : List Token} {errors : List ParseError}

/-- A marker covers the same errors as before. -/
theorem filter_covers_rebase (herrors : ∀ e ∈ errors, KeptAt keep tokens e.index) (m : Marker κ) :
    (errors.map (ParseError.rebase (placeAmong keep tokens))).filter
        (fun e => (m.rebase (placeAmong keep tokens)).covers e.index) =
      (errors.filter fun e => m.covers e.index).map
        (ParseError.rebase (placeAmong keep tokens)) := by
  rw [List.filter_map]
  congr 1
  apply List.filter_congr
  intro e he
  exact m.covers_rebase (herrors e he)

theorem ownErrors_rebase (herrors : ∀ e ∈ errors, KeptAt keep tokens e.index)
    (inner : List (Plot κ)) :
    BuildContext.ownErrors (inner.map (Plot.rebase (placeAmong keep tokens)))
        (errors.map (ParseError.rebase (placeAmong keep tokens))) =
      (BuildContext.ownErrors inner errors).map (ParseError.rebase (placeAmong keep tokens)) := by
  rw [BuildContext.ownErrors, List.filter_map]
  congr 1
  apply List.filter_congr
  intro e he
  simp only [Function.comp_apply, List.any_map, Plot.marker_rebase, Function.comp_def]
  congr 2
  funext p
  exact p.marker.covers_rebase (herrors e he)

/-- The same errors are left out as repeated. -/
theorem distinctErrors_rebase (herrors : ∀ e ∈ errors, KeptAt keep tokens e.index)
    (seen : List (Nat × String)) (hseen : ∀ r ∈ seen, KeptAt keep tokens r.1) :
    distinctErrors (seen.map fun r => (placeAmong keep tokens r.1, r.2))
        (errors.map (ParseError.rebase (placeAmong keep tokens))) =
      (distinctErrors seen errors).map (ParseError.rebase (placeAmong keep tokens)) := by
  induction errors generalizing seen with
  | nil => rfl
  | cons e es ih =>
      obtain ⟨hfirst, hrest⟩ := List.forall_mem_cons.mp herrors
      have hmet : (placeAmong keep tokens e.index, e.message) ∈
          seen.map (fun r => (placeAmong keep tokens r.1, r.2)) ↔ (e.index, e.message) ∈ seen := by
        rw [List.mem_map]
        constructor
        · rintro ⟨r, hr, heq⟩
          obtain ⟨hindex, hmessage⟩ := Prod.mk.inj heq
          rw [placeAmong_inj (hseen r hr) hfirst] at hindex
          rwa [← hindex, ← hmessage]
        · intro hr
          exact ⟨_, hr, rfl⟩
      have hnext := ih hrest ((e.index, e.message) :: seen)
        (List.forall_mem_cons.mpr ⟨hfirst, hseen⟩)
      rw [List.map_cons] at hnext
      simp only [List.map_cons, distinctErrors, List.contains_iff_mem, ParseError.rebase, hmet]
      split
      · exact ih hrest seen hseen
      · rw [List.map_cons]
        exact congrArg _ hnext

end Errors

/-! ## Bare trees -/

/-- The kind of a node, with the index of a reported error counted in another way. -/
def NodeKind.rebase (φ : Nat → Nat) : NodeKind κ → NodeKind κ
  | .error message index => .error message (index.map φ)
  | kind => kind

/-- Whether a node stands for a reported error. -/
def NodeKind.isReport : NodeKind κ → Bool
  | .error _ index => index.isSome
  | _ => false

namespace Tree

mutual

/-- A tree without trivia and without the spans of its nodes, except for those of reported errors.
The indices of these are counted in another way. -/
def bare (φ : Nat → Nat) : Tree κ → Tree κ
  | leaf t => leaf t
  | node kind span cs =>
    node (kind.rebase φ) (if kind.isReport then span else .empty 0) (bareAll φ cs)

/-- The trees that are no trivia, each of them bare. -/
def bareAll (φ : Nat → Nat) : List (Tree κ) → List (Tree κ)
  | [] => []
  | t :: ts => if t.isSignificant then t.bare φ :: bareAll φ ts else bareAll φ ts

end

variable (φ : Nat → Nat)

theorem bareAll_eq_map (ts : List (Tree κ)) :
    bareAll φ ts = (ts.filter isSignificant).map (bare φ) := by
  induction ts with
  | nil => rfl
  | cons t ts ih =>
      rw [bareAll, ih]
      cases ht : t.isSignificant <;> simp [ht]

theorem bare_element (kind : κ) (span : Span) (cs : List (Tree κ)) :
    (node (.element kind) span cs).bare φ = node (.element kind) (.empty 0) (bareAll φ cs) := by
  rw [bare]
  rfl

@[simp] theorem isSignificant_bare (t : Tree κ) : (t.bare φ).isSignificant = t.isSignificant := by
  cases t <;> rfl

@[simp] theorem isNode_bare (t : Tree κ) : (t.bare φ).isNode = t.isNode := by
  cases t <;> rfl

@[simp] theorem token?_bare (t : Tree κ) : (t.bare φ).token? = t.token? := by
  cases t <;> rfl

@[simp] theorem elementKind?_bare (t : Tree κ) : (t.bare φ).elementKind? = t.elementKind? := by
  cases t with
  | leaf t => rfl
  | node kind span cs => cases kind <;> rfl

@[simp] theorem isError_bare (t : Tree κ) : (t.bare φ).isError = t.isError := by
  cases t with
  | leaf t => rfl
  | node kind span cs => cases kind <;> rfl

mutual

/-- A bare tree has an error in it if the tree has. -/
theorem hasError_bare : ∀ t : Tree κ, (t.bare φ).hasError = t.hasError
  | leaf t => rfl
  | node kind span cs => by
      have herror := isError_bare φ (node kind span cs)
      rw [bare] at herror
      rw [bare, hasError, hasError, nodes, nodes, List.any_cons, List.any_cons, herror,
        any_isError_nodesOf, any_isError_nodesOf, any_hasError_bareAll cs]

theorem any_hasError_bareAll : ∀ ts : List (Tree κ), (bareAll φ ts).any hasError = ts.any hasError
  | [] => rfl
  | t :: ts => by
      rw [bareAll, List.any_cons, ← any_hasError_bareAll ts]
      split
      · rw [List.any_cons, hasError_bare t]
      · rename_i ht
        cases t with
        | leaf t => rfl
        | node kind span cs => exact absurd rfl ht

end

/-- The first part of a node that is a node itself stays the first. -/
theorem find?_isNode_bareAll (ts : List (Tree κ)) :
    (bareAll φ ts).find? isNode = (ts.find? isNode).map (bare φ) := by
  have hnode : isNode ∘ bare φ = (isNode : Tree κ → Bool) := by
    funext t
    exact isNode_bare φ t
  rw [bareAll_eq_map, List.find?_map, hnode, ← find?_isNode]

end Tree

/-! ## Bare parts -/

/-- A part on its way to its place, bare and counted in another way. -/
def Item.bare (φ : Nat → Nat) (i : Item κ) : Item κ :=
  ⟨φ i.index, i.rank, i.tree.bare φ⟩

/-- The parts that are no trivia, bare and counted in another way. -/
def bareItems (φ : Nat → Nat) (items : List (Item κ)) : List (Item κ) :=
  (items.filter (·.tree.isSignificant)).map (Item.bare φ)

section Items

variable {φ : Nat → Nat}

/-- Parts at kept tokens keep their order. -/
theorem Item.le_bare {keep : Token → Bool} {tokens : List Token} {i j : Item κ}
    (hi : KeptAt keep tokens i.index) (hj : KeptAt keep tokens j.index) :
    i.le j = (i.bare (placeAmong keep tokens)).le (j.bare (placeAmong keep tokens)) := by
  rw [Bool.eq_iff_iff, Item.le_iff, Item.le_iff]
  simp only [Item.bare, placeAmong_lt_iff hi, placeAmong_inj hi hj]

@[simp] theorem bareItems_append (items items' : List (Item κ)) :
    bareItems φ (items ++ items') = bareItems φ items ++ bareItems φ items' := by
  simp [bareItems]

theorem bareItems_cons (i : Item κ) (items : List (Item κ)) :
    bareItems φ (i :: items) =
      (if i.tree.isSignificant then [i.bare φ] else []) ++ bareItems φ items := by
  cases hi : i.tree.isSignificant <;> simp [bareItems, hi]

/-- The leaf of a reported error is that of the error counted in the other way. -/
theorem bareItems_map_errorLeaf (errors : List ParseError) :
    bareItems id ((errors.map (ParseError.rebase φ)).map (@BuildContext.errorLeaf κ)) =
      bareItems φ (errors.map BuildContext.errorLeaf) := by
  induction errors with
  | nil => rfl
  | cons e es ih =>
      rw [List.map_cons, List.map_cons, List.map_cons, bareItems_cons, bareItems_cons, ih]
      rfl

/-- **Where the new indices keep the order of the parts that are no trivia, sorting does not see
the difference.** -/
theorem bareAll_ordered (errors : List ParseError) (items : List (Item κ))
    (horder : ∀ i ∈ errors.map BuildContext.errorLeaf ++ items, i.tree.isSignificant = true →
      ∀ j ∈ errors.map BuildContext.errorLeaf ++ items, j.tree.isSignificant = true →
        i.le j = (i.bare φ).le (j.bare φ)) :
    Tree.bareAll φ (BuildContext.ordered errors items) =
      ((bareItems φ (errors.map BuildContext.errorLeaf ++ items)).mergeSort Item.le).map
        Item.tree := by
  generalize hall : errors.map BuildContext.errorLeaf ++ items = all at horder ⊢
  rw [BuildContext.ordered, hall, Tree.bareAll_eq_map, List.filter_map, List.map_map, bareItems]
  have hfilter : (all.mergeSort Item.le).filter (Tree.isSignificant ∘ Item.tree) =
      (all.filter (·.tree.isSignificant)).mergeSort Item.le :=
    (mergeSort_filter Item.le_trans Item.le_total Item.le_of_key_eq Item.key_eq_of_le _).symm
  have hsort : ((all.filter (·.tree.isSignificant)).mergeSort Item.le).map (Item.bare φ) =
      ((all.filter (·.tree.isSignificant)).map (Item.bare φ)).mergeSort Item.le := by
    apply List.map_mergeSort
    intro i hi j hj
    rw [List.mem_filter] at hi hj
    exact horder i hi.1 hi.2 j hj.1 hj.2
  rw [hfilter, ← hsort, List.map_map]
  rfl

/-- Sorted parts are the same if the parts are, counted in the other way. -/
theorem bareAll_ordered_congr {errors : List ParseError} {items items' : List (Item κ)}
    (hitems : bareItems id items' = bareItems φ items)
    (horder : ∀ i ∈ errors.map BuildContext.errorLeaf ++ items, i.tree.isSignificant = true →
      ∀ j ∈ errors.map BuildContext.errorLeaf ++ items, j.tree.isSignificant = true →
        i.le j = (i.bare φ).le (j.bare φ)) :
    Tree.bareAll id (BuildContext.ordered (errors.map (ParseError.rebase φ)) items') =
      Tree.bareAll φ (BuildContext.ordered errors items) := by
  rw [bareAll_ordered errors items horder, bareAll_ordered _ items' fun _ _ _ _ _ _ => rfl,
    bareItems_append, bareItems_append, bareItems_map_errorLeaf, hitems]

end Items

/-! ## Assembling -/

/-- Whether an element is refused, and what is built otherwise, depends only on its kind and its
bare parts. -/
def Registry.Blind [DecidableEq κ] [Named κ] (r : Registry κ) : Prop :=
  ∀ (φ : Nat → Nat) (m m' : Marker κ) (parts parts' : List (Tree κ)) (span span' : Span),
    m'.kind = m.kind → Tree.bareAll id parts' = Tree.bareAll φ parts →
      (r.construct m' parts' span').map (Tree.bare id) =
        (r.construct m parts span).map (Tree.bare φ)

/-- A plot covers something and begins with a significant token; so does each plot inside. -/
inductive Plot.Evident (tokens : Array Token) : Plot κ → Prop
  | mk {m : Marker κ} {inner : List (Plot κ)} (hlt : m.start < tokens.size)
      (hfirst : (tokenIn tokens m.start).isTrivia = false) (hopen : m.start < m.stop)
      (hinner : ∀ p ∈ inner, Evident tokens p) : Evident tokens (.mk m inner)

namespace Plot

variable {tokens : Array Token} {p : Plot κ}

theorem Rooted.evident (h : p.Rooted tokens) : p.Evident tokens := by
  induction h with
  | @mk m inner i hfirst hlt _ hcovers _ _ ih =>
      simp only [Marker.covers, Bool.and_eq_true, decide_eq_true_eq] at hcovers
      exact .mk (by omega) hfirst (by omega) ih

theorem Grounded.evident {wrapper : κ} (h : p.Grounded wrapper tokens) (htidy : p.Tidy) :
    p.Evident tokens := by
  cases h with
  | rooted h => exact h.evident
  | @wraps m p rest _ _ _ hstart hinner =>
      have hstop := (htidy.2.mem List.mem_cons_self).2
      cases (hinner p List.mem_cons_self).evident with
      | mk hlt hfirst hopen _ =>
          simp only [marker] at hstart hstop
          exact .mk (by omega) (by rw [hstart]; exact hfirst) (by omega)
            fun q hq => (hinner q hq).evident

theorem Evident.keptAt {keep : Token → Bool}
    (hkeep : ∀ t : Token, t.isTrivia = false → keep t = true) (h : p.Evident tokens) :
    KeptAt keep tokens.toList p.marker.start := by
  cases h with
  | mk hlt hfirst _ _ => exact keptAt_of_significant hkeep hlt hfirst

/-- However tokens are counted, the plot covers something. -/
theorem Evident.isEmpty_rebase (h : p.Evident tokens) {φ : Nat → Nat} (hφ : Climbs tokens φ) :
    (p.marker.rebase φ).isEmpty = p.marker.isEmpty := by
  cases h with
  | @mk m inner hlt hfirst hopen _ =>
      have hup := hφ.lt_succ hlt hfirst
      have hle : φ (m.start + 1) ≤ φ m.stop := hφ.mono hopen
      rw [Bool.eq_iff_iff]
      simp only [marker, Marker.isEmpty, Marker.rebase, beq_iff_eq]
      omega

theorem Evident.inner (h : p.Evident tokens) : ∀ q ∈ p.inner, q.Evident tokens := by
  cases h with
  | mk _ _ _ hinner => exact hinner

end Plot

namespace BuildContext

/-- The context with only the tokens that are kept. -/
def thin (keep : Token → Bool) (b : BuildContext κ) : BuildContext κ :=
  { b with tokens := (b.tokens.toList.filter keep).toArray }

section Thinned

variable {keep : Token → Bool} {b : BuildContext κ}

variable (hkeep : ∀ t : Token, t.isTrivia = false → keep t = true)

include hkeep

/-- A kept token is a leaf at its place; any other is trivia. -/
theorem bareItems_leaves_one (i : Nat) :
    bareItems id ((b.thin keep).leaves (placeAmong keep b.tokens.toList i)
        (placeAmong keep b.tokens.toList (i + 1))) =
      bareItems (placeAmong keep b.tokens.toList) (b.leaves i (i + 1)) := by
  rw [leaves_one, ← Array.getElem?_toList]
  by_cases hkept : KeptAt keep b.tokens.toList i
  · have hfound : (b.thin keep).tokens[placeAmong keep b.tokens.toList i]? =
        b.tokens.toList[i]? := by
      rw [thin, List.getElem?_toArray, hkept.getElem?_filter]
    rw [hkept.placeAmong_succ, leaves_one, hfound]
    show bareItems id ((b.tokens.toList[i]?.toList.filter b.options.keeps).map _) = _
    generalize b.tokens.toList[i]?.toList.filter b.options.keeps = ts
    induction ts with
    | nil => rfl
    | cons t ts ih =>
        rw [List.map_cons, List.map_cons, bareItems_cons, bareItems_cons, ih]
        rfl
  · rw [leaves_of_le _ (Nat.le_of_eq (placeAmong_succ_of_not_keptAt hkept))]
    cases ht : b.tokens.toList[i]? with
    | none => rfl
    | some t =>
        have htrivia : t.isTrivia = true := by
          by_contra hnot
          exact hkept ⟨t, ht, hkeep t (by simpa using hnot)⟩
        cases hkeeps : b.options.keeps t <;> simp [hkeeps, bareItems, Tree.isSignificant, htrivia]

/-- The significant tokens of a stretch are those of the stretch among the tokens kept. -/
theorem bareItems_leaves (i j : Nat) :
    bareItems id ((b.thin keep).leaves (placeAmong keep b.tokens.toList i)
        (placeAmong keep b.tokens.toList j)) =
      bareItems (placeAmong keep b.tokens.toList) (b.leaves i j) := by
  have hmono := placeAmong_mono keep b.tokens.toList
  rcases Nat.le_total j i with hle | hle
  · rw [leaves_of_le _ hle, leaves_of_le _ (hmono hle)]
    rfl
  · induction j, hle using Nat.le_induction with
    | base =>
        rw [leaves_of_le _ (Nat.le_refl _), leaves_of_le _ (Nat.le_refl _)]
        rfl
    | succ j hle ih =>
        rw [leaves_append _ hle (Nat.le_succ j),
          leaves_append _ (hmono hle) (hmono (Nat.le_succ j)), bareItems_append, bareItems_append,
          ih, bareItems_leaves_one hkeep]

/-- Leaves that are no trivia stand at kept tokens. -/
theorem keptAt_of_mem_leaves {start stop : Nat} {i : Item κ} (hi : i ∈ b.leaves start stop)
    (hsignificant : i.tree.isSignificant = true) : KeptAt keep b.tokens.toList i.index := by
  simp only [leaves, List.mem_filterMap] at hi
  obtain ⟨n, _, hsome⟩ := hi
  split at hsome
  · rename_i t ht
    split at hsome
    · cases hsome
      refine ⟨t, by rw [Array.getElem?_toList]; exact ht, hkeep t ?_⟩
      simpa [Tree.isSignificant] using hsignificant
    · cases hsome
  · cases hsome

end Thinned

section Assembled

variable [DecidableEq κ] [Named κ] {keep : Token → Bool} {b : BuildContext κ}

/-- The node of a marker is the same but for trivia if its parts are. -/
theorem bare_close (hb : b.registry.Blind) {φ : Nat → Nat} (m : Marker κ)
    {parts parts' : List (Tree κ)} (hparts : Tree.bareAll id parts' = Tree.bareAll φ parts)
    (refusals refusals' : List (Nat × String)) :
    ((b.thin keep).close (m.rebase φ) parts' refusals').tree.bare id =
      (b.close m parts refusals).tree.bare φ := by
  have hbuilt := hb φ m (m.rebase φ) parts parts' (tokenSpan b.tokens m.start m.stop)
    (tokenSpan (b.thin keep).tokens (m.rebase φ).start (m.rebase φ).stop) rfl hparts
  have hregistry : (b.thin keep).registry = b.registry := rfl
  unfold close
  simp only [hregistry]
  generalize b.registry.construct m parts _ = r at hbuilt ⊢
  generalize b.registry.construct (m.rebase φ) parts' _ = r' at hbuilt ⊢
  cases r with
  | ok tree =>
      cases r' with
      | ok tree' => exact Except.ok.inj hbuilt
      | error message => cases hbuilt
  | error message =>
      cases r' with
      | ok tree' => cases hbuilt
      | error message' =>
          obtain rfl : message' = message := Except.error.inj hbuilt
          simp only [Tree.bare, hparts]
          rfl

/-- Parts that are no trivia stand at kept tokens. -/
theorem keptAt_of_mem_assembleParts (hkeep : ∀ t : Token, t.isTrivia = false → keep t = true)
    {ps : List (Plot κ)} (hps : ∀ p ∈ ps, p.Evident b.tokens) (errors : List ParseError)
    (cursor stop : Nat) : ∀ i ∈ (b.assembleParts errors cursor stop ps).1,
      i.tree.isSignificant = true → KeptAt keep b.tokens.toList i.index := by
  induction ps generalizing cursor with
  | nil =>
      intro i hi hsignificant
      rw [assembleParts] at hi
      exact keptAt_of_mem_leaves hkeep hi hsignificant
  | cons p ps ih =>
      obtain ⟨hfirst, hrest⟩ := List.forall_mem_cons.mp hps
      intro i hi hsignificant
      rw [assembleParts] at hi
      rcases List.mem_append.mp hi with hi | hi
      · exact keptAt_of_mem_leaves hkeep hi hsignificant
      · rcases List.mem_cons.mp hi with rfl | hi
        · exact hfirst.keptAt hkeep
        · exact ih hrest _ i hi hsignificant

/-- The parts of a node are the same but for trivia, the errors sorted in among them included. -/
theorem bareAll_ordered_assembleParts (hkeep : ∀ t : Token, t.isTrivia = false → keep t = true)
    {ps : List (Plot κ)} (hps : ∀ p ∈ ps, p.Evident b.tokens) {errors : List ParseError}
    (herrors : ∀ e ∈ errors, KeptAt keep b.tokens.toList e.index) {cursor stop : Nat}
    {items : List (Item κ)} (hitems : bareItems id items =
      bareItems (placeAmong keep b.tokens.toList) (b.assembleParts errors cursor stop ps).1) :
    Tree.bareAll id (ordered (ownErrors (ps.map (Plot.rebase (placeAmong keep b.tokens.toList)))
        (errors.map (ParseError.rebase (placeAmong keep b.tokens.toList)))) items) =
      Tree.bareAll (placeAmong keep b.tokens.toList)
        (ordered (ownErrors ps errors) (b.assembleParts errors cursor stop ps).1) := by
  have hkept : ∀ i ∈ (ownErrors ps errors).map errorLeaf ++
      (b.assembleParts errors cursor stop ps).1, i.tree.isSignificant = true →
        KeptAt keep b.tokens.toList i.index := by
    intro i hi hsignificant
    rcases List.mem_append.mp hi with hi | hi
    · obtain ⟨e, he, rfl⟩ := List.mem_map.mp hi
      exact herrors e (List.mem_filter.mp he).1
    · exact keptAt_of_mem_assembleParts hkeep hps errors cursor stop i hi hsignificant
  rw [ownErrors_rebase herrors]
  apply bareAll_ordered_congr hitems
  intro i hi hsi j hj hsj
  exact Item.le_bare (hkept i hi hsi) (hkept j hj hsj)

mutual

theorem bare_assemble (hkeep : ∀ t : Token, t.isTrivia = false → keep t = true)
    (hb : b.registry.Blind) : ∀ (p : Plot κ) (errors : List ParseError), p.Evident b.tokens →
      (∀ e ∈ errors, KeptAt keep b.tokens.toList e.index) →
        ((b.thin keep).assemble (errors.map (ParseError.rebase (placeAmong keep b.tokens.toList)))
            (p.rebase (placeAmong keep b.tokens.toList))).tree.bare id =
          (b.assemble errors p).tree.bare (placeAmong keep b.tokens.toList)
  | .mk m inner, errors, hp, herrors => by
      have hitems := bareItems_assembleParts hkeep hb inner errors m.start m.stop hp.inner herrors
      rw [Plot.rebase_mk, assemble, assemble]
      exact bare_close hb m (bareAll_ordered_assembleParts hkeep hp.inner herrors hitems) _ _

/-- **The parts of a row of plots are the same but for trivia.** -/
theorem bareItems_assembleParts (hkeep : ∀ t : Token, t.isTrivia = false → keep t = true)
    (hb : b.registry.Blind) : ∀ (ps : List (Plot κ)) (errors : List ParseError) (cursor stop : Nat),
      (∀ p ∈ ps, p.Evident b.tokens) → (∀ e ∈ errors, KeptAt keep b.tokens.toList e.index) →
        bareItems id ((b.thin keep).assembleParts
            (errors.map (ParseError.rebase (placeAmong keep b.tokens.toList)))
            (placeAmong keep b.tokens.toList cursor) (placeAmong keep b.tokens.toList stop)
            (ps.map (Plot.rebase (placeAmong keep b.tokens.toList)))).1 =
          bareItems (placeAmong keep b.tokens.toList) (b.assembleParts errors cursor stop ps).1
  | [], _, cursor, stop, _, _ => by
      rw [List.map_nil, assembleParts, assembleParts]
      exact bareItems_leaves hkeep cursor stop
  | p :: ps, errors, cursor, stop, hps, herrors => by
      obtain ⟨hfirst, hrest⟩ := List.forall_mem_cons.mp hps
      have hbelow : ∀ e ∈ errors.filter fun e => p.marker.covers e.index,
          KeptAt keep b.tokens.toList e.index := fun e he => herrors e (List.mem_filter.mp he).1
      have htree := bare_assemble hkeep hb p _ hfirst hbelow
      have hlater := bareItems_assembleParts hkeep hb ps errors (max cursor p.marker.stop) stop
        hrest herrors
      rw [(placeAmong_mono keep b.tokens.toList).map_max] at hlater
      have hfront := bareItems_leaves (b := b) hkeep cursor p.marker.start
      have hempty := hfirst.isEmpty_rebase (climbs_placeAmong hkeep b.tokens)
      rw [List.map_cons, assembleParts, assembleParts, Plot.marker_rebase]
      simp only [filter_covers_rebase herrors, bareItems_append, bareItems_cons, hempty]
      -- whether the node of the plot is trivia can be seen in its bare tree
      have hsignificant := congrArg Tree.isSignificant htree
      rw [Tree.isSignificant_bare, Tree.isSignificant_bare] at hsignificant
      simp only [Marker.rebase, Item.bare, hfront, hlater, hsignificant, htree, id]

end

end Assembled

end BuildContext

/-! ## Building -/

/-- **Leaving out trivia changes nothing but trivia in the tree.**  The markers are those of a
grounded forest in any order, and errors are reported at kept tokens. -/
theorem bare_build [DecidableEq κ] [Named κ] {r : Registry κ} (hr : r.Blind) (hparts : r.KeepsParts)
    (options : BuildOptions) {keep : Token → Bool}
    (hkeep : ∀ t : Token, t.isTrivia = false → keep t = true) {tokens : List Token} {wrapper : κ}
    {ps : List (Plot κ)} (hrow : Plot.Row 0 tokens.length ps)
    (hgrounded : ∀ p ∈ ps, p.Grounded wrapper tokens.toArray) {markers : List (Marker κ)}
    (hperm : markers.Perm (Plot.markers ps)) (hnodup : (markers.map (·.id)).Nodup)
    {errors : List ParseError} (herrors : ∀ e ∈ errors, KeptAt keep tokens e.index) :
    let φ := placeAmong keep tokens
    let full := build r options tokens markers errors
    let thin := build r options (tokens.filter keep) (markers.map (Marker.rebase φ))
      (errors.map (ParseError.rebase φ))
    thin.root.bare id = full.root.bare φ ∧ thin.valid = full.valid := by
  intro φ full thin
  let b : BuildContext κ := ⟨tokens.toArray, options, r⟩
  have hevident : ∀ p ∈ ps, p.Evident b.tokens := fun p hp =>
    (hgrounded p hp).evident (hrow.tidy hp)
  have hplots := plots_eq_of_grounded hrow hgrounded hperm hnodup
  have hplots' : plots (tokens.filter keep).length (markers.map (Marker.rebase φ)) =
      (ps.map (Plot.rebase φ), []) := by
    rw [← placeAmong_length]
    exact plots_rebase_of_grounded (climbs_placeAmong hkeep tokens.toArray) hrow hgrounded
      hperm hnodup
  have hdistinct : distinctErrors [] (errors.map (ParseError.rebase φ)) =
      (distinctErrors [] errors).map (ParseError.rebase φ) :=
    distinctErrors_rebase herrors [] (by simp)
  have hshown : ∀ e ∈ distinctErrors [] errors, KeptAt keep b.tokens.toList e.index := fun e he =>
    herrors e (distinctErrors_subset [] errors he)
  have hitems := BuildContext.bareItems_assembleParts hkeep (b := b) hr ps _ 0 tokens.length
    hevident hshown
  have hroot : thin.root.bare id = full.root.bare φ := by
    have hall := BuildContext.bareAll_ordered_assembleParts hkeep hevident hshown hitems
    rw [build_root, build_root, hplots, hplots', hdistinct, Tree.bare, Tree.bare, ← hall,
      placeAmong_length]
    rfl
  refine ⟨hroot, ?_⟩
  rw [valid_build hparts, valid_build hparts, ← Tree.hasError_bare id thin.root, hroot,
    Tree.hasError_bare]

end Lossless
