import Lossless.Build
import Lossless.Proofs.Nesting

/-!
# What the builder makes of plots

A node of the tree is put together from a row of plots: the tokens between them become
leaves, each plot becomes a node, and the errors that belong to the node are sorted in
among these.  Sorting moves nothing but the errors, since all else is in order already.
So the leaves of a node are **the tokens of its range, each once and in order**
(`tokensOf_assembleParts`), and below it there is **one node for each marker** and one for
each error shown (`nodesOf_assembleParts`).
-/

namespace Lossless

variable {κ : Type}

/-! ## Lists of trees -/

namespace Tree

/-- The tokens of a list of trees, tree by tree. -/
theorem tokensOf_eq_flatMap (ts : List (Tree κ)) : tokensOf ts = ts.flatMap tokens := by
  induction ts with
  | nil => rfl
  | cons t ts ih => rw [tokensOf, ih, List.flatMap_cons]

/-- The nodes of a list of trees, tree by tree. -/
theorem nodesOf_eq_flatMap (ts : List (Tree κ)) : nodesOf ts = ts.flatMap nodes := by
  induction ts with
  | nil => rfl
  | cons t ts ih => rw [nodesOf, ih, List.flatMap_cons]

/-- Below a node there are its parts that are nodes, and what is below these. -/
theorem nodesOf_eq_filter (ts : List (Tree κ)) :
    nodesOf ts = (ts.filter isNode).flatMap nodes := by
  induction ts with
  | nil => rfl
  | cons t ts ih =>
      cases t with
      | leaf u =>
          rw [nodesOf, ih, List.filter_cons_of_neg (by simp [isNode])]
          rfl
      | node k s cs => rw [nodesOf, ih, List.filter_cons_of_pos rfl, List.flatMap_cons]

/-- The tokens of trees in a row. -/
@[simp] theorem tokensOf_append (ss ts : List (Tree κ)) :
    tokensOf (ss ++ ts) = tokensOf ss ++ tokensOf ts := by
  simp [tokensOf_eq_flatMap]

/-- The nodes of trees in a row. -/
@[simp] theorem nodesOf_append (ss ts : List (Tree κ)) :
    nodesOf (ss ++ ts) = nodesOf ss ++ nodesOf ts := by
  simp [nodesOf_eq_flatMap]

/-- Leaves hold their tokens. -/
@[simp] theorem tokensOf_map_leaf (ts : List Token) :
    tokensOf (ts.map (leaf : Token → Tree κ)) = ts := by
  induction ts with
  | nil => rfl
  | cons t ts ih => simp [tokensOf, tokens, ih]

/-- Leaves are no nodes. -/
@[simp] theorem nodesOf_map_leaf (ts : List Token) :
    nodesOf (ts.map (leaf : Token → Tree κ)) = [] := by
  induction ts with
  | nil => rfl
  | cons t ts ih => simp [nodesOf, nodes, ih]

end Tree

/-! ## Leaves -/

/-- With default options all tokens but the end of input become leaves. -/
theorem keeps_default (t : Token) : ({} : BuildOptions).keeps t = (t.kind != .eof) := by
  obtain ⟨kind, text, span⟩ := t
  cases kind <;> rfl

namespace BuildContext

/-- The tokens from `start` up to `stop` that become leaves. -/
def leafTokens (b : BuildContext κ) (start stop : Nat) : List Token :=
  ((b.tokens.toList.drop start).take (stop - start)).filter b.options.keeps

theorem leafTokens_all (tokens : List Token) (options : BuildOptions) (r : Registry κ) :
    leafTokens ⟨tokens.toArray, options, r⟩ 0 tokens.length = tokens.filter options.keeps := by
  simp [leafTokens]

/-- The tokens of two stretches in a row. -/
theorem leafTokens_append (b : BuildContext κ) {i j k : Nat} (hij : i ≤ j) (hjk : j ≤ k) :
    b.leafTokens i j ++ b.leafTokens j k = b.leafTokens i k := by
  have hsplit : k - i = (j - i) + (k - j) := by omega
  have hdrop : i + (j - i) = j := by omega
  rw [leafTokens, leafTokens, leafTokens, ← List.filter_append, hsplit, List.take_add,
    List.drop_drop, hdrop]

/-- The tokens of a stretch of `n + 1` tokens: the first one, and those of the rest. -/
theorem leafTokens_succ (b : BuildContext κ) (i n : Nat) :
    b.leafTokens i (i + (n + 1)) =
      (b.tokens[i]?.toList.filter b.options.keeps) ++ b.leafTokens (i + 1) (i + 1 + n) := by
  have hwhole : i + (n + 1) - i = n + 1 := by omega
  have hrest : i + 1 + n - (i + 1) = n := by omega
  rw [leafTokens, leafTokens, hwhole, hrest, ← List.filter_append, ← Array.getElem?_toList]
  congr 1
  rcases Nat.lt_or_ge i b.tokens.toList.length with hlt | hge
  · rw [List.drop_eq_getElem_cons hlt, List.take_succ_cons, List.getElem?_eq_getElem hlt]
    rfl
  · rw [List.drop_eq_nil_of_le hge, List.drop_eq_nil_of_le (by omega),
      List.getElem?_eq_none hge]
    simp

/-- The leaves of two stretches in a row. -/
theorem leaves_append (b : BuildContext κ) {i j k : Nat} (hij : i ≤ j) (hjk : j ≤ k) :
    b.leaves i k = b.leaves i j ++ b.leaves j k := by
  have hlength : k - i = (j - i) + (k - j) := by omega
  have hmiddle : i + 1 * (j - i) = j := by omega
  have hrange : List.range' i (k - i) = List.range' i (j - i) ++ List.range' j (k - j) := by
    rw [hlength, ← List.range'_append, hmiddle]
  rw [leaves, hrange, List.filterMap_append]
  rfl

theorem leaves_of_le (b : BuildContext κ) {i j : Nat} (h : j ≤ i) : b.leaves i j = [] := by
  rw [leaves, Nat.sub_eq_zero_of_le h]
  rfl

theorem leaves_one (b : BuildContext κ) (i : Nat) :
    b.leaves i (i + 1) = (b.tokens[i]?.toList.filter b.options.keeps).map fun t => ⟨i, 2, .leaf t⟩ := by
  rw [leaves, Nat.add_sub_cancel_left]
  cases ht : b.tokens[i]? with
  | none => simp [ht]
  | some t => cases hkeeps : b.options.keeps t <;> simp [ht, hkeeps]

/-- The leaves of a stretch are its tokens. -/
theorem map_tree_leaves (b : BuildContext κ) (start stop : Nat) :
    (b.leaves start stop).map Item.tree = (b.leafTokens start stop).map Tree.leaf := by
  rcases Nat.lt_or_ge stop start with hlt | hle
  · have hzero : stop - start = 0 := by omega
    simp [leaves, leafTokens, hzero]
  · obtain ⟨n, rfl⟩ := Nat.exists_eq_add_of_le hle
    induction n generalizing start with
    | zero => simp [leaves, leafTokens]
    | succ n ih =>
        have hrest := ih (start + 1) (by omega)
        have hwhole : start + (n + 1) - start = n + 1 := by omega
        have hshort : start + 1 + n - (start + 1) = n := by omega
        rw [leafTokens_succ, List.map_append, ← hrest]
        simp only [leaves, hwhole, hshort, List.range'_succ, List.filterMap_cons]
        cases b.tokens[start]? with
        | none => simp
        | some t => cases hkeeps : b.options.keeps t <;> simp [hkeeps]

/-- A leaf stands at its token, in the last rank. -/
theorem mem_leaves {b : BuildContext κ} {start stop : Nat} {i : Item κ}
    (hi : i ∈ b.leaves start stop) : start ≤ i.index ∧ i.index < stop ∧ i.rank = 2 := by
  simp only [leaves, List.mem_filterMap, List.mem_range'_1] at hi
  obtain ⟨n, hn, hsome⟩ := hi
  split at hsome
  · split at hsome
    · cases hsome
      exact ⟨hn.1, by show n < stop; omega, rfl⟩
    · cases hsome
  · cases hsome

end BuildContext

/-! ## Parts in order -/

/-- Parts come no later than those behind them. -/
theorem Item.le_iff (i j : Item κ) :
    i.le j = true ↔ i.index < j.index ∨ i.index = j.index ∧ i.rank ≤ j.rank := by
  simp [Item.le]

theorem Item.le_trans (a b c : Item κ) (hab : a.le b = true) (hbc : b.le c = true) :
    a.le c = true := by
  rw [Item.le_iff] at hab hbc ⊢
  omega

theorem Item.le_total (a b : Item κ) : (a.le b || b.le a) = true := by
  rw [Bool.or_eq_true, Item.le_iff, Item.le_iff]
  omega

/-- Parts from a token on that are in order, none of them a reported error. -/
structure InOrder (start : Nat) (items : List (Item κ)) : Prop where
  sorted : items.Pairwise (fun i j => i.le j = true)
  from_start : ∀ i ∈ items, start ≤ i.index
  rank_pos : ∀ i ∈ items, 0 < i.rank

namespace BuildContext

/-- The leaves of a stretch are in order. -/
theorem inOrder_leaves (b : BuildContext κ) (start stop : Nat) :
    InOrder start (b.leaves start stop) := by
  refine ⟨?_, fun i hi => (mem_leaves hi).1, fun i hi => by rw [(mem_leaves hi).2.2]; omega⟩
  induction stop with
  | zero =>
      rw [leaves_of_le b (Nat.zero_le start)]
      exact .nil
  | succ stop ih =>
      rcases Nat.lt_or_ge stop start with hlt | hle
      · rw [leaves_of_le b hlt]
        exact .nil
      · rw [leaves_append b hle (Nat.le_succ stop)]
        refine List.pairwise_append.mpr ⟨ih, ?_, ?_⟩
        · rw [leaves_one]
          cases b.tokens[stop]? with
          | none => exact .nil
          | some t => cases hkeeps : b.options.keeps t <;> simp [hkeeps]
        · intro i hi j hj
          have hi := (mem_leaves hi).2.1
          have hj := (mem_leaves hj).1
          rw [Item.le_iff]
          exact Or.inl (by omega)

/-- Leaves, a part at the token behind them, and parts from its end on are in order. -/
theorem inOrder_cons (b : BuildContext κ) {cursor : Nat} {m : Marker κ} {items : List (Item κ)}
    (hcursor : cursor ≤ m.start) (hm : m.start ≤ m.stop) (hitems : InOrder m.stop items)
    (tree : Tree κ) :
    InOrder cursor
      (b.leaves cursor m.start ++ ⟨m.start, if m.isEmpty then 1 else 2, tree⟩ :: items) := by
  have hleaves := b.inOrder_leaves cursor m.start
  refine ⟨List.pairwise_append.mpr ⟨hleaves.sorted, List.pairwise_cons.mpr ⟨?_, hitems.sorted⟩, ?_⟩,
    ?_, ?_⟩
  · intro j hj
    have hstart := hitems.from_start j hj
    have hrank := hitems.rank_pos j hj
    rw [Item.le_iff]
    -- An empty node takes the lower rank, since the parts behind it may start at its token.
    cases hempty : m.isEmpty with
    | true =>
        simp only [if_true]
        omega
    | false =>
        have hne : m.start ≠ m.stop := by simpa [Marker.isEmpty] using hempty
        exact Or.inl (by show m.start < j.index; omega)
  · intro i hi j hj
    have hstop := (mem_leaves hi).2.1
    rw [Item.le_iff]
    rcases List.mem_cons.mp hj with rfl | hj
    · exact Or.inl hstop
    · have hstart := hitems.from_start j hj
      exact Or.inl (by omega)
  · intro i hi
    rcases List.mem_append.mp hi with hi | hi
    · exact hleaves.from_start i hi
    · rcases List.mem_cons.mp hi with rfl | hi
      · exact hcursor
      · have hstart := hitems.from_start i hi
        omega
  · intro i hi
    rcases List.mem_append.mp hi with hi | hi
    · exact hleaves.rank_pos i hi
    · rcases List.mem_cons.mp hi with rfl | hi
      · show 0 < if m.isEmpty then 1 else 2
        split <;> omega
      · exact hitems.rank_pos i hi

/-- **Sorting in errors leaves all other parts where they are.** -/
theorem filter_mergeSort_errors (errors : List ParseError) {items : List (Item κ)} {start : Nat}
    (hitems : InOrder start items) :
    ((errors.map errorLeaf ++ items).mergeSort Item.le).filter (fun i => i.rank != 0) = items := by
  have hself : items.filter (fun i => i.rank != 0) = items := by
    rw [List.filter_eq_self]
    intro i hi
    have hpos := hitems.rank_pos i hi
    simp only [bne_iff_ne, ne_eq]
    omega
  have hnone : (errors.map (@errorLeaf κ)).filter (fun i => i.rank != 0) = [] := by
    rw [List.filter_eq_nil_iff]
    intro i hi
    obtain ⟨e, _, rfl⟩ := List.mem_map.mp hi
    simp [errorLeaf]
  have hsub : items.Sublist ((errors.map errorLeaf ++ items).mergeSort Item.le) :=
    List.sublist_mergeSort Item.le_trans Item.le_total hitems.sorted (List.sublist_append_right _ _)
  have hperm := (List.mergeSort_perm (errors.map errorLeaf ++ items) Item.le).filter
    (fun i => i.rank != 0)
  rw [List.filter_append, hnone, hself, List.nil_append] at hperm
  have hsub' := hsub.filter (fun i => i.rank != 0)
  rw [hself] at hsub'
  exact (hsub'.eq_of_length hperm.length_eq.symm).symm

/-- The tokens of parts, if those in rank zero have none. -/
theorem tokensOf_map_tree_filter {items : List (Item κ)}
    (hempty : ∀ i ∈ items, i.rank = 0 → i.tree.tokens = []) :
    Tree.tokensOf ((items.filter (fun i => i.rank != 0)).map Item.tree) =
      Tree.tokensOf (items.map Item.tree) := by
  induction items with
  | nil => rfl
  | cons i items ih =>
      have hrest := ih (fun j hj => hempty j (List.mem_cons_of_mem _ hj))
      by_cases hrank : i.rank = 0
      · have hnone := hempty i List.mem_cons_self hrank
        simp [hrank, Tree.tokensOf, hnone, hrest]
      · simp [hrank, Tree.tokensOf, hrest]

/-- The tokens of ordered parts are those of the parts without the errors. -/
theorem tokensOf_ordered (errors : List ParseError) {items : List (Item κ)} {start : Nat}
    (hitems : InOrder start items) :
    Tree.tokensOf (ordered errors items) = Tree.tokensOf (items.map Item.tree) := by
  rw [ordered, ← tokensOf_map_tree_filter, filter_mergeSort_errors errors hitems]
  intro i hi hrank
  have hmem := (List.mergeSort_perm _ _).mem_iff.mp hi
  rcases List.mem_append.mp hmem with hmem | hmem
  · obtain ⟨e, _, rfl⟩ := List.mem_map.mp hmem
    rfl
  · have hpos := hitems.rank_pos i hmem
    omega

/-- Without errors there is nothing to sort. -/
theorem ordered_nil {start : Nat} {items : List (Item κ)} (hitems : InOrder start items) :
    ordered [] items = items.map Item.tree := by
  simp [ordered, List.mergeSort_of_pairwise hitems.sorted]

/-- The nodes of reported errors. -/
def reports (errors : List ParseError) : List (Tree κ) :=
  errors.map fun e => (errorLeaf e).tree

/-- A reported error has no node but its own. -/
theorem nodesOf_reports (errors : List ParseError) :
    Tree.nodesOf (reports errors : List (Tree κ)) = reports errors := by
  induction errors with
  | nil => rfl
  | cons e es ih =>
      rw [reports] at ih ⊢
      rw [List.map_cons, Tree.nodesOf, ih]
      rfl

/-- The nodes of ordered parts are those of the errors and of the parts. -/
theorem nodesOf_ordered (errors : List ParseError) (items : List (Item κ)) :
    (Tree.nodesOf (ordered errors items)).Perm
      (reports errors ++ Tree.nodesOf (items.map Item.tree)) := by
  have hperm := ((List.mergeSort_perm (errors.map errorLeaf ++ items) Item.le).map
    Item.tree).flatMap_right Tree.nodes
  have hreports : (errors.map errorLeaf).map Item.tree = (reports errors : List (Tree κ)) := by
    rw [List.map_map]
    rfl
  rw [← Tree.nodesOf_eq_flatMap, ← Tree.nodesOf_eq_flatMap, List.map_append, Tree.nodesOf_append,
    hreports, nodesOf_reports] at hperm
  exact hperm

end BuildContext

/-! ## Registries that keep the parts -/

/-- Each constructor that builds a node gives it the parts that it was given. -/
def Registry.KeepsParts [DecidableEq κ] (r : Registry κ) : Prop :=
  ∀ kind constructor, r.get? kind = some constructor → ∀ m parts span node,
    constructor m parts span = .built node → node.isNode = true ∧ node.children = parts

/-- Each constructor that builds a node gives it the span that it was given. -/
def Registry.KeepsSpan [DecidableEq κ] (r : Registry κ) : Prop :=
  ∀ kind constructor, r.get? kind = some constructor → ∀ m parts span node,
    constructor m parts span = .built node → node.span = span

theorem Registry.keepsParts_empty [DecidableEq κ] : ({} : Registry κ).KeepsParts := by
  intro kind constructor hget
  cases hget

theorem Registry.keepsSpan_empty [DecidableEq κ] : ({} : Registry κ).KeepsSpan := by
  intro kind constructor hget
  cases hget

/-- What the registry builds is a plain element, or is built by the constructor of its kind. -/
theorem Registry.construct_ok [DecidableEq κ] [Named κ] {r : Registry κ} {m : Marker κ}
    {parts : List (Tree κ)} {span : Span} {node : Tree κ}
    (hok : r.construct m parts span = .ok node) :
    node = .node (.element m.kind) span parts ∨
      ∃ constructor, r.get? m.kind = some constructor ∧
        constructor m parts span = .built node := by
  unfold construct at hok
  split at hok
  · cases hok
    exact Or.inl rfl
  · rename_i constructor hget
    split at hok
    · rename_i built hbuilt
      cases hok
      exact Or.inr ⟨constructor, hget, hbuilt⟩
    · cases hok
    · cases hok

namespace BuildContext

variable [DecidableEq κ] [Named κ]

/-- The node of a marker is what the registry builds, or an error node over the parts. -/
theorem close_cases (b : BuildContext κ) (m : Marker κ) (parts : List (Tree κ))
    (refusals : List (Nat × String)) :
    b.registry.construct m parts (tokenSpan b.tokens m.start m.stop) =
        .ok (b.close m parts refusals).tree ∨
      ∃ message, (b.close m parts refusals).tree =
        .node (.error message none) (tokenSpan b.tokens m.start m.stop) parts := by
  simp only [close]
  split
  · rename_i tree hok
    exact Or.inl hok
  · exact Or.inr ⟨_, rfl⟩

/-- The node of a marker has the parts that it is made of, refused or not. -/
theorem close_parts {b : BuildContext κ} (hb : b.registry.KeepsParts) (m : Marker κ)
    (parts : List (Tree κ)) (refusals : List (Nat × String)) :
    ∃ kind span, (b.close m parts refusals).tree = .node kind span parts := by
  rcases b.close_cases m parts refusals with hok | ⟨message, herror⟩
  · generalize (b.close m parts refusals).tree = tree at hok
    rcases Registry.construct_ok hok with rfl | ⟨constructor, hget, hbuilt⟩
    · exact ⟨_, _, rfl⟩
    · obtain ⟨hnode, hparts⟩ := hb _ _ hget _ _ _ _ hbuilt
      cases tree with
      | leaf t => cases hnode
      | node kind span cs =>
          obtain rfl : cs = parts := hparts
          exact ⟨kind, span, rfl⟩
  · exact ⟨_, _, herror⟩

/-- The node of a marker has the span of its tokens, refused or not. -/
theorem close_span {b : BuildContext κ} (hb : b.registry.KeepsSpan) (m : Marker κ)
    (parts : List (Tree κ)) (refusals : List (Nat × String)) :
    (b.close m parts refusals).tree.span = tokenSpan b.tokens m.start m.stop := by
  rcases b.close_cases m parts refusals with hok | ⟨message, herror⟩
  · generalize (b.close m parts refusals).tree = tree at hok
    rcases Registry.construct_ok hok with rfl | ⟨constructor, hget, hbuilt⟩
    · rfl
    · exact hb _ _ hget _ _ _ _ hbuilt
  · rw [herror]
    rfl

/-- The node of a marker does not depend on what was refused below it. -/
theorem close_tree_eq (b : BuildContext κ) (m : Marker κ) (parts : List (Tree κ))
    (refusals : List (Nat × String)) :
    (b.close m parts refusals).tree = (b.close m parts []).tree := by
  simp only [close]
  split <;> rfl

/-! ## The tokens of a node -/

mutual

/-- The tokens of a tidy plot are those of its range. -/
theorem tokens_assemble {b : BuildContext κ} (hb : b.registry.KeepsParts) :
    ∀ (p : Plot κ) (errors : List ParseError), p.Tidy →
      (b.assemble errors p).tree.tokens = b.leafTokens p.marker.start p.marker.stop
  | .mk m inner, errors, htidy => by
      obtain ⟨hitems, htokens⟩ := tokensOf_assembleParts hb inner errors m.start m.stop htidy.2
      obtain ⟨kind, span, hnode⟩ := close_parts hb m
        (ordered (ownErrors inner errors) (b.assembleParts errors m.start m.stop inner).1)
        (b.assembleParts errors m.start m.stop inner).2
      rw [assemble, hnode, Tree.tokens, tokensOf_ordered _ hitems, htokens]
      rfl

/-- **The parts of a row of plots are in order, and their tokens are those of the row**, each
once and none of them lost. -/
theorem tokensOf_assembleParts {b : BuildContext κ} (hb : b.registry.KeepsParts) :
    ∀ (ps : List (Plot κ)) (errors : List ParseError) (cursor stop : Nat),
      Plot.Row cursor stop ps →
        InOrder cursor (b.assembleParts errors cursor stop ps).1 ∧
        Tree.tokensOf ((b.assembleParts errors cursor stop ps).1.map Item.tree) =
          b.leafTokens cursor stop
  | [], errors, cursor, stop, _ => by
      rw [assembleParts]
      refine ⟨b.inOrder_leaves cursor stop, ?_⟩
      rw [map_tree_leaves, Tree.tokensOf_map_leaf]
  | p :: ps, errors, cursor, stop, hrow => by
      obtain ⟨hcursor, htidy, hrow⟩ := hrow
      have hp : p.marker.start ≤ p.marker.stop := htidy.le
      have htree := tokens_assemble hb p (errors.filter fun e => p.marker.covers e.index) htidy
      obtain ⟨hitems, htokens⟩ := tokensOf_assembleParts hb ps errors p.marker.stop stop hrow
      have hmax : max cursor p.marker.stop = p.marker.stop := by omega
      rw [assembleParts, hmax]
      refine ⟨b.inOrder_cons hcursor hp hitems _, ?_⟩
      rw [List.map_append, List.map_cons, Tree.tokensOf_append, map_tree_leaves,
        Tree.tokensOf_map_leaf, Tree.tokensOf, htree, htokens,
        leafTokens_append b hp hrow.le, leafTokens_append b hcursor (by have := hrow.le; omega)]

end

/-! ## The nodes below a node -/

/-- A node is made for a marker: by the registry, or as an error node if the registry
refuses, and in any case of parts that hold the tokens of the marker. -/
def MadeFor (b : BuildContext κ) (m : Marker κ) (node : Tree κ) : Prop :=
  ∃ parts, node = (b.close m parts []).tree ∧
    Tree.tokensOf parts = b.leafTokens m.start m.stop

/-- Nodes are made for markers and errors: one for each of the markers, and besides these
only nodes of reported errors. -/
def NodesFor (b : BuildContext κ) (ms : List (Marker κ)) (errors : List ParseError)
    (nodes : List (Tree κ)) : Prop :=
  ∃ elements shown, nodes.Perm (elements ++ reports shown) ∧
    List.Forall₂ b.MadeFor ms elements ∧ ∀ e ∈ shown, e ∈ errors

theorem NodesFor.nil (b : BuildContext κ) (errors : List ParseError) :
    b.NodesFor [] errors [] :=
  ⟨[], [], .refl _, .nil, by simp⟩

theorem NodesFor.perm {b : BuildContext κ} {ms : List (Marker κ)} {errors : List ParseError}
    {nodes nodes' : List (Tree κ)} (h : b.NodesFor ms errors nodes) (hperm : nodes'.Perm nodes) :
    b.NodesFor ms errors nodes' := by
  obtain ⟨elements, shown, hnodes, hmade, hshown⟩ := h
  exact ⟨elements, shown, hperm.trans hnodes, hmade, hshown⟩

theorem NodesFor.mono {b : BuildContext κ} {ms : List (Marker κ)} {errors errors' : List ParseError}
    {nodes : List (Tree κ)} (h : b.NodesFor ms errors nodes) (herrors : errors ⊆ errors') :
    b.NodesFor ms errors' nodes := by
  obtain ⟨elements, shown, hnodes, hmade, hshown⟩ := h
  exact ⟨elements, shown, hnodes, hmade, fun e he => herrors (hshown e he)⟩

theorem NodesFor.append {b : BuildContext κ} {ms ms' : List (Marker κ)} {errors : List ParseError}
    {nodes nodes' : List (Tree κ)} (h : b.NodesFor ms errors nodes)
    (h' : b.NodesFor ms' errors nodes') : b.NodesFor (ms ++ ms') errors (nodes ++ nodes') := by
  obtain ⟨elements, shown, hnodes, hmade, hshown⟩ := h
  obtain ⟨elements', shown', hnodes', hmade', hshown'⟩ := h'
  refine ⟨elements ++ elements', shown ++ shown', ?_, List.rel_append hmade hmade', ?_⟩
  · have hswap : (elements ++ reports shown ++ (elements' ++ reports shown')).Perm
        (elements ++ elements' ++ reports (shown ++ shown')) := by
      rw [reports, reports, reports, List.map_append]
      simp only [List.append_assoc]
      refine List.Perm.append_left elements ?_
      rw [← List.append_assoc, ← List.append_assoc]
      exact List.perm_append_comm.append_right _
    exact (hnodes.append hnodes').trans hswap
  · intro e he
    rcases List.mem_append.mp he with he | he
    · exact hshown e he
    · exact hshown' e he

/-- One more marker with its node. -/
theorem NodesFor.cons {b : BuildContext κ} {m : Marker κ} {ms : List (Marker κ)}
    {errors : List ParseError} {node : Tree κ} {nodes : List (Tree κ)}
    (hnode : b.MadeFor m node) (h : b.NodesFor ms errors nodes) :
    b.NodesFor (m :: ms) errors (node :: nodes) := by
  obtain ⟨elements, shown, hnodes, hmade, hshown⟩ := h
  exact ⟨node :: elements, shown, hnodes.cons node, .cons hnode hmade, hshown⟩

/-- The nodes of ordered parts. -/
theorem NodesFor.ordered {b : BuildContext κ} {ms : List (Marker κ)} {own errors : List ParseError}
    {items : List (Item κ)} (h : b.NodesFor ms errors (Tree.nodesOf (items.map Item.tree)))
    (hown : own ⊆ errors) :
    b.NodesFor ms errors (Tree.nodesOf (BuildContext.ordered own items)) := by
  have hreports : b.NodesFor [] errors (reports own) := ⟨[], own, .refl _, .nil, hown⟩
  exact (hreports.append h).perm (nodesOf_ordered own items)

mutual

/-- Below a tidy plot there is one node for each marker. -/
theorem nodes_assemble {b : BuildContext κ} (hb : b.registry.KeepsParts) :
    ∀ (p : Plot κ) (errors : List ParseError), p.Tidy →
      b.NodesFor (Plot.markers [p]) errors (b.assemble errors p).tree.nodes
  | .mk m inner, errors, htidy => by
      have hinner := (nodesOf_assembleParts hb inner errors m.start m.stop htidy.2).ordered
        (List.filter_subset_self _ : ownErrors inner errors ⊆ errors)
      obtain ⟨hitems, htokens⟩ := tokensOf_assembleParts hb inner errors m.start m.stop htidy.2
      have hmade : b.MadeFor m (b.assemble errors (.mk m inner)).tree :=
        ⟨_, close_tree_eq b m _ _, (tokensOf_ordered _ hitems).trans htokens⟩
      obtain ⟨kind, span, hnode⟩ := close_parts hb m
        (BuildContext.ordered (ownErrors inner errors)
          (b.assembleParts errors m.start m.stop inner).1)
        (b.assembleParts errors m.start m.stop inner).2
      rw [assemble, hnode] at hmade ⊢
      rw [Plot.markers_cons, Plot.markers_nil, List.append_nil, Tree.nodes]
      exact hinner.cons hmade

/-- **Among the parts of a row of plots there is one node for each marker**, and one for each
error that is shown. -/
theorem nodesOf_assembleParts {b : BuildContext κ} (hb : b.registry.KeepsParts) :
    ∀ (ps : List (Plot κ)) (errors : List ParseError) (cursor stop : Nat),
      Plot.Row cursor stop ps →
        b.NodesFor (Plot.markers ps) errors
          (Tree.nodesOf ((b.assembleParts errors cursor stop ps).1.map Item.tree))
  | [], errors, cursor, stop, _ => by
      rw [assembleParts, map_tree_leaves, Tree.nodesOf_map_leaf]
      exact .nil b errors
  | p :: ps, errors, cursor, stop, hrow => by
      obtain ⟨hcursor, htidy, hrow⟩ := hrow
      have hp := htidy.le
      have hmax : max cursor p.marker.stop = p.marker.stop := by omega
      have htree := nodes_assemble hb p (errors.filter fun e => p.marker.covers e.index) htidy
      have hrest := nodesOf_assembleParts hb ps errors p.marker.stop stop hrow
      rw [assembleParts, hmax, List.map_append, List.map_cons, Tree.nodesOf_append, map_tree_leaves,
        Tree.nodesOf_map_leaf, List.nil_append, Tree.nodesOf, ← List.singleton_append,
        Plot.markers_append]
      exact (htree.mono (List.filter_subset_self _)).append hrest

end

end BuildContext

end Lossless
