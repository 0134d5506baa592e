import Lossless.Proofs.SpanNesting

/-!
# The deepest node at an offset

`Tree.nodeAt?` goes down from the top, at each node into the first part that covers the offset,
and never comes back.  That finds the deepest node at the offset if no part that is passed over
leads deeper (`Tree.Clear`).

**In a tree that is built, two parts of one node cover the same offset only if both are reports of
errors** (`BuildContext.clear_nodeOver`), and a report has no parts.  For parts that stand for
tokens and elements this is the order of the tokens.  A report covers the token that it points at,
and an element among its siblings does not: the report belongs to the innermost element that covers
its token.
-/

namespace Lossless

variable {κ : Type}

theorem Span.contains_of_encloses {s t : Span} {offset : Nat} (h : s.encloses t = true)
    (ht : t.contains offset = true) : s.contains offset = true := by
  simp only [encloses, contains, Bool.and_eq_true, decide_eq_true_eq] at h ht ⊢
  omega

/-! ## Going down -/

namespace Tree

/-- A node stands in a tree, a number of levels below its top. -/
inductive AtDepth (n : Tree κ) : Nat → Tree κ → Prop
  | top (h : n.isNode = true) : AtDepth n 0 n
  | inner {depth : Nat} {kind : NodeKind κ} {span : Span} {parts : List (Tree κ)} {part : Tree κ}
      (hpart : part ∈ parts) (h : AtDepth n depth part) :
      AtDepth n (depth + 1) (.node kind span parts)

/-- A node stands in a tree and covers an offset, and no node of the tree that covers it stands
deeper. -/
structure Deepest (t : Tree κ) (offset : Nat) (n : Tree κ) (depth : Nat) : Prop where
  stands : n.AtDepth depth t
  covers : n.span.contains offset = true
  deepest : ∀ (other : Tree κ) (depth' : Nat), other.AtDepth depth' t → other.span.contains offset = true →
    depth' ≤ depth

/-- If two trees are nodes that cover one offset, neither has parts. -/
def MeetChildless (a b : Tree κ) : Prop :=
  a.isNode = true → b.isNode = true → ∀ offset, a.span.contains offset = true →
    b.span.contains offset = true → a.children = [] ∧ b.children = []

theorem MeetChildless.symm {a b : Tree κ} (h : a.MeetChildless b) : b.MeetChildless a :=
  fun hb ha offset hbc hac => (h ha hb offset hac hbc).symm

/-- The parts of a node lie within its span, and where two of them meet they have no parts. -/
structure Clear (node : Tree κ) : Prop where
  within : ∀ part ∈ node.children, node.span.encloses part.span = true
  meet : node.children.Pairwise MeetChildless

theorem Clear.childless (kind : NodeKind κ) (span : Span) : (Tree.node kind span []).Clear :=
  ⟨by simp [children], .nil⟩

theorem nodesOf_subset {part : Tree κ} {parts : List (Tree κ)} (h : part ∈ parts) :
    part.nodes ⊆ nodesOf parts := by
  rw [nodesOf_eq_flatMap]
  exact fun node hnode => List.mem_flatMap.mpr ⟨part, h, hnode⟩

namespace AtDepth

variable {n t : Tree κ} {depth : Nat}

theorem isNode (h : n.AtDepth depth t) : t.isNode = true := by
  cases h with
  | top h => exact h
  | inner => rfl

/-- A tree without parts has no other node than itself. -/
theorem eq_zero (h : n.AtDepth depth t) (hleaf : t.children = []) : depth = 0 := by
  cases h with
  | top => rfl
  | @inner _ _ _ parts _ hpart =>
      obtain rfl : parts = [] := hleaf
      cases hpart

/-- **A tree covers whatever a node in it covers**, if parts lie within their nodes. -/
theorem covers {offset : Nat} (h : n.AtDepth depth t) (hclear : ∀ node ∈ t.nodes, node.Clear)
    (hcovers : n.span.contains offset = true) : t.span.contains offset = true := by
  induction h with
  | top => exact hcovers
  | @inner _ _ _ _ part hpart h ih =>
      have hbelow : ∀ node ∈ part.nodes, node.Clear := fun node hnode =>
        hclear node (List.mem_cons_of_mem _ (nodesOf_subset hpart hnode))
      exact Span.contains_of_encloses ((hclear _ List.mem_cons_self).within part hpart) (ih hbelow)

end AtDepth

mutual

/-- **Going down into the first part that covers the offset finds the deepest node.** -/
theorem descend_deepest (offset : Nat) : ∀ t : Tree κ, t.isNode = true →
    (∀ node ∈ t.nodes, node.Clear) → t.span.contains offset = true →
      ∃ depth, t.Deepest offset (t.descend offset) depth
  | .node kind span parts, _, hclear, hcovers => by
      obtain ⟨hself, hbelow⟩ := List.forall_mem_cons.mp hclear
      obtain ⟨hnone, hsome⟩ := descendAmong_deepest offset parts hself.meet hbelow
      rw [descend]
      cases hchosen : descendAmong offset parts with
      | none =>
          refine ⟨0, .top rfl, hcovers, ?_⟩
          intro other depth h hother
          cases h with
          | top => exact Nat.le_refl 0
          | inner hpart h =>
              have hpartCovers := h.covers
                (fun node hnode => hbelow node (nodesOf_subset hpart hnode)) hother
              rw [hnone hchosen _ hpart h.isNode] at hpartCovers
              cases hpartCovers
      | some n =>
          obtain ⟨depth, part, hpart, hdeepest, hothers⟩ := hsome n hchosen
          refine ⟨depth + 1, .inner hpart hdeepest.stands, hdeepest.covers, ?_⟩
          intro other depth' h hother
          cases h with
          | top => exact Nat.zero_le _
          | inner hpart' h => exact Nat.succ_le_succ (hothers _ hpart' other _ h hother)

/-- Among the parts of a node, the node reached is the deepest one at the offset, and if none is
reached, no part covers the offset. -/
theorem descendAmong_deepest (offset : Nat) : ∀ parts : List (Tree κ),
    parts.Pairwise MeetChildless → (∀ node ∈ nodesOf parts, node.Clear) →
      (descendAmong offset parts = none →
        ∀ part ∈ parts, part.isNode = true → part.span.contains offset = false) ∧
      ∀ n, descendAmong offset parts = some n →
        ∃ depth, ∃ part ∈ parts, part.Deepest offset n depth ∧
          ∀ part' ∈ parts, ∀ (other : Tree κ) (depth' : Nat), other.AtDepth depth' part' →
            other.span.contains offset = true → depth' ≤ depth
  | [], _, _ => by simp [descendAmong]
  | part :: parts, hmeet, hclear => by
      obtain ⟨hfirst, hlater⟩ := List.pairwise_cons.mp hmeet
      obtain ⟨hpart, hparts⟩ := List.forall_mem_append.mp hclear
      rw [descendAmong]
      by_cases hcovers : (part.isNode && part.span.contains offset) = true
      · rw [if_pos hcovers]
        obtain ⟨hnode, hat⟩ := Bool.and_eq_true_iff.mp hcovers
        obtain ⟨depth, hdeepest⟩ := descend_deepest offset part hnode hpart hat
        refine ⟨by simp, ?_⟩
        rintro n ⟨⟩
        refine ⟨depth, part, List.mem_cons_self, hdeepest, ?_⟩
        intro part' hmem other depth' h hother
        rcases List.mem_cons.mp hmem with rfl | hmem
        · exact hdeepest.deepest other depth' h hother
        · -- a later part that covers the offset has no parts, so nothing in it is deeper
          have hat' := h.covers (fun node hn => hparts node (nodesOf_subset hmem hn)) hother
          obtain ⟨_, hempty⟩ := hfirst part' hmem hnode h.isNode offset hat hat'
          rw [h.eq_zero hempty]
          exact Nat.zero_le depth
      · rw [if_neg hcovers]
        have hnot : part.isNode = true → part.span.contains offset = false := by
          intro hnode
          simpa [hnode] using hcovers
        obtain ⟨hnone, hsome⟩ := descendAmong_deepest offset parts hlater hparts
        constructor
        · intro hchosen
          exact List.forall_mem_cons.mpr ⟨hnot, hnone hchosen⟩
        · intro n hchosen
          obtain ⟨depth, chosen, hmem, hdeepest, hothers⟩ := hsome n hchosen
          refine ⟨depth, chosen, List.mem_cons_of_mem _ hmem, hdeepest, ?_⟩
          intro part' hmem' other depth' h hother
          rcases List.mem_cons.mp hmem' with rfl | hmem'
          · have hat := h.covers hpart hother
            rw [hnot h.isNode] at hat
            cases hat
          · exact hothers part' hmem' other depth' h hother

end

end Tree

/-! ## Parts that cover the same offset -/

namespace BuildContext

/-- Of two trees over tokens in order, one behind the other, at most one covers an offset. -/
theorem meetChildless_of_apart {tokens : List Token} (htokens : Token.Ordered tokens)
    {t u : Tree κ} {i j k l : Nat} (ht : t.Spans tokens i j) (hu : u.Spans tokens k l)
    (happart : j ≤ k ∨ l ≤ i) : t.MeetChildless u := by
  intro _ _ offset htc huc
  have hspans : t.span.stop ≤ u.span.start ∨ u.span.stop ≤ t.span.start :=
    happart.imp (ht.stop_le_start htokens hu) (hu.stop_le_start htokens ht)
  simp only [Span.contains, Bool.and_eq_true, decide_eq_true_eq] at htc huc
  omega

variable [DecidableEq κ] [Named κ] {b : BuildContext κ} {reported : List ParseError}

/-- Every part of a row of plots is a token or the node of one of the plots. -/
theorem spans_of_mem_assembleParts (hb : b.Faithful) (errors : List ParseError)
    {cursor stop : Nat} {ps : List (Plot κ)}
    (hfits : ∀ p ∈ ps, p.marker.fits b.tokens.size = true) :
    ∀ i ∈ (b.assembleParts errors cursor stop ps).1, i.tree.isNode = true →
      ∃ p ∈ ps, i.tree.Spans b.tokens.toList p.marker.start p.marker.stop := by
  have hleaf : ∀ start stop, ∀ i ∈ b.leaves start stop, i.tree.isNode = false := by
    intro start stop i hi
    have htree : i.tree ∈ (b.leaves start stop).map Item.tree := List.mem_map_of_mem hi
    rw [map_tree_leaves] at htree
    obtain ⟨t, _, heq⟩ := List.mem_map.mp htree
    rw [← heq, Tree.isNode]
  induction ps generalizing cursor with
  | nil =>
      intro i hi hnode
      rw [assembleParts] at hi
      rw [hleaf _ _ i hi] at hnode
      cases hnode
  | cons p ps ih =>
      obtain ⟨hp, hps⟩ := List.forall_mem_cons.mp hfits
      intro i hi hnode
      rw [assembleParts] at hi
      rcases List.mem_append.mp hi with hi | hi
      · rw [hleaf _ _ i hi] at hnode
        cases hnode
      · rcases List.mem_cons.mp hi with rfl | hi
        · exact ⟨p, List.mem_cons_self, spans_assemble hb _ hp⟩
        · obtain ⟨q, hq, hspans⟩ := ih hps i hi hnode
          exact ⟨q, List.mem_cons_of_mem _ hq, hspans⟩

/-- A report does not meet the other parts: an element that covers its token would have taken the
error. -/
theorem meetChildless_report (hb : b.Faithful) {errors errors' : List ParseError}
    {cursor stop : Nat} {ps : List (Plot κ)}
    (hfits : ∀ p ∈ ps, p.marker.fits b.tokens.size = true) {e : ParseError}
    (hat : e.IsAt b.tokens.toList) (hown : e ∈ ownErrors ps errors') :
    ∀ i ∈ (b.assembleParts errors cursor stop ps).1, (errorLeaf e).tree.MeetChildless i.tree := by
  intro i hi hreport hnode
  obtain ⟨p, hp, hspans⟩ := spans_of_mem_assembleParts hb errors hfits i hi hnode
  have hnone := (List.mem_filter.mp hown).2
  have hcovers : p.marker.covers e.index = false := by
    rw [Bool.not_eq_true', List.any_eq_false] at hnone
    exact Bool.eq_false_iff.mpr (hnone p hp)
  have happart : e.index + 1 ≤ p.marker.start ∨ p.marker.stop ≤ e.index := by
    simp only [Marker.covers, Bool.and_eq_false_iff, decide_eq_false_iff_not] at hcovers
    omega
  exact meetChildless_of_apart hb.ordered (errorLeaf_spans hat) hspans happart hreport hnode

/-- **Two parts of a node that cover one offset are reports of errors.** -/
theorem clear_nodeOver (hb : b.Faithful) (hat : ∀ e ∈ reported, e.IsAt b.tokens.toList)
    {start stop : Nat} {inner : List (Plot κ)} {errors : List ParseError}
    (h : b.Site reported start stop inner errors) (kind : NodeKind κ) :
    (b.nodeOver kind start stop inner errors).Clear := by
  have hnest := spansNest_node hb hat h.row h.stop_le h.fits h.inside h.reported h.covered kind
  refine ⟨hnest.within, List.pairwise_map.mpr ?_⟩
  have hreports : ((ownErrors inner errors).map errorLeaf).Pairwise
      fun i j : Item κ => i.tree.MeetChildless j.tree :=
    List.pairwise_map.mpr (List.pairwise_of_forall fun _ _ _ _ _ _ _ => ⟨rfl, rfl⟩)
  have hrow := (inRow_assembleParts hb errors h.row h.fits).1
  have hparts : (b.assembleParts errors start stop inner).1.Pairwise
      fun i j => i.tree.MeetChildless j.tree := by
    refine hrow.apart.imp_of_mem ?_
    rintro i j _ hj ⟨s, hs, hle⟩
    obtain ⟨s', hs', _⟩ := hrow.spans j hj
    exact meetChildless_of_apart hb.ordered hs hs' (Or.inl hle)
  have hcross : ∀ i ∈ (ownErrors inner errors).map errorLeaf,
      ∀ j ∈ (b.assembleParts errors start stop inner).1, i.tree.MeetChildless j.tree := by
    intro i hi
    obtain ⟨e, he, rfl⟩ := List.mem_map.mp hi
    have hgiven : e ∈ errors := (List.mem_filter.mp he).1
    exact meetChildless_report hb h.fits (hat e (h.reported hgiven)) he
  -- the order of the parts plays no role, so they may be looked at before they are sorted
  have hall := List.pairwise_append.mpr ⟨hreports, hparts, hcross⟩
  exact (List.mergeSort_perm _ Item.le).symm.pairwise hall fun hij => hij.symm

end BuildContext

/-- **The node found at an offset is the deepest one there.**  For tokens in order, with gaps or
not, any markers whatsoever, errors at tokens, any options, and a registry whose constructors keep
the span and the parts of a node: a node is found at an offset if and only if the root covers the
offset; it covers the offset, and no node of the tree that covers it stands deeper. -/
theorem build_nodeAt?_deepest [DecidableEq κ] [Named κ] {r : Registry κ} (hparts : r.KeepsParts)
    (hspan : r.KeepsSpan) (options : BuildOptions) {tokens : List Token}
    (htokens : Token.Ordered tokens) (markers : List (Marker κ)) {errors : List ParseError}
    (hat : ∀ e ∈ errors, e.IsAt tokens) (offset : Nat) :
    let root := (build r options tokens markers errors).root
    (root.nodeAt? offset = none ↔ root.span.contains offset = false) ∧
      ∀ node, root.nodeAt? offset = some node → ∃ depth, root.Deepest offset node depth := by
  intro root
  have hb : BuildContext.Faithful ⟨tokens.toArray, options, r⟩ := ⟨htokens, hparts, hspan⟩
  have hestablishes : BuildContext.Establishes ⟨tokens.toArray, options, r⟩ errors
      Tree.Clear :=
    ⟨hb, fun _ => .childless _ _, fun kind _ _ _ _ h => BuildContext.clear_nodeOver hb hat h kind⟩
  have hclear : ∀ node ∈ root.nodes, node.Clear := hestablishes.build hat markers
  have hnode : root.isNode = true := by
    simp only [root, build_root, Tree.isNode]
  rw [Tree.nodeAt?]
  cases hcovers : root.span.contains offset with
  | false => simp
  | true =>
      refine ⟨by simp, ?_⟩
      intro node hfound
      obtain rfl := Option.some.inj hfound
      exact root.descend_deepest offset hnode hclear hcovers

/-- With and without constructors for its kinds, an unknown name with two reports, a group that it
crosses, and markers without tokens at the first and the last token. -/
theorem build_nodeAt?_deepest_two_reports :
    let tokens : List Token :=
      [⟨.punctuation, "(", ⟨0, 1⟩⟩, ⟨.identifier, "é", ⟨1, 3⟩⟩, ⟨.operator, "=", ⟨4, 5⟩⟩,
        ⟨.identifier, "b", ⟨6, 7⟩⟩, Token.eof 7]
    let markers : List (Marker Calculator.Kind) :=
      [⟨1, 0, 3, .group, none⟩, ⟨2, 1, 1, .mul, none⟩, ⟨3, 1, 2, .name, none⟩,
        ⟨4, 2, 4, .add, none⟩, ⟨5, 4, 4, .number, none⟩]
    let errors : List ParseError := [⟨1, "unknown name", ⟨1, 3⟩⟩, ⟨1, "no value", ⟨1, 3⟩⟩]
    let root (r : Registry Calculator.Kind) := (build r {} tokens markers errors).root
    Token.Ordered tokens ∧ (∀ e ∈ errors, e.IsAt tokens) ∧
      ∀ r ∈ [Calculator.registry, {}], r.KeepsParts ∧ r.KeepsSpan ∧
        (root r).nodeAt? 2 = some (.node (.error "unknown name" (some 1)) ⟨1, 3⟩ []) ∧
        (root r).nodeAt? 7 = none ∧ (root r).span.contains 7 = false ∧
        ∃ depth, (root r).Deepest 2 (.node (.error "unknown name" (some 1)) ⟨1, 3⟩ []) depth := by
  intro tokens markers errors root
  have htokens : Token.Ordered tokens := ⟨by decide, by decide⟩
  have hat : ∀ e ∈ errors, e.IsAt tokens := by
    simp [errors, tokens, ParseError.IsAt, Token.eof, Span.empty]
  have hfound : ∀ r ∈ [Calculator.registry, {}],
      (root r).nodeAt? 2 = some (.node (.error "unknown name" (some 1)) ⟨1, 3⟩ []) ∧
        (root r).nodeAt? 7 = none := by
    simp only [List.forall_mem_cons]
    refine ⟨⟨by cbv, by cbv⟩, ⟨by cbv, by cbv⟩, by simp⟩
  have hkeeps : ∀ r ∈ [Calculator.registry, {}], r.KeepsParts ∧ r.KeepsSpan := by
    simp only [List.forall_mem_cons]
    exact ⟨Calculator.registry_keeps, ⟨Registry.keepsParts_empty, Registry.keepsSpan_empty⟩, by simp⟩
  refine ⟨htokens, hat, fun r hr => ?_⟩
  obtain ⟨hparts, hspan⟩ := hkeeps r hr
  obtain ⟨hinside, houtside⟩ := hfound r hr
  have hdeepest := build_nodeAt?_deepest hparts hspan {} htokens markers hat
  exact ⟨hparts, hspan, hinside, houtside, (hdeepest 7).1.mp houtside, (hdeepest 2).2 _ hinside⟩

end Lossless
