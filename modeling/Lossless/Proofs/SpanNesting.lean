import Lossless.Proofs.Losslessness

/-!
# Spans nest

The span of a node is read off the tokens that its marker covers, and its parts are sorted by
the tokens at which they stand.  If the tokens are in order, then in every tree **the parts of a
node lie within its span, and each stops where the next one starts or before** (`build_spans_nest`),
the reports of errors apart: they overlap the tokens that they point at.

Every part of a node spans a range of tokens (`Tree.Spans`), and all that is said about spans
follows from how these ranges stand to each other.  Ranges of the parts of a node lie in a row
(`InRow`).  That a range lies within that of its node takes more: an empty range at the end of a
node would have its span behind that of the node if there is a gap between the tokens.  Markers
like that belong outside, since containment is half-open (`Plot.Housed`).
-/

namespace Lossless

variable {κ : Type}

/-! ## Tokens in order -/

/-- Tokens in order: none is inverted, and none starts before those in front of it stop.  There
may be gaps between them. -/
structure Token.Ordered (tokens : List Token) : Prop where
  upright : ∀ t ∈ tokens, t.span.start ≤ t.span.stop
  apart : tokens.Pairwise fun t u => t.span.stop ≤ u.span.start

namespace Token.Ordered

variable {tokens : List Token} (h : Token.Ordered tokens) {i j : Nat} {t u : Token}
include h

theorem stop_le_start (hij : i < j) (ht : tokens[i]? = some t) (hu : tokens[j]? = some u) :
    t.span.stop ≤ u.span.start := by
  obtain ⟨hi, rfl⟩ := List.getElem?_eq_some_iff.mp ht
  obtain ⟨hj, rfl⟩ := List.getElem?_eq_some_iff.mp hu
  exact List.pairwise_iff_getElem.mp h.apart i j hi hj hij

theorem start_le_start (hij : i ≤ j) (ht : tokens[i]? = some t) (hu : tokens[j]? = some u) :
    t.span.start ≤ u.span.start := by
  rcases Nat.lt_or_eq_of_le hij with hlt | rfl
  · exact Nat.le_trans (h.upright t (List.mem_of_getElem? ht)) (h.stop_le_start hlt ht hu)
  · obtain rfl := Option.some.inj (ht.symm.trans hu)
    exact Nat.le_refl _

theorem stop_le_stop (hij : i ≤ j) (ht : tokens[i]? = some t) (hu : tokens[j]? = some u) :
    t.span.stop ≤ u.span.stop := by
  rcases Nat.lt_or_eq_of_le hij with hlt | rfl
  · exact Nat.le_trans (h.stop_le_start hlt ht hu) (h.upright u (List.mem_of_getElem? hu))
  · obtain rfl := Option.some.inj (ht.symm.trans hu)
    exact Nat.le_refl _

end Token.Ordered

/-! ## Ranges of tokens -/

/-- A tree spans the tokens from `start` up to `stop`, which has to be a range among them. -/
structure Tree.Spans (tokens : List Token) (start stop : Nat) (t : Tree κ) : Prop where
  le : start ≤ stop
  stop_le : stop ≤ tokens.length
  lt : start < tokens.length
  span : t.span = tokenSpan tokens.toArray start stop

namespace Tree.Spans

variable {tokens : List Token} {i j a b : Nat} {t u : Tree κ}

/-- A tree with the span of a token. -/
theorem single {token : Token} (htoken : tokens[i]? = some token) (hspan : t.span = token.span) :
    t.Spans tokens i (i + 1) := by
  have hi := (List.getElem?_eq_some_iff.mp htoken).1
  refine ⟨Nat.le_succ i, hi, hi, ?_⟩
  obtain ⟨first, last, hfirst, hlast, heq⟩ := tokenSpan_of_lt (Nat.lt_succ_self i) hi
  obtain rfl := Option.some.inj (htoken.symm.trans hfirst)
  obtain rfl := Option.some.inj (htoken.symm.trans hlast)
  rw [heq, hspan]

/-- A tree starts where its first token starts, and stops there too if it spans none. -/
theorem first (h : t.Spans tokens i j) :
    ∃ token, tokens[i]? = some token ∧ t.span.start = token.span.start ∧
      (i = j → t.span.stop = token.span.start) := by
  obtain ⟨token, htoken⟩ : ∃ token, tokens[i]? = some token :=
    ⟨_, List.getElem?_eq_getElem h.lt⟩
  refine ⟨token, htoken, ?_⟩
  rw [h.span]
  rcases Nat.lt_or_eq_of_le h.le with hlt | rfl
  · obtain ⟨first, last, hfirst, _, heq⟩ := tokenSpan_of_lt hlt h.stop_le
    obtain rfl := Option.some.inj (htoken.symm.trans hfirst)
    rw [heq]
    exact ⟨rfl, fun heq => absurd heq (Nat.ne_of_lt hlt)⟩
  · simp [tokenSpan, htoken, Span.empty]

/-- A tree stops where its last token stops. -/
theorem last (h : t.Spans tokens i j) (hlt : i < j) :
    ∃ token, tokens[j - 1]? = some token ∧ t.span.stop = token.span.stop := by
  obtain ⟨_, last, _, hlast, heq⟩ := tokenSpan_of_lt hlt h.stop_le
  exact ⟨last, hlast, by rw [h.span, heq]⟩

variable (htokens : Token.Ordered tokens)
include htokens

theorem start_le_start (h : t.Spans tokens i j) (h' : u.Spans tokens a b) (hle : i ≤ a) :
    t.span.start ≤ u.span.start := by
  obtain ⟨first, hfirst, hstart, _⟩ := h.first
  obtain ⟨first', hfirst', hstart', _⟩ := h'.first
  rw [hstart, hstart']
  exact htokens.start_le_start hle hfirst hfirst'

/-- A tree stops before one starts that spans later tokens. -/
theorem stop_le_start (h : t.Spans tokens i j) (h' : u.Spans tokens a b) (hle : j ≤ a) :
    t.span.stop ≤ u.span.start := by
  obtain ⟨first, hfirst, _, hempty⟩ := h.first
  obtain ⟨first', hfirst', hstart', _⟩ := h'.first
  rw [hstart']
  rcases Nat.lt_or_eq_of_le h.le with hlt | rfl
  · obtain ⟨last, hlast, hstop⟩ := h.last hlt
    rw [hstop]
    exact htokens.stop_le_start (by omega) hlast hfirst'
  · rw [hempty rfl]
    exact htokens.start_le_start hle hfirst hfirst'

/-- **A tree lies within one that spans its tokens**, unless it is empty and at the end of it. -/
theorem encloses (h : t.Spans tokens i j) (h' : u.Spans tokens a b) (hstart : a ≤ i)
    (hstop : j ≤ b) (hinside : i < b ∨ a = b) : u.span.encloses t.span = true := by
  have hfrom := h'.start_le_start htokens h hstart
  have hto : t.span.stop ≤ u.span.stop := by
    obtain ⟨first, hfirst, _, hempty⟩ := h.first
    obtain ⟨first', hfirst', _, hempty'⟩ := h'.first
    have hle := h.le
    rcases Nat.lt_or_eq_of_le h'.le with hlt' | rfl
    · obtain ⟨last', hlast', hstop'⟩ := h'.last hlt'
      rw [hstop']
      rcases Nat.lt_or_eq_of_le h.le with hlt | rfl
      · obtain ⟨last, hlast, hstop⟩ := h.last hlt
        rw [hstop]
        exact htokens.stop_le_stop (by omega) hlast hlast'
      · rw [hempty rfl]
        have hupright := htokens.upright first (List.mem_of_getElem? hfirst)
        exact Nat.le_trans hupright (htokens.stop_le_stop (by omega) hfirst hlast')
    · -- only an empty range at the same token lies within an empty one
      obtain rfl : i = j := by omega
      rw [hempty rfl, hempty' rfl]
      exact htokens.start_le_start (by omega) hfirst hfirst'
  simp [Span.encloses, hfrom, hto]

end Tree.Spans

/-! ## Rows of parts -/

/-- An error is reported at a token, with the span of that token. -/
def ParseError.IsAt (tokens : List Token) (e : ParseError) : Prop :=
  ∃ t, tokens[e.index]? = some t ∧ t.span = e.span

theorem errorLeaf_spans {tokens : List Token} {e : ParseError} (h : e.IsAt tokens) :
    (BuildContext.errorLeaf e : Item κ).tree.Spans tokens e.index (e.index + 1) := by
  obtain ⟨t, ht, hspan⟩ := h
  exact .single ht hspan.symm

/-- Parts in a row between two tokens: each spans a range of tokens there, and the next one starts
no earlier than this range stops. -/
structure InRow (tokens : List Token) (start stop : Nat) (items : List (Item κ)) : Prop where
  spans : ∀ i ∈ items, ∃ s, i.tree.Spans tokens i.index s ∧ start ≤ i.index ∧ s ≤ stop
  apart : items.Pairwise fun i j => ∃ s, i.tree.Spans tokens i.index s ∧ s ≤ j.index

namespace InRow

variable {tokens : List Token} {a b c : Nat}

theorem nil (tokens : List Token) (a b : Nat) : InRow tokens a b ([] : List (Item κ)) :=
  ⟨by simp, .nil⟩

theorem singleton {t : Tree κ} (h : t.Spans tokens a b) (rank : Nat) :
    InRow tokens a b [⟨a, rank, t⟩] := by
  refine ⟨?_, List.pairwise_singleton _ _⟩
  intro i hi
  obtain rfl := List.mem_singleton.mp hi
  exact ⟨b, h, Nat.le_refl _, Nat.le_refl _⟩

theorem append {is js : List (Item κ)} (h : InRow tokens a b is) (h' : InRow tokens b c js)
    (hab : a ≤ b) (hbc : b ≤ c) : InRow tokens a c (is ++ js) := by
  constructor
  · intro i hi
    rcases List.mem_append.mp hi with hi | hi
    · obtain ⟨s, hspans, hfrom, hto⟩ := h.spans i hi
      exact ⟨s, hspans, hfrom, Nat.le_trans hto hbc⟩
    · obtain ⟨s, hspans, hfrom, hto⟩ := h'.spans i hi
      exact ⟨s, hspans, Nat.le_trans hab hfrom, hto⟩
  · refine List.pairwise_append.mpr ⟨h.apart, h'.apart, ?_⟩
    intro i hi j hj
    obtain ⟨s, hspans, _, hto⟩ := h.spans i hi
    obtain ⟨_, _, hfrom, _⟩ := h'.spans j hj
    exact ⟨s, hspans, Nat.le_trans hto hfrom⟩

end InRow

/-- What trees are built from: tokens in order, and a registry that keeps the parts and the span of
a node. -/
structure BuildContext.Faithful [DecidableEq κ] (b : BuildContext κ) : Prop where
  ordered : Token.Ordered b.tokens.toList
  parts : b.registry.KeepsParts
  span : b.registry.KeepsSpan

namespace BuildContext

theorem inRow_leaves (b : BuildContext κ) (start stop : Nat) :
    InRow b.tokens.toList start stop (b.leaves start stop) := by
  induction stop with
  | zero =>
      rw [leaves_of_le b (Nat.zero_le start)]
      exact .nil _ _ _
  | succ stop ih =>
      rcases Nat.lt_or_ge stop start with hlt | hle
      · rw [leaves_of_le b hlt]
        exact .nil _ _ _
      · have hlast : InRow b.tokens.toList stop (stop + 1) (b.leaves stop (stop + 1)) := by
          rw [leaves_one]
          cases ht : b.tokens[stop]? with
          | none => exact .nil _ _ _
          | some t =>
              have hleaf : (Tree.leaf t : Tree κ).Spans b.tokens.toList stop (stop + 1) :=
                .single (by rwa [Array.getElem?_toList]) rfl
              cases hkeeps : b.options.keeps t with
              | true => simpa [hkeeps] using InRow.singleton hleaf 2
              | false => simpa [hkeeps] using InRow.nil _ _ _
        rw [leaves_append b hle (Nat.le_succ stop)]
        exact ih.append hlast hle (Nat.le_succ stop)

variable [DecidableEq κ] [Named κ] {b : BuildContext κ}

/-- The node of a marker has the span of its tokens and the parts it is made of. -/
theorem close_node (hb : b.Faithful) (m : Marker κ) (parts : List (Tree κ))
    (refusals : List (Nat × String)) :
    ∃ kind, (b.close m parts refusals).tree =
      .node kind (tokenSpan b.tokens m.start m.stop) parts := by
  obtain ⟨kind, span, hnode⟩ := close_parts hb.parts m parts refusals
  have hspan := close_span hb.span m parts refusals
  rw [hnode] at hspan ⊢
  exact ⟨kind, by rw [← hspan, Tree.span]⟩

theorem spans_assemble (hb : b.Faithful) (errors : List ParseError) {p : Plot κ}
    (hfits : p.marker.fits b.tokens.size = true) :
    (b.assemble errors p).tree.Spans b.tokens.toList p.marker.start p.marker.stop := by
  obtain ⟨m, inner⟩ := p
  obtain ⟨hle, hstop, hlt⟩ := (Marker.fits_iff _ m).mp hfits
  exact ⟨hle, hstop, hlt, close_span hb.span m _ _⟩

/-- **The parts of a row of plots are in a row**, and no part stands at its end but for plots. -/
theorem inRow_assembleParts (hb : b.Faithful) (errors : List ParseError) {cursor stop : Nat}
    {ps : List (Plot κ)} (hrow : Plot.Row cursor stop ps)
    (hfits : ∀ p ∈ ps, p.marker.fits b.tokens.size = true) :
    InRow b.tokens.toList cursor stop (b.assembleParts errors cursor stop ps).1 ∧
      ∀ i ∈ (b.assembleParts errors cursor stop ps).1,
        i.index < stop ∨ ∃ p ∈ ps, i.index = p.marker.start := by
  induction ps generalizing cursor with
  | nil =>
      rw [assembleParts]
      exact ⟨b.inRow_leaves cursor stop, fun i hi => Or.inl (mem_leaves hi).2.1⟩
  | cons p ps ih =>
      obtain ⟨hcursor, htidy, hrow⟩ := hrow
      obtain ⟨hp, hps⟩ := List.forall_mem_cons.mp hfits
      obtain ⟨hrest, hindex⟩ := ih hrow hps
      have hle := htidy.le
      have hmax : max cursor p.marker.stop = p.marker.stop := by omega
      have hnode : InRow b.tokens.toList p.marker.start p.marker.stop
          [⟨p.marker.start, if p.marker.isEmpty then 1 else 2,
            (b.assemble (errors.filter fun e => p.marker.covers e.index) p).tree⟩] :=
        .singleton (spans_assemble hb _ hp) _
      rw [assembleParts, hmax]
      refine ⟨(b.inRow_leaves cursor _).append (hnode.append hrest hle hrow.le) hcursor
        (Nat.le_trans hle hrow.le), ?_⟩
      intro i hi
      rcases List.mem_append.mp hi with hi | hi
      · have hlt := (mem_leaves hi).2.1
        have hstop := hrow.le
        exact Or.inl (by omega)
      · rcases List.mem_cons.mp hi with rfl | hi
        · exact Or.inr ⟨p, List.mem_cons_self, rfl⟩
        · rcases hindex i hi with hlt | ⟨q, hq, heq⟩
          · exact Or.inl hlt
          · exact Or.inr ⟨q, List.mem_cons_of_mem _ hq, heq⟩

end BuildContext

/-! ## Nodes -/

/-- The parts of a node lie within its span and in the order in which they start, and those that
are no reports of the given errors do not overlap. -/
structure Tree.SpansNest (errors : List ParseError) (node : Tree κ) : Prop where
  within : ∀ part ∈ node.children, node.span.encloses part.span = true
  starts : node.children.Pairwise fun a b => a.span.start ≤ b.span.start
  apart : node.children.Pairwise fun a b =>
    a ∉ BuildContext.reports errors → b ∉ BuildContext.reports errors →
      a.span.stop ≤ b.span.start

theorem Tree.SpansNest.childless (errors : List ParseError) (kind : NodeKind κ) (span : Span) :
    (Tree.node kind span []).SpansNest errors :=
  ⟨by simp [children], .nil, .nil⟩

/-- What a node over a range of tokens is made of: parts in a row, none of them at the end of the
range unless the node is empty, and errors at tokens of the range. -/
structure Gathered (tokens : List Token) (start stop : Nat) (own : List ParseError)
    (items : List (Item κ)) : Prop where
  order : InOrder start items
  row : InRow tokens start stop items
  inside : ∀ i ∈ items, i.index < stop ∨ start = stop
  located : ∀ e ∈ own, e.IsAt tokens ∧ start ≤ e.index ∧ e.index < stop

namespace BuildContext

variable {tokens : List Token} {start stop : Nat} {own : List ParseError} {items : List (Item κ)}

/-- What is sorted is a report or one of the other parts. -/
theorem mem_sorted {i : Item κ} (hi : i ∈ (own.map errorLeaf ++ items).mergeSort Item.le) :
    (∃ e ∈ own, i = errorLeaf e) ∨ i ∈ items := by
  rcases List.mem_append.mp ((List.mergeSort_perm _ _).mem_iff.mp hi) with hi | hi
  · obtain ⟨e, he, rfl⟩ := List.mem_map.mp hi
    exact Or.inl ⟨e, he, rfl⟩
  · exact Or.inr hi

/-- Whatever is sorted spans tokens of the range. -/
theorem spans_sorted (h : Gathered tokens start stop own items) {i : Item κ}
    (hi : i ∈ (own.map errorLeaf ++ items).mergeSort Item.le) :
    ∃ s, i.tree.Spans tokens i.index s ∧ start ≤ i.index ∧ s ≤ stop ∧
      (i.index < stop ∨ start = stop) := by
  rcases mem_sorted hi with ⟨e, he, rfl⟩ | hi
  · obtain ⟨hat, hfrom, hto⟩ := h.located e he
    exact ⟨e.index + 1, errorLeaf_spans hat, hfrom, hto, Or.inl hto⟩
  · obtain ⟨s, hs, hfrom, hto⟩ := h.row.spans i hi
    exact ⟨s, hs, hfrom, hto, h.inside i hi⟩

/-- Sorting puts parts in the order in which they start. -/
theorem starts_ordered (htokens : Token.Ordered tokens) (h : Gathered tokens start stop own items) :
    (ordered own items).Pairwise fun a b => a.span.start ≤ b.span.start := by
  have hsorted := List.pairwise_mergeSort Item.le_trans Item.le_total (own.map errorLeaf ++ items)
  refine List.pairwise_map.mpr (hsorted.imp_of_mem ?_)
  intro i j hi hj hij
  obtain ⟨s, hs, _⟩ := spans_sorted h hi
  obtain ⟨s', hs', _⟩ := spans_sorted h hj
  rw [Item.le_iff] at hij
  exact hs.start_le_start htokens hs' (by omega)

/-- **Without the reports, sorted parts are the row that was given.** -/
theorem apart_ordered (htokens : Token.Ordered tokens) (h : Gathered tokens start stop own items) :
    (ordered own items).Pairwise fun a b =>
      a ∉ reports own → b ∉ reports own → a.span.stop ≤ b.span.start := by
  have hrow := h.row.apart
  rw [← filter_mergeSort_errors own h.order, List.pairwise_filter] at hrow
  have hrank : ∀ i ∈ (own.map errorLeaf ++ items).mergeSort Item.le,
      i.tree ∉ reports own → (i.rank != 0) = true := by
    intro i hi hnot
    rcases mem_sorted hi with ⟨e, he, rfl⟩ | hi
    · exact absurd (List.mem_map_of_mem he) hnot
    · have hpos := h.order.rank_pos i hi
      simp only [bne_iff_ne, ne_eq]
      omega
  refine List.pairwise_map.mpr (hrow.imp_of_mem ?_)
  intro i j hi hj hapart hnoti hnotj
  obtain ⟨s, hs, hsj⟩ := hapart (hrank i hi hnoti) (hrank j hj hnotj)
  obtain ⟨s', hs', _⟩ := spans_sorted h hj
  exact hs.stop_le_start htokens hs' hsj

/-- **Spans nest in a node that is made of what is gathered for it.** -/
theorem spansNest_ordered (htokens : Token.Ordered tokens)
    (h : Gathered tokens start stop own items) (hle : start ≤ stop) (hstop : stop ≤ tokens.length)
    {errors : List ParseError} (hown : own ⊆ errors) (kind : NodeKind κ) :
    (Tree.node kind (tokenSpan tokens.toArray start stop) (ordered own items)).SpansNest errors := by
  refine ⟨?_, starts_ordered htokens h, ?_⟩
  · intro part hpart
    obtain ⟨i, hi, rfl⟩ := List.mem_map.mp hpart
    obtain ⟨s, hs, hfrom, hto, hinside⟩ := spans_sorted h hi
    have hnode : (Tree.node kind (tokenSpan tokens.toArray start stop)
        (ordered own items)).Spans tokens start stop :=
      ⟨hle, hstop, Nat.lt_of_le_of_lt hfrom hs.lt, rfl⟩
    exact hs.encloses htokens hnode hfrom hto hinside
  · have hsub : (reports own : List (Tree κ)) ⊆ reports errors := List.map_subset _ hown
    exact (apart_ordered htokens h).imp fun hapart ha hb =>
      hapart (fun hmem => ha (hsub hmem)) (fun hmem => hb (hsub hmem))

/-- What holds of a node, of all reports and of all nodes below the other parts holds of every node
of the tree: reports have no parts themselves. -/
theorem forall_nodes_ordered {P : Tree κ → Prop}
    (hreport : ∀ e : ParseError, P (errorLeaf e : Item κ).tree) {own : List ParseError}
    {items : List (Item κ)} {kind : NodeKind κ} {span : Span}
    (hself : P (.node kind span (ordered own items)))
    (hbelow : ∀ node ∈ Tree.nodesOf (items.map Item.tree), P node) :
    ∀ node ∈ (Tree.node kind span (ordered own items)).nodes, P node := by
  refine List.forall_mem_cons.mpr ⟨hself, ?_⟩
  intro node hnode
  rcases List.mem_append.mp ((nodesOf_ordered own items).mem_iff.mp hnode) with hnode | hnode
  · obtain ⟨e, _, rfl⟩ := List.mem_map.mp hnode
    exact hreport e
  · exact hbelow node hnode

/-- If spans nest in a node and below its parts, they do in the whole tree. -/
theorem spansNest_nodes {errors own : List ParseError} {items : List (Item κ)} {kind : NodeKind κ}
    {span : Span} (hself : (Tree.node kind span (ordered own items)).SpansNest errors)
    (hbelow : ∀ node ∈ Tree.nodesOf (items.map Item.tree), node.SpansNest errors) :
    ∀ node ∈ (Tree.node kind span (ordered own items)).nodes, node.SpansNest errors :=
  forall_nodes_ordered (fun _ => .childless errors _ _) hself hbelow

end BuildContext

/-! ## Plots -/

namespace Plot

/-- Markers that fit the tokens, each inside of the one that it belongs into. -/
def Housed (count : Nat) (family : List (Marker κ × Option (Marker κ))) : Prop :=
  ∀ q ∈ family, q.1.fits count = true ∧ ∀ outer ∈ q.2, outer.contains q.1 = true

theorem mem_families {p : Plot κ} {ps : List (Plot κ)} (hp : p ∈ ps) (parent : Option (Marker κ)) :
    (p.marker, parent) ∈ families parent ps := by
  induction ps with
  | nil => cases hp
  | cons q ps ih =>
      rw [families]
      rcases List.mem_cons.mp hp with rfl | hp
      · obtain ⟨m, inner⟩ := p
        exact List.mem_append_left _ List.mem_cons_self
      · exact List.mem_append_right _ (ih hp)

/-- Whatever markers there are, those that are kept are housed. -/
theorem housed_plots (count : Nat) (markers : List (Marker κ)) :
    Housed count (families none (plots count markers).1) := by
  intro q hq
  constructor
  · have hkept : q.1 ∈ Plot.markers (plots count markers).1 := List.mem_map_of_mem hq
    obtain ⟨_, _, haccount⟩ := Layout.ofArranged_naive (fun m hm => arranged_fits hm)
      (arrange_ordered (screen count markers).1).1
    have hscreened := (arrange_account (screen count markers).1).mem (haccount.mem hkept)
    exact (screen_account count markers).2.1 q.1 hscreened
  · intro outer houter
    obtain ⟨before, after, heq⟩ := List.append_of_mem hq
    have hinnermost := (plots_laminar count markers).parents before q.1 q.2 after heq
    rw [Option.mem_def.mp houter] at hinnermost
    exact hinnermost.2.1

end Plot

namespace BuildContext

variable [DecidableEq κ] [Named κ] {b : BuildContext κ} {reported : List ParseError}

/-- The node over a range of tokens, made of a row of plots and of errors in the range. -/
theorem spansNest_node (hb : b.Faithful) (hat : ∀ e ∈ reported, e.IsAt b.tokens.toList)
    {start stop : Nat} {inner : List (Plot κ)} (hrow : Plot.Row start stop inner)
    (hstop : stop ≤ b.tokens.size) (hfits : ∀ p ∈ inner, p.marker.fits b.tokens.size = true)
    (hinside : ∀ p ∈ inner, p.marker.start < stop ∨ start = stop) {errors : List ParseError}
    (herrors : errors ⊆ reported) (hcovered : ∀ e ∈ errors, start ≤ e.index ∧ e.index < stop)
    (kind : NodeKind κ) :
    (Tree.node kind (tokenSpan b.tokens start stop)
      (ordered (ownErrors inner errors)
        (b.assembleParts errors start stop inner).1)).SpansNest reported := by
  have hown : ownErrors inner errors ⊆ errors := List.filter_subset_self _
  obtain ⟨hparts, hindex⟩ := inRow_assembleParts hb errors hrow hfits
  have hgathered : Gathered b.tokens.toList start stop (ownErrors inner errors)
      (b.assembleParts errors start stop inner).1 := by
    refine ⟨(tokensOf_assembleParts hb.parts inner errors start stop hrow).1, hparts, ?_, ?_⟩
    · intro i hi
      rcases hindex i hi with hlt | ⟨p, hp, heq⟩
      · exact Or.inl hlt
      · exact heq ▸ hinside p hp
    · intro e he
      exact ⟨hat e (herrors (hown he)), hcovered e (hown he)⟩
  exact spansNest_ordered hb.ordered hgathered hrow.le hstop (List.Subset.trans hown herrors) kind

/-- What a node over a range of tokens is built from: plots that fit the tokens in a row, none of
them at the end of the range unless the node is empty, and some of the reported errors, at tokens
of the range. -/
structure Site (b : BuildContext κ) (reported : List ParseError) (start stop : Nat)
    (inner : List (Plot κ)) (errors : List ParseError) : Prop where
  row : Plot.Row start stop inner
  stop_le : stop ≤ b.tokens.size
  fits : ∀ p ∈ inner, p.marker.fits b.tokens.size = true
  inside : ∀ p ∈ inner, p.marker.start < stop ∨ start = stop
  reported : errors ⊆ reported
  covered : ∀ e ∈ errors, start ≤ e.index ∧ e.index < stop

/-- The node that is built at a site. -/
def nodeOver (b : BuildContext κ) (kind : NodeKind κ) (start stop : Nat) (inner : List (Plot κ))
    (errors : List ParseError) : Tree κ :=
  .node kind (tokenSpan b.tokens start stop)
    (ordered (ownErrors inner errors) (b.assembleParts errors start stop inner).1)

/-- Building establishes a property of single nodes: all reports have it, and every node that is
built at a site. -/
structure Establishes (b : BuildContext κ) (reported : List ParseError) (P : Tree κ → Prop) :
    Prop where
  faithful : b.Faithful
  report : ∀ e : ParseError, P (errorLeaf e : Item κ).tree
  site : ∀ kind start stop inner errors, b.Site reported start stop inner errors →
    P (b.nodeOver kind start stop inner errors)

mutual

/-- What building establishes holds of every node in the tree of a plot. -/
theorem Establishes.assemble {P : Tree κ → Prop} (h : b.Establishes reported P) :
    ∀ (p : Plot κ) (errors : List ParseError) (parent : Option (Marker κ)), p.Tidy →
      Plot.Housed b.tokens.size (p.family parent) → errors ⊆ reported →
      (∀ e ∈ errors, p.marker.covers e.index = true) →
      ∀ node ∈ (b.assemble errors p).tree.nodes, P node
  | .mk m inner, errors, parent, htidy, hhoused, herrors, hcovered => by
      obtain ⟨hm, hinner⟩ := List.forall_mem_cons.mp hhoused
      obtain ⟨_, hstop, _⟩ := (Marker.fits_iff _ m).mp hm.1
      have hplots : ∀ p ∈ inner, p.marker.fits b.tokens.size = true ∧
          m.contains p.marker = true := by
        intro p hp
        obtain ⟨hfits, hcontains⟩ := hinner _ (Plot.mem_families hp (some m))
        exact ⟨hfits, hcontains m rfl⟩
      have hhere : b.Site reported m.start m.stop inner errors := by
        refine ⟨htidy.2, hstop, fun p hp => (hplots p hp).1, ?_, herrors, ?_⟩
        · -- the third part of containment keeps empty plots off the end of the node
          exact fun p hp => ((Marker.contains_iff m p.marker).mp (hplots p hp).2).2.2
        · intro e he
          have hcovers : m.covers e.index = true := hcovered e he
          simpa [Marker.covers] using hcovers
      have hbelow := h.assembleParts inner errors m.start m.stop (some m) htidy.2 hinner herrors
      obtain ⟨kind, hnode⟩ := close_node h.faithful m
        (ordered (ownErrors inner errors) (b.assembleParts errors m.start m.stop inner).1)
        (b.assembleParts errors m.start m.stop inner).2
      rw [BuildContext.assemble, hnode]
      exact forall_nodes_ordered h.report (h.site kind _ _ _ _ hhere) hbelow

/-- The same among the parts of a row of plots. -/
theorem Establishes.assembleParts {P : Tree κ → Prop} (h : b.Establishes reported P) :
    ∀ (ps : List (Plot κ)) (errors : List ParseError) (cursor stop : Nat)
      (parent : Option (Marker κ)), Plot.Row cursor stop ps →
      Plot.Housed b.tokens.size (Plot.families parent ps) → errors ⊆ reported →
      ∀ node ∈ Tree.nodesOf ((b.assembleParts errors cursor stop ps).1.map Item.tree), P node
  | [], errors, cursor, stop, parent, _, _, _ => by
      rw [BuildContext.assembleParts, map_tree_leaves, Tree.nodesOf_map_leaf]
      simp
  | p :: ps, errors, cursor, stop, parent, hrow, hhoused, herrors => by
      obtain ⟨hcursor, htidy, hrow⟩ := hrow
      have hp := htidy.le
      have hmax : max cursor p.marker.stop = p.marker.stop := by omega
      rw [Plot.families] at hhoused
      obtain ⟨hfirst, hlater⟩ := List.forall_mem_append.mp hhoused
      have hcovered : ∀ e ∈ errors.filter (fun e => p.marker.covers e.index),
          p.marker.covers e.index = true := fun e he => (List.mem_filter.mp he).2
      have htree := h.assemble p _ parent htidy hfirst
        (List.Subset.trans (List.filter_subset_self _) herrors) hcovered
      have hrest := h.assembleParts ps errors p.marker.stop stop parent hrow hlater herrors
      rw [BuildContext.assembleParts, hmax, List.map_append, List.map_cons, Tree.nodesOf_append,
        map_tree_leaves, Tree.nodesOf_map_leaf, List.nil_append, Tree.nodesOf]
      exact List.forall_mem_append.mpr ⟨htree, hrest⟩

end

/-- Among the parts of a row of plots spans nest. -/
theorem spansNest_assembleParts (hb : b.Faithful) (hat : ∀ e ∈ reported, e.IsAt b.tokens.toList) :
    ∀ (ps : List (Plot κ)) (errors : List ParseError) (cursor stop : Nat)
      (parent : Option (Marker κ)), Plot.Row cursor stop ps →
      Plot.Housed b.tokens.size (Plot.families parent ps) → errors ⊆ reported →
      ∀ node ∈ Tree.nodesOf ((b.assembleParts errors cursor stop ps).1.map Item.tree),
        node.SpansNest reported := by
  refine Establishes.assembleParts ⟨hb, fun _ => .childless reported _ _, ?_⟩
  intro kind start stop inner errors h
  exact spansNest_node hb hat h.row h.stop_le h.fits h.inside h.reported h.covered kind

/-- **What building establishes holds of every node that is built**, from whatever markers, if the
errors are reported at tokens. -/
theorem Establishes.build {P : Tree κ → Prop} {r : Registry κ} {options : BuildOptions}
    {tokens : List Token} {errors : List ParseError}
    (h : Establishes ⟨tokens.toArray, options, r⟩ errors P) (hat : ∀ e ∈ errors, e.IsAt tokens)
    (markers : List (Marker κ)) :
    ∀ node ∈ (Lossless.build r options tokens markers errors).root.nodes, P node := by
  have hhoused := Plot.housed_plots tokens.length markers
  have hrow := (plots_naive tokens.length markers).2
  have hdistinct := distinctErrors_subset [] errors
  have hfits : ∀ p ∈ (plots tokens.length markers).1, p.marker.fits tokens.length = true :=
    fun p hp => (hhoused _ (Plot.mem_families hp none)).1
  have hroot : Site ⟨tokens.toArray, options, r⟩ errors 0 tokens.length
      (plots tokens.length markers).1 (distinctErrors [] errors) := by
    refine ⟨hrow, Nat.le_refl _, hfits, ?_, hdistinct, ?_⟩
    · exact fun p hp => Or.inl ((Marker.fits_iff _ _).mp (hfits p hp)).2.2
    · intro e he
      obtain ⟨t, ht, _⟩ := hat e (hdistinct he)
      exact ⟨Nat.zero_le _, (List.getElem?_eq_some_iff.mp ht).1⟩
  have hbelow := h.assembleParts _ _ 0 tokens.length none hrow hhoused hdistinct
  rw [build_root]
  exact forall_nodes_ordered h.report (h.site .root _ _ _ _ hroot) hbelow

end BuildContext

/-- **Spans nest, and siblings are in order.**  For tokens in order, with gaps or not, any markers
whatsoever, errors at tokens, any options, and a registry whose constructors keep the span and the
parts of a node: in every node of the tree the parts lie within its span, none starts before the
one in front of it does, and of two parts that are no reports of errors the earlier one stops
where the later one starts or before. -/
theorem build_spans_nest [DecidableEq κ] [Named κ] {r : Registry κ} (hparts : r.KeepsParts)
    (hspan : r.KeepsSpan) (options : BuildOptions) {tokens : List Token}
    (htokens : Token.Ordered tokens) (markers : List (Marker κ)) {errors : List ParseError}
    (hat : ∀ e ∈ errors, e.IsAt tokens) :
    ∀ node ∈ (build r options tokens markers errors).root.nodes, node.SpansNest errors := by
  let b : BuildContext κ := ⟨tokens.toArray, options, r⟩
  have hb : b.Faithful := ⟨htokens, hparts, hspan⟩
  have hhoused := Plot.housed_plots tokens.length markers
  have hrow := (plots_naive tokens.length markers).2
  have hdistinct := distinctErrors_subset [] errors
  have hfits : ∀ p ∈ (plots tokens.length markers).1, p.marker.fits tokens.length = true :=
    fun p hp => (hhoused _ (Plot.mem_families hp none)).1
  have hinside : ∀ p ∈ (plots tokens.length markers).1,
      p.marker.start < tokens.length ∨ 0 = tokens.length :=
    fun p hp => Or.inl ((Marker.fits_iff _ _).mp (hfits p hp)).2.2
  have hcovered : ∀ e ∈ distinctErrors [] errors, 0 ≤ e.index ∧ e.index < tokens.length := by
    intro e he
    obtain ⟨t, ht, _⟩ := hat e (hdistinct he)
    exact ⟨Nat.zero_le _, (List.getElem?_eq_some_iff.mp ht).1⟩
  have hself := BuildContext.spansNest_node hb hat hrow (Nat.le_refl _) hfits hinside hdistinct
    hcovered .root
  have hbelow := BuildContext.spansNest_assembleParts hb hat _ _ 0 tokens.length none hrow hhoused
    hdistinct
  rw [build_root]
  exact BuildContext.spansNest_nodes hself hbelow

/-- Tokens with gaps, a group that is refused, an empty marker at its end and one at the end of the
input, a marker that crosses the group, and errors at the first token of a marker and at the end. -/
theorem build_spans_nest_empty_markers :
    let tokens : List Token :=
      [⟨.punctuation, "(", ⟨0, 1⟩⟩, ⟨.identifier, "é", ⟨1, 3⟩⟩, ⟨.operator, "=", ⟨4, 5⟩⟩,
        ⟨.identifier, "b", ⟨6, 7⟩⟩, Token.eof 7]
    let markers : List (Marker Calculator.Kind) :=
      [⟨1, 0, 3, .group, none⟩, ⟨2, 1, 2, .name, none⟩, ⟨3, 3, 3, .mul, none⟩,
        ⟨4, 2, 4, .add, none⟩, ⟨5, 4, 4, .number, none⟩]
    let errors : List ParseError := [⟨1, "unknown name", ⟨1, 3⟩⟩, ⟨4, "expected ')'", ⟨7, 7⟩⟩]
    let root := (build Calculator.registry {} tokens markers errors).root
    Calculator.registry.KeepsParts ∧ Calculator.registry.KeepsSpan ∧ Token.Ordered tokens ∧
      (∀ e ∈ errors, e.IsAt tokens) ∧
      root.children.map (·.span) = [⟨0, 5⟩, ⟨6, 6⟩, ⟨6, 7⟩, ⟨7, 7⟩, ⟨7, 7⟩] ∧
      ∀ node ∈ root.nodes, node.SpansNest errors := by
  intro tokens markers errors root
  obtain ⟨hparts, hspan⟩ := Calculator.registry_keeps
  have htokens : Token.Ordered tokens := ⟨by decide, by decide⟩
  have hat : ∀ e ∈ errors, e.IsAt tokens := by
    simp [errors, tokens, ParseError.IsAt, Token.eof, Span.empty]
  exact ⟨hparts, hspan, htokens, hat, by cbv,
    build_spans_nest hparts hspan {} htokens markers hat⟩

end Lossless
