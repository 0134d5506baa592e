import Lossless.Proofs.Grouping
import Lossless.Proofs.Losslessness
import Lossless.Proofs.Precedence

/-!
# Expressions are read back from their trees

The tree of a text keeps trivia and brackets.  Without them an expression is left (`termOf?`),
and for the text of an expression with brackets **this is the expression that was written**
(`parseTree_print`).

Three facts come together.  The markers of an expression are placed as it is nested, and each
operand has fewer tokens than what it is an operand of, so no two of them are over the same
tokens (`Placed.strict`) and the builder lays them out as they are; only the marker of the
statement is over the same tokens as that of the expression, which it precedes.  Where a marker
stands around the parts of an expression, the constructors accept its element (`accepted`).  And
an element whose parts show the parts of an expression shows the expression (`Placed.shows`).
-/

namespace Lossless

/-! ## Parts of a node -/

namespace BuildContext

variable {κ : Type} [DecidableEq κ] [Named κ]

/-- The parts of a row of plots, where no error is reported. -/
def partsBetween (b : BuildContext κ) (start stop : Nat) (ps : List (Plot κ)) : List (Tree κ) :=
  (b.assembleParts [] start stop ps).1.map Item.tree

variable {b : BuildContext κ} {i j k : Nat} {p : Plot κ} {ps : List (Plot κ)}

theorem partsBetween_nil : b.partsBetween i k [] = (b.leafTokens i k).map Tree.leaf := by
  rw [partsBetween, assembleParts, map_tree_leaves]

theorem partsBetween_cons (h : i ≤ p.marker.stop) :
    b.partsBetween i k (p :: ps) = (b.leafTokens i p.marker.start).map Tree.leaf ++
      (b.assemble [] p).tree :: b.partsBetween p.marker.stop k ps := by
  rw [partsBetween, assembleParts]
  simp only [List.map_append, List.map_cons, map_tree_leaves, Nat.max_eq_right h]
  rfl

/-- Tokens in front of a row are leaves in front of its parts. -/
theorem partsBetween_append (hij : i ≤ j) (hrow : Plot.Row j k ps) :
    b.partsBetween i k ps = (b.leafTokens i j).map Tree.leaf ++ b.partsBetween j k ps := by
  cases ps with
  | nil => rw [partsBetween_nil, partsBetween_nil, ← List.map_append, leafTokens_append b hij hrow]
  | cons p ps =>
      obtain ⟨hstart, htidy, _⟩ := hrow
      have hstop := Nat.le_trans hstart htidy.le
      rw [partsBetween_cons (Nat.le_trans hij hstop), partsBetween_cons hstop, ← List.append_assoc,
        ← List.map_append, leafTokens_append b hij hstart]

/-- The tree of a plot is closed over the parts of the row inside of it. -/
theorem tree_assemble (hb : b.registry.KeepsParts) {m : Marker κ} {inner : List (Plot κ)}
    (hrow : Plot.Row m.start m.stop inner) :
    (b.assemble [] (.mk m inner)).tree =
      (b.close m (b.partsBetween m.start m.stop inner) []).tree := by
  obtain ⟨hitems, _⟩ := tokensOf_assembleParts hb inner [] m.start m.stop hrow
  rw [assemble, close_tree_eq, ownErrors, List.filter_nil, ordered_nil hitems]
  rfl

/-- An element that is accepted is what its marker is closed with. -/
theorem tree_close {m : Marker κ} {parts : List (Tree κ)} {t : Tree κ}
    (h : b.registry.construct m parts (tokenSpan b.tokens m.start m.stop) = .ok t) :
    (b.close m parts []).tree = t := by
  rw [close]
  simp only [h]

/-- Around one plot there are leaves only. -/
theorem filter_isNode_partsBetween (hb : b.registry.KeepsParts) (hp : p.Tidy)
    (hle : i ≤ p.marker.start) :
    (b.partsBetween i k [p]).filter Tree.isNode = [(b.assemble [] p).tree] := by
  have hleaves : ∀ ts : List Token, (ts.map (@Tree.leaf κ)).filter Tree.isNode = [] := by
    intro ts
    simp [List.filter_map, Function.comp_def, Tree.isNode]
  have hnode : (b.assemble [] p).tree.isNode = true := by
    obtain ⟨m, inner⟩ := p
    obtain ⟨kind, span, htree⟩ := close_parts hb m (b.partsBetween m.start m.stop inner) []
    rw [tree_assemble hb hp.2, htree]
    rfl
  rw [partsBetween_cons (Nat.le_trans hle hp.le), partsBetween_nil, List.filter_append, hleaves,
    List.filter_cons_of_pos hnode, hleaves, List.nil_append]

end BuildContext

/-- What is built where no error is reported and no marker is left out. -/
theorem build_quiet {κ : Type} [DecidableEq κ] [Named κ] {r : Registry κ} (hr : r.KeepsParts)
    {tokens : List Token} {markers : List (Marker κ)} {roots : List (Plot κ)}
    (hplots : plots tokens.length markers = (roots, [])) :
    let out := build r {} tokens markers []
    let b : BuildContext κ := ⟨tokens.toArray, {}, r⟩
    out.root = .node .root (tokenSpan tokens.toArray 0 tokens.length)
        (b.partsBetween 0 tokens.length roots) ∧
      out.anomalies = [] ∧ out.valid = !out.root.hasError := by
  intro out b
  have hrow := (plots_naive tokens.length markers).2
  rw [hplots] at hrow
  obtain ⟨hitems, _⟩ := b.tokensOf_assembleParts hr roots [] 0 tokens.length hrow
  refine ⟨?_, ?_, rfl⟩
  · rw [build_root, hplots]
    show Tree.node .root _ (BuildContext.ordered [] (b.assembleParts [] 0 tokens.length roots).1) = _
    rw [BuildContext.ordered_nil hitems]
    rfl
  · show (plots tokens.length markers).2 = []
    rw [hplots]

namespace Tree

variable {κ : Type}

theorem isSignificant_of_isNode (t : Tree κ) (h : t.isNode = true) : t.isSignificant = true := by
  cases t with
  | leaf u => cases h
  | node k s cs => rfl

theorem any_isError_nodesOf (ts : List (Tree κ)) : (nodesOf ts).any isError = ts.any hasError := by
  rw [nodesOf_eq_flatMap, List.any_flatMap]
  rfl

/-- A node that is no error node has an error in it if one of its parts has. -/
theorem hasError_node {kind : NodeKind κ} {s : Span} {cs : List (Tree κ)}
    (h : (node kind s cs).isError = false) : (node kind s cs).hasError = cs.any hasError := by
  rw [← any_isError_nodesOf, hasError, nodes, List.any_cons, h, Bool.false_or]

/-- Leaves have no error in them, whatever their tokens are. -/
theorem any_hasError_filter {keeps : Tree κ → Bool} (h : ∀ t, t.isNode = true → keeps t = true)
    (ts : List (Tree κ)) : (ts.filter keeps).any hasError = ts.any hasError := by
  rw [List.any_filter]
  congr 1
  funext t
  cases t with
  | leaf u => exact Bool.and_false _
  | node k s cs => rw [h _ rfl, Bool.true_and]

/-- A tree that is no error node itself has an error in it if a node right below it has. -/
theorem hasError_eq_any_childNodes {t : Tree κ} (h : t.isError = false) :
    t.hasError = t.childNodes.any hasError := by
  cases t with
  | leaf u => rfl
  | node kind s cs => rw [hasError_node h, childNodes, any_hasError_filter fun t ht => ht]; rfl

theorem find?_isNode (ts : List (Tree κ)) :
    ts.find? isNode = (ts.filter isSignificant).find? isNode := by
  induction ts with
  | nil => rfl
  | cons t ts ih =>
      cases t with
      | leaf u => cases hu : u.isTrivia <;> simp [isSignificant, isNode, ih, hu]
      | node k s cs => simp [isSignificant, isNode]

end Tree

namespace Calculator

/-- The last significant token is the last one among the significant parts. -/
theorem lastToken?_eq (parts : List (Tree Kind)) :
    lastToken? parts = ((parts.filter Tree.isSignificant).filterMap Tree.token?).getLast? := by
  rw [lastToken?]
  congr 1
  induction parts with
  | nil => rfl
  | cons t ts ih =>
      cases t with
      | leaf u => cases hu : u.isTrivia <;> simp [Tree.isSignificant, Tree.token?, ih, hu]
      | node k s cs =>
          rw [List.filter_cons_of_pos rfl, List.filterMap_cons_none rfl,
            List.filterMap_cons_none rfl, ih]

/-! ## What trees show -/

/-- What a part of an element is to a reader: the text of a token, or an expression if there is
one. -/
inductive Symbol where
  | token (text : String)
  | operand (term : Option Term)

/-- The expression that an element of a kind is, by its significant parts.  A group is the
expression inside. -/
def Term.ofSymbols? (kind : Kind) : List Symbol → Option Term
  | [.token text] => some (.atom kind text)
  | [.token _, .operand (some x), .token _] => if kind = .group then some x else none
  | [.token _, .operand (some x)] => some (.before kind x)
  | [.operand (some x), .token _, .operand (some y)] => some (.between kind x y)
  | [.operand (some x), .token _, .operand (some y), .token _, .operand (some z)] =>
    some (.choice kind x y z)
  | _ => none

mutual

/-- The expression that a tree is without trivia and brackets. -/
def termOf? : Tree Kind → Option Term
  | .leaf _ => none
  | .node (.element kind) _ parts => Term.ofSymbols? kind (symbolsOf parts)
  | .node _ _ _ => none

/-- The parts of an element without trivia. -/
def symbolsOf : List (Tree Kind) → List Symbol
  | [] => []
  | .leaf t :: parts => if t.isTrivia then symbolsOf parts else .token t.text :: symbolsOf parts
  | .node kind span inner :: parts =>
    .operand (termOf? (.node kind span inner)) :: symbolsOf parts

end

/-- What a significant part of an element is to a reader. -/
def symbolOf : Tree Kind → Symbol
  | .leaf t => .token t.text
  | .node kind span parts => .operand (termOf? (.node kind span parts))

theorem symbolsOf_eq_map (parts : List (Tree Kind)) :
    symbolsOf parts = (parts.filter Tree.isSignificant).map symbolOf := by
  induction parts with
  | nil => rfl
  | cons t ts ih =>
      cases t with
      | leaf u => cases hu : u.isTrivia <;> simp [symbolsOf, symbolOf, Tree.isSignificant, ih, hu]
      | node k s cs => rw [symbolsOf, ih, List.filter_cons_of_pos rfl, List.map_cons, symbolOf]

/-- A tree without an error in it shows an expression. -/
structure Shows (t : Tree Kind) (w : Written) : Prop where
  kind : t.elementKind? = some w.kind
  term : termOf? t = some w.term
  clean : t.hasError = false

theorem Shows.isNode {t : Tree Kind} {w : Written} (h : Shows t w) : t.isNode = true := by
  have hkind := h.kind
  cases t with
  | leaf u => cases hkind
  | node k s cs => rfl

namespace Part

/-- A tree is a part of an expression. -/
def ShownBy : Part → Tree Kind → Prop
  | token l, t => ∃ u : Token, t = .leaf u ∧ u.lexeme = l
  | operand w, t => Shows t w

/-- What a part of an expression is to a reader. -/
def symbol : Part → Symbol
  | token l => .token (String.ofList l.text)
  | operand w => .operand (some w.term)

theorem ShownBy.symbolOf_eq {part : Part} {t : Tree Kind} (h : part.ShownBy t) :
    symbolOf t = part.symbol := by
  cases part with
  | token l =>
      obtain ⟨u, rfl, rfl⟩ := h
      simp [symbolOf, symbol, Token.lexeme]
  | operand w =>
      cases t with
      | leaf u => cases h.kind
      | node k s cs => rw [symbolOf, h.term, symbol]

theorem ShownBy.hasError_eq {part : Part} {t : Tree Kind} (h : part.ShownBy t) :
    t.hasError = false := by
  cases part with
  | token l =>
      obtain ⟨u, rfl, rfl⟩ := h
      rfl
  | operand w => exact h.clean

variable {parts : List Part} {ts : List (Tree Kind)}

theorem map_symbolOf_eq (h : List.Forall₂ ShownBy parts ts) :
    ts.map symbolOf = parts.map symbol := by
  induction h with
  | nil => rfl
  | cons hfirst _ ih => rw [List.map_cons, List.map_cons, hfirst.symbolOf_eq, ih]

theorem any_hasError_eq (h : List.Forall₂ ShownBy parts ts) : ts.any Tree.hasError = false := by
  induction h with
  | nil => rfl
  | cons hfirst _ ih => rw [List.any_cons, hfirst.hasError_eq, ih, Bool.or_false]

end Part

/-! ## Elements that are accepted -/

/-- Groups and assignments alone have constructors. -/
theorem registry_get?_eq_none {kind : Kind} (hgroup : kind ≠ .group) (hassign : kind ≠ .assign) :
    registry.get? kind = none := by
  cases kind <;> first | exact absurd rfl hgroup | exact absurd rfl hassign | rfl

theorem construct_plain {m : Marker Kind} (hgroup : m.kind ≠ .group) (hassign : m.kind ≠ .assign)
    (parts : List (Tree Kind)) (span : Span) :
    registry.construct m parts span = .ok (.node (.element m.kind) span parts) := by
  rw [Registry.construct, registry_get?_eq_none hgroup hassign]

theorem Atom.kind_ne (a : Atom) : a.kind ≠ .group ∧ a.kind ≠ .assign := by
  have hadmitted := a.isAtom.admitted
  generalize a.kind = kind at hadmitted ⊢
  unfold atomKind? at hadmitted
  split at hadmitted
  case h_5 =>
    split at hadmitted
    · cases hadmitted
      simp
    · cases hadmitted
  all_goals
    cases hadmitted
    try simp

theorem OperatorBefore.kind_ne (op : OperatorBefore) :
    op.1.2.kind ≠ .group ∧ op.1.2.kind ≠ .assign := by
  have htable : ∀ entry ∈ operators.before, entry.2.kind ≠ .group ∧ entry.2.kind ≠ .assign := by
    decide
  exact htable op.1 op.2

theorem OperatorBetween.kind_ne (op : OperatorBetween) : op.1.2.kind ≠ .group := by
  have htable : ∀ entry ∈ operators.between, entry.2.kind ≠ .group := by decide
  exact htable op.1 op.2

section Acceptance

variable {parts : List (Tree Kind)}

/-- The bracket that closes a group is its last token. -/
theorem lastToken?_group {x : Written}
    (h : List.Forall₂ Part.ShownBy (Written.group x).parts (parts.filter Tree.isSignificant)) :
    (lastToken? parts).map (·.text) = some ")" := by
  simp only [Written.parts, List.forall₂_cons_left_iff, List.forall₂_nil_left_iff] at h
  obtain ⟨_, _, ⟨opener, rfl, _⟩, ⟨inner, _, hx, ⟨_, _, ⟨closer, rfl, hcloser⟩, rfl, rfl⟩, rfl⟩,
    hsig⟩ := h
  have hnone : inner.token? = none := by
    have hnode := hx.isNode
    cases inner with
    | leaf u => cases hnode
    | node k s cs => rfl
  have htokens : [Tree.leaf opener, inner, .leaf closer].filterMap Tree.token? =
      [opener, closer] := by
    simp only [List.filterMap_cons, hnone]
    rfl
  rw [lastToken?_eq, hsig, htokens]
  exact congrArg some (is_of_lexeme hcloser).2

/-- The first node in an operation is its first operand. -/
theorem find?_isNode_between {op : OperatorBetween} {x y : Written}
    (h : List.Forall₂ Part.ShownBy (Written.between op x y).parts
      (parts.filter Tree.isSignificant)) :
    (parts.find? Tree.isNode).bind Tree.elementKind? = some x.kind := by
  obtain ⟨left, _, hx, _, hsig⟩ := List.forall₂_cons_left_iff.mp h
  rw [Tree.find?_isNode, hsig, List.find?_cons_of_pos hx.isNode]
  exact hx.kind

/-- **Around the parts of an expression an element is accepted.** -/
theorem accepted {w : Written} (hassigns : w.AssignsNames) {m : Marker Kind}
    (hkind : m.kind = w.kind)
    (hparts : List.Forall₂ Part.ShownBy w.parts (parts.filter Tree.isSignificant)) (span : Span) :
    registry.construct m parts span = .ok (.node (.element w.kind) span parts) := by
  cases w with
  | atom a => exact hkind ▸ construct_plain (hkind ▸ a.kind_ne.1) (hkind ▸ a.kind_ne.2) parts span
  | before op x =>
      exact hkind ▸ construct_plain (hkind ▸ op.kind_ne.1) (hkind ▸ op.kind_ne.2) parts span
  | choice x y z =>
      rw [← hkind]
      exact construct_plain (by rw [hkind]; simp [Written.kind]) (by rw [hkind]; simp [Written.kind])
        parts span
  | group x =>
      have hget : registry.get? m.kind = some groupConstructor := by
        rw [hkind]
        rfl
      simp only [Registry.construct, hget, groupConstructor, lastToken?_group hparts]
      rfl
  | between op x y =>
      by_cases hassign : op.1.2.kind = .assign
      · have hget : registry.get? m.kind = some assignConstructor := by
          rw [hkind, Written.kind, hassign]
          rfl
        have hname : x.kind = .name := by
          have hname := hassigns.1 hassign
          cases x <;> simp_all [Written.isName, Written.kind]
        have hbuilt : (Written.between op x y).kind = .assign := hassign
        simp only [Registry.construct, hget, assignConstructor, find?_isNode_between hparts, hname,
          hbuilt]
        rfl
      · rw [← hkind]
        exact construct_plain (hkind ▸ op.kind_ne) (hkind ▸ hassign) parts span

end Acceptance

/-! ## Markers in place -/

section Places

variable {tokens : Array Token}

/-- The tokens of a part. -/
def Part.lexemes : Part → List Lexeme
  | token l => [l]
  | operand w => w.lexemes

theorem Written.lexemes_eq_flatMap (w : Written) : w.lexemes = w.parts.flatMap Part.lexemes := by
  cases w <;> simp [lexemes, parts, Part.lexemes]

mutual

/-- The tokens that a marker covers are those of the expression. -/
theorem Placed.spelled : ∀ {w : Written} {p : Plot Kind}, Placed tokens w p →
    w.SpelledBy (significantBetween tokens p.marker.start p.marker.stop)
  | w, _, .mk _ hparts => hparts.spelled.trans w.lexemes_eq_flatMap.symm

theorem PlacedParts.spelled : ∀ {i k : Nat} {parts : List Part} {ps : List (Plot Kind)},
    PlacedParts tokens i k parts ps →
    (significantBetween tokens i k).map Token.lexeme = parts.flatMap Part.lexemes
  | _, _, _, _, .nil _ htrivia => by rw [htrivia]; rfl
  | _, _, _, _, .token hle ht _ hrest => by
      rw [← significantBetween_append tokens hle hrest.le, List.map_append, hrest.spelled, ht]
      rfl
  | _, _, _, _, .operand hle htrivia hp hrest => by
      have hstop := hp.start_le_stop
      rw [← significantBetween_append tokens hle (Nat.le_trans hstop hrest.le), htrivia,
        ← significantBetween_append tokens hstop hrest.le, List.nil_append, List.map_append,
        hrest.spelled, hp.spelled]
      rfl

end

theorem Written.lexemes_ne_nil (w : Written) : w.lexemes ≠ [] := by
  cases w <;> simp [lexemes]

/-- An operand has fewer tokens than what it is an operand of. -/
theorem Written.length_lexemes_operand {w x : Written} (h : .operand x ∈ w.parts) :
    x.lexemes.length < w.lexemes.length := by
  cases w <;> simp only [parts, List.mem_cons, List.not_mem_nil, Part.operand.injEq, or_false,
    false_or, reduceCtorEq] at h <;> simp only [lexemes, List.length_cons, List.length_append]
  case group => subst h; omega
  case before => subst h; omega
  case between => rcases h with rfl | rfl <;> omega
  case choice => rcases h with rfl | rfl | rfl <;> omega

/-- Each plot in a row is that of an operand. -/
theorem PlacedParts.exists_operand {p : Plot Kind} : ∀ {i k : Nat} {parts : List Part}
    {ps : List (Plot Kind)}, PlacedParts tokens i k parts ps → p ∈ ps →
    ∃ x, .operand x ∈ parts ∧ Placed tokens x p
  | _, _, _, _, .token _ _ _ hrest, hp => by
      obtain ⟨x, hx, hplaced⟩ := hrest.exists_operand hp
      exact ⟨x, List.mem_cons_of_mem _ hx, hplaced⟩
  | _, _, _, _, .operand _ _ hfirst hrest, hp => by
      rcases List.mem_cons.mp hp with rfl | hp
      · exact ⟨_, List.mem_cons_self, hfirst⟩
      · obtain ⟨x, hx, hplaced⟩ := hrest.exists_operand hp
        exact ⟨x, List.mem_cons_of_mem _ hx, hplaced⟩

theorem Placed.start_lt_stop {w : Written} {p : Plot Kind} (h : Placed tokens w p) :
    p.marker.start < p.marker.stop := by
  refine Nat.lt_of_not_le fun hle => w.lexemes_ne_nil ?_
  have hspelled := h.spelled
  rw [significantBetween_of_le tokens hle] at hspelled
  exact hspelled.symm

/-- An operand does not cover all that its operation covers. -/
theorem Placed.sameRange_operand {w x : Written} {p q : Plot Kind} (hp : Placed tokens w p)
    (hq : Placed tokens x q) (hx : .operand x ∈ w.parts) : p.marker.sameRange q.marker = false := by
  apply Bool.eq_false_iff.mpr
  intro hsame
  obtain ⟨hstart, hstop⟩ := (Marker.sameRange_iff _ _).mp hsame
  have hspelled := hp.spelled
  rw [hstart, hstop] at hspelled
  have hlength := Written.length_lexemes_operand hx
  rw [← hspelled, ← hq.spelled] at hlength
  exact Nat.lt_irrefl _ hlength

mutual

/-- **No two markers of an expression are over the same tokens.** -/
theorem Placed.strict : ∀ {w : Written} {p : Plot Kind}, Placed tokens w p → p.Strict
  | _, .mk m ps, .mk hkind hparts => by
      have hplaced : Placed tokens _ (.mk m ps) := .mk hkind hparts
      refine ⟨hplaced.start_lt_stop, ?_, hparts.strictRow⟩
      intro q hq
      obtain ⟨x, hx, hoperand⟩ := hparts.exists_operand hq
      exact hplaced.sameRange_operand hoperand hx

theorem PlacedParts.strictRow : ∀ {i k : Nat} {parts : List Part} {ps : List (Plot Kind)},
    PlacedParts tokens i k parts ps → Plot.StrictRow i k ps
  | _, _, _, _, .nil hle _ => hle
  | _, _, _, _, .token hle _ _ hrest => hrest.strictRow.mono_start hle
  | _, _, _, _, .operand hle _ hp hrest => ⟨hle, hp.strict, hrest.strictRow⟩

end

/-! ## Trees of expressions -/

/-- How the trees of the language are built. -/
def treeContext (tokens : Array Token) : BuildContext Kind := ⟨tokens, {}, registry⟩

/-- The leaves of a stretch that are no trivia are its significant tokens. -/
theorem filter_isSignificant_leafTokens {i j : Nat} {ts : List Token}
    (hts : significantBetween tokens i j = ts) (hkinds : ∀ t ∈ ts, t.kind ≠ .eof) :
    (((treeContext tokens).leafTokens i j).map Tree.leaf).filter Tree.isSignificant =
      ts.map (Tree.leaf : Token → Tree Kind) := by
  rw [← BuildContext.map_tree_leaves]
  exact filter_isSignificant_leaves hts hkinds

theorem Written.AssignsNames.operand {w x : Written} (h : w.AssignsNames)
    (hx : .operand x ∈ w.parts) : x.AssignsNames := by
  cases w <;> simp only [Written.parts, List.mem_cons, List.not_mem_nil, Part.operand.injEq, or_false,
    false_or, reduceCtorEq] at hx
  case group => exact hx ▸ h
  case before => exact hx ▸ h
  case between =>
    rcases hx with rfl | rfl
    · exact h.2.1
    · exact h.2.2
  case choice =>
    rcases hx with rfl | rfl | rfl
    · exact h.1
    · exact h.2.1
    · exact h.2.2

/-- An element around parts that show those of an expression shows the expression. -/
theorem shows_element {w : Written} {parts : List (Tree Kind)}
    (h : List.Forall₂ Part.ShownBy w.parts (parts.filter Tree.isSignificant)) (span : Span) :
    Shows (.node (.element w.kind) span parts) w := by
  refine ⟨rfl, ?_, ?_⟩
  · rw [termOf?, symbolsOf_eq_map, Part.map_symbolOf_eq h]
    cases w <;> rfl
  · rw [Tree.hasError_node rfl, ← Tree.any_hasError_filter Tree.isSignificant_of_isNode,
      Part.any_hasError_eq h]

mutual

/-- **The tree of an expression shows the expression.** -/
theorem Placed.shows : ∀ {w : Written} {p : Plot Kind}, Placed tokens w p → w.AssignsNames →
    Shows ((treeContext tokens).assemble [] p).tree w
  | w, .mk m ps, .mk hkind hparts, hassigns => by
      have hshown := hparts.shown (fun x hx => hassigns.operand hx)
      rw [BuildContext.tree_assemble registry_keeps.1 hparts.strictRow.row,
        BuildContext.tree_close (accepted hassigns hkind hshown _)]
      exact shows_element hshown _

theorem PlacedParts.shown : ∀ {i k : Nat} {parts : List Part} {ps : List (Plot Kind)},
    PlacedParts tokens i k parts ps → (∀ x, .operand x ∈ parts → x.AssignsNames) →
    List.Forall₂ Part.ShownBy parts
      (((treeContext tokens).partsBetween i k ps).filter Tree.isSignificant)
  | _, _, _, _, .nil _ htrivia, _ => by
      rw [BuildContext.partsBetween_nil, filter_isSignificant_leafTokens htrivia (by simp)]
      exact .nil
  | _, _, _, _, .token hle ht hkind hrest, hassigns => by
      rw [BuildContext.partsBetween_append hle hrest.strictRow.row, List.filter_append,
        filter_isSignificant_leafTokens ht (by simpa using hkind)]
      exact .cons ⟨_, rfl, rfl⟩ (hrest.shown fun x hx => hassigns x (List.mem_cons_of_mem _ hx))
  | _, _, _, _, .operand hle htrivia hp hrest, hassigns => by
      have hshows := hp.shows (hassigns _ List.mem_cons_self)
      rw [BuildContext.partsBetween_cons (Nat.le_trans hle hp.start_le_stop), List.filter_append,
        filter_isSignificant_leafTokens htrivia (by simp),
        List.filter_cons_of_pos (Tree.isSignificant_of_isNode _ hshows.isNode)]
      exact .cons hshows (hrest.shown fun x hx => hassigns x (List.mem_cons_of_mem _ hx))

end

end Places

/-! ## Programs of one expression -/

/-- From one session to another an expression is read as a statement, whose marker precedes that
of the expression. -/
structure States (s s' : Session Kind) (rest : List Token) (w : Written) (p : Plot Kind)
    (m : Marker Kind) : Prop where
  arrives : Arrives [] s s' rest
  tokens : s'.tokens = s.tokens
  records : s.Records s' (m :: Plot.markers [p])
  kind : m.kind = .expressionStatement
  sameRange : p.marker.sameRange m = true
  precedes : m.precedes = some p.marker.id
  id_lt : p.marker.id < m.id
  stop_le : p.marker.stop ≤ s.tokens.size
  placed : Placed s.tokens w p

section Statements

variable {s : Session Kind} {w : Written} {us rest : List Token}

theorem expressionStatement_states (h : Lexed [] s) (hranked : w.Ranked)
    (hdepth : w.depth ≤ s.options.maxDepth - s.depth) (hus : w.SpelledBy us)
    (hahead : s.ahead = us ++ rest) (hrest : OverLine rest) :
    ∃ p m, States s (expressionStatement s) rest w p m := by
  obtain ⟨p, s₁, hread, hx⟩ := readsWritten_expressionAt _ 0 s w us rest h hranked hdepth hus hahead
    (fun q _ => Nat.zero_le q) (fun q _ => hrest.ends.looser q)
  have hstart : p.marker.start ≤ s₁.cursor := hx.stop ▸ hx.placed.start_le_stop
  have hopen : Arrives [] s₁ (s₁.openAt p.marker.start (some p.marker.id)).2 rest :=
    ⟨hx.arrives.lexed.openAt _ _, hx.arrives.ahead, rfl, rfl, rfl⟩
  have hmarker := complete_fst (s := (s₁.precede p.marker).2) (m := (s₁.precede p.marker).1)
    Kind.expressionStatement hstart
  refine ⟨p, ((s₁.precede p.marker).2.complete (s₁.precede p.marker).1 .expressionStatement).1, ?_⟩
  have hstatement : expressionStatement s =
      ((s₁.precede p.marker).2.complete (s₁.precede p.marker).1 .expressionStatement).2 := by
    rw [expressionStatement, ExpressionGrammar.expression, hread]
  have hnone : (s₁.precede p.marker).2.Records (s₁.precede p.marker).2 [] := .nil rfl (Nat.le_refl _)
  have hrecords := hx.records.complete hnone rfl rfl (m := (s₁.precede p.marker).1) rfl
    Kind.expressionStatement
  rw [List.append_nil] at hrecords
  rw [hstatement]
  refine ⟨(hx.arrives.trans hopen).complete _ _, hx.tokens, hrecords, ?_, ?_, ?_, ?_, ?_, hx.placed⟩
  · rw [hmarker]
  · rw [hmarker, Marker.sameRange_iff]
    exact ⟨rfl, hx.stop⟩
  · rw [hmarker]
    rfl
  · rw [hmarker]
    exact (hx.records.ids p.marker (Plot.marker_mem_markers List.mem_cons_self)).2
  · rw [hx.stop, ← hx.tokens]
    exact Nat.le_of_lt hx.arrives.lexed.within.ready.cursor_lt

theorem statement_states (h : Lexed [] s) (hranked : w.Ranked)
    (hdepth : w.depth ≤ s.options.maxDepth - s.depth) (hus : w.SpelledBy us)
    (hahead : s.ahead = us ++ rest) (hrest : OverLine rest) :
    ∃ p m, States s (statement s) rest w p m ∧ (statement s).current.isTrivia = false := by
  obtain ⟨p, m, hstates⟩ := expressionStatement_states h hranked hdepth hus hahead hrest
  have hread := hstates.arrives
  have hskip := hread.lexed.arrives_skipTrivia hread.ahead
  have hcurrent := hread.lexed.within.ready.current_skipTrivia
  obtain ⟨t, ts, rfl, hends⟩ := hrest
  have heq := hskip.lexed.within.current_eq hcurrent hskip.ahead
  have hstatement : statement s = (expressionStatement s).skipTrivia := by
    unfold statement
    rw [isAt_let_eq_false h hus.derives hahead]
    simp only [Bool.false_eq_true, if_false]
    rw [if_pos (by rw [heq]; exact hends)]
  rw [hstatement]
  refine ⟨p, m, { hstates with arrives := hread.trans hskip, records := ?_ }, hcurrent⟩
  exact ⟨hstates.records.completed, hstates.records.opened, hstates.records.ids,
    hstates.records.nodup⟩

/-- **The text of an expression is read as one statement.** -/
theorem program_states (hranked : w.Ranked) (options : SessionOptions)
    (hdepth : w.depth ≤ options.maxDepth) (traced : Bool) :
    let s : Session Kind := Session.start (tokenize w.print config none) options traced
    ∃ rest p m, States s.skipTrivia (program s) rest w p m := by
  intro s
  obtain ⟨h, e, he, hahead⟩ := lexed_start w.print options traced
  have hus : w.SpelledBy (significantTokens w.print) := w.map_lexeme_print
  have hskip := h.arrives_skipTrivia hahead
  have hover : OverLine [e] := ⟨e, [], rfl, by simp [Session.endsLine, he]⟩
  obtain ⟨p, m, hstates, hcurrent⟩ := statement_states hskip.lexed hranked hdepth hus hskip.ahead
    hover
  obtain ⟨t, ts, htokens, hstarts⟩ := hus.derives.expression_head
  have hfirst := hskip.lexed.within.current_eq h.within.ready.current_skipTrivia
    (by rw [hskip.ahead, htokens]; rfl)
  have hend := hstates.arrives.lexed.within.current_eq hcurrent hstates.arrives.ahead
  have hprogram : program s = statement s.skipTrivia := by
    have hlt : s.cursor < s.tokens.size := h.within.ready.cursor_lt
    obtain ⟨rounds, hrounds⟩ : ∃ n, s.remaining = n + 1 := ⟨s.remaining - 1, by
      simp only [Session.remaining]
      omega⟩
    rw [program, hrounds, statements_succ (by rw [hfirst]; exact not_endsLine_of_starts hstarts)]
    exact statements_eof hcurrent (by rw [hend]; exact he) rounds
  rw [hprogram]
  exact ⟨[e], p, m, hstates⟩

/-- The tree of an expression that is read as a statement. -/
theorem States.tree {s' : Session Kind} {p : Plot Kind} {m : Marker Kind}
    (h : States s s' rest w p m) (hnone : s.completed = []) (herrors : s.errors = [])
    (hassigns : w.AssignsNames) :
    (treeOf s').valid = true ∧ (treeOf s').anomalies = [] ∧
      ∃ statement expression, (treeOf s').root.childNodes = [statement] ∧
        statement.elementKind? = some .expressionStatement ∧
        statement.childNodes = [expression] ∧ Shows expression w := by
  let b := treeContext s'.tokens
  let count := s'.tokens.toList.length
  have hb : b.registry.KeepsParts := registry_keeps.1
  have hstrict := h.placed.strict
  obtain ⟨done, hdone, hperm⟩ := h.records.completed
  rw [hnone, List.nil_append] at hdone
  have hplots : plots count s'.completed = ([.mk m [p]], []) := by
    rw [hdone]
    exact plots_eq_of_wrapper hstrict (by simpa [count, h.tokens] using h.stop_le) h.sameRange
      h.precedes h.id_lt hperm (((hperm.map (·.id)).nodup_iff).mpr h.records.nodup)
  obtain ⟨hroot, hanomalies, hvalid⟩ := build_quiet (r := registry) hb hplots
  have htreeOf : treeOf s' = build registry {} s'.tokens.toList s'.completed [] := by
    rw [treeOf, h.arrives.keeps.errors, herrors]
  rw [← htreeOf] at hroot hanomalies hvalid
  -- the statement covers what the expression covers, and has one node in it
  obtain ⟨hstart, hstop⟩ := (Marker.sameRange_iff _ _).mp h.sameRange
  have hrow : Plot.Row m.start m.stop [p] :=
    ⟨Nat.le_of_eq hstart.symm, hstrict.tidy, Nat.le_of_eq hstop⟩
  have htree : (b.assemble [] (.mk m [p])).tree = .node (.element m.kind) _ _ :=
    (BuildContext.tree_assemble hb hrow).trans (BuildContext.tree_close
      (construct_plain (by simp [h.kind]) (by simp [h.kind]) _ _))
  have hinner : ((b.assemble [] (.mk m [p])).tree).childNodes = [(b.assemble [] p).tree] := by
    rw [htree]
    exact BuildContext.filter_isNode_partsBetween hb hstrict.tidy (Nat.le_of_eq hstart.symm)
  have houter : (treeOf s').root.childNodes = [(b.assemble [] (.mk m [p])).tree] := by
    rw [hroot]
    exact BuildContext.filter_isNode_partsBetween hb ⟨hrow.le, hrow⟩ (Nat.zero_le _)
  have hshows : Shows (b.assemble [] p).tree w := by
    have hshows := h.placed.shows hassigns
    rwa [← h.tokens] at hshows
  refine ⟨?_, hanomalies, _, _, houter, ?_, hinner, hshows⟩
  · rw [hvalid, Tree.hasError_eq_any_childNodes (by rw [hroot]; rfl), houter, List.any_cons,
      Tree.hasError_eq_any_childNodes (by rw [htree]; rfl), hinner, List.any_cons, hshows.clean]
    rfl
  · rw [htree, h.kind]
    rfl

end Statements

/-- **An expression is read back from its text.**  If brackets stand around all operands that
need them, only names are assigned to, and no more than 256 expressions are open inside one
another, then the text of an expression is a valid program of one statement, and the expression
in it, without trivia and brackets, is the one that was written. -/
theorem parseTree_print (w : Written) (hbracketed : w.Bracketed) (hassigns : w.AssignsNames)
    (hdepth : w.depth ≤ 256) :
    (parseTree w.print).valid = true ∧ (parseTree w.print).anomalies = [] ∧
      ∃ statement expression, (parseTree w.print).root.childNodes = [statement] ∧
        statement.elementKind? = some .expressionStatement ∧
        statement.childNodes = [expression] ∧ termOf? expression = some w.term := by
  obtain ⟨rest, p, m, hstates⟩ := program_states hbracketed.ranked {} hdepth false
  obtain ⟨hvalid, hanomalies, statement, expression, hroot, hkind, hbelow, hshows⟩ :=
    hstates.tree rfl rfl hassigns
  exact ⟨hvalid, hanomalies, statement, expression, hroot, hkind, hbelow, hshows.term⟩

/-- Assignments and powers group to the right, a choice stands in one of them, and there are
brackets of both sorts: those around a difference cannot be left out, and others can. -/
def mixedExpression : Written :=
  let name (c : Char) (h : rules.startsWord c = true ∧ rules.isKeyword [c] = false) : Written :=
    .atom ⟨_, _, .name h.1 (List.forall_mem_nil _) h.2⟩
  let two : Written := .atom ⟨_, _, .decimal (show IsDigits .dec ['2'] by decide) (Or.inl rfl)
    (Or.inl rfl) List.mem_cons_self⟩
  let half : Written := .atom ⟨_, _, .decimal (show IsDigits .dec ['1'] by decide)
    (Or.inr ⟨['5'], rfl, by decide⟩) (Or.inl rfl) List.mem_cons_self⟩
  let mask : Written := .atom ⟨_, _, .prefixed
    (show (['0', 'x'], IntegerBase.hex) ∈ rules.numberPrefixes by decide +kernel)
    (show IsDigits .hex ['1', 'F'] by decide)⟩
  let letter : Written := .atom ⟨_, _, .char (Or.inl ⟨'q', rfl, by decide, by decide, by decide⟩)⟩
  let yes : Written := .atom ⟨_, _, .truth (show "true" ∈ ["true", "false"] by decide)⟩
  let assign : OperatorBetween := ⟨("=", ⟨Precedence.assignment.power, .right, .assign⟩), by decide⟩
  let elvis : OperatorBetween := ⟨("?:", ⟨Precedence.ternary.power, .right, .elvis⟩), by decide⟩
  let minus : OperatorBetween := ⟨("-", ⟨Precedence.additive.power, .left, .sub⟩), by decide⟩
  let power : OperatorBetween := ⟨("**", ⟨Precedence.exponent.power, .right, .pow⟩), by decide⟩
  let negative : OperatorBefore := ⟨("-", ⟨Precedence.unaryBefore.power, .neg⟩), by decide⟩
  let inverse : OperatorBefore := ⟨("~", ⟨Precedence.unaryBefore.power, .bitNot⟩), by decide⟩
  .between assign (name 'a' (by decide +kernel)) (.between assign (name 'b' (by decide +kernel))
    (.choice
      (.between minus
        (.between power (.before negative (name 'x' (by decide +kernel)))
          (.between power two (name 'y' (by decide +kernel))))
        (.group (.between minus half letter)))
      (.group yes)
      (.between elvis (name 'c' (by decide +kernel)) (.before inverse mask))))

/-- Its text is read back, with every bracket and every operator in place. -/
theorem parseTree_print_mixedExpression :
    mixedExpression.print = "a = b = - x ** 2 ** y - ( 1.5 - 'q' ) ? ( true ) : c ?: ~ 0x1F" ∧
      mixedExpression.Bracketed ∧ mixedExpression.AssignsNames ∧ mixedExpression.depth ≤ 256 ∧
      let out := parseTree mixedExpression.print
      out.valid = true ∧ out.anomalies = [] ∧
        ∃ statement expression, out.root.childNodes = [statement] ∧
          statement.elementKind? = some .expressionStatement ∧
          statement.childNodes = [expression] ∧
          termOf? expression = some mixedExpression.term := by
  have hbracketed : mixedExpression.Bracketed := by decide
  have hassigns : mixedExpression.AssignsNames := by decide
  have hdepth : mixedExpression.depth ≤ 256 := by decide
  exact ⟨by decide +kernel, hbracketed, hassigns, hdepth,
    parseTree_print mixedExpression hbracketed hassigns hdepth⟩

end Calculator

end Lossless
