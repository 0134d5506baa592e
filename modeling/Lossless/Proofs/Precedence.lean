import Lossless.Proofs.Placement
import Lossless.Proofs.Reading

/-!
# Trees respect binding powers

What the operators of an expression are can be read off its tree: without trivia, the parts
of a node are an operator and its operands, or the token of an atom (`Operators.operation?`).
An expression that is read without an error has a tree in which **no operator is nested against
its binding power** (`expression_respects_powers`): on the left edge of a last operand all
operators bind as tightly as the operator asks for, and on the right edge of a first operand
there is none that would rather have taken the operator itself.
-/

namespace Lossless

variable {κ : Type}

/-! ## Operations of a tree -/

/-- Whether a part is a node or a token that is no trivia. -/
def Tree.isSignificant : Tree κ → Bool
  | leaf t => !t.isTrivia
  | node _ _ _ => true

/-- The parts of a node without trivia. -/
def Tree.significantParts (t : Tree κ) : List (Tree κ) :=
  t.children.filter Tree.isSignificant

/-- An operator and its operands. -/
inductive Operation (κ : Type) where
  | before (op : UnaryOperator κ) (operand : Tree κ)
  | between (op : BinaryOperator κ) (left right : Tree κ)
  | after (op : UnaryOperator κ) (operand : Tree κ)
  | ternary (op : TernaryOperator κ) (first second third : Tree κ)

namespace Operation

/-- The kind of element that an operator makes. -/
def kind : Operation κ → κ
  | before op _ | after op _ => op.kind
  | between op _ _ => op.kind
  | ternary op _ _ _ => op.kind

/-- The power of an operator with something in front of it, and its first operand. -/
def first? : Operation κ → Option (Nat × Tree κ)
  | before _ _ => none
  | between op x _ => some (op.power, x)
  | after op x => some (op.power, x)
  | ternary op x _ _ => some (op.power, x)

/-- The last operand of an operator with something behind it, and the least power with which it
is read. -/
def last? : Operation κ → Option (Nat × Tree κ)
  | before op x => some (op.power, x)
  | between op _ y => some (op.rightPower, y)
  | after _ _ => none
  | ternary op _ _ z => some (op.power, z)

end Operation

/-- The operation that a node is, by its parts. -/
def Operators.operation? (ops : Operators κ) (t : Tree κ) : Option (Operation κ) :=
  match t.significantParts with
  | [.leaf o, .node k s cs] => (ops.before? o).map (.before · (.node k s cs))
  | [.node k s cs, .leaf o] => (ops.after? o).map (.after · (.node k s cs))
  | [.node k s cs, .leaf o, .node k' s' cs'] =>
    (ops.between? o).map (.between · (.node k s cs) (.node k' s' cs'))
  | [.node k s cs, .leaf o, .node k' s' cs', .leaf _, .node k'' s'' cs''] =>
    (ops.ternary? o).map (.ternary · (.node k s cs) (.node k' s' cs') (.node k'' s'' cs''))
  | _ => none

/-- A tree is on the left edge of another: it is the other, or on the left edge of its first
operand.  An operator in front of its operand ends the edge. -/
inductive LeftEdge (ops : Operators κ) : Tree κ → Tree κ → Prop
  | here (t : Tree κ) : LeftEdge ops t t
  | first {t x y : Tree κ} {o : Operation κ} {power : Nat} (hop : ops.operation? t = some o)
      (hfirst : o.first? = some (power, x)) (hrest : LeftEdge ops x y) : LeftEdge ops t y

/-- A tree is on the right edge of another: it is the other, or on the right edge of its last
operand.  An operator behind its operand ends the edge. -/
inductive RightEdge (ops : Operators κ) : Tree κ → Tree κ → Prop
  | here (t : Tree κ) : RightEdge ops t t
  | last {t x y : Tree κ} {o : Operation κ} {power : Nat} (hop : ops.operation? t = some o)
      (hlast : o.last? = some (power, x)) (hrest : RightEdge ops x y) : RightEdge ops t y

/-- The powers of the operators on the left edge of a tree are at least `least`. -/
def LeftEdgeAtLeast (ops : Operators κ) (least : Nat) (t : Tree κ) : Prop :=
  ∀ x, LeftEdge ops t x → ∀ o power y, ops.operation? x = some o →
    o.first? = some (power, y) → least ≤ power

/-- The operators on the right edge of a tree read their last operands with powers above
`power`. -/
def RightEdgeAbove (ops : Operators κ) (power : Nat) (t : Tree κ) : Prop :=
  ∀ x, RightEdge ops t x → ∀ o least y, ops.operation? x = some o →
    o.last? = some (least, y) → power < least

/-! ## Trees of phrases -/

/-- Building over some tokens with plain elements and all trivia. -/
def plainContext (tokens : Array Token) : BuildContext κ :=
  ⟨tokens, {}, {}⟩

/-- The leaves of a stretch that are no trivia are its significant tokens, if these do not reach
to the end of input. -/
theorem filter_isSignificant_leaves {tokens : Array Token} {start stop : Nat} {ts : List Token}
    (hts : significantBetween tokens start stop = ts) (hkinds : ∀ t ∈ ts, t.kind ≠ .eof) :
    (((plainContext tokens : BuildContext κ).leaves start stop).map Item.tree).filter
        Tree.isSignificant = ts.map Tree.leaf := by
  have hkeeps : (plainContext tokens : BuildContext κ).options.keeps = (·.kind != .eof) := by
    funext t
    exact keeps_default t
  have hall : ts.filter (·.kind != .eof) = ts := by
    rw [List.filter_eq_self]
    simpa using hkinds
  rw [BuildContext.map_tree_leaves, BuildContext.leafTokens, List.filter_map, hkeeps, ← hall, ← hts,
    significantBetween, List.filter_filter, List.filter_filter]
  congr 1
  apply List.filter_congr
  intro t _
  exact Bool.and_comm _ _

section Trees

variable [DecidableEq κ] [Named κ]

/-- The tree of a phrase over some tokens. -/
def Phrase.tree (tokens : Array Token) (p : Phrase κ) : Tree κ :=
  ((plainContext tokens).assemble [] p.plot).tree

/-- The parts of a row of plots, where no error is reported. -/
def partsOf (tokens : Array Token) (cursor stop : Nat) (ps : List (Plot κ)) : List (Tree κ) :=
  ((plainContext tokens).assembleParts [] cursor stop ps).1.map Item.tree

/-- The significant parts behind the last plot of a row. -/
theorem significant_partsOf_nil {tokens : Array Token} {start stop : Nat} {ts : List Token}
    (hts : significantBetween tokens start stop = ts) (hkinds : ∀ t ∈ ts, t.kind ≠ .eof) :
    (partsOf tokens start stop ([] : List (Plot κ))).filter Tree.isSignificant =
      ts.map Tree.leaf := by
  rw [partsOf, BuildContext.assembleParts, filter_isSignificant_leaves hts hkinds]

/-- The significant parts of a row of plots, the first of which is that of a phrase. -/
theorem significant_partsOf_cons {tokens : Array Token} {start stop : Nat} {p : Phrase κ}
    {ps : List (Plot κ)} {ts : List Token}
    (hts : significantBetween tokens start p.marker.start = ts)
    (hkinds : ∀ t ∈ ts, t.kind ≠ .eof) (hnode : (p.tree tokens).isSignificant = true)
    (hstart : start ≤ p.marker.stop) :
    (partsOf tokens start stop (p.plot :: ps)).filter Tree.isSignificant =
      ts.map Tree.leaf ++
        p.tree tokens :: (partsOf tokens p.marker.stop stop ps).filter Tree.isSignificant := by
  rw [partsOf, BuildContext.assembleParts]
  simp only [Phrase.marker_plot, List.map_append, List.map_cons, List.filter_append,
    filter_isSignificant_leaves hts hkinds, Nat.max_eq_right hstart]
  congr 1
  exact List.filter_cons_of_pos hnode

/-- The tree of a placed phrase is an element over the parts of its operands. -/
theorem Phrase.Placed.tree_eq {ops : Operators κ} {atomKind : Token → κ} {tokens : Array Token}
    {p : Phrase κ} (h : p.Placed ops atomKind tokens) :
    p.tree tokens = .node (.element p.marker.kind) (tokenSpan tokens p.marker.start p.marker.stop)
      (partsOf tokens p.marker.start p.marker.stop (p.operands.map Phrase.plot)) := by
  have htidy := h.strict.tidy
  rw [Phrase.plot_eq] at htidy
  let b : BuildContext κ := plainContext tokens
  have hb : b.registry.KeepsParts := Registry.keepsParts_empty
  obtain ⟨hitems, _⟩ := b.tokensOf_assembleParts hb (p.operands.map Phrase.plot) [] p.marker.start
    p.marker.stop htidy.2
  have htree : p.tree tokens =
      .node (.element p.marker.kind) (tokenSpan tokens p.marker.start p.marker.stop)
        (BuildContext.ordered (BuildContext.ownErrors (p.operands.map Phrase.plot) [])
          (b.assembleParts [] p.marker.start p.marker.stop (p.operands.map Phrase.plot)).1) := by
    rw [Phrase.tree, Phrase.plot_eq]
    rfl
  rw [htree, BuildContext.ownErrors, List.filter_nil, BuildContext.ordered_nil hitems]
  rfl

variable {ops : Operators κ} {atomKind : Token → κ} {tokens : Array Token}

theorem Phrase.Placed.isSignificant_tree {p : Phrase κ} (h : p.Placed ops atomKind tokens) :
    (p.tree tokens).isSignificant = true := by
  rw [h.tree_eq]
  rfl

theorem Phrase.Placed.significantParts_tree {p : Phrase κ} (h : p.Placed ops atomKind tokens) :
    (p.tree tokens).significantParts =
      (partsOf tokens p.marker.start p.marker.stop (p.operands.map Phrase.plot)).filter
        Tree.isSignificant := by
  rw [h.tree_eq]
  rfl

/-- An atom has one significant part, its token. -/
theorem Phrase.Placed.significantParts_atom {m : Marker κ}
    (h : (Phrase.atom m).Placed ops atomKind tokens) :
    ∃ t, ((Phrase.atom m).tree tokens).significantParts = [.leaf t] ∧ m.kind = atomKind t := by
  obtain ⟨t, htoken, hkind, hm⟩ := h.2
  refine ⟨t, ?_, hm⟩
  rw [h.significantParts_tree]
  exact significant_partsOf_nil htoken (by simpa using hkind)

/-- The tree of a phrase with an operator in front of its operand is that operation. -/
theorem Phrase.Placed.operation?_before {m : Marker κ} {op : UnaryOperator κ} {x : Phrase κ}
    (h : (Phrase.before m op x).Placed ops atomKind tokens) :
    ops.operation? ((Phrase.before m op x).tree tokens) = some (.before op (x.tree tokens)) := by
  have hparts := h.significantParts_tree
  obtain ⟨hstart, hstop, _, ⟨t, htoken, hop⟩, hx⟩ := h
  have hopen := hx.start_lt_stop
  have hbehind := significantBetween_of_le tokens hstop.le
  have hlist : ((Phrase.before m op x).tree tokens).significantParts = [.leaf t, x.tree tokens] := by
    rw [hparts]
    show (partsOf tokens m.start m.stop [x.plot]).filter Tree.isSignificant = _
    rw [significant_partsOf_cons htoken (by simpa using ops.kind_ne_eof_of_before? hop)
      hx.isSignificant_tree (by omega), significant_partsOf_nil hbehind (by simp)]
    rfl
  rw [hx.tree_eq] at hlist ⊢
  simp [Operators.operation?, hlist, hop]

/-- The tree of a phrase with an operator between its operands is that operation. -/
theorem Phrase.Placed.operation?_between {m : Marker κ} {op : BinaryOperator κ} {x y : Phrase κ}
    (h : (Phrase.between m op x y).Placed ops atomKind tokens) :
    ops.operation? ((Phrase.between m op x y).tree tokens) =
      some (.between op (x.tree tokens) (y.tree tokens)) := by
  have hparts := h.significantParts_tree
  obtain ⟨hstart, hgap, hstop, _, ⟨t, htoken, hop⟩, hx, hy⟩ := h
  have hopenx := hx.start_lt_stop
  have hopeny := hy.start_lt_stop
  have hfront := significantBetween_of_le tokens hstart.ge
  have hbehind := significantBetween_of_le tokens hstop.le
  have hlist : ((Phrase.between m op x y).tree tokens).significantParts =
      [x.tree tokens, .leaf t, y.tree tokens] := by
    rw [hparts]
    show (partsOf tokens m.start m.stop [x.plot, y.plot]).filter Tree.isSignificant = _
    rw [significant_partsOf_cons hfront (by simp) hx.isSignificant_tree (by omega),
      significant_partsOf_cons htoken (by simpa using ops.kind_ne_eof_of_between? hop)
        hy.isSignificant_tree (by omega), significant_partsOf_nil hbehind (by simp)]
    rfl
  rw [hx.tree_eq, hy.tree_eq] at hlist ⊢
  simp [Operators.operation?, hlist, hop]

/-- The tree of a phrase with an operator behind its operand is that operation. -/
theorem Phrase.Placed.operation?_after {m : Marker κ} {op : UnaryOperator κ} {x : Phrase κ}
    (h : (Phrase.after m op x).Placed ops atomKind tokens) :
    ops.operation? ((Phrase.after m op x).tree tokens) = some (.after op (x.tree tokens)) := by
  have hparts := h.significantParts_tree
  obtain ⟨hstart, hstop, _, ⟨t, htoken, hop⟩, hx⟩ := h
  have hopen := hx.start_lt_stop
  have hfront := significantBetween_of_le tokens hstart.ge
  have hlist : ((Phrase.after m op x).tree tokens).significantParts = [x.tree tokens, .leaf t] := by
    rw [hparts]
    show (partsOf tokens m.start m.stop [x.plot]).filter Tree.isSignificant = _
    rw [significant_partsOf_cons hfront (by simp) hx.isSignificant_tree (by omega),
      significant_partsOf_nil htoken (by simpa using ops.kind_ne_eof_of_after? hop)]
    rfl
  rw [hx.tree_eq] at hlist ⊢
  simp [Operators.operation?, hlist, hop]

/-- The tree of a phrase with a ternary operator is that operation. -/
theorem Phrase.Placed.operation?_ternary {m : Marker κ} {op : TernaryOperator κ}
    {x y z : Phrase κ} (h : (Phrase.ternary m op x y z).Placed ops atomKind tokens) :
    ops.operation? ((Phrase.ternary m op x y z).tree tokens) =
      some (.ternary op (x.tree tokens) (y.tree tokens) (z.tree tokens)) := by
  have hparts := h.significantParts_tree
  obtain ⟨hstart, hgap, hgap', hstop, _, ⟨t, htoken, hop⟩, ⟨u, hseparator, hkind, _⟩, hx, hy, hz⟩ :=
    h
  have hopenx := hx.start_lt_stop
  have hopeny := hy.start_lt_stop
  have hopenz := hz.start_lt_stop
  have hfront := significantBetween_of_le tokens hstart.ge
  have hbehind := significantBetween_of_le tokens hstop.le
  have hlist : ((Phrase.ternary m op x y z).tree tokens).significantParts =
      [x.tree tokens, .leaf t, y.tree tokens, .leaf u, z.tree tokens] := by
    rw [hparts]
    show (partsOf tokens m.start m.stop [x.plot, y.plot, z.plot]).filter Tree.isSignificant = _
    rw [significant_partsOf_cons hfront (by simp) hx.isSignificant_tree (by omega),
      significant_partsOf_cons htoken (by simpa using ops.kind_ne_eof_of_ternary? hop)
        hy.isSignificant_tree (by omega),
      significant_partsOf_cons hseparator (by simpa using hkind) hz.isSignificant_tree (by omega),
      significant_partsOf_nil hbehind (by simp)]
    rfl
  rw [hx.tree_eq, hy.tree_eq, hz.tree_eq] at hlist ⊢
  simp [Operators.operation?, hlist, hop]

/-- An atom is no operation. -/
theorem Phrase.Placed.operation?_atom {m : Marker κ}
    (h : (Phrase.atom m).Placed ops atomKind tokens) :
    ops.operation? ((Phrase.atom m).tree tokens) = none := by
  obtain ⟨t, hlist, _⟩ := h.significantParts_atom
  simp [Operators.operation?, hlist]

/-! ## Edges of phrases -/

/-- The first operand of a tree is the tree of the first operand. -/
theorem Phrase.Placed.first_tree {p : Phrase κ} (h : p.Placed ops atomKind tokens)
    {o : Operation κ} {power : Nat} {t : Tree κ} (hop : ops.operation? (p.tree tokens) = some o)
    (hfirst : o.first? = some (power, t)) :
    ∃ x, p.first? = some (power, x) ∧ t = x.tree tokens := by
  cases p with
  | atom m =>
      rw [h.operation?_atom] at hop
      cases hop
  | before m op x =>
      rw [h.operation?_before] at hop
      cases hop
      cases hfirst
  | between m op x y =>
      rw [h.operation?_between] at hop
      cases hop
      cases hfirst
      exact ⟨x, rfl, rfl⟩
  | after m op x =>
      rw [h.operation?_after] at hop
      cases hop
      cases hfirst
      exact ⟨x, rfl, rfl⟩
  | ternary m op x y z =>
      rw [h.operation?_ternary] at hop
      cases hop
      cases hfirst
      exact ⟨x, rfl, rfl⟩

/-- The last operand of a tree is the tree of the last operand. -/
theorem Phrase.Placed.last_tree {p : Phrase κ} (h : p.Placed ops atomKind tokens)
    {o : Operation κ} {power : Nat} {t : Tree κ} (hop : ops.operation? (p.tree tokens) = some o)
    (hlast : o.last? = some (power, t)) :
    ∃ x, p.last? = some (power, x) ∧ t = x.tree tokens := by
  cases p with
  | atom m =>
      rw [h.operation?_atom] at hop
      cases hop
  | before m op x =>
      rw [h.operation?_before] at hop
      cases hop
      cases hlast
      exact ⟨x, rfl, rfl⟩
  | between m op x y =>
      rw [h.operation?_between] at hop
      cases hop
      cases hlast
      exact ⟨y, rfl, rfl⟩
  | after m op x =>
      rw [h.operation?_after] at hop
      cases hop
      cases hlast
  | ternary m op x y z =>
      rw [h.operation?_ternary] at hop
      cases hop
      cases hlast
      exact ⟨z, rfl, rfl⟩

/-- Along the left edge of its tree one meets the powers on the left edge of a phrase. -/
theorem LeftEdge.mem_leftPowers {t x : Tree κ} (hedge : LeftEdge ops t x) {p : Phrase κ}
    (hp : p.Placed ops atomKind tokens) (ht : t = p.tree tokens) {o : Operation κ} {power : Nat}
    {y : Tree κ} (hop : ops.operation? x = some o) (hfirst : o.first? = some (power, y)) :
    power ∈ p.leftPowers := by
  induction hedge generalizing p with
  | here t =>
      subst ht
      obtain ⟨q, hq, _⟩ := hp.first_tree hop hfirst
      rw [Phrase.leftPowers_of_first? hq]
      exact List.mem_cons_self
  | first hop' hfirst' _ ih =>
      subst ht
      obtain ⟨q, hq, rfl⟩ := hp.first_tree hop' hfirst'
      rw [Phrase.leftPowers_of_first? hq]
      exact List.mem_cons_of_mem _
        (ih (hp.operand (Phrase.mem_operands_of_first? hq)) rfl hop)

/-- Along the right edge of its tree one meets the powers on the right edge of a phrase. -/
theorem RightEdge.mem_rightPowers {t x : Tree κ} (hedge : RightEdge ops t x) {p : Phrase κ}
    (hp : p.Placed ops atomKind tokens) (ht : t = p.tree tokens) {o : Operation κ} {power : Nat}
    {y : Tree κ} (hop : ops.operation? x = some o) (hlast : o.last? = some (power, y)) :
    power ∈ p.rightPowers := by
  induction hedge generalizing p with
  | here t =>
      subst ht
      obtain ⟨q, hq, _⟩ := hp.last_tree hop hlast
      rw [Phrase.rightPowers_of_last? hq]
      exact List.mem_cons_self
  | last hop' hlast' _ ih =>
      subst ht
      obtain ⟨q, hq, rfl⟩ := hp.last_tree hop' hlast'
      rw [Phrase.rightPowers_of_last? hq]
      exact List.mem_cons_of_mem _
        (ih (hp.operand (Phrase.mem_operands_of_last? hq)) rfl hop)

/-! ## The nodes of a phrase -/

/-- The nodes among the parts of a row of phrases are the trees of these. -/
theorem filter_isNode_partsOf {ps : List (Phrase κ)} (hps : ∀ p ∈ ps, p.Placed ops atomKind tokens)
    (start stop : Nat) :
    (partsOf tokens start stop (ps.map Phrase.plot)).filter Tree.isNode =
      ps.map (Phrase.tree tokens) := by
  have hleaves : ∀ ts : List Token, (ts.map (@Tree.leaf κ)).filter Tree.isNode = [] := by
    intro ts
    simp [List.filter_map, Function.comp_def, Tree.isNode]
  induction ps generalizing start with
  | nil =>
      rw [List.map_nil, partsOf, BuildContext.assembleParts, BuildContext.map_tree_leaves, hleaves]
      rfl
  | cons p ps ih =>
      have hrest := ih (fun q hq => hps q (List.mem_cons_of_mem _ hq)) (max start p.marker.stop)
      have hnode : (p.tree tokens).isNode = true := by
        rw [(hps p List.mem_cons_self).tree_eq]
        rfl
      rw [partsOf] at hrest ⊢
      rw [List.map_cons, BuildContext.assembleParts]
      simp only [Phrase.marker_plot, List.map_append, List.map_cons, List.filter_append,
        BuildContext.map_tree_leaves, hleaves, List.nil_append]
      rw [← hrest]
      exact List.filter_cons_of_pos hnode

/-- A node of the tree of a phrase is the tree of the phrase or a node of an operand's. -/
theorem Phrase.Placed.mem_nodes_tree {p : Phrase κ} (h : p.Placed ops atomKind tokens) {n : Tree κ}
    (hn : n ∈ (p.tree tokens).nodes) :
    n = p.tree tokens ∨ ∃ x ∈ p.operands, n ∈ (x.tree tokens).nodes := by
  have heq := h.tree_eq
  rw [heq, Tree.nodes, Tree.nodesOf_eq_filter,
    filter_isNode_partsOf (fun x hx => h.operand hx)] at hn
  rcases List.mem_cons.mp hn with hn | hn
  · exact Or.inl (hn.trans heq.symm)
  · obtain ⟨t, ht, hnt⟩ := List.mem_flatMap.mp hn
    obtain ⟨x, hx, rfl⟩ := List.mem_map.mp ht
    exact Or.inr ⟨x, hx, hnt⟩

/-- **Every node of the tree of a phrase is the tree of a phrase.** -/
theorem Phrase.exists_of_mem_nodes {p : Phrase κ} (h : p.Placed ops atomKind tokens)
    (hranked : p.Ranked) {n : Tree κ} (hn : n ∈ (p.tree tokens).nodes) :
    ∃ q : Phrase κ, q.Placed ops atomKind tokens ∧ q.Ranked ∧ n = q.tree tokens := by
  induction p using Phrase.induction_on_operands with
  | h p ih =>
      rcases h.mem_nodes_tree hn with rfl | ⟨x, hx, hnx⟩
      · exact ⟨p, h, hranked, rfl⟩
      · exact ih x hx (h.operand hx) (hranked.operand hx) hnx

/-- What a node of an expression is: an atom of one token, or an operation of its kind. -/
def IsExpressionNode (ops : Operators κ) (atomKind : Token → κ) (n : Tree κ) : Prop :=
  (∃ t, n.significantParts = [.leaf t] ∧ n.elementKind? = some (atomKind t)) ∨
    ∃ o, ops.operation? n = some o ∧ n.elementKind? = some o.kind

theorem Phrase.Placed.elementKind?_tree {p : Phrase κ} (h : p.Placed ops atomKind tokens) :
    (p.tree tokens).elementKind? = some p.marker.kind := by
  rw [h.tree_eq]
  rfl

theorem Phrase.Placed.isExpressionNode {p : Phrase κ} (h : p.Placed ops atomKind tokens) :
    IsExpressionNode ops atomKind (p.tree tokens) := by
  have helement := h.elementKind?_tree
  cases p with
  | atom m =>
      obtain ⟨t, hparts, hkind⟩ := h.significantParts_atom
      exact Or.inl ⟨t, hparts, helement.trans (congrArg some hkind)⟩
  | before m op x =>
      exact Or.inr ⟨_, h.operation?_before, helement.trans (congrArg some h.2.2.1)⟩
  | between m op x y =>
      exact Or.inr ⟨_, h.operation?_between, helement.trans (congrArg some h.2.2.2.1)⟩
  | after m op x =>
      exact Or.inr ⟨_, h.operation?_after, helement.trans (congrArg some h.2.2.1)⟩
  | ternary m op x y z =>
      exact Or.inr ⟨_, h.operation?_ternary, helement.trans (congrArg some h.2.2.2.2.1)⟩

/-- **The tree of a ranked phrase respects the powers of its operator.** -/
theorem Phrase.Placed.respects {p : Phrase κ} (h : p.Placed ops atomKind tokens)
    (hranked : p.Ranked) {o : Operation κ} (hop : ops.operation? (p.tree tokens) = some o) :
    (∀ least x, o.last? = some (least, x) → LeftEdgeAtLeast ops least x) ∧
      ∀ power x, o.first? = some (power, x) → RightEdgeAbove ops power x := by
  constructor
  · intro least x hlast y hedge o' power z hop' hfirst
    obtain ⟨q, hq, rfl⟩ := h.last_tree hop hlast
    have hoperand := h.operand (Phrase.mem_operands_of_last? hq)
    exact hranked.last hq power (hedge.mem_leftPowers hoperand rfl hop' hfirst)
  · intro power x hfirst y hedge o' least z hop' hlast
    obtain ⟨q, hq, rfl⟩ := h.first_tree hop hfirst
    have hoperand := h.operand (Phrase.mem_operands_of_first? hq)
    exact hranked.first hq least (hedge.mem_rightPowers hoperand rfl hop' hlast)

/-- The markers of a phrase are built into the tree of the phrase, and nothing else. -/
theorem Phrase.Placed.build_eq {source : List Token} {p : Phrase κ}
    (h : p.Placed ops atomKind source.toArray) (hstop : p.marker.stop ≤ source.length)
    {ms : List (Marker κ)} (hperm : ms.Perm p.markers) (hnodup : (p.markers.map (·.id)).Nodup) :
    (build {} {} source ms []).root.childNodes = [p.tree source.toArray] ∧
      (build {} {} source ms []).anomalies = [] := by
  have hplots := h.plots_eq hstop hperm hnodup
  have hrow : Plot.Row 0 source.length [p.plot] :=
    ⟨Nat.zero_le _, h.strict.tidy, by rw [Phrase.marker_plot]; exact hstop⟩
  let b : BuildContext κ := plainContext source.toArray
  have hb : b.registry.KeepsParts := Registry.keepsParts_empty
  obtain ⟨hitems, _⟩ := b.tokensOf_assembleParts hb [p.plot] [] 0 source.length hrow
  have hroot : (build {} {} source ms []).root.childNodes =
      (partsOf source.toArray 0 source.length ([p].map Phrase.plot)).filter Tree.isNode := by
    rw [build_root, hplots]
    show (BuildContext.ordered [] (b.assembleParts [] 0 source.length [p.plot]).1).filter
      Tree.isNode = _
    rw [BuildContext.ordered_nil hitems]
    rfl
  constructor
  · rw [hroot, filter_isNode_partsOf (by simpa using h)]
    rfl
  · show (plots source.length ms).2 = []
    rw [hplots]

/-! ## Expressions -/

/-- **Expressions respect binding powers.**  Whatever the operators, the tokens, the place of the
session and the least power are: an expression that is read without an error gives a marker from
the first significant token up to the cursor, which does not end with trivia.  The markers
recorded for it make up one tree of atoms and operations.  In this tree the operators on the left
edge of a last operand have at least the power with which the operand is read, and those on the
right edge of a first operand read their own last operands with more than the power of the
operator.  The expression goes as far as its least power allows. -/
theorem expression_respects_powers (ops : Operators κ) (atomKind : Token → κ)
    (tokens : List Token) (s : Session κ) (htokens : s.tokens = (Session.ended tokens).toArray)
    (least : Nat)
    (herrors : ((plainGrammar ops atomKind).expression least s).2.errors = s.errors) :
    let s' := ((plainGrammar ops atomKind).expression least s).2
    ∃ m recorded node, ((plainGrammar ops atomKind).expression least s).1 = some m ∧
      (FirstSignificant s.tokens s.cursor m.start ∧ m.start < m.stop ∧ m.stop = s'.cursor ∧
        (tokenIn s.tokens (m.stop - 1)).isTrivia = false) ∧
      (s'.completed = s.completed ++ recorded ∧ m ∈ recorded) ∧
      ((build {} {} s.tokens.toList recorded []).root.childNodes = [node] ∧
        (build {} {} s.tokens.toList recorded []).anomalies = [] ∧
        node.elementKind? = some m.kind ∧ node.span = tokenSpan s.tokens m.start m.stop) ∧
      (∀ n ∈ node.nodes, IsExpressionNode ops atomKind n) ∧
      (∀ n ∈ node.nodes, ∀ o, ops.operation? n = some o →
        (∀ r x, o.last? = some (r, x) → LeftEdgeAtLeast ops r x) ∧
          ∀ power x, o.first? = some (power, x) → RightEdgeAbove ops power x) ∧
      LeftEdgeAtLeast ops least node ∧
      ∀ power, ops.continuingPower? (s'.nth 0) = some power → power < least := by
  intro s'
  have hlast : (tokenIn s.tokens (s.tokens.size - 1)).kind = .eof := by
    rw [htokens]
    exact Session.last_kind_ended tokens
  have hs : s.Ready := ready_of_expressionAt hlast herrors
  obtain ⟨p, hfound, hp, hfirst, hleast, hnext⟩ :=
    (expressionAt_reads ops atomKind (s.options.maxDepth - s.depth)).reads least s hs
      (congrArg List.length herrors)
  obtain ⟨recorded, hrecorded, hperm⟩ := hp.records.completed
  have hplaced : p.Placed ops atomKind s.tokens.toList.toArray := hp.placed
  have hstop : p.marker.stop ≤ s.tokens.toList.length := by
    have hreaches := reaches_expressionAt ops atomKind (s.options.maxDepth - s.depth) least s hs
    have hlt := hreaches.cursor_lt
    rw [hp.stop, hreaches.tokens] at hlt
    simpa using Nat.le_of_lt hlt
  obtain ⟨hnodes, hanomalies⟩ := hplaced.build_eq hstop hperm hp.records.nodup
  refine ⟨p.marker, recorded, p.tree s.tokens, hfound,
    ⟨hfirst, hp.placed.start_lt_stop, hp.stop.symm, hp.last⟩,
    ⟨hrecorded, hperm.mem_iff.mpr p.marker_mem_markers⟩,
    ⟨hnodes, hanomalies, hp.placed.elementKind?_tree, by rw [hp.placed.tree_eq]; rfl⟩, ?_, ?_, ?_,
    hnext⟩
  · intro n hn
    obtain ⟨q, hq, _, rfl⟩ := Phrase.exists_of_mem_nodes hp.placed hp.ranked hn
    exact hq.isExpressionNode
  · intro n hn o hop
    obtain ⟨q, hq, hranked, rfl⟩ := Phrase.exists_of_mem_nodes hp.placed hp.ranked hn
    exact hq.respects hranked hop
  · intro x hedge o power y hop hfirst'
    exact hleast power (hedge.mem_leftPowers hp.placed rfl hop hfirst')

end Trees

/-- Operators of all four sorts; the one in front of its operand binds loosely. -/
def mixedOperators : Operators String :=
  ((((Operators.addBefore {} "not" 40 "Not").addBetween "+" 110 .left "Sum").addBetween "^" 130
    .right "Power").addAfter "!" 150 "Factorial").addTernary "?" ":" 20 "Choice"

/-- The tokens of `a+b^c^not d!+e?x:y `. -/
def mixedTokens : List Token :=
  Token.lay [(.identifier, "a"), (.operator, "+"), (.identifier, "b"), (.operator, "^"),
    (.identifier, "c"), (.operator, "^"), (.keyword, "not"), (.whitespace, " "),
    (.identifier, "d"), (.operator, "!"), (.operator, "+"), (.identifier, "e"), (.operator, "?"),
    (.identifier, "x"), (.operator, ":"), (.identifier, "y"), (.whitespace, " ")]

/-- A session at the start of them. -/
def mixedSession : Session String :=
  Session.start mixedTokens {} false

/-- What reading it gives. -/
def mixedReading : Option (Marker String) × Session String :=
  (plainGrammar mixedOperators fun _ => "Atom").expression 0 mixedSession

/-- The choice is outermost, and the operand of `not` takes the second sum with it, out of reach
of the powers in front of it. -/
theorem expression_respects_powers_mixed :
    mixedReading.2.errors = mixedSession.errors ∧
      mixedReading.2.completed.map (fun m => (m.kind, m.start, m.stop)) =
        [("Atom", 0, 1), ("Atom", 2, 3), ("Atom", 4, 5), ("Atom", 8, 9), ("Factorial", 8, 10),
          ("Atom", 11, 12), ("Sum", 8, 12), ("Not", 6, 12), ("Power", 4, 12), ("Power", 2, 12),
          ("Sum", 0, 12), ("Atom", 13, 14), ("Atom", 15, 16), ("Choice", 0, 16)] ∧
      ∃ m node, mixedReading.1 = some m ∧ m.stop = mixedReading.2.cursor ∧
        (build {} {} mixedSession.tokens.toList mixedReading.2.completed []).root.childNodes =
          [node] ∧
        ∀ n ∈ node.nodes, ∀ o, mixedOperators.operation? n = some o →
          (∀ r x, o.last? = some (r, x) → LeftEdgeAtLeast mixedOperators r x) ∧
            ∀ power x, o.first? = some (power, x) → RightEdgeAbove mixedOperators power x := by
  have herrors : mixedReading.2.errors = mixedSession.errors := by cbv
  refine ⟨herrors, by cbv, ?_⟩
  rw [mixedReading] at herrors ⊢
  obtain ⟨m, recorded, node, hm, ⟨_, _, hstop, _⟩, ⟨hrecorded, _⟩, ⟨hnode, _⟩, _, hrespects, _⟩ :=
    expression_respects_powers mixedOperators (fun _ => "Atom") mixedTokens mixedSession rfl 0 herrors
  have hcompleted : mixedSession.completed = [] := rfl
  rw [hcompleted, List.nil_append] at hrecorded
  rw [hrecorded]
  exact ⟨m, node, hm, hstop, hnode, hrespects⟩

end Lossless
