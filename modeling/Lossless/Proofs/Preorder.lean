import Lossless.Tree.Outline

/-!
# A tree from top to bottom

Listing the nodes and tokens of a tree from top to bottom, each by a `Label` with its depth, loses
nothing: the parts of a node are what comes behind it and is deeper.  So **depths and labels
determine the tree** (`entries_append_inj`), but for the token indices of errors, which no label
tells.  There is a label for each node and each token (`length_entries`).
-/

namespace Lossless

variable {κ : Type}

/-- A node kind without the token index of an error. -/
def NodeKind.unindexed : NodeKind κ → NodeKind κ
  | root => root
  | element kind => element kind
  | error message _ => error message none

namespace Tree

mutual

/-- A tree without the token indices of errors. -/
def unindexed : Tree κ → Tree κ
  | leaf t => leaf t
  | node k s cs => node k.unindexed s (unindexedAll cs)

/-- Trees without the token indices of errors. -/
def unindexedAll : List (Tree κ) → List (Tree κ)
  | [] => []
  | t :: ts => unindexed t :: unindexedAll ts

end

end Tree

/-- What is told of a token, or of a node without its parts. -/
inductive Label (κ : Type) where
  | token (token : Token)
  | root (span : Span)
  | element (kind : κ) (span : Span)
  | error (message : String) (span : Span)

namespace Tree

/-- The label of a tree; that of a node tells nothing of its parts. -/
def label : Tree κ → Label κ
  | leaf t => .token t
  | node .root s _ => .root s
  | node (.element kind) s _ => .element kind s
  | node (.error message _) s _ => .error message s

theorem label_node_inj {j k : NodeKind κ} {s t : Span} {as bs : List (Tree κ)}
    (h : (node j s as).label = (node k t bs).label) : j.unindexed = k.unindexed ∧ s = t := by
  cases j <;> cases k <;> simp_all [label, NodeKind.unindexed]

theorem label_unindexed (t : Tree κ) : t.unindexed.label = t.label := by
  cases t with
  | leaf t => rfl
  | node k s cs => cases k <;> rfl

/-! ## Labels with depths -/

mutual

/-- The labels of a tree from top to bottom, each with its depth. -/
def entries (o : OutlineOptions) (depth : Nat) : Tree κ → List (Nat × Label κ)
  | leaf t => if o.shows t then [(depth, .token t)] else []
  | node k s cs => (depth, (node k s cs).label) :: entriesOf o (depth + 1) cs

/-- The labels of trees at a depth. -/
def entriesOf (o : OutlineOptions) (depth : Nat) : List (Tree κ) → List (Nat × Label κ)
  | [] => []
  | t :: ts => entries o depth t ++ entriesOf o depth ts

end

/-- What comes next is not as deep, if there is anything. -/
def Above (depth : Nat) (es : List (Nat × Label κ)) : Prop :=
  ∀ e ∈ es.head?, e.1 < depth

theorem above_entriesOf {d : Nat} {es : List (Nat × Label κ)} (h : Above d es)
    (ts : List (Tree κ)) :
    Above (d + 1) (entriesOf {} d ts ++ es) := by
  intro e he
  cases ts with
  | nil => exact Nat.lt_succ_of_lt (h e he)
  | cons t ts =>
      cases t with
      | leaf t =>
          obtain rfl := Option.some.inj he
          exact Nat.lt_succ_self d
      | node k s cs =>
          obtain rfl := Option.some.inj he
          exact Nat.lt_succ_self d

theorem not_above_entries (t : Tree κ) (d : Nat) (es : List (Nat × Label κ)) :
    ¬ Above d (entries {} d t ++ es) := by
  intro h
  have hself : d < d := by
    cases t with
    | leaf t => exact h (d, .token t) rfl
    | node k s cs => exact h (d, (node k s cs).label) rfl
  omega

mutual

/-- **The labels of a tree tell where it ends and what it is**, in front of anything that is not
deeper. -/
theorem entries_append_inj : ∀ (a b : Tree κ) {d : Nat} {es fs : List (Nat × Label κ)},
    Above (d + 1) es → Above (d + 1) fs → entries {} d a ++ es = entries {} d b ++ fs →
      a.unindexed = b.unindexed ∧ es = fs
  | leaf t, leaf u, d, es, fs, _, _, h => by
      simp_all [entries, OutlineOptions.shows, unindexed]
  | leaf t, node k s cs, d, es, fs, _, _, h => by
      cases k <;> simp_all [entries, OutlineOptions.shows, label]
  | node k s cs, leaf t, d, es, fs, _, _, h => by
      cases k <;> simp_all [entries, OutlineOptions.shows, label]
  | node j s as, node k t bs, d, es, fs, hes, hfs, h => by
      rw [entries, entries, List.cons_append, List.cons_append] at h
      obtain ⟨hhead, hparts⟩ := List.cons.inj h
      obtain ⟨hkind, hspan⟩ := label_node_inj (Prod.mk.inj hhead).2
      obtain ⟨hsame, hrest⟩ := entriesOf_append_inj as bs hes hfs hparts
      exact ⟨by rw [unindexed, unindexed, hkind, hspan, hsame], hrest⟩

/-- The labels of a row tell where it ends and what it is, in front of anything that is not as
deep. -/
theorem entriesOf_append_inj : ∀ (as bs : List (Tree κ)) {d : Nat} {es fs : List (Nat × Label κ)},
    Above d es → Above d fs → entriesOf {} d as ++ es = entriesOf {} d bs ++ fs →
      unindexedAll as = unindexedAll bs ∧ es = fs
  | [], [], d, es, fs, _, _, h => ⟨rfl, h⟩
  | [], b :: bs, d, es, fs, hes, _, h => by
      rw [entriesOf, entriesOf, List.nil_append, List.append_assoc] at h
      exact absurd (h ▸ hes) (not_above_entries b d _)
  | a :: as, [], d, es, fs, _, hfs, h => by
      rw [entriesOf, entriesOf, List.nil_append, List.append_assoc] at h
      exact absurd (h ▸ hfs) (not_above_entries a d _)
  | a :: as, b :: bs, d, es, fs, hes, hfs, h => by
      rw [entriesOf, entriesOf, List.append_assoc, List.append_assoc] at h
      obtain ⟨hfirst, hlater⟩ :=
        entries_append_inj a b (above_entriesOf hes as) (above_entriesOf hfs bs) h
      obtain ⟨hsame, hrest⟩ := entriesOf_append_inj as bs hes hfs hlater
      exact ⟨by rw [unindexedAll, unindexedAll, hfirst, hsame], hrest⟩

end

mutual

/-- The token indices of errors are not shown. -/
theorem entries_unindexed : ∀ (t : Tree κ) (d : Nat), entries {} d t.unindexed = entries {} d t
  | leaf t, d => rfl
  | node k s cs, d => by
      have hlabel := label_unindexed (node k s cs)
      rw [unindexed] at hlabel ⊢
      rw [entries, entries, entriesOf_unindexed cs (d + 1)]
      cases k <;> rfl

theorem entriesOf_unindexed : ∀ (ts : List (Tree κ)) (d : Nat),
    entriesOf {} d (unindexedAll ts) = entriesOf {} d ts
  | [], d => rfl
  | t :: ts, d => by
      rw [unindexedAll, entriesOf, entriesOf, entries_unindexed t d, entriesOf_unindexed ts d]

end

mutual

/-- There is a label for each node and for each token. -/
theorem length_entries : ∀ (t : Tree κ) (d : Nat),
    (entries {} d t).length = t.nodes.length + t.tokens.length
  | leaf t, d => rfl
  | node k s cs, d => by
      rw [entries, nodes, tokens, List.length_cons, List.length_cons, length_entriesOf cs (d + 1)]
      omega

theorem length_entriesOf : ∀ (ts : List (Tree κ)) (d : Nat),
    (entriesOf {} d ts).length = (nodesOf ts).length + (tokensOf ts).length
  | [], d => rfl
  | t :: ts, d => by
      rw [entriesOf, nodesOf, tokensOf, List.length_append, List.length_append, List.length_append,
        length_entries t d, length_entriesOf ts d]
      omega

end

end Tree

end Lossless
