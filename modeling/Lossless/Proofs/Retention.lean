import Lossless.Proofs.AppendOrder
import Lossless.Proofs.RoundTrip

/-!
# Options leave out leaves and nothing else

The options of a build say which trivia become leaves of the tree.  A token that becomes no leaf
is still there when elements are given their spans, when errors are given to elements, and when the
parts of an element are sorted.  So **the tree is the one with all trivia, without the leaves of the
trivia that is not wanted** (`options_prune_leaves`).

Leaves are left out where the parts of each element are collected, and constructors see the parts
that are left.  What carries the proof is that each step of the builder commutes with leaving out
leaves: it makes no difference whether parts are left out before they are sorted and given to a
constructor, or afterwards.
-/

namespace Lossless

variable {κ : Type}

/-! ## Trees without some of their leaves -/

/-- Whether a token becomes no leaf that would be one by default. -/
def BuildOptions.drops (o : BuildOptions) (t : Token) : Bool :=
  match t.kind with
  | .whitespace => !o.whitespace
  | .comment => !o.comments
  | _ => false

theorem BuildOptions.keeps_eq (o : BuildOptions) (t : Token) :
    o.keeps t = (({} : BuildOptions).keeps t && !o.drops t) := by
  obtain ⟨kind, text, span⟩ := t
  cases kind <;> simp [keeps, drops]

theorem BuildOptions.isTrivia_of_drops {o : BuildOptions} {t : Token} (h : o.drops t = true) :
    t.isTrivia = true := by
  obtain ⟨kind, text, span⟩ := t
  cases kind <;> first | rfl | cases h

namespace Tree

/-- Whether a tree is left if the leaves of some tokens are left out. -/
def stays (drop : Token → Bool) : Tree κ → Bool
  | leaf t => !drop t
  | node _ _ _ => true

mutual

/-- A tree without the leaves of some tokens below it. -/
def without (drop : Token → Bool) : Tree κ → Tree κ
  | leaf t => leaf t
  | node kind span cs => node kind span (withoutAll drop cs)

/-- Trees without the leaves of some tokens among and below them. -/
def withoutAll (drop : Token → Bool) : List (Tree κ) → List (Tree κ)
  | [] => []
  | t :: ts => if t.stays drop then t.without drop :: withoutAll drop ts else withoutAll drop ts

end

variable (drop : Token → Bool)

theorem withoutAll_eq_map (ts : List (Tree κ)) :
    withoutAll drop ts = (ts.filter (stays drop)).map (without drop) := by
  induction ts with
  | nil => rfl
  | cons t ts ih =>
      rw [withoutAll, ih]
      cases ht : t.stays drop <;> simp [ht]

@[simp] theorem token?_without (t : Tree κ) : (t.without drop).token? = t.token? := by
  cases t <;> rfl

@[simp] theorem elementKind?_without (t : Tree κ) :
    (t.without drop).elementKind? = t.elementKind? := by
  cases t with
  | leaf t => rfl
  | node kind span cs => cases kind <;> rfl

@[simp] theorem isError_without (t : Tree κ) : (t.without drop).isError = t.isError := by
  cases t with
  | leaf t => rfl
  | node kind span cs => cases kind <;> rfl

/-- The first part that is a node is there in any case. -/
theorem find?_isNode_withoutAll (ts : List (Tree κ)) :
    (withoutAll drop ts).find? isNode = (ts.find? isNode).map (without drop) := by
  induction ts with
  | nil => rfl
  | cons t ts ih =>
      cases t with
      | leaf t => cases ht : drop t <;> simp [withoutAll, stays, without, isNode, ih, ht]
      | node kind span cs =>
          rw [withoutAll]
          rfl

theorem stays_of_isNode {t : Tree κ} (h : t.isNode = true) : t.stays drop = true := by
  cases t with
  | leaf t => cases h
  | node kind span cs => rfl

mutual

/-- The nodes are there one by one, without some of their leaves. -/
theorem nodes_without : ∀ t : Tree κ, (t.without drop).nodes = t.nodes.map (without drop)
  | leaf t => rfl
  | node kind span cs => by
      rw [without, nodes, nodes, nodesOf_withoutAll cs, List.map_cons, without]

theorem nodesOf_withoutAll : ∀ ts : List (Tree κ),
    nodesOf (withoutAll drop ts) = (nodesOf ts).map (without drop)
  | [] => rfl
  | t :: ts => by
      rw [withoutAll, nodesOf, List.map_append, ← nodesOf_withoutAll ts, ← nodes_without t]
      split
      · rw [nodesOf]
      · rename_i ht
        cases t with
        | leaf t => rfl
        | node kind span cs => exact absurd rfl ht

end

theorem hasError_without (t : Tree κ) : (t.without drop).hasError = t.hasError := by
  rw [hasError, hasError, nodes_without, List.any_map]
  congr 1
  funext n
  exact isError_without drop n

mutual

/-- The leaves that are left, in order. -/
theorem tokens_without : ∀ t : Tree κ, t.stays drop = true →
    (t.without drop).tokens = t.tokens.filter (!drop ·)
  | leaf t, h => by
      have hleft : drop t = false := by simpa [stays] using h
      simp [without, tokens, hleft]
  | node kind span cs, _ => by
      rw [without, tokens, tokens, tokensOf_withoutAll cs]

theorem tokensOf_withoutAll : ∀ ts : List (Tree κ),
    tokensOf (withoutAll drop ts) = (tokensOf ts).filter (!drop ·)
  | [] => rfl
  | t :: ts => by
      rw [withoutAll, tokensOf, List.filter_append, ← tokensOf_withoutAll ts]
      split
      · rename_i ht
        rw [tokensOf, tokens_without t ht]
      · rename_i ht
        cases t with
        | leaf t => simp_all [stays, tokens]
        | node kind span cs => exact absurd rfl ht

end

mutual

/-- Leaving out some leaves and then others is leaving out both. -/
theorem without_without (drop' : Token → Bool) : ∀ t : Tree κ,
    (t.without drop).without drop' = t.without (fun u => drop u || drop' u)
  | leaf t => rfl
  | node kind span cs => by
      rw [without, without, without, withoutAll_withoutAll drop' cs]

theorem withoutAll_withoutAll (drop' : Token → Bool) : ∀ ts : List (Tree κ),
    withoutAll drop' (withoutAll drop ts) = withoutAll (fun u => drop u || drop' u) ts
  | [] => rfl
  | t :: ts => by
      have hstays : t.stays (fun u => drop u || drop' u) =
          (t.stays drop && (t.without drop).stays drop') := by
        cases t with
        | leaf t => exact Bool.not_or _ _
        | node kind span cs => rfl
      rw [withoutAll, withoutAll, hstays]
      cases t.stays drop with
      | false => exact withoutAll_withoutAll drop' ts
      | true =>
          rw [if_pos rfl, withoutAll, Bool.true_and, without_without drop' t,
            withoutAll_withoutAll drop' ts]

end

end Tree

/-! ## Constructors -/

/-- What a constructor makes of an element, without some leaves. -/
def Construction.without (drop : Token → Bool) : Construction κ → Construction κ
  | built node => built (node.without drop)
  | refused message => refused message
  | brokeOff message => brokeOff message

/-- **Constructors heed trivia only by keeping it.**  They make nodes, they decide without the
trivia that options leave out as they do with it, and the node they make is the same but for its
leaves. -/
structure Registry.OnlyKeepsTrivia [DecidableEq κ] (r : Registry κ) : Prop where
  isNode : ∀ kind constructor, r.get? kind = some constructor → ∀ m parts span node,
    constructor m parts span = .built node → node.isNode = true
  without : ∀ kind constructor, r.get? kind = some constructor →
    ∀ (o : BuildOptions) m parts span,
      constructor m (Tree.withoutAll o.drops parts) span =
        (constructor m parts span).without o.drops

theorem Registry.onlyKeepsTrivia_empty [DecidableEq κ] : ({} : Registry κ).OnlyKeepsTrivia where
  isNode _ _ hget := by cases hget
  without _ _ hget := by cases hget

namespace Calculator

theorem lastToken?_withoutAll {drop : Token → Bool} (hdrop : ∀ t, drop t = true → t.isTrivia = true)
    (parts : List (Tree Kind)) : lastToken? (Tree.withoutAll drop parts) = lastToken? parts := by
  have hsignificant :
      Tree.isSignificant ∘ Tree.without drop = (Tree.isSignificant : Tree Kind → Bool) := by
    funext t
    cases t <;> rfl
  have htoken : Tree.token? ∘ Tree.without drop = (Tree.token? : Tree Kind → Option Token) := by
    funext t
    exact Tree.token?_without drop t
  have hstays : ∀ t : Tree Kind, (t.isSignificant && t.stays drop) = t.isSignificant := by
    intro t
    cases t with
    | node kind span cs => rfl
    | leaf t =>
        cases ht : drop t with
        | false => simp [Tree.stays, ht]
        | true => simp [Tree.isSignificant, hdrop t ht]
  rw [lastToken?_eq, lastToken?_eq, Tree.withoutAll_eq_map, List.filter_map, hsignificant,
    List.filter_filter, List.filterMap_map, htoken]
  simp only [hstays]

/-- Both constructors look at significant tokens and at nodes only, and keep all their parts. -/
theorem registry_onlyKeepsTrivia : registry.OnlyKeepsTrivia where
  isNode kind constructor hget m parts span node hbuilt :=
    (registry_keeps.1 kind constructor hget m parts span node hbuilt).1
  without kind constructor hget o m parts span := by
    rcases constructor_cases hget with rfl | rfl
    · simp only [groupConstructor, lastToken?_withoutAll fun t => o.isTrivia_of_drops]
      split
      · rw [Construction.without, Tree.without]
      · rfl
    · simp only [assignConstructor, Tree.find?_isNode_withoutAll, Option.bind_map,
        Function.comp_def, Tree.elementKind?_without]
      split
      · rw [Construction.without, Tree.without]
      · rfl

end Calculator

/-! ## Parts on the way to their places -/

/-- A tree, with the same refusals in it, without some leaves. -/
def Assembled.without (drop : Token → Bool) (a : Assembled κ) : Assembled κ :=
  { a with tree := a.tree.without drop }

/-- A part on its way to its place, without some leaves. -/
def Item.without (drop : Token → Bool) (i : Item κ) : Item κ :=
  { i with tree := i.tree.without drop }

/-- The parts that stay, without some leaves. -/
def itemsWithout (drop : Token → Bool) (items : List (Item κ)) : List (Item κ) :=
  (items.filter (·.tree.stays drop)).map (Item.without drop)

section Items

variable {drop : Token → Bool}

theorem itemsWithout_append (items items' : List (Item κ)) :
    itemsWithout drop (items ++ items') = itemsWithout drop items ++ itemsWithout drop items' := by
  simp [itemsWithout]

/-- A node stays among the parts. -/
theorem itemsWithout_cons_of_isNode {t : Tree κ} (h : t.isNode = true) (index rank : Nat)
    (items : List (Item κ)) :
    itemsWithout drop (⟨index, rank, t⟩ :: items) =
      ⟨index, rank, t.without drop⟩ :: itemsWithout drop items := by
  simp [itemsWithout, Tree.stays_of_isNode drop h, Item.without]

/-- What is left of the parts is in the same order. -/
theorem mergeSort_itemsWithout (items : List (Item κ)) :
    (itemsWithout drop items).mergeSort Item.le = itemsWithout drop (items.mergeSort Item.le) := by
  have hfilter : (items.filter (·.tree.stays drop)).mergeSort Item.le =
      (items.mergeSort Item.le).filter (·.tree.stays drop) :=
    mergeSort_filter Item.le_trans Item.le_total Item.le_of_key_eq Item.key_eq_of_le _
  have hmap : ∀ i ∈ items.filter (·.tree.stays drop), ∀ j ∈ items.filter (·.tree.stays drop),
      i.le j = (i.without drop).le (j.without drop) := fun _ _ _ _ => rfl
  rw [itemsWithout, itemsWithout, ← hfilter, List.map_mergeSort hmap]

theorem map_tree_itemsWithout (items : List (Item κ)) :
    (itemsWithout drop items).map Item.tree = Tree.withoutAll drop (items.map Item.tree) := by
  rw [Tree.withoutAll_eq_map, itemsWithout, List.filter_map, List.map_map, List.map_map]
  rfl

end Items

namespace BuildContext

/-- Reported errors have no leaves. -/
theorem itemsWithout_errorLeaf (drop : Token → Bool) (errors : List ParseError) :
    itemsWithout drop (errors.map (@errorLeaf κ)) = errors.map errorLeaf := by
  induction errors with
  | nil => rfl
  | cons e es ih =>
      rw [List.map_cons, errorLeaf, itemsWithout_cons_of_isNode rfl, ih]
      rfl

/-- **Parts may be left out before or after they are put in order.** -/
theorem ordered_itemsWithout (drop : Token → Bool) (errors : List ParseError)
    (items : List (Item κ)) :
    ordered errors (itemsWithout drop items) = Tree.withoutAll drop (ordered errors items) := by
  rw [ordered, ordered, ← map_tree_itemsWithout, ← mergeSort_itemsWithout, itemsWithout_append,
    itemsWithout_errorLeaf]

variable (tokens : Array Token) {r : Registry κ} (o : BuildOptions)

theorem leaves_itemsWithout (start stop : Nat) :
    leaves ⟨tokens, o, r⟩ start stop = itemsWithout o.drops (leaves ⟨tokens, {}, r⟩ start stop) := by
  rw [leaves, leaves, itemsWithout, List.filter_filterMap, List.map_filterMap]
  congr 1
  funext i
  cases tokens[i]? with
  | none => rfl
  | some t =>
      simp only [o.keeps_eq t]
      cases hkept : ({} : BuildOptions).keeps t with
      | false => rfl
      | true => cases hdrops : o.drops t <;> simp [Tree.stays, Item.without, Tree.without, hdrops]

variable [DecidableEq κ] [Named κ] (hr : r.OnlyKeepsTrivia)
include hr

/-- What becomes of a marker is a node. -/
theorem isNode_close (m : Marker κ) (parts : List (Tree κ)) (refusals : List (Nat × String)) :
    (close ⟨tokens, o, r⟩ m parts refusals).tree.isNode = true := by
  rcases close_cases ⟨tokens, o, r⟩ m parts refusals with hok | ⟨message, htree⟩
  · rcases Registry.construct_ok hok with htree | ⟨constructor, hget, hbuilt⟩
    · rw [htree]
      rfl
    · exact hr.isNode m.kind constructor hget _ _ _ _ hbuilt
  · rw [htree]
    rfl

/-- **Leaves may be left out before or after a marker becomes a node**, or is refused. -/
theorem close_without (m : Marker κ) (parts : List (Tree κ)) (refusals : List (Nat × String)) :
    close ⟨tokens, o, r⟩ m (Tree.withoutAll o.drops parts) refusals =
      (close ⟨tokens, {}, r⟩ m parts refusals).without o.drops := by
  have hrefused : ∀ message : String, Assembled.without o.drops
      ⟨.node (.error message none) (tokenSpan tokens m.start m.stop) parts,
        refusals ++ [(m.id, message)]⟩ =
      ⟨.node (.error message none) (tokenSpan tokens m.start m.stop)
        (Tree.withoutAll o.drops parts), refusals ++ [(m.id, message)]⟩ := by
    intro message
    rw [Assembled.without, Tree.without]
  simp only [close, Registry.construct]
  cases hget : r.get? m.kind with
  | none => simp only [Assembled.without, Tree.without]
  | some constructor =>
      simp only [hr.without m.kind constructor hget o]
      cases constructor m parts (tokenSpan tokens m.start m.stop) with
      | built node => rfl
      | refused message => exact (hrefused message).symm
      | brokeOff message => exact (hrefused _).symm

mutual

theorem assemble_without : ∀ (p : Plot κ) (errors : List ParseError),
    assemble ⟨tokens, o, r⟩ errors p = (assemble ⟨tokens, {}, r⟩ errors p).without o.drops
  | .mk m inner, errors => by
      rw [assemble, assemble, assembleParts_without inner errors m.start m.stop]
      simp only [ordered_itemsWithout]
      exact close_without tokens o hr m _ _

/-- **Options leave out parts and change no refusal.** -/
theorem assembleParts_without : ∀ (ps : List (Plot κ)) (errors : List ParseError)
    (cursor stop : Nat),
    assembleParts ⟨tokens, o, r⟩ errors cursor stop ps =
      (itemsWithout o.drops (assembleParts ⟨tokens, {}, r⟩ errors cursor stop ps).1,
        (assembleParts ⟨tokens, {}, r⟩ errors cursor stop ps).2)
  | [], errors, cursor, stop => by
      rw [assembleParts, assembleParts, leaves_itemsWithout tokens o cursor stop]
  | p :: ps, errors, cursor, stop => by
      have htree := assemble_without p (errors.filter fun e => p.marker.covers e.index)
      have hlater := assembleParts_without ps errors (max cursor p.marker.stop) stop
      have hnode : (assemble ⟨tokens, {}, r⟩
          (errors.filter fun e => p.marker.covers e.index) p).tree.isNode = true := by
        obtain ⟨m, inner⟩ := p
        rw [assemble]
        exact isNode_close tokens {} hr m _ _
      rw [assembleParts, assembleParts]
      simp only [htree, hlater, leaves_itemsWithout tokens o, itemsWithout_append,
        itemsWithout_cons_of_isNode hnode, Assembled.without]

end

end BuildContext

/-! ## The tree -/

/-- **Options leave out leaves and nothing else.**  If constructors heed trivia only by keeping it,
then the tree built with some options is the tree built with the default ones, without the leaves
of the trivia that the options leave out: what is left of the tokens comes in the same order, and
without any tokens both trees are the same, with the same elements and error nodes over the same
spans and inside of the same parts.  Both are valid or neither is, and the same markers are refused
or have no place. -/
theorem options_prune_leaves [DecidableEq κ] [Named κ] {registry : Registry κ}
    (hregistry : registry.OnlyKeepsTrivia) (options : BuildOptions) (tokens : List Token)
    (markers : List (Marker κ)) (errors : List ParseError) :
    let full := build registry {} tokens markers errors
    let lean := build registry options tokens markers errors
    lean.root = full.root.without options.drops ∧
      lean.root.tokens = full.root.tokens.filter (!options.drops ·) ∧
      lean.root.without (fun _ => true) = full.root.without (fun _ => true) ∧
      lean.valid = full.valid ∧ lean.anomalies = full.anomalies ∧ lean.events = full.events := by
  intro full lean
  have hparts := BuildContext.assembleParts_without tokens.toArray options hregistry
    (plots tokens.length markers).1 (distinctErrors [] errors) 0 tokens.length
  have hroot : lean.root = full.root.without options.drops := by
    rw [build_root, build_root, Tree.without, hparts, BuildContext.ordered_itemsWithout]
  have hfull : full.root.stays options.drops = true := rfl
  refine ⟨hroot, ?_, ?_, ?_, rfl, ?_⟩
  · rw [hroot, Tree.tokens_without _ _ hfull]
  · rw [hroot, Tree.without_without]
    simp only [Bool.or_true]
  · have hvalid : ∀ o, (build registry o tokens markers errors).valid =
        (errors.isEmpty && !(build registry o tokens markers errors).root.hasError) :=
      fun o => rfl
    rw [hvalid, hvalid, show (build registry options tokens markers errors).root = _ from hroot,
      Tree.hasError_without]
  · simp only [lean, full, build]
    rw [hparts]

/-- A group in which an assignment is made to a name with a comment behind it, a group without its
bracket, an element over nothing and an error at a blank. -/
theorem options_prune_leaves_spaced_group :
    let tokens := Token.lay [(.punctuation, "("), (.whitespace, " "), (.identifier, "a"),
      (.comment, "/**/"), (.operator, "="), (.whitespace, " "), (.identifier, "b"),
      (.whitespace, "\t"), (.punctuation, ")")]
    let markers : List (Marker Calculator.Kind) :=
      [⟨1, 2, 4, .name, none⟩, ⟨2, 0, 9, .group, none⟩, ⟨3, 2, 8, .assign, none⟩,
        ⟨4, 6, 8, .group, none⟩, ⟨5, 7, 7, .name, none⟩, ⟨6, 3, 5, .name, none⟩]
    let errors : List ParseError := [⟨7, "unexpected blank", ⟨10, 11⟩⟩]
    let options : BuildOptions := ⟨false, false⟩
    let full := build Calculator.registry {} tokens markers errors
    let lean := build Calculator.registry options tokens markers errors
    Calculator.registry.OnlyKeepsTrivia ∧ ({} : Registry Calculator.Kind).OnlyKeepsTrivia ∧
      lean.root = full.root.without options.drops ∧
      lean.root.tokens = full.root.tokens.filter (!options.drops ·) ∧
      lean.root.without (fun _ => true) = full.root.without (fun _ => true) ∧
      lean.valid = full.valid ∧ lean.anomalies = full.anomalies ∧ lean.events = full.events ∧
      lean.root.tokens.map Token.text = ["(", "a", "=", "b", ")"] ∧
      lean.events = [.rejected 4 "unclosed group", .anomaly (.overlapping 6 1)] := by
  intro tokens markers errors options full lean
  have hregistry := Calculator.registry_onlyKeepsTrivia
  obtain ⟨hroot, htokens, hnodes, hvalid, hanomalies, hevents⟩ :=
    options_prune_leaves hregistry options tokens markers errors
  exact ⟨hregistry, Registry.onlyKeepsTrivia_empty, hroot, htokens, hnodes, hvalid, hanomalies,
    hevents, by cbv, by cbv⟩

end Lossless
