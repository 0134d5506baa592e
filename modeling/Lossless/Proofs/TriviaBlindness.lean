import Lossless.Proofs.InPlace
import Lossless.Proofs.ProgramLockstep
import Lossless.Proofs.Thinning

/-!
# Programs are read alike with and without trivia

Whitespace and comments may be kept among the tokens of a text or not.  **A program is read and
built the same in either case** (`run_ignores_trivia`): the same errors are reported, the tree is
valid in both cases or in neither, and but for trivia it is the same tree.

Some operations of a session skip trivia and some see the tokens as they are.  The latter are
those that read strings, and there is no trivia between the pieces of a literal
(`Nest.Closes.significant`), so both sessions are at the same piece.  Recovery stops at tokens
that are never left out.
-/

namespace Lossless

/-! ## Places with and without trivia -/

theorem dropWhile_filter {α : Type} {p keep : α → Bool} (h : ∀ a, keep a = false → p a = true)
    (as : List α) : (as.filter keep).dropWhile p = (as.dropWhile p).filter keep := by
  induction as with
  | nil => rfl
  | cons a as ih =>
      cases hkept : keep a with
      | true =>
          rw [List.filter_cons_of_pos hkept]
          cases hp : p a with
          | true => rw [List.dropWhile_cons_of_pos hp, List.dropWhile_cons_of_pos hp, ih]
          | false => simp [hp, hkept]
      | false =>
          rw [List.filter_cons_of_neg (by simp [hkept]), List.dropWhile_cons_of_pos (h a hkept), ih]

namespace Nest

/-- Behind a piece of a literal that neither closes it nor opens a block, no code comes next. -/
theorem isCode_step_piece {n n' : Nest} {part : StringPart} (h : n.step (.string part) = some n')
    (hclosing : ∀ style, part ≠ .closing style) (hblock : part ≠ .blockOpen) :
    n'.isCode = false := by
  match n with
  | ⟨style, .name⟩ :: outer => cases part <;> cases h
  | ⟨style, .piece⟩ :: outer =>
      cases part with
      | closing s => exact absurd rfl (hclosing s)
      | blockOpen => exact absurd rfl hblock
      | opening s => cases h
      | blockClose => cases h
      | _ =>
          obtain rfl := Option.some.inj h
          rfl
  | [] =>
      cases part with
      | opening s =>
          obtain rfl := Option.some.inj h
          rfl
      | _ => cases h
  | ⟨style, .block⟩ :: outer =>
      cases part with
      | opening s =>
          obtain rfl := Option.some.inj h
          rfl
      | blockClose =>
          obtain rfl := Option.some.inj h
          rfl
      | _ => cases h

/-- Behind a name in a literal, no code comes next. -/
theorem isCode_step_name {n n₁ n₂ : Nest} (hmark : n.step (.string .nameMark) = some n₁)
    (hname : n₁.step .identifier = some n₂) : n₂.isCode = false := by
  match n with
  | [] | ⟨style, .name⟩ :: outer | ⟨style, .block⟩ :: outer => cases hmark
  | ⟨style, .piece⟩ :: outer =>
      obtain rfl := Option.some.inj hmark
      obtain rfl := Option.some.inj hname
      rfl

/-- Among tokens up to the end of the input there is a first one at which to stop. -/
theorem Closes.dropWhile_stop {n : Nest} {ts : List Token} (h : n.Closes ts) {p : Token → Bool}
    (hlast : ∀ e : Token, e.kind = .eof → p e = false) :
    ∃ n' : Nest, ∃ t us, ts.dropWhile p = t :: us ∧ p t = false ∧ n'.Closes (t :: us) := by
  induction h with
  | @eof t heof =>
      have hstop := hlast t heof
      exact ⟨[], t, [], by simp [hstop], hstop, .eof heof⟩
  | @token n n' t ts hstep h ih =>
      cases hstop : p t with
      | true => rwa [List.dropWhile_cons_of_pos hstop]
      | false => exact ⟨n, t, ts, by simp [hstop], hstop, .token hstep h⟩

end Nest

/-- The tokens to come on the right are those on the left that are kept, and these close all open
literals. -/
def Thinned (keep : Token → Bool) (ts us : List Token) : Prop :=
  us = ts.filter keep ∧ ∃ n : Nest, n.Closes ts

namespace Thinned

variable {keep : Token → Bool} {ts us : List Token}

/-- Both sides begin with a token if that of the left is kept. -/
theorem meeting {a : Token} (h : Thinned keep (a :: ts) us) (ha : keep a = true) :
    Meeting (Thinned keep) (a :: ts) us := by
  have hplaces := h
  obtain ⟨rfl, _⟩ := h
  rw [List.filter_cons_of_pos ha] at hplaces ⊢
  exact .mk (.same a) hplaces

theorem cons_iff {a : Token} :
    a :: us = (a :: ts).filter keep ↔ keep a = true ∧ us = ts.filter keep := by
  constructor
  · intro h
    have ha : keep a = true := (List.mem_filter.mp (h ▸ List.mem_cons_self)).2
    rw [List.filter_cons_of_pos ha] at h
    exact ⟨ha, (List.cons.inj h).2⟩
  · rintro ⟨ha, rfl⟩
    rw [List.filter_cons_of_pos ha]

/-- Behind a token of both sides. -/
theorem tail {a : Token} (h : Thinned keep (a :: ts) (a :: us)) (hkind : a.kind ≠ .eof) :
    Thinned keep ts us := by
  obtain ⟨hfilter, n, hcloses⟩ := h
  obtain ⟨n', _, hcloses'⟩ := hcloses.tail hkind
  exact ⟨(cons_iff.mp hfilter).2, n', hcloses'⟩

/-- The index on the right is the number of tokens on the left that are kept. -/
theorem located {tokens : List Token} {i j : Nat}
    (h : Thinned keep (tokens.drop i) ((tokens.filter keep).drop j))
    (hj : j < (tokens.filter keep).length) : j = placeAmong keep tokens i := by
  have hsplit := congrArg (fun ts => (ts.filter keep).length) (List.take_append_drop i tokens)
  have hrest := congrArg List.length h.1
  simp only [List.filter_append, List.length_append, List.length_drop] at hsplit hrest
  rw [placeAmong, List.countP_eq_length_filter]
  omega

variable (hkeep : ∀ t : Token, t.isTrivia = false → keep t = true)

include hkeep

/-- The end of the input is kept, so there is no line end in its place. -/
theorem eq_of_alike {a b : Token} (h : Thinned keep (a :: ts) (b :: us)) (halike : Alike a b) :
    b = a ∧ keep a = true := by
  cases halike with
  | same => exact ⟨rfl, (cons_iff.mp h.1).1⟩
  | lineEnd ha hb =>
      have hkept := hkeep a (Token.isTrivia_of_kind ha rfl)
      have hfilter := h.1
      rw [List.filter_cons_of_pos hkept] at hfilter
      exact ⟨(List.cons.inj hfilter).1, hkept⟩

/-- Where no code comes next, both sides are at the same token. -/
theorem meeting_of_literal (h : Thinned keep ts us) {n : Nest} (hcloses : n.Closes ts)
    (hcode : n.isCode = false) : Meeting (Thinned keep) ts us := by
  obtain ⟨t, rest, rfl, hsignificant⟩ := hcloses.significant hcode
  exact h.meeting (hkeep t hsignificant)

/-- Behind a piece of a literal that neither closes it nor opens a block, both sides are at the
same token. -/
theorem tail_piece {a : Token} {part : StringPart} (h : Thinned keep (a :: ts) (a :: us))
    (hkind : a.kind = .string part) (hclosing : ∀ style, part ≠ .closing style)
    (hblock : part ≠ .blockOpen) : Meeting (Thinned keep) ts us := by
  have heof := Token.kind_ne_eof_of_string hkind
  obtain ⟨n, hcloses⟩ := h.2
  obtain ⟨n', hstep, hcloses'⟩ := hcloses.tail heof
  rw [hkind] at hstep
  exact (h.tail heof).meeting_of_literal hkeep hcloses'
    (Nest.isCode_step_piece hstep hclosing hblock)

/-- Behind a name in a literal, both sides are at the same token. -/
theorem tail_name {a b : Token} (h : Thinned keep (a :: b :: ts) (a :: b :: us))
    (hmark : a.kind = .string .nameMark) (hname : b.kind = .identifier) :
    Meeting (Thinned keep) ts us := by
  have ha := Token.kind_ne_eof_of_string hmark
  have hb : b.kind ≠ .eof := by rw [hname]; decide
  obtain ⟨n, hcloses⟩ := h.2
  obtain ⟨n₁, hstep₁, hcloses₁⟩ := hcloses.tail ha
  obtain ⟨n₂, hstep₂, hcloses₂⟩ := hcloses₁.tail hb
  rw [hmark] at hstep₁
  rw [hname] at hstep₂
  exact ((h.tail ha).tail hb).meeting_of_literal hkeep hcloses₂
    (Nest.isCode_step_name hstep₁ hstep₂)

/-- Both sides go on to the same token if trivia is always passed over and the end of the input
never is. -/
theorem dropWhile {p : Token → Bool} (htrivia : ∀ t : Token, t.isTrivia = true → p t = true)
    (hlast : ∀ e : Token, e.kind = .eof → p e = false) (h : Thinned keep ts us) :
    Meeting (Thinned keep) (ts.dropWhile p) (us.dropWhile p) := by
  obtain ⟨rfl, n, hcloses⟩ := h
  have hpassed : ∀ t, keep t = false → p t = true := by
    intro t ht
    apply htrivia
    by_contra hnot
    rw [hkeep t (by simpa using hnot)] at ht
    cases ht
  obtain ⟨n', t, rest, hdrop, hstop, hcloses'⟩ := hcloses.dropWhile_stop hlast
  have hkept : keep t = true := by
    by_contra hnot
    rw [hpassed t (by simpa using hnot)] at hstop
    cases hstop
  rw [dropWhile_filter hpassed, hdrop]
  exact Thinned.meeting ⟨rfl, n', hcloses'⟩ hkept

end Thinned

/-- The lockstep of tokens and those of them that are kept. -/
def Lockstep.thinned {κ : Type} (keep : Token → Bool)
    (hkeep : ∀ t : Token, t.isTrivia = false → keep t = true) (tokens : List Token)
    (hclosed : ∃ n : Nest, n.Closes tokens) : Lockstep κ where
  left := tokens.toArray
  right := (tokens.filter keep).toArray
  near _ := Thinned keep
  place := placeAmong keep tokens
  shift := 0
  markers := []
  errors := []
  report := ParseError.rebase (placeAmong keep tokens)
  left_ended := by
    obtain ⟨n, hcloses⟩ := hclosed
    obtain ⟨body, e, rfl, he⟩ := hcloses.exists_append
    simp [tokenIn, he]
  right_ended := by
    obtain ⟨n, hcloses⟩ := hclosed
    obtain ⟨body, e, rfl, he⟩ := hcloses.exists_append
    simp [tokenIn, he, hkeep e (Token.isTrivia_of_kind he rfl)]
  mono := placeAmong_mono keep tokens
  located h _ hj := h.located hj
  reported := by
    intro k i a b ts us h halike _ _ message
    rw [(h.eq_of_alike hkeep halike).1]
    rfl
  weaken h := h
  skip h := h.dropWhile hkeep (fun _ => id) fun _ he => Token.isTrivia_of_kind he rfl
  plain h _ hkind := h.tail hkind
  opening h hkind := h.tail_piece hkeep hkind (by simp) (by simp)
  closing h hkind := h.tail (Token.kind_ne_eof_of_string hkind)
  blockOpen h hkind := h.tail (Token.kind_ne_eof_of_string hkind)
  piece h hkind hpart := by
    rcases hpart with rfl | rfl | rfl | rfl <;> exact h.tail_piece hkeep hkind (by simp) (by simp)
  name h hmark hname := h.tail_name hkeep hmark hname
  line h := by
    refine h.dropWhile hkeep ?_ fun e he => by simp [Session.endsLine, he]
    intro t ht
    cases hkind : t.kind <;> simp_all [Token.isTrivia, TokenKind.isTrivia, Session.endsLine]
  block h := by
    refine h.dropWhile hkeep ?_ fun e he => by simp [Calculator.endsBlock, he]
    intro t ht
    cases hkind : t.kind <;> simp_all [Token.isTrivia, TokenKind.isTrivia, Calculator.endsBlock]

/-- Both sides meet at kept tokens. -/
theorem Lockstep.keptAt_of_sited {κ : Type} {keep : Token → Bool}
    {hkeep : ∀ t : Token, t.isTrivia = false → keep t = true} {tokens : List Token}
    {hclosed : ∃ n : Nest, n.Closes tokens} {i : Nat}
    (h : (Lockstep.thinned keep hkeep tokens hclosed : Lockstep κ).Sited i) :
    KeptAt keep tokens i := by
  obtain ⟨k, hmeeting⟩ := h
  have hfirst : tokens[i]? = (tokens.drop i)[0]? := by simp
  change Meeting (Thinned keep) (tokens.drop i) ((tokens.filter keep).drop _) at hmeeting
  generalize tokens.drop i = ts at hmeeting hfirst
  generalize (tokens.filter keep).drop _ = us at hmeeting
  cases hmeeting with
  | @mk a _ _ _ halike hnear => exact ⟨a, hfirst, (hnear.eq_of_alike hkeep halike).2⟩

namespace Calculator

/-! ## Constructors -/

theorem lastToken?_bareAll (φ : Nat → Nat) (parts : List (Tree Kind)) :
    lastToken? (Tree.bareAll φ parts) = lastToken? parts := by
  have hsignificant :
      Tree.isSignificant ∘ Tree.bare φ = (Tree.isSignificant : Tree Kind → Bool) := by
    funext t
    exact Tree.isSignificant_bare φ t
  have htoken : Tree.token? ∘ Tree.bare φ = (Tree.token? : Tree Kind → Option Token) := by
    funext t
    exact Tree.token?_bare φ t
  rw [lastToken?_eq, lastToken?_eq, Tree.bareAll_eq_map, List.filter_map, hsignificant,
    List.filter_filter, List.filterMap_map, htoken]
  simp only [Bool.and_self]

/-- Both constructors look at significant tokens and at nodes only. -/
theorem registry_blind : registry.Blind := by
  intro φ m m' parts parts' span span' hkind hparts
  have hbuilt : ∀ kind : Kind, Tree.bare id (.node (.element kind) span' parts') =
      Tree.bare φ (.node (.element kind) span parts) := by
    intro kind
    rw [Tree.bare_element, Tree.bare_element, hparts]
  unfold Registry.construct
  rw [hkind]
  cases hget : registry.get? m.kind with
  | none => exact congrArg Except.ok (hbuilt m.kind)
  | some constructor =>
      rcases constructor_cases hget with rfl | rfl
      · have hlast : lastToken? parts' = lastToken? parts := by
          rw [← lastToken?_bareAll id, hparts, lastToken?_bareAll]
        simp only [groupConstructor, hlast]
        cases (lastToken? parts).map (·.text) == some ")" with
        | true => exact congrArg Except.ok (hbuilt .group)
        | false => rfl
      · have hfirst : (parts'.find? Tree.isNode).bind Tree.elementKind? =
            (parts.find? Tree.isNode).bind Tree.elementKind? := by
          have h := congrArg (fun ts => (ts.find? Tree.isNode).bind Tree.elementKind?) hparts
          simpa [Tree.find?_isNode_bareAll, Option.bind_map, Function.comp_def] using h
        simp only [assignConstructor, hfirst]
        cases (parts.find? Tree.isNode).bind Tree.elementKind? == some .name with
        | true => exact congrArg Except.ok (hbuilt .assign)
        | false => rfl

/-! ## Programs -/

/-- Leaving out tokens that are trivia leaves what is marked and reported where it is. -/
theorem run_filter {keep : Token → Bool} (hkeep : ∀ t : Token, t.isTrivia = false → keep t = true)
    {tokens : List Token} {n : Nest} (hcloses : n.Closes tokens) (options : SessionOptions)
    (traced : Bool) :
    let φ := placeAmong keep tokens
    let full := run tokens options traced
    let thin := run (tokens.filter keep) options traced
    thin.tokens = (tokens.filter keep).toArray ∧
      thin.completed = full.completed.map (Marker.rebase φ) ∧
      thin.errors = full.errors.map (ParseError.rebase φ) ∧
      ∀ e ∈ full.errors, KeptAt keep tokens e.index := by
  intro φ full thin
  obtain ⟨hended, hended'⟩ : Session.ended tokens = tokens ∧
      Session.ended (tokens.filter keep) = tokens.filter keep := by
    obtain ⟨body, e, rfl, he⟩ := hcloses.exists_append
    simp [Session.ended, he, hkeep e (Token.isTrivia_of_kind he rfl)]
  let L : Lockstep Kind := Lockstep.thinned keep hkeep tokens ⟨n, hcloses⟩
  have hstart : L.Close 0 (.start tokens options traced)
      (.start (tokens.filter keep) options traced) := by
    refine Lockstep.Follows.start (by rw [hended]; rfl) (by rw [hended']; rfl) ?_ rfl rfl rfl
      options traced
    rw [hended, hended']
    exact ⟨rfl, n, hcloses⟩
  obtain ⟨t, rounds, hread, _, habreast, hend⟩ :=
    statements_follow hstart (Nat.le_refl _) (Nat.le_refl _)
  -- the input is over on both sides
  have hkind : t.current.kind = .eof := by
    have hnear := Lockstep.near_of_meeting habreast.rests
    have hcurrent := habreast.current
    rw [Session.rest_cons habreast.close.cursor_lt.1, Session.rest_cons habreast.close.cursor_lt.2]
      at hnear
    rw [(Thinned.eq_of_alike hkeep hnear hcurrent).1]
    exact hend
  have hthin : thin = t :=
    hread.trans (statements_eof (Token.isTrivia_of_kind hkind rfl) hkind _)
  have hmarker : L.marker = Marker.rebase φ := by
    funext m
    simp [Lockstep.marker, Marker.rebase, L, Lockstep.thinned, φ]
  refine ⟨?_, ?_, ?_, fun e he => Lockstep.keptAt_of_sited (habreast.sited e he)⟩
  · rw [hthin]
    exact habreast.right
  · rw [hthin, ← hmarker]
    exact habreast.completed
  · rw [hthin]
    exact habreast.errors

/-- **Programs are read and built alike with and without trivia.**  For every text, and whether
whitespace and comments are kept or not: the same errors are reported, at the same tokens; both
trees are valid or neither is; and without trivia and the spans of nodes it is the same tree.
Indices of tokens are those among the tokens that are kept. -/
theorem run_ignores_trivia (source : String) (whitespace comments : Bool)
    (options : SessionOptions) (traced : Bool) :
    let tokens := tokenize source config none
    let place := placeAmong (fun t => (config.withTrivia whitespace comments).keeps t.kind) tokens
    let full := run tokens options traced
    let thin := run (tokenize source (config.withTrivia whitespace comments) none) options traced
    thin.errors = full.errors.map (fun e => { e with index := place e.index }) ∧
      (treeOf thin).valid = (treeOf full).valid ∧
      (treeOf thin).root.bare id = (treeOf full).root.bare place := by
  intro tokens place full thin
  let kept (t : Token) : Bool := (config.withTrivia whitespace comments).keeps t.kind
  have hkeep : ∀ t : Token, t.isTrivia = false → kept t = true := by
    intro t ht
    cases hkind : t.kind <;> simp_all [kept, Token.isTrivia, TokenKind.isTrivia, Config.keeps]
  have htokens :
      tokenize source (config.withTrivia whitespace comments) none = tokens.filter kept := by
    rw [tokenize_withTrivia]
    apply List.filter_congr
    intro t _
    exact (Config.keeps_withTrivia config whitespace comments t.kind).symm
  obtain ⟨body, stop, hbody, hfollow, _⟩ := tokenize_nested source config none
  have hcloses : Nest.Closes [] tokens := by
    rw [show tokens = body ++ [Token.eof stop] from hbody]
    exact Nest.closes_append hfollow rfl
  obtain ⟨hright, hcompleted, herrors, hkept⟩ := run_filter hkeep hcloses options traced
  have hthin : thin = run (tokens.filter kept) options traced := by simp only [thin, htokens]
  rw [← hthin] at hright hcompleted herrors
  obtain ⟨ps, hgrows⟩ := grows_program (Session.ready_start tokens options traced)
  have hstart : (Session.start tokens options traced : Session Kind).tokens = tokens.toArray :=
    congrArg List.toArray (ended_tokenize source)
  have hleft : full.tokens = tokens.toArray := hgrows.tokens.trans hstart
  have hrow : Plot.Row 0 tokens.length ps := by
    have hwhole := hgrows.row_whole rfl
    rwa [hgrows.tokens, hstart, List.size_toArray] at hwhole
  have hgrounded : ∀ p ∈ ps, p.Grounded .expressionStatement tokens.toArray := by
    have hgood := hgrows.good
    rwa [hstart] at hgood
  have hbuild := bare_build registry_blind registry_keeps.1 {} hkeep hrow hgrounded
    (hgrows.perm rfl) (hgrows.ids rfl) hkept
  refine ⟨herrors, ?_⟩
  rw [treeOf, treeOf, hright, hcompleted, herrors, hleft]
  exact hbuild.symm

/-- The blank and the comment are gone, and the missing operand is reported at the third token. -/
example :
    let tokens := tokenize "1 /**/+" config none
    (parseTree "1 /**/+").root.bare (placeAmong (fun t => !t.isTrivia) tokens) =
      .node .root (.empty 0)
        [.node (.element .expressionStatement) (.empty 0)
          [.node (.element .number) (.empty 0) [.leaf ⟨.literal (.integer .dec), "1", ⟨0, 1⟩⟩],
            .leaf ⟨.operator, "+", ⟨6, 7⟩⟩],
          .node (.error "expected expression" (some 2)) (.empty 7) []] := by
  cbv

end Calculator

end Lossless
