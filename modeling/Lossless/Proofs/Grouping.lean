import Lossless.Proofs.Writing

/-!
# Expressions are grouped as they are written

The parser is given the tokens of an expression and completes markers.  These markers are
**placed as the expression is nested** (`Placed`): the marker of an operation stands around
those of its operands, and what is left of its tokens are the tokens of the operator.

The parser reads the operands that stand in front of operators in a loop and all others by
calling itself.  So the induction over an expression follows its left edge
(`spine_reads`), where an operand in front of an operator is what the loop has read so far; all
other operands are one level deeper, and **as many levels as the expression is deep suffice**
(`readsWritten_expressionAt`).
-/

namespace Lossless

namespace Calculator

open ExpressionGrammar

/-! ## Parts and their places -/

/-- A part of an expression: a token, or an operand. -/
inductive Part where
  | token (l : Lexeme)
  | operand (w : Written)

namespace Written

/-- The parts of an expression, in order. -/
def parts : Written → List Part
  | atom a => [.token a.token]
  | group x => [.token (bracketToken "("), .operand x, .token (bracketToken ")")]
  | before op x => [.token (operatorToken op.1.1), .operand x]
  | between op x y => [.operand x, .token (operatorToken op.1.1), .operand y]
  | choice x y z =>
    [.operand x, .token (operatorToken "?"), .operand y, .token (operatorToken ":"), .operand z]

/-- The kind of element that an expression is. -/
def kind : Written → Kind
  | atom a => a.kind
  | group _ => .group
  | before op _ => op.1.2.kind
  | between op _ _ => op.1.2.kind
  | choice _ _ _ => .cond

end Written

mutual

/-- A plot stands where an expression stands among the tokens, and so do those inside of it. -/
inductive Placed (tokens : Array Token) : Written → Plot Kind → Prop
  | mk {w : Written} {m : Marker Kind} {ps : List (Plot Kind)} (hkind : m.kind = w.kind)
      (hparts : PlacedParts tokens m.start m.stop w.parts ps) : Placed tokens w (.mk m ps)

/-- Plots stand where the operands among some parts stand, between two indices of tokens, and
the other parts are the tokens around them. -/
inductive PlacedParts (tokens : Array Token) :
    Nat → Nat → List Part → List (Plot Kind) → Prop
  | nil {i k : Nat} (hle : i ≤ k) (htrivia : significantBetween tokens i k = []) :
      PlacedParts tokens i k [] []
  | token {i j k : Nat} {t : Token} {parts : List Part} {ps : List (Plot Kind)} (hle : i ≤ j)
      (ht : significantBetween tokens i j = [t]) (hkind : t.kind ≠ .eof)
      (hrest : PlacedParts tokens j k parts ps) :
      PlacedParts tokens i k (.token t.lexeme :: parts) ps
  | operand {i k : Nat} {w : Written} {p : Plot Kind} {parts : List Part} {ps : List (Plot Kind)}
      (hle : i ≤ p.marker.start) (htrivia : significantBetween tokens i p.marker.start = [])
      (hp : Placed tokens w p) (hrest : PlacedParts tokens p.marker.stop k parts ps) :
      PlacedParts tokens i k (.operand w :: parts) (p :: ps)

end

section Places

variable {tokens : Array Token}

mutual

theorem Placed.start_le_stop : ∀ {w : Written} {p : Plot Kind}, Placed tokens w p →
    p.marker.start ≤ p.marker.stop
  | _, _, .mk _ hparts => hparts.le

theorem PlacedParts.le : ∀ {i k : Nat} {parts : List Part} {ps : List (Plot Kind)},
    PlacedParts tokens i k parts ps → i ≤ k
  | _, _, _, _, .nil hle _ => hle
  | _, _, _, _, .token hle _ _ hrest => Nat.le_trans hle hrest.le
  | _, _, _, _, .operand hle _ hp hrest =>
      Nat.le_trans hle (Nat.le_trans hp.start_le_stop hrest.le)

end

/-- There may be trivia in front of the first part. -/
theorem PlacedParts.behind_trivia {i j k : Nat} {parts : List Part} {ps : List (Plot Kind)}
    (h : PlacedParts tokens j k parts ps) (hle : i ≤ j)
    (htrivia : significantBetween tokens i j = []) : PlacedParts tokens i k parts ps := by
  cases h with
  | nil hle' htrivia' =>
      refine .nil (Nat.le_trans hle hle') ?_
      rw [← significantBetween_append tokens hle hle', htrivia, htrivia', List.append_nil]
  | token hle' ht hkind hrest =>
      refine .token (Nat.le_trans hle hle') ?_ hkind hrest
      rw [← significantBetween_append tokens hle hle', htrivia, ht, List.nil_append]
  | operand hle' htrivia' hp hrest =>
      refine .operand (Nat.le_trans hle hle') ?_ hp hrest
      rw [← significantBetween_append tokens hle hle', htrivia, htrivia', List.append_nil]

theorem PlacedParts.append {j k : Nat} {parts' : List Part} {ps' : List (Plot Kind)}
    (h' : PlacedParts tokens j k parts' ps') : ∀ {i : Nat} {parts : List Part}
    {ps : List (Plot Kind)}, PlacedParts tokens i j parts ps →
    PlacedParts tokens i k (parts ++ parts') (ps ++ ps')
  | _, _, _, .nil hle htrivia => h'.behind_trivia hle htrivia
  | _, _, _, .token hle ht hkind hrest => .token hle ht hkind (h'.append hrest)
  | _, _, _, .operand hle htrivia hp hrest => .operand hle htrivia hp (h'.append hrest)

end Places

/-! ## What is read -/

/-- From one session to another parts of an expression are read, and those markers are
completed that belong to the operands among them. -/
structure Gathers (s s' : Session Kind) (rest : List Token) (parts : List Part)
    (ps : List (Plot Kind)) : Prop where
  arrives : Arrives [] s s' rest
  tokens : s'.tokens = s.tokens
  records : s.Records s' (Plot.markers ps)
  placed : PlacedParts s.tokens s.cursor s'.cursor parts ps

/-- From one session to another an expression is read, from the first significant token on. -/
structure Regains (s s' : Session Kind) (rest : List Token) (w : Written) (p : Plot Kind) :
    Prop where
  arrives : Arrives [] s s' rest
  tokens : s'.tokens = s.tokens
  records : s.Records s' (Plot.markers [p])
  start : p.marker.start = s.skipTrivia.cursor
  stop : p.marker.stop = s'.cursor
  placed : Placed s.tokens w p

section Gathering

variable {s s₁ s' : Session Kind} {t : Token} {rest rest' : List Token}
  {parts parts' : List Part} {ps ps' : List (Plot Kind)}

theorem Gathers.trans (h : Gathers s s₁ rest parts ps) (h' : Gathers s₁ s' rest' parts' ps') :
    Gathers s s' rest' (parts ++ parts') (ps ++ ps') := by
  refine ⟨h.arrives.trans h'.arrives, h'.tokens.trans h.tokens, ?_, ?_⟩
  · rw [Plot.markers_append]
    exact h.records.append h'.records
  · have hplaced := h'.placed
    rw [h.tokens] at hplaced
    exact hplaced.append h.placed

theorem gathers_skipTrivia (h : Lexed [] s) (hahead : s.ahead = rest) :
    Gathers s s.skipTrivia rest [] [] := by
  have hfirst := h.within.ready.skipTrivia_first
  exact ⟨h.arrives_skipTrivia hahead, rfl, .nil rfl (Nat.le_refl _), .nil hfirst.le
    (significantBetween_trivia hfirst.le (Nat.le_of_lt hfirst.lt_size) hfirst.trivia)⟩

/-- Moving past a token. -/
theorem gathers_advance (h : Lexed [] s) (hcurrent : s.current.isTrivia = false)
    (hahead : s.ahead = t :: rest) (hplain : t.kind.isStringPart = false ∧ t.kind ≠ .eof) :
    Gathers s s.advance rest [.token t.lexeme] [] := by
  obtain ⟨rfl, harrives⟩ := h.take rfl hcurrent hahead hplain
  obtain ⟨_, hadvance⟩ := h.within.ready.advance_eq hplain.2
  have hcursor : s.advance.cursor = s.cursor + 1 := by rw [hadvance]
  have htoken : significantBetween s.tokens s.cursor (s.cursor + 1) = [s.current] := by
    have hsignificant : (tokenIn s.tokens s.cursor).isTrivia = false := hcurrent
    rw [significantBetween_succ h.within.ready.cursor_lt]
    simp only [List.filter_cons, hsignificant, Bool.not_false, if_true, List.filter_nil]
    rfl
  refine ⟨harrives, by rw [hadvance], .nil (by rw [hadvance]) (by rw [hadvance]), ?_⟩
  rw [hcursor]
  exact .token (Nat.le_succ _) htoken hplain.2
    (.nil (Nat.le_refl _) (significantBetween_of_le _ (Nat.le_refl _)))

/-- Moving past a token that is expected and there. -/
theorem gathers_expect (h : Lexed [] s) (hahead : s.ahead = t :: rest) {kind : TokenKind}
    {text : String} (ht : t.Is kind text) (hmay : Operators.mayOperate t = true) :
    ∃ s', s.expect (.text text) = (true, s') ∧ Gathers s s' rest [.token t.lexeme] [] := by
  have hskip := gathers_skipTrivia h hahead
  have hsignificant := h.within.ready.current_skipTrivia
  have hcurrent := hskip.arrives.lexed.within.current_eq hsignificant hskip.arrives.ahead
  have hmet : s.expect (.text text) = (true, s.skipTrivia.advance) := by
    have hholds := ht.holds (hasOwnText_of_mayOperate hmay)
    rw [← hcurrent] at hholds
    simp [Session.expect, Session.eat, hholds]
  exact ⟨_, hmet, hskip.trans (gathers_advance hskip.arrives.lexed hsignificant
    hskip.arrives.ahead (plain_of_mayOperate hmay))⟩

/-- An operand that is read is one part. -/
theorem Regains.gathers {w : Written} {p : Plot Kind} (h : Regains s s' rest w p)
    (hs : s.Ready) : Gathers s s' rest [.operand w] [p] := by
  have hfirst := hs.skipTrivia_first
  refine ⟨h.arrives, h.tokens, h.records, ?_⟩
  rw [← h.stop]
  refine .operand ?_ ?_ h.placed
    (.nil (Nat.le_refl _) (significantBetween_of_le _ (Nat.le_refl _)))
  · rw [h.start]
    exact hfirst.le
  · rw [h.start]
    exact significantBetween_trivia hfirst.le (Nat.le_of_lt hfirst.lt_size) hfirst.trivia

/-- An expression that begins at the cursor, once all its parts are read. -/
theorem Gathers.complete {w : Written} (h : Gathers (s.openAt s.cursor none).2 s' rest w.parts ps)
    (hcurrent : s.current.isTrivia = false) :
    Regains s (s'.complete s.mark.1 w.kind).2 rest w (.mk (s'.complete s.mark.1 w.kind).1 ps) := by
  have hle : s.cursor ≤ s'.cursor := h.placed.le
  have hmarker := complete_fst (s := s') (m := s.mark.1) w.kind hle
  have hnone : s.Records s [] := .nil rfl (Nat.le_refl _)
  refine ⟨(h.arrives.complete _ _).opened, h.tokens, ?_, ?_, ?_, ?_⟩
  · rw [Plot.markers_cons, Plot.markers_nil, List.append_nil]
    exact hnone.complete h.records rfl rfl rfl _
  · rw [hmarker, Session.skipTrivia_eq_self hcurrent]
    rfl
  · rw [hmarker]
    rfl
  · rw [hmarker]
    exact .mk rfl h.placed

/-- An expression whose first operand was read before, once its other parts are read. -/
theorem Gathers.wrap {s₀ : Session Kind} {w x : Written} {p : Plot Kind}
    (hx : Regains s₀ s₁ rest x p)
    (h : Gathers (s₁.skipTrivia.openAt p.marker.start (some p.marker.id)).2 s' rest' parts ps)
    (hs₁ : s₁.Ready) (hparts : w.parts = .operand x :: parts) :
    let m := (s₁.skipTrivia.precede p.marker).1
    Regains s₀ (s'.complete m w.kind).2 rest' w (.mk (s'.complete m w.kind).1 (p :: ps)) := by
  intro m
  have hfirst := hs₁.skipTrivia_first
  have hle : s₁.skipTrivia.cursor ≤ s'.cursor := h.placed.le
  have hstart : p.marker.start ≤ s₁.cursor := hx.stop ▸ hx.placed.start_le_stop
  have hmarker := complete_fst (s := s') (m := m) w.kind
    (Nat.le_trans hstart (Nat.le_trans hfirst.le hle))
  have hskip := hx.arrives.trans (hx.arrives.lexed.arrives_skipTrivia hx.arrives.ahead)
  refine ⟨hskip.trans (h.arrives.complete _ _).opened, h.tokens.trans hx.tokens, ?_, ?_, ?_, ?_⟩
  · have hsplit : Plot.markers (p :: ps) = Plot.markers [p] ++ Plot.markers ps := by
      rw [← Plot.markers_append, List.singleton_append]
    rw [Plot.markers_cons, Plot.markers_nil, List.append_nil, hsplit]
    exact hx.records.complete h.records rfl rfl rfl _
  · rw [hmarker]
    exact hx.start
  · rw [hmarker]
    rfl
  · rw [hmarker]
    refine .mk rfl ?_
    have hplaced : PlacedParts s₀.tokens s₁.skipTrivia.cursor s'.cursor parts ps :=
      hx.tokens ▸ h.placed
    have htrivia : significantBetween s₀.tokens s₁.cursor s₁.skipTrivia.cursor = [] := by
      rw [← hx.tokens]
      exact significantBetween_trivia hfirst.le (Nat.le_of_lt hfirst.lt_size) hfirst.trivia
    rw [hparts]
    refine .operand (Nat.le_refl _) (significantBetween_of_le _ (Nat.le_refl _)) hx.placed ?_
    rw [hx.stop]
    exact hplaced.behind_trivia hfirst.le htrivia

end Gathering

/-! ## Operands -/

/-- A way to read expressions, by the least power of their operators: it reads those that are at
most `levels` deep and whose operators respect their powers, if what follows binds too loosely
to be part of them. -/
def ReadsWritten (levels : Nat) (inner : Inner) : Prop :=
  ∀ (least : Nat) (s : Session Kind) (w : Written) (us rest : List Token), Lexed [] s →
    w.Ranked → w.depth ≤ levels → w.SpelledBy us → s.ahead = us ++ rest →
    (∀ q ∈ w.leftPowers, least ≤ q) → (∀ q ∈ least :: w.rightPowers, Looser q rest) →
    ∃ p s', inner least s = (some p.marker, s') ∧ Regains s s' rest w p

section Operands

variable {levels : Nat} {inner : Inner} {s : Session Kind} {rest : List Token}

theorem lexeme_of_is {t : Token} {kind : TokenKind} {text : String} (h : t.Is kind text) :
    t.lexeme = ⟨kind, text.toList⟩ := by
  rw [Token.lexeme, h.1, h.2]

/-- At the token of an atom an element of this token alone is read. -/
theorem atom_eq_single (a : Atom) (h : s.current.lexeme = a.token) :
    atom inner s = (some (single a.kind s).1, (single a.kind s).2) := by
  have hadmitted := a.isAtom.admitted
  rw [← h] at hadmitted
  unfold atomKind? at hadmitted
  have hkind : s.current.lexeme.kind = s.current.kind := rfl
  unfold atom
  rw [hkind] at hadmitted
  split at hadmitted <;> rename_i heq <;> simp only [heq]
  · rw [← Option.some.inj hadmitted]
  · rw [← Option.some.inj hadmitted]
  · rw [← Option.some.inj hadmitted]
  · rw [← Option.some.inj hadmitted]
  · split at hadmitted
    · rw [← Option.some.inj hadmitted]
    · cases hadmitted
  · cases hadmitted

theorem operand_atom_regains (a : Atom) (h : Lexed [] s) (hcurrent : s.current.isTrivia = false)
    {us : List Token} (hus : (Written.atom a).SpelledBy us) (hahead : s.ahead = us ++ rest) :
    ∃ p s', grammar.operand inner s = (some p.marker, s') ∧ Regains s s' rest (.atom a) p := by
  obtain ⟨t, rfl, ht⟩ := hus.atom
  obtain rfl : s.current = t := h.within.current_eq hcurrent hahead
  have hleaf := a.isLeaf ht
  have hgathers := gathers_advance (h.openAt s.cursor none) hcurrent hahead hleaf.plain
  rw [ht] at hgathers
  obtain ⟨u, us, heq, _, hbefore⟩ := (Derives.leaf hleaf).atom_head
  obtain ⟨rfl, _⟩ := List.cons.inj heq
  rw [operand_atom hbefore, atom_eq_single a ht]
  exact ⟨_, _, rfl, hgathers.complete (w := .atom a) hcurrent⟩

theorem operand_group_regains (hinner : ReadsWritten levels inner) {x : Written} (h : Lexed [] s)
    (hcurrent : s.current.isTrivia = false) (hranked : x.Ranked) (hdepth : x.depth ≤ levels)
    {us : List Token} (hus : (Written.group x).SpelledBy us) (hahead : s.ahead = us ++ rest) :
    ∃ p s', grammar.operand inner s = (some p.marker, s') ∧ Regains s s' rest (.group x) p := by
  obtain ⟨opener, vs, closer, rfl, hopener, hvs, hcloser⟩ := hus.group
  obtain ⟨u, us, heq, _, hbefore⟩ := (Derives.group hopener hvs.derives hcloser).atom_head
  obtain ⟨rfl, _⟩ := List.cons.inj heq
  simp only [List.cons_append, List.append_assoc] at hahead
  obtain rfl : s.current = opener := h.within.current_eq hcurrent hahead
  have hopening := gathers_advance (h.openAt s.cursor none) hcurrent hahead
    (plain_of_mayOperate (by simp [Operators.mayOperate, hopener.1]))
  have hends : Ends (closer :: rest) := ⟨closer, rest, rfl, continuingPower?_closer hcloser⟩
  obtain ⟨p, s₁, hread, hx⟩ := hinner 0 _ x vs (closer :: rest) hopening.arrives.lexed hranked
    hdepth hvs hopening.arrives.ahead (fun q _ => Nat.zero_le q) (fun q _ => hends.looser q)
  have hinside := hopening.trans (hx.gathers hopening.arrives.lexed.within.ready)
  obtain ⟨s₂, hmet, hclosing⟩ := gathers_expect hinside.arrives.lexed hinside.arrives.ahead hcloser
    (by simp [Operators.mayOperate, hcloser.1])
  have hall := hinside.trans hclosing
  rw [lexeme_of_is hopener, lexeme_of_is hcloser] at hall
  have hatom : atom inner s = (some (group inner s).1, (group inner s).2) := by
    simp only [atom, hopener.1]
  refine ⟨_, _, ?_, hall.complete (w := .group x) hcurrent⟩
  rw [operand_atom hbefore, hatom, group_eq, hread]
  simp only [hmet]
  rfl

/-- Opening a marker, moving past a token and reading an operand. -/
theorem ReadsWritten.behind_open (hinner : ReadsWritten levels inner) (h : Lexed [] s)
    (hcurrent : s.current.isTrivia = false) {t : Token} {x : Written} {us : List Token}
    (hmay : Operators.mayOperate t = true) (hranked : x.Ranked) (hdepth : x.depth ≤ levels)
    (hus : x.SpelledBy us) (hahead : s.ahead = t :: (us ++ rest)) {least : Nat}
    (hleft : ∀ q ∈ x.leftPowers, least ≤ q) (hright : ∀ q ∈ least :: x.rightPowers, Looser q rest)
    (start : Nat) (precedes : Option Nat) :
    ∃ p s', inner least (s.openAt start precedes).2.advance = (some p.marker, s') ∧
      Gathers (s.openAt start precedes).2 s' rest [.token t.lexeme, .operand x] [p] := by
  have hbehind := gathers_advance (h.openAt start precedes) hcurrent hahead
    (plain_of_mayOperate hmay)
  obtain ⟨p, s', hread, hx⟩ := hinner least _ x us rest hbehind.arrives.lexed hranked hdepth hus
    hbehind.arrives.ahead hleft hright
  exact ⟨p, s', hread, hbehind.trans (hx.gathers hbehind.arrives.lexed.within.ready)⟩

theorem operand_before_regains (hinner : ReadsWritten levels inner) {op : OperatorBefore}
    {x : Written} (h : Lexed [] s) (hcurrent : s.current.isTrivia = false)
    (hranked : (Written.before op x).Ranked) (hdepth : x.depth ≤ levels) {us : List Token}
    (hus : (Written.before op x).SpelledBy us) (hahead : s.ahead = us ++ rest)
    (hright : ∀ q ∈ (Written.before op x).rightPowers, Looser q rest) :
    ∃ p s', grammar.operand inner s = (some p.marker, s') ∧ Regains s s' rest (.before op x) p := by
  obtain ⟨t, vs, rfl, ht, hvs⟩ := hus.before
  have hop := before?_of_lexeme ht
  have hmay := (before?_isSome (by rw [hop]; rfl)).1
  obtain rfl : s.current = t := h.within.current_eq hcurrent hahead
  obtain ⟨p, s', hread, hgathers⟩ := hinner.behind_open h hcurrent hmay hranked.2 hdepth hvs hahead
    hranked.1 hright s.cursor none
  rw [ht] at hgathers
  rw [operand_before hop, hread]
  exact ⟨_, _, rfl, hgathers.complete (w := .before op x) hcurrent⟩

end Operands

/-! ## Operators behind an operand -/

/-- A row that begins with a token covers something. -/
theorem PlacedParts.lt_of_token {tokens : Array Token} {i k : Nat} {l : Lexeme}
    {parts : List Part} {ps : List (Plot Kind)} (h : PlacedParts tokens i k (.token l :: parts) ps) :
    i < k := by
  cases h with
  | @token _ j _ t _ _ hle ht _ hrest =>
      have hlt : i < j := by
        refine Nat.lt_of_le_of_ne hle ?_
        rintro rfl
        rw [significantBetween_of_le tokens (Nat.le_refl i)] at ht
        cases ht
      exact Nat.lt_of_lt_of_le hlt hrest.le

/-- What it takes to go on behind an operand `x`: an operator at the cursor and its other
operands are read, and make up a wider expression. -/
def Widens (inner : Inner) (s₀ s : Session Kind) (left : Marker Kind) (rest : List Token)
    (w : Written) : Prop :=
  ∃ p s', grammar.extend inner left s.skipTrivia = (some p.marker, s') ∧
    Regains s₀ s' rest w p ∧ s.cursor < s'.cursor

section Operators

variable {levels : Nat} {inner : Inner} {s₀ s : Session Kind} {rest : List Token}

theorem widens_between (hinner : ReadsWritten levels inner) {op : OperatorBetween} {x y : Written}
    {p : Plot Kind} {t : Token} {us : List Token} (hx : Regains s₀ s (t :: (us ++ rest)) x p)
    (ht : t.lexeme = operatorToken op.1.1) (hranked : (Written.between op x y).Ranked)
    (hdepth : y.depth ≤ levels) (hus : y.SpelledBy us)
    (hright : ∀ q ∈ (Written.between op x y).rightPowers, Looser q rest) :
    Widens inner s₀ s p.marker rest (.between op x y) := by
  have hs := hx.arrives.lexed.within.ready
  have hskip := hx.arrives.lexed.arrives_skipTrivia hx.arrives.ahead
  have hop := between?_of_lexeme ht
  have hsome : (operators.between? t).isSome = true := by rw [hop]; rfl
  obtain ⟨q, s', hread, hgathers⟩ := hinner.behind_open hskip.lexed hs.current_skipTrivia
    (between?_isSome hsome).1 hranked.2.2.2 hdepth hus hskip.ahead hranked.2.1 hright
    p.marker.start (some p.marker.id)
  have hcursor : s.skipTrivia.cursor < s'.cursor := hgathers.placed.lt_of_token
  rw [ht] at hgathers
  obtain rfl := hskip.lexed.within.current_eq hs.current_skipTrivia hskip.ahead
  refine ⟨_, _, ?_, hgathers.wrap (w := .between op x y) hx hs rfl,
    Nat.lt_of_le_of_lt hs.skipTrivia_first.le hcursor⟩
  rw [extend_between (ternary?_of_between? hsome) hop, hread]
  rfl

theorem widens_choice (hinner : ReadsWritten levels inner) {x y z : Written} {p : Plot Kind}
    {opener separator : Token} {us vs : List Token}
    (hx : Regains s₀ s (opener :: (us ++ separator :: (vs ++ rest))) x p)
    (hopener : opener.Is .operator "?") (hseparator : separator.Is .operator ":")
    (hranked : (Written.choice x y z).Ranked) (hdepthy : y.depth ≤ levels)
    (hdepthz : z.depth ≤ levels) (hus : y.SpelledBy us) (hvs : z.SpelledBy vs)
    (hright : ∀ q ∈ (Written.choice x y z).rightPowers, Looser q rest) :
    Widens inner s₀ s p.marker rest (.choice x y z) := by
  have hs := hx.arrives.lexed.within.ready
  have hskip := hx.arrives.lexed.arrives_skipTrivia hx.arrives.ahead
  obtain ⟨_, hrankedz, _, hy, hz⟩ := hranked
  have hends : Ends (separator :: (vs ++ rest)) :=
    ⟨separator, _, rfl, continuingPower?_separator hseparator⟩
  obtain ⟨q, s₁, hread, hsecond⟩ := hinner.behind_open hskip.lexed hs.current_skipTrivia
    (by simp [Operators.mayOperate, hopener.1]) hy hdepthy hus hskip.ahead
    (fun q _ => Nat.zero_le q) (fun q _ => hends.looser q) p.marker.start (some p.marker.id)
  obtain ⟨s₂, hmet, hexpect⟩ := gathers_expect hsecond.arrives.lexed hsecond.arrives.ahead hseparator
    (by simp [Operators.mayOperate, hseparator.1])
  obtain ⟨q', s', hread', hthird⟩ := hinner Precedence.ternary.power _ z vs rest
    hexpect.arrives.lexed hz hdepthz hvs hexpect.arrives.ahead hrankedz hright
  have hall := (hsecond.trans hexpect).trans (hthird.gathers hexpect.arrives.lexed.within.ready)
  have hcursor : s.skipTrivia.cursor < s'.cursor := hall.placed.lt_of_token
  rw [lexeme_of_is hopener, lexeme_of_is hseparator] at hall
  have hop := ternary?_of_is hopener
  obtain rfl := hskip.lexed.within.current_eq hs.current_skipTrivia hskip.ahead
  refine ⟨_, _, ?_, hall.wrap (w := .choice x y z) hx hs rfl,
    Nat.lt_of_le_of_lt hs.skipTrivia_first.le hcursor⟩
  rw [extend_ternary hop]
  simp only [ternaryOperands, hread, hmet, hread']
  rfl

end Operators

/-! ## Expressions -/

/-- An operator in front of tokens is looser than whatever has more power. -/
theorem looser_cons {t : Token} {ts : List Token} {power least : Nat}
    (hpower : operators.continuingPower? t = some power) (hlt : power < least) :
    Looser least (t :: ts) := by
  intro u hu power' hpower'
  obtain rfl := Option.some.inj hu
  obtain rfl := Option.some.inj (hpower.symm.trans hpower')
  exact hlt

section Expressions

variable {levels : Nat} {inner : Inner} {s : Session Kind} {rest : List Token} {least : Nat}

/-- Going on behind an operand comes to the same as going on behind a wider expression. -/
def GoesOver (inner : Inner) (least : Nat) (left : Marker Kind) (s : Session Kind)
    (whole : Marker Kind) (s' : Session Kind) : Prop :=
  ∀ rounds, s.remaining ≤ rounds → ∃ rounds', s'.remaining ≤ rounds' ∧
    grammar.extendWhile inner least rounds left s =
      grammar.extendWhile inner least rounds' whole s'

/-- One round of the loop takes one operator with its operands. -/
theorem GoesOver.step {left whole wider : Marker Kind} {s₀ s₁ s₂ s' : Session Kind} {t : Token}
    {us : List Token} {power : Nat} (h : GoesOver inner least left s₁ whole s₂)
    (harrives : Arrives [] s₀ s₂ (t :: us))
    (hpower : operators.continuingPower? t = some power) (hleast : least ≤ power)
    (hextend : grammar.extend inner whole s₂.skipTrivia = (some wider, s'))
    (hcursor : s₂.cursor < s'.cursor) (htokens : s'.tokens = s₂.tokens) :
    GoesOver inner least left s₁ wider s' := by
  intro rounds hrounds
  obtain ⟨rounds', hrounds', heq⟩ := h rounds hrounds
  have hs₂ := harrives.lexed.within.ready
  have hlt := hs₂.cursor_lt
  have hskip := harrives.lexed.arrives_skipTrivia harrives.ahead
  have hcurrent := hskip.lexed.within.current_eq hs₂.current_skipTrivia hskip.ahead
  have hpower' : grammar.operators.continuingPower? (s₂.nth 0) = some power := by
    rw [hs₂.nth_zero, hcurrent]
    exact hpower
  obtain ⟨n, rfl⟩ : ∃ n, rounds' = n + 1 := by
    refine ⟨rounds' - 1, ?_⟩
    simp only [Session.remaining] at hrounds'
    omega
  refine ⟨n, ?_, ?_⟩
  · simp only [Session.remaining, htokens] at hrounds' ⊢
    omega
  · rw [heq, extendWhile]
    simp only [hpower', if_pos hleast, hextend]

/-- **Along its left edge an expression is read by the loop.**  The first operand of an operator
is what was read so far, and all others are one level deeper. -/
theorem spine_reads (hinner : ReadsWritten levels inner) (w : Written) {us : List Token}
    (h : Lexed [] s) (hcurrent : s.current.isTrivia = false) (hranked : w.Ranked)
    (hdepth : w.depth ≤ levels + 1) (hus : w.SpelledBy us) (hahead : s.ahead = us ++ rest)
    (hleft : ∀ q ∈ w.leftPowers, least ≤ q) (hright : ∀ q ∈ w.rightPowers, Looser q rest) :
    ∃ left s₀ p s', grammar.operand inner s = (some left, s₀) ∧ Regains s s' rest w p ∧
      GoesOver inner least left s₀ p.marker s' := by
  have hsame : ∀ left s₀, GoesOver inner least left s₀ left s₀ :=
    fun left s₀ rounds hrounds => ⟨rounds, hrounds, rfl⟩
  induction w generalizing us rest with
  | atom a =>
      obtain ⟨p, s', hread, hp⟩ := operand_atom_regains a h hcurrent hus hahead
      exact ⟨_, _, p, s', hread, hp, hsame _ _⟩
  | group x _ =>
      simp only [Written.depth, Nat.add_le_add_iff_right] at hdepth
      obtain ⟨p, s', hread, hp⟩ := operand_group_regains hinner (x := x) h hcurrent hranked
        hdepth hus hahead
      exact ⟨_, _, p, s', hread, hp, hsame _ _⟩
  | before op x _ =>
      simp only [Written.depth, Nat.add_le_add_iff_right] at hdepth
      obtain ⟨p, s', hread, hp⟩ := operand_before_regains hinner h hcurrent hranked hdepth hus
        hahead hright
      exact ⟨_, _, p, s', hread, hp, hsame _ _⟩
  | between op x y ihx _ =>
      obtain ⟨vs, t, ws, rfl, hvs, ht, hws⟩ := hus.between
      simp only [Written.depth, Nat.max_le, Nat.add_le_add_iff_right] at hdepth
      simp only [Written.leftPowers, List.forall_mem_cons] at hleft
      simp only [List.append_assoc, List.cons_append] at hahead
      have hop := between?_of_lexeme ht
      have hpower : operators.continuingPower? t = some op.1.2.power := by
        simp [Operators.continuingPower?, ternary?_of_between? (by rw [hop]; rfl), hop]
      obtain ⟨left, s₀, p, s₁, hoperand, hx, hover⟩ := ihx hranked.2.2.1 hdepth.1 hvs hahead
        hleft.2 (fun q hq => looser_cons hpower (hranked.1 q hq))
      obtain ⟨p', s', hextend, hw, hcursor⟩ := widens_between hinner hx ht hranked hdepth.2 hws
        hright
      exact ⟨left, s₀, p', s', hoperand, hw, hover.step hx.arrives hpower hleft.1 hextend hcursor
        (hw.tokens.trans hx.tokens.symm)⟩
  | choice x y z ihx _ _ =>
      obtain ⟨vs, opener, ws, separator, zs, rfl, hvs, hopener, hws, hseparator, hzs⟩ := hus.choice
      simp only [Written.depth, Nat.max_le, Nat.add_le_add_iff_right] at hdepth
      simp only [Written.leftPowers, List.forall_mem_cons] at hleft
      simp only [List.append_assoc, List.cons_append] at hahead
      have hpower : operators.continuingPower? opener = some Precedence.ternary.power := by
        simp [Operators.continuingPower?, ternary?_of_is hopener]
      obtain ⟨left, s₀, p, s₁, hoperand, hx, hover⟩ := ihx hranked.2.2.1 hdepth.1 hvs hahead
        hleft.2 (fun q hq => looser_cons hpower (hranked.1 q hq))
      obtain ⟨p', s', hextend, hw, hcursor⟩ := widens_choice hinner hx hopener hseparator hranked
        hdepth.2.1 hdepth.2.2 hws hzs hright
      exact ⟨left, s₀, p', s', hoperand, hw, hover.step hx.arrives hpower hleft.1 hextend hcursor
        (hw.tokens.trans hx.tokens.symm)⟩

/-- The loop stops at an operator that binds too loosely. -/
theorem extendWhile_looser (h : Lexed [] s) (hahead : s.ahead = rest) (hlooser : Looser least rest)
    (left : Marker Kind) (rounds : Nat) :
    grammar.extendWhile inner least rounds left s = (left, s) := by
  cases rounds with
  | zero => rfl
  | succ rounds =>
      have hs := h.within.ready
      obtain ⟨t, ts, hts⟩ := List.exists_cons_of_ne_nil (hahead ▸ h.within.ahead_ne_nil)
      have hskip := h.arrives_skipTrivia (hahead.trans hts)
      have hcurrent := hskip.lexed.within.current_eq hs.current_skipTrivia hskip.ahead
      rw [extendWhile, hs.nth_zero, hcurrent]
      split
      · rfl
      · rename_i power hpower
        rw [if_neg (Nat.not_le.mpr (hlooser t (by rw [hts]; rfl) power hpower))]

/-- An expression is read to its end, inside one that is already open. -/
theorem expressionBody_regains (hinner : ReadsWritten levels inner) {w : Written} {us : List Token}
    (h : Lexed [] s) (hcurrent : s.current.isTrivia = false) (hranked : w.Ranked)
    (hdepth : w.depth ≤ levels + 1) (hus : w.SpelledBy us) (hahead : s.ahead = us ++ rest)
    (hleft : ∀ q ∈ w.leftPowers, least ≤ q) (hright : ∀ q ∈ least :: w.rightPowers, Looser q rest) :
    ∃ p s', grammar.expressionBody inner least s = (some p.marker, s') ∧ Regains s s' rest w p := by
  obtain ⟨left, s₀, p, s', hoperand, hw, hover⟩ := spine_reads hinner w h hcurrent hranked hdepth
    hus hahead hleft (fun q hq => hright q (List.mem_cons_of_mem _ hq))
  obtain ⟨rounds, _, hloop⟩ := hover s₀.remaining (Nat.le_refl _)
  refine ⟨p, s', ?_, hw⟩
  rw [expressionBody, hoperand]
  simp only [hloop, extendWhile_looser hw.arrives.lexed hw.arrives.ahead
    (hright least List.mem_cons_self)]

end Expressions

/-- **With as many levels as an expression is deep, it is read as it is written.** -/
theorem readsWritten_expressionAt (levels : Nat) :
    ReadsWritten levels (grammar.expressionAt levels) := by
  induction levels with
  | zero =>
      intro least s w us rest _ _ hdepth
      exact absurd hdepth (Nat.not_le.mpr w.depth_pos)
  | succ levels ih =>
      intro least s w us rest h hranked hdepth hus hahead hleft hright
      have hs := h.within.ready
      have hskip := h.arrives_skipTrivia hahead
      obtain ⟨t, ts, htokens, hstarts⟩ := hus.derives.expression_head
      have heq := hskip.lexed.within.current_eq hs.current_skipTrivia
        (by rw [hskip.ahead, htokens]; rfl)
      rw [← heq] at hstarts
      rw [expressionAt_succ hstarts]
      have hdeeper : Lexed [] { s.skipTrivia with depth := s.skipTrivia.depth + 1 } :=
        ⟨hskip.lexed.within, hskip.lexed.spelled⟩
      obtain ⟨p, s', hbody, hw⟩ := expressionBody_regains ih hdeeper hs.current_skipTrivia hranked
        hdepth hus hskip.ahead hleft hright
      rw [hbody]
      have hback : Session.skipTrivia { s.skipTrivia with depth := s.skipTrivia.depth + 1 } =
          { s.skipTrivia with depth := s.skipTrivia.depth + 1 } :=
        Session.skipTrivia_eq_self hs.current_skipTrivia
      refine ⟨p, s'.exitExpression, rfl, ⟨⟨hw.arrives.lexed.within, hw.arrives.lexed.spelled⟩,
        hw.arrives.ahead, hw.arrives.keeps.errors, hw.arrives.keeps.options, ?_⟩, hw.tokens, ?_, ?_,
        hw.stop, hw.placed⟩
      · -- the level that was entered is left again
        show s'.depth - 1 = s.depth
        rw [hw.arrives.keeps.depth]
        rfl
      · exact ⟨hw.records.completed, hw.records.opened, hw.records.ids, hw.records.nodup⟩
      · rw [hw.start, hback]

end Calculator

end Lossless
