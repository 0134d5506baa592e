import Lossless.Proofs.Growth
import Lossless.Proofs.Lookahead
import Mathlib.Order.MinMax

/-!
# Reading in lockstep

Two sessions over different tokens may read the same: the tokens of one are those of the other
without trivia, or stand behind others, or go on behind the end of its only line.  A `Lockstep`
says which places of the one belong to which places of the other, and what moving on does to
places that belong together.  **A grammar that looks at tokens only through the next significant
one keeps two such sessions in step** (`inStep_expressionAt`): it marks the same elements and
reports the same errors, at places that belong together.

Places are lists of tokens that are still to come.  Where two places are *near*, both sessions
arrive at the same token when trivia is skipped; they *meet* if they are at such a token already.
Strings are read without skipping trivia, so a lockstep has to say where sessions in a string
meet.  It counts the literals that are open at least, since the rest of a broken block is skipped
up to a token that has to be there.
-/

namespace Lossless

variable {κ : Type}

/-! ## Places that belong together -/

/-- Two tokens are taken for the same: they are, or a line ends with the input on one side and
with a line end on the other. -/
inductive Alike : Token → Token → Prop
  | same (t : Token) : Alike t t
  | lineEnd {a b : Token} (ha : a.kind = .eof) (hb : b.kind = .linebreak) : Alike a b

/-- Two places begin with tokens that are taken for the same. -/
inductive Meeting (near : List Token → List Token → Prop) : List Token → List Token → Prop
  | mk {a b : Token} {ts us : List Token} (halike : Alike a b) (hnear : near (a :: ts) (b :: us)) :
      Meeting near (a :: ts) (b :: us)

/-- A correspondence between the places of two lists of tokens, and between what is marked and
reported there.  `near k` relates places at which `k` literals are open at least. -/
structure Lockstep (κ : Type) where
  left : Array Token
  right : Array Token
  near : Nat → List Token → List Token → Prop
  /-- The index on the right of an index on the left. -/
  place : Nat → Nat
  /-- How many markers have been opened on the right before. -/
  shift : Nat
  /-- The markers completed on the right before. -/
  markers : List (Marker κ)
  /-- The errors reported on the right before. -/
  errors : List ParseError
  /-- The error on the right of an error on the left. -/
  report : ParseError → ParseError
  left_ended : (tokenIn left (left.size - 1)).kind = .eof
  right_ended : (tokenIn right (right.size - 1)).kind = .eof
  mono : Monotone place
  located : ∀ {k i j : Nat}, near k (left.toList.drop i) (right.toList.drop j) →
    i < left.size → j < right.size → j = place i
  reported : ∀ {k i : Nat} {a b : Token} {ts us : List Token}, near k (a :: ts) (b :: us) →
    Alike a b → left.toList.drop i = a :: ts → right.toList.drop (place i) = b :: us →
      ∀ message, report ⟨i, message, a.span⟩ = ⟨place i, message, b.span⟩
  weaken : ∀ {k : Nat} {ts us : List Token}, near (k + 1) ts us → near k ts us
  skip : ∀ {k : Nat} {ts us : List Token}, near k ts us →
    Meeting (near k) (ts.dropWhile (·.isTrivia)) (us.dropWhile (·.isTrivia))
  plain : ∀ {k : Nat} {a : Token} {ts us : List Token}, near k (a :: ts) (a :: us) →
    a.kind.isStringPart = false → a.kind ≠ .eof → near k ts us
  opening : ∀ {k : Nat} {a : Token} {ts us : List Token} {style : StringStyle},
    near k (a :: ts) (a :: us) → a.kind = .string (.opening style) → Meeting (near (k + 1)) ts us
  closing : ∀ {k : Nat} {a : Token} {ts us : List Token} {style : StringStyle},
    near (k + 1) (a :: ts) (a :: us) → a.kind = .string (.closing style) → near k ts us
  blockOpen : ∀ {k : Nat} {a : Token} {ts us : List Token}, near k (a :: ts) (a :: us) →
    a.kind = .string .blockOpen → near k ts us
  piece : ∀ {k : Nat} {a : Token} {ts us : List Token} {part : StringPart},
    near k (a :: ts) (a :: us) → a.kind = .string part →
    part = .basic ∨ part = .escaped ∨ part = .nameMark ∨ part = .blockClose →
      Meeting (near k) ts us
  name : ∀ {k : Nat} {a n : Token} {ts us : List Token}, near k (a :: n :: ts) (a :: n :: us) →
    a.kind = .string .nameMark → n.kind = .identifier → Meeting (near k) ts us
  line : ∀ {ts us : List Token}, near 0 ts us → Meeting (near 0)
    (ts.dropWhile (!Session.endsLine ·)) (us.dropWhile (!Session.endsLine ·))
  block : ∀ {k : Nat} {ts us : List Token}, near (k + 1) ts us → Meeting (near (k + 1))
    (ts.dropWhile (!Calculator.endsBlock ·)) (us.dropWhile (!Calculator.endsBlock ·))

theorem Token.kind_ne_eof_of_string {t : Token} {part : StringPart} (h : t.kind = .string part) :
    t.kind ≠ .eof := by
  rw [h]
  simp [TokenKind.string]

/-- A session that has gone on needs a round less. -/
theorem Session.remaining_le {s s' : Session κ} {rounds : Nat} (htokens : s'.tokens = s.tokens)
    (hlt : s.cursor < s'.cursor) (hrounds : s.remaining ≤ rounds + 1) : s'.remaining ≤ rounds := by
  rw [remaining] at hrounds ⊢
  rw [htokens]
  omega

theorem Operators.mayOperate_of_continuingPower? (ops : Operators κ) {t : Token} {power : Nat}
    (h : ops.continuingPower? t = some power) : mayOperate t = true := by
  by_contra hnot
  simp [continuingPower?, ternary?, between?, after?, hnot] at h

namespace Alike

variable {a b : Token}

theorem eq (h : Alike a b) (hkind : a.kind ≠ .eof) : b = a := by
  cases h with
  | same => rfl
  | lineEnd ha _ => exact absurd ha hkind

theorem kind_eq_iff (h : Alike a b) {kind : TokenKind} (hline : kind ≠ .linebreak)
    (heof : kind ≠ .eof) : b.kind = kind ↔ a.kind = kind := by
  cases h with
  | same => rfl
  | lineEnd ha hb => simp [ha, hb, hline.symm, heof.symm]

theorem endsLine_eq (h : Alike a b) : Session.endsLine b = Session.endsLine a := by
  cases h with
  | same => rfl
  | lineEnd ha hb => simp [Session.endsLine, ha, hb]

theorem continuingPower?_eq (h : Alike a b) (ops : Operators κ) :
    ops.continuingPower? b = ops.continuingPower? a := by
  cases h with
  | same => rfl
  | lineEnd ha hb =>
      simp [Operators.continuingPower?, Operators.ternary?, Operators.between?, Operators.after?,
        Operators.mayOperate, ha, hb]

end Alike

theorem Expectation.kind_of_holds {kind : TokenKind} {t : Token}
    (h : (Expectation.kind kind).holds t = true) : t.kind = kind := by
  simpa [Expectation.holds] using h

/-- What is recognised by its text is no piece of a string. -/
theorem Expectation.isStringPart_of_text {text : String} {t : Token}
    (h : (Expectation.text text).holds t = true) : t.kind.isStringPart = false := by
  cases hkind : t.kind <;>
    simp_all [Expectation.holds, Expectation.hasOwnText, TokenKind.isStringPart]

/-- Something that a grammar looks for and that is no end of a line. -/
def Expectation.Inline : Expectation → Prop
  | .text _ => True
  | .kind k => k ≠ .linebreak ∧ k ≠ .eof

theorem Expectation.Inline.kind_ne_eof {e : Expectation} (he : e.Inline) {t : Token}
    (h : e.holds t = true) : t.kind ≠ .eof := by
  intro heof
  cases e with
  | text text => simp [Expectation.holds, Expectation.hasOwnText, heof] at h
  | kind k =>
      exact he.2 ((Expectation.kind_of_holds h).symm.trans heof)

theorem Expectation.Inline.holds_eq {e : Expectation} (he : e.Inline) {a b : Token}
    (h : Alike a b) : e.holds b = e.holds a := by
  cases h with
  | same => rfl
  | lineEnd ha hb =>
      cases e with
      | text text => simp [Expectation.holds, Expectation.hasOwnText, ha, hb]
      | kind k => simp [Expectation.holds, ha, hb, Ne.symm he.1, Ne.symm he.2]

/-! ## Sessions in step -/

namespace Lockstep

variable (L : Lockstep κ)

/-- The marker on the right of a marker on the left. -/
def marker (m : Marker κ) : Marker κ where
  id := m.id + L.shift
  start := L.place m.start
  stop := L.place m.stop
  kind := m.kind
  precedes := m.precedes.map (· + L.shift)

/-- An index at which both sides meet. -/
def Sited (i : Nat) : Prop :=
  ∃ k, Meeting (L.near k) (L.left.toList.drop i) (L.right.toList.drop (L.place i))

/-- Two sessions are in step: what the one has marked and reported is what the other has, at the
places that belong to it, and they stand at places that are related. -/
structure Follows (related : List Token → List Token → Prop) (s t : Session κ) : Prop where
  left : s.tokens = L.left
  right : t.tokens = L.right
  options : t.options = s.options
  depth : t.depth = s.depth
  rests : related s.rest t.rest
  opened : t.opened = s.opened + L.shift
  completed : t.completed = L.markers ++ s.completed.map L.marker
  errors : t.errors = L.errors ++ s.errors.map L.report
  sited : ∀ e ∈ s.errors, L.Sited e.index

/-- Two sessions in step that are near each other, with `k` literals open. -/
abbrev Close (k : Nat) (s t : Session κ) : Prop := L.Follows (L.near k) s t

/-- Two sessions in step that meet, with `k` literals open. -/
abbrev Abreast (k : Nat) (s t : Session κ) : Prop := L.Follows (Meeting (L.near k)) s t

/-- Two steps with a result agree: both succeed, or both fail, and then the sessions meet. -/
inductive Matched (k : Nat) : Bool × Session κ → Bool × Session κ → Prop
  | failed {s t : Session κ} (h : L.Abreast k s t) : Matched k (false, s) (false, t)
  | done {s t : Session κ} (h : L.Close k s t) : Matched k (true, s) (true, t)

/-- Two open markers that belong together. -/
structure Opens (o o' : OpenMarker) : Prop where
  id : o'.id = o.id + L.shift
  start : o'.start = L.place o.start
  precedes : o'.precedes = o.precedes.map (· + L.shift)

variable {L} {P Q : List Token → List Token → Prop} {k : Nat} {s t : Session κ}

theorem ne_nil_of_near {ts us : List Token} (h : L.near k ts us) : ts ≠ [] ∧ us ≠ [] := by
  have hmeeting := L.skip h
  constructor
  · rintro rfl
    cases hmeeting
  · rintro rfl
    generalize ts.dropWhile (·.isTrivia) = ts' at hmeeting
    cases hmeeting

theorem meeting_weaken {ts us : List Token} (h : Meeting (L.near (k + 1)) ts us) :
    Meeting (L.near k) ts us := by
  cases h with
  | mk halike hnear => exact .mk halike (L.weaken hnear)

theorem near_of_meeting {ts us : List Token} (h : Meeting (L.near k) ts us) : L.near k ts us := by
  cases h with
  | mk _ hnear => exact hnear

namespace Follows

/-- Two sessions start in step, if nothing has come before on the right. -/
theorem start {tokens tokens' : List Token} (hleft : (Session.ended tokens).toArray = L.left)
    (hright : (Session.ended tokens').toArray = L.right)
    (hnear : L.near k (Session.ended tokens) (Session.ended tokens')) (hshift : L.shift = 0)
    (hmarkers : L.markers = []) (herrors : L.errors = []) (options : SessionOptions)
    (traced : Bool) :
    L.Close k (.start tokens options traced) (.start tokens' options traced) :=
  ⟨hleft, hright, rfl, rfl, hnear, by simp [Session.start, hshift],
    by simp [Session.start, hmarkers], by simp [Session.start, herrors], by simp [Session.start]⟩

theorem imp (h : L.Follows P s t) (himp : ∀ {ts us}, P ts us → Q ts us) : L.Follows Q s t :=
  { h with rests := himp h.rests }

theorem close (h : L.Abreast k s t) : L.Close k s t :=
  h.imp near_of_meeting

theorem weaken (h : L.Close (k + 1) s t) : L.Close k s t :=
  h.imp L.weaken

theorem cursor_lt (h : L.Close k s t) : s.cursor < s.tokens.size ∧ t.cursor < t.tokens.size := by
  have hne := ne_nil_of_near h.rests
  simp only [Session.rest, ne_eq, List.drop_eq_nil_iff, Array.length_toList, not_le] at hne
  exact hne

theorem ready_left (h : L.Close k s t) : s.Ready :=
  ⟨h.cursor_lt.1, by rw [h.left]; exact L.left_ended⟩

theorem ready_right (h : L.Close k s t) : t.Ready :=
  ⟨h.cursor_lt.2, by rw [h.right]; exact L.right_ended⟩

/-- The cursors are at indices that belong together. -/
theorem cursor_eq (h : L.Close k s t) : t.cursor = L.place s.cursor := by
  have hrests := h.rests
  have hlt := h.cursor_lt
  rw [Session.rest, Session.rest, h.left, h.right] at hrests
  rw [h.left, h.right] at hlt
  exact L.located hrests hlt.1 hlt.2

/-- Both sessions go on to other places. -/
theorem move (h : L.Follows P s t) {i j : Nat}
    (hrests : Q (s.tokens.toList.drop i) (t.tokens.toList.drop j)) :
    L.Follows Q { s with cursor := i } { t with cursor := j } :=
  ⟨h.left, h.right, h.options, h.depth, hrests, h.opened, h.completed, h.errors, h.sited⟩

theorem skipTrivia (h : L.Close k s t) : L.Abreast k s.skipTrivia t.skipTrivia := by
  apply h.move
  show Meeting _ s.skipTrivia.rest t.skipTrivia.rest
  rw [h.ready_left.rest_skipTrivia, h.ready_right.rest_skipTrivia]
  exact L.skip h.rests

theorem advanceTo (h : L.Close k s t) {stops : Token → Bool}
    (hlast : ∀ e : Token, e.kind = .eof → stops e = true)
    (hlaw : ∀ {ts us}, L.near k ts us → Q (ts.dropWhile (!stops ·)) (us.dropWhile (!stops ·))) :
    L.Follows Q (s.advanceTo stops) (t.advanceTo stops) := by
  apply h.move
  show Q (s.advanceTo stops).rest (t.advanceTo stops).rest
  rw [h.ready_left.rest_advanceTo hlast, h.ready_right.rest_advanceTo hlast]
  exact hlaw h.rests

theorem current (h : L.Abreast k s t) : Alike s.current t.current := by
  have hrests := h.rests
  rw [Session.rest_cons h.close.cursor_lt.1, Session.rest_cons h.close.cursor_lt.2] at hrests
  cases hrests with
  | mk halike _ => exact halike

/-- Unless the input is over, both sessions are at the same token. -/
theorem current_eq (h : L.Abreast k s t) (hkind : s.current.kind ≠ .eof) :
    t.current = s.current :=
  h.current.eq hkind

/-- Moving past a token takes both sessions from the places in front of it to those behind it. -/
theorem step (h : L.Follows P s t) (hs : s.Ready) (ht : t.Ready) (hsame : t.current = s.current)
    (hkind : s.current.kind ≠ .eof)
    (hlaw : ∀ {ts us}, P (s.current :: ts) (s.current :: us) → Q ts us) :
    L.Follows Q s.advance t.advance := by
  have hrests := h.rests
  rw [Session.rest_cons hs.cursor_lt, Session.rest_cons ht.cursor_lt, hsame] at hrests
  rw [(hs.advance_eq hkind).2, (ht.advance_eq (by rw [hsame]; exact hkind)).2]
  exact h.move (hlaw hrests)

theorem advance (h : L.Abreast k s t) (hkind : s.current.kind ≠ .eof)
    (hlaw : ∀ {ts us}, L.near k (s.current :: ts) (s.current :: us) → Q ts us) :
    L.Follows Q s.advance t.advance :=
  h.close.step h.close.ready_left h.close.ready_right (h.current_eq hkind) hkind hlaw

theorem advance_plain (h : L.Abreast k s t) (hkind : s.current.kind ≠ .eof)
    (hpart : s.current.kind.isStringPart = false) : L.Close k s.advance t.advance :=
  h.advance hkind fun hnear => L.plain hnear hpart hkind

theorem error (h : L.Abreast k s t) (message : String) :
    L.Abreast k (s.error message) (t.error message) := by
  have hs := h.close.cursor_lt
  have hcursor := h.close.cursor_eq
  have hleft := Session.rest_cons hs.1
  have hright := Session.rest_cons hs.2
  have hrests := h.rests
  rw [hleft, hright] at hrests
  have hdrop : L.left.toList.drop s.cursor = s.current :: s.tokens.toList.drop (s.cursor + 1) := by
    rw [← h.left]
    exact hleft
  have hdrop' : L.right.toList.drop (L.place s.cursor) =
      t.current :: t.tokens.toList.drop (t.cursor + 1) := by
    rw [← h.right, ← hcursor]
    exact hright
  have hsited : L.Sited s.cursor := ⟨k, by rw [hdrop, hdrop']; exact hrests⟩
  refine ⟨h.left, h.right, h.options, h.depth, h.rests, h.opened, h.completed, ?_, ?_⟩
  · have hreport := L.reported (near_of_meeting hrests) h.current hdrop hdrop' message
    show t.errors ++ [(⟨t.cursor, message, t.current.span⟩ : ParseError)] =
      L.errors ++ (s.errors ++ [(⟨s.cursor, message, s.current.span⟩ : ParseError)]).map L.report
    rw [h.errors, hcursor, List.map_append, List.map_singleton, hreport, List.append_assoc]
  · intro e he
    rcases List.mem_append.mp he with he | he
    · exact h.sited e he
    · obtain rfl := List.mem_singleton.mp he
      exact hsited

/-- Looking ahead, both sessions see tokens that are taken for the same. -/
theorem nth_zero (h : L.Close k s t) : Alike (s.nth 0) (t.nth 0) := by
  rw [h.ready_left.nth_zero, h.ready_right.nth_zero]
  exact h.skipTrivia.current

theorem isAt_eq (h : L.Close k s t) {e : Expectation} (he : e.Inline) : t.isAt e = s.isAt e :=
  he.holds_eq h.nth_zero

/-- Both sessions skip trivia, and move past what is looked for or stay in front of it. -/
theorem eat (h : L.Close k s t) {e : Expectation} (he : e.Inline)
    (hlaw : ∀ {a ts us}, e.holds a = true → L.near k (a :: ts) (a :: us) → Q ts us) :
    (∃ s' t', s.eat e = (true, s') ∧ t.eat e = (true, t') ∧ L.Follows Q s' t') ∨
      (s.eat e = (false, s.skipTrivia) ∧ t.eat e = (false, t.skipTrivia)) := by
  have hskip := h.skipTrivia
  have hholds := he.holds_eq hskip.current
  cases hmet : e.holds s.skipTrivia.current with
  | true =>
      rw [hmet] at hholds
      refine Or.inl ⟨s.skipTrivia.advance, t.skipTrivia.advance, ?_, ?_,
        hskip.advance (he.kind_ne_eof hmet) (hlaw hmet)⟩
      · simp [Session.eat, hmet]
      · simp [Session.eat, hholds]
  | false =>
      rw [hmet] at hholds
      exact Or.inr ⟨by simp [Session.eat, hmet], by simp [Session.eat, hholds]⟩

/-- Both sessions find the text that is expected, or report that it is missing. -/
theorem expect (h : L.Close k s t) {e : Expectation} (he : e.Inline)
    (hpart : ∀ {a}, e.holds a = true → a.kind.isStringPart = false) :
    L.Matched k (s.expect e) (t.expect e) := by
  rcases h.eat he fun hmet hnear => L.plain hnear (hpart hmet) (he.kind_ne_eof hmet) with
    ⟨s', t', hs, ht, hclose⟩ | ⟨hs, ht⟩
  · simp only [Session.expect, hs, ht]
    exact .done hclose
  · simp only [Session.expect, hs, ht]
    exact .failed (h.skipTrivia.error _)

theorem expect_text (h : L.Close k s t) (text : String) :
    L.Matched k (s.expect (.text text)) (t.expect (.text text)) := by
  apply h.expect (e := .text text) trivial
  exact Expectation.isStringPart_of_text

/-! ### Markers -/

theorem openAt (h : L.Follows P s t) (start : Nat) (precedes : Option Nat) :
    L.Opens (s.openAt start precedes).1 (t.openAt (L.place start) (precedes.map (· + L.shift))).1 ∧
      L.Follows P (s.openAt start precedes).2
        (t.openAt (L.place start) (precedes.map (· + L.shift))).2 := by
  have hopened := h.opened
  refine ⟨⟨hopened, rfl, rfl⟩, h.left, h.right, h.options, h.depth, h.rests, ?_, h.completed,
    h.errors, h.sited⟩
  show t.opened + 1 = s.opened + 1 + L.shift
  omega

theorem mark (h : L.Abreast k s t) :
    L.Opens s.mark.1 t.mark.1 ∧ L.Abreast k s.mark.2 t.mark.2 := by
  rw [Session.mark, Session.mark, h.close.cursor_eq]
  exact h.openAt s.cursor none

theorem precede (h : L.Follows P s t) (left : Marker κ) :
    L.Opens (s.precede left).1 (t.precede (L.marker left)).1 ∧
      L.Follows P (s.precede left).2 (t.precede (L.marker left)).2 :=
  h.openAt left.start (some left.id)

theorem complete (h : L.Follows P s t) (hcursor : t.cursor = L.place s.cursor)
    {o o' : OpenMarker} (ho : L.Opens o o') (kind : κ) :
    (t.complete o' kind).1 = L.marker (s.complete o kind).1 ∧
      L.Follows P (s.complete o kind).2 (t.complete o' kind).2 := by
  have hstop : max t.cursor (L.place o.start) = L.place (max s.cursor o.start) := by
    rw [hcursor, L.mono.map_max]
  have hmarker : (t.complete o' kind).1 = L.marker (s.complete o kind).1 := by
    simp only [Session.complete, marker, ho.id, ho.start, ho.precedes, hstop]
  refine ⟨hmarker, h.left, h.right, h.options, h.depth, h.rests, h.opened, ?_, h.errors, h.sited⟩
  show t.completed ++ [(t.complete o' kind).1] =
    L.markers ++ (s.completed ++ [(s.complete o kind).1]).map L.marker
  rw [h.completed, hmarker, List.map_append, List.map_singleton, List.append_assoc]

theorem drop (h : L.Follows P s t) (o o' : OpenMarker) : L.Follows P (s.drop o) (t.drop o') :=
  ⟨h.left, h.right, h.options, h.depth, h.rests, h.opened, h.completed, h.errors, h.sited⟩

theorem withDepth (h : L.Follows P s t) {i j : Nat} (hdepth : j = i) :
    L.Follows P { s with depth := i } { t with depth := j } :=
  ⟨h.left, h.right, h.options, hdepth, h.rests, h.opened, h.completed, h.errors, h.sited⟩

end Follows

/-! ## Expressions in step -/

open ExpressionGrammar

/-- Two readings agree: both give an element, or neither does, and then the sessions meet. -/
inductive Agree (L : Lockstep κ) (k : Nat) :
    Option (Marker κ) × Session κ → Option (Marker κ) × Session κ → Prop
  | missing {s t : Session κ} (h : L.Abreast k s t) : Agree L k (none, s) (none, t)
  | found {m : Marker κ} {s t : Session κ} (h : L.Close k s t) :
      Agree L k (some m, s) (some (L.marker m), t)

theorem Agree.close {r r' : Option (Marker κ) × Session κ} (h : L.Agree k r r') :
    L.Close k r.2 r'.2 := by
  cases h with
  | missing h => exact h.close
  | found h => exact h

theorem Matched.close {r r' : Bool × Session κ} (h : L.Matched k r r') : L.Close k r.2 r'.2 := by
  cases h with
  | failed h => exact h.close
  | done h => exact h

theorem Agree.matched {r r' : Option (Marker κ) × Session κ} (h : L.Agree k r r') :
    L.Matched k (r.1.isSome, r.2) (r'.1.isSome, r'.2) := by
  cases h with
  | missing h => exact .failed h
  | found h => exact .done h

theorem Follows.agree_complete (h : L.Close k s t) {o o' : OpenMarker} (ho : L.Opens o o')
    (kind : κ) : L.Agree k (some (s.complete o kind).1, (s.complete o kind).2)
      (some (t.complete o' kind).1, (t.complete o' kind).2) := by
  obtain ⟨hmarker, hclose⟩ := h.complete h.cursor_eq ho kind
  rw [hmarker]
  exact .found hclose

/-- What belongs to an element is found on both sides or on neither. -/
theorem Matched.settle {r r' : Bool × Session κ} (h : L.Matched k r r') {o o' : OpenMarker}
    (ho : L.Opens o o') (kind : κ) :
    L.Agree k (settle o kind r.1 r.2) (settle o' kind r'.1 r'.2) := by
  cases h with
  | failed h => exact .missing (h.drop o o')
  | done h => exact h.agree_complete ho kind

/-- A way to read expressions that keeps sessions in step. -/
def InStep (L : Lockstep κ) (parse : Nat → ElementParser κ) : Prop :=
  ∀ k least (s t : Session κ), L.Close k s t → L.Agree k (parse least s) (parse least t)

/-- Reading an atom keeps sessions in step, if reading inside of it does. -/
def AtomInStep (L : Lockstep κ) (g : ExpressionGrammar κ) : Prop :=
  ∀ inner, Thrives inner → L.InStep inner → ∀ k (s t : Session κ), L.Abreast k s t →
    s.current.kind ≠ .eof → (g.startingPower? s.current).isSome = true →
      L.Agree k (g.atom inner s) (g.atom inner t)

section Expressions

variable {g : ExpressionGrammar κ} {inner : Nat → ElementParser κ}

/-- An operator is no piece of a string. -/
theorem isStringPart_of_mayOperate {t : Token} (h : Operators.mayOperate t = true) :
    t.kind.isStringPart = false := by
  cases hkind : t.kind <;> simp_all [Operators.mayOperate, TokenKind.isStringPart]

/-- Both sessions open a marker and move past an operator. -/
theorem Follows.behind_operator (h : L.Abreast k s t)
    (hoperates : Operators.mayOperate s.current = true)
    (start : Nat) (precedes : Option Nat) :
    L.Opens (s.openAt start precedes).1 (t.openAt (L.place start) (precedes.map (· + L.shift))).1 ∧
      L.Close k (s.openAt start precedes).2.advance
        (t.openAt (L.place start) (precedes.map (· + L.shift))).2.advance := by
  obtain ⟨hopens, hopened⟩ := h.openAt start precedes
  exact ⟨hopens, hopened.advance_plain (Operators.kind_ne_eof_of_mayOperate hoperates)
    (isStringPart_of_mayOperate hoperates)⟩

theorem agree_operand (hatom : L.AtomInStep g) (hthrives : Thrives inner) (hinner : L.InStep inner)
    (h : L.Abreast k s t) (hkind : s.current.kind ≠ .eof)
    (hstarts : (g.startingPower? s.current).isSome = true) :
    L.Agree k (g.operand inner s) (g.operand inner t) := by
  have hsame := h.current_eq hkind
  unfold operand
  rw [hsame]
  split
  · exact hatom inner hthrives hinner k s t h hkind hstarts
  · rename_i op hop
    obtain ⟨hopens, hbehind⟩ :=
      h.behind_operator (Operators.mayOperate_of_before? _ hop) s.cursor none
    have hoperand := hinner k op.power _ _ hbehind
    rw [← h.close.cursor_eq] at hopens hoperand
    exact hoperand.matched.settle hopens op.kind

theorem matched_ternaryOperands (hinner : L.InStep inner) (op : TernaryOperator κ)
    (h : L.Close k s t) :
    L.Matched k (ternaryOperands op inner s) (ternaryOperands op inner t) := by
  have hfirst := hinner k 0 s t h
  unfold ternaryOperands
  generalize inner 0 s = r at hfirst ⊢
  generalize inner 0 t = r' at hfirst ⊢
  cases hfirst with
  | missing h => exact .failed h
  | @found m s₁ t₁ h =>
      have hexpect := h.expect_text op.separator
      simp only
      generalize s₁.expect (.text op.separator) = r at hexpect ⊢
      generalize t₁.expect (.text op.separator) = r' at hexpect ⊢
      cases hexpect with
      | failed h => exact .failed h
      | @done s₂ t₂ h => exact (hinner k op.power s₂ t₂ h).matched

theorem agree_extend (hinner : L.InStep inner) (left : Marker κ) (h : L.Abreast k s t)
    (hkind : s.current.kind ≠ .eof) :
    L.Agree k (g.extend inner left s) (g.extend inner (L.marker left) t) := by
  have hsame := h.current_eq hkind
  have hbehind : Operators.mayOperate s.current = true →
      L.Opens (s.precede left).1 (t.precede (L.marker left)).1 ∧
        L.Close k (s.precede left).2.advance (t.precede (L.marker left)).2.advance :=
    fun hoperates => h.behind_operator hoperates left.start (some left.id)
  unfold extend
  rw [hsame]
  split
  · rename_i op hop
    obtain ⟨hopens, hclose⟩ := hbehind (Operators.mayOperate_of_ternary? _ hop)
    exact (matched_ternaryOperands hinner op hclose).settle hopens op.kind
  · split
    · rename_i op hop
      obtain ⟨hopens, hclose⟩ := hbehind (Operators.mayOperate_of_between? _ hop)
      exact (hinner k op.rightPower _ _ hclose).matched.settle hopens op.kind
    · split
      · rename_i op hop
        obtain ⟨hopens, hclose⟩ := hbehind (Operators.mayOperate_of_after? _ hop)
        exact hclose.agree_complete hopens op.kind
      · exact .missing h

theorem close_extendWhile (hthrives : Thrives inner) (hinner : L.InStep inner) (least : Nat)
    {rounds rounds' : Nat} (left : Marker κ) (h : L.Close k s t) (hrounds : s.remaining ≤ rounds)
    (hrounds' : t.remaining ≤ rounds') :
    (g.extendWhile inner least rounds' (L.marker left) t).1 =
        L.marker (g.extendWhile inner least rounds left s).1 ∧
      L.Close k (g.extendWhile inner least rounds left s).2
        (g.extendWhile inner least rounds' (L.marker left) t).2 := by
  induction rounds generalizing rounds' left s t with
  | zero =>
      have hlt := h.cursor_lt.1
      rw [Session.remaining] at hrounds
      omega
  | succ rounds ih =>
      obtain ⟨rounds', rfl⟩ : ∃ n, rounds' = n + 1 := by
        have hlt := h.cursor_lt.2
        rw [Session.remaining] at hrounds'
        exact ⟨rounds' - 1, by omega⟩
      have hskip := h.skipTrivia
      unfold extendWhile
      rw [h.nth_zero.continuingPower?_eq g.operators]
      split
      · exact ⟨rfl, h⟩
      · rename_i power hpower
        split
        · have hoperates := g.operators.mayOperate_of_continuingPower? hpower
          rw [h.ready_left.nth_zero] at hoperates
          have hextend := agree_extend (g := g) hinner left hskip
            (Operators.kind_ne_eof_of_mayOperate hoperates)
          have hforward := cursor_lt_extend (g := g) hthrives hskip.close.ready_left left
          have hforward' := cursor_lt_extend (g := g) hthrives hskip.close.ready_right
            (L.marker left)
          have hle := h.ready_left.skipTrivia_first.le
          have hle' := h.ready_right.skipTrivia_first.le
          generalize g.extend inner left s.skipTrivia = r at hextend hforward ⊢
          generalize g.extend inner (L.marker left) t.skipTrivia = r' at hextend hforward' ⊢
          cases hextend with
          | missing h => exact ⟨rfl, h.close⟩
          | @found wider s₁ t₁ hwider =>
              apply ih wider hwider
              · exact Session.remaining_le (hwider.left.trans h.left.symm)
                  (Nat.lt_of_le_of_lt hle (hforward rfl)) hrounds
              · exact Session.remaining_le (hwider.right.trans h.right.symm)
                  (Nat.lt_of_le_of_lt hle' (hforward' rfl)) hrounds'
        · exact ⟨rfl, h⟩

theorem agree_expressionBody (hatom : L.AtomInStep g) (hthrives : Thrives inner)
    (hinner : L.InStep inner) (least : Nat) (h : L.Abreast k s t) (hkind : s.current.kind ≠ .eof)
    (hstarts : (g.startingPower? s.current).isSome = true) :
    L.Agree k (g.expressionBody inner least s) (g.expressionBody inner least t) := by
  have hoperand := agree_operand hatom hthrives hinner h hkind hstarts
  unfold expressionBody
  generalize g.operand inner s = r at hoperand ⊢
  generalize g.operand inner t = r' at hoperand ⊢
  cases hoperand with
  | missing h => exact .missing h
  | @found left s₁ t₁ h =>
      obtain ⟨hmarker, hclose⟩ := close_extendWhile (g := g) hthrives hinner least left h
        (Nat.le_refl _) (Nat.le_refl _)
      simp only
      rw [hmarker]
      exact .found hclose

/-- **Reading an expression keeps sessions in step**, however deep it may nest. -/
theorem inStep_expressionAt (hthrives : AtomThrives g) (hatom : L.AtomInStep g) (levels : Nat) :
    L.InStep (g.expressionAt levels) := by
  induction levels using Nat.strong_induction_on with
  | _ levels ih =>
      intro k least s t h
      have hskip := h.skipTrivia
      have hline := hskip.current.endsLine_eq
      unfold expressionAt
      simp only [hline]
      split
      · exact .missing (hskip.error _)
      · rename_i hgo
        have hkind : s.skipTrivia.current.kind ≠ .eof := by
          intro heof
          simp [Session.endsLine, heof] at hgo
        rw [hskip.current_eq hkind]
        split
        · exact .missing (hskip.error _)
        · rename_i hstarts
          have hstarts : (g.startingPower? s.skipTrivia.current).isSome = true := by
            simpa [Option.isSome_iff_ne_none] using hstarts
          cases levels with
          | zero => exact .missing (hskip.error _)
          | succ n =>
              have hdeeper := hskip.withDepth (congrArg (· + 1) hskip.depth)
              have hbody := agree_expressionBody hatom (thrives_expressionAt hthrives n)
                (ih n (Nat.lt_succ_self n)) least hdeeper hkind hstarts
              simp only
              generalize g.expressionBody (g.expressionAt n) least
                { s.skipTrivia with depth := s.skipTrivia.depth + 1 } = r at hbody ⊢
              generalize g.expressionBody (g.expressionAt n) least
                { t.skipTrivia with depth := t.skipTrivia.depth + 1 } = r' at hbody ⊢
              cases hbody with
              | missing h => exact .missing (h.withDepth (congrArg (· - 1) h.depth))
              | found h => exact .found (h.withDepth (congrArg (· - 1) h.depth))

end Expressions

end Lockstep

end Lossless
