import Lossless.Proofs.Cursor
import Lossless.Proofs.StringNesting

/-!
# What lies ahead of a session

A grammar consumes significant tokens from the front of those that lie ahead
(`Session.ahead`).  Trivia between them does not matter, except that inside of a string
literal there is none: there the current token is the next significant one.

`Session.Within` says which literals are open at the cursor, and that the tokens from there
on close them.  **Moving past a token takes it off what lies ahead and does to the open
literals what `Nest.step` says** (`Within.ahead_eq`).
-/

namespace Lossless

/-- Tokens up to the end of the input close all open literals. -/
inductive Nest.Closes : Nest → List Token → Prop
  | eof {t : Token} (h : t.kind = .eof) : Closes [] [t]
  | token {n n' : Nest} {t : Token} {ts : List Token} (hstep : n.step t.kind = some n')
      (h : Closes n' ts) : Closes n (t :: ts)

namespace Nest

theorem closes_append {n : Nest} {body : List Token} (h : n.follow (body.map (·.kind)) = some [])
    {e : Token} (he : e.kind = .eof) : n.Closes (body ++ [e]) := by
  induction body generalizing n with
  | nil =>
      obtain rfl := Option.some.inj h
      exact .eof he
  | cons t body ih =>
      obtain ⟨n', hstep, hrest⟩ := Option.bind_eq_some_iff.mp h
      exact .token hstep (ih hrest)

theorem Closes.exists_append {n : Nest} {ts : List Token} (h : n.Closes ts) :
    ∃ body e, ts = body ++ [e] ∧ e.kind = .eof := by
  induction h with
  | @eof t h => exact ⟨[], t, rfl, h⟩
  | @token _ _ t _ _ _ ih =>
      obtain ⟨body, e, rfl, he⟩ := ih
      exact ⟨t :: body, e, rfl, he⟩

theorem Closes.dropWhile {n : Nest} {ts : List Token} (h : n.Closes ts) :
    n.Closes (ts.dropWhile (·.isTrivia)) := by
  induction h with
  | @eof t h =>
      have ht : t.isTrivia = false := by simp [Token.isTrivia, h, TokenKind.isTrivia]
      rw [List.dropWhile_cons_of_neg (by simp [ht])]
      exact .eof h
  | @token n n' t ts hstep h ih =>
      cases ht : t.isTrivia with
      | true =>
          obtain ⟨_, rfl⟩ := step_trivia ht hstep
          rwa [List.dropWhile_cons_of_pos ht]
      | false =>
          rw [List.dropWhile_cons_of_neg (by simp [ht])]
          exact .token hstep h

/-- Moving past a token other than the end of the input. -/
theorem Closes.tail {n : Nest} {t : Token} {ts : List Token} (h : n.Closes (t :: ts))
    (hkind : t.kind ≠ .eof) : ∃ n', n.step t.kind = some n' ∧ n'.Closes ts := by
  cases h with
  | eof heof => exact absurd heof hkind
  | token hstep h => exact ⟨_, hstep, h⟩

/-- The end of the input is the last token. -/
theorem Closes.eq_nil {n : Nest} {t : Token} {ts : List Token} (h : n.Closes (t :: ts))
    (hkind : t.kind = .eof) : ts = [] := by
  cases h with
  | eof => rfl
  | token hstep =>
      rw [hkind, n.step_eof] at hstep
      cases hstep

/-- Some literals are open wherever the tokens are taken up again, unless they are over. -/
theorem Closes.exists_suffix {n : Nest} {ts us : List Token} (h : n.Closes ts) (hsuffix : us <:+ ts)
    (hne : us ≠ []) : ∃ n' : Nest, n'.Closes us := by
  induction h with
  | @eof t heof =>
      rcases List.suffix_cons_iff.mp hsuffix with rfl | hnil
      · exact ⟨[], .eof heof⟩
      · exact absurd (List.suffix_nil.mp hnil) hne
  | @token n n' t ts hstep h ih =>
      rcases List.suffix_cons_iff.mp hsuffix with rfl | hsuffix
      · exact ⟨n, .token hstep h⟩
      · exact ih hsuffix

/-- Inside of a literal, but not in a block of it, a significant token follows. -/
theorem Closes.significant {n : Nest} {ts : List Token} (h : n.Closes ts)
    (hcode : n.isCode = false) :
    ∃ t us, ts = t :: us ∧ t.isTrivia = false := by
  cases h with
  | eof => cases hcode
  | @token _ _ t us hstep _ =>
      refine ⟨t, us, rfl, Bool.eq_false_iff.mpr fun htrivia => ?_⟩
      rw [(step_trivia htrivia hstep).1] at hcode
      cases hcode

end Nest

namespace Session

variable {κ : Type}

/-- The tokens from the cursor on. -/
def rest (s : Session κ) : List Token :=
  s.tokens.toList.drop s.cursor

/-- The significant tokens from the cursor on. -/
def ahead (s : Session κ) : List Token :=
  s.rest.filter (!·.isTrivia)

/-- At the cursor certain literals are open, and the tokens from there on close them. -/
def Within (n : Nest) (s : Session κ) : Prop :=
  n.Closes s.rest

section Elsewhere

variable (s : Session κ) (m : OpenMarker) (kind : κ) (start : Nat) (precedes : Option Nat)

@[simp] theorem ahead_openAt : (s.openAt start precedes).2.ahead = s.ahead := rfl

@[simp] theorem ahead_mark : s.mark.2.ahead = s.ahead := rfl

@[simp] theorem current_openAt : (s.openAt start precedes).2.current = s.current := rfl

@[simp] theorem current_mark : s.mark.2.current = s.current := rfl

@[simp] theorem ahead_complete : (s.complete m kind).2.ahead = s.ahead := rfl

end Elsewhere

theorem rest_cons {s : Session κ} (h : s.cursor < s.tokens.size) :
    s.rest = s.current :: s.tokens.toList.drop (s.cursor + 1) := by
  have hlength : s.cursor < s.tokens.toList.length := by simpa using h
  rw [rest, List.drop_eq_getElem_cons hlength]
  simp [current, tokenAt, h]

theorem length_ahead_le (s : Session κ) : s.ahead.length ≤ s.remaining := by
  have hlength : s.rest.length = s.remaining := by simp [rest, remaining]
  rw [← hlength]
  exact List.length_filter_le _ _

theorem Within.ready {n : Nest} {s : Session κ} (h : s.Within n) : s.Ready := by
  obtain ⟨body, e, hrest, he⟩ := h.exists_append
  have hlist : s.tokens.toList = s.tokens.toList.take s.cursor ++ body ++ [e] := by
    rw [List.append_assoc, ← hrest]
    exact (List.take_append_drop _ _).symm
  have htokens : s.tokens = (s.tokens.toList.take s.cursor ++ body ++ [e]).toArray := by
    rw [← hlist]
  constructor
  · have hlength : s.rest.length = s.tokens.size - s.cursor := by simp [rest]
    rw [hrest] at hlength
    simp at hlength
    omega
  · rw [htokens]
    simp [tokenIn, he]

/-! ## Skipping trivia -/

theorem drop_seek (stops : Token → Bool) {tokens : Array Token} {rounds i : Nat}
    (hi : i < tokens.size) (hrounds : tokens.size - i ≤ rounds)
    (hlast : stops (tokenIn tokens (tokens.size - 1)) = true) :
    tokens.toList.drop (seek stops tokens rounds i) =
      (tokens.toList.drop i).dropWhile (!stops ·) := by
  induction rounds generalizing i with
  | zero => omega
  | succ rounds ih =>
      have hlength : i < tokens.toList.length := by simpa using hi
      have hdrop : tokens.toList.drop i = tokenIn tokens i :: tokens.toList.drop (i + 1) := by
        rw [List.drop_eq_getElem_cons hlength]
        simp [tokenIn, hi]
      have hseek : seek stops tokens (rounds + 1) i =
          if stops (tokenIn tokens i) || tokens.size ≤ i + 1 then i
          else seek stops tokens rounds (i + 1) := rfl
      cases hstop : stops (tokenIn tokens i) with
      | true =>
          rw [hseek, hdrop, List.dropWhile_cons_of_neg (by simp [hstop])]
          simp [hstop, hdrop]
      | false =>
          have hnext : i + 1 < tokens.size := by
            by_cases heq : i = tokens.size - 1
            · rw [heq, hlast] at hstop
              cases hstop
            · omega
          have hgo : ¬ (stops (tokenIn tokens i) || decide (tokens.size ≤ i + 1)) = true := by
            simp [hstop, hnext]
          rw [hseek, if_neg hgo, hdrop, List.dropWhile_cons_of_pos (by simp [hstop])]
          exact ih hnext (by omega)

/-- Skipping to a token drops what comes before it. -/
theorem Ready.rest_advanceTo {s : Session κ} (h : s.Ready) {stops : Token → Bool}
    (hstops : ∀ e : Token, e.kind = .eof → stops e = true) :
    (s.advanceTo stops).rest = s.rest.dropWhile (!stops ·) :=
  drop_seek stops h.cursor_lt (Nat.le_refl _) (hstops _ h.last_kind)

/-- Skipping to a token arrives at one. -/
theorem Ready.stops_advanceTo {s : Session κ} (h : s.Ready) {stops : Token → Bool}
    (hstops : ∀ e : Token, e.kind = .eof → stops e = true) :
    stops (s.advanceTo stops).current = true :=
  (seek_first stops h.cursor_lt (Nat.le_refl _) (hstops _ h.last_kind)).2.2.1

theorem Ready.rest_skipTrivia {s : Session κ} (h : s.Ready) :
    s.skipTrivia.rest = s.rest.dropWhile (·.isTrivia) := by
  have hend : ∀ e : Token, e.kind = .eof → (!e.isTrivia) = true := fun e he => by
    simp [Token.isTrivia, he, TokenKind.isTrivia]
  have hdrop := h.rest_advanceTo hend
  simp only [Bool.not_not] at hdrop
  exact hdrop

theorem filter_dropWhile_not {α : Type} (p : α → Bool) (as : List α) :
    (as.dropWhile p).filter (!p ·) = as.filter (!p ·) := by
  induction as with
  | nil => rfl
  | cons a as ih =>
      cases ha : p a with
      | true => simp [ha, ih]
      | false => simp [ha]

theorem Ready.ahead_skipTrivia {s : Session κ} (h : s.Ready) : s.skipTrivia.ahead = s.ahead := by
  rw [ahead, h.rest_skipTrivia]
  exact filter_dropWhile_not _ _

theorem skipTrivia_eq_self {s : Session κ} (h : s.current.isTrivia = false) : s.skipTrivia = s := by
  have hseek : ∀ rounds, seek (!·.isTrivia) s.tokens rounds s.cursor = s.cursor := by
    intro rounds
    cases rounds with
    | zero => rfl
    | succ rounds =>
        unfold seek
        have hhere : s.tokens.getD s.cursor (Token.eof 0) = s.current := rfl
        exact if_pos (by rw [hhere, h]; rfl)
  show { s with cursor := _ } = s
  rw [hseek]

theorem Within.skipTrivia {n : Nest} {s : Session κ} (h : s.Within n) : s.skipTrivia.Within n := by
  unfold Within
  rw [h.ready.rest_skipTrivia]
  exact h.dropWhile

theorem Ready.current_skipTrivia {s : Session κ} (h : s.Ready) :
    s.skipTrivia.current.isTrivia = false :=
  h.skipTrivia_first.significant

theorem Ready.isAt_eq {s : Session κ} (h : s.Ready) (e : Expectation) :
    s.isAt e = e.holds s.skipTrivia.current := by
  rw [isAt, h.nth_zero]

/-! ## Moving on -/

/-- **At a significant token**, either only the end of the input lies ahead, and no literal is
open, or moving on takes the token off what lies ahead. -/
theorem Within.ahead_eq {n : Nest} {s : Session κ} (h : s.Within n)
    (hcurrent : s.current.isTrivia = false) :
    (s.current.kind = .eof ∧ s.ahead = [s.current] ∧ n = []) ∨
      (s.current.kind ≠ .eof ∧ s.ahead = s.current :: s.advance.ahead ∧
        ∃ n', n.step s.current.kind = some n' ∧ s.advance.Within n') := by
  have hrest := rest_cons h.ready.cursor_lt
  have hahead : s.ahead =
      s.current :: (s.tokens.toList.drop (s.cursor + 1)).filter (!·.isTrivia) := by
    rw [ahead, hrest, List.filter_cons_of_pos (by simp [hcurrent])]
  have hcloses : n.Closes s.rest := h
  rw [hrest] at hcloses
  generalize htail : s.tokens.toList.drop (s.cursor + 1) = tail at hcloses hahead
  cases hcloses with
  | eof heof => exact Or.inl ⟨heof, hahead, rfl⟩
  | @token _ n' _ _ hstep hcloses =>
      have hkind : s.current.kind ≠ .eof := by
        intro heof
        rw [heof, n.step_eof] at hstep
        cases hstep
      obtain ⟨_, hadvance⟩ := h.ready.advance_eq hkind
      have hrest' : s.advance.rest = tail := by rw [hadvance, ← htail]; rfl
      refine Or.inr ⟨hkind, ?_, n', hstep, ?_⟩
      · rw [hahead, ahead, hrest']
      · show n'.Closes s.advance.rest
        rwa [hrest']

theorem Within.ahead_ne_nil {n : Nest} {s : Session κ} (h : s.Within n) : s.ahead ≠ [] := by
  rw [← h.ready.ahead_skipTrivia]
  rcases h.skipTrivia.ahead_eq h.ready.current_skipTrivia with ⟨_, heq, _⟩ | ⟨_, heq, _⟩
  · exact heq ▸ List.cons_ne_nil _ _
  · exact heq ▸ List.cons_ne_nil _ _

/-- Moving past a token that is not the end of the input. -/
theorem Within.advance {n : Nest} {s : Session κ} (h : s.Within n)
    (hcurrent : s.current.isTrivia = false) (hkind : s.current.kind ≠ .eof) :
    s.ahead = s.current :: s.advance.ahead ∧
      ∃ n', n.step s.current.kind = some n' ∧ s.advance.Within n' := by
  rcases h.ahead_eq hcurrent with ⟨heof, _, _⟩ | ⟨_, hnext⟩
  · exact absurd heof hkind
  · exact hnext

/-- Moving past a token in code that is no piece of a literal. -/
theorem Within.advance_plain {n : Nest} {s : Session κ} (h : s.Within n) (hcode : n.isCode = true)
    (hcurrent : s.current.isTrivia = false) (hpart : s.current.kind.isStringPart = false)
    (hkind : s.current.kind ≠ .eof) :
    s.ahead = s.current :: s.advance.ahead ∧ s.advance.Within n := by
  obtain ⟨hahead, n', hstep, hwithin⟩ := h.advance hcurrent hkind
  rw [Nest.step_plain hcode hpart hkind] at hstep
  obtain rfl := Option.some.inj hstep
  exact ⟨hahead, hwithin⟩

/-- Inside of a literal, but not in a block of it, a session is at a significant token. -/
theorem Within.significant {n : Nest} {s : Session κ} (h : s.Within n) (hcode : n.isCode = false) :
    s.current.isTrivia = false ∧ s.current.kind ≠ .eof := by
  have hcloses : n.Closes s.rest := h
  rw [rest_cons h.ready.cursor_lt] at hcloses
  generalize s.tokens.toList.drop (s.cursor + 1) = tail at hcloses
  cases hcloses with
  | eof heof => cases hcode
  | token hstep _ =>
      constructor
      · apply Bool.eq_false_iff.mpr
        intro htrivia
        rw [(Nest.step_trivia htrivia hstep).1] at hcode
        cases hcode
      · intro heof
        rw [heof, n.step_eof] at hstep
        cases hstep

/-- The first token ahead is the current one, once trivia is skipped. -/
theorem Within.current_eq {n : Nest} {s : Session κ} (h : s.Within n)
    (hcurrent : s.current.isTrivia = false) {t : Token} {ts : List Token}
    (hahead : s.ahead = t :: ts) : s.current = t := by
  rcases h.ahead_eq hcurrent with ⟨_, heq, _⟩ | ⟨_, heq, _⟩
  · exact (List.cons.inj (heq.symm.trans hahead)).1
  · exact (List.cons.inj (heq.symm.trans hahead)).1

end Session

end Lossless
