import Lossless.Proofs.Discipline
import Lossless.Proofs.Lookahead
import Mathlib.Logic.Function.Iterate

/-!
# Looking ahead and moving on

A grammar decides by what it sees ahead and acts by moving on, so both have to speak of the same
tokens.  Looking ahead filters what is left of the tokens and falls back to the last one; moving on
takes single steps that stop at the last token.

Both see `Session.ahead`, the significant tokens from the cursor on: looking ahead indexes it
(`nth_eq_getD`), and moving past a significant token takes its head off, unless that is all there is
(`Ready.ahead_pass`).  The session has to be at one of its tokens, and so it is along any run, also
after going back (`Live.Anchored`).  So **what is seen ahead is what is found by moving there**
(`lookahead_agrees`).
-/

namespace Lossless

variable {κ : Type}

namespace Session

/-- The session behind the next significant token, or at that token if it is the last. -/
def pass (s : Session κ) : Session κ :=
  s.skipTrivia.advance

/-! ## What looking ahead sees -/

theorem significant?_eq {tokens : Array Token} {rounds i : Nat} (hrounds : tokens.size - i ≤ rounds)
    (n : Nat) :
    significant? tokens rounds i n = ((tokens.toList.drop i).filter (!·.isTrivia))[n]? := by
  induction rounds generalizing i n with
  | zero =>
      have hnothing : tokens.toList.drop i = [] := by
        rw [List.drop_eq_nil_iff, Array.length_toList]
        omega
      rw [hnothing]
      rfl
  | succ rounds ih =>
      have hlater := ih (i := i + 1) (by omega)
      rw [significant?]
      by_cases hi : i < tokens.size
      · have hlength : i < tokens.toList.length := by simpa using hi
        rw [Array.getElem?_eq_getElem hi, List.drop_eq_getElem_cons hlength, Array.getElem_toList]
        cases htrivia : tokens[i].isTrivia with
        | true => simp [htrivia, hlater]
        | false =>
            cases n with
            | zero => simp [htrivia]
            | succ n => simp [htrivia, hlater]
      · have hnothing : tokens.toList.drop i = [] := by
          rw [List.drop_eq_nil_iff, Array.length_toList]
          omega
        rw [Array.getElem?_eq_none (Nat.le_of_not_lt hi), hnothing]
        rfl

/-- Looking ahead finds a token of those that lie ahead, or the last token. -/
theorem nth_eq_getD (s : Session κ) (n : Nat) : s.nth n = s.ahead[n]?.getD s.last := by
  rw [nth, significant?_eq (Nat.le_refl s.remaining)]
  rfl

/-! ## What moving on passes -/

theorem Ready.pass {s : Session κ} (h : s.Ready) : s.pass.Ready :=
  s.skipTrivia.moves_advance.ready h.skipTrivia

theorem last_pass (s : Session κ) : s.pass.last = s.last := by
  have htokens : s.pass.tokens = s.tokens := s.skipTrivia.moves_advance.tokens
  rw [last, tokenAt, htokens]
  rfl

/-- At a significant token, moving on takes the token off what lies ahead, or the token is the last
one and nothing else lies ahead. -/
theorem Ready.ahead_advance {s : Session κ} (h : s.Ready) (hcurrent : s.current.isTrivia = false) :
    s.ahead = s.current :: s.advance.ahead ∨
      s.advance = s ∧ s.current = s.last ∧ s.ahead = [s.last] := by
  have hahead : s.ahead =
      s.current :: (s.tokens.toList.drop (s.cursor + 1)).filter (!·.isTrivia) := by
    rw [ahead, rest_cons h.cursor_lt, List.filter_cons_of_pos (by simp [hcurrent])]
  by_cases hnext : s.cursor + 1 < s.tokens.size
  · refine Or.inl ?_
    have hadvance : s.advance = { s with cursor := s.cursor + 1 } := if_pos hnext
    rw [hahead, hadvance]
    rfl
  · have hcursor := h.cursor_lt
    have hlast : s.current = s.last := by
      rw [current, last]
      congr 1
      omega
    have hnothing : s.tokens.toList.drop (s.cursor + 1) = [] := by
      rw [List.drop_eq_nil_iff, Array.length_toList]
      omega
    refine Or.inr ⟨if_neg hnext, hlast, ?_⟩
    rw [hahead, hnothing, hlast]
    rfl

/-- **Moving past a significant token takes it off what lies ahead**, unless it is the last token. -/
theorem Ready.ahead_pass {s : Session κ} (h : s.Ready) :
    s.ahead = s.skipTrivia.current :: s.pass.ahead ∨
      s.ahead = [s.last] ∧ s.pass.ahead = [s.last] := by
  have hskip := h.ahead_skipTrivia
  rcases h.skipTrivia.ahead_advance h.current_skipTrivia with hahead | ⟨hstay, _, hahead⟩
  · exact Or.inl (hskip ▸ hahead)
  · have hlast : s.skipTrivia.last = s.last := rfl
    rw [hskip, hlast] at hahead
    refine Or.inr ⟨hahead, ?_⟩
    rw [Session.pass, hstay, hskip, hahead]

/-! ## Both together -/

/-- Looking ahead past the next significant token is looking ahead from behind it. -/
theorem Ready.nth_succ {s : Session κ} (h : s.Ready) (n : Nat) : s.nth (n + 1) = s.pass.nth n := by
  rw [nth_eq_getD, nth_eq_getD, last_pass]
  rcases h.ahead_pass with hahead | ⟨hahead, hpass⟩
  · rw [hahead, List.getElem?_cons_succ]
  · rw [hahead, hpass]
    cases n <;> rfl

/-- **The token seen ahead is the one that is found by moving there.** -/
theorem Ready.nth_eq_current {s : Session κ} (h : s.Ready) (n : Nat) :
    s.nth n = (Session.pass^[n] s).skipTrivia.current := by
  induction n generalizing s with
  | zero => exact h.nth_zero
  | succ n ih => rw [h.nth_succ, ih h.pass, Function.iterate_succ_apply]

/-- What is eaten is what the session is at. -/
theorem Ready.eat_eq {s : Session κ} (h : s.Ready) (e : Expectation) :
    s.eat e = if s.isAt e then (true, s.pass) else (false, s.skipTrivia) := by
  rw [h.isAt_eq]
  rfl

end Session

/-! ## Along a run -/

/-- The session is at one of its tokens, and so it was wherever a marker in hand was opened. -/
structure Live.Anchored (l : Live κ) : Prop where
  ready : l.session.Ready
  held : ∀ o ∈ l.held, o.cursor < l.session.tokens.size

theorem Live.anchored_start (tokens : List Token) (options : SessionOptions) (traced : Bool) :
    (Live.start tokens options traced : Live κ).Anchored :=
  ⟨Session.ready_start tokens options traced, by simp [Live.start]⟩

/-- A marker is opened at the cursor, also one that begins elsewhere. -/
theorem Live.Anchored.opens {l : Live κ} (h : l.Anchored) (start : Nat) (precedes : Option Nat) :
    (l.hold (l.session.openAt start precedes)).Anchored := by
  refine ⟨⟨h.ready.cursor_lt, h.ready.last_kind⟩, ?_⟩
  intro o ho
  rcases List.mem_cons.mp ho with rfl | ho
  · exact h.ready.cursor_lt
  · exact h.held o ho

/-- One action later; going back leads to where a marker in hand was opened. -/
theorem Live.Anchored.step {l l₁ : Live κ} (h : l.Anchored) {act : Action κ}
    (heffect : Action.Effect l act l₁) : l₁.Anchored := by
  cases heffect with
  | moves hmoves => exact ⟨hmoves.ready h.ready, hmoves.tokens ▸ h.held⟩
  | marks => exact h.opens _ _
  | precedes inner => exact h.opens _ _
  | completes kind hm =>
      exact ⟨⟨h.ready.cursor_lt, h.ready.last_kind⟩, fun o ho => h.held o (List.mem_of_mem_erase ho)⟩
  | drops hm =>
      exact ⟨⟨h.ready.cursor_lt, h.ready.last_kind⟩, fun o ho => h.held o (List.mem_of_mem_erase ho)⟩
  | rollsBack hm =>
      exact ⟨⟨h.held _ hm, h.ready.last_kind⟩, fun o ho => h.held o (List.mem_of_mem_erase ho)⟩
  | recovers kind hmoves =>
      have hready := hmoves.ready (h.opens _ none).ready
      exact ⟨⟨hready.cursor_lt, hready.last_kind⟩, hmoves.tokens ▸ h.held⟩

theorem Live.Anchored.run {l : Live κ} (h : l.Anchored) (acts : List (Action κ)) :
    (l.run acts).Anchored := by
  induction acts generalizing l with
  | nil => exact h
  | cons act acts ih => exact ih (h.step (act.effect l))

/-- **Looking ahead agrees with moving on**, wherever a run over any tokens has led.  The `n`th
significant token seen ahead is the current one after `n` times skipping trivia and moving on, and
skipping trivia once more; the last token is seen, and arrived at, if there are not as many.  A
session is at what is looked for if and only if eating it succeeds.  It is at its end if and only if
an end of input is the current token once trivia is skipped, be it the last one or not. -/
theorem lookahead_agrees (tokens : List Token) (options : SessionOptions) (traced : Bool)
    (acts : List (Action κ)) :
    let s := ((Live.start tokens options traced : Live κ).run acts).session
    (∀ n, s.nth n = ((fun s : Session κ => s.skipTrivia.advance)^[n] s).skipTrivia.current) ∧
      (∀ e, s.isAt e = true ↔ (s.eat e).1 = true) ∧
      (s.isAtEnd = true ↔ s.skipTrivia.current.kind = .eof) := by
  intro s
  have hready : s.Ready := ((Live.anchored_start tokens options traced).run acts).ready
  refine ⟨hready.nth_eq_current, ?_, ?_⟩
  · intro e
    rw [hready.eat_eq]
    cases s.isAt e <;> simp
  · rw [Session.isAtEnd, hready.nth_zero, beq_iff_eq]

/-- An end of input in the middle is a token like any other: it is seen, and passed. -/
example :
    let s : Session String :=
      .start (Token.lay [(.whitespace, " "), (.eof, ""), (.comment, "#"), (.identifier, "a")]) {}
        false
    s.isAtEnd = true ∧ (s.nth 1).text = "a" ∧ s.pass.isAtEnd = false ∧ s.nth 5 = s.last := by
  decide

end Lossless
