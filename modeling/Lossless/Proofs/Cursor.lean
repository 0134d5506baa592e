import Lossless.Session

/-!
# Where a session looks

Every session ends with an end of input, which is no trivia, so skipping trivia always
arrives at a significant token (`skipTrivia_first`), and this is the token that looking ahead
finds (`nth_zero`).  The significant tokens of a stretch say what a grammar saw there.
-/

namespace Lossless

/-! ## Significant tokens -/

/-- The token at an index, or an end of input beyond the last one. -/
def tokenIn (tokens : Array Token) (i : Nat) : Token :=
  tokens.getD i (Token.eof 0)

/-- `j` is the index of the first significant token from `i` on. -/
structure FirstSignificant (tokens : Array Token) (i j : Nat) : Prop where
  le : i ≤ j
  lt_size : j < tokens.size
  significant : (tokenIn tokens j).isTrivia = false
  trivia : ∀ k, i ≤ k → k < j → (tokenIn tokens k).isTrivia = true

/-- The significant tokens from `start` up to `stop`. -/
def significantBetween (tokens : Array Token) (start stop : Nat) : List Token :=
  ((tokens.toList.drop start).take (stop - start)).filter (!·.isTrivia)

theorem significantBetween_append (tokens : Array Token) {i j k : Nat} (hij : i ≤ j)
    (hjk : j ≤ k) :
    significantBetween tokens i j ++ significantBetween tokens j k =
      significantBetween tokens i k := by
  have hsplit : k - i = (j - i) + (k - j) := by omega
  have hdrop : i + (j - i) = j := by omega
  rw [significantBetween, significantBetween, significantBetween, ← List.filter_append, hsplit,
    List.take_add, List.drop_drop, hdrop]

theorem significantBetween_of_le (tokens : Array Token) {i j : Nat} (hji : j ≤ i) :
    significantBetween tokens i j = [] := by
  simp [significantBetween, Nat.sub_eq_zero_of_le hji]

/-- The significant tokens of a stretch of one token. -/
theorem significantBetween_succ {tokens : Array Token} {i : Nat} (hi : i < tokens.size) :
    significantBetween tokens i (i + 1) = [tokenIn tokens i].filter (!·.isTrivia) := by
  have hone : i + 1 - i = 1 := by omega
  have hlength : i < tokens.toList.length := by simpa using hi
  have hdrop : tokens.toList.drop i = tokenIn tokens i :: tokens.toList.drop (i + 1) := by
    rw [List.drop_eq_getElem_cons hlength]
    simp [tokenIn, hi]
  rw [significantBetween, hone, hdrop, List.take_succ_cons, List.take_zero]

/-- There are no significant tokens among trivia. -/
theorem significantBetween_trivia {tokens : Array Token} {i j : Nat} (hij : i ≤ j)
    (hj : j ≤ tokens.size)
    (htrivia : ∀ k, i ≤ k → k < j → (tokenIn tokens k).isTrivia = true) :
    significantBetween tokens i j = [] := by
  obtain ⟨n, rfl⟩ := Nat.exists_eq_add_of_le hij
  induction n with
  | zero => exact significantBetween_of_le tokens (Nat.le_refl i)
  | succ n ih =>
      have hbefore := ih (by omega) (by omega) (fun k hk hlt => htrivia k hk (by omega))
      have hlast := htrivia (i + n) (by omega) (by omega)
      rw [← significantBetween_append tokens (Nat.le_add_right i n) (by omega : i + n ≤ i + (n + 1)),
        hbefore, List.nil_append, ← Nat.add_assoc,
        significantBetween_succ (by omega : i + n < tokens.size)]
      simp [hlast]

/-- **Between two places with nothing but trivia around a significant token, that token is all
there is to see.** -/
theorem FirstSignificant.significantBetween_eq {tokens : Array Token} {i j k : Nat}
    (h : FirstSignificant tokens i j) (hjk : j + 1 ≤ k) (hk : k ≤ tokens.size)
    (htrivia : ∀ n, j + 1 ≤ n → n < k → (tokenIn tokens n).isTrivia = true) :
    significantBetween tokens i k = [tokenIn tokens j] := by
  have hfirst := significantBetween_trivia h.le (Nat.le_of_lt h.lt_size) h.trivia
  have hrest := significantBetween_trivia hjk hk htrivia
  have hle := h.le
  rw [← significantBetween_append tokens (Nat.le_succ_of_le hle) hjk, hrest, List.append_nil,
    ← significantBetween_append tokens hle (Nat.le_succ j), hfirst, List.nil_append,
    significantBetween_succ h.lt_size]
  simp [h.significant]

namespace Session

variable {κ : Type}

/-! ## Sessions that can go on -/

/-- A session at one of its tokens, the last of which is an end of input. -/
structure Ready (s : Session κ) : Prop where
  cursor_lt : s.cursor < s.tokens.size
  last_kind : (tokenIn s.tokens (s.tokens.size - 1)).kind = .eof

theorem last_kind_ended (tokens : List Token) :
    (tokenIn (ended tokens).toArray ((ended tokens).toArray.size - 1)).kind = .eof := by
  have hlast : ∀ (ts : List Token) (t : Token), t.kind = .eof →
      (tokenIn (ts ++ [t]).toArray ((ts ++ [t]).toArray.size - 1)).kind = .eof := by
    intro ts t ht
    simp [tokenIn, ht]
  unfold ended
  cases hend : tokens.getLast? with
  | none => exact hlast [] _ rfl
  | some t =>
      obtain ⟨ts, rfl⟩ := List.getLast?_eq_some_iff.mp hend
      by_cases hkind : t.kind = .eof
      · simpa [hkind] using hlast ts t hkind
      · simpa [hkind] using hlast (ts ++ [t]) (Token.eof t.span.stop) rfl

/-- Seeking stops at the first token that satisfies `stops`, if the last one does. -/
theorem seek_first (stops : Token → Bool) {tokens : Array Token} {rounds i : Nat}
    (hi : i < tokens.size) (hrounds : tokens.size - i ≤ rounds)
    (hlast : stops (tokenIn tokens (tokens.size - 1)) = true) :
    i ≤ seek stops tokens rounds i ∧ seek stops tokens rounds i < tokens.size ∧
      stops (tokenIn tokens (seek stops tokens rounds i)) = true ∧
      ∀ k, i ≤ k → k < seek stops tokens rounds i → stops (tokenIn tokens k) = false := by
  induction rounds generalizing i with
  | zero => omega
  | succ rounds ih =>
      have hseek : seek stops tokens (rounds + 1) i =
          if stops (tokenIn tokens i) || tokens.size ≤ i + 1 then i
          else seek stops tokens rounds (i + 1) := rfl
      rw [hseek]
      split
      · rename_i hstop
        refine ⟨Nat.le_refl _, hi, ?_, fun k hk hlt => absurd hlt (by omega)⟩
        simp only [Bool.or_eq_true, decide_eq_true_eq] at hstop
        rcases hstop with hstop | hend
        · exact hstop
        · have heq : i = tokens.size - 1 := by omega
          rw [heq]
          exact hlast
      · rename_i hgo
        simp only [Bool.or_eq_true, decide_eq_true_eq, not_or] at hgo
        obtain ⟨hle, hlt, hstops, hbefore⟩ := ih (by omega : i + 1 < tokens.size) (by omega)
        refine ⟨by omega, hlt, hstops, ?_⟩
        intro k hk hlt'
        by_cases heq : k = i
        · subst heq
          exact Bool.eq_false_iff.mpr hgo.1
        · exact hbefore k (by omega) hlt'

/-- **Skipping trivia arrives at the first significant token.** -/
theorem Ready.skipTrivia_first {s : Session κ} (h : s.Ready) :
    FirstSignificant s.tokens s.cursor s.skipTrivia.cursor := by
  have hlast : (!(tokenIn s.tokens (s.tokens.size - 1)).isTrivia) = true := by
    simp [Token.isTrivia, h.last_kind, TokenKind.isTrivia]
  obtain ⟨hle, hlt, hstops, hbefore⟩ :=
    seek_first (!·.isTrivia) h.cursor_lt (Nat.le_refl s.remaining) hlast
  refine ⟨hle, hlt, ?_, ?_⟩
  · rw [Bool.not_eq_true'] at hstops
    exact hstops
  · intro k hk hlt'
    have hskipped := hbefore k hk hlt'
    rw [Bool.not_eq_false'] at hskipped
    exact hskipped

theorem Ready.skipTrivia {s : Session κ} (h : s.Ready) : s.skipTrivia.Ready :=
  ⟨h.skipTrivia_first.lt_size, h.last_kind⟩

theorem significant?_zero {tokens : Array Token} {rounds i j : Nat}
    (h : FirstSignificant tokens i j) (hrounds : tokens.size - i ≤ rounds) :
    significant? tokens rounds i 0 = some (tokenIn tokens j) := by
  induction rounds generalizing i with
  | zero =>
      have hle := h.le
      have hlt := h.lt_size
      omega
  | succ rounds ih =>
      have hle := h.le
      have hlt := h.lt_size
      have hi : i < tokens.size := by omega
      have htoken : tokens[i]? = some (tokenIn tokens i) := by
        simp [tokenIn, hi]
      rw [significant?, htoken]
      by_cases heq : i = j
      · subst heq
        simp [h.significant]
      · have htrivia := h.trivia i (Nat.le_refl _) (by omega)
        simp only [htrivia, if_true]
        exact ih ⟨by omega, hlt, h.significant, fun k hk => h.trivia k (by omega)⟩ (by omega)

/-- Looking ahead sees the token that skipping trivia arrives at. -/
theorem Ready.nth_zero {s : Session κ} (h : s.Ready) : s.nth 0 = s.skipTrivia.current := by
  rw [nth, significant?_zero h.skipTrivia_first (Nat.le_refl s.remaining)]
  rfl

/-- Only at the end of input a session cannot advance. -/
theorem Ready.advance_eq {s : Session κ} (h : s.Ready) (hkind : s.current.kind ≠ .eof) :
    s.cursor + 1 < s.tokens.size ∧ s.advance = { s with cursor := s.cursor + 1 } := by
  have hlt : s.cursor + 1 < s.tokens.size := by
    have hcursor := h.cursor_lt
    by_cases heq : s.cursor = s.tokens.size - 1
    · refine absurd ?_ hkind
      show (tokenIn s.tokens s.cursor).kind = .eof
      rw [heq]
      exact h.last_kind
    · omega
  exact ⟨hlt, by simp [advance, hlt]⟩

end Session

end Lossless
