import Lossless.Proofs.CleanEnding

/-!
# The limit on nesting only guards

How deep expressions may nest is looked at when one is entered, and nowhere else.  So **a program
that is not reported to be nested too deeply is read in the same way under every higher limit**:
what is done under the lower limit is done step by step under the higher one as well.

An expression inside of another begins behind a token of the other, so an expression cannot be
nested deeper than there are tokens.  Limits of that size never take effect.
-/

namespace Lossless.Calculator

theorem length_ended_le (tokens : List Token) :
    (Session.ended tokens).length ≤ tokens.length + 1 := by
  unfold Session.ended
  split
  · exact Nat.le_add_left _ _
  · split
    · exact Nat.le_succ _
    · simp

/-- Under a higher limit a program is read in the same way, or it was reported that an expression
is nested too deeply; and for this there are tokens enough. -/
theorem run_guarded (tokens : List Token) (rollback : RollbackPolicy) {d d' : Nat} (hle : d ≤ d')
    (traced : Bool) :
    run tokens ⟨rollback, d'⟩ traced =
        { run tokens ⟨rollback, d⟩ traced with options := ⟨rollback, d'⟩ } ∨
      (run tokens ⟨rollback, d⟩ traced).Complains ∧ d < tokens.length := by
  have hlower := (leads_statements (allows_start tokens ⟨rollback, d⟩ traced) (Nat.le_refl _)).1
  have hhigher := (leads_statements (allows_start tokens ⟨rollback, d'⟩ traced) (Nat.le_refl _)).1
  rcases hlower.guarded d' hle with ⟨_, _, hends⟩ | ⟨hcomplains, hroom⟩
  · left
    obtain ⟨_, _, hends', _⟩ := hhigher.ends
    have hsame := congrArg Prod.snd (hends.unique hends').1
    have hoptions : (run tokens ⟨rollback, d⟩ traced).options = ⟨rollback, d⟩ := hlower.options
    have hlimit : (run tokens ⟨rollback, d⟩ traced).withLimit d' =
        { run tokens ⟨rollback, d⟩ traced with options := ⟨rollback, d'⟩ } := by
      rw [Session.withLimit, hoptions]
    exact hsame.trans hlimit
  · right
    have hlength := length_ended_le tokens
    have hroom : d + 1 < (Session.ended tokens).length := hroom
    exact ⟨hcomplains, by omega⟩

/-- **The limit on nesting is only a guard.**  If a program is not reported to be nested too deeply
under one limit, then under a higher limit the same markers are completed, the same errors are
reported and the session ends at the same token: nothing differs but the limit.  From as many
levels as there are tokens on, the limit makes no difference at all. -/
theorem nesting_limit_guards (tokens : List Token) (rollback : RollbackPolicy) (traced : Bool) :
    (∀ d d', d ≤ d' →
      (∀ e ∈ (run tokens ⟨rollback, d⟩ traced).errors,
        e.message ≠ "expression nested too deeply") →
      run tokens ⟨rollback, d'⟩ traced =
        { run tokens ⟨rollback, d⟩ traced with options := ⟨rollback, d'⟩ }) ∧
    ∀ d d', tokens.length ≤ d → tokens.length ≤ d' →
      run tokens ⟨rollback, d'⟩ traced =
        { run tokens ⟨rollback, d⟩ traced with options := ⟨rollback, d'⟩ } := by
  constructor
  · intro d d' hle hquiet
    rcases run_guarded tokens rollback hle traced with hsame | ⟨⟨e, he, hmessage⟩, _⟩
    · exact hsame
    · exact absurd hmessage (hquiet e he)
  · -- both are read as under the least of these limits
    have hleast : ∀ d, tokens.length ≤ d → run tokens ⟨rollback, d⟩ traced =
        { run tokens ⟨rollback, tokens.length⟩ traced with options := ⟨rollback, d⟩ } := by
      intro d hd
      rcases run_guarded tokens rollback hd traced with hsame | ⟨_, hlt⟩
      · exact hsame
      · exact absurd hlt (Nat.lt_irrefl _)
    intro d d' hd hd'
    rw [hleast d hd, hleast d' hd']

/-- A name in brackets: an expression inside of another. -/
def bracketed : List Token :=
  [⟨.punctuation, "(", ⟨0, 1⟩⟩, ⟨.identifier, "x", ⟨1, 2⟩⟩,
    ⟨.punctuation, ")", ⟨2, 3⟩⟩]

theorem nesting_limit_guards_bracketed :
    (run bracketed ⟨.keepErrors, 1⟩ false).errors.map (·.message) =
        ["expression nested too deeply"] ∧
      (run bracketed ⟨.keepErrors, 2⟩ false).errors = [] ∧
      run bracketed ⟨.keepErrors, 7⟩ false =
        { run bracketed ⟨.keepErrors, 2⟩ false with options := ⟨.keepErrors, 7⟩ } ∧
      run bracketed ⟨.retractErrors, 3⟩ true =
        { run bracketed ⟨.retractErrors, 4⟩ true with options := ⟨.retractErrors, 3⟩ } := by
  have hquiet : (run bracketed ⟨.keepErrors, 2⟩ false).errors = [] := by decide
  refine ⟨by decide, hquiet, ?_, ?_⟩
  · apply (nesting_limit_guards bracketed .keepErrors false).1 2 7 (by decide)
    rw [hquiet]
    simp
  · exact (nesting_limit_guards bracketed .retractErrors true).2 4 3 (by decide) (by decide)

end Lossless.Calculator
