import Lossless.Proofs.Coverage

/-!
# Reading step by step

Every loop of the lexer is given as many rounds as there are characters left, and takes at least
one character in a round.  So it never runs out of rounds, and **more rounds change nothing**
(`code_steady`).

This turns reading into steps.  The first rule that applies at the start of a text reads some
lexemes (`lexemesAtTop`), and what comes behind them is read as a text of its own
(`lexemes_step`): outside of strings nothing but the rest of the text is carried from one token
to the next, neither the braces of a block nor the depth at which blocks nest.
-/

namespace Lossless

/-- A reader of blocks that gives the same for all numbers of rounds that suffice. -/
def BlockScanner.Steady (block : BlockScanner) : Prop :=
  ∀ rounds rounds' lineBound cs, cs.length ≤ rounds → cs.length ≤ rounds' →
    block rounds lineBound cs = block rounds' lineBound cs

/-- What is left behind a beginning is no longer than the whole. -/
theorem Lexeme.Split.length_rest_le {ls : List Lexeme} {rest cs : List Char}
    (h : Lexeme.Split ls rest cs) : rest.length ≤ cs.length := by
  rw [← h.joined, List.length_append]
  exact Nat.le_add_left _ _

theorem length_splitBefore_le (stops : List Char → Bool) (cs : List Char) :
    (splitBefore stops cs).2.length ≤ cs.length := by
  have hjoined := congrArg List.length (splitBefore_joined stops cs)
  rw [List.length_append] at hjoined
  omega

section Steadiness

variable (r : Rules) {block? : Option BlockScanner}
  (hsplits : ∀ block ∈ block?, BlockScanner.Splits block)
  (hsteady : ∀ block ∈ block?, BlockScanner.Steady block)
include hsplits hsteady

theorem pieces_steady (style : StringStyle) (delimiter : List Char) {rounds rounds' : Nat}
    {cs : List Char} (h : cs.length ≤ rounds) (h' : cs.length ≤ rounds') :
    pieces r block? style delimiter rounds cs = pieces r block? style delimiter rounds' cs := by
  induction rounds generalizing rounds' cs with
  | zero =>
      obtain rfl := List.length_eq_zero_iff.mp (Nat.le_zero.mp h)
      cases rounds' <;> rfl
  | succ rounds ih =>
      cases cs with
      | nil => cases rounds' <;> rfl
      | cons c cs =>
          simp only [List.length_cons] at h h'
          obtain ⟨rounds', rfl⟩ : ∃ n, rounds' = n + 1 := ⟨rounds' - 1, by omega⟩
          have hcs : cs.length ≤ rounds := Nat.le_of_add_le_add_right h
          have hcs' : cs.length ≤ rounds' := Nat.le_of_add_le_add_right h'
          -- whatever is left to be read is no longer than `cs`
          have hrest : ∀ {rest : List Char}, rest.length ≤ cs.length →
              pieces r block? style delimiter rounds rest =
                pieces r block? style delimiter rounds' rest :=
            fun hle => ih (Nat.le_trans hle hcs) (Nat.le_trans hle hcs')
          simp only [pieces]
          by_cases hescape : (some c == r.escapeChar) = true
          · simp only [hescape, if_true]
            cases cs with
            | nil => rfl
            | cons d ds => simp only [hrest (show ds.length ≤ (d :: ds).length by simp)]
          simp only [hescape, if_false, Bool.false_eq_true]
          cases hopens : interpolation? r block?.isSome (c :: cs) with
          | none => simp only [hrest (length_splitBefore_le _ cs)]
          | some opens =>
              cases opens with
              | name =>
                  cases cs with
                  | nil => rfl
                  | cons d ds =>
                      have hword := (Plain.word_splits r d ds).split.length_rest_le
                      simp only [hrest hword]
              | block =>
                  cases block? with
                  | none => simp only [hrest (length_splitBefore_le _ cs)]
                  | some block =>
                      have hdrop : (cs.drop 1).length ≤ cs.length := by simp
                      have hinner := (hsplits block rfl rounds' (style == .singleLine)
                        (cs.drop 1)).length_rest_le
                      simp only [hsteady block rfl rounds rounds' (style == .singleLine) (cs.drop 1)
                        (Nat.le_trans hdrop hcs) (Nat.le_trans hdrop hcs'),
                        hrest (Nat.le_trans hinner hdrop)]

theorem stringLiteral_steady {style : StringStyle} {delimiter : List Char} {rounds rounds' : Nat}
    {c : Char} {cs : List Char} (hopening : opening? r (c :: cs) = some (style, delimiter))
    (h : cs.length ≤ rounds) (h' : cs.length ≤ rounds') :
    stringLiteral r block? style delimiter rounds (c :: cs) =
      stringLiteral r block? style delimiter rounds' (c :: cs) := by
  have hpos := List.length_pos_iff.mpr (opening?_isPrefixOf hopening).1
  have hbehind : ((c :: cs).drop delimiter.length).length ≤ cs.length := by
    rw [List.length_drop, List.length_cons]
    omega
  simp only [stringLiteral, pieces_steady r hsplits hsteady style delimiter
    (Nat.le_trans hbehind h) (Nat.le_trans hbehind h')]

theorem lexemesAt_steady {rounds rounds' : Nat} (c : Char) {cs : List Char}
    (h : cs.length ≤ rounds) (h' : cs.length ≤ rounds') :
    lexemesAt r block? rounds c cs = lexemesAt r block? rounds' c cs := by
  unfold lexemesAt
  split
  · rfl
  · split
    · rename_i style delimiter hopening
      exact stringLiteral_steady r hsplits hsteady hopening h h'
    · rfl

/-- **Code needs no more rounds than there are characters.** -/
theorem tokensIn_steady (region : Region) {rounds rounds' : Nat} (braces : Nat) {cs : List Char}
    (h : cs.length ≤ rounds) (h' : cs.length ≤ rounds') :
    tokensIn r block? region rounds braces cs = tokensIn r block? region rounds' braces cs := by
  induction rounds generalizing rounds' braces cs with
  | zero =>
      obtain rfl := List.length_eq_zero_iff.mp (Nat.le_zero.mp h)
      cases rounds' <;> rfl
  | succ rounds ih =>
      cases cs with
      | nil => cases rounds' <;> rfl
      | cons c cs =>
          simp only [List.length_cons] at h h'
          obtain ⟨rounds', rfl⟩ : ∃ n, rounds' = n + 1 := ⟨rounds' - 1, by omega⟩
          have hcs : cs.length ≤ rounds := Nat.le_of_add_le_add_right h
          have hcs' : cs.length ≤ rounds' := Nat.le_of_add_le_add_right h'
          obtain ⟨hsplit, hne⟩ := lexemesAt_split r hsplits rounds' c cs
          have hrest : (lexemesAt r block? rounds' c cs).2.length ≤ cs.length :=
            Nat.le_of_lt_succ (hsplit.length_rest_lt hne)
          simp only [tokensIn]
          cases region.gate braces c with
          | close => rfl
          | halt => rfl
          | token open' =>
              simp only [lexemesAt_steady r hsplits hsteady c hcs hcs',
                ih open' (Nat.le_trans hrest hcs) (Nat.le_trans hrest hcs')]

end Steadiness

theorem code_steady (r : Rules) (levels : Nat) (region : Region) {rounds rounds' : Nat}
    {cs : List Char} (h : cs.length ≤ rounds) (h' : cs.length ≤ rounds') :
    code r levels region rounds cs = code r levels region rounds' cs := by
  induction levels generalizing region rounds rounds' cs with
  | zero => exact tokensIn_steady r (by simp) (by simp) region 0 h h'
  | succ levels ih =>
      refine tokensIn_steady r ?_ ?_ region 0 h h'
      · intro block hb
        obtain rfl := Option.some.inj hb
        exact fun rounds lineBound cs => code_split r levels (.block lineBound) rounds cs
      · intro block hb
        obtain rfl := Option.some.inj hb
        exact fun _ _ lineBound _ hle hle' => ih (.block lineBound) hle hle'

/-! ## Steps -/

/-- How the blocks of a literal outside of all others are read. -/
def outermostBlock (r : Rules) : BlockScanner :=
  fun rounds lineBound => code r (maxBlockDepth - 1) (.block lineBound) rounds

theorem outermostBlock_splits (r : Rules) :
    ∀ block ∈ some (outermostBlock r), BlockScanner.Splits block := by
  intro block hb
  obtain rfl := Option.some.inj hb
  exact fun rounds lineBound cs => code_split r _ (.block lineBound) rounds cs

theorem outermostBlock_steady (r : Rules) :
    ∀ block ∈ some (outermostBlock r), BlockScanner.Steady block := by
  intro block hb
  obtain rfl := Option.some.inj hb
  exact fun _ _ lineBound _ h h' => code_steady r _ (.block lineBound) h h'

/-- The lexemes with which the text `c :: cs` begins, outside of all strings, and the rest. -/
def lexemesAtTop (r : Rules) (c : Char) (cs : List Char) : List Lexeme × List Char :=
  lexemesAt r (some (outermostBlock r)) cs.length c cs

theorem lexemes_joined (r : Rules) (cs : List Char) : Lexeme.joined (lexemes r cs) = cs := by
  simpa using (lexemes_split r cs).joined

@[simp] theorem lexemes_nil (r : Rules) : lexemes r [] = [] := rfl

/-- **One step of reading.**  Behind the lexemes with which a text begins, the rest is read as a
text of its own. -/
theorem lexemes_step (r : Rules) (c : Char) (cs : List Char) :
    lexemes r (c :: cs) = (lexemesAtTop r c cs).1 ++ lexemes r (lexemesAtTop r c cs).2 := by
  have hsplits := outermostBlock_splits r
  obtain ⟨hsplit, hne⟩ := lexemesAt_split r hsplits cs.length c cs
  have hrest : (lexemesAtTop r c cs).2.length ≤ cs.length :=
    Nat.le_of_lt_succ (hsplit.length_rest_lt hne)
  have hsame := tokensIn_steady r hsplits (outermostBlock_steady r) .top 0 hrest (Nat.le_refl _)
  exact congrArg (fun scan => (lexemesAtTop r c cs).1 ++ Scan.lexemes scan) hsame

theorem lexemesAtTop_split (r : Rules) (c : Char) (cs : List Char) :
    Lexeme.Split (lexemesAtTop r c cs).1 (lexemesAtTop r c cs).2 (c :: cs) ∧
      (lexemesAtTop r c cs).1 ≠ [] :=
  lexemesAt_split r (outermostBlock_splits r) cs.length c cs

/-- To show something of every text, show that it holds if it does of what a step leaves. -/
theorem lexemes_induction (r : Rules) {motive : List Char → Prop} (nil : motive [])
    (step : ∀ c cs, motive (lexemesAtTop r c cs).2 → motive (c :: cs)) :
    (cs : List Char) → motive cs
  | [] => nil
  | c :: cs => step c cs (lexemes_induction r nil step (lexemesAtTop r c cs).2)
termination_by cs => cs.length
decreasing_by
  obtain ⟨hsplit, hne⟩ := lexemesAtTop_split r c cs
  exact hsplit.length_rest_lt hne

end Lossless
