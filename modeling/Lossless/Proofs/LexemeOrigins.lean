import Lossless.Proofs.BrokenLiterals
import Lossless.Proofs.RulePriority

/-!
# How each lexeme is read

A lexeme is a piece of a literal, a name behind a mark, a line end or blanks or a comment, a plain
token, or what is left of a literal that broke off.  **Every lexeme is read in one of these five
ways off the text from its start on** (`originates_lexemes`), in blocks of literals as outside of
them, and so is every token of a window (`originates_of_mem_tokenize`).

This is the one place at which the scanners are opened for such facts: what holds of each of the
five ways holds of every lexeme of every text.
-/

namespace Lossless

/-- How a lexeme is read if `rest` is the text behind it. -/
inductive Rules.Originates (r : Rules) : Lexeme → List Char → Prop
  /-- A piece of a literal. -/
  | part (part : StringPart) (text rest : List Char) : Originates r ⟨.string part, text⟩ rest
  /-- A name behind a mark. -/
  | name (c : Char) (cs : List Char) :
      Originates r (Plain.word r c cs).lexeme (Plain.word r c cs).rest
  /-- A line end, blanks or a comment. -/
  | trivia {cs : List Char} {cut : Cut}
      (h : (Plain.linebreak? cs <|> Plain.blanks? cs <|> Plain.comment? r cs) = some cut) :
      Originates r cut.lexeme cut.rest
  /-- What stands where neither of these begins, and no string either. -/
  | token {c : Char} {cs : List Char} (h : r.IsPlainAt c cs) :
      Originates r (Plain.token r c cs).lexeme (Plain.token r c cs).rest
  /-- What is left of a literal that broke off, at the end of a line or of the text. -/
  | broken {text rest : List Char} {style : StringStyle} {delimiter : List Char}
      (hopening : opening? r (text ++ rest) = some (style, delimiter))
      (hbegins : delimiter <+: text) (hend : AtLineEnd rest) : Originates r ⟨.error, text⟩ rest

/-- Each lexeme of a row is read in one of these ways, with `rest` behind the row. -/
def Rules.AllOriginate (r : Rules) (rest : List Char) : List Lexeme → Prop
  | [] => True
  | l :: ls => r.Originates l (Lexeme.joined ls ++ rest) ∧ r.AllOriginate rest ls

namespace Rules.AllOriginate

variable {r : Rules} {l : Lexeme} {ls ms : List Lexeme} {rest : List Char}

theorem single (h : r.Originates l rest) : r.AllOriginate rest [l] :=
  ⟨h, trivial⟩

theorem part {part : StringPart} {text : List Char} (h : r.AllOriginate rest ls) :
    r.AllOriginate rest (⟨.string part, text⟩ :: ls) :=
  ⟨.part part text _, h⟩

theorem append (hls : r.AllOriginate (Lexeme.joined ms ++ rest) ls)
    (hms : r.AllOriginate rest ms) : r.AllOriginate rest (ls ++ ms) := by
  induction ls with
  | nil => exact hms
  | cons l ls ih =>
      have hjoined : Lexeme.joined (ls ++ ms) ++ rest =
          Lexeme.joined ls ++ (Lexeme.joined ms ++ rest) := by
        rw [Lexeme.joined_append, List.append_assoc]
      refine ⟨?_, ih hls.2⟩
      rw [List.append_eq, hjoined]
      exact hls.1

/-- A scan behind a row. -/
theorem after {scan : Scan} {middle : List Char} (hls : r.AllOriginate middle ls)
    (hsplit : Lexeme.Split scan.lexemes scan.rest middle)
    (h : r.AllOriginate scan.rest scan.lexemes) :
    r.AllOriginate (scan.after ls).rest (scan.after ls).lexemes := by
  rw [← hsplit.joined] at hls
  exact hls.append h

/-- **How a lexeme of a row is read.** -/
theorem of_eq_append (h : r.AllOriginate rest ls) {before after : List Lexeme}
    (heq : ls = before ++ l :: after) : r.Originates l (Lexeme.joined after ++ rest) := by
  subst heq
  induction before with
  | nil => exact h.1
  | cons b before ih => exact ih h.2

end Rules.AllOriginate

/-- A reader of blocks that reads every lexeme in one of the five ways. -/
structure BlockScanner.Originates (r : Rules) (block : BlockScanner) : Prop where
  splits : block.Splits
  halts : block.Halts
  all : ∀ rounds lineBound cs, cs.length ≤ rounds →
    r.AllOriginate (block rounds lineBound cs).rest (block rounds lineBound cs).lexemes

section Scanners

variable {r : Rules} {block? : Option BlockScanner}
  (hblock : ∀ block ∈ block?, BlockScanner.Originates r block)
include hblock

theorem pieces_originate (style : StringStyle) {delimiter : List Char} (hdelimiter : delimiter ≠ [])
    {rounds : Nat} {cs : List Char} (hrounds : cs.length ≤ rounds) :
    r.AllOriginate (pieces r block? style delimiter rounds cs).rest
      (pieces r block? style delimiter rounds cs).lexemes := by
  have hsplits : ∀ block ∈ block?, BlockScanner.Splits block :=
    fun block hb => (hblock block hb).splits
  have hsplit := pieces_split r hsplits style hdelimiter
  -- the rounds matter to blocks only: with too few a literal in one breaks off within its line
  fun_induction pieces r block? style delimiter rounds cs with
  | case1 | case2 | case3 => trivial
  | case4 | case5 | case6 => exact .part trivial
  | case7 rounds c hbreaks hescape d ds hbreaks' hclose ih =>
      simp only [List.length_cons] at hrounds
      exact .after (.part trivial) (hsplit rounds ds) (ih (by omega))
  | case8 rounds c cs hbreaks hclose hescape block hb hopens inner hclosed ih =>
      have hdrop : (cs.drop 1).length ≤ rounds := by
        simp only [List.length_drop, List.length_cons] at hrounds ⊢
        omega
      have hle := (hsplits block hb rounds (style == .singleLine) (cs.drop 1)).length_rest_le
      subst hb
      simp only [hopens]
      rw [if_pos hclosed]
      exact .after (.part ((hblock block rfl).all _ _ _ hdrop)) (hsplit rounds _)
        (ih (Nat.le_trans hle hdrop))
  | case9 rounds c cs hbreaks hclose hescape block hb hopens inner hclosed =>
      have hdrop : (cs.drop 1).length ≤ rounds := by
        simp only [List.length_drop, List.length_cons] at hrounds ⊢
        omega
      subst hb
      simp only [hopens]
      rw [if_neg hclosed]
      exact .part ((hblock block rfl).all _ _ _ hdrop)
  | case10 rounds c hbreaks hescape hclose hopens =>
      simp only [hopens]
      exact .part trivial
  | case11 rounds c hbreaks hescape d ds name hclose hopens ih =>
      have hle := (Plain.word_splits r d ds).split.length_rest_le
      simp only [List.length_cons] at hrounds hle
      simp only [hopens]
      exact .after (.part (.single (.name d ds))) (hsplit rounds _)
        (ih (Nat.le_trans hle (by omega)))
  | case12 rounds c cs hbreaks hclose hescape run rest hrun hname hopens ih =>
      have hle := length_splitBefore_le (contentStops r block?.isSome style delimiter) cs
      rw [hrun] at hle
      simp only [List.length_cons] at hrounds hle
      split
      · rename_i block hinterpolation
        exact absurd rfl (hopens block hinterpolation)
      · rename_i hinterpolation
        exact absurd hinterpolation hname
      · rw [hrun]
        exact .after (.part trivial) (hsplit rounds _) (ih (by omega))

/-- **A literal comes to its end, or it is one error.** -/
theorem stringLiteral_originate {style : StringStyle} {delimiter : List Char} {rounds : Nat}
    {cs : List Char} (hopening : opening? r cs = some (style, delimiter))
    (hrounds : (cs.drop delimiter.length).length ≤ rounds) :
    r.AllOriginate (stringLiteral r block? style delimiter rounds cs).2
      (stringLiteral r block? style delimiter rounds cs).1 := by
  have hsplits : ∀ block ∈ block?, BlockScanner.Splits block :=
    fun block hb => (hblock block hb).splits
  have hne := (opening?_isPrefixOf hopening).1
  have hpieces := pieces_originate hblock style hne hrounds
  have hsplit := (stringLiteral_split hsplits rounds hopening).1
  simp only [stringLiteral, Scan.sealed] at hsplit ⊢
  split at hsplit
  · rename_i hclosed
    rw [if_pos hclosed]
    exact hpieces.part
  · rename_i hopen
    rw [if_neg hopen]
    have hend := pieces_halts r hsplits (fun block hb => (hblock block hb).halts) style delimiter
      hrounds (Bool.eq_false_iff.mpr hopen)
    have htext := hsplit.joined
    rw [Lexeme.joined_cons, show Lexeme.joined [] = [] from rfl, List.append_nil] at htext
    rw [← htext] at hopening
    exact .single (.broken hopening (List.prefix_append _ _) hend)

/-- **One step of code.** -/
theorem lexemesAt_originate {rounds : Nat} {c : Char} {cs : List Char}
    (hrounds : cs.length ≤ rounds) :
    r.AllOriginate (lexemesAt r block? rounds c cs).2 (lexemesAt r block? rounds c cs).1 := by
  unfold lexemesAt
  split
  · rename_i cut hcut
    exact .single (.trivia hcut)
  · rename_i htrivia
    simp only [Option.orElse_eq_orElse, Option.orElse_eq_or, Option.or_eq_none_iff] at htrivia
    obtain ⟨hline, hblanks, hcomment⟩ := htrivia
    split
    · rename_i style delimiter hopening
      have hpos := List.length_pos_iff.mpr (opening?_isPrefixOf hopening).1
      apply stringLiteral_originate hblock hopening
      simp only [List.length_drop, List.length_cons]
      omega
    · rename_i hstring
      have hplain : r.IsPlainAt c cs :=
        ⟨Plain.isLineEnd_of_linebreak?_eq_none hline, by simpa [Plain.blanks?] using hblanks,
          hcomment, hstring⟩
      exact .single (.token hplain)

theorem tokensIn_originate (region : Region) {rounds : Nat} (braces : Nat) {cs : List Char}
    (hrounds : cs.length ≤ rounds) :
    r.AllOriginate (tokensIn r block? region rounds braces cs).rest
      (tokensIn r block? region rounds braces cs).lexemes := by
  have hsplits : ∀ block ∈ block?, BlockScanner.Splits block :=
    fun block hb => (hblock block hb).splits
  have hsplit := tokensIn_split r hsplits region
  fun_induction tokensIn r block? region rounds braces cs with
  | case1 | case2 | case4 => trivial
  | case3 => exact .part trivial
  | case5 rounds braces c cs open' hgate ls rest hstep ih =>
      obtain ⟨hcut, hne⟩ := lexemesAt_split r hsplits rounds c cs
      have hlt := hcut.length_rest_lt hne
      have hls := lexemesAt_originate hblock (c := c) (Nat.le_of_succ_le_succ hrounds)
      rw [hstep] at hlt hls
      simp only [List.length_cons] at hlt hrounds
      exact hls.after (hsplit rounds open' rest) (ih (by omega))

end Scanners

theorem code_originate (r : Rules) (levels : Nat) (region : Region) {rounds : Nat}
    {cs : List Char} (hrounds : cs.length ≤ rounds) :
    r.AllOriginate (code r levels region rounds cs).rest
      (code r levels region rounds cs).lexemes := by
  induction levels generalizing region rounds cs with
  | zero => exact tokensIn_originate (by simp) region 0 hrounds
  | succ levels ih =>
      refine tokensIn_originate ?_ region 0 hrounds
      intro block hb
      obtain rfl := Option.some.inj hb
      exact ⟨fun rounds lineBound cs => code_split r levels (.block lineBound) rounds cs,
        fun rounds lineBound cs => code_halts r levels (.block lineBound),
        fun rounds lineBound cs => ih (.block lineBound)⟩

/-- **Every lexeme of a text is read in one of the five ways.** -/
theorem originates_lexemes (r : Rules) {cs : List Char} {before after : List Lexeme} {l : Lexeme}
    (heq : lexemes r cs = before ++ l :: after) : r.Originates l (Lexeme.joined after) := by
  have hall := code_originate r maxBlockDepth .top (Nat.le_refl cs.length)
  rw [code_top_rest] at hall
  have horigin := hall.of_eq_append heq
  rwa [List.append_nil] at horigin

/-- **Every token but the last is read in one of the five ways** off the text from its start to the
end of the window. -/
theorem originates_of_mem_tokenize {source : String} {config : Config} {asked : Option Span}
    {t : Token} (ht : t ∈ tokenize source config asked) (hkind : t.kind ≠ .eof) :
    ∃ rest, Text.slice? source.toList t.span.start (window source.toList asked).stop =
        some (t.text.toList ++ rest) ∧
      (Rules.ofConfig config).Originates t.lexeme rest := by
  obtain ⟨as, ms, bs, hsource, hwindow⟩ := window_eq source.toList asked
  rw [tokenize_eq_stream config hsource hwindow] at ht
  obtain ⟨before, after, htokens⟩ := List.append_of_mem ht
  rcases Lexeme.stream_eq_append htokens with
    ⟨ks, l, ls, hls, _, rfl, hstart, _, _⟩ | ⟨rfl, _, _⟩
  · refine ⟨Lexeme.joined ls, ?_, originates_lexemes _ hls⟩
    have hms : ms = Lexeme.joined ks ++ (t.text.toList ++ Lexeme.joined ls) := by
      rw [← lexemes_joined (Rules.ofConfig config) ms, hls, Lexeme.joined_append,
        Lexeme.joined_cons]
      rfl
    have hmiddle := Text.slice?_middle (as ++ Lexeme.joined ks)
      (t.text.toList ++ Lexeme.joined ls) bs
    rw [hwindow, hsource, hstart, hms]
    simpa [Text.byteSize_append, Nat.add_assoc] using hmiddle
  · exact absurd rfl hkind

end Lossless
