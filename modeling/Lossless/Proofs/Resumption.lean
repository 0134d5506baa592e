import Lossless.Proofs.Steps
import Lossless.Proofs.StringGrammar
import Lossless.Proofs.Windows
import Mathlib

/-!
# Reading can be resumed

Outside of all strings, reading may start anew at any token: **what is read from there on is what
was read there before** (`tokenize_resume`).  Whether a place is outside of all strings can be
told by counting: as many literals have been closed before it as opened.

Reading goes step by step, and a step reads one plain token, one error, or one literal with all
its pieces.  No beginning of a stretch closes more literals than it opens
(`WellNested.balanced`), so in the middle of a step more has been opened than closed
(`IsStep.closed_lt_opened`).  A place at which the counts agree therefore lies between two steps,
and the steps behind it do not depend on those before it (`lexemes_resume`).
-/

namespace Lossless

/-! ## Counting literals -/

namespace Lexeme

/-- How many literals are opened along a row of lexemes. -/
def opened (ls : List Lexeme) : Nat :=
  (ls.map fun l => Nest.opens l.kind).sum

/-- How many literals are closed along a row of lexemes. -/
def closed (ls : List Lexeme) : Nat :=
  (ls.map fun l => Nest.closes l.kind).sum

@[simp] theorem opened_nil : opened [] = 0 := rfl

@[simp] theorem closed_nil : closed [] = 0 := rfl

@[simp] theorem opened_cons (l : Lexeme) (ls : List Lexeme) :
    opened (l :: ls) = Nest.opens l.kind + opened ls := by
  simp [opened]

@[simp] theorem closed_cons (l : Lexeme) (ls : List Lexeme) :
    closed (l :: ls) = Nest.closes l.kind + closed ls := by
  simp [closed]

@[simp] theorem opened_append (ks ls : List Lexeme) : opened (ks ++ ls) = opened ks + opened ls := by
  simp [opened]

@[simp] theorem closed_append (ks ls : List Lexeme) : closed (ks ++ ls) = closed ks + closed ls := by
  simp [closed]

/-- A row of lexemes that closes all the literals it opens, and none before it opens it. -/
structure Balanced (ls : List Lexeme) : Prop where
  whole : closed ls = opened ls
  beginning : ∀ ks, ks <+: ls → closed ks ≤ opened ks

/-- A lexeme that neither opens a literal nor closes one. -/
def IsInert (l : Lexeme) : Prop := Nest.opens l.kind = 0 ∧ Nest.closes l.kind = 0

namespace Balanced

theorem nil : Balanced [] := by
  refine ⟨rfl, ?_⟩
  intro ks hks
  obtain rfl := List.prefix_nil.mp hks
  exact Nat.le_refl _

theorem append {ks ls : List Lexeme} (hks : Balanced ks) (hls : Balanced ls) :
    Balanced (ks ++ ls) := by
  refine ⟨by simp [hks.whole, hls.whole], ?_⟩
  intro ps hps
  rcases List.prefix_or_prefix_of_prefix hps (List.prefix_append ks ls) with hin | ⟨qs, rfl⟩
  · exact hks.beginning ps hin
  · have hqs := hls.beginning qs ((List.prefix_append_right_inj ks).mp hps)
    have hwhole := hks.whole
    simp only [closed_append, opened_append]
    omega

/-- Lexemes of which the first closes no literal and the last one as many as the first opens. -/
theorem enclose {inner : List Lexeme} (h : Balanced inner) {opener closer : Lexeme}
    (hopener : Nest.closes opener.kind = 0) (hcloser : Nest.opens closer.kind = 0)
    (hpair : Nest.closes closer.kind = Nest.opens opener.kind) :
    Balanced (opener :: inner ++ [closer]) := by
  have hwhole := h.whole
  refine ⟨by simp [hopener, hcloser, hpair, hwhole, Nat.add_comm], ?_⟩
  intro ps hps
  rcases List.prefix_concat_iff.mp hps with rfl | hps
  · simp [hopener, hcloser, hpair, hwhole, Nat.add_comm]
  · rcases List.prefix_cons_iff.mp hps with rfl | ⟨qs, rfl, hqs⟩
    · exact Nat.le_refl _
    · have hle := h.beginning qs hqs
      simp only [closed_cons, opened_cons]
      omega

theorem cons_inert {l : Lexeme} (hl : l.IsInert) {ls : List Lexeme} (h : Balanced ls) :
    Balanced (l :: ls) := by
  have hsingle : Balanced [l] := by
    refine ⟨by simp [hl.1, hl.2], ?_⟩
    intro ps hps
    rcases List.prefix_cons_iff.mp hps with rfl | ⟨qs, rfl, hqs⟩
    · exact Nat.le_refl _
    · obtain rfl := List.prefix_nil.mp hqs
      simp [hl.2]
  exact hsingle.append h

end Balanced

end Lexeme

open Lexeme (opened closed)

/-- **Whatever derives from the grammar of strings is balanced.** -/
theorem WellNested.balanced {stretch : Stretch} {ls : List Lexeme} (h : WellNested stretch ls) :
    Lexeme.Balanced ls := by
  induction h with
  | empty stretch => exact .nil
  | plain hpart _ _ _ ih => exact .cons_inert (Nest.opens_plain hpart) ih
  | literal hopener _ hcloser _ ihinner ih =>
      rw [List.append_cons]
      exact (ihinner.enclose (by rw [hopener]; rfl) (by rw [hcloser]; rfl)
        (by rw [hopener, hcloser]; rfl)).append ih
  | content hkind _ _ ih =>
      refine .cons_inert ?_ ih
      rcases hkind with hkind | hkind <;> rw [Lexeme.IsInert, hkind] <;> exact ⟨rfl, rfl⟩
  | name hmark hword _ ih =>
      refine .cons_inert ?_ (.cons_inert ?_ ih)
      · rw [Lexeme.IsInert, hmark]
        exact ⟨rfl, rfl⟩
      · rcases hword with hword | hword <;> rw [Lexeme.IsInert, hword] <;> exact ⟨rfl, rfl⟩
  | block hopener _ hcloser _ ihinner ih =>
      rw [List.append_cons]
      exact (ihinner.enclose (by rw [hopener]; rfl) (by rw [hcloser]; rfl)
        (by rw [hopener, hcloser]; rfl)).append ih

/-! ## Steps -/

/-- What one step reads: a single lexeme, or a literal up to its closing delimiter. -/
inductive IsStep : List Lexeme → Prop
  | single (l : Lexeme) : IsStep [l]
  | literal {style : StringStyle} {opener closer : Lexeme} {inner : List Lexeme}
      (hopener : opener.kind = .string (.opening style)) (hinner : Lexeme.Balanced inner)
      (hcloser : closer.kind = .string (.closing style)) : IsStep (opener :: inner ++ [closer])

/-- **In the middle of a step a literal is open.** -/
theorem IsStep.closed_lt_opened {ks ms : List Lexeme} (h : IsStep (ks ++ ms)) (hks : ks ≠ [])
    (hms : ms ≠ []) : closed ks < opened ks := by
  generalize hls : ks ++ ms = ls at h
  cases h with
  | single l =>
      rcases List.append_eq_singleton_iff.mp hls with ⟨rfl, _⟩ | ⟨_, rfl⟩
      · exact absurd rfl hks
      · exact absurd rfl hms
  | @literal style opener closer inner hopener hinner hcloser =>
      have hproper : ks <+: opener :: inner := by
        rcases List.prefix_concat_iff.mp ⟨ms, hls⟩ with rfl | hproper
        · exact absurd (List.append_right_eq_self.mp hls) hms
        · exact hproper
      rcases List.prefix_cons_iff.mp hproper with rfl | ⟨qs, rfl, hqs⟩
      · exact absurd rfl hks
      · have hle := hinner.beginning qs hqs
        have hopens : Nest.opens opener.kind = 1 ∧ Nest.closes opener.kind = 0 := by
          rw [hopener]
          exact ⟨rfl, rfl⟩
        simp only [Lexeme.closed_cons, Lexeme.opened_cons]
        omega

theorem lexemesAt_isStep (r : Rules) {levels : Nat} {block? : Option BlockScanner}
    (hblock : BlocksNest levels block?) (rounds : Nat) (c : Char) (cs : List Char) :
    IsStep (lexemesAt r block? rounds c cs).1 := by
  unfold lexemesAt
  split
  · exact .single _
  · split
    · rename_i style delimiter _
      unfold stringLiteral Scan.sealed
      simp only
      split
      · rename_i hclosed
        obtain ⟨inner, closer, hls, hcloser, hinner⟩ :=
          pieces_wellNested r hblock style delimiter rounds ((c :: cs).drop delimiter.length) hclosed
        rw [Scan.after, hls, ← List.append_assoc]
        exact .literal rfl hinner.balanced hcloser
      · exact .single _
    · exact .single _

theorem outermostBlock_nests (r : Rules) : BlocksNest maxBlockDepth (some (outermostBlock r)) := by
  intro block hb
  obtain rfl := Option.some.inj hb
  refine ⟨maxBlockDepth - 1, rfl, ?_⟩
  intro rounds style cs hclosed
  have hcode := code_isCode r (maxBlockDepth - 1) (.block (style == .singleLine)) rounds cs
    ⟨style, rfl, rfl⟩
  exact (hcode.closed hclosed).2

theorem lexemesAtTop_isStep (r : Rules) (c : Char) (cs : List Char) :
    IsStep (lexemesAtTop r c cs).1 :=
  lexemesAt_isStep r (outermostBlock_nests r) cs.length c cs

theorem lexemesAtTop_balanced (r : Rules) (c : Char) (cs : List Char) :
    Lexeme.Balanced (lexemesAtTop r c cs).1 := by
  have hnested : WellNested (.code none maxBlockDepth) (lexemesAtTop r c cs).1 :=
    lexemesAt_wellNested r (outermostBlock_nests r) cs.length c cs (by intro h; cases h)
  exact hnested.balanced

/-- **Reading can be resumed behind a balanced beginning.**  What has been read there is what is
read of the rest of the text on its own. -/
theorem lexemes_resume (r : Rules) (cs : List Char) {ks ms : List Lexeme}
    (h : lexemes r cs = ks ++ ms) (hcount : closed ks = opened ks) :
    lexemes r (Lexeme.joined ms) = ms := by
  induction cs using lexemes_induction r generalizing ks with
  | nil =>
      obtain ⟨_, rfl⟩ := List.append_eq_nil_iff.mp h.symm
      rfl
  | step c cs ih =>
      by_cases hks : ks = []
      · subst hks
        rw [List.nil_append] at h
        rw [← h, lexemes_joined]
      rw [lexemes_step] at h
      have hwhole := (lexemesAtTop_balanced r c cs).whole
      rcases List.append_eq_append_iff.mp h with ⟨ks', hgroup, hrest⟩ | ⟨ms', hgroup, hrest⟩
      · -- the beginning holds the whole step
        subst hgroup
        refine ih hrest ?_
        simp only [Lexeme.closed_append, Lexeme.opened_append] at hcount
        omega
      · -- it ends within the step, and so at its end
        by_cases hms' : ms' = []
        · subst hms'
          rw [List.nil_append] at hrest
          exact ih (show _ = [] ++ ms from hrest.symm) rfl
        · have hstep := lexemesAtTop_isStep r c cs
          rw [hgroup] at hstep
          have hlt := hstep.closed_lt_opened hks hms'
          omega

/-! ## Streams -/

namespace Lexeme

/-- The tokens of lexemes that are laid out from an offset, without those of kinds that are not
kept, and the end of the input. -/
def stream (keeps : TokenKind → Bool) (offset : Nat) (ls : List Lexeme) : List Token :=
  (placeFrom offset ls).filter (fun t => keeps t.kind) ++
    [Token.eof (offset + Text.byteSize (joined ls))]

variable {keeps : TokenKind → Bool}

theorem stream_cons_of_pos (offset : Nat) {l : Lexeme} (hl : keeps l.kind = true)
    (ls : List Lexeme) :
    stream keeps offset (l :: ls) =
      ⟨l.kind, String.ofList l.text, ⟨offset, offset + Text.byteSize l.text⟩⟩ ::
        stream keeps (offset + Text.byteSize l.text) ls := by
  simp [stream, placeFrom, hl, Text.byteSize_append, Nat.add_assoc]

theorem stream_cons_of_neg (offset : Nat) {l : Lexeme} (hl : ¬ keeps l.kind = true)
    (ls : List Lexeme) :
    stream keeps offset (l :: ls) = stream keeps (offset + Text.byteSize l.text) ls := by
  simp [stream, placeFrom, hl, Text.byteSize_append, Nat.add_assoc]

/-- Any number that tokens add up to, if those that are not kept add nothing. -/
theorem sum_filter_placeFrom {value : TokenKind → Nat}
    (hvalue : ∀ kind, ¬ keeps kind = true → value kind = 0) (offset : Nat) (ls : List Lexeme) :
    (((placeFrom offset ls).filter fun t => keeps t.kind).map fun t => value t.kind).sum =
      (ls.map fun l => value l.kind).sum := by
  induction ls generalizing offset with
  | nil => rfl
  | cons l ls ih =>
      by_cases hl : keeps l.kind = true
      · simp [placeFrom, hl, ih]
      · simp [placeFrom, hl, ih, hvalue l.kind hl]

/-- **A token of a stream divides it.**  The tokens before it are those of the lexemes before it,
and from it on the stream is that of the other lexemes, laid out from its start. -/
theorem exists_divide {offset : Nat} {ls : List Lexeme} {k : Nat} {t : Token}
    (h : (stream keeps offset ls)[k]? = some t) :
    ∃ ks ms, ls = ks ++ ms ∧ t.span.start = offset + Text.byteSize (joined ks) ∧
      (stream keeps offset ls).take k = (placeFrom offset ks).filter (fun t => keeps t.kind) ∧
      (stream keeps offset ls).drop k = stream keeps t.span.start ms := by
  induction ls generalizing offset k with
  | nil =>
      obtain rfl : k = 0 := by
        have hlt := (List.getElem?_eq_some_iff.mp h).1
        simpa [stream, placeFrom] using hlt
      obtain rfl : Token.eof offset = t := by simpa [stream, placeFrom, joined] using h
      exact ⟨[], [], rfl, rfl, rfl, rfl⟩
  | cons l ls ih =>
      by_cases hl : keeps l.kind = true
      · rw [stream_cons_of_pos offset hl] at h ⊢
        cases k with
        | zero =>
            obtain rfl := Option.some.inj h
            exact ⟨[], l :: ls, rfl, by simp [joined], rfl, (stream_cons_of_pos offset hl ls).symm⟩
        | succ k =>
            obtain ⟨ks, ms, rfl, hstart, htake, hdrop⟩ := ih h
            refine ⟨l :: ks, ms, rfl, by simp [hstart, Text.byteSize_append, Nat.add_assoc], ?_, hdrop⟩
            simp [placeFrom, hl, htake]
      · rw [stream_cons_of_neg offset hl] at h ⊢
        obtain ⟨ks, ms, rfl, hstart, htake, hdrop⟩ := ih h
        refine ⟨l :: ks, ms, rfl, by simp [hstart, Text.byteSize_append, Nat.add_assoc], ?_, hdrop⟩
        simp [placeFrom, hl, htake]

end Lexeme

/-- The tokens of a text from a boundary on. -/
theorem tokenize_from {source : String} {as bs : List Char} (config : Config)
    (hsource : source.toList = as ++ bs) :
    tokenize source config (some ⟨Text.byteSize as, Text.byteSize source.toList⟩) =
      Lexeme.stream config.keeps (Text.byteSize as) (lexemes (Rules.ofConfig config) bs) := by
  have hmiddle : source.toList = as ++ (bs ++ []) := by simpa using hsource
  have hwindow : window source.toList (some ⟨Text.byteSize as, Text.byteSize source.toList⟩) =
      ⟨Text.byteSize as, Text.byteSize as + Text.byteSize bs⟩ := by
    have hend := Text.takeBytes_byteSize_append (as ++ bs) []
    rw [List.append_nil] at hend
    simp only [window, Text.floorBoundary, hsource, Text.takeBytes_byteSize_append, hend]
    rw [Text.byteSize_append, Nat.min_eq_left (Nat.le_add_right _ _)]
  rw [tokenize_middle config hmiddle hwindow, Lexeme.stream, lexemes_joined]

/-- What a configuration leaves out neither opens a literal nor closes one. -/
theorem Config.isInert_of_keeps {config : Config} {l : Lexeme} (h : config.keeps l.kind = false) :
    l.IsInert := by
  unfold keeps at h
  split at h
  · rename_i hkind
    rw [Lexeme.IsInert, hkind]
    exact ⟨rfl, rfl⟩
  · rename_i hkind
    rw [Lexeme.IsInert, hkind]
    exact ⟨rfl, rfl⟩
  · cases h

/-- **Reading can be resumed outside of all strings.**  If as many literals have been closed as
opened before a token, be it the end of the input, then the tokens of the text from its start on
are the ones that were read there: nothing that was read before it matters. -/
theorem tokenize_resume (source : String) (config : Config) {k : Nat} {t : Token}
    (ht : (tokenize source config none)[k]? = some t)
    (hcount : (((tokenize source config none).take k).map fun t => Nest.closes t.kind).sum =
      (((tokenize source config none).take k).map fun t => Nest.opens t.kind).sum) :
    tokenize source config (some ⟨t.span.start, Text.byteSize source.toList⟩) =
      (tokenize source config none).drop k := by
  let ls := lexemes (Rules.ofConfig config) source.toList
  have hjoined : Lexeme.joined ls = source.toList := lexemes_joined _ _
  have hstream : tokenize source config none = Lexeme.stream config.keeps 0 ls := by
    rw [tokenize_whole, Lexeme.stream, hjoined, Nat.zero_add]
  rw [hstream] at ht hcount ⊢
  obtain ⟨ks, ms, hls, hstart, htake, hdrop⟩ := Lexeme.exists_divide ht
  rw [Nat.zero_add] at hstart
  -- trivia that is left out neither opens a literal nor closes one
  have hinert : ∀ kind, ¬ config.keeps kind = true → Lexeme.IsInert ⟨kind, []⟩ :=
    fun kind hkind => Config.isInert_of_keeps (Bool.eq_false_iff.mpr hkind)
  have hopens : ∀ kind, ¬ config.keeps kind = true → Nest.opens kind = 0 :=
    fun kind hkind => (hinert kind hkind).1
  have hcloses : ∀ kind, ¬ config.keeps kind = true → Nest.closes kind = 0 :=
    fun kind hkind => (hinert kind hkind).2
  rw [htake, Lexeme.sum_filter_placeFrom hcloses, Lexeme.sum_filter_placeFrom hopens] at hcount
  have hsource : source.toList = Lexeme.joined ks ++ Lexeme.joined ms := by
    rw [← hjoined, hls, Lexeme.joined_append]
  rw [hdrop, hstart, tokenize_from config hsource, lexemes_resume _ _ hls hcount]

/-- Reading is resumed behind a literal with a block, in which another literal is closed, and a
comment that is left out, at a literal that breaks off. -/
theorem tokenize_resume_at_broken_string :
    let source := "a \"$\x7b\"b\"\x7d\" // c\n\"d\n e"
    let config := Config.curlyBrace.withTrivia true false
    let tokens := tokenize source config none
    tokens[11]? = some ⟨.error, "\"d", ⟨16, 18⟩⟩ ∧
      ((tokens.take 11).map fun t => Nest.closes t.kind).sum = 2 ∧
      ((tokens.take 11).map fun t => Nest.opens t.kind).sum = 2 ∧
      tokenize source config (some ⟨16, Text.byteSize source.toList⟩) = tokens.drop 11 := by
  refine ⟨?broken, ?closes, ?opens, ?resume⟩
  case resume => exact tokenize_resume _ _ ?broken (Eq.trans ?closes (Eq.symm ?opens))
  all_goals cbv

end Lossless
