import Lossless.Proofs.LexemeOrigins
import Lossless.Proofs.Positions
import Lossless.Proofs.StringGrammar

/-!
# Tokens and lines

Line ends are found twice: the lexer makes a token of each that stands in code, and the lines of a
text are found without the lexer.  **The two agree** (`tokens_agree_with_lines`): a line break takes
to the start of the next line, and a token without a line end in it stays on its line, as many
columns wide as it has characters.

A literal, a comment or an escape may well end between a carriage return and its line feed, if the
configuration is odd enough.  The line feed is then a line break of its own, and ends the line on
which the carriage return stands.
-/

namespace Lossless

open Text

/-! ## Which tokens are line breaks -/

theorem Plain.linebreak?_isEnding {cs : List Char} {cut : Cut} (h : linebreak? cs = some cut) :
    IsEnding cut.text cut.rest := by
  fun_cases linebreak? cs with
  | case1 cs =>
      simp only [linebreak?, Option.some.injEq] at h
      subst h
      exact Or.inl rfl
  | case2 c cs hpair hend =>
      simp only [linebreak?, hend, if_true, Option.some.injEq] at h
      subst h
      rcases isLineEnd_iff.mp hend with rfl | rfl
      · exact Or.inr (Or.inl rfl)
      · refine Or.inr (Or.inr ⟨rfl, fun hhead => ?_⟩)
        obtain ⟨rest, rfl⟩ := List.head?_eq_some_iff.mp hhead
        exact hpair rest rfl rfl
  | case3 c cs hpair hend => simp [linebreak?, hend] at h
  | case4 => simp [linebreak?] at h

theorem Plain.comment?_kind {r : Rules} {cs : List Char} {cut : Cut} (h : comment? r cs = some cut) :
    cut.kind = .comment ∨ cut.kind = .error := by
  have hblock : ∀ opener closer, (blockComment opener closer cs).kind = .comment ∨
      (blockComment opener closer cs).kind = .error := by
    intro opener closer
    unfold blockComment
    split
    · exact Or.inl rfl
    · exact Or.inr rfl
  unfold comment? at h
  split at h
  · split at h <;> cases h
    · exact hblock _ _
    · exact Or.inl rfl
  · cases h
    exact Or.inl rfl
  · cases h
    exact hblock _ _
  · cases h

/-- What is read where no line end begins is no line break. -/
theorem Plain.token_kind_ne_linebreak {r : Rules} {c : Char} {cs : List Char}
    (h : r.IsPlainAt c cs) : (Plain.token r c cs).kind ≠ .linebreak := by
  unfold Plain.token
  split
  · exact (charLiteral_plain r c cs).kind_ne_linebreak (charLiteral_splits r c cs) h.line
  · exact (other_plain r c cs).kind_ne_linebreak (other_splits r c cs) h.line

/-- **A line break is a line end**, and the whole of it. -/
theorem Rules.Originates.isEnding {r : Rules} {l : Lexeme} {rest : List Char}
    (h : r.Originates l rest) (hkind : l.kind = .linebreak) : IsEnding l.text rest := by
  cases h with
  | part => simp [TokenKind.string] at hkind
  | name c cs =>
      simp only [Cut.lexeme, Plain.word] at hkind
      split at hkind <;> cases hkind
  | @trivia cs cut hcut =>
      have hkind : cut.kind = .linebreak := hkind
      simp only [Option.orElse_eq_orElse, Option.orElse_eq_or, Option.or_eq_some_iff] at hcut
      rcases hcut with hline | ⟨_, hblanks | ⟨_, hcomment⟩⟩
      · exact Plain.linebreak?_isEnding hline
      · simp [Plain.blanks?_kind hblanks] at hkind
      · rcases Plain.comment?_kind hcomment with h | h <;> simp [h] at hkind
  | token hplain => exact absurd hkind (Plain.token_kind_ne_linebreak hplain)
  | broken => cases hkind

/-! ## Lines across a stretch of a text -/

/-- No line starts within a line end. -/
theorem Text.IsEnding.not_endsLine {xs ys rest : List Char} (h : IsEnding (xs ++ ys) rest)
    (hxs : xs ≠ []) (hys : ys ≠ []) : ¬ EndsLine xs (ys ++ rest) := by
  obtain ⟨c, xs, rfl⟩ := List.exists_cons_of_ne_nil hxs
  obtain ⟨d, ys, rfl⟩ := List.exists_cons_of_ne_nil hys
  -- there are two characters, so the line end is the pair
  have hpair : (c :: xs) ++ (d :: ys) = ['\r', '\n'] := by
    rcases h with h | h | ⟨h, _⟩
    · exact h
    · simp at h
    · simp at h
  obtain ⟨rfl, rfl, rfl⟩ : c = '\r' ∧ xs = [] ∧ d = '\n' := by
    cases xs <;> simp_all
  rw [endsLine_singleton]
  rintro ⟨_, hhead⟩
  exact hhead rfl rfl

namespace Lines

variable {as ms bs : List Char}

/-- A line that starts within a stretch or right behind it starts behind a line end of the
stretch. -/
theorem exists_ending_of_mem_starts {o : Nat} (ho : o ∈ (ofText (as ++ (ms ++ bs))).starts)
    (hlt : byteSize as < o) (hle : o ≤ byteSize as + byteSize ms) :
    ∃ xs ys, ms = xs ++ ys ∧ xs ≠ [] ∧ o = byteSize as + byteSize xs ∧ EndsLine xs (ys ++ bs) := by
  rcases List.mem_cons.mp ho with rfl | ho
  · omega
  · obtain ⟨before, after, htext, hsize, hends⟩ := mem_breaksFrom_iff.mp ho
    rw [Nat.zero_add] at hsize
    obtain ⟨xs, rfl⟩ := prefix_of_byteSize_le ⟨ms ++ bs, rfl⟩ ⟨after, htext.symm⟩
      (by omega : byteSize as ≤ byteSize before)
    rw [byteSize_append] at hsize
    have hrest : ms ++ bs = xs ++ after := by
      rw [List.append_assoc] at htext
      exact List.append_cancel_left htext
    obtain ⟨ys, rfl⟩ := prefix_of_byteSize_le ⟨after, hrest.symm⟩ ⟨bs, rfl⟩
      (by omega : byteSize xs ≤ byteSize ms)
    have hne : xs ≠ [] := by
      rintro rfl
      rw [byteSize_nil] at hsize
      omega
    rw [List.append_assoc] at hrest
    obtain rfl := List.append_cancel_left hrest
    exact ⟨xs, ys, rfl, hne, hsize, (endsLine_append as hne).mp hends⟩

/-- The line that holds an offset further on is the next one, if its start is the first one behind
the offset. -/
theorem Holds.line_succ {cs : List Char} {line start o line' start' o' : Nat}
    (h : (ofText cs).Holds line start o) (h' : (ofText cs).Holds line' start' o') (hlt : o < start')
    (hfirst : ∀ b ∈ (ofText cs).starts, o < b → start' ≤ b) : line' = line + 1 := by
  have hle := h.line_le h' (Nat.le_of_lt (Nat.lt_of_lt_of_le hlt h'.start_le))
  have hne : line' ≠ line := by
    rintro rfl
    have hsame := Option.some.inj (h.line_start.symm.trans h'.line_start)
    have hstart := h.start_le
    omega
  refine Nat.le_antisymm (Nat.le_of_not_lt fun hskip => ?_) (by omega)
  have hcount := (List.getElem?_eq_some_iff.mp h'.line_start).1
  have hbetween := List.getElem?_eq_getElem (Nat.lt_trans hskip hcount)
  have hbehind := hfirst _ (mem_starts_of_start? hbetween) (h.lt_next _ hbetween)
  have hbefore := start?_lt hbetween h'.line_start hskip
  omega

/-- **A stretch without a line end lies on one line.** -/
theorem position_oneLine (h : OneLine ms) :
    let ls := ofText (as ++ (ms ++ bs))
    ls.position (byteSize as + byteSize ms) =
      ⟨(ls.position (byteSize as)).line, (ls.position (byteSize as)).column + ms.length⟩ := by
  intro ls
  have hstretch := slice?_middle as ms bs
  obtain ⟨start, before, hholds, hbefore, hcolumn⟩ :=
    position_spec (isBoundary_of_slice? hstretch).1
  have hstop : ls.Holds (ls.position (byteSize as)).line start (byteSize as + byteSize ms) := by
    refine ⟨hholds.line_start, by have hle := hholds.start_le; omega, fun next hnext => ?_⟩
    have hbehind := hholds.lt_next next hnext
    rcases Nat.lt_or_ge (byteSize as + byteSize ms) next with hlt | hge
    · exact hlt
    · obtain ⟨xs, ys, rfl, _, _, hends⟩ :=
        exists_ending_of_mem_starts (mem_starts_of_start? hnext) hbehind hge
      exact absurd hends ((OneLine.append_iff.mp h).1.not_endsLine _)
  rw [hstop.position_eq (slice?_append hbefore hstretch), List.length_append, hcolumn]

/-- **Behind a line end the next line starts.** -/
theorem position_ending (h : IsEnding ms bs) :
    let ls := ofText (as ++ (ms ++ bs))
    ls.position (byteSize as + byteSize ms) = ⟨(ls.position (byteSize as)).line + 1, 0⟩ := by
  intro ls
  have hstretch := slice?_middle as ms bs
  obtain ⟨start, before, hholds, _, _⟩ := position_spec (isBoundary_of_slice? hstretch).1
  have hpos : 0 < byteSize ms := by
    rcases h with rfl | rfl | ⟨rfl, _⟩ <;> decide
  -- the place behind the line end is the start of some line, which holds it
  have hmem : byteSize as + byteSize ms ∈ ls.starts := by
    refine List.mem_cons_of_mem _ (mem_breaksFrom_iff.mpr ⟨as ++ ms, bs, ?_, ?_, h.endsLine as⟩)
    · rw [List.append_assoc]
    · rw [byteSize_append, Nat.zero_add]
  obtain ⟨line, hline⟩ := List.getElem?_of_mem hmem
  have hstop : ls.Holds line (byteSize as + byteSize ms) (byteSize as + byteSize ms) :=
    ⟨hline, Nat.le_refl _, fun next hnext => start?_lt hline hnext (Nat.lt_succ_self line)⟩
  -- it is the next line, since no line starts within the line end
  have hnext : line = (ls.position (byteSize as)).line + 1 := by
    refine hholds.line_succ hstop (by omega) fun o ho hlt => Nat.le_of_not_lt fun hinside => ?_
    obtain ⟨xs, ys, rfl, hxs, hoffset, hends⟩ :=
      exists_ending_of_mem_starts ho hlt (Nat.le_of_lt hinside)
    refine h.not_endsLine hxs ?_ hends
    rintro rfl
    rw [List.append_nil] at hinside
    omega
  rw [hstop.position_eq (slice?_stop hstretch), hnext]
  rfl

end Lines

/-- **The lexer and the lines of a text agree.**  For every text and configuration, a line break
takes to the start of the line after the one on which it starts; a token that holds no line end
stops on the line on which it starts, as many columns further on as it has characters. -/
theorem tokens_agree_with_lines (source : String) (config : Config) :
    let ls := Lines.ofText source.toList
    ∀ t ∈ tokenize source config none,
      (t.kind = .linebreak →
        ls.position t.span.stop = ⟨(ls.position t.span.start).line + 1, 0⟩) ∧
      ('\r' ∉ t.text.toList → '\n' ∉ t.text.toList →
        ls.position t.span.stop = ⟨(ls.position t.span.start).line,
          (ls.position t.span.start).column + t.text.length⟩) := by
  intro ls t ht
  constructor
  · intro hkind
    obtain ⟨bs, hrest, horigin⟩ := originates_of_mem_tokenize ht (by rw [hkind]; simp)
    have hending : IsEnding t.text.toList bs := horigin.isEnding hkind
    have hspan : t.span.start + byteSize t.text.toList = t.span.stop :=
      byteSize_of_slice? (holdsText_of_mem_tokenize ht)
    -- the window reaches to the end of the text, so nothing follows behind it
    obtain ⟨as, bs', hsource, hstart, hstop⟩ := exists_middle_of_slice? hrest
    have hwindow : (window source.toList none).stop = byteSize source.toList := rfl
    have hempty : bs' = [] := by
      by_contra hne
      have hpos := byteSize_pos hne
      have hsize := congrArg byteSize hsource
      simp only [hwindow, byteSize_append] at hstop hsize
      omega
    rw [hempty, List.append_nil] at hsource
    simp only [ls, hsource, ← hspan, ← hstart]
    exact Lines.position_ending hending
  · intro hreturn hfeed
    have honeLine : OneLine t.text.toList := by
      intro c hc
      rw [Bool.eq_false_iff, ne_eq, isLineEnd_iff]
      rintro (rfl | rfl)
      · exact hfeed hc
      · exact hreturn hc
    obtain ⟨as, bs, hsource, hstart, hstop⟩ :=
      exists_middle_of_slice? (holdsText_of_mem_tokenize ht)
    simp only [ls, hsource, ← hstop, ← hstart]
    exact Lines.position_oneLine honeLine

end Lossless
