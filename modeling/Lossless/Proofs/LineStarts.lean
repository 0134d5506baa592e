import Lossless.Lines
import Lossless.Proofs.OneLine

/-!
# Where lines start

The starts of the lines of a text are found in one pass over it.  This file says the same without
the pass: the first line starts at zero, and another one starts **right behind each line end**, be
it a carriage return with a line feed, one without, or a line feed alone (`mem_breaksFrom_iff`).

It also takes the text apart into its lines with their line ends (`Lines.Divided`).  There is one
start for each line (`Divided.starts_eq`), and the text of a line is what the pass over its slice
leaves of it (`Divided.text?_eq`).
-/

namespace Lossless

namespace Text

/-- A line end in front of a text.  A carriage return does not end a line if a line feed follows. -/
def IsEnding (ending rest : List Char) : Prop :=
  ending = ['\r', '\n'] ∨ ending = ['\n'] ∨ ending = ['\r'] ∧ rest.head? ≠ some '\n'

/-- A beginning of a text ends with a line end, where `after` is the rest of the text. -/
inductive EndsLine : List Char → List Char → Prop
  | pair (front after : List Char) : EndsLine (front ++ ['\r', '\n']) after
  | lone (front : List Char) {after : List Char} (h : after.head? ≠ some '\n') :
      EndsLine (front ++ ['\r']) after
  | feed {front : List Char} (h : front.getLast? ≠ some '\r') (after : List Char) :
      EndsLine (front ++ ['\n']) after

/-- Only the last character of the beginning and the first of the rest matter. -/
theorem endsLine_iff {before after : List Char} :
    EndsLine before after ↔ before.getLast? = some '\n' ∨
      before.getLast? = some '\r' ∧ after.head? ≠ some '\n' := by
  constructor
  · rintro (⟨front, after⟩ | ⟨front, h⟩ | ⟨h, after⟩)
    · exact Or.inl (by simp)
    · exact Or.inr ⟨by simp, h⟩
    · exact Or.inl (by simp)
  · rintro (hlast | ⟨hlast, hafter⟩)
    · obtain ⟨front, rfl⟩ := List.getLast?_eq_some_iff.mp hlast
      by_cases hpair : front.getLast? = some '\r'
      · obtain ⟨front, rfl⟩ := List.getLast?_eq_some_iff.mp hpair
        rw [List.append_assoc]
        exact .pair front after
      · exact .feed hpair after
    · obtain ⟨front, rfl⟩ := List.getLast?_eq_some_iff.mp hlast
      exact .lone front hafter

/-- What stands in front of a beginning does not matter, unless the beginning is empty. -/
theorem endsLine_append (front : List Char) {before after : List Char} (hne : before ≠ []) :
    EndsLine (front ++ before) after ↔ EndsLine before after := by
  obtain ⟨c, hc⟩ := List.getLast?_isSome.mpr hne |> Option.isSome_iff_exists.mp
  rw [endsLine_iff, endsLine_iff, List.getLast?_append, hc]
  rfl

theorem not_endsLine_nil (after : List Char) : ¬ EndsLine [] after := by
  simp [endsLine_iff]

theorem endsLine_singleton {c : Char} {after : List Char} :
    EndsLine [c] after ↔ isLineEnd c = true ∧ (c = '\r' → after.head? ≠ some '\n') := by
  have hcr : '\n' ≠ '\r' := by decide
  rw [endsLine_iff, isLineEnd_iff]
  grind

theorem IsEnding.endsLine {ending rest : List Char} (h : IsEnding ending rest) (front : List Char) :
    EndsLine (front ++ ending) rest := by
  rcases h with rfl | rfl | ⟨rfl, hrest⟩
  · exact .pair front rest
  · exact endsLine_iff.mpr (Or.inl (by simp))
  · exact .lone front hrest

/-- No beginning of a text without line ends ends a line. -/
theorem OneLine.not_endsLine {before : List Char} (h : OneLine before) (after : List Char) :
    ¬ EndsLine before after := by
  rw [endsLine_iff]
  rintro (hlast | ⟨hlast, _⟩)
  · cases h _ (List.mem_of_getLast? hlast)
  · cases h _ (List.mem_of_getLast? hlast)

end Text

namespace Lines

open Text

/-! ## The pass over a text -/

theorem lt_of_mem_breaksFrom {offset o : Nat} {cs : List Char} (h : o ∈ breaksFrom offset cs) :
    offset < o := by
  fun_induction breaksFrom offset cs with
  | case1 => cases h
  | case2 offset cs ih | case3 offset c cs hpair hend ih =>
      rcases List.mem_cons.mp h with rfl | h
      · omega
      · have hlt := ih h
        omega
  | case4 offset c cs hpair hend ih =>
      have hlt := ih h
      omega

/-- Each break is behind the one before. -/
theorem pairwise_breaksFrom (offset : Nat) (cs : List Char) :
    (breaksFrom offset cs).Pairwise (· < ·) := by
  fun_induction breaksFrom offset cs with
  | case1 => exact .nil
  | case2 offset cs ih | case3 offset c cs hpair hend ih =>
      exact List.pairwise_cons.mpr ⟨fun o ho => lt_of_mem_breaksFrom ho, ih⟩
  | case4 offset c cs hpair hend ih => exact ih

/-- A place behind a line end in a text that starts at `offset`. -/
def BreaksAt (offset o : Nat) (cs : List Char) : Prop :=
  ∃ before after, cs = before ++ after ∧ o = offset + byteSize before ∧ EndsLine before after

theorem not_breaksAt_nil (offset o : Nat) : ¬ BreaksAt offset o [] := by
  rintro ⟨before, after, hnil, _, hends⟩
  obtain ⟨rfl, rfl⟩ := List.append_eq_nil_iff.mp hnil.symm
  exact not_endsLine_nil [] hends

/-- A break of a text is one behind its first character, or one of the rest. -/
theorem breaksAt_cons {offset o : Nat} {c : Char} {cs : List Char} :
    BreaksAt offset o (c :: cs) ↔
      (o = offset + c.utf8Size ∧ EndsLine [c] cs) ∨ BreaksAt (offset + c.utf8Size) o cs := by
  constructor
  · rintro ⟨before, after, hcs, rfl, hends⟩
    cases before with
    | nil => exact absurd hends (not_endsLine_nil _)
    | cons b before =>
        obtain ⟨rfl, rfl⟩ := List.cons_eq_cons.mp hcs
        rw [byteSize_cons, ← Nat.add_assoc]
        by_cases hne : before = []
        · subst hne
          exact Or.inl ⟨rfl, hends⟩
        · exact Or.inr ⟨before, after, rfl, rfl, (endsLine_append [c] hne).mp hends⟩
  · rintro (⟨rfl, hends⟩ | ⟨before, after, rfl, rfl, hends⟩)
    · exact ⟨[c], cs, rfl, rfl, hends⟩
    · have hne : before ≠ [] := by
        rintro rfl
        exact not_endsLine_nil _ hends
      refine ⟨c :: before, after, rfl, ?_, (endsLine_append [c] hne).mpr hends⟩
      rw [byteSize_cons, Nat.add_assoc]

/-- **Lines break right behind line ends**, and nowhere else. -/
theorem mem_breaksFrom_iff {offset o : Nat} {cs : List Char} :
    o ∈ breaksFrom offset cs ↔ BreaksAt offset o cs := by
  fun_induction breaksFrom offset cs with
  | case1 offset => simp [not_breaksAt_nil]
  | case2 offset cs ih =>
      have hreturn : ¬ EndsLine ['\r'] ('\n' :: cs) := by simp [endsLine_singleton]
      have hfeed : EndsLine ['\n'] cs := by simp [endsLine_singleton, isLineEnd_iff]
      have hsize : '\r'.utf8Size = 1 ∧ '\n'.utf8Size = 1 := ⟨rfl, rfl⟩
      rw [List.mem_cons, ih, breaksAt_cons, breaksAt_cons, hsize.1, hsize.2]
      simp [hreturn, hfeed]
  | case3 offset c cs hpair hend ih =>
      have hends : EndsLine [c] cs := by
        refine endsLine_singleton.mpr ⟨hend, ?_⟩
        rintro rfl hhead
        obtain ⟨rest, rfl⟩ := List.head?_eq_some_iff.mp hhead
        exact hpair rest rfl rfl
      have hsize : c.utf8Size = 1 := by
        rcases isLineEnd_iff.mp hend with rfl | rfl <;> rfl
      rw [List.mem_cons, ih, breaksAt_cons, hsize]
      simp [hends]
  | case4 offset c cs hpair hend ih =>
      have hnot : ¬ EndsLine [c] cs := fun h => hend (endsLine_singleton.mp h).1
      rw [ih, breaksAt_cons]
      simp [hnot]

/-! ## Lines with their line ends -/

/-- A line, and what ends it. -/
structure Line where
  text : List Char
  ending : List Char

/-- A line with its line end. -/
def Line.whole (l : Line) : List Char :=
  l.text ++ l.ending

/-- A text divided into lines, each with its line end.  The last line has none. -/
inductive Divided : List Char → List Line → Prop
  | last {line : List Char} (hline : OneLine line) : Divided line [⟨line, []⟩]
  | ended {line ending rest : List Char} {lines : List Line} (hline : OneLine line)
      (hending : IsEnding ending rest) (hrest : Divided rest lines) :
      Divided (line ++ (ending ++ rest)) (⟨line, ending⟩ :: lines)

/-- The lines with their line ends, in a row. -/
def joined (lines : List Line) : List Char :=
  lines.flatMap Line.whole

/-- Where lines start that lie in a row, the first of them at `offset`. -/
def startsFrom (offset : Nat) : List Line → List Nat
  | [] => []
  | l :: ls => offset :: startsFrom (offset + byteSize l.whole) ls

theorem joined_append (ks ls : List Line) : joined (ks ++ ls) = joined ks ++ joined ls :=
  List.flatMap_append

theorem joined_cons (l : Line) (ls : List Line) : joined (l :: ls) = l.whole ++ joined ls :=
  List.flatMap_cons

theorem startsFrom_append (offset : Nat) (ks ls : List Line) :
    startsFrom offset (ks ++ ls) =
      startsFrom offset ks ++ startsFrom (offset + byteSize (joined ks)) ls := by
  induction ks generalizing offset with
  | nil => rfl
  | cons k ks ih =>
      rw [List.cons_append, startsFrom, startsFrom, ih, joined_cons, byteSize_append, Nat.add_assoc,
        List.cons_append]

@[simp] theorem length_startsFrom (offset : Nat) (ls : List Line) :
    (startsFrom offset ls).length = ls.length := by
  induction ls generalizing offset with
  | nil => rfl
  | cons l ls ih => simp [startsFrom, ih]

/-- There is no break in a line. -/
theorem breaksFrom_append (offset : Nat) {line : List Char} (h : OneLine line) (rest : List Char) :
    breaksFrom offset (line ++ rest) = breaksFrom (offset + byteSize line) rest := by
  induction line generalizing offset with
  | nil => rfl
  | cons c line ih =>
      obtain ⟨hc, hline⟩ := OneLine.cons_iff.mp h
      rw [List.cons_append, breaksFrom, hc, byteSize_cons, ← Nat.add_assoc]
      · exact ih (offset + c.utf8Size) hline
      · rintro cs rfl
        cases hc

/-- There is one break in a line end, behind it. -/
theorem breaksFrom_ending (offset : Nat) {ending rest : List Char} (h : IsEnding ending rest) :
    breaksFrom offset (ending ++ rest) =
      (offset + byteSize ending) :: breaksFrom (offset + byteSize ending) rest := by
  rcases h with rfl | rfl | ⟨rfl, hrest⟩
  · rfl
  · rfl
  · cases rest with
    | nil => rfl
    | cons c rest =>
        rw [List.cons_append, breaksFrom]
        · rfl
        · rintro cs - hcs
          exact hrest (by rw [List.nil_append] at hcs; rw [hcs]; rfl)

/-- Every text has lines. -/
theorem exists_divided (cs : List Char) : ∃ lines, Divided cs lines := by
  have hlines : ∀ offset : Nat, ∃ lines, Divided cs lines := by
    intro offset
    fun_induction breaksFrom offset cs with
    | case1 => exact ⟨_, .last .nil⟩
    | case2 offset cs ih =>
        obtain ⟨lines, hlines⟩ := ih
        exact ⟨_, .ended .nil (Or.inl rfl) hlines⟩
    | case3 offset c cs hpair hend ih =>
        obtain ⟨lines, hlines⟩ := ih
        have hending : IsEnding [c] cs := by
          rcases isLineEnd_iff.mp hend with rfl | rfl
          · exact Or.inr (Or.inl rfl)
          · refine Or.inr (Or.inr ⟨rfl, fun hhead => ?_⟩)
            obtain ⟨rest, rfl⟩ := List.head?_eq_some_iff.mp hhead
            exact hpair rest rfl rfl
        exact ⟨_, .ended .nil hending hlines⟩
    | case4 offset c cs hpair hend ih =>
        -- the character goes to the first line of the rest
        obtain ⟨lines, hlines⟩ := ih
        have hc : isLineEnd c = false := Bool.eq_false_iff.mpr hend
        cases hlines with
        | last hline => exact ⟨_, .last (OneLine.cons_iff.mpr ⟨hc, hline⟩)⟩
        | ended hline hending hrest =>
            exact ⟨_, .ended (OneLine.cons_iff.mpr ⟨hc, hline⟩) hending hrest⟩
  exact hlines 0

namespace Divided

variable {cs : List Char} {lines : List Line}

theorem joined_eq (h : Divided cs lines) : joined lines = cs := by
  induction h with
  | last hline => simp [joined, Line.whole]
  | ended hline hending hrest ih => rw [joined_cons, ih, Line.whole, List.append_assoc]

theorem oneLine (h : Divided cs lines) : ∀ l ∈ lines, OneLine l.text := by
  induction h with
  | last hline => simpa using hline
  | ended hline hending hrest ih => exact List.forall_mem_cons.mpr ⟨hline, ih⟩

/-- A line end consists of characters that end lines. -/
theorem isLineEnd (h : Divided cs lines) : ∀ l ∈ lines, ∀ c ∈ l.ending, Text.isLineEnd c = true := by
  induction h with
  | last hline => simp
  | ended hline hending hrest ih =>
      refine List.forall_mem_cons.mpr ⟨?_, ih⟩
      rcases hending with rfl | rfl | ⟨rfl, _⟩ <;> simp [Text.isLineEnd]

/-- **Each line has its start.** -/
theorem starts_eq (h : Divided cs lines) (offset : Nat) :
    offset :: breaksFrom offset cs = startsFrom offset lines := by
  induction h generalizing offset with
  | @last line hline =>
      have hbreaks := breaksFrom_append offset hline []
      rw [List.append_nil] at hbreaks
      rw [hbreaks]
      rfl
  | ended hline hending hrest ih =>
      rw [breaksFrom_append offset hline, breaksFrom_ending _ hending, ih, startsFrom, Line.whole,
        byteSize_append, Nat.add_assoc]

theorem count_eq (h : Divided cs lines) : (ofText cs).count = lines.length := by
  rw [count, ofText, h.starts_eq, length_startsFrom]

/-- A line starts behind the lines in front of it. -/
theorem start?_eq (h : Divided cs lines) {before after : List Line}
    (heq : lines = before ++ after) :
    (ofText cs).start? before.length =
      if after.isEmpty then none else some (byteSize (joined before)) := by
  have hstarts : (ofText cs).starts =
      startsFrom 0 before ++ startsFrom (byteSize (joined before)) after := by
    rw [ofText, h.starts_eq, heq, startsFrom_append, Nat.zero_add]
  rw [start?, hstarts, List.getElem?_append_right (by simp)]
  cases after <;> simp [startsFrom]

/-- A line stops where the next one starts, or at the end of the text. -/
theorem stop_eq (h : Divided cs lines) {before after : List Line} (heq : lines = before ++ after) :
    ((ofText cs).start? before.length).getD (byteSize cs) = byteSize (joined before) := by
  rw [h.start?_eq heq]
  cases after with
  | nil =>
      rw [← h.joined_eq, heq, List.append_nil]
      rfl
  | cons l ls => rfl

end Divided

theorem trimLineEnds_append {line ending : List Char} (hline : OneLine line)
    (hending : ∀ c ∈ ending, Text.isLineEnd c = true) : trimLineEnds (line ++ ending) = line := by
  have hdrop : line.reverse.dropWhile Text.isLineEnd = line.reverse := by
    cases hreverse : line.reverse with
    | nil => rfl
    | cons c cs =>
        have hc : c ∈ line := by
          rw [← List.mem_reverse, hreverse]
          exact List.mem_cons_self
        rw [List.dropWhile_cons_of_neg (by simp [hline c hc])]
  rw [trimLineEnds, List.reverse_append, List.dropWhile_append_of_pos (by simpa using hending),
    hdrop, List.reverse_reverse]

/-- The text of the line behind some others. -/
theorem Divided.text?_middle {cs : List Char} {lines before after : List Line} {l : Line}
    (h : Divided cs lines) (heq : lines = before ++ l :: after) :
    (ofText cs).text? before.length = some l.text := by
  have hmem : l ∈ lines := by simp [heq]
  have htext : cs = joined before ++ (l.whole ++ joined after) := by
    rw [← h.joined_eq, heq, joined_append, joined_cons]
  have hstart : (ofText cs).start? before.length = some (byteSize (joined before)) :=
    h.start?_eq heq
  have hstop : ((ofText cs).start? (before.length + 1)).getD (byteSize cs) =
      byteSize (joined before) + byteSize l.whole := by
    have hsplit : lines = (before ++ [l]) ++ after := by simp [heq]
    have hnext := h.stop_eq hsplit
    rw [joined_append, byteSize_append, List.length_append] at hnext
    simpa [joined] using hnext
  have hslice : slice? cs (byteSize (joined before)) (byteSize (joined before) + byteSize l.whole) =
      some l.whole := by
    rw [htext]
    exact slice?_middle _ _ _
  have hsource : (ofText cs).text = cs := rfl
  simp only [text?, hstart, hsource, hstop, hslice, bind, Option.bind, pure]
  exact congrArg some (trimLineEnds_append (h.oneLine l hmem) (h.isLineEnd l hmem))

/-- **The text of a line is the line without its line end.** -/
theorem Divided.text?_eq {cs : List Char} {lines : List Line} (h : Divided cs lines) (i : Nat) :
    (ofText cs).text? i = lines[i]?.map Line.text := by
  rcases Nat.lt_or_ge i lines.length with hlt | hge
  · have heq : lines = lines.take i ++ lines[i] :: lines.drop (i + 1) := by
      rw [← List.drop_eq_getElem_cons hlt, List.take_append_drop]
    have htext := h.text?_middle heq
    rwa [List.length_take, Nat.min_eq_left (Nat.le_of_lt hlt),
      ← Option.map_some, ← List.getElem?_eq_getElem hlt] at htext
  · have hstart : (ofText cs).start? i = none := by
      rw [start?, List.getElem?_eq_none]
      rw [← count, h.count_eq]
      exact hge
    simp [text?, hstart, hge]

end Lines

end Lossless
