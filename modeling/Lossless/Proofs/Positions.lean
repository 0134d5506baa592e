import Lossless.Proofs.LineStarts

/-!
# Offsets and positions

A position is a line and a number of characters into it.  The line of an offset is found by a
search among the starts of the lines, and the column by counting characters from the start of that
line.

The search keeps what it has ruled out: the numbers in front of the places that are left are below
the one that is looked for, and those behind them are above it (`Narrowed`).  It ends at the place
of the number or where the number would be put in (`search_spec`), so the line that it leads to is
the one that **starts at or before the offset, while the next one starts behind it** (`Holds`).

**Positions and offsets stand for each other** (`lines_locate_offsets`): each character boundary has
its position, boundaries further on have later positions, and the boundary can be computed back
from its position (`Lines.offset?`).
-/

namespace Lossless

/-- A position comes before another: it is on an earlier line, or further left on the same line. -/
def Position.Before (p q : Position) : Prop :=
  p.line < q.line ∨ p.line = q.line ∧ p.column < q.column

theorem Position.Before.asymm {p q : Position} (h : p.Before q) : ¬ q.Before p := by
  simp only [Before] at h ⊢
  omega

namespace Text

/-- Two boundaries in order bound a slice. -/
theorem exists_slice? {cs : List Char} {i j : Nat} (hi : isBoundary cs i = true)
    (hj : isBoundary cs j = true) (hle : i ≤ j) : ∃ ms, slice? cs i j = some ms := by
  simp [slice?, hi, hj, hle]

theorem isBoundary_of_slice? {cs ms : List Char} {i j : Nat} (h : slice? cs i j = some ms) :
    isBoundary cs i = true ∧ isBoundary cs j = true := by
  obtain ⟨as, bs, rfl, rfl, rfl⟩ := exists_middle_of_slice? h
  refine ⟨isBoundary_byteSize_append as (ms ++ bs), ?_⟩
  rw [← byteSize_append, ← List.append_assoc]
  exact isBoundary_byteSize_append (as ++ ms) bs

/-- A beginning of a slice is a slice. -/
theorem slice?_left {cs xs ys : List Char} {i j : Nat} (h : slice? cs i j = some (xs ++ ys)) :
    slice? cs i (i + byteSize xs) = some xs := by
  obtain ⟨as, bs, rfl, rfl, _⟩ := exists_middle_of_slice? h
  rw [List.append_assoc xs ys bs]
  exact slice?_middle as xs (ys ++ bs)

theorem byteSize_of_slice? {cs ms : List Char} {i j : Nat} (h : slice? cs i j = some ms) :
    i + byteSize ms = j := by
  obtain ⟨_, _, _, _, hsize⟩ := exists_middle_of_slice? h
  exact hsize

theorem le_byteSize_of_isBoundary {cs : List Char} {i : Nat} (h : isBoundary cs i = true) :
    i ≤ byteSize cs := by
  obtain ⟨as, bs, rfl, rfl⟩ := exists_append_of_isBoundary h
  rw [byteSize_append]
  exact Nat.le_add_right _ _

theorem isBoundary_byteSize (cs : List Char) : isBoundary cs (byteSize cs) = true := by
  have h := isBoundary_byteSize_append cs []
  rwa [List.append_nil] at h

end Text

namespace Lines

open Text

/-! ## The line of an offset -/

/-- A line holds an offset: it starts at or before the offset, and the next line starts behind it. -/
structure Holds (ls : Lines) (line start offset : Nat) : Prop where
  line_start : ls.start? line = some start
  start_le : start ≤ offset
  lt_next : ∀ next, ls.start? (line + 1) = some next → offset < next

section Search

variable {xs : List Nat} {x low high : Nat}

/-- What a search has ruled out, with the places from `low` up to `high` left. -/
structure Narrowed (xs : List Nat) (x low high : Nat) : Prop where
  low_le : low ≤ high
  high_le : high ≤ xs.length
  below : ∀ i y, xs[i]? = some y → i < low → y < x
  above : ∀ i y, xs[i]? = some y → high ≤ i → x < y

/-- Nothing is ruled out at first. -/
theorem Narrowed.all (xs : List Nat) (x : Nat) : Narrowed xs x 0 xs.length where
  low_le := Nat.zero_le _
  high_le := Nat.le_refl _
  below _ _ _ hi := absurd hi (Nat.not_lt_zero _)
  above _ _ hy hi := absurd (List.getElem?_eq_some_iff.mp hy).1 (Nat.not_lt_of_le hi)

theorem getElem?_lt (hxs : xs.Pairwise (· < ·)) {i j y z : Nat} (hy : xs[i]? = some y)
    (hz : xs[j]? = some z) (hij : i < j) : y < z := by
  obtain ⟨hi, rfl⟩ := List.getElem?_eq_some_iff.mp hy
  obtain ⟨hj, rfl⟩ := List.getElem?_eq_some_iff.mp hz
  exact List.pairwise_iff_getElem.mp hxs i j hi hj hij

theorem getElem?_le (hxs : xs.Pairwise (· < ·)) {i j y z : Nat} (hy : xs[i]? = some y)
    (hz : xs[j]? = some z) (hij : i ≤ j) : y ≤ z := by
  rcases Nat.lt_or_eq_of_le hij with hlt | rfl
  · exact Nat.le_of_lt (getElem?_lt hxs hy hz hlt)
  · exact Nat.le_of_eq (Option.some.inj (hy.symm.trans hz))

/-- A number below the one that is looked for rules out the places up to its own. -/
theorem Narrowed.raise (h : Narrowed xs x low high) (hxs : xs.Pairwise (· < ·)) {middle y : Nat}
    (hmiddle : xs[middle]? = some y) (hlt : middle < high) (hy : y < x) :
    Narrowed xs x (middle + 1) high where
  low_le := hlt
  high_le := h.high_le
  below _ _ hz hi := Nat.lt_of_le_of_lt (getElem?_le hxs hz hmiddle (Nat.le_of_lt_succ hi)) hy
  above := h.above

/-- A number above the one that is looked for rules out the places from its own. -/
theorem Narrowed.lower (h : Narrowed xs x low high) (hxs : xs.Pairwise (· < ·)) {middle y : Nat}
    (hmiddle : xs[middle]? = some y) (hle : low ≤ middle) (hy : x < y) :
    Narrowed xs x low middle where
  low_le := hle
  high_le := Nat.le_of_lt (List.getElem?_eq_some_iff.mp hmiddle).1
  below := h.below
  above _ _ hz hi := Nat.lt_of_lt_of_le hy (getElem?_le hxs hmiddle hz hi)

/-- There is a number in the middle of the places that are left. -/
theorem Narrowed.getElem?_middle (h : Narrowed xs x low high) (hlt : low < high) :
    xs[low + (high - low) / 2]? = some (xs.getD (low + (high - low) / 2) 0) := by
  have hhigh := h.high_le
  rw [List.getD_eq_getElem?_getD, List.getElem?_eq_getElem (by omega), Option.getD_some]

/-- **A search among ascending numbers** ends at the place of the number that is looked for, or else
at a place with the smaller numbers in front of it and the larger ones behind. -/
theorem search_spec (hxs : xs.Pairwise (· < ·)) (h : Narrowed xs x low high) :
    match search xs x low high with
    | .ok i => xs[i]? = some x
    | .error i => Narrowed xs x i i := by
  fun_induction search xs x low high with
  | case1 low high hlt middle hcompare ih =>
      have hmiddle := h.getElem?_middle hlt
      refine ih (h.raise hxs hmiddle (by omega) ?_)
      exact Nat.compare_eq_lt.mp hcompare
  | case2 low high hlt middle hcompare =>
      have hmiddle := h.getElem?_middle hlt
      exact hmiddle.trans (congrArg some (Nat.compare_eq_eq.mp hcompare))
  | case3 low high hlt middle hcompare ih =>
      have hmiddle := h.getElem?_middle hlt
      refine ih (h.lower hxs hmiddle (by omega) ?_)
      exact Nat.compare_eq_gt.mp hcompare
  | case4 low high hdone =>
      obtain rfl := Nat.le_antisymm h.low_le (Nat.le_of_not_lt hdone)
      exact h

end Search

variable {cs : List Char} {line start o : Nat}

theorem pairwise_starts (cs : List Char) : (ofText cs).starts.Pairwise (· < ·) :=
  List.pairwise_cons.mpr ⟨fun _ ho => lt_of_mem_breaksFrom ho, pairwise_breaksFrom 0 cs⟩

theorem isBoundary_of_mem_starts (h : o ∈ (ofText cs).starts) : isBoundary cs o = true := by
  rcases List.mem_cons.mp h with rfl | h
  · exact isBoundary_byteSize_append [] cs
  · obtain ⟨before, after, rfl, rfl, _⟩ := mem_breaksFrom_iff.mp h
    rw [Nat.zero_add]
    exact isBoundary_byteSize_append before after

theorem mem_starts_of_start? (h : (ofText cs).start? line = some start) :
    start ∈ (ofText cs).starts :=
  List.mem_of_getElem? h

/-- A later line starts further on. -/
theorem start?_lt {line' start' : Nat} (h : (ofText cs).start? line = some start)
    (h' : (ofText cs).start? line' = some start') (hlt : line < line') : start < start' :=
  getElem?_lt (pairwise_starts cs) h h' hlt

/-- The line that holds an offset further on is no earlier one. -/
theorem Holds.line_le {line' start' o' : Nat} (h : (ofText cs).Holds line start o)
    (h' : (ofText cs).Holds line' start' o') (hle : o ≤ o') : line ≤ line' := by
  refine Nat.le_of_not_lt fun hlt => ?_
  have hline := (List.getElem?_eq_some_iff.mp h.line_start).1
  have hnext := List.getElem?_eq_getElem (Nat.lt_of_le_of_lt hlt hline)
  have hbehind := h'.lt_next _ hnext
  have hbefore := getElem?_le (pairwise_starts cs) hnext h.line_start hlt
  have hstart := h.start_le
  omega

/-- **The search finds the line that holds the offset.** -/
theorem holds_lineAt (cs : List Char) (o : Nat) :
    ∃ start, (ofText cs).Holds ((ofText cs).lineAt o) start o := by
  have hsearch := search_spec (pairwise_starts cs) (.all (ofText cs).starts o)
  rw [lineAt]
  split <;> rename_i place hplace <;> rw [hplace] at hsearch
  · exact ⟨o, hsearch, Nat.le_refl o, fun next hnext => start?_lt hsearch hnext (Nat.lt_succ_self _)⟩
  · -- the place is not in front of the first start, which is zero
    have hpos : 0 < place := by
      refine Nat.pos_of_ne_zero fun hzero => ?_
      exact absurd (hsearch.above 0 0 rfl (Nat.le_of_eq hzero)) (Nat.not_lt_zero o)
    have hline : place - 1 < (ofText cs).starts.length :=
      Nat.lt_of_lt_of_le (Nat.sub_one_lt_of_lt hpos) hsearch.high_le
    have hstart := List.getElem?_eq_getElem hline
    refine ⟨_, hstart, Nat.le_of_lt (hsearch.below _ _ hstart (Nat.sub_one_lt_of_lt hpos)), ?_⟩
    intro next hnext
    exact hsearch.above _ next hnext (by omega)

theorem Holds.lineAt_eq (h : (ofText cs).Holds line start o) : (ofText cs).lineAt o = line := by
  obtain ⟨start', h'⟩ := holds_lineAt cs o
  exact Nat.le_antisymm (h'.line_le h (Nat.le_refl o)) (h.line_le h' (Nat.le_refl o))

/-! ## The position of an offset -/

theorem Holds.position_eq (h : (ofText cs).Holds line start o) {before : List Char}
    (hbefore : slice? cs start o = some before) :
    (ofText cs).position o = ⟨line, before.length⟩ := by
  have hle := le_byteSize_of_isBoundary (isBoundary_of_slice? hbefore).2
  have hmin : min o (byteSize (ofText cs).text) = o := Nat.min_eq_left hle
  have hslice : slice? (ofText cs).text start o = some before := hbefore
  simp only [position, hmin, h.lineAt_eq, h.line_start, Option.getD_some, hslice]

/-- **A position counts the characters from the start of the line that holds the offset.** -/
theorem position_spec (ho : isBoundary cs o = true) :
    ∃ start before, (ofText cs).Holds ((ofText cs).position o).line start o ∧
      slice? cs start o = some before ∧ before.length = ((ofText cs).position o).column := by
  obtain ⟨start, hholds⟩ := holds_lineAt cs o
  have hstart := isBoundary_of_mem_starts (mem_starts_of_start? hholds.line_start)
  obtain ⟨before, hbefore⟩ := exists_slice? hstart ho hholds.start_le
  rw [hholds.position_eq hbefore]
  exact ⟨start, before, hholds, hbefore, rfl⟩

/-- **Positions are in the order of the offsets.** -/
theorem position_before {o o' : Nat} (ho : isBoundary cs o = true) (ho' : isBoundary cs o' = true)
    (hlt : o < o') : ((ofText cs).position o).Before ((ofText cs).position o') := by
  obtain ⟨start, before, hholds, hbefore, hcolumn⟩ := position_spec ho
  obtain ⟨start', before', hholds', hbefore', hcolumn'⟩ := position_spec ho'
  rcases Nat.lt_or_eq_of_le (hholds.line_le hholds' (Nat.le_of_lt hlt)) with hline | hline
  · exact Or.inl hline
  · refine Or.inr ⟨hline, ?_⟩
    obtain rfl : start = start' :=
      Option.some.inj ((hline ▸ hholds.line_start).symm.trans hholds'.line_start)
    obtain ⟨between, hbetween⟩ := exists_slice? ho ho' (Nat.le_of_lt hlt)
    have hsize := byteSize_of_slice? hbetween
    have hne : between ≠ [] := by
      rintro rfl
      rw [byteSize_nil] at hsize
      omega
    have hmore : before ++ between = before' :=
      Option.some.inj ((slice?_append hbefore hbetween).symm.trans hbefore')
    have hpos := List.length_pos_iff.mpr hne
    rw [← hcolumn, ← hcolumn', ← hmore, List.length_append]
    omega

/-! ## The offset of a position -/

/-- The offset at a position, if there is such a place in the text.  Only on the last line a
position behind all characters is a place; on any other it would be the start of the next line. -/
def offset? (ls : Lines) (p : Position) : Option Nat := do
  let start ← ls.start? p.line
  let whole ← slice? ls.text start ((ls.start? (p.line + 1)).getD (byteSize ls.text))
  if p.column < whole.length || p.column == whole.length && p.line + 1 == ls.count then
    some (start + byteSize (whole.take p.column))
  else
    none

/-- The places of a line lie between its start and the next line, or the end of the text. -/
theorem offset?_eq_some_iff {p : Position} : (ofText cs).offset? p = some o ↔
    ∃ start whole, (ofText cs).start? p.line = some start ∧
      slice? cs start (((ofText cs).start? (p.line + 1)).getD (byteSize cs)) = some whole ∧
      (p.column < whole.length ∨ p.column = whole.length ∧ p.line + 1 = (ofText cs).count) ∧
      o = start + byteSize (whole.take p.column) := by
  have hsource : (ofText cs).text = cs := rfl
  simp only [offset?, hsource, Option.bind_eq_bind, Option.bind_eq_some_iff,
    Option.ite_none_right_eq_some, Option.some.injEq, Bool.or_eq_true, Bool.and_eq_true,
    decide_eq_true_eq, beq_iff_eq, eq_comm (a := o)]
  constructor
  · rintro ⟨start, hstart, whole, hwhole, hcolumn⟩
    exact ⟨start, whole, hstart, hwhole, hcolumn⟩
  · rintro ⟨start, whole, hstart, hwhole, hcolumn⟩
    exact ⟨start, hstart, whole, hwhole, hcolumn⟩

/-- **A boundary can be computed back from its position**, and a position with an offset is the
position of that offset. -/
theorem offset?_iff_position {p : Position} :
    (ofText cs).offset? p = some o ↔ isBoundary cs o = true ∧ (ofText cs).position o = p := by
  rw [offset?_eq_some_iff]
  constructor
  · rintro ⟨start, whole, hstart, hwhole, hcolumn, rfl⟩
    have hsplit := List.take_append_drop p.column whole
    rw [← hsplit] at hwhole
    have hbefore := slice?_left hwhole
    have hlength : (whole.take p.column).length = p.column := by
      rw [List.length_take]
      omega
    have hholds : (ofText cs).Holds p.line start (start + byteSize (whole.take p.column)) := by
      refine ⟨hstart, Nat.le_add_right _ _, ?_⟩
      intro next hnext
      have hsize := byteSize_of_slice? hwhole
      have hline := (List.getElem?_eq_some_iff.mp hnext).1
      have hne : whole.drop p.column ≠ [] := by
        rw [← List.length_pos_iff, List.length_drop]
        rw [count] at hcolumn
        omega
      have hpos := byteSize_pos hne
      rw [hnext, Option.getD_some, byteSize_append] at hsize
      omega
    refine ⟨(isBoundary_of_slice? hbefore).2, ?_⟩
    rw [hholds.position_eq hbefore, hlength]
  · rintro ⟨ho, rfl⟩
    obtain ⟨start, before, hholds, hbefore, hcolumn⟩ := position_spec ho
    generalize (ofText cs).position o = p at hholds hcolumn ⊢
    have hline := (List.getElem?_eq_some_iff.mp hholds.line_start).1
    -- the offset lies in front of the next line, or there is none
    cases hnext : (ofText cs).start? (p.line + 1) with
    | some next =>
        have hboundary := isBoundary_of_mem_starts (mem_starts_of_start? hnext)
        have hlt := hholds.lt_next next hnext
        obtain ⟨rest, hrest⟩ := exists_slice? ho hboundary (Nat.le_of_lt hlt)
        have hsize := byteSize_of_slice? hrest
        have hne : rest ≠ [] := by
          rintro rfl
          rw [byteSize_nil] at hsize
          omega
        have hpos := List.length_pos_iff.mpr hne
        refine ⟨start, before ++ rest, hholds.line_start, slice?_append hbefore hrest, Or.inl ?_, ?_⟩
        · rw [List.length_append]
          omega
        · rw [← hcolumn, List.take_left]
          exact (byteSize_of_slice? hbefore).symm
    | none =>
        have hlast := List.getElem?_eq_none_iff.mp hnext
        obtain ⟨rest, hrest⟩ := exists_slice? ho (isBoundary_byteSize cs)
          (le_byteSize_of_isBoundary ho)
        refine ⟨start, before ++ rest, hholds.line_start, slice?_append hbefore hrest, ?_, ?_⟩
        · rw [List.length_append, count]
          omega
        · rw [← hcolumn, List.take_left]
          exact (byteSize_of_slice? hbefore).symm

end Lines

/-- **Offsets and positions stand for each other**, over any text.  The lines start at zero and
right behind each line end.  A character boundary lies on the last line that starts at or before it,
as many characters into it as its column says; boundaries are in the order of their positions, and a
boundary can be computed back from its position.  The texts of the lines hold no line end, and with
the line ends between them they make up the text. -/
theorem lines_locate_offsets (text : List Char) :
    let ls := Lines.ofText text
    (ls.starts.Pairwise (· < ·) ∧ ls.start? 0 = some 0 ∧
      ∀ o, o ∈ ls.starts.tail ↔ ∃ before after,
        text = before ++ after ∧ o = Text.byteSize before ∧ Text.EndsLine before after) ∧
    (∀ o, Text.isBoundary text o = true → ∃ start before,
      ls.Holds (ls.position o).line start o ∧ Text.slice? text start o = some before ∧
        before.length = (ls.position o).column) ∧
    (∀ o o', Text.isBoundary text o = true → Text.isBoundary text o' = true →
      (o < o' ↔ (ls.position o).Before (ls.position o'))) ∧
    (∀ o p, ls.offset? p = some o ↔ Text.isBoundary text o = true ∧ ls.position o = p) ∧
    (∀ i line, ls.text? i = some line → '\r' ∉ line ∧ '\n' ∉ line) ∧
    ∃ lines, Lines.Divided text lines ∧ (∀ i, ls.text? i = lines[i]?.map Lines.Line.text) ∧
      lines.flatMap (fun l => l.text ++ l.ending) = text := by
  intro ls
  obtain ⟨lines, hlines⟩ := Lines.exists_divided text
  refine ⟨⟨Lines.pairwise_starts text, rfl, fun o => ?_⟩, fun o ho => Lines.position_spec ho,
    fun o o' ho ho' => ⟨Lines.position_before ho ho', fun hbefore => ?_⟩,
    fun o p => Lines.offset?_iff_position, fun i line hline => ?_,
    lines, hlines, hlines.text?_eq, hlines.joined_eq⟩
  · have hbreaks : o ∈ Lines.breaksFrom 0 text ↔ _ := Lines.mem_breaksFrom_iff
    simp only [Lines.BreaksAt, Nat.zero_add] at hbreaks
    exact hbreaks
  · rcases Nat.lt_trichotomy o o' with hlt | rfl | hlt
    · exact hlt
    · exact absurd hbefore hbefore.asymm
    · exact absurd (Lines.position_before ho' ho hlt) hbefore.asymm
  · obtain ⟨l, hl, rfl⟩ := Option.map_eq_some_iff.mp ((hlines.text?_eq i).symm.trans hline)
    have honeLine := hlines.oneLine l (List.mem_of_getElem? hl)
    refine ⟨fun hmem => ?_, fun hmem => ?_⟩
    · cases honeLine _ hmem
    · cases honeLine _ hmem

/-- A pair of characters ends one line, and each of them alone does too; an accented letter takes
two bytes and one column. -/
example : (Lines.ofText "a\r\nb\n\ré\r".toList).starts = [0, 3, 5, 6, 9] ∧
    (Lines.ofText "a\r\nb\n\ré\r".toList).position 8 = ⟨3, 1⟩ := by
  cbv

end Lossless
