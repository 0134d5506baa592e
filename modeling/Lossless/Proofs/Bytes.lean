import Lossless.Lexer
import Lossless.Text.Bytes

/-!
# Cutting a text at byte offsets

`takeBytes` and `dropBytes` cut a text at any number of bytes, and `slice?` takes the
text between two offsets if both are character boundaries.  This file says what the
three do at a place that is known to be a boundary because the text is given as
`as ++ bs` there: **the boundaries of a text are the sizes of its beginnings**.

The window of a text is cut out by two boundaries in order, whatever the two numbers
asked for (`slice?_window`).
-/

namespace Lossless

namespace Text

/-- The size of a text with one more character in front. -/
@[simp] theorem byteSize_cons (c : Char) (cs : List Char) :
    byteSize (c :: cs) = c.utf8Size + byteSize cs := rfl

/-- Nothing takes no bytes. -/
@[simp] theorem byteSize_nil : byteSize [] = 0 := rfl

/-- Only the empty text takes no bytes. -/
theorem byteSize_pos {cs : List Char} (hne : cs ≠ []) : 0 < byteSize cs := by
  cases cs with
  | nil => exact absurd rfl hne
  | cons c cs =>
      have hc := c.utf8Size_pos
      rw [byteSize_cons]
      omega

/-- A cut at the size of a beginning gives that beginning. -/
theorem takeBytes_byteSize_append (as bs : List Char) :
    takeBytes (byteSize as) (as ++ bs) = as := by
  induction as with
  | nil =>
      cases bs with
      | nil => rfl
      | cons b bs =>
          have hb := b.utf8Size_pos
          simp only [List.nil_append, byteSize_nil, takeBytes]
          rw [if_neg (by omega)]
  | cons a as ih =>
      simp only [List.cons_append, byteSize_cons, takeBytes]
      rw [if_pos (by omega), Nat.add_sub_cancel_left, ih]

/-- A cut at the size of a beginning leaves what follows it. -/
theorem dropBytes_byteSize_append (as bs : List Char) :
    dropBytes (byteSize as) (as ++ bs) = bs := by
  have hsplit := takeBytes_append_dropBytes (byteSize as) (as ++ bs)
  rw [takeBytes_byteSize_append] at hsplit
  exact List.append_cancel_left hsplit

/-- The size of a beginning is a boundary. -/
theorem isBoundary_byteSize_append (as bs : List Char) :
    isBoundary (as ++ bs) (byteSize as) = true := by
  simp [isBoundary, floorBoundary, takeBytes_byteSize_append]

/-- A boundary is the size of a beginning. -/
theorem exists_append_of_isBoundary {cs : List Char} {n : Nat} (hn : isBoundary cs n = true) :
    ∃ as bs, cs = as ++ bs ∧ byteSize as = n :=
  ⟨takeBytes n cs, dropBytes n cs, (takeBytes_append_dropBytes n cs).symm,
    by simpa [isBoundary, floorBoundary] using hn⟩

/-- Of two beginnings of one text the one that takes no more bytes begins the other. -/
theorem prefix_of_byteSize_le {as bs cs : List Char} (has : as <+: cs) (hbs : bs <+: cs)
    (hle : byteSize as ≤ byteSize bs) : as <+: bs := by
  rcases List.prefix_or_prefix_of_prefix has hbs with hpre | ⟨rest, rfl⟩
  · exact hpre
  · have hrest : rest = [] := by
      by_cases hne : rest = []
      · exact hne
      · have hpos := byteSize_pos hne
        rw [byteSize_append] at hle
        omega
    simp [hrest]

/-- The slice between the two ends of a middle part is that part. -/
theorem slice?_middle (as ms bs : List Char) :
    slice? (as ++ (ms ++ bs)) (byteSize as) (byteSize as + byteSize ms) = some ms := by
  have hstart := isBoundary_byteSize_append as (ms ++ bs)
  have hstop : isBoundary (as ++ (ms ++ bs)) (byteSize as + byteSize ms) = true := by
    rw [← byteSize_append, ← List.append_assoc]
    exact isBoundary_byteSize_append (as ++ ms) bs
  simp [slice?, hstart, hstop, dropBytes_byteSize_append, takeBytes_byteSize_append]

/-- A text that has a slice is the slice with something on both sides. -/
theorem exists_middle_of_slice? {cs ms : List Char} {start stop : Nat}
    (h : slice? cs start stop = some ms) :
    ∃ as bs, cs = as ++ (ms ++ bs) ∧ byteSize as = start ∧ start + byteSize ms = stop := by
  unfold slice? at h
  split at h
  · rename_i hok
    simp only [Bool.and_eq_true, decide_eq_true_eq] at hok
    obtain ⟨⟨hle, hstart⟩, hstop⟩ := hok
    obtain ⟨as, cs', hcs, rfl⟩ := exists_append_of_isBoundary hstart
    obtain ⟨ps, bs, hps, rfl⟩ := exists_append_of_isBoundary hstop
    obtain ⟨ms', rfl⟩ := prefix_of_byteSize_le ⟨cs', hcs.symm⟩ ⟨bs, hps.symm⟩ hle
    have hsize := byteSize_append as ms'
    rw [hps, List.append_assoc, dropBytes_byteSize_append, hsize, Nat.add_sub_cancel_left,
      takeBytes_byteSize_append] at h
    cases h
    exact ⟨as, bs, by rw [hps, List.append_assoc], rfl, hsize.symm⟩
  · cases h

/-- **Slices meet.**  Two slices, the second of which starts where the first stops, make
up one slice. -/
theorem slice?_append {cs xs ys : List Char} {i j k : Nat}
    (hx : slice? cs i j = some xs) (hy : slice? cs j k = some ys) :
    slice? cs i k = some (xs ++ ys) := by
  obtain ⟨as, bs, rfl, rfl, hj⟩ := exists_middle_of_slice? hx
  obtain ⟨as', bs', heq, hj', hk⟩ := exists_middle_of_slice? hy
  have hsize : byteSize (as ++ xs) = byteSize as' := by
    rw [byteSize_append]
    omega
  have hsplit : bs = ys ++ bs' := by
    have hdrop := dropBytes_byteSize_append (as ++ xs) bs
    rw [hsize, List.append_assoc, heq, dropBytes_byteSize_append] at hdrop
    exact hdrop.symm
  have hmiddle := slice?_middle as (xs ++ ys) bs'
  rw [byteSize_append, ← Nat.add_assoc, hj, hk, List.append_assoc, ← hsplit] at hmiddle
  exact hmiddle

/-- A place at which a slice starts has an empty slice. -/
theorem slice?_start {cs xs : List Char} {i j : Nat} (hx : slice? cs i j = some xs) :
    slice? cs i i = some [] := by
  obtain ⟨as, bs, rfl, rfl, _⟩ := exists_middle_of_slice? hx
  exact slice?_middle as [] (xs ++ bs)

/-- A place at which a slice stops has an empty slice. -/
theorem slice?_stop {cs xs : List Char} {i j : Nat} (hx : slice? cs i j = some xs) :
    slice? cs j j = some [] := by
  obtain ⟨as, bs, rfl, rfl, rfl⟩ := exists_middle_of_slice? hx
  have hmiddle := slice?_middle (as ++ xs) [] bs
  rwa [byteSize_append, List.append_assoc] at hmiddle

end Text

/-- A span between the sizes of two beginnings covers what the second has more. -/
theorem Span.chars_middle (as ms bs : List Char) :
    Span.chars (as ++ (ms ++ bs)) ⟨Text.byteSize as, Text.byteSize as + Text.byteSize ms⟩ = ms := by
  simp [Span.chars, Text.dropBytes_byteSize_append, Text.takeBytes_byteSize_append]

/-- The bounds of a window are the sizes of two beginnings of the text, one of which
begins the other. -/
theorem window_eq (cs : List Char) (asked : Option Span) :
    ∃ as ms bs, cs = as ++ (ms ++ bs) ∧
      window cs asked = ⟨Text.byteSize as, Text.byteSize as + Text.byteSize ms⟩ := by
  cases asked with
  | none => exact ⟨[], cs, [], by simp, by simp [window]⟩
  | some asked =>
      have hstart := Text.takeBytes_append_dropBytes asked.start cs
      have hstop := Text.takeBytes_append_dropBytes asked.stop cs
      by_cases hle : Text.floorBoundary cs asked.start ≤ Text.floorBoundary cs asked.stop
      · obtain ⟨ms, hms⟩ := Text.prefix_of_byteSize_le ⟨_, hstart⟩ ⟨_, hstop⟩ hle
        refine ⟨Text.takeBytes asked.start cs, ms, Text.dropBytes asked.stop cs, ?_, ?_⟩
        · rw [← List.append_assoc, hms, hstop]
        · rw [← Text.byteSize_append, hms]
          simp only [window, Nat.min_eq_left hle]
          rfl
      · refine ⟨Text.takeBytes asked.stop cs, [], Text.dropBytes asked.stop cs, by simp [hstop], ?_⟩
        simp only [window, Nat.min_eq_right (Nat.le_of_not_le hle)]
        rfl

/-- **A window is a slice.**  Whatever two numbers are asked for, the bounds of the window
are boundaries in order, and its characters are the slice between them. -/
theorem slice?_window (cs : List Char) (asked : Option Span) :
    Text.slice? cs (window cs asked).start (window cs asked).stop =
      some ((window cs asked).chars cs) := by
  obtain ⟨as, ms, bs, rfl, hwindow⟩ := window_eq cs asked
  rw [hwindow, Span.chars_middle, Text.slice?_middle]

end Lossless
