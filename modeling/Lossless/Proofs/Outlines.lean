import Lossless.Calculator.Kind
import Lossless.Proofs.Preorder
import Lossless.Proofs.QuotedText
import Mathlib.Data.List.Basic

/-!
# An outline shows the whole tree

A line of an outline shows its depth by blanks and then a label: a token, or a node by its kind and
span.  No text or message can forge a line: what is quoted shows no line end, and of two labels
with something behind them neither begins the other, so **a line is read in one way**
(`line_append_inj`).

The walk along the stack of open nodes adds the lines of the tree from top to bottom, each at its
depth (`outline_eq`), also behind a node of many levels.  Depths and labels determine the tree, so
**trees with equal outlines are equal** but for the token indices of errors (`outline_eq_iff`),
if the names of elements can be told apart; those of the calculator can (`outline_faithful`).
-/

namespace Lossless

variable {κ : Type}

/-- Names of elements are words, and can be told apart from one another and from the root. -/
structure LegibleNames (κ : Type) [Named κ] : Prop where
  injective : ∀ j k : κ, Named.name j = Named.name k → j = k
  letters : ∀ k : κ, ∀ c ∈ (Named.name k).toList, c.isAlpha = true
  ne_root : ∀ k : κ, Named.name k ≠ "Root"

/-! ## Words and spans -/

/-- The characters of names, also of dotted ones. -/
def isWordPart (c : Char) : Bool :=
  c.isAlpha || c == '.'

theorem isHidden_of_isAlpha {c : Char} (h : c.isAlpha = true) : Text.isHidden c = false := by
  rcases Bool.or_eq_true_iff.mp h with hupper | hlower
  · obtain ⟨hfirst, hlast⟩ := of_decide_eq_true hupper
    change 65 ≤ c.toNat at hfirst
    change c.toNat ≤ 90 at hlast
    exact Text.isHidden_ascii (by omega) (by omega)
  · obtain ⟨hfirst, hlast⟩ := Bool.and_eq_true_iff.mp hlower
    have hfirst : 97 ≤ c.toNat := of_decide_eq_true hfirst
    have hlast : c.toNat ≤ 122 := of_decide_eq_true hlast
    exact Text.isHidden_ascii (by omega) (by omega)

theorem isHidden_of_isWordPart {c : Char} (h : isWordPart c = true) : Text.isHidden c = false := by
  rcases Bool.or_eq_true_iff.mp h with h | h
  · exact isHidden_of_isAlpha h
  · obtain rfl := beq_iff_eq.mp h
    exact Text.isHidden_ascii (by decide) (by decide)

theorem Span.display_toList (s : Span) :
    s.display.toList = Nat.toDigits 10 s.start ++ '.' :: '.' :: Nat.toDigits 10 s.stop := by
  simp [Span.display]

theorem Span.display_inj {s t : Span} (h : s.display.toList = t.display.toList) : s = t := by
  rw [s.display_toList, t.display_toList] at h
  obtain ⟨hstart, _, hrest⟩ :=
    run_append_inj (isDigit_toDigits _) (isDigit_toDigits _) (by decide) (by decide) h
  have hstop := toDigits_inj (by decide) (by decide) (List.cons.inj hrest).2
  have hstart := toDigits_inj (by decide) (by decide) hstart
  cases s
  cases t
  simp_all

theorem Span.display_shown (s : Span) : ∀ c ∈ s.display.toList, Text.isHidden c = false := by
  have hnumber : ∀ n, ∀ c ∈ Nat.toDigits 10 n, Text.isHidden c = false := fun _ =>
    Text.isHidden_toDigits (by decide) (by decide)
  have hpoint : Text.isHidden '.' = false := Text.isHidden_ascii (by decide) (by decide)
  intro c hc
  rw [s.display_toList] at hc
  simp only [List.mem_append, List.mem_cons] at hc
  rcases hc with hc | rfl | rfl | hc
  · exact hnumber _ c hc
  · exact hpoint
  · exact hpoint
  · exact hnumber _ c hc

theorem TokenKind.mem_all (kind : TokenKind) : kind ∈ TokenKind.all := by
  cases kind with
  | literal l =>
      cases l with
      | integer base => cases base <;> decide
      | floating precision => cases precision <;> decide
      | char => decide
      | string part =>
          cases part with
          | opening style => cases style <;> decide
          | closing style => cases style <;> decide
          | _ => decide
  | _ => decide

theorem TokenKind.name_inj {j k : TokenKind} (h : j.name = k.name) : j = k := by
  have hread : ∀ kind ∈ TokenKind.all, ofName? kind.name = some kind := by decide
  have hsame := hread j j.mem_all
  rw [h, hread k k.mem_all] at hsame
  exact (Option.some.inj hsame).symm

theorem TokenKind.name_word (kind : TokenKind) :
    kind.name.toList ≠ [] ∧ ∀ c ∈ kind.name.toList, isWordPart c = true := by
  have hall : ∀ kind ∈ TokenKind.all,
      kind.name.toList ≠ [] ∧ kind.name.toList.all isWordPart = true := by decide
  obtain ⟨hsome, hword⟩ := hall kind kind.mem_all
  exact ⟨hsome, List.all_eq_true.mp hword⟩

/-! ## Labels as text -/

namespace Label

/-- The mark behind the word that a label begins with. -/
def mark : Label κ → Char
  | token _ => ' '
  | root _ | element _ _ => '@'
  | error _ _ => '('

theorem isWordPart_mark (l : Label κ) : isWordPart l.mark = false := by
  cases l <;> rfl

variable [Named κ]

/-- The word that a label begins with. -/
def word : Label κ → List Char
  | token t => t.kind.name.toList
  | root _ => "Root".toList
  | element kind _ => (Named.name kind).toList
  | error _ _ => "Error".toList

/-- What is behind the mark. -/
def rest : Label κ → List Char
  | token t => (Text.quote t.text).toList ++ '@' :: t.span.display.toList
  | root s | element _ s => s.display.toList
  | error message s => (Text.quote message).toList ++ ')' :: '@' :: s.display.toList

/-- The characters of a label. -/
def text (l : Label κ) : List Char :=
  l.word ++ l.mark :: l.rest

theorem isWordPart_word (hnames : LegibleNames κ) (l : Label κ) :
    ∀ c ∈ l.word, isWordPart c = true := by
  cases l with
  | token t => exact t.kind.name_word.2
  | root s => exact List.all_eq_true.mp (by decide : "Root".toList.all isWordPart = true)
  | element kind s =>
      intro c hc
      rw [isWordPart, hnames.letters kind c hc]
      rfl
  | error message s => exact List.all_eq_true.mp (by decide : "Error".toList.all isWordPart = true)

/-- **Labels with the same text are the same.** -/
theorem text_inj (hnames : LegibleNames κ) {l m : Label κ} (h : l.text = m.text) : l = m := by
  obtain ⟨hword, hmark, hrest⟩ := run_append_inj (l.isWordPart_word hnames)
    (m.isWordPart_word hnames) l.isWordPart_mark m.isWordPart_mark h
  cases l with
  | token t =>
      cases m with
      | token u =>
          have hkind := TokenKind.name_inj (String.toList_inj.mp hword)
          obtain ⟨htext, hspan⟩ := Text.quoted_append_inj hrest
          have hspan := Span.display_inj (List.cons.inj hspan).2
          cases t
          cases u
          simp_all
      | _ => cases hmark
  | root s =>
      cases m with
      | root t => rw [Span.display_inj hrest]
      | element kind t => exact absurd (String.toList_inj.mp hword).symm (hnames.ne_root kind)
      | _ => cases hmark
  | element kind s =>
      cases m with
      | root t => exact absurd (String.toList_inj.mp hword) (hnames.ne_root kind)
      | element kind' t =>
          rw [hnames.injective _ _ (String.toList_inj.mp hword), Span.display_inj hrest]
      | _ => cases hmark
  | error message s =>
      cases m with
      | error message' t =>
          obtain ⟨rfl, hspan⟩ := Text.quoted_append_inj hrest
          rw [Span.display_inj (List.cons.inj (List.cons.inj hspan).2).2]
      | _ => cases hmark

/-- No label begins with a blank. -/
theorem begins (hnames : LegibleNames κ) (l : Label κ) :
    ∃ c cs, l.text = c :: cs ∧ (c == ' ') = false := by
  have hword := l.isWordPart_word hnames
  unfold text
  cases hchars : l.word with
  | nil =>
      refine ⟨l.mark, l.rest, rfl, ?_⟩
      cases l with
      | token t => exact absurd hchars t.kind.name_word.1
      | _ => rfl
  | cons c cs =>
      refine ⟨c, _, rfl, ?_⟩
      rw [beq_eq_false_iff_ne]
      rintro rfl
      have hblank := hword ' ' (hchars ▸ List.mem_cons_self)
      cases hblank

/-- A label shows no hidden character, whatever it quotes. -/
theorem text_shown (hnames : LegibleNames κ) (l : Label κ) :
    ∀ c ∈ l.text, Text.isHidden c = false := by
  have hascii : ∀ c ∈ [' ', '@', '(', ')'], Text.isHidden c = false := by
    intro c hc
    simp only [List.mem_cons, List.not_mem_nil, or_false] at hc
    rcases hc with rfl | rfl | rfl | rfl <;> rfl
  intro c hc
  rcases List.mem_append.mp hc with hc | hc
  · exact isHidden_of_isWordPart (l.isWordPart_word hnames c hc)
  · cases l with
    | token t =>
        simp only [mark, rest, List.mem_cons, List.mem_append] at hc
        rcases hc with rfl | hc | rfl | hc
        · exact hascii _ (by simp)
        · exact Text.quote_shown _ c hc
        · exact hascii _ (by simp)
        · exact Span.display_shown _ c hc
    | error message s =>
        simp only [mark, rest, List.mem_cons, List.mem_append] at hc
        rcases hc with rfl | hc | rfl | rfl | hc
        · exact hascii _ (by simp)
        · exact Text.quote_shown _ c hc
        · exact hascii _ (by simp)
        · exact hascii _ (by simp)
        · exact Span.display_shown _ c hc
    | _ =>
        simp only [mark, rest, List.mem_cons] at hc
        rcases hc with rfl | hc
        · exact hascii _ (by simp)
        · exact Span.display_shown _ c hc

/-- A label ends no line. -/
theorem ne_feed (hnames : LegibleNames κ) (l : Label κ) : ∀ c ∈ l.text, (c != '\n') = true := by
  intro c hc
  rw [bne_iff_ne]
  rintro rfl
  have hfeed : Text.isHidden '\n' = true := by decide
  rw [l.text_shown hnames _ hc] at hfeed
  cases hfeed

end Label

/-! ## Lines -/

namespace Tree

variable [Named κ]

/-- A label as a line at a depth. -/
def lineText (depth : Nat) (l : Label κ) : List Char :=
  List.replicate (2 * depth) ' ' ++ (l.text ++ ['\n'])

theorem line_toList (depth : Nat) (t : Tree κ) :
    (line depth t).toList = lineText depth t.label := by
  cases t with
  | leaf t => simp [line, lineText, indentation, display, Token.display, label, Label.text,
      Label.word, Label.mark, Label.rest]
  | node k s cs =>
      cases k <;> simp [line, lineText, indentation, display, NodeKind.display, label, Label.text,
        Label.word, Label.mark, Label.rest]

/-- **A line is read in one way**, whatever follows it. -/
theorem line_append_inj (hnames : LegibleNames κ) {d e : Nat} {l m : Label κ} {r r' : List Char}
    (h : lineText d l ++ r = lineText e m ++ r') : d = e ∧ l = m ∧ r = r' := by
  obtain ⟨c, cs, hl, hc⟩ := l.begins hnames
  obtain ⟨c', cs', hm, hc'⟩ := m.begins hnames
  have hblanks : ∀ n, ∀ b ∈ List.replicate n ' ', (b == ' ') = true := by simp
  simp only [lineText, List.append_assoc, hl, hm, List.cons_append] at h
  obtain ⟨hdepth, hbegin, hbehind⟩ := run_append_inj (hblanks _) (hblanks _) hc hc' h
  have htext : l.text ++ '\n' :: r = m.text ++ '\n' :: r' := by
    rw [hl, hm, hbegin, List.cons_append, List.cons_append]
    simpa using hbehind
  obtain ⟨hlabel, _, hrest⟩ := run_append_inj (l.ne_feed hnames) (m.ne_feed hnames) (by decide)
    (by decide) htext
  have hlength := congrArg List.length hdepth
  rw [List.length_replicate, List.length_replicate] at hlength
  exact ⟨by omega, Label.text_inj hnames hlabel, hrest⟩

/-- Labels as lines, each at its depth. -/
def linesText (es : List (Nat × Label κ)) : List Char :=
  es.flatMap fun e => lineText e.1 e.2

theorem linesText_inj (hnames : LegibleNames κ) {es fs : List (Nat × Label κ)}
    (h : linesText es = linesText fs) : es = fs := by
  induction es generalizing fs with
  | nil =>
      cases fs with
      | nil => rfl
      | cons f fs => simp [linesText, lineText] at h
  | cons e es ih =>
      cases fs with
      | nil => simp [linesText, lineText] at h
      | cons f fs =>
          obtain ⟨hdepth, hlabel, hrest⟩ := line_append_inj hnames h
          rw [Prod.ext hdepth hlabel, ih hrest]

/-! ## The walk -/

/-- The labels of what is still to be shown, the rows from the innermost on. -/
def rowEntries (o : OutlineOptions) : List (List (Tree κ)) → List (Nat × Label κ)
  | [] => []
  | row :: rows => entriesOf o rows.length row ++ rowEntries o rows

/-- **The walk adds the lines of all that is still to be shown**, each at its depth. -/
theorem outlineRows_eq (o : OutlineOptions) (output : String) (rows : List (List (Tree κ))) :
    (outlineRows o output rows).toList = output.toList ++ linesText (rowEntries o rows) := by
  fun_induction outlineRows o output rows with
  | case1 output => simp [rowEntries, linesText]
  | case2 output rows ih => rw [ih, rowEntries, entriesOf, List.nil_append]
  | case3 output t ts rows output' ih =>
      have hrow : rowEntries o ((leaf t :: ts) :: rows) =
          entries o rows.length (leaf t) ++ rowEntries o (ts :: rows) := by
        simp [rowEntries, entriesOf]
      rw [ih, hrow, linesText, linesText, List.flatMap_append, ← List.append_assoc]
      congr 1
      unfold entries
      split
      · simp [output', line_toList, label, *]
      · simp [output', *]
  | case4 output k s cs ts rows ih =>
      have hrow : rowEntries o ((node k s cs :: ts) :: rows) =
          (rows.length, (node k s cs).label) :: rowEntries o (cs :: ts :: rows) := by
        simp [rowEntries, entriesOf, entries]
      rw [ih, hrow, String.toList_append, line_toList, List.append_assoc]
      rfl

/-- **An outline has the lines of the tree from top to bottom.** -/
theorem outline_eq (o : OutlineOptions) (t : Tree κ) :
    (t.outline o).toList = linesText (t.entries o 0) := by
  rw [outline, outlineRows_eq]
  simp [rowEntries, entriesOf]

/-! ## What an outline tells -/

/-- **Trees have the same outline if and only if they are the same** but for the token indices of
errors. -/
theorem outline_eq_iff (hnames : LegibleNames κ) {a b : Tree κ} :
    a.outline {} = b.outline {} ↔ a.unindexed = b.unindexed := by
  constructor
  · intro h
    have htext := congrArg String.toList h
    rw [outline_eq, outline_eq] at htext
    have hentries : entries {} 0 a ++ [] = entries {} 0 b ++ [] := by
      rw [linesText_inj hnames htext]
    have habove : Above 1 ([] : List (Nat × Label κ)) := by simp [Above]
    exact (entries_append_inj a b habove habove hentries).1
  · intro h
    apply String.toList_inj.mp
    rw [outline_eq, outline_eq, ← a.entries_unindexed, h, b.entries_unindexed]

theorem count_linesText (hnames : LegibleNames κ) (es : List (Nat × Label κ)) :
    (linesText es).count '\n' = es.length := by
  induction es with
  | nil => rfl
  | cons e es ih =>
      have hlabel : e.2.text.count '\n' = 0 := by
        rw [List.count_eq_zero]
        intro hmem
        exact absurd (bne_iff_ne.mp (e.2.ne_feed hnames _ hmem)) (by simp)
      have hblanks : (List.replicate (2 * e.1) ' ').count '\n' = 0 := by
        simp [List.count_replicate]
      rw [linesText, List.flatMap_cons, List.count_append, lineText, List.count_append,
        List.count_append, hlabel, hblanks]
      show 0 + (0 + 1) + (linesText es).count '\n' = es.length + 1
      rw [ih]
      omega

/-- **There is a line for each node and for each token**, and no other. -/
theorem count_outline (hnames : LegibleNames κ) (t : Tree κ) :
    (t.outline {}).toList.count '\n' = t.nodes.length + t.tokens.length := by
  rw [outline_eq, count_linesText hnames, length_entries]

theorem shown_outline (hnames : LegibleNames κ) (o : OutlineOptions) (t : Tree κ) :
    ∀ c ∈ (t.outline o).toList, c = '\n' ∨ Text.isHidden c = false := by
  intro c hc
  rw [outline_eq] at hc
  obtain ⟨e, _, hc⟩ := List.mem_flatMap.mp hc
  simp only [lineText, List.mem_append, List.mem_replicate, List.mem_singleton] at hc
  rcases hc with ⟨_, rfl⟩ | hc | rfl
  · exact Or.inr (Text.isHidden_ascii (by decide) (by decide))
  · exact Or.inr (e.2.text_shown hnames c hc)
  · exact Or.inl rfl

/-- The last line is ended, too. -/
theorem getLast?_outline (t : Tree κ) : (t.outline {}).toList.getLast? = some '\n' := by
  have hentries : entries {} 0 t ≠ [] := by
    cases t <;> simp [entries, OutlineOptions.shows]
  rw [outline_eq, ← List.dropLast_append_getLast hentries, linesText, List.flatMap_append]
  simp [lineText]

end Tree

namespace Calculator

theorem Kind.ofName?_shownName (kind : Kind) : ofName? kind.shownName = some kind := by
  cases kind <;> decide

theorem Kind.legibleNames : LegibleNames Kind where
  injective j k h := by
    have hsame := Kind.ofName?_shownName j
    rw [show j.shownName = k.shownName from h, Kind.ofName?_shownName k] at hsame
    exact (Option.some.inj hsame).symm
  letters kind := List.all_eq_true.mp (by cases kind <;> decide)
  ne_root kind := by cases kind <;> decide

/-- **An outline shows the whole tree.**  Two trees of the calculator have the same outline if and
only if they have the same shape with the same kinds, messages and spans of nodes and the same
tokens; only the token index of an error is not shown.  An outline has exactly one line for each
node and each token, all of them ended, whatever the texts and messages hold: no other hidden
character is in it. -/
theorem outline_faithful (a b : Tree Kind) :
    (a.outline {} = b.outline {} ↔ a.unindexed = b.unindexed) ∧
      (a.outline {}).toList.count '\n' = a.nodes.length + a.tokens.length ∧
      (a.outline {}).toList.getLast? = some '\n' ∧
      ∀ c ∈ (a.outline {}).toList, c = '\n' ∨ Text.isHidden c = false :=
  ⟨Tree.outline_eq_iff Kind.legibleNames, a.count_outline Kind.legibleNames, a.getLast?_outline,
    a.shown_outline Kind.legibleNames {}⟩

end Calculator

end Lossless
