import Lossless.Proofs.Discipline
import Lossless.Proofs.Growth
import Lossless.Proofs.Lookahead

/-!
# The calculator marks a clean nesting

A failed operand drops its marker and leaves what is inside of it behind, a broken block ends
its string early, and what is left of a line goes into a bad statement.  **On all these ways the
completed markers are a forest** (`grows_program`), so that every text, valid or not, is built
without an anomaly (`parseTree_clean`).

Only a statement that is an expression has no token of its own; it was opened to wrap the
expression.
-/

namespace Lossless

variable {κ : Type}

/-! ## Markers of a forest -/

namespace Plot

mutual

theorem Tidy.within : ∀ {p : Plot κ}, p.Tidy → ∀ n ∈ markers [p],
    p.marker.start ≤ n.start ∧ n.start ≤ n.stop ∧ n.stop ≤ p.marker.stop
  | .mk m inner, ⟨hle, hrow⟩, n, hn => by
      rw [markers_cons, markers_nil, List.append_nil] at hn
      rcases List.mem_cons.mp hn with rfl | hn
      · exact ⟨Nat.le_refl _, hle, Nat.le_refl _⟩
      · exact hrow.within n hn

/-- The markers of a row lie between its ends. -/
theorem Row.within : ∀ {ps : List (Plot κ)} {start stop : Nat}, Row start stop ps →
    ∀ n ∈ markers ps, start ≤ n.start ∧ n.start ≤ n.stop ∧ n.stop ≤ stop
  | [], _, _, _, n, hn => by cases hn
  | p :: ps, start, stop, ⟨hstart, htidy, hrow⟩, n, hn => by
      have hp := htidy.le
      have hstop := hrow.le
      rw [← List.singleton_append, markers_append] at hn
      rcases List.mem_append.mp hn with hn | hn
      · have hinside := htidy.within n hn
        omega
      · have hinside := hrow.within n hn
        omega

end

mutual

theorem Tidy.compatible : ∀ {p : Plot κ}, p.Tidy → (markers [p]).Pairwise Marker.Compatible
  | .mk m inner, ⟨_, hrow⟩ => by
      rw [markers_cons, markers_nil, List.append_nil]
      refine List.pairwise_cons.mpr ⟨?_, hrow.compatible⟩
      intro n hn
      have hinside := hrow.within n hn
      exact Or.inr (Or.inr (Or.inl ⟨hinside.1, hinside.2.2⟩))

/-- The markers of a row are nested or disjoint. -/
theorem Row.compatible : ∀ {ps : List (Plot κ)} {start stop : Nat}, Row start stop ps →
    (markers ps).Pairwise Marker.Compatible
  | [], _, _, _ => .nil
  | p :: ps, start, stop, ⟨_, htidy, hrow⟩ => by
      rw [← List.singleton_append, markers_append]
      refine List.pairwise_append.mpr ⟨htidy.compatible, hrow.compatible, ?_⟩
      intro m hm n hn
      have hfront := htidy.within m hm
      have hbehind := hrow.within n hn
      exact Or.inl (by omega)

end

end Plot

/-- Two markers cover the same tokens only if one of them is a wrapper of a certain kind, opened
to precede the other. -/
def Marker.Apart (m : Marker κ) (wrapper : κ) (n : Marker κ) : Prop :=
  m.sameRange n = true →
    (m.kind = wrapper ∧ m.precedes = some n.id) ∨ (n.kind = wrapper ∧ n.precedes = some m.id)

theorem Marker.Apart.symm {wrapper : κ} {m n : Marker κ} (h : m.Apart wrapper n) :
    n.Apart wrapper m := by
  intro hsame
  rw [Marker.sameRange_iff] at hsame
  exact (h ((Marker.sameRange_iff m n).mpr ⟨hsame.1.symm, hsame.2.symm⟩)).symm

/-- The markers of a session are a clean nesting: none of them crosses another, no number is used
twice, all fit the tokens, and the same tokens are covered twice only by a wrapper. -/
structure Session.Clean (wrapper : κ) (s : Session κ) : Prop where
  compatible : s.completed.Pairwise Marker.Compatible
  ids : (s.completed.map (·.id)).Nodup
  fits : ∀ m ∈ s.completed, m.fits s.tokens.size = true
  apart : s.completed.Pairwise fun m n => m.Apart wrapper n

section Forests

variable {wrapper : κ} {s s' : Session κ} {ps : List (Plot κ)}

/-- From a session without markers, a grounded forest grows. -/
theorem Session.Grows.perm (h : s.Grows (Plot.Grounded wrapper) s' ps) (hnone : s.completed = []) :
    s'.completed.Perm (Plot.markers ps) := by
  obtain ⟨done, hdone, hperm⟩ := h.records.completed
  rw [hdone, hnone]
  exact hperm

theorem Session.Grows.ids (h : s.Grows (Plot.Grounded wrapper) s' ps) (hnone : s.completed = []) :
    (s'.completed.map (·.id)).Nodup :=
  ((h.perm hnone).map _).nodup_iff.mpr h.records.nodup

theorem Session.Grows.clean (h : s.Grows (Plot.Grounded wrapper) s' ps) (hnone : s.completed = []) :
    s'.Clean wrapper where
  compatible := (h.perm hnone).symm.pairwise h.row.compatible (Std.Symm.symm _ _)
  ids := h.ids hnone
  fits := by
    intro m hm
    have hinside := h.row.within m ((h.perm hnone).mem_iff.mp hm)
    have hlt := h.cursor_lt
    rw [Marker.fits_iff]
    omega
  apart := by
    have hordered : (Plot.markers ps).Pairwise fun m n => m.Apart wrapper n :=
      (h.row.sameRange_of_grounded h.good).imp fun hwraps hsame => Or.inl (hwraps hsame)
    exact (h.perm hnone).symm.pairwise hordered Marker.Apart.symm

/-- The forest stands among all tokens. -/
theorem Session.Grows.row_whole (h : s.Grows (Plot.Grounded wrapper) s' ps)
    (hcursor : s.cursor = 0) : Plot.Row 0 s'.tokens.size ps := by
  rw [← hcursor]
  exact h.row.mono (Nat.le_of_lt h.cursor_lt)

/-- The forest is laid out as it is, whatever else is built. -/
theorem Session.Grows.plots_eq (h : s.Grows (Plot.Grounded wrapper) s' ps)
    (hnone : s.completed = []) (hcursor : s.cursor = 0) :
    plots s'.tokens.size s'.completed = (ps, []) :=
  plots_eq_of_grounded (h.row_whole hcursor) h.good (h.perm hnone) (h.ids hnone)

end Forests

namespace Calculator

open ExpressionGrammar

/-! ## Atoms -/

section Atoms

variable {s : Session Kind} {inner : Inner}

theorem grows_single (hs : s.Ready) (hcurrent : s.current.isTrivia = false)
    (hkind : s.current.kind ≠ .eof) (kind : Kind) :
    s.Grows Plot.Rooted (single kind s).2 [.mk (single kind s).1 []] := by
  have hbehind : s.Grows Plot.Rooted s.mark.2.advance [] := hs.grows_behind_open _ _
  exact hs.grows_mark hcurrent hkind (hbehind.ready hs).grows kind

theorem grows_skipBlock (hs : s.Ready) : s.Grows Plot.Rooted (skipBlock s) [] := by
  have hreport : s.Grows Plot.Rooted
      (if s.isAt blockEnd then s else s.error "expected '\x7d'") [] := by
    split
    · exact hs.grows
    · exact hs.grows_error _
  have hs₁ := hreport.ready hs
  have hmoved := hreport.behind (hs₁.grows_advanceTo endsBlock)
  exact hmoved.behind ((hmoved.ready hs).grows_eat blockEnd)

theorem grows_block (hinner : Thrives inner) (hs : s.Ready) :
    ∃ ps, s.Grows Plot.Rooted (block inner s) ps := by
  obtain ⟨ps, hread, _⟩ := hinner 0 s hs
  rcases hr : inner 0 s with ⟨_ | e, s₁⟩ <;> rw [hr] at hread
  · rw [block_none hr]
    exact ⟨ps, hread.ahead (grows_skipBlock (hread.ready hs))⟩
  · have hs₁ : s₁.Ready := hread.ready hs
    have hskip := hread.ahead hs₁.grows_skipTrivia
    cases hholds : blockEnd.holds s₁.skipTrivia.current with
    | true =>
        rw [block_closed hr hholds]
        exact ⟨ps, hskip.ahead hs₁.skipTrivia.grows_advance⟩
    | false =>
        rw [block_open hr hholds]
        exact ⟨ps, hskip.ahead (grows_skipBlock hs₁.skipTrivia)⟩

theorem grows_stringPieces (hinner : Thrives inner) (rounds : Nat) (hs : s.Ready) :
    ∃ ps, s.Grows Plot.Rooted (stringPieces inner rounds s) ps := by
  induction rounds generalizing s with
  | zero => exact ⟨[], hs.grows⟩
  | succ rounds ih =>
      have hadvance : s.Grows Plot.Rooted s.advance [] := hs.grows_advance
      have hs₁ := hadvance.ready hs
      have hnext : ∃ ps, s.Grows Plot.Rooted (stringPieces inner rounds s.advance) ps := by
        obtain ⟨ps, hlater⟩ := ih hs₁
        exact ⟨ps, hadvance.behind hlater⟩
      unfold stringPieces
      split
      · exact ⟨[], hs.grows_error _⟩
      · exact ⟨[], hadvance⟩
      · simp only
        split
        · rename_i hname
          have hkind : s.advance.current.kind = .identifier := by simpa using hname
          have hsingle := hadvance.behind (grows_single hs₁ (Token.isTrivia_of_kind hkind rfl)
            (by rw [hkind]; decide) .name)
          obtain ⟨ps, hlater⟩ := ih (hsingle.ready hs)
          exact ⟨_, hsingle.trans hlater⟩
        · exact hnext
      · obtain ⟨ps, hblock⟩ := grows_block hinner hs₁
        obtain ⟨qs, hlater⟩ := ih (hblock.ready hs₁)
        exact ⟨ps ++ qs, hadvance.behind (hblock.trans hlater)⟩
      · exact hnext

theorem yields_string (hinner : Thrives inner) (hs : s.Ready)
    (hcurrent : s.current.isTrivia = false) (hkind : s.current.kind ≠ .eof) :
    Yields s (some (string inner s).1, (string inner s).2) := by
  have hbehind : s.Grows Plot.Rooted s.mark.2.advance [] := hs.grows_behind_open _ _
  obtain ⟨ps, hpieces⟩ := grows_stringPieces hinner s.mark.2.advance.remaining (hbehind.ready hs)
  exact (hs.grows_mark hcurrent hkind hpieces .string).yields_some

theorem yields_group (hinner : Thrives inner) (hs : s.Ready)
    (hcurrent : s.current.isTrivia = false) (hkind : s.current.kind ≠ .eof) :
    Yields s (some (group inner s).1, (group inner s).2) := by
  have hbehind : s.Grows Plot.Rooted s.mark.2.advance [] := hs.grows_behind_open _ _
  obtain ⟨ps, hread, _⟩ := hinner 0 _ (hbehind.ready hs)
  have hs₁ := hread.ready (hbehind.ready hs)
  unfold group
  simp only
  generalize inner 0 s.mark.2.advance = r at hread hs₁ ⊢
  obtain ⟨found, s₁⟩ := r
  cases found with
  | none => exact (hs.grows_mark hcurrent hkind hread .group).yields_some
  | some e =>
      have hexpect := hread.ahead (hs₁.grows_expect (.text ")"))
      exact (hs.grows_mark hcurrent hkind hexpect .group).yields_some

theorem atomThrives_grammar : AtomThrives grammar := by
  intro inner hinner s hs hcurrent
  show Yields s (atom inner s)
  have hsingle : ∀ kind : Kind, s.current.kind ≠ .eof →
      Yields s (some (single kind s).1, (single kind s).2) := fun kind hkind =>
    (grows_single hs hcurrent hkind kind).yields_some
  unfold atom
  split
  · rename_i hkind
    exact hsingle .name (by rw [hkind]; decide)
  · rename_i hkind
    exact hsingle .bool (by rw [hkind]; decide)
  · rename_i hkind
    exact yields_group hinner hs hcurrent (by rw [hkind]; decide)
  · rename_i hkind
    exact hsingle .char (by rw [hkind]; decide)
  · rename_i part hkind
    exact yields_string hinner hs hcurrent (by rw [hkind]; simp)
  · rename_i literal _ _ hkind
    exact hsingle .number (by rw [hkind]; simp)
  · exact hs.grows.yields_none

theorem thrives_expression : Thrives grammar.expression := by
  intro least s hs
  exact thrives_expressionAt atomThrives_grammar _ least s hs

end Atoms

/-! ## Statements -/

section Statements

variable {s : Session Kind}

theorem grounded_of_rooted {tokens : Array Token} (p : Plot Kind) (h : p.Rooted tokens) :
    p.Grounded .expressionStatement tokens :=
  .rooted h

theorem grows_letName (hs : s.Ready) : ∃ ps, s.Grows Plot.Rooted (letName s) ps := by
  unfold letName
  split
  · rename_i hat
    rw [Session.Ready.isAt_eq hs] at hat
    have hkind : s.skipTrivia.current.kind = .identifier := by simpa [Expectation.holds] using hat
    exact ⟨_, hs.grows_skipTrivia.behind (grows_single hs.skipTrivia
      (Token.isTrivia_of_kind hkind rfl) (by rw [hkind]; decide) .name)⟩
  · exact ⟨[], hs.grows_expect _⟩

theorem grows_letStatement (hs : s.Ready) (hat : s.isAt (.text "let") = true) :
    ∃ ps, s.Grows Plot.Rooted (letStatement s) ps := by
  have hs₁ := hs.skipTrivia
  have hskip : s.Grows Plot.Rooted s.skipTrivia [] := hs.grows_skipTrivia
  have hkind : s.skipTrivia.current.kind ≠ .eof := by
    intro heof
    rw [Session.Ready.isAt_eq hs] at hat
    simp [Expectation.holds, Expectation.hasOwnText, heof] at hat
  have hbehind : s.skipTrivia.Grows Plot.Rooted s.skipTrivia.mark.2.advance [] :=
    hs₁.grows_behind_open _ _
  have hs₂ := hbehind.ready hs₁
  obtain ⟨ps, hname⟩ := grows_letName hs₂
  have hs₃ := hname.ready hs₂
  have hsign := hname.ahead (hs₃.grows_expect (.text "="))
  unfold letStatement
  simp only
  generalize (letName s.skipTrivia.mark.2.advance).expect (.text "=") = r at hsign ⊢
  obtain ⟨met, s₄⟩ := r
  cases met with
  | false =>
      exact ⟨_, hskip.behind (hs₁.grows_mark hs.current_skipTrivia hkind hsign .letStatement)⟩
  | true =>
      obtain ⟨qs, hvalue, _⟩ := thrives_expression 0 s₄ (hsign.ready hs₂)
      exact ⟨_, hskip.behind (hs₁.grows_mark hs.current_skipTrivia hkind (hsign.trans hvalue)
        .letStatement)⟩

/-- The statement of an expression wraps it and all that was completed behind it. -/
theorem grows_expressionStatement (hs : s.Ready) :
    ∃ ps, s.Grows (Plot.Grounded .expressionStatement) (expressionStatement s) ps := by
  obtain ⟨ps, hread, hfirst⟩ := thrives_expression 0 s hs
  unfold expressionStatement
  split
  · rename_i s₁ hnone
    rw [hnone] at hread
    exact ⟨ps, hread.imp grounded_of_rooted⟩
  · rename_i e s₁ hsome
    rw [hsome] at hread hfirst
    obtain ⟨p, rest, rfl, rfl⟩ := hfirst e rfl
    have hs₁ : s₁.Ready := hread.ready hs
    have hstart : p.marker.start ≤ s₁.cursor :=
      Nat.le_trans hread.row.2.1.le hread.row.2.2.le
    have hmarker := complete_fst (s := (s₁.precede p.marker).2) (m := (s₁.precede p.marker).1)
      Kind.expressionStatement hstart
    have hrecords := hread.records.complete
      (Session.Records.nil rfl (Nat.le_refl _) : (s₁.precede p.marker).2.Records _ []) rfl rfl
      (rfl : (s₁.precede p.marker).1.id = s₁.opened) Kind.expressionStatement
    have hid : p.marker.id < s₁.opened :=
      (hread.records.ids p.marker (Plot.marker_mem_markers List.mem_cons_self)).2
    rw [List.append_nil, hmarker] at hrecords
    simp only
    refine ⟨[.mk ⟨s₁.opened, p.marker.start, s₁.cursor, .expressionStatement, some p.marker.id⟩
      (p :: rest)], hread.tokens, hread.options, hread.depth, hread.cursor_lt, ?_, ?_, ?_⟩
    · rw [Plot.markers_cons, Plot.markers_nil, List.append_nil]
      exact hrecords
    · exact ⟨hread.row.1, ⟨hstart, Nat.le_refl _, hread.row.2⟩, Nat.le_refl _⟩
    · intro q hq
      obtain rfl := List.mem_singleton.mp hq
      exact .wraps rfl rfl hid rfl hread.good

/-- What is left of a line is an element whose own token is the first of it. -/
theorem grows_recoverToLineEnd (hs : s.Ready) (hcurrent : s.current.isTrivia = false)
    (kind : Kind) :
    ∃ ps, s.Grows Plot.Rooted (s.recoverToLineEnd kind).2 ps := by
  unfold Session.recoverToLineEnd
  split
  · exact ⟨[], hs.grows⟩
  · rename_i hline
    have hkind : s.current.kind ≠ .eof := by
      intro heof
      simp [Session.endsLine, heof] at hline
    have hopen : s.mark.2.Ready := ⟨hs.cursor_lt, hs.last_kind⟩
    have hseek := hopen.advanceTo_eq (Bool.eq_false_iff.mpr hline) hkind
    have hbehind : s.Grows Plot.Rooted s.mark.2.advance [] := hs.grows_behind_open _ _
    have hmoved : s.mark.2.advance.Grows Plot.Rooted (s.mark.2.advanceTo Session.endsLine) [] := by
      rw [hseek]
      exact (hbehind.ready hs).grows_advanceTo _
    exact ⟨_, hs.grows_mark hcurrent hkind hmoved kind⟩

/-- What a line is read as, before the rest of it is looked at. -/
def lineContent (s : Session Kind) : Session Kind :=
  if s.isAt (.text "let") then letStatement s else expressionStatement s

theorem statement_eq (s : Session Kind) :
    statement s =
      if Session.endsLine (lineContent s).skipTrivia.current then (lineContent s).skipTrivia
      else ((if (lineContent s).skipTrivia.errors.length == s.errors.length then
          (lineContent s).skipTrivia.error "expected end of line"
        else (lineContent s).skipTrivia).recoverToLineEnd .badStatement).2 := rfl

theorem grows_lineContent (hs : s.Ready) :
    ∃ ps, s.Grows (Plot.Grounded .expressionStatement) (lineContent s) ps := by
  unfold lineContent
  split
  · rename_i hat
    obtain ⟨ps, hread⟩ := grows_letStatement hs hat
    exact ⟨ps, hread.imp grounded_of_rooted⟩
  · exact grows_expressionStatement hs

theorem grows_statement (hs : s.Ready) :
    ∃ ps, s.Grows (Plot.Grounded .expressionStatement) (statement s) ps := by
  obtain ⟨ps, hread⟩ := grows_lineContent hs
  have hs₁ := hread.ready hs
  have hskip := hread.ahead hs₁.grows_skipTrivia
  have hs₂ := hs₁.skipTrivia
  have hcurrent := hs₁.current_skipTrivia
  rw [statement_eq]
  generalize (lineContent s).skipTrivia = s₂ at hskip hs₂ hcurrent ⊢
  split
  · exact ⟨ps, hskip⟩
  · have hreport : s₂.Grows (Plot.Grounded .expressionStatement) (if s₂.errors.length ==
        s.errors.length then s₂.error "expected end of line" else s₂) [] ∧
        (if s₂.errors.length == s.errors.length then s₂.error "expected end of line"
          else s₂).current = s₂.current := by
      split
      · exact ⟨hs₂.grows_error _, rfl⟩
      · exact ⟨hs₂.grows, rfl⟩
    obtain ⟨hreport, hsame⟩ := hreport
    have hs₃ := hreport.ready hs₂
    obtain ⟨qs, hrest⟩ := grows_recoverToLineEnd hs₃ (by rw [hsame]; exact hcurrent) .badStatement
    exact ⟨ps ++ qs, (hskip.ahead hreport).trans (hrest.imp grounded_of_rooted)⟩

theorem grows_statements (rounds : Nat) (hs : s.Ready) :
    ∃ ps, s.Grows (Plot.Grounded .expressionStatement) (statements rounds s) ps := by
  induction rounds generalizing s with
  | zero => exact ⟨[], hs.grows⟩
  | succ rounds ih =>
      have hskip : s.Grows (Plot.Grounded .expressionStatement) s.skipTrivia [] :=
        hs.grows_skipTrivia
      unfold statements
      simp only
      split
      · exact ⟨[], hskip⟩
      · have hadvance := hskip.behind hs.skipTrivia.grows_advance
        obtain ⟨ps, hlater⟩ := ih (hadvance.ready hs)
        exact ⟨ps, hadvance.behind hlater⟩
      · obtain ⟨ps, hstatement⟩ := grows_statement hs.skipTrivia
        obtain ⟨qs, hlater⟩ := ih (hstatement.ready hs.skipTrivia)
        exact ⟨ps ++ qs, (hskip.behind hstatement).trans hlater⟩

/-- **Whatever the tokens are, reading them as a program marks a grounded forest.** -/
theorem grows_program (hs : s.Ready) :
    ∃ ps, s.Grows (Plot.Grounded .expressionStatement) (program s) ps :=
  grows_statements s.remaining hs

end Statements

theorem anomalies_treeOf (s : Session Kind) :
    (treeOf s).anomalies = (plots s.tokens.toList.length s.completed).2 := rfl

/-- **The grammar never produces an anomaly.**  Whatever a text is, valid or not, its tree is
built without one: the markers that the parser completes are nested or disjoint, none has the
number of another, all fit the tokens, and two of them cover the same tokens only if one is the
statement that was opened to precede the other, an expression. -/
theorem parseTree_clean (source : String) :
    (parseTree source).anomalies = [] ∧
      ∀ traced, (parse source traced).Clean .expressionStatement := by
  have hforest : ∀ traced, ∃ ps,
      (Session.start (tokenize source config none) {} traced : Session Kind).Grows
        (Plot.Grounded .expressionStatement) (parse source traced) ps := fun traced =>
    grows_program (Session.ready_start _ _ traced)
  constructor
  · obtain ⟨ps, hgrows⟩ := hforest false
    rw [parseTree, anomalies_treeOf, Array.length_toList, hgrows.plots_eq rfl rfl]
  · intro traced
    obtain ⟨ps, hgrows⟩ := hforest traced
    exact hgrows.clean rfl

end Calculator

end Lossless
