import Lossless.Proofs.Derivation
import Lossless.Proofs.Headway
import Lossless.Proofs.Lookahead

/-!
# What is read without an error is a program

The parser of the calculator language never fails, and recovers from whatever it meets.  So
that it reports no error has to mean something: **if no error is reported, then the tokens
that were consumed derive from the grammar** (`program_sound`), however deep expressions may
nest.

Since no error is taken back, none was reported on the way.  Along such a way each function
consumes a phrase of the grammar and leaves the open string literals as they were (`Consumes`).
-/

namespace Lossless

namespace Calculator

open ExpressionGrammar

/-! ## Consuming phrases -/

/-- At the cursor certain literals are open, and what lies ahead is spelled as it should be. -/
structure Lexed (n : Nest) (s : Session Kind) : Prop where
  within : s.Within n
  spelled : ∀ t ∈ s.ahead, Spelled t

/-- From one session to another a phrase of the grammar is consumed. -/
def Consumes (x : Nonterminal) (n : Nest) (s s' : Session Kind) : Prop :=
  ∃ us, Derives x us ∧ s.ahead = us ++ s'.ahead ∧ Lexed n s'

namespace Lexed

variable {n n' : Nest} {s s' : Session Kind}

theorem behind (h : Lexed n s) (us : List Token) (hahead : s.ahead = us ++ s'.ahead)
    (hwithin : s'.Within n') : Lexed n' s' :=
  ⟨hwithin, fun t ht => h.spelled t (hahead ▸ List.mem_append_right us ht)⟩

theorem openAt (h : Lexed n s) (start : Nat) (precedes : Option Nat) :
    Lexed n (s.openAt start precedes).2 :=
  ⟨h.within, h.spelled⟩

theorem mark (h : Lexed n s) : Lexed n s.mark.2 :=
  ⟨h.within, h.spelled⟩

theorem complete (h : Lexed n s) (m : OpenMarker) (kind : Kind) : Lexed n (s.complete m kind).2 :=
  ⟨h.within, h.spelled⟩

theorem drop (h : Lexed n s) (m : OpenMarker) : Lexed n (s.drop m) :=
  ⟨h.within, h.spelled⟩

theorem skipTrivia (h : Lexed n s) : Lexed n s.skipTrivia :=
  h.behind [] h.within.ready.ahead_skipTrivia.symm h.within.skipTrivia

/-- Moving past a token that is no piece of a literal. -/
theorem advance (h : Lexed n s) (hcode : n.isCode = true) (hcurrent : s.current.isTrivia = false)
    (hpart : s.current.kind.isStringPart = false) (hkind : s.current.kind ≠ .eof) :
    s.ahead = s.current :: s.advance.ahead ∧ Lexed n s.advance := by
  obtain ⟨hahead, hwithin⟩ := h.within.advance_plain hcode hcurrent hpart hkind
  exact ⟨hahead, h.behind [s.current] hahead hwithin⟩

/-- Moving past a piece of a literal, which changes the open literals. -/
theorem advance_part (h : Lexed n s) (hcurrent : s.current.isTrivia = false)
    {part : StringPart} (hpart : s.current.kind = .literal (.string part)) :
    s.ahead = s.current :: s.advance.ahead ∧
      ∃ n', n.step (.literal (.string part)) = some n' ∧ Lexed n' s.advance := by
  obtain ⟨hahead, n', hstep, hwithin⟩ := h.within.advance hcurrent (by simp [hpart])
  exact ⟨hahead, n', hpart ▸ hstep, h.behind [s.current] hahead hwithin⟩

theorem spelled_current (h : Lexed n s) (hcurrent : s.current.isTrivia = false) :
    Spelled s.current := by
  rcases h.within.ahead_eq hcurrent with ⟨_, hahead, _⟩ | ⟨_, hahead, _⟩
  · exact h.spelled _ (hahead ▸ List.mem_cons_self)
  · exact h.spelled _ (hahead ▸ List.mem_cons_self)

end Lexed

/-- A way to read expressions, by the least power of their operators: unless an error is
reported, it consumes an expression. -/
structure Sound (inner : Inner) : Prop where
  goes_on : GoesOn inner
  consumes : ∀ least n s, Lexed n s → n.isCode = true →
    (inner least s).2.errors.length = s.errors.length →
    (inner least s).1.isSome = true ∧ Consumes .expression n s (inner least s).2

/-- An expectation that is not met is an error. -/
theorem expect_met {s : Session Kind} {e : Expectation}
    (hsame : (s.expect e).2.errors.length = s.errors.length) :
    e.holds s.skipTrivia.current = true ∧ s.expect e = (true, s.skipTrivia.advance) := by
  unfold Session.expect Session.eat at hsame ⊢
  by_cases hholds : e.holds s.skipTrivia.current = true
  · simp only [hholds, if_true]
    exact ⟨trivial, trivial⟩
  · simp only [hholds, if_false, Bool.false_eq_true] at hsame
    have hgrows := s.skipTrivia.length_errors_error ("expected " ++ e.display)
    exact absurd (hgrows.symm.trans hsame) (Nat.succ_ne_self _)

/-- A text that is expected and met. -/
theorem Lexed.expect {n : Nest} {s : Session Kind} (h : Lexed n s) (hcode : n.isCode = true)
    {text : String} (kind : TokenKind) (hquoted : (text, kind) ∈ quoted)
    (hsame : (s.expect (.text text)).2.errors.length = s.errors.length) :
    ∃ t s', s.expect (.text text) = (true, s') ∧ t.Is kind text ∧ s.ahead = t :: s'.ahead ∧
      Lexed n s' := by
  have hplain : ∀ p ∈ quoted, p.2.isStringPart = false ∧ p.2 ≠ .eof := by decide
  obtain ⟨hholds, hmet⟩ := expect_met hsame
  have hsignificant := h.within.ready.current_skipTrivia
  have hcurrent : s.skipTrivia.current.Is kind text :=
    (h.skipTrivia.spelled_current hsignificant).is_of_holds hquoted hholds
  obtain ⟨hpart, heof⟩ := hplain _ hquoted
  obtain ⟨hahead, hend⟩ := h.skipTrivia.advance hcode hsignificant (by rwa [hcurrent.1])
    (by rwa [hcurrent.1])
  rw [h.within.ready.ahead_skipTrivia] at hahead
  exact ⟨_, _, hmet, hcurrent, hahead, hend⟩

section Phrases

variable {inner : Inner} {n : Nest} {s : Session Kind}

/-! ### Atoms -/

theorem IsLeaf.plain {t : Token} (h : IsLeaf t) :
    t.kind.isStringPart = false ∧ t.kind ≠ .eof := by
  rcases h with h | h | h | h | h
  · generalize t.kind = kind at h ⊢
    cases kind with
    | literal l => cases l <;> simp_all [TokenKind.isNumber, TokenKind.isStringPart]
    | _ => cases h
  · simp [h, TokenKind.isStringPart]
  · simp [h, TokenKind.isStringPart]
  · simp [h.1, TokenKind.isStringPart]
  · simp [h.1, TokenKind.isStringPart]

theorem single_consumes (h : Lexed n s) (hcode : n.isCode = true)
    (hcurrent : s.current.isTrivia = false) (hleaf : IsLeaf s.current) (kind : Kind) :
    Consumes .atom n s (single kind s).2 := by
  obtain ⟨hahead, hbehind⟩ := h.mark.advance hcode hcurrent hleaf.plain.1 hleaf.plain.2
  rw [Session.ahead_mark, Session.current_mark] at hahead
  rw [single_eq]
  refine ⟨[s.current], .leaf hleaf, ?_, hbehind.complete s.mark.1 kind⟩
  rw [Session.ahead_complete]
  exact hahead

/-- An expression behind a marker that is opened and a token that is moved past. -/
theorem Sound.behind_open (hinner : Sound inner) (h : Lexed n s) (hcode : n.isCode = true)
    (hcurrent : s.current.isTrivia = false) (hpart : s.current.kind.isStringPart = false)
    (hkind : s.current.kind ≠ .eof) (start : Nat) (precedes : Option Nat) (least : Nat)
    (hsame : (inner least (s.openAt start precedes).2.advance).2.errors.length = s.errors.length) :
    (inner least (s.openAt start precedes).2.advance).1.isSome = true ∧
      ∃ us, Derives .expression us ∧
        s.ahead = s.current :: (us ++ (inner least (s.openAt start precedes).2.advance).2.ahead) ∧
        Lexed n (inner least (s.openAt start precedes).2.advance).2 := by
  obtain ⟨hahead, hbehind⟩ := (h.openAt start precedes).advance hcode hcurrent hpart hkind
  have herrors : (s.openAt start precedes).2.advance.errors = s.errors :=
    Session.errors_advance _
  obtain ⟨hfound, us, hus, hahead', hend⟩ :=
    hinner.consumes least n _ hbehind hcode (by rw [hsame, herrors])
  refine ⟨hfound, us, hus, ?_, hend⟩
  rw [← hahead']
  exact hahead

theorem group_consumes (hinner : Sound inner) (h : Lexed n s) (hcode : n.isCode = true)
    (hcurrent : s.current.isTrivia = false) (hopener : s.current.Is .punctuation "(")
    (hsame : (group inner s).2.errors.length = s.errors.length) :
    Consumes .atom n s (group inner s).2 := by
  have hreaches := (hinner.goes_on.behind_open h.within.ready s.cursor none 0).2
  have hread := hinner.behind_open h hcode hcurrent (by simp [hopener.1, TokenKind.isStringPart])
    (by simp [hopener.1]) s.cursor none 0
  rw [group_eq] at hsame ⊢
  generalize inner 0 (s.openAt s.cursor none).2.advance = r at hreaches hread hsame ⊢
  obtain ⟨found, s₁⟩ := r
  cases found with
  | none => cases (hread hsame).1
  | some e =>
      simp only [Session.errors_complete] at hsame
      have hexpect := reaches_expect (hreaches.ready h.within.ready) (.text ")")
      obtain ⟨hsame₁, hsame₂⟩ := hreaches.same hexpect hsame
      obtain ⟨_, us, hus, hahead, hend⟩ := hread hsame₁
      obtain ⟨closer, s₂, hmet, hcloser, hahead', hend'⟩ :=
        hend.expect hcode .punctuation (by decide) hsame₂
      simp only [hmet]
      refine ⟨s.current :: (us ++ [closer]), .group hopener hus hcloser, ?_,
        hend'.complete s.mark.1 .group⟩
      rw [Session.ahead_complete, hahead, hahead']
      simp

/-! ### Strings -/

/-- A block that has to be skipped is an error. -/
theorem skipBlock_reports (hs : s.Ready) (hopen : blockEnd.holds s.skipTrivia.current = false) :
    s.errors.length < (skipBlock s).errors.length := by
  rw [skipBlock, hs.isAt_eq, hopen]
  exact Nat.lt_of_lt_of_le (hs.reaches.error _).2 (moves_toBlockEnd _).errors.length_le

/-- A block without an error is an expression and a brace. -/
theorem block_consumes (hinner : Sound inner) {style : StringStyle}
    (h : Lexed (⟨style, .block⟩ :: n) s)
    (hsame : (block inner s).errors.length = s.errors.length) :
    ∃ us closer, Derives .expression us ∧ closer.kind = .string .blockClose ∧
      s.ahead = us ++ closer :: (block inner s).ahead ∧
      Lexed (⟨style, .piece⟩ :: n) (block inner s) := by
  have hs := h.within.ready
  have hreaches := hinner.goes_on 0 s hs
  have hconsumes := hinner.consumes 0 _ s h rfl
  rcases hread : inner 0 s with ⟨_ | e, s₁⟩ <;> rw [hread] at hreaches hconsumes
  · rw [block_none hread] at hsame
    cases (hconsumes (hreaches.same (reaches_skipBlock (hreaches.ready hs)) hsame).1).1
  · have hs₁ : s₁.Ready := hreaches.ready hs
    cases hholds : blockEnd.holds s₁.skipTrivia.current with
    | false =>
        have hopen : blockEnd.holds s₁.skipTrivia.skipTrivia.current = false := by
          rwa [Session.skipTrivia_eq_self hs₁.current_skipTrivia]
        have hlt := skipBlock_reports hs₁.skipTrivia hopen
        have hle : s.errors.length ≤ s₁.skipTrivia.errors.length := hreaches.errors
        rw [block_open hread hholds] at hsame
        exact absurd hsame (Nat.ne_of_gt (Nat.lt_of_le_of_lt hle hlt))
    | true =>
        rw [block_closed hread hholds] at hsame ⊢
        have herrors : s₁.skipTrivia.advance.errors = s₁.errors := Session.errors_advance _
        obtain ⟨_, us, hus, hahead, hend⟩ := hconsumes (by rw [← hsame, herrors])
        have hcloser : s₁.skipTrivia.current.kind = .string .blockClose := by
          simpa [blockEnd, Expectation.holds] using hholds
        obtain ⟨hahead', n', hstep, hend'⟩ :=
          hend.skipTrivia.advance_part hs₁.current_skipTrivia hcloser
        obtain rfl := Option.some.inj hstep
        refine ⟨us, _, hus, hcloser, ?_, hend'⟩
        rw [hahead, ← hs₁.ahead_skipTrivia, hahead']

/-- Behind a mark, a keyword is an error, so what is read without one is an identifier. -/
theorem markedName_consumes {style : StringStyle} {rounds : Nat}
    (h : Lexed (⟨style, .name⟩ :: n) s) (hrounds : s.ahead.length ≤ rounds)
    (hsame : (if s.current.kind == .identifier then stringPieces inner rounds (single .name s).2
      else stringPieces inner rounds s).errors.length = s.errors.length) :
    s.current.kind = .identifier ∧ s.ahead = s.current :: (single .name s).2.ahead ∧
      Lexed (⟨style, .piece⟩ :: n) (single .name s).2 := by
  obtain ⟨hcurrent, hkind⟩ := h.within.significant rfl
  obtain ⟨hahead, n', hstep, hwithin⟩ := h.mark.within.advance hcurrent hkind
  obtain ⟨hword, rfl⟩ := Nest.step_name hstep
  have hbehind := h.mark.behind [s.current] hahead hwithin
  rw [Session.ahead_mark, Session.current_mark] at hahead
  rw [single_eq, Session.ahead_complete]
  refine ⟨?_, hahead, hbehind.complete s.mark.1 .name⟩
  rcases hword with hname | hkeyword
  · exact hname
  · -- no string goes on with a keyword, so the next round reports it
    have hkind' : s.current.kind = .keyword := hkeyword
    rw [hahead, List.length_cons] at hrounds
    obtain ⟨rounds, rfl⟩ := Nat.exists_eq_add_of_lt hrounds
    simp only [hkind', stringPieces, stringPart?] at hsame
    exact absurd ((s.length_errors_error _).symm.trans hsame) (Nat.succ_ne_self _)

/-- The pieces of a string without an error are followed by its closing delimiter.  The
induction is on the rounds, each of which moves past a token. -/
theorem stringPieces_consumes (hinner : Sound inner) {style : StringStyle} {rounds : Nat}
    (h : Lexed (⟨style, .piece⟩ :: n) s) (hrounds : s.ahead.length ≤ rounds)
    (hsame : (stringPieces inner rounds s).errors.length = s.errors.length) :
    ∃ us closer, Derives .pieces us ∧ closer.kind = .string (.closing style) ∧
      s.ahead = us ++ closer :: (stringPieces inner rounds s).ahead ∧
      Lexed n (stringPieces inner rounds s) := by
  induction rounds generalizing s with
  | zero =>
      obtain ⟨hcurrent, hkind⟩ := h.within.significant rfl
      rw [(h.within.advance hcurrent hkind).1] at hrounds
      cases hrounds
  | succ rounds ih =>
      obtain ⟨hcurrent, _⟩ := h.within.significant rfl
      have herrors := s.errors_advance
      cases hpart : stringPart? s.current with
      | none =>
          simp only [stringPieces, hpart] at hsame
          exact absurd ((s.length_errors_error _).symm.trans hsame) (Nat.succ_ne_self _)
      | some part =>
          obtain ⟨hahead, n', hstep, hbehind⟩ := h.advance_part hcurrent (kind_of_stringPart? hpart)
          have hlength : s.advance.ahead.length ≤ rounds := by
            rw [hahead, List.length_cons] at hrounds
            exact Nat.le_of_succ_le_succ hrounds
          have hkind := kind_of_stringPart? hpart
          cases part with
          | opening style' => cases hstep
          | blockClose => cases hstep
          | closing style' =>
              simp only [stringPieces, hpart]
              have hstyle : style' = style ∧ n = n' := by
                simpa [Nest.step, Nest.pieceStep] using hstep
              obtain ⟨rfl, rfl⟩ := hstyle
              exact ⟨[], s.current, .noPiece, hkind, hahead, hbehind⟩
          | basic | escaped =>
              obtain rfl := Option.some.inj hstep
              simp only [stringPieces, hpart] at hsame ⊢
              rw [← herrors] at hsame
              obtain ⟨us, closer, hus, hcloser, hahead', hend⟩ := ih hbehind hlength hsame
              refine ⟨s.current :: us, closer, .content ?_ hus, hcloser, ?_, hend⟩
              · simp [hkind, TokenKind.string]
              · rw [hahead, hahead']
                rfl
          | nameMark =>
              obtain rfl := Option.some.inj hstep
              simp only [stringPieces, hpart] at hsame ⊢
              rw [← herrors] at hsame
              obtain ⟨hname, hahead₁, hend₁⟩ := markedName_consumes hbehind hlength hsame
              have herrors₁ := errors_single .name s.advance
              rw [if_pos (by simp [hname])] at hsame ⊢
              rw [← herrors₁] at hsame
              rw [hahead₁, List.length_cons] at hlength
              obtain ⟨us, closer, hus, hcloser, hahead₂, hend₂⟩ :=
                ih hend₁ (Nat.le_of_succ_le hlength) hsame
              refine ⟨s.current :: s.advance.current :: us, closer, .name hkind hname hus, hcloser,
                ?_, hend₂⟩
              rw [hahead, hahead₁, hahead₂]
              rfl
          | blockOpen =>
              obtain rfl := Option.some.inj hstep
              simp only [stringPieces, hpart] at hsame ⊢
              rw [← herrors] at hsame
              have hblock := reaches_block hinner.goes_on hbehind.within.ready
              have hrest := reaches_stringPieces hinner.goes_on rounds
                (hblock.ready hbehind.within.ready)
              obtain ⟨hsame₁, hsame₂⟩ := hblock.same hrest hsame
              obtain ⟨us, brace, hus, hbrace, hahead₁, hend₁⟩ :=
                block_consumes hinner hbehind hsame₁
              have hlength₁ : (block inner s.advance).ahead.length ≤ rounds := by
                rw [hahead₁] at hlength
                simp at hlength
                omega
              obtain ⟨vs, closer, hvs, hcloser, hahead₂, hend₂⟩ := ih hend₁ hlength₁ hsame₂
              refine ⟨s.current :: (us ++ brace :: vs), closer, .block hkind hus hbrace hvs,
                hcloser, ?_, hend₂⟩
              rw [hahead, hahead₁, hahead₂]
              simp

theorem string_consumes (hinner : Sound inner) (h : Lexed n s) (hcode : n.isCode = true)
    (hcurrent : s.current.isTrivia = false) {style : StringStyle}
    (hopener : s.current.kind = .literal (.string (.opening style)))
    (hsame : (string inner s).2.errors.length = s.errors.length) :
    Consumes .atom n s (string inner s).2 := by
  obtain ⟨hahead, n', hstep, hbehind⟩ := h.mark.advance_part hcurrent hopener
  rw [Session.ahead_mark, Session.current_mark] at hahead
  rw [Nest.step_code hcode] at hstep
  obtain rfl := Option.some.inj hstep
  have herrors : s.mark.2.advance.errors = s.errors := Session.errors_advance _
  rw [string_eq, Session.errors_complete, ← herrors] at hsame
  rw [string_eq]
  obtain ⟨us, closer, hus, hcloser, hahead', hend⟩ :=
    stringPieces_consumes hinner hbehind (Session.length_ahead_le _) hsame
  refine ⟨s.current :: (us ++ [closer]), .string hopener hus hcloser, ?_,
    hend.complete s.mark.1 .string⟩
  rw [Session.ahead_complete, hahead, hahead']
  simp

theorem atom_consumes (hinner : Sound inner) (h : Lexed n s) (hcode : n.isCode = true)
    (hcurrent : s.current.isTrivia = false) (hstarts : startsAtom s.current = true)
    (hsame : (atom inner s).2.errors.length = s.errors.length) :
    (atom inner s).1.isSome = true ∧ Consumes .atom n s (atom inner s).2 := by
  cases hkind : s.current.kind with
  | identifier =>
      simp only [atom, hkind]
      exact ⟨rfl, single_consumes h hcode hcurrent (Or.inr (Or.inr (Or.inl hkind))) .name⟩
  | keyword =>
      have hword : s.current.text = "true" ∨ s.current.text = "false" := by
        simpa [startsAtom, hkind] using hstarts
      have hleaf : IsLeaf s.current :=
        Or.inr (Or.inr (Or.inr (hword.imp (fun h => ⟨hkind, h⟩) (fun h => ⟨hkind, h⟩))))
      simp only [atom, hkind]
      exact ⟨rfl, single_consumes h hcode hcurrent hleaf .bool⟩
  | punctuation =>
      have htext : s.current.text = "(" := by simpa [startsAtom, hkind] using hstarts
      simp only [atom, hkind] at hsame ⊢
      exact ⟨rfl, group_consumes hinner h hcode hcurrent ⟨hkind, htext⟩ hsame⟩
  | literal l =>
      cases l with
      | char =>
          simp only [atom, hkind]
          exact ⟨rfl, single_consumes h hcode hcurrent (Or.inr (Or.inl hkind)) .char⟩
      | string part =>
          cases part with
          | opening style =>
              simp only [atom, hkind] at hsame ⊢
              exact ⟨rfl, string_consumes hinner h hcode hcurrent hkind hsame⟩
          | _ => simp [startsAtom, startsPlainAtom, hkind] at hstarts
      | integer base =>
          have hleaf : IsLeaf s.current := Or.inl (by rw [hkind]; rfl)
          simp only [atom, hkind]
          exact ⟨rfl, single_consumes h hcode hcurrent hleaf .number⟩
      | floating precision =>
          have hleaf : IsLeaf s.current := Or.inl (by rw [hkind]; rfl)
          simp only [atom, hkind]
          exact ⟨rfl, single_consumes h hcode hcurrent hleaf .number⟩
  | _ => simp [startsAtom, startsPlainAtom, hkind] at hstarts

/-! ### Expressions -/

theorem plain_of_mayOperate {t : Token} (h : Operators.mayOperate t = true) :
    t.kind.isStringPart = false ∧ t.kind ≠ .eof := by
  unfold Operators.mayOperate at h
  split at h <;> rename_i hkind
  · simp [hkind, TokenKind.isStringPart]
  · simp [hkind, TokenKind.isStringPart]
  · simp [hkind, TokenKind.isStringPart]
  · cases h

theorem hasOwnText_of_mayOperate {t : Token} (h : Operators.mayOperate t = true) :
    Expectation.hasOwnText t = true := by
  unfold Operators.mayOperate at h
  split at h <;> rename_i hkind
  · simp [hkind, Expectation.hasOwnText]
  · simp [hkind, Expectation.hasOwnText]
  · simp [hkind, Expectation.hasOwnText]
  · cases h

theorem Lexed.settle (h : Lexed n s) (m : OpenMarker) (kind : Kind) (found : Bool) :
    Lexed n (settle m kind found s).2 ∧ (settle m kind found s).2.ahead = s.ahead := by
  cases found with
  | true => exact ⟨h.complete m kind, rfl⟩
  | false => exact ⟨h.drop m, rfl⟩

/-- An operator with an operand behind it, whose element is completed if there is one. -/
theorem Sound.settled (hinner : Sound inner) (h : Lexed n s) (hcode : n.isCode = true)
    (hcurrent : s.current.isTrivia = false) (hmay : Operators.mayOperate s.current = true)
    (start : Nat) (precedes : Option Nat) (m : OpenMarker) (kind : Kind) (power : Nat)
    {r : Option (Marker Kind) × Session Kind}
    (hr : inner power (s.openAt start precedes).2.advance = r)
    (hsame : (settle m kind r.1.isSome r.2).2.errors.length = s.errors.length) :
    (settle m kind r.1.isSome r.2).1.isSome = true ∧ ∃ us, Derives .expression us ∧
      s.ahead = s.current :: (us ++ (settle m kind r.1.isSome r.2).2.ahead) ∧
      Lexed n (settle m kind r.1.isSome r.2).2 := by
  obtain ⟨hpart, heof⟩ := plain_of_mayOperate hmay
  rw [errors_settle] at hsame
  subst hr
  obtain ⟨hfound, us, hus, hahead, hend⟩ :=
    hinner.behind_open h hcode hcurrent hpart heof start precedes power hsame
  obtain ⟨hend', hahead'⟩ := hend.settle m kind true
  rw [hfound]
  exact ⟨rfl, us, hus, by rw [hahead', hahead], hend'⟩

theorem operand_consumes (hinner : Sound inner) (h : Lexed n s) (hcode : n.isCode = true)
    (hcurrent : s.current.isTrivia = false)
    (hstarts : (grammar.startingPower? s.current).isSome = true)
    (hsame : (grammar.operand inner s).2.errors.length = s.errors.length) :
    (grammar.operand inner s).1.isSome = true ∧
      Consumes .expression n s (grammar.operand inner s).2 := by
  cases hop : operators.before? s.current with
  | none =>
      have hatom : startsAtom s.current = true := by
        cases hatom : startsAtom s.current with
        | true => rfl
        | false => simp [startingPower?, grammar, hop, hatom] at hstarts
      rw [operand_atom hop] at hsame ⊢
      obtain ⟨hfound, us, hus, hahead, hend⟩ := atom_consumes hinner h hcode hcurrent hatom hsame
      refine ⟨hfound, us, ?_, hahead, hend⟩
      rw [← List.append_nil us]
      exact .expression (.operand hus) .stop
  | some op =>
      have hoperator : (operators.before? s.current).isSome = true := by rw [hop]; rfl
      rw [operand_before hop] at hsame ⊢
      obtain ⟨hfound, us, hus, hahead, hend⟩ := hinner.settled h hcode hcurrent
        (before?_isSome hoperator).1 s.cursor none s.mark.1 op.kind op.power rfl hsame
      exact ⟨hfound, s.current :: us, hus.expression_before hoperator, hahead, hend⟩

/-- The operands of a ternary operator, behind its opener. -/
theorem ternaryOperands_consumes (hinner : Sound inner) (h : Lexed n s) (hcode : n.isCode = true)
    (op : TernaryOperator Kind) (hop : op.separator = ":")
    (hsame : (ternaryOperands op inner s).2.errors.length = s.errors.length) :
    (ternaryOperands op inner s).1 = true ∧ ∃ us separator vs, Derives .expression us ∧
      separator.Is .operator ":" ∧ Derives .expression vs ∧
      s.ahead = us ++ separator :: (vs ++ (ternaryOperands op inner s).2.ahead) ∧
      Lexed n (ternaryOperands op inner s).2 := by
  have hs := h.within.ready
  have hreaches := hinner.goes_on 0 s hs
  have hconsumes := hinner.consumes 0 n s h hcode
  unfold ternaryOperands at hsame ⊢
  rw [hop] at hsame ⊢
  generalize inner 0 s = r at hreaches hconsumes hsame ⊢
  obtain ⟨_ | e, s₁⟩ := r
  · cases (hconsumes hsame).1
  · have hs₁ := hreaches.ready hs
    have hexpect := reaches_expect hs₁ (.text ":")
    have hmet : (s₁.expect (.text ":")).2.errors.length = s₁.errors.length → _ := fun hsame' h' =>
      Lexed.expect h' hcode .operator (by decide) hsame'
    simp only at hsame ⊢
    generalize s₁.expect (.text ":") = r at hexpect hmet hsame ⊢
    obtain ⟨_ | _, s₂⟩ := r
    · obtain ⟨hsame₁, hsame₂⟩ := hreaches.same hexpect hsame
      obtain ⟨_, _, _, _, hend⟩ := hconsumes hsame₁
      obtain ⟨_, _, hfalse, _⟩ := hmet hsame₂ hend
      cases hfalse
    · have hlast := hinner.goes_on op.power s₂ (hexpect.ready hs₁)
      obtain ⟨hsame₁₂, hsame₃⟩ := (hreaches.trans hexpect).same hlast hsame
      obtain ⟨hsame₁, hsame₂⟩ := hreaches.same hexpect hsame₁₂
      obtain ⟨_, us, hus, hahead₁, hend₁⟩ := hconsumes hsame₁
      obtain ⟨separator, _, hnext, hseparator, hahead₂, hend₂⟩ := hmet hsame₂ hend₁
      cases hnext
      obtain ⟨hfound, vs, hvs, hahead₃, hend₃⟩ := hinner.consumes op.power n s₂ hend₂ hcode hsame₃
      refine ⟨hfound, us, separator, vs, hus, hseparator, hvs, ?_, hend₃⟩
      rw [hahead₁, hahead₂, hahead₃]

theorem choice_consumes (hinner : Sound inner) (h : Lexed n s) (hcode : n.isCode = true)
    (hcurrent : s.current.isTrivia = false) (left : Marker Kind) {op : TernaryOperator Kind}
    (hop : operators.ternary? s.current = some op)
    (hsame : (grammar.extend inner left s).2.errors.length = s.errors.length) :
    (grammar.extend inner left s).1.isSome = true ∧
      Consumes .continuation n s (grammar.extend inner left s).2 := by
  obtain ⟨hmay, htext, hop'⟩ := ternary?_eq_some hop
  obtain ⟨hpart, heof⟩ := plain_of_mayOperate hmay
  have hopener : s.current.Is .operator "?" :=
    (h.spelled_current hcurrent).is_quoted (by decide) (hasOwnText_of_mayOperate hmay) htext
  obtain ⟨hahead, hbehind⟩ := (h.openAt left.start (some left.id)).advance hcode hcurrent hpart heof
  have herrors : (s.openAt left.start (some left.id)).2.advance.errors = s.errors :=
    Session.errors_advance _
  rw [extend_ternary hop, errors_settle, ← herrors] at hsame
  rw [extend_ternary hop]
  obtain ⟨hfound, us, separator, vs, hus, hseparator, hvs, hahead', hend⟩ :=
    ternaryOperands_consumes hinner hbehind hcode op (by rw [hop']) hsame
  rw [hfound]
  obtain ⟨hend', hahead''⟩ := hend.settle (s.precede left).1 op.kind true
  cases hvs with
  | @expression ws xs hws hxs =>
      refine ⟨rfl, _, .choice hopener hus hseparator hws hxs, ?_, hend'⟩
      rw [Session.ahead_openAt, Session.current_openAt] at hahead
      rw [hahead'', hahead, hahead']
      simp

theorem between_consumes (hinner : Sound inner) (h : Lexed n s) (hcode : n.isCode = true)
    (hcurrent : s.current.isTrivia = false) (left : Marker Kind)
    (hternary : operators.ternary? s.current = none) {op : BinaryOperator Kind}
    (hop : operators.between? s.current = some op)
    (hsame : (grammar.extend inner left s).2.errors.length = s.errors.length) :
    (grammar.extend inner left s).1.isSome = true ∧
      Consumes .continuation n s (grammar.extend inner left s).2 := by
  have hoperator : (operators.between? s.current).isSome = true := by rw [hop]; rfl
  rw [extend_between hternary hop] at hsame ⊢
  obtain ⟨hfound, us, hus, hahead, hend⟩ := hinner.settled h hcode hcurrent
    (between?_isSome hoperator).1 left.start (some left.id) (s.precede left).1 op.kind
    op.rightPower rfl hsame
  refine ⟨hfound, s.current :: us, ?_, hahead, hend⟩
  cases hus with
  | expression hu hv => exact .between hoperator hu hv

/-- An operator that continues an expression, with its operands. -/
theorem extend_consumes (hinner : Sound inner) (h : Lexed n s) (hcode : n.isCode = true)
    (hcurrent : s.current.isTrivia = false) (left : Marker Kind)
    (hcontinues : (operators.continuingPower? s.current).isSome = true)
    (hsame : (grammar.extend inner left s).2.errors.length = s.errors.length) :
    (grammar.extend inner left s).1.isSome = true ∧
      Consumes .continuation n s (grammar.extend inner left s).2 := by
  cases hternary : operators.ternary? s.current with
  | some op => exact choice_consumes hinner h hcode hcurrent left hternary hsame
  | none =>
      cases hbetween : operators.between? s.current with
      | some op => exact between_consumes hinner h hcode hcurrent left hternary hbetween hsame
      | none =>
          simp [Operators.continuingPower?, hternary, hbetween, after?_eq_none] at hcontinues

theorem extendWhile_consumes (hinner : Sound inner) (h : Lexed n s) (hcode : n.isCode = true)
    (least rounds : Nat) (left : Marker Kind)
    (hsame : (grammar.extendWhile inner least rounds left s).2.errors.length = s.errors.length) :
    Consumes .continuation n s (grammar.extendWhile inner least rounds left s).2 := by
  induction rounds generalizing left s with
  | zero => exact ⟨[], .stop, rfl, h⟩
  | succ rounds ih =>
      have hs := h.within.ready
      unfold extendWhile at hsame ⊢
      cases hpower : grammar.operators.continuingPower? (s.nth 0) with
      | none =>
          exact ⟨[], .stop, rfl, h⟩
      | some power =>
          by_cases hleast : least ≤ power
          · have hreaches := reaches_extend grammar hinner.goes_on left hs.skipTrivia
            have hcontinues : (operators.continuingPower? s.skipTrivia.current).isSome = true := by
              rw [← hs.nth_zero]
              exact Option.isSome_of_eq_some hpower
            have hextend := extend_consumes hinner h.skipTrivia hcode hs.current_skipTrivia left
              hcontinues
            simp only [hpower, hleast, if_true] at hsame ⊢
            generalize grammar.extend inner left s.skipTrivia = r at hreaches hextend hsame ⊢
            obtain ⟨_ | wider, s₁⟩ := r
            · cases (hextend hsame).1
            · have hrest := reaches_extendWhile grammar hinner.goes_on least rounds wider
                (hreaches.ready hs.skipTrivia)
              obtain ⟨hsame₁, hsame₂⟩ := hreaches.same hrest hsame
              obtain ⟨_, us, hus, hahead₁, hend₁⟩ := hextend hsame₁
              obtain ⟨vs, hvs, hahead₂, hend₂⟩ := ih hend₁ wider hsame₂
              refine ⟨us ++ vs, hus.continuation_append hvs, ?_, hend₂⟩
              rw [← hs.ahead_skipTrivia, hahead₁, hahead₂, List.append_assoc]
          · simp only [hleast, if_false]
            exact ⟨[], .stop, rfl, h⟩

theorem expressionBody_consumes (hinner : Sound inner) (h : Lexed n s) (hcode : n.isCode = true)
    (hcurrent : s.current.isTrivia = false)
    (hstarts : (grammar.startingPower? s.current).isSome = true) (least : Nat)
    (hsame : (grammar.expressionBody inner least s).2.errors.length = s.errors.length) :
    (grammar.expressionBody inner least s).1.isSome = true ∧
      Consumes .expression n s (grammar.expressionBody inner least s).2 := by
  have hreaches := reaches_operand atomGoesOn_grammar hinner.goes_on h.within.ready
  have hoperand := operand_consumes hinner h hcode hcurrent hstarts
  unfold expressionBody at hsame ⊢
  generalize grammar.operand inner s = r at hreaches hoperand hsame ⊢
  obtain ⟨_ | left, s₁⟩ := r
  · cases (hoperand hsame).1
  · have hrest := reaches_extendWhile grammar hinner.goes_on least s₁.remaining left
      (hreaches.ready h.within.ready)
    obtain ⟨hsame₁, hsame₂⟩ := hreaches.same hrest hsame
    obtain ⟨_, us, hus, hahead₁, hend₁⟩ := hoperand hsame₁
    obtain ⟨vs, hvs, hahead₂, hend₂⟩ :=
      extendWhile_consumes hinner hend₁ hcode least s₁.remaining left hsame₂
    refine ⟨rfl, us ++ vs, hus.expression_append hvs, ?_, hend₂⟩
    rw [hahead₁, hahead₂, List.append_assoc]

end Phrases

/-- **Expressions that are read without an error derive from the grammar**, however deep they
may nest. -/
theorem sound_expressionAt (levels : Nat) : Sound (grammar.expressionAt levels) := by
  induction levels using Nat.strong_induction_on with
  | _ levels ih =>
      refine ⟨goesOn_expressionAt atomGoesOn_grammar levels, ?_⟩
      intro least n s h hcode hsame
      have hs := h.within.ready
      rcases expressionAt_cases grammar levels least s with
        ⟨message, heq⟩ | ⟨levels, rfl, _, hstarts, heq⟩
      · rw [heq] at hsame
        exact absurd hsame (Nat.ne_of_gt (hs.reaches_skipTrivia.error message).2)
      · let deeper : Session Kind := { s.skipTrivia with depth := s.skipTrivia.depth + 1 }
        have hdeeper : Lexed n deeper := ⟨h.skipTrivia.within, h.skipTrivia.spelled⟩
        have hbody := expressionBody_consumes (ih levels (Nat.lt_succ_self levels)) hdeeper hcode
          hs.current_skipTrivia hstarts least
        rw [heq] at hsame ⊢
        generalize grammar.expressionBody (grammar.expressionAt levels) least deeper = r
          at hbody hsame ⊢
        obtain ⟨hfound, us, hus, hahead, hend⟩ := hbody hsame
        refine ⟨hfound, us, hus, ?_, hend.within, hend.spelled⟩
        rw [← hs.ahead_skipTrivia]
        exact hahead

theorem sound_expression : Sound grammar.expression where
  goes_on := goesOn_expression
  consumes := fun least n s h hcode hsame =>
    (sound_expressionAt (s.options.maxDepth - s.depth)).consumes least n s h hcode hsame

/-! ### Statements -/

section Statements

variable {n : Nest} {s : Session Kind}

theorem letName_consumes (h : Lexed n s) (hcode : n.isCode = true)
    (hsame : (letName s).errors.length = s.errors.length) :
    ∃ name, name.kind = .identifier ∧ s.ahead = name :: (letName s).ahead ∧
      Lexed n (letName s) := by
  have hs := h.within.ready
  unfold letName at hsame ⊢
  rw [hs.isAt_eq] at hsame ⊢
  cases hat : (Expectation.kind .identifier).holds s.skipTrivia.current with
  | false =>
      rw [hat] at hsame
      have hmet := (expect_met hsame).1
      rw [hat] at hmet
      cases hmet
  | true =>
      have hname : s.skipTrivia.current.kind = .identifier := by
        simpa [Expectation.holds] using hat
      obtain ⟨hahead, hbehind⟩ := h.skipTrivia.mark.advance hcode hs.current_skipTrivia
        (by rw [Session.current_mark, hname]; rfl) (by rw [Session.current_mark, hname]; simp)
      rw [Session.ahead_mark, Session.current_mark, hs.ahead_skipTrivia] at hahead
      rw [if_pos rfl, single_eq, Session.ahead_complete]
      exact ⟨_, hname, hahead, hbehind.complete _ .name⟩

theorem letStatement_consumes (h : Lexed n s) (hcode : n.isCode = true)
    (hlet : s.skipTrivia.current.Is .keyword "let")
    (hsame : (letStatement s).errors.length = s.errors.length) :
    Consumes .statement n s (letStatement s) := by
  have hs := h.within.ready
  obtain ⟨hahead, hbehind⟩ := h.skipTrivia.mark.advance hcode hs.current_skipTrivia
    (by rw [Session.current_mark, hlet.1]; rfl) (by rw [Session.current_mark, hlet.1]; simp)
  rw [Session.ahead_mark, Session.current_mark, hs.ahead_skipTrivia] at hahead
  have herrors : s.skipTrivia.mark.2.advance.errors = s.errors := Session.errors_advance _
  have hready := hbehind.within.ready
  have hname := letName_consumes hbehind hcode
  have hreaches := reaches_letName hready
  unfold letStatement at hsame ⊢
  simp only at hsame ⊢
  rw [Session.errors_complete, ← herrors] at hsame
  generalize letName s.skipTrivia.mark.2.advance = s₁ at hname hreaches hsame ⊢
  have hexpect := reaches_expect (hreaches.ready hready) (.text "=")
  have hmet := fun hsame' h' => Lexed.expect (s := s₁) h' hcode .operator
    (by decide : ("=", .operator) ∈ quoted) hsame'
  generalize s₁.expect (.text "=") = r at hexpect hmet hsame ⊢
  obtain ⟨_ | _, s₂⟩ := r
  · obtain ⟨hsame₁, hsame₂⟩ := hreaches.same hexpect hsame
    obtain ⟨_, _, _, hend₁⟩ := hname hsame₁
    obtain ⟨_, _, hfalse, _⟩ := hmet hsame₂ hend₁
    cases hfalse
  · have hready₂ := (hreaches.trans hexpect).ready hready
    have hlast := goesOn_expression 0 s₂ hready₂
    obtain ⟨hsame₁₂, hsame₃⟩ := (hreaches.trans hexpect).same hlast hsame
    obtain ⟨hsame₁, hsame₂⟩ := hreaches.same hexpect hsame₁₂
    obtain ⟨name, hidentifier, hahead₁, hend₁⟩ := hname hsame₁
    obtain ⟨sign, _, hnext, hsign, hahead₂, hend₂⟩ := hmet hsame₂ hend₁
    cases hnext
    obtain ⟨_, us, hus, hahead₃, hend₃⟩ := sound_expression.consumes 0 n s₂ hend₂ hcode hsame₃
    refine ⟨_, .binding hlet hidentifier hsign hus, ?_, hend₃.complete _ .letStatement⟩
    rw [Session.ahead_complete, hahead, hahead₁, hahead₂, hahead₃]
    rfl

theorem expressionStatement_consumes (h : Lexed n s) (hcode : n.isCode = true)
    (hsame : (expressionStatement s).errors.length = s.errors.length) :
    Consumes .statement n s (expressionStatement s) := by
  have hread := sound_expression.consumes 0 n s h hcode
  unfold expressionStatement at hsame ⊢
  generalize grammar.expression 0 s = r at hread hsame ⊢
  obtain ⟨_ | e, s₁⟩ := r
  · cases (hread hsame).1
  · obtain ⟨_, us, hus, hahead, hend⟩ := hread hsame
    have hend' := hend.openAt e.start (some e.id)
    exact ⟨us, .plain hus, hahead, hend'.complete _ .expressionStatement⟩

/-- A line that goes on behind its statement is an error, unless one was reported in it. -/
theorem reports_badStatement (hs : s.Ready) {before : Nat} (hbefore : before ≤ s.errors.length) :
    before < ((if s.errors.length == before then s.error "expected end of line"
      else s).recoverToLineEnd .badStatement).2.errors.length := by
  split
  · have herror := hs.reaches.error "expected end of line"
    have hrest := (herror.1.ready hs).reaches_recoverToLineEnd Kind.badStatement
    exact Nat.lt_of_le_of_lt hbefore (Nat.lt_of_lt_of_le herror.2 hrest.errors)
  · rename_i hmore
    have hlt : before < s.errors.length := by
      simp only [beq_iff_eq] at hmore
      omega
    exact Nat.lt_of_lt_of_le hlt (hs.reaches_recoverToLineEnd Kind.badStatement).errors

/-- A statement without an error ends with its line. -/
theorem statement_consumes (h : Lexed n s) (hcode : n.isCode = true)
    (hsame : (statement s).errors.length = s.errors.length) :
    Consumes .statement n s (statement s) ∧ (statement s).current.isTrivia = false ∧
      Session.endsLine (statement s).current = true := by
  have hs := h.within.ready
  have hread : s.Reaches (if s.isAt (.text "let") then letStatement s else expressionStatement s) ∧
      ((if s.isAt (.text "let") then letStatement s else expressionStatement s).errors.length =
        s.errors.length → Consumes .statement n s
          (if s.isAt (.text "let") then letStatement s else expressionStatement s)) := by
    rw [hs.isAt_eq]
    split
    · rename_i hlet
      have hlet' : s.skipTrivia.current.Is .keyword "let" :=
        (h.skipTrivia.spelled_current hs.current_skipTrivia).is_of_holds (by decide) hlet
      exact ⟨reaches_letStatement hs, letStatement_consumes h hcode hlet'⟩
    · exact ⟨reaches_expressionStatement hs, expressionStatement_consumes h hcode⟩
  unfold statement at hsame ⊢
  simp only at hsame ⊢
  generalize (if s.isAt (.text "let") then letStatement s else expressionStatement s) = s₁
    at hread hsame ⊢
  obtain ⟨hreaches, hconsumes⟩ := hread
  have hs₁ : s₁.Ready := hreaches.ready hs
  cases hends : Session.endsLine s₁.skipTrivia.current with
  | true =>
      rw [hends] at hsame
      obtain ⟨us, hus, hahead, hend⟩ := hconsumes hsame
      simp only [if_true]
      refine ⟨⟨us, hus, ?_, hend.skipTrivia⟩, hs₁.current_skipTrivia, hends⟩
      rw [hs₁.ahead_skipTrivia, hahead]
  | false =>
      have hle : s.errors.length ≤ s₁.skipTrivia.errors.length := hreaches.errors
      have hreport := reports_badStatement hs₁.skipTrivia hle
      rw [hends] at hsame
      exact absurd hsame (Nat.ne_of_gt hreport)

/-- Statements up to the end of the input make up a program, and so they do with a statement in
front of them whose line is over.  The induction is on the rounds, each of which moves past a
token. -/
theorem statements_consumes {rounds : Nat} (h : Lexed [] s) (hrounds : s.ahead.length ≤ rounds)
    (hsame : (statements rounds s).errors.length = s.errors.length) :
    ∃ us e, Derives .program us ∧ s.ahead = us ++ [e] ∧ e.kind = .eof ∧
      ∀ vs, Derives .statement vs → Session.endsLine s.skipTrivia.current = true →
        Derives .program (vs ++ us) := by
  induction rounds generalizing s with
  | zero => exact absurd (List.length_eq_zero_iff.mp (Nat.le_zero.mp hrounds)) h.within.ahead_ne_nil
  | succ rounds ih =>
      have hs := h.within.ready
      have hcurrent := hs.current_skipTrivia
      unfold statements at hsame
      simp only at hsame
      split at hsame
      · rename_i hkind
        rcases h.skipTrivia.within.ahead_eq hcurrent with ⟨_, hahead, _⟩ | ⟨hnot, _⟩
        · rw [hs.ahead_skipTrivia] at hahead
          exact ⟨[], _, .nothing, hahead, hkind, fun vs hvs _ => by simpa using .last hvs⟩
        · exact absurd hkind hnot
      · rename_i hkind
        obtain ⟨hahead, hbehind⟩ := h.skipTrivia.advance rfl hcurrent (by rw [hkind]; rfl)
          (by rw [hkind]; simp)
        rw [hs.ahead_skipTrivia] at hahead
        rw [hahead, List.length_cons] at hrounds
        have herrors : s.skipTrivia.advance.errors = s.errors := Session.errors_advance _
        rw [← herrors] at hsame
        obtain ⟨us, e, hus, hahead', he, _⟩ := ih hbehind (Nat.le_of_succ_le_succ hrounds) hsame
        refine ⟨s.skipTrivia.current :: us, e, .blank hkind hus, ?_, he, ?_⟩
        · rw [hahead, hahead']
          rfl
        · exact fun vs hvs _ => .line hvs hkind hus
      · rename_i heof hline
        have hreaches := hs.reaches_skipTrivia.trans (reaches_statement hs.skipTrivia)
        have hrest := reaches_statements rounds (hreaches.ready hs)
        obtain ⟨hsame₁, hsame₂⟩ := hreaches.same hrest hsame
        obtain ⟨⟨vs, hvs, hahead, hend⟩, hcurrent', hends⟩ :=
          statement_consumes h.skipTrivia rfl hsame₁
        rw [hs.ahead_skipTrivia] at hahead
        have hpos := List.length_pos_iff.mpr (hvs.ne_nil (by simp) (by simp) (by simp))
        have hlength : (statement s.skipTrivia).ahead.length ≤ rounds := by
          rw [hahead, List.length_append] at hrounds
          omega
        -- what follows the statement begins with the end of its line
        obtain ⟨us, e, _, hahead', he, hfront⟩ := ih hend hlength hsame₂
        rw [Session.skipTrivia_eq_self hcurrent'] at hfront
        refine ⟨vs ++ us, e, hfront vs hvs hends, ?_, he, ?_⟩
        · rw [hahead, hahead', List.append_assoc]
        · intro ws _ hover
          simp only [Session.endsLine, Bool.or_eq_true, beq_iff_eq] at hover
          exact absurd hover (not_or.mpr ⟨hline, heof⟩)

end Statements

/-! ### Programs -/

/-- The tokens of a text that mean something to the grammar. -/
def significantTokens (source : String) : List Token :=
  (tokenize source config none).filter (fun t => !t.isTrivia && t.kind != .eof)

/-- At the end of the input there are no more statements. -/
theorem statements_eof {s : Session Kind} (hcurrent : s.current.isTrivia = false)
    (hkind : s.current.kind = .eof) (rounds : Nat) : statements rounds s = s := by
  cases rounds with
  | zero => rfl
  | succ rounds => simp only [statements, Session.skipTrivia_eq_self hcurrent, hkind]

/-- The tokens of a text end as those of a session do. -/
theorem ended_tokenize (source : String) :
    Session.ended (tokenize source config none) = tokenize source config none := by
  obtain ⟨body, stop, htokens, _⟩ := tokenize_nested source config none
  simp [htokens, Session.ended, Token.eof]

/-- At the start, the significant tokens of the text lie ahead. -/
theorem lexed_start (source : String) (options : SessionOptions) (traced : Bool) :
    let s : Session Kind := Session.start (tokenize source config none) options traced
    Lexed [] s ∧ ∃ e, e.kind = .eof ∧ s.ahead = significantTokens source ++ [e] := by
  intro s
  obtain ⟨body, stop, htokens, hfollow, hspelled⟩ := tokenize_nested source config none
  have hrest : s.rest = body ++ [Token.eof stop] := by
    show (Session.ended (tokenize source config none)).toArray.toList.drop 0 = _
    rw [ended_tokenize, htokens, List.toList_toArray, List.drop_zero]
  have hahead : s.ahead = significantTokens source ++ [Token.eof stop] := by
    have hbody : body.filter (fun t => !t.isTrivia && t.kind != .eof) =
        body.filter (!·.isTrivia) := by
      apply List.filter_congr
      intro t ht
      have hne : t.kind ≠ .eof := fun heof =>
        Nest.not_mem_of_follow hfollow (List.mem_map.mpr ⟨t, ht, heof⟩)
      simp [hne]
    have hlast : significantTokens source = body.filter (!·.isTrivia) := by
      rw [significantTokens, htokens, List.filter_append, hbody]
      simp [Token.eof]
    rw [Session.ahead, hrest, List.filter_append, hlast]
    rfl
  refine ⟨⟨?_, ?_⟩, Token.eof stop, rfl, hahead⟩
  · show Nest.Closes [] s.rest
    rw [hrest]
    exact Nest.closes_append hfollow rfl
  · intro t ht
    have hmem : t ∈ s.rest := (List.mem_filter.mp ht).1
    rw [hrest, List.mem_append, List.mem_singleton] at hmem
    rcases hmem with hmem | rfl
    · exact hspelled t hmem
    · trivial

/-- **A program that is read without an error derives from the grammar.** -/
theorem program_sound {source : String} {options : SessionOptions} {traced : Bool}
    (herrors : (program (Session.start (tokenize source config none) options traced)).errors = []) :
    Derives .program (significantTokens source) := by
  obtain ⟨h, e, _, hahead⟩ := lexed_start source options traced
  obtain ⟨us, e', hus, hahead', _, _⟩ := statements_consumes h (Session.length_ahead_le _)
    (by rw [show statements _ _ = program _ from rfl, herrors]; rfl)
  obtain ⟨rfl, _⟩ := List.append_inj' (hahead.symm.trans hahead') rfl
  exact hus

end Calculator

end Lossless
