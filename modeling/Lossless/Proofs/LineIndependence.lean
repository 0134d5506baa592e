import Lossless.Proofs.ProgramLockstep
import Lossless.Proofs.Soundness

/-!
# Errors stay on their line

Behind the tokens of a text, a line end and any further tokens are put.  **What is marked and
reported for the text is the same as without them, and what is marked and reported for the
further tokens is the same as if they stood alone**, but for their place
(`run_append_line`).

Every loop of the parser but one stops at a line end as at the end of the input.  The rest of a
broken block is skipped without regard to lines; but the lexer has closed every literal that it
has opened in the text, and the parser is inside of no more literals than the lexer was, so the
end of a block or a literal comes first (`Nest.Closes.dropWhile_block`).
-/

namespace Lossless

/-! ## Open literals -/

namespace Nest

theorem length_codeStep {n n' : Nest} {kind : TokenKind} (h : n.codeStep kind = some n') :
    n'.length + closes kind = n.length + opens kind := by
  cases hpart : kind.isStringPart with
  | false =>
      have hsame : n' = n := by
        unfold codeStep at h
        split at h
        · cases hpart
        · cases hpart
        · cases hpart
        · cases h
        · exact (Option.some.inj h).symm
      rw [hsame, (opens_plain hpart).1, (opens_plain hpart).2]
  | true =>
      cases kind with
      | literal literal =>
          cases literal with
          | string part =>
              cases part with
              | opening style =>
                  obtain rfl := Option.some.inj h
                  rfl
              | blockClose =>
                  match n, h with
                  | ⟨style, .block⟩ :: outer, h =>
                      obtain rfl := Option.some.inj h
                      rfl
              | _ => cases h
          | _ => cases hpart
      | _ => cases hpart

/-- One literal more is open behind an opening delimiter, and one less behind a closing one. -/
theorem length_step {n n' : Nest} {kind : TokenKind} (h : n.step kind = some n') :
    n'.length + closes kind = n.length + opens kind := by
  match n with
  | [] => exact length_codeStep h
  | ⟨style, .block⟩ :: outer => exact length_codeStep h
  | ⟨style, .name⟩ :: outer =>
      obtain ⟨hkind, rfl⟩ := step_name h
      rcases hkind with rfl | rfl <;> rfl
  | ⟨style, .piece⟩ :: outer =>
      change pieceStep style outer kind = some n' at h
      unfold pieceStep at h
      split at h
      · split at h
        · obtain rfl := Option.some.inj h
          rfl
        · cases h
      · obtain rfl := Option.some.inj h
        rfl
      · obtain rfl := Option.some.inj h
        rfl
      · obtain rfl := Option.some.inj h
        rfl
      · obtain rfl := Option.some.inj h
        rfl
      · cases h

open Calculator in
/-- **Where a literal is open, a token that ends a block or a literal comes before the end of the
input**, and no literal is closed before it. -/
theorem Closes.dropWhile_block {n : Nest} {ts : List Token} (h : n.Closes ts) (hn : n ≠ []) :
    ∃ n' : Nest, ∃ t us, ts.dropWhile (!endsBlock ·) = t :: us ∧ t.kind ≠ .eof ∧
      n'.Closes (t :: us) ∧ n.length ≤ n'.length := by
  induction h with
  | eof => exact absurd rfl hn
  | @token n n' t ts hstep h ih =>
      have hkind : t.kind ≠ .eof := by
        intro heof
        rw [heof, n.step_eof] at hstep
        cases hstep
      cases hends : endsBlock t with
      | true =>
          refine ⟨n, t, ts, ?_, hkind, .token hstep h, Nat.le_refl _⟩
          rw [List.dropWhile_cons_of_neg (by simp [hends])]
      | false =>
          have hgrows : n.length ≤ n'.length := by
            have hlength := length_step hstep
            have hnone : closes t.kind = 0 := by
              unfold closes
              split
              · rename_i style hclosing
                simp [endsBlock, hclosing] at hends
              · rfl
            omega
          have hn' : n' ≠ [] := by
            rintro rfl
            exact hn (List.length_eq_zero_iff.mp (Nat.le_zero.mp hgrows))
          obtain ⟨n₁, u, us, hdrop, hu, hcloses, hle⟩ := ih hn'
          rw [List.dropWhile_cons_of_pos (by simp [hends])]
          exact ⟨n₁, u, us, hdrop, hu, hcloses, Nat.le_trans hgrows hle⟩

end Nest

/-! ## The text in front of the line end -/

theorem dropWhile_append_cons {α : Type} {p : α → Bool} {a : α} (ha : p a = false)
    (as bs : List α) : (as ++ a :: bs).dropWhile p = as.dropWhile p ++ a :: bs := by
  induction as with
  | nil => rw [List.nil_append, List.dropWhile_cons_of_neg (by simp [ha]), List.dropWhile_nil,
      List.nil_append]
  | cons b as ih =>
      cases hb : p b with
      | true =>
          rw [List.cons_append, List.dropWhile_cons_of_pos hb, List.dropWhile_cons_of_pos hb, ih]
      | false => simp [hb]

/-- Two places in front of the same tokens of a text, behind which the input is over on one side,
and on the other side the line ends and `later` follows. -/
def BeforeLine (e line : Token) (later : List Token) (k : Nat) (ts us : List Token) : Prop :=
  ∃ w, ∃ n : Nest, ts = w ++ [e] ∧ us = w ++ line :: later ∧ n.Closes ts ∧ k ≤ n.length

namespace BeforeLine

variable {e line : Token} {later ts us : List Token} {k : Nat}

theorem meeting (he : e.kind = .eof) (hline : line.kind = .linebreak)
    (h : BeforeLine e line later k ts us) : Meeting (BeforeLine e line later k) ts us := by
  have hplaces := h
  obtain ⟨w, n, rfl, rfl, _, _⟩ := h
  cases w with
  | nil => exact .mk (.lineEnd he hline) hplaces
  | cons a w => exact .mk (.same a) hplaces

/-- Behind a token, the literals are open that were, and those that it opens, without those that
it closes. -/
theorem tail {a : Token} (he : e.kind = .eof) (h : BeforeLine e line later k (a :: ts) (a :: us))
    (hkind : a.kind ≠ .eof) {k' : Nat} (hk : k' + Nest.closes a.kind ≤ k + Nest.opens a.kind) :
    BeforeLine e line later k' ts us := by
  obtain ⟨w, n, hts, hus, hcloses, hle⟩ := h
  cases w with
  | nil =>
      obtain ⟨rfl, _⟩ := List.cons.inj hts
      exact absurd he hkind
  | cons b w =>
      obtain ⟨rfl, rfl⟩ := List.cons.inj hts
      obtain ⟨_, rfl⟩ := List.cons.inj hus
      obtain ⟨n', hstep, hcloses'⟩ := hcloses.tail hkind
      have hlength := Nest.length_step hstep
      exact ⟨w, n', rfl, rfl, hcloses', by omega⟩

/-- Both places go on to the next token that stops, the end of the input and the line end
included. -/
theorem dropWhile {p : Token → Bool} (he : p e = false) (hline : p line = false)
    (h : BeforeLine e line later 0 ts us) :
    BeforeLine e line later 0 (ts.dropWhile p) (us.dropWhile p) := by
  obtain ⟨w, n, rfl, rfl, hcloses, _⟩ := h
  rw [dropWhile_append_cons he, dropWhile_append_cons hline]
  have hsuffix : w.dropWhile p ++ [e] <:+ w ++ [e] := by
    rw [← dropWhile_append_cons he]
    exact List.dropWhile_suffix p
  obtain ⟨n', hcloses'⟩ := hcloses.exists_suffix hsuffix (by simp)
  exact ⟨w.dropWhile p, n', rfl, rfl, hcloses', Nat.zero_le _⟩

/-- Both places go on to the next significant token, which keeps the open literals. -/
theorem skip (he : e.kind = .eof) (hline : line.kind = .linebreak)
    (h : BeforeLine e line later k ts us) :
    BeforeLine e line later k (ts.dropWhile (·.isTrivia)) (us.dropWhile (·.isTrivia)) := by
  obtain ⟨w, n, rfl, rfl, hcloses, hle⟩ := h
  have hdrop := hcloses.dropWhile
  rw [dropWhile_append_cons (Token.isTrivia_of_kind he rfl)] at hdrop ⊢
  rw [dropWhile_append_cons (Token.isTrivia_of_kind hline rfl)]
  exact ⟨w.dropWhile (·.isTrivia), n, rfl, rfl, hdrop, hle⟩

open Calculator in
/-- Inside of a literal, both places go on to the end of a block or a literal before the line is
over. -/
theorem block (he : e.kind = .eof) (h : BeforeLine e line later (k + 1) ts us) :
    BeforeLine e line later (k + 1) (ts.dropWhile (!endsBlock ·))
      (us.dropWhile (!endsBlock ·)) := by
  obtain ⟨w, n, rfl, rfl, hcloses, hle⟩ := h
  have hopen : n ≠ [] := by
    rintro rfl
    cases hle
  obtain ⟨n', t, rest, hdrop, ht, hcloses', hgrows⟩ := hcloses.dropWhile_block hopen
  have hend : (w ++ [e]).dropWhile (!endsBlock ·) = w.dropWhile (!endsBlock ·) ++ [e] :=
    dropWhile_append_cons (by simp [endsBlock, he]) w []
  rw [hend] at hdrop
  -- the token found is not the end of the input, so it stands in the text
  have hwithin : w.dropWhile (!endsBlock ·) ≠ [] := by
    intro hnil
    rw [hnil, List.nil_append] at hdrop
    obtain ⟨rfl, _⟩ := List.cons.inj hdrop
    exact ht he
  refine ⟨w.dropWhile (!endsBlock ·), n', hend, ?_, by rwa [hend, hdrop], by omega⟩
  rw [List.dropWhile_append, if_neg (by simpa using hwithin)]

theorem weaken (h : BeforeLine e line later (k + 1) ts us) : BeforeLine e line later k ts us := by
  obtain ⟨w, n, hts, hus, hcloses, hle⟩ := h
  exact ⟨w, n, hts, hus, hcloses, by omega⟩

/-- Indices in front of the same tokens of the text are the same. -/
theorem located {text : List Token} {i j : Nat}
    (h : BeforeLine e line later k ((text ++ [e]).drop i) ((text ++ line :: later).drop j))
    (hi : i < (text ++ [e]).length) (hj : j < (text ++ line :: later).length) : j = i := by
  obtain ⟨w, n, hts, hus, _, _⟩ := h
  have hleft := congrArg List.length hts
  have hright := congrArg List.length hus
  simp only [List.length_drop, List.length_append, List.length_cons, List.length_nil]
    at hleft hright hi hj
  omega

/-- An error at the end of the text is shown at the line end. -/
theorem reported {text : List Token} {a b : Token} {i : Nat}
    (hleft : (text ++ [e]).drop i = a :: ts) (hright : (text ++ line :: later).drop i = b :: us)
    (message : String) :
    (if i = text.length then ⟨i, message, line.span⟩ else ⟨i, message, a.span⟩ : ParseError) =
      ⟨i, message, b.span⟩ := by
  have hle : i ≤ text.length := by
    have hlength := congrArg List.length hleft
    simp only [List.length_drop, List.length_append, List.length_cons, List.length_nil] at hlength
    omega
  rcases Nat.lt_or_eq_of_le hle with hlt | rfl
  · rw [List.drop_append_of_le_length hle, List.drop_eq_getElem_cons hlt] at hleft hright
    have hsame : a = b := by
      rw [← (List.cons.inj hleft).1, (List.cons.inj hright).1]
    simp [Nat.ne_of_lt hlt, hsame]
  · rw [List.drop_left] at hright
    simp [(List.cons.inj hright).1]

end BeforeLine

/-- The lockstep of a text that the input ends behind and the same text in front of a line end. -/
def Lockstep.beforeLine {κ : Type} (text : List Token) (e line : Token) (later : List Token)
    (he : e.kind = .eof) (hline : line.kind = .linebreak)
    (hended : (tokenIn (text ++ line :: later).toArray
      ((text ++ line :: later).toArray.size - 1)).kind = .eof) : Lockstep κ where
  left := (text ++ [e]).toArray
  right := (text ++ line :: later).toArray
  near := BeforeLine e line later
  place := id
  shift := 0
  markers := []
  errors := []
  report error := if error.index = text.length then { error with span := line.span } else error
  left_ended := by simp [tokenIn, he]
  right_ended := hended
  mono := monotone_id
  located := BeforeLine.located
  reported _ _ hleft hright := BeforeLine.reported hleft hright
  weaken := BeforeLine.weaken
  skip h := (h.skip he hline).meeting he hline
  plain h hpart hkind := h.tail he hkind (by simp [Nest.opens_plain hpart])
  opening h hkind := (h.tail he (Token.kind_ne_eof_of_string hkind)
    (by rw [hkind]; rfl)).meeting he hline
  closing h hkind := h.tail he (Token.kind_ne_eof_of_string hkind) (by rw [hkind]; rfl)
  blockOpen h hkind := h.tail he (Token.kind_ne_eof_of_string hkind) (by rw [hkind]; rfl)
  piece h hkind hpart := (h.tail he (Token.kind_ne_eof_of_string hkind) (by
    rw [hkind]
    rcases hpart with rfl | rfl | rfl | rfl <;> exact Nat.le_refl _)).meeting he hline
  name h hmark hname := by
    have hnext := h.tail he (Token.kind_ne_eof_of_string hmark) (by rw [hmark]; rfl)
    exact (hnext.tail he (by rw [hname]; simp) (by rw [hname]; rfl)).meeting he hline
  line h := (h.dropWhile (by simp [Session.endsLine, he])
    (by simp [Session.endsLine, hline])).meeting he hline
  block h := (h.block he).meeting he hline

/-! ## The tokens behind the line end -/

/-- Two places in front of the same tokens, the last of which is an end of the input. -/
def Onward (ts us : List Token) : Prop :=
  us = ts ∧ ∃ body e, ts = body ++ [e] ∧ e.kind = .eof

namespace Onward

variable {ts us : List Token}

theorem meeting (h : Onward ts us) : Meeting Onward ts us := by
  have hplaces := h
  obtain ⟨rfl, body, e, rfl, _⟩ := h
  cases body with
  | nil => exact .mk (.same e) hplaces
  | cons a body => exact .mk (.same a) hplaces

theorem tail {a : Token} (h : Onward (a :: ts) (a :: us)) (hkind : a.kind ≠ .eof) :
    Onward ts us := by
  obtain ⟨hsame, body, e, hbody, he⟩ := h
  cases body with
  | nil =>
      obtain ⟨rfl, _⟩ := List.cons.inj hbody
      exact absurd he hkind
  | cons b body => exact ⟨(List.cons.inj hsame).2, body, e, (List.cons.inj hbody).2, he⟩

theorem dropWhile {p : Token → Bool} (hp : ∀ e : Token, e.kind = .eof → p e = false)
    (h : Onward ts us) : Onward (ts.dropWhile p) (us.dropWhile p) := by
  obtain ⟨rfl, body, e, rfl, he⟩ := h
  exact ⟨rfl, body.dropWhile p, e, dropWhile_append_cons (hp e he) body [], he⟩

theorem located {front later : List Token} {i j : Nat}
    (h : Onward (later.drop i) ((front ++ later).drop j)) (hi : i < later.length)
    (hj : j < (front ++ later).length) : j = i + front.length := by
  have hlength := congrArg List.length h.1
  simp only [List.length_drop, List.length_append] at hlength hi hj
  omega

end Onward

/-- The lockstep of tokens that stand alone and the same tokens behind others, for which some
markers have been opened and completed and some errors reported. -/
def Lockstep.behind {κ : Type} (front later : List Token) (opened : Nat) (markers : List (Marker κ))
    (errors : List ParseError) (hlater : ∃ body e, later = body ++ [e] ∧ e.kind = .eof) :
    Lockstep κ where
  left := later.toArray
  right := (front ++ later).toArray
  near _ := Onward
  place i := i + front.length
  shift := opened
  markers := markers
  errors := errors
  report error := { error with index := error.index + front.length }
  left_ended := by
    obtain ⟨body, e, rfl, he⟩ := hlater
    simp [tokenIn, he]
  right_ended := by
    obtain ⟨body, e, rfl, he⟩ := hlater
    simp [tokenIn, he, ← List.append_assoc]
  mono _ _ hle := Nat.add_le_add_right hle _
  located := Onward.located
  reported h _ _ _ message := by rw [(List.cons.inj h.1).1]
  weaken := id
  skip h := (h.dropWhile fun _ he => Token.isTrivia_of_kind he rfl).meeting
  plain h _ hkind := h.tail hkind
  opening h hkind := (h.tail (Token.kind_ne_eof_of_string hkind)).meeting
  closing h hkind := h.tail (Token.kind_ne_eof_of_string hkind)
  blockOpen h hkind := h.tail (Token.kind_ne_eof_of_string hkind)
  piece h hkind _ := (h.tail (Token.kind_ne_eof_of_string hkind)).meeting
  name h hmark hname := ((h.tail (Token.kind_ne_eof_of_string hmark)).tail
    (by rw [hname]; simp)).meeting
  line h := (h.dropWhile fun e he => by simp [Session.endsLine, he]).meeting
  block h := (h.dropWhile fun e he => by simp [Calculator.endsBlock, he]).meeting

/-! ## Programs line by line -/

theorem Session.ended_eq_append {tokens : List Token} (h : ∀ t ∈ tokens, t.kind ≠ .eof) :
    ∃ e : Token, e.kind = .eof ∧ ended tokens = tokens ++ [e] := by
  unfold ended
  cases hlast : tokens.getLast? with
  | none => exact ⟨Token.eof 0, rfl, by simp [List.getLast?_eq_none_iff.mp hlast]⟩
  | some t =>
      have hkind := h t (List.mem_of_getLast? hlast)
      exact ⟨Token.eof t.span.stop, rfl, by simp [hkind]⟩

theorem Session.ended_append (front : List Token) {later : List Token} (h : later ≠ []) :
    ended (front ++ later) = front ++ ended later := by
  unfold ended
  rw [List.getLast?_append, List.getLast?_eq_getLast_of_ne_nil h]
  simp only [Option.some_or]
  split
  · rfl
  · rw [List.append_assoc]

theorem Session.exists_ended (tokens : List Token) :
    ∃ body e, ended tokens = body ++ [e] ∧ e.kind = .eof := by
  unfold ended
  split
  · exact ⟨[], Token.eof 0, rfl, rfl⟩
  · rename_i t hlast
    split
    · rename_i hkind
      obtain ⟨body, rfl⟩ := List.getLast?_eq_some_iff.mp hlast
      exact ⟨body, t, rfl, by simpa using hkind⟩
    · exact ⟨tokens, Token.eof t.span.stop, rfl, rfl⟩

namespace Calculator

/-- Reading goes on behind a line end with tokens that are the same as those of a fresh session. -/
theorem statements_behind {front later : List Token} {t : Session Kind} {rounds : Nat}
    (htokens : t.tokens = (front ++ Session.ended later).toArray)
    (hrest : t.rest = Session.ended later) (hdepth : t.depth = 0) (hrounds : t.remaining ≤ rounds)
    (traced : Bool) :
    let second := run later t.options traced
    (statements rounds t).completed = t.completed ++ second.completed.map (fun m =>
        { id := m.id + t.opened
          start := m.start + front.length
          stop := m.stop + front.length
          kind := m.kind
          precedes := m.precedes.map (· + t.opened) }) ∧
      (statements rounds t).errors =
        t.errors ++ second.errors.map (fun e => { e with index := e.index + front.length }) := by
  intro second
  let L : Lockstep Kind := Lockstep.behind front (Session.ended later) t.opened t.completed t.errors
    (Session.exists_ended later)
  have hstart : L.Close 0 (.start later t.options traced) t :=
    ⟨rfl, htokens, rfl, hdepth, ⟨hrest, Session.exists_ended later⟩, (Nat.zero_add _).symm,
      (List.append_nil _).symm, (List.append_nil _).symm, by simp [Session.start]⟩
  obtain ⟨t₁, rounds₁, hread, _, habreast, hend⟩ :=
    statements_follow hstart (Nat.le_refl _) hrounds
  have hsame : t₁.rest = second.rest := (Lockstep.near_of_meeting habreast.rests).1
  rw [Session.rest_cons habreast.close.cursor_lt.2,
    Session.rest_cons (s := second) habreast.close.cursor_lt.1] at hsame
  have hkind : t₁.current.kind = .eof := by
    rw [(List.cons.inj hsame).1]
    exact hend
  rw [hread, statements_eof (Token.isTrivia_of_kind hkind rfl) hkind]
  exact ⟨habreast.completed, habreast.errors⟩

/-- The text in front of a line end is read as if the input ended there, and then reading goes on
behind the line end. -/
theorem program_beforeLine {text later whole : List Token} {line : Token}
    (hfollow : Nest.follow [] (text.map (·.kind)) = some []) (hline : line.kind = .linebreak)
    (hwhole : Session.ended whole = text ++ line :: later) (options : SessionOptions)
    (traced : Bool) :
    let first := run text options traced
    ∃ t rounds, run whole options traced = statements rounds t ∧
      t.tokens = (text ++ line :: later).toArray ∧ t.rest = later ∧ t.depth = 0 ∧
      t.options = options ∧ t.remaining ≤ rounds ∧ t.opened = first.opened ∧
      t.completed = first.completed ∧ t.errors = first.errors.map fun e =>
        if e.index = text.length then { e with span := line.span } else e := by
  intro first
  have hkinds : ∀ t ∈ text, t.kind ≠ .eof := fun t ht heof =>
    Nest.not_mem_of_follow hfollow (List.mem_map.mpr ⟨t, ht, heof⟩)
  obtain ⟨e, he, hended⟩ := Session.ended_eq_append hkinds
  let L : Lockstep Kind := Lockstep.beforeLine text e line later he hline
    (by rw [← hwhole]; exact Session.last_kind_ended whole)
  have hnear : BeforeLine e line later 0 (Session.ended text) (Session.ended whole) :=
    ⟨text, [], hended, hwhole, by rw [hended]; exact Nest.closes_append hfollow he, Nat.le_refl _⟩
  have hstart : L.Close 0 (.start text options traced) (.start whole options traced) :=
    Lockstep.Follows.start (by rw [hended]; rfl) (by rw [hwhole]; rfl) hnear rfl rfl rfl options
      traced
  obtain ⟨t₁, rounds₁, hread, hrounds₁, habreast, hend⟩ :=
    statements_follow hstart (Nat.le_refl _) (Nat.le_refl _)
  have hready := habreast.close.ready_right
  -- the input is over on the left, so the line ends on the right
  obtain ⟨w, n, hleft, hright, hcloses, _⟩ := Lockstep.near_of_meeting habreast.rests
  have hnil : w = [] := by
    cases w with
    | nil => rfl
    | cons a w =>
        rw [Session.rest_cons habreast.close.cursor_lt.1] at hleft hcloses
        have hlast := (List.cons.inj hleft).2.symm.trans (hcloses.eq_nil hend)
        simp at hlast
  subst hnil
  rw [Session.rest_cons hready.cursor_lt, List.nil_append] at hright
  obtain ⟨hcurrent, hrest⟩ := List.cons.inj hright
  have hkind : t₁.current.kind = .linebreak := by rw [hcurrent]; exact hline
  have hskip : t₁.skipTrivia = t₁ :=
    Session.skipTrivia_eq_self (Token.isTrivia_of_kind hkind rfl)
  have hadvance := (hready.advance_eq (by rw [hkind]; decide)).2
  obtain ⟨rounds, rfl⟩ : ∃ n, rounds₁ = n + 1 := by
    have hlt := hready.cursor_lt
    rw [Session.remaining] at hrounds₁
    exact ⟨rounds₁ - 1, by omega⟩
  obtain ⟨ps, hgrows⟩ := grows_program (Session.ready_start text options traced)
  have hmarker : L.marker = id := by
    funext m
    cases m
    simp [Lockstep.marker, L, Lockstep.beforeLine]
  have hmarkers : first.completed.map L.marker = first.completed := by
    rw [hmarker, List.map_id]
  refine ⟨t₁.advance, rounds, ?_, ?_, ?_, ?_, ?_, ?_, ?_, ?_, ?_⟩
  · show program _ = _
    rw [program, hread]
    simp only [statements, hskip, hkind]
  · rw [hadvance]
    exact habreast.right
  · rw [hadvance]
    exact hrest
  · rw [Session.depth_advance, habreast.depth]
    exact hgrows.depth
  · rw [hadvance]
    exact habreast.options.trans hgrows.options
  · exact Session.remaining_le (by rw [hadvance]) (by rw [hadvance]; exact Nat.lt_succ_self _)
      hrounds₁
  · rw [hadvance]
    exact habreast.opened
  · rw [hadvance]
    exact habreast.completed.trans hmarkers
  · rw [hadvance]
    exact habreast.errors

/-- Without tokens there is nothing to read. -/
theorem run_nil (options : SessionOptions) (traced : Bool) :
    run [] options traced = .start [] options traced :=
  statements_eof rfl rfl _

/-- **Errors on one line never change how later lines are read.**  Behind the tokens of a text
come a line end and any further tokens: what is marked and reported is first what is marked and
reported for the text alone, and then what is marked and reported for the further tokens alone, at
their indices behind the line end and with markers numbered on.  Errors at the end of the text are
shown at the line end.  It does not matter whether there are line ends in the literals of the
text. -/
theorem run_append_line (source lineText : String) (lineSpan : Span) (later : List Token)
    (options : SessionOptions) (traced : Bool) :
    let text := (tokenize source config none).dropLast
    let line : Token := ⟨.linebreak, lineText, lineSpan⟩
    let first := run text options traced
    let second := run later options traced
    let whole := run (text ++ line :: later) options traced
    whole.completed = first.completed ++ second.completed.map (fun m =>
        { id := m.id + first.opened
          start := m.start + (text.length + 1)
          stop := m.stop + (text.length + 1)
          kind := m.kind
          precedes := m.precedes.map (· + first.opened) }) ∧
      whole.errors =
        first.errors.map (fun e =>
            if e.index = text.length then { e with span := line.span } else e) ++
          second.errors.map (fun e => { e with index := e.index + (text.length + 1) }) := by
  intro text line first second whole
  obtain ⟨body, stop, htokens, hfollow, _⟩ := tokenize_nested source config none
  have htext : text = body := by simp only [text, htokens, List.dropLast_concat]
  rw [← htext] at hfollow
  by_cases hlater : later = []
  · -- nothing follows the line end but the end of the input
    have hwhole : Session.ended (text ++ line :: later) =
        text ++ line :: [Token.eof line.span.stop] := by
      simp [hlater, Session.ended, line]
    obtain ⟨t, rounds, hread, hright, hrest, _, _, _, _, hcompleted, herrors⟩ :=
      program_beforeLine hfollow (rfl : line.kind = .linebreak) hwhole options traced
    have hlt : t.cursor < t.tokens.size := by
      by_contra hge
      simp [Session.rest, List.drop_of_length_le (Nat.le_of_not_lt hge)] at hrest
    rw [Session.rest_cons hlt] at hrest
    have hkind : t.current.kind = .eof := by rw [(List.cons.inj hrest).1]; rfl
    have hsecond : second = .start [] options traced := by
      simp only [second, hlater, run_nil]
    have hread' : whole = t :=
      hread.trans (statements_eof (Token.isTrivia_of_kind hkind rfl) hkind _)
    rw [hread', hsecond, hcompleted, herrors]
    simp [Session.start, first]
  · have hwhole : Session.ended (text ++ line :: later) = text ++ line :: Session.ended later := by
      have hfront := Session.ended_append (text ++ [line]) hlater
      simpa using hfront
    obtain ⟨t, rounds, hread, hright, hrest, hdepth, rfl, hrounds, hopened, hcompleted, herrors⟩ :=
      program_beforeLine hfollow (rfl : line.kind = .linebreak) hwhole options traced
    have hfront : t.tokens = (text ++ [line] ++ Session.ended later).toArray := by
      rw [hright]
      simp
    have hbehind := statements_behind hfront hrest hdepth hrounds traced
    have hread' : whole = statements rounds t := hread
    rw [List.length_append, List.length_singleton, hopened, hcompleted, herrors] at hbehind
    rw [hread']
    exact hbehind

end Calculator

end Lossless
