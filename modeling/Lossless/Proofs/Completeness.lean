import Lossless.Proofs.Soundness

/-!
# Every program is read without an error

The grammar says nothing about binding powers, but the parser stops reading an operand where
the next operator binds too loosely.  No operator is lost by this: it is left to the operand
around, and in the end to the whole expression, which takes operators of any power
(`Complete.whole`).

So a way to read expressions is complete if it consumes a first operand and as much of what
continues it as binds tightly enough, and reports nothing.  Reading deeper takes a token, so
**with as many levels as there are tokens every derivation is read**
(`program_errors_eq_nil_iff`).
-/

namespace Lossless

namespace Calculator

open ExpressionGrammar

/-! ## Arriving -/

/-- Nothing is reported from one session to another, and the depth is the same again. -/
structure Keeps (s s' : Session Kind) : Prop where
  errors : s'.errors = s.errors
  options : s'.options = s.options
  depth : s'.depth = s.depth

theorem Keeps.trans {s s₁ s' : Session Kind} (h : Keeps s s₁) (h' : Keeps s₁ s') : Keeps s s' :=
  ⟨h'.errors.trans h.errors, h'.options.trans h.options, h'.depth.trans h.depth⟩

theorem keeps_advance (s : Session Kind) : Keeps s s.advance := by
  unfold Session.advance
  split <;> exact ⟨rfl, rfl, rfl⟩

/-- A session arrives where certain tokens lie ahead, and has reported nothing on the way. -/
structure Arrives (n : Nest) (s s' : Session Kind) (ts : List Token) : Prop where
  lexed : Lexed n s'
  ahead : s'.ahead = ts
  keeps : Keeps s s'

namespace Arrives

variable {n n' : Nest} {s s₁ s' : Session Kind} {ts ts' : List Token}

theorem trans (h : Arrives n s s₁ ts) (h' : Arrives n' s₁ s' ts') : Arrives n' s s' ts' :=
  ⟨h'.lexed, h'.ahead, h.keeps.trans h'.keeps⟩

theorem complete (h : Arrives n s s' ts) (m : OpenMarker) (kind : Kind) :
    Arrives n s (s'.complete m kind).2 ts :=
  ⟨h.lexed.complete m kind, h.ahead, h.keeps.errors, h.keeps.options, h.keeps.depth⟩

/-- What is read from a session in which a marker is opened. -/
theorem opened {start : Nat} {precedes : Option Nat}
    (h : Arrives n (s.openAt start precedes).2 s' ts) : Arrives n s s' ts :=
  ⟨h.lexed, h.ahead, h.keeps.errors, h.keeps.options, h.keeps.depth⟩

end Arrives

section Tokens

variable {n n' : Nest} {s : Session Kind} {t : Token} {ts : List Token}

theorem Lexed.arrives_skipTrivia (h : Lexed n s) (hahead : s.ahead = ts) :
    Arrives n s s.skipTrivia ts :=
  ⟨h.skipTrivia, h.within.ready.ahead_skipTrivia.trans hahead, rfl, rfl, rfl⟩

/-- Moving past the first token ahead, if it is no piece of a literal. -/
theorem Lexed.take (h : Lexed n s) (hcode : n.isCode = true) (hcurrent : s.current.isTrivia = false)
    (hahead : s.ahead = t :: ts) (hplain : t.kind.isStringPart = false ∧ t.kind ≠ .eof) :
    s.current = t ∧ Arrives n s s.advance ts := by
  obtain rfl : s.current = t := h.within.current_eq hcurrent hahead
  obtain ⟨hahead', hbehind⟩ := h.advance hcode hcurrent hplain.1 hplain.2
  exact ⟨rfl, hbehind, (List.cons.inj (hahead'.symm.trans hahead)).2, keeps_advance s⟩

/-- Moving past a piece of a literal. -/
theorem Lexed.take_part (h : Lexed n s) (hcurrent : s.current.isTrivia = false)
    (hahead : s.ahead = t :: ts) {part : StringPart} (hpart : t.kind = .literal (.string part))
    (hstep : n.step (.literal (.string part)) = some n') :
    s.current = t ∧ Arrives n' s s.advance ts := by
  obtain rfl : s.current = t := h.within.current_eq hcurrent hahead
  obtain ⟨hahead', n₁, hstep', hbehind⟩ := h.advance_part hcurrent hpart
  obtain rfl := Option.some.inj (hstep.symm.trans hstep')
  exact ⟨rfl, hbehind, (List.cons.inj (hahead'.symm.trans hahead)).2, keeps_advance s⟩

/-- A text that is expected of the first token ahead, and is there. -/
theorem Lexed.expect_arrives (h : Lexed n s) (hcode : n.isCode = true) (hahead : s.ahead = t :: ts)
    {kind : TokenKind} {text : String} (ht : t.Is kind text)
    (hmay : Operators.mayOperate t = true) :
    (s.expect (.text text)).1 = true ∧ Arrives n s (s.expect (.text text)).2 ts := by
  have hskip := h.arrives_skipTrivia hahead
  obtain ⟨hcurrent, hbehind⟩ := hskip.lexed.take hcode h.within.ready.current_skipTrivia hskip.ahead
    (plain_of_mayOperate hmay)
  have hmet : s.expect (.text text) = (true, s.skipTrivia.advance) := by
    have hholds := ht.holds (hasOwnText_of_mayOperate hmay)
    rw [← hcurrent] at hholds
    simp [Session.expect, Session.eat, hholds]
  rw [hmet]
  exact ⟨rfl, hskip.trans hbehind⟩

end Tokens

/-! ## What follows an expression -/

/-- Tokens the first of which does not go on with an expression. -/
def Ends (rest : List Token) : Prop :=
  ∃ t ts, rest = t :: ts ∧ operators.continuingPower? t = none

/-- The operator with which tokens begin, if they do, has less than a certain power. -/
def Looser (least : Nat) (ts : List Token) : Prop :=
  ∀ t ∈ ts.head?, ∀ power, operators.continuingPower? t = some power → power < least

theorem Derives.continuingPower?_head {cs : List Token} (h : Derives .continuation cs)
    (hne : cs ≠ []) : ∃ t ts power, cs = t :: ts ∧ operators.continuingPower? t = some power := by
  cases h with
  | stop => exact absurd rfl hne
  | @between t us vs ht _ _ =>
      obtain ⟨op, hop⟩ := Option.isSome_iff_exists.mp ht
      refine ⟨t, us ++ vs, op.power, rfl, ?_⟩
      simp [Operators.continuingPower?, ternary?_of_between? ht, hop]
  | choice hopener =>
      refine ⟨_, _, Precedence.ternary.power, rfl, ?_⟩
      simp [Operators.continuingPower?, ternary?_of_is hopener]

/-- If the next operator has no power to be too loose, there is none. -/
theorem Derives.eq_nil_of_looser {cs rest : List Token} (h : Derives .continuation cs)
    (hlooser : Looser 0 (cs ++ rest)) : cs = [] := by
  by_contra hne
  obtain ⟨t, ts, power, rfl, hpower⟩ := h.continuingPower?_head hne
  exact absurd (hlooser t rfl power hpower) (Nat.not_lt_zero power)

/-- A way to read expressions, by the least power of their operators: it consumes an expression
of at most `size` tokens up to an operator that binds too loosely. -/
def Complete (size : Nat) (inner : Inner) : Prop :=
  ∀ (least : Nat) (n : Nest) (s : Session Kind) (us cs rest : List Token), Lexed n s →
    n.isCode = true → Derives .unary us → Derives .continuation cs → Ends rest →
    s.ahead = us ++ (cs ++ rest) → (us ++ cs).length ≤ size →
    (inner least s).1.isSome = true ∧ ∃ cs', Derives .continuation cs' ∧ cs'.length ≤ cs.length ∧
      Looser least (cs' ++ rest) ∧ Arrives n s (inner least s).2 (cs' ++ rest)

/-- **No operator is too loose for a whole expression.** -/
theorem Complete.whole {size : Nat} {inner : Inner} (hinner : Complete size inner) {n : Nest}
    {s : Session Kind} {us rest : List Token} (h : Lexed n s) (hcode : n.isCode = true)
    (hus : Derives .expression us) (hrest : Ends rest) (hahead : s.ahead = us ++ rest)
    (hsize : us.length ≤ size) :
    (inner 0 s).1.isSome = true ∧ Arrives n s (inner 0 s).2 rest := by
  cases hus with
  | expression hu hc =>
      rw [List.append_assoc] at hahead
      obtain ⟨hfound, cs', hcs', _, hlooser, harrives⟩ :=
        hinner 0 n s _ _ rest h hcode hu hc hrest hahead hsize
      obtain rfl := hcs'.eq_nil_of_looser hlooser
      exact ⟨hfound, harrives⟩

section Phrases

variable {size : Nat} {inner : Inner} {n : Nest} {s : Session Kind} {rest : List Token}

/-! ### Atoms -/

theorem single_arrives (h : Lexed n s) (hcode : n.isCode = true)
    (hcurrent : s.current.isTrivia = false) {t : Token} (hahead : s.ahead = t :: rest)
    (ht : IsLeaf t) (kind : Kind) : Arrives n s (single kind s).2 rest := by
  rw [single_eq]
  exact ((h.mark.take hcode hcurrent hahead ht.plain).2.complete s.mark.1 kind).opened

theorem group_arrives (hinner : Complete size inner) (h : Lexed n s) (hcode : n.isCode = true)
    (hcurrent : s.current.isTrivia = false) {opener closer : Token} {us : List Token}
    (hopener : opener.Is .punctuation "(") (hus : Derives .expression us)
    (hcloser : closer.Is .punctuation ")") (hahead : s.ahead = opener :: (us ++ closer :: rest))
    (hsize : us.length ≤ size) : Arrives n s (group inner s).2 rest := by
  obtain ⟨_, hbehind⟩ := (h.openAt s.cursor none).take hcode hcurrent hahead
    (plain_of_mayOperate (by simp [Operators.mayOperate, hopener.1]))
  obtain ⟨hfound, hread⟩ := hinner.whole hbehind.lexed hcode hus
    ⟨closer, rest, rfl, continuingPower?_closer hcloser⟩ hbehind.ahead hsize
  have hstart := (hbehind.trans hread).opened
  rw [group_eq]
  generalize inner 0 (s.openAt s.cursor none).2.advance = r at hfound hstart ⊢
  obtain ⟨_ | e, s₁⟩ := r
  · cases hfound
  · obtain ⟨_, hend⟩ := hstart.lexed.expect_arrives hcode hstart.ahead hcloser
      (by simp [Operators.mayOperate, hcloser.1])
    exact (hstart.trans hend).complete s.mark.1 .group

/-! ### Strings -/

/-- A brace that closes a block goes on with no expression. -/
theorem ends_blockClose {closer : Token} (hcloser : closer.kind = .string .blockClose) :
    Ends (closer :: rest) := by
  refine ⟨closer, rest, rfl, continuingPower?_of_not_mayOperate ?_⟩
  simp [Operators.mayOperate, TokenKind.string, hcloser]

theorem block_arrives (hinner : Complete size inner) {style : StringStyle}
    (h : Lexed (⟨style, .block⟩ :: n) s) {us : List Token} {closer : Token}
    (hus : Derives .expression us) (hcloser : closer.kind = .string .blockClose)
    (hahead : s.ahead = us ++ closer :: rest) (hsize : us.length ≤ size) :
    Arrives (⟨style, .piece⟩ :: n) s (block inner s) rest := by
  obtain ⟨hfound, hread⟩ := hinner.whole h rfl hus (ends_blockClose hcloser) hahead hsize
  rcases hr : inner 0 s with ⟨_ | e, s₁⟩ <;> rw [hr] at hfound hread
  · cases hfound
  · have hskip := hread.lexed.arrives_skipTrivia hread.ahead
    obtain ⟨hcurrent, hbehind⟩ := hskip.lexed.take_part
      hread.lexed.within.ready.current_skipTrivia hskip.ahead hcloser rfl
    rw [block_closed hr (by rw [hcurrent]; simp [blockEnd, Expectation.holds, hcloser])]
    exact (hread.trans hskip).trans hbehind

/-- An identifier behind a mark. -/
theorem markedName_arrives {style : StringStyle} (h : Lexed (⟨style, .name⟩ :: n) s) {name : Token}
    (hname : name.kind = .identifier) (hahead : s.ahead = name :: rest) :
    s.current = name ∧ Arrives (⟨style, .piece⟩ :: n) s (single .name s).2 rest := by
  obtain ⟨hcurrent, hkind⟩ := h.within.significant rfl
  obtain rfl : s.current = name := h.within.current_eq hcurrent hahead
  obtain ⟨hahead', n', hstep, hwithin⟩ := h.mark.within.advance hcurrent hkind
  obtain ⟨_, rfl⟩ := Nest.step_name hstep
  have hbehind := h.mark.behind [s.current] hahead' hwithin
  rw [Session.ahead_mark, Session.current_mark] at hahead'
  have htake : Arrives (⟨style, .piece⟩ :: n) s.mark.2 s.mark.2.advance rest :=
    ⟨hbehind, (List.cons.inj (hahead'.symm.trans hahead)).2, keeps_advance _⟩
  rw [single_eq]
  exact ⟨rfl, (htake.complete s.mark.1 .name).opened⟩

theorem stringPart?_of_kind {t : Token} {part : StringPart} (h : t.kind = .literal (.string part)) :
    stringPart? t = some part := by
  simp [stringPart?, h]

/-- The pieces of a string up to its closing delimiter.  The induction is on the rounds, as many
of which are needed as there are tokens. -/
theorem stringPieces_arrives (hinner : Complete size inner) {style : StringStyle}
    {us : List Token} {closer : Token} {rounds : Nat} (h : Lexed (⟨style, .piece⟩ :: n) s)
    (hus : Derives .pieces us) (hcloser : closer.kind = .string (.closing style))
    (hahead : s.ahead = us ++ closer :: rest) (hrounds : us.length < rounds)
    (hsize : us.length ≤ size) : Arrives n s (stringPieces inner rounds s) rest := by
  induction rounds generalizing s us with
  | zero => cases hrounds
  | succ rounds ih =>
      obtain ⟨hcurrent, _⟩ := h.within.significant rfl
      cases hus with
      | noPiece =>
          have hstep : Nest.step (⟨style, .piece⟩ :: n) (.literal (.string (.closing style))) =
              some n := by simp [Nest.step, Nest.pieceStep]
          obtain ⟨heq, hbehind⟩ := h.take_part hcurrent hahead hcloser hstep
          simp only [stringPieces, heq, stringPart?_of_kind hcloser]
          exact hbehind
      | @content t us ht hus =>
          rw [List.length_cons] at hrounds hsize
          have hnext : ∀ part, t.kind = .literal (.string part) →
              Nest.step (⟨style, .piece⟩ :: n) (.literal (.string part)) =
                some (⟨style, .piece⟩ :: n) →
              s.current = t ∧ Arrives n s (stringPieces inner rounds s.advance) rest := by
            intro part hpart hstep
            obtain ⟨heq, hbehind⟩ := h.take_part hcurrent hahead hpart hstep
            exact ⟨heq, hbehind.trans
              (ih hbehind.lexed hus hbehind.ahead (by omega) (by omega))⟩
          rcases ht with hpart | hpart
          · obtain ⟨heq, hread⟩ := hnext _ hpart rfl
            simp only [stringPieces, heq, stringPart?_of_kind hpart]
            exact hread
          · obtain ⟨heq, hread⟩ := hnext _ hpart rfl
            simp only [stringPieces, heq, stringPart?_of_kind hpart]
            exact hread
      | @name mark name us hmark hname hus =>
          rw [List.length_cons, List.length_cons] at hrounds hsize
          obtain ⟨heq, hbehind⟩ := h.take_part hcurrent hahead hmark rfl
          obtain ⟨heq', hnamed⟩ := markedName_arrives hbehind.lexed hname hbehind.ahead
          simp only [stringPieces, heq, stringPart?_of_kind hmark]
          rw [if_pos (by rw [heq', hname]; rfl)]
          exact (hbehind.trans hnamed).trans
            (ih hnamed.lexed hus hnamed.ahead (by omega) (by omega))
      | @block opener closer' us vs hopener hus hcloser' hvs =>
          simp only [List.length_cons, List.length_append] at hrounds hsize
          simp only [List.cons_append, List.append_assoc] at hahead
          obtain ⟨heq, hbehind⟩ := h.take_part hcurrent hahead hopener rfl
          have hblock := block_arrives hinner hbehind.lexed hus hcloser' hbehind.ahead (by omega)
          simp only [stringPieces, heq, stringPart?_of_kind hopener]
          exact (hbehind.trans hblock).trans
            (ih hblock.lexed hvs hblock.ahead (by omega) (by omega))

theorem string_arrives (hinner : Complete size inner) (h : Lexed n s) (hcode : n.isCode = true)
    (hcurrent : s.current.isTrivia = false) {style : StringStyle} {opener closer : Token}
    {us : List Token} (hopener : opener.kind = .string (.opening style))
    (hus : Derives .pieces us) (hcloser : closer.kind = .string (.closing style))
    (hahead : s.ahead = opener :: (us ++ closer :: rest)) (hsize : us.length ≤ size) :
    Arrives n s (string inner s).2 rest := by
  have hstep : n.step (.literal (.string (.opening style))) = some (⟨style, .piece⟩ :: n) := by
    rw [Nest.step_code hcode]
    rfl
  obtain ⟨_, hbehind⟩ := h.mark.take_part hcurrent hahead hopener hstep
  have hrounds : us.length < s.mark.2.advance.remaining := by
    have hle := Session.length_ahead_le s.mark.2.advance
    rw [hbehind.ahead] at hle
    simp at hle
    omega
  have hread := stringPieces_arrives hinner hbehind.lexed hus hcloser hbehind.ahead hrounds hsize
  rw [string_eq]
  exact ((hbehind.trans hread).complete s.mark.1 .string).opened

/-! ### Operands -/

/-- An atom can start with nothing that is an operator in front of an operand. -/
theorem Derives.atom_head {us : List Token} (h : Derives .atom us) :
    ∃ t ts, us = t :: ts ∧ startsAtom t = true ∧ operators.before? t = none := by
  have hother : ∀ {t : Token}, Operators.mayOperate t = false → operators.before? t = none := by
    intro t hmay
    simp [Operators.before?, hmay]
  cases h with
  | @leaf t ht =>
      refine ⟨t, [], rfl, ?_⟩
      rcases ht with ht | ht | ht | ht | ht
      · cases hkind : t.kind with
        | literal l =>
            cases l with
            | integer | floating =>
                exact ⟨by simp [startsAtom, startsPlainAtom, hkind],
                  hother (by simp [Operators.mayOperate, hkind])⟩
            | _ => rw [hkind] at ht; cases ht
        | _ => rw [hkind] at ht; cases ht
      · exact ⟨by simp [startsAtom, startsPlainAtom, ht],
          hother (by simp [Operators.mayOperate, ht])⟩
      · exact ⟨by simp [startsAtom, startsPlainAtom, ht],
          hother (by simp [Operators.mayOperate, ht])⟩
      · refine ⟨by simp [startsAtom, ht.1, ht.2], ?_⟩
        simp only [Operators.before?, Operators.mayOperate, ht.1, ht.2]
        rfl
      · refine ⟨by simp [startsAtom, ht.1, ht.2], ?_⟩
        simp only [Operators.before?, Operators.mayOperate, ht.1, ht.2]
        rfl
  | @group opener _ _ hopener =>
      refine ⟨opener, _, rfl, by simp [startsAtom, hopener.1, hopener.2], ?_⟩
      simp only [Operators.before?, Operators.mayOperate, hopener.1, hopener.2]
      rfl
  | @string _ opener _ _ hopener =>
      exact ⟨opener, _, rfl, by simp [startsAtom, startsPlainAtom, TokenKind.string, hopener],
        hother (by simp [Operators.mayOperate, TokenKind.string, hopener])⟩

/-- What an operand starts with starts an expression. -/
theorem Derives.unary_head {us : List Token} (h : Derives .unary us) :
    ∃ t ts, us = t :: ts ∧ (grammar.startingPower? t).isSome = true := by
  cases h with
  | @before t us ht _ =>
      obtain ⟨op, hop⟩ := Option.isSome_iff_exists.mp ht
      exact ⟨t, us, rfl, by simp [startingPower?, grammar, hop]⟩
  | operand h =>
      obtain ⟨t, ts, rfl, hstarts, hop⟩ := h.atom_head
      exact ⟨t, ts, rfl, by simp [startingPower?, grammar, hop, hstarts]⟩

theorem atom_arrives (hinner : Complete size inner) (h : Lexed n s) (hcode : n.isCode = true)
    (hcurrent : s.current.isTrivia = false) {us : List Token} (hus : Derives .atom us)
    (hahead : s.ahead = us ++ rest) (hsize : us.length ≤ size + 1) :
    (atom inner s).1.isSome = true ∧ Arrives n s (atom inner s).2 rest := by
  cases hus with
  | @leaf t ht =>
      have hsingle := single_arrives h hcode hcurrent hahead ht
      obtain rfl : s.current = t := h.within.current_eq hcurrent hahead
      rcases ht with ht | ht | ht | ht | ht
      · cases hkind : s.current.kind with
        | literal l =>
            cases l with
            | integer | floating => simp only [atom, hkind]; exact ⟨rfl, hsingle .number⟩
            | _ => rw [hkind] at ht; cases ht
        | _ => rw [hkind] at ht; cases ht
      · simp only [atom, ht]; exact ⟨rfl, hsingle .char⟩
      · simp only [atom, ht]; exact ⟨rfl, hsingle .name⟩
      · simp only [atom, ht.1]; exact ⟨rfl, hsingle .bool⟩
      · simp only [atom, ht.1]; exact ⟨rfl, hsingle .bool⟩
  | @group opener closer us hopener hus hcloser =>
      simp only [List.length_cons, List.length_append] at hsize
      simp only [List.cons_append, List.append_assoc] at hahead
      have hgroup := group_arrives hinner h hcode hcurrent hopener hus hcloser hahead (by omega)
      obtain rfl : s.current = opener := h.within.current_eq hcurrent hahead
      simp only [atom, hopener.1]
      exact ⟨rfl, hgroup⟩
  | @string style opener closer us hopener hus hcloser =>
      simp only [List.length_cons, List.length_append] at hsize
      simp only [List.cons_append, List.append_assoc] at hahead
      have hstring := string_arrives hinner h hcode hcurrent hopener hus hcloser hahead (by omega)
      obtain rfl : s.current = opener := h.within.current_eq hcurrent hahead
      simp only [atom, hopener]
      exact ⟨rfl, hstring⟩

theorem Arrives.settle {s' : Session Kind} {ts : List Token} (h : Arrives n s s' ts)
    (m : OpenMarker) (kind : Kind) : Arrives n s (settle m kind true s').2 ts :=
  h.complete m kind

/-- An operator with an operand behind it, which leaves the rest of what continues it. -/
theorem Complete.settled (hinner : Complete size inner) (h : Lexed n s) (hcode : n.isCode = true)
    (hcurrent : s.current.isTrivia = false) {t : Token} {us cs : List Token}
    (hmay : Operators.mayOperate t = true) (hus : Derives .unary us)
    (hcs : Derives .continuation cs) (hrest : Ends rest)
    (hahead : s.ahead = t :: (us ++ (cs ++ rest))) (hsize : (us ++ cs).length ≤ size)
    (start : Nat) (precedes : Option Nat) (m : OpenMarker) (kind : Kind) (power : Nat)
    {r : Option (Marker Kind) × Session Kind}
    (hr : inner power (s.openAt start precedes).2.advance = r) :
    (settle m kind r.1.isSome r.2).1.isSome = true ∧ ∃ cs', Derives .continuation cs' ∧
      cs'.length ≤ cs.length ∧ Arrives n s (settle m kind r.1.isSome r.2).2 (cs' ++ rest) := by
  obtain ⟨_, hbehind⟩ := (h.openAt start precedes).take hcode hcurrent hahead
    (plain_of_mayOperate hmay)
  obtain ⟨hfound, cs', hcs', hle, _, hread⟩ :=
    hinner power n _ us cs rest hbehind.lexed hcode hus hcs hrest hbehind.ahead hsize
  subst hr
  rw [hfound]
  exact ⟨rfl, cs', hcs', hle, (hbehind.trans hread).opened.settle m kind⟩

theorem operand_arrives (hinner : Complete size inner) (h : Lexed n s) (hcode : n.isCode = true)
    (hcurrent : s.current.isTrivia = false) {us cs : List Token} (hus : Derives .unary us)
    (hcs : Derives .continuation cs) (hrest : Ends rest) (hahead : s.ahead = us ++ (cs ++ rest))
    (hsize : (us ++ cs).length ≤ size + 1) :
    (grammar.operand inner s).1.isSome = true ∧ ∃ cs', Derives .continuation cs' ∧
      cs'.length ≤ cs.length ∧ Arrives n s (grammar.operand inner s).2 (cs' ++ rest) := by
  cases hus with
  | @before t us ht hus =>
      obtain ⟨op, hop⟩ := Option.isSome_iff_exists.mp ht
      have hsettled := hinner.settled h hcode hcurrent (before?_isSome ht).1 hus hcs hrest hahead
        (Nat.le_of_succ_le_succ hsize) s.cursor none s.mark.1 op.kind op.power rfl
      obtain rfl : s.current = t := h.within.current_eq hcurrent hahead
      rw [operand_before hop]
      exact hsettled
  | operand hus =>
      have hlength : us.length ≤ size + 1 := by
        rw [List.length_append] at hsize
        omega
      obtain ⟨hfound, hread⟩ := atom_arrives hinner h hcode hcurrent hus hahead hlength
      obtain ⟨t, ts, rfl, _, hop⟩ := hus.atom_head
      obtain rfl : s.current = t := h.within.current_eq hcurrent hahead
      rw [operand_atom hop]
      exact ⟨hfound, cs, hcs, Nat.le_refl _, hread⟩

/-! ### Operators -/

/-- The operands of a ternary operator, behind its opener. -/
theorem ternaryOperands_arrives (hinner : Complete size inner) (h : Lexed n s)
    (hcode : n.isCode = true) (op : TernaryOperator Kind) (hop : op.separator = ":")
    {us vs cs : List Token} {separator : Token} (hus : Derives .expression us)
    (hseparator : separator.Is .operator ":") (hvs : Derives .unary vs)
    (hcs : Derives .continuation cs) (hrest : Ends rest)
    (hahead : s.ahead = us ++ separator :: (vs ++ (cs ++ rest)))
    (hsize : us.length + (vs ++ cs).length ≤ size) :
    (ternaryOperands op inner s).1 = true ∧ ∃ cs', Derives .continuation cs' ∧
      cs'.length ≤ cs.length ∧ Arrives n s (ternaryOperands op inner s).2 (cs' ++ rest) := by
  obtain ⟨hfound, hread⟩ := hinner.whole h hcode hus
    ⟨separator, _, rfl, continuingPower?_separator hseparator⟩ hahead (by omega)
  unfold ternaryOperands
  rw [hop]
  generalize inner 0 s = r at hfound hread ⊢
  obtain ⟨_ | e, s₁⟩ := r
  · cases hfound
  · obtain ⟨hmet, hbehind⟩ := hread.lexed.expect_arrives hcode hread.ahead hseparator
      (by simp [Operators.mayOperate, hseparator.1])
    simp only
    generalize s₁.expect (.text ":") = r at hmet hbehind ⊢
    obtain ⟨_ | _, s₂⟩ := r
    · cases hmet
    · obtain ⟨hfound', cs', hcs', hle, _, hlast⟩ := hinner op.power n s₂ vs cs rest hbehind.lexed
        hcode hvs hcs hrest hbehind.ahead (by omega)
      exact ⟨hfound', cs', hcs', hle, (hread.trans hbehind).trans hlast⟩

/-- An operator at the cursor with its operands, which leaves the rest of what continues the
expression. -/
theorem extend_arrives (hinner : Complete size inner) (h : Lexed n s) (hcode : n.isCode = true)
    (hcurrent : s.current.isTrivia = false) (left : Marker Kind) {cs : List Token}
    (hcs : Derives .continuation cs) (hne : cs ≠ []) (hrest : Ends rest)
    (hahead : s.ahead = cs ++ rest) (hsize : cs.length ≤ size + 1) :
    (grammar.extend inner left s).1.isSome = true ∧ ∃ cs', Derives .continuation cs' ∧
      cs'.length < cs.length ∧ Arrives n s (grammar.extend inner left s).2 (cs' ++ rest) := by
  cases hcs with
  | stop => exact absurd rfl hne
  | @between t us vs ht hus hvs =>
      rw [List.cons_append, List.append_assoc] at hahead
      obtain ⟨op, hop⟩ := Option.isSome_iff_exists.mp ht
      have hternary := ternary?_of_between? ht
      obtain ⟨hfound, cs', hcs', hle, hread⟩ := hinner.settled h hcode hcurrent
        (between?_isSome ht).1 hus hvs hrest hahead (Nat.le_of_succ_le_succ hsize) left.start
        (some left.id) (s.precede left).1 op.kind op.rightPower rfl
      obtain rfl : s.current = t := h.within.current_eq hcurrent hahead
      rw [extend_between hternary hop]
      refine ⟨hfound, cs', hcs', ?_, hread⟩
      rw [List.length_cons, List.length_append]
      omega
  | @choice opener separator us vs ws hopener hus hseparator hvs hws =>
      simp only [List.cons_append, List.append_assoc] at hahead
      simp only [List.length_cons, List.length_append] at hsize
      have hop := ternary?_of_is hopener
      obtain ⟨heq, hbehind⟩ := (h.openAt left.start (some left.id)).take hcode hcurrent hahead
        (plain_of_mayOperate (by simp [Operators.mayOperate, hopener.1]))
      obtain ⟨hfound, cs', hcs', hle, hread⟩ := ternaryOperands_arrives hinner hbehind.lexed hcode
        ⟨"?", ":", Precedence.ternary.power, .cond⟩ rfl hus hseparator hvs hws hrest hbehind.ahead
        (by rw [List.length_append]; omega)
      rw [Session.current_openAt] at heq
      rw [← heq] at hop
      rw [extend_ternary hop, hfound]
      refine ⟨rfl, cs', hcs', ?_, (hbehind.trans hread).opened.settle _ .cond⟩
      simp only [List.length_cons, List.length_append]
      omega

theorem Ends.looser (h : Ends rest) (least : Nat) : Looser least rest := by
  obtain ⟨t, ts, rfl, hnone⟩ := h
  intro t' ht' power hpower
  obtain rfl : t = t' := Option.some.inj ht'
  rw [hnone] at hpower
  cases hpower

/-- Operators are taken up as long as they bind tightly enough.  The induction is on the rounds,
as many of which are needed as there are tokens. -/
theorem extendWhile_arrives (hinner : Complete size inner) (h : Lexed n s) (hcode : n.isCode = true)
    (least rounds : Nat) (left : Marker Kind) {cs : List Token} (hcs : Derives .continuation cs)
    (hrest : Ends rest) (hahead : s.ahead = cs ++ rest) (hrounds : cs.length ≤ rounds)
    (hsize : cs.length ≤ size + 1) :
    ∃ cs', Derives .continuation cs' ∧ cs'.length ≤ cs.length ∧ Looser least (cs' ++ rest) ∧
      Arrives n s (grammar.extendWhile inner least rounds left s).2 (cs' ++ rest) := by
  have hhere : Arrives n s s (cs ++ rest) := ⟨h, hahead, rfl, rfl, rfl⟩
  induction rounds generalizing left s cs with
  | zero =>
      obtain rfl := List.length_eq_zero_iff.mp (Nat.le_zero.mp hrounds)
      exact ⟨[], .stop, Nat.le_refl _, hrest.looser least, hhere⟩
  | succ rounds ih =>
      have hs := h.within.ready
      have hskip := h.arrives_skipTrivia hahead
      by_cases hne : cs = []
      · subst hne
        obtain ⟨t, ts, rfl, hnone⟩ := hrest
        have heq := hskip.lexed.within.current_eq hs.current_skipTrivia hskip.ahead
        have hstop : grammar.operators.continuingPower? (s.nth 0) = none := by
          rw [hs.nth_zero, heq]
          exact hnone
        unfold extendWhile
        simp only [hstop]
        exact ⟨[], .stop, Nat.le_refl _, Ends.looser ⟨t, ts, rfl, hnone⟩ least, hhere⟩
      · obtain ⟨t, ts, power, hhead, hpower⟩ := hcs.continuingPower?_head hne
        have heq := hskip.lexed.within.current_eq hs.current_skipTrivia
          (by rw [hskip.ahead, hhead]; rfl)
        have hpower' : grammar.operators.continuingPower? (s.nth 0) = some power := by
          rw [hs.nth_zero, heq]
          exact hpower
        unfold extendWhile
        by_cases hleast : least ≤ power
        · obtain ⟨hfound, cs₁, hcs₁, hlt, hextend⟩ := extend_arrives hinner hskip.lexed hcode
            hs.current_skipTrivia left hcs hne hrest hskip.ahead hsize
          simp only [hpower', hleast, if_true]
          generalize grammar.extend inner left s.skipTrivia = r at hfound hextend ⊢
          obtain ⟨_ | wider, s₁⟩ := r
          · cases hfound
          · obtain ⟨cs', hcs', hle, hlooser, hend⟩ := ih hextend.lexed wider hcs₁ hextend.ahead
              (by omega) (by omega) ⟨hextend.lexed, hextend.ahead, rfl, rfl, rfl⟩
            exact ⟨cs', hcs', by omega, hlooser, (hskip.trans hextend).trans hend⟩
        · -- the operator binds too loosely, and is left to the expression around
          simp only [hpower', hleast, if_false]
          refine ⟨cs, hcs, Nat.le_refl _, ?_, hhere⟩
          intro t' ht' power' hpower''
          rw [hhead] at ht'
          obtain rfl : t = t' := Option.some.inj ht'
          obtain rfl := Option.some.inj (hpower.symm.trans hpower'')
          omega

theorem expressionBody_arrives (hinner : Complete size inner) (h : Lexed n s)
    (hcode : n.isCode = true) (hcurrent : s.current.isTrivia = false) (least : Nat)
    {us cs : List Token} (hus : Derives .unary us) (hcs : Derives .continuation cs)
    (hrest : Ends rest) (hahead : s.ahead = us ++ (cs ++ rest))
    (hsize : (us ++ cs).length ≤ size + 1) :
    (grammar.expressionBody inner least s).1.isSome = true ∧ ∃ cs', Derives .continuation cs' ∧
      cs'.length ≤ cs.length ∧ Looser least (cs' ++ rest) ∧
      Arrives n s (grammar.expressionBody inner least s).2 (cs' ++ rest) := by
  obtain ⟨hfound, cs₁, hcs₁, hle, hoperand⟩ :=
    operand_arrives hinner h hcode hcurrent hus hcs hrest hahead hsize
  unfold expressionBody
  generalize grammar.operand inner s = r at hfound hoperand ⊢
  obtain ⟨_ | left, s₁⟩ := r
  · cases hfound
  · have hrounds : cs₁.length ≤ s₁.remaining := by
      have hlength := s₁.length_ahead_le
      rw [hoperand.ahead, List.length_append] at hlength
      omega
    rw [List.length_append] at hsize
    obtain ⟨cs', hcs', hle', hlooser, hend⟩ := extendWhile_arrives hinner hoperand.lexed hcode least
      s₁.remaining left hcs₁ hrest hoperand.ahead hrounds (by omega)
    exact ⟨rfl, cs', hcs', by omega, hlooser, hoperand.trans hend⟩

end Phrases

theorem not_endsLine_of_starts {t : Token} (h : (grammar.startingPower? t).isSome = true) :
    Session.endsLine t = false := by
  cases hends : Session.endsLine t with
  | false => rfl
  | true =>
      simp only [Session.endsLine, Bool.or_eq_true, beq_iff_eq] at hends
      rcases hends with hkind | hkind <;>
        simp [startingPower?, grammar, Operators.before?, Operators.mayOperate, startsAtom,
          startsPlainAtom, hkind] at h

/-- At a token that starts an expression, one is read as long as there are levels left. -/
theorem expressionAt_succ {s : Session Kind}
    (h : (grammar.startingPower? s.skipTrivia.current).isSome = true) (levels least : Nat) :
    grammar.expressionAt (levels + 1) least s =
      ((grammar.expressionBody (grammar.expressionAt levels) least
          { s.skipTrivia with depth := s.skipTrivia.depth + 1 }).1,
        (grammar.expressionBody (grammar.expressionAt levels) least
          { s.skipTrivia with depth := s.skipTrivia.depth + 1 }).2.exitExpression) := by
  have hsome : ¬ (grammar.startingPower? s.skipTrivia.current).isNone = true := by
    simpa [Option.isSome_iff_ne_none] using h
  unfold expressionAt
  simp only [not_endsLine_of_starts h, hsome, if_false, Bool.false_eq_true]

/-- **With as many levels as tokens, every expression is read.**  One level reads one operand and
its operators, each of which takes a token before the next level. -/
theorem complete_expressionAt (levels : Nat) : Complete levels (grammar.expressionAt levels) := by
  induction levels with
  | zero =>
      intro least n s us cs rest _ _ hus _ _ _ hsize
      rw [List.length_append] at hsize
      have hnil : us = [] := List.length_eq_zero_iff.mp (by omega)
      exact absurd hnil (hus.ne_nil (by simp) (by simp) (by simp))
  | succ levels ih =>
      intro least n s us cs rest h hcode hus hcs hrest hahead hsize
      have hs := h.within.ready
      have hskip := h.arrives_skipTrivia hahead
      obtain ⟨t, ts, htokens, hstarts⟩ := hus.unary_head
      have heq := hskip.lexed.within.current_eq hs.current_skipTrivia
        (by rw [hskip.ahead, htokens]; rfl)
      rw [← heq] at hstarts
      rw [expressionAt_succ hstarts]
      have hdeeper : Lexed n { s.skipTrivia with depth := s.skipTrivia.depth + 1 } :=
        ⟨hskip.lexed.within, hskip.lexed.spelled⟩
      have hbody := expressionBody_arrives ih hdeeper hcode hs.current_skipTrivia least hus hcs
        hrest hskip.ahead hsize
      generalize grammar.expressionBody (grammar.expressionAt levels) least
        { s.skipTrivia with depth := s.skipTrivia.depth + 1 } = r at hbody ⊢
      obtain ⟨hfound, cs', hcs', hle, hlooser, hend⟩ := hbody
      refine ⟨hfound, cs', hcs', hle, hlooser, ⟨hend.lexed.within, hend.lexed.spelled⟩, hend.ahead,
        hend.keeps.errors, hend.keeps.options, ?_⟩
      -- the level that was entered is left again
      show r.2.depth - 1 = s.depth
      rw [hend.keeps.depth]
      rfl

theorem expression_arrives {n : Nest} {s : Session Kind} {us rest : List Token} (h : Lexed n s)
    (hcode : n.isCode = true) (hus : Derives .expression us) (hrest : Ends rest)
    (hahead : s.ahead = us ++ rest) (hdepth : us.length ≤ s.options.maxDepth - s.depth) :
    (grammar.expression 0 s).1.isSome = true ∧ Arrives n s (grammar.expression 0 s).2 rest :=
  (complete_expressionAt _).whole h hcode hus hrest hahead hdepth

/-! ## Statements -/

section Statements

variable {n : Nest} {s : Session Kind} {us rest : List Token}

/-- Tokens the first of which ends a line. -/
def OverLine (rest : List Token) : Prop :=
  ∃ t ts, rest = t :: ts ∧ Session.endsLine t = true

theorem OverLine.ends (h : OverLine rest) : Ends rest := by
  obtain ⟨t, ts, rfl, hends⟩ := h
  refine ⟨t, ts, rfl, continuingPower?_of_not_mayOperate ?_⟩
  simp only [Session.endsLine, Bool.or_eq_true, beq_iff_eq] at hends
  rcases hends with hkind | hkind <;> simp [Operators.mayOperate, hkind]

theorem Derives.expression_head (h : Derives .expression us) :
    ∃ t ts, us = t :: ts ∧ (grammar.startingPower? t).isSome = true := by
  cases h with
  | expression hus _ =>
      obtain ⟨t, ts, rfl, hstarts⟩ := hus.unary_head
      exact ⟨t, _, rfl, hstarts⟩

/-- No statement is an empty line. -/
theorem Derives.statement_head (h : Derives .statement us) :
    ∃ t ts, us = t :: ts ∧ Session.endsLine t = false := by
  cases h with
  | binding hkeyword => exact ⟨_, _, rfl, by simp [Session.endsLine, hkeyword.1]⟩
  | plain h =>
      obtain ⟨t, ts, rfl, hstarts⟩ := h.expression_head
      exact ⟨t, ts, rfl, not_endsLine_of_starts hstarts⟩

theorem letName_arrives (h : Lexed n s) (hcode : n.isCode = true) {name : Token}
    (hname : name.kind = .identifier) (hahead : s.ahead = name :: rest) :
    Arrives n s (letName s) rest := by
  have hs := h.within.ready
  have hskip := h.arrives_skipTrivia hahead
  have hread := single_arrives hskip.lexed hcode hs.current_skipTrivia hskip.ahead
    (Or.inr (Or.inr (Or.inl hname))) .name
  have heq := hskip.lexed.within.current_eq hs.current_skipTrivia hskip.ahead
  have hat : s.isAt (.kind .identifier) = true := by
    rw [hs.isAt_eq, heq]
    simp [Expectation.holds, hname]
  rw [letName, if_pos hat]
  exact hskip.trans hread

theorem letStatement_arrives (h : Lexed n s) (hcode : n.isCode = true) {keyword name sign : Token}
    (hkeyword : keyword.Is .keyword "let") (hname : name.kind = .identifier)
    (hsign : sign.Is .operator "=") (hus : Derives .expression us) (hrest : OverLine rest)
    (hahead : s.ahead = keyword :: name :: sign :: (us ++ rest))
    (hdepth : us.length ≤ s.options.maxDepth - s.depth) : Arrives n s (letStatement s) rest := by
  have hskip := h.arrives_skipTrivia hahead
  obtain ⟨_, hbehind⟩ := hskip.lexed.mark.take hcode h.within.ready.current_skipTrivia hskip.ahead
    (plain_of_mayOperate (by simp [Operators.mayOperate, hkeyword.1]))
  have hnamed := hbehind.trans (letName_arrives hbehind.lexed hcode hname hbehind.ahead)
  obtain ⟨hmet, hsigned⟩ := hnamed.lexed.expect_arrives hcode hnamed.ahead hsign
    (by simp [Operators.mayOperate, hsign.1])
  have hfront := hskip.trans (hnamed.trans hsigned).opened
  unfold letStatement
  simp only
  generalize (letName s.skipTrivia.mark.2.advance).expect (.text "=") = r at hmet hfront ⊢
  obtain ⟨_ | _, s₁⟩ := r
  · cases hmet
  · obtain ⟨_, hread⟩ := expression_arrives hfront.lexed hcode hus hrest.ends hfront.ahead
      (by rw [hfront.keeps.options, hfront.keeps.depth]; exact hdepth)
    exact (hfront.trans hread).complete _ .letStatement

theorem expressionStatement_arrives (h : Lexed n s) (hcode : n.isCode = true)
    (hus : Derives .expression us) (hrest : OverLine rest) (hahead : s.ahead = us ++ rest)
    (hdepth : us.length ≤ s.options.maxDepth - s.depth) :
    Arrives n s (expressionStatement s) rest := by
  obtain ⟨hfound, hread⟩ := expression_arrives h hcode hus hrest.ends hahead hdepth
  unfold expressionStatement
  generalize grammar.expression 0 s = r at hfound hread ⊢
  obtain ⟨_ | e, s₁⟩ := r
  · cases hfound
  · have hopen : Arrives n s₁ (s₁.openAt e.start (some e.id)).2 rest :=
      ⟨hread.lexed.openAt _ _, hread.ahead, rfl, rfl, rfl⟩
    exact (hread.trans hopen).complete _ .expressionStatement

/-- The keyword of a `let` statement starts no expression. -/
theorem startingPower?_let {t : Token} (h : t.Is .keyword "let") :
    grammar.startingPower? t = none := by
  simp only [startingPower?, grammar, Operators.before?, Operators.mayOperate, startsAtom, h.1, h.2]
  rfl

theorem isAt_let_eq_false (h : Lexed n s) (hus : Derives .expression us)
    (hahead : s.ahead = us ++ rest) : s.isAt (.text "let") = false := by
  have hs := h.within.ready
  have hskip := h.arrives_skipTrivia hahead
  obtain ⟨t, ts, htokens, hstarts⟩ := hus.expression_head
  have heq := hskip.lexed.within.current_eq hs.current_skipTrivia
    (by rw [hskip.ahead, htokens]; rfl)
  rw [hs.isAt_eq, Bool.eq_false_iff]
  intro hlet
  have hspelled := hskip.lexed.spelled_current hs.current_skipTrivia
  rw [← heq, startingPower?_let (hspelled.is_of_holds (by decide) hlet)] at hstarts
  cases hstarts

/-- A statement whose line is over behind it. -/
theorem statement_arrives (h : Lexed n s) (hcode : n.isCode = true) (hus : Derives .statement us)
    (hrest : OverLine rest) (hahead : s.ahead = us ++ rest)
    (hdepth : us.length ≤ s.options.maxDepth - s.depth) : Arrives n s (statement s) rest := by
  have hs := h.within.ready
  have hskip := h.arrives_skipTrivia hahead
  have hread : Arrives n s
      (if s.isAt (.text "let") then letStatement s else expressionStatement s) rest := by
    rw [hs.isAt_eq]
    cases hus with
    | @binding keyword name sign us hkeyword hname hsign hus =>
        have heq := hskip.lexed.within.current_eq hs.current_skipTrivia hskip.ahead
        rw [heq, hkeyword.holds (by simp [Expectation.hasOwnText, hkeyword.1]), if_pos rfl]
        simp only [List.length_cons] at hdepth
        exact letStatement_arrives h hcode hkeyword hname hsign hus hrest hahead (by omega)
    | plain hus =>
        rw [← hs.isAt_eq, isAt_let_eq_false h hus hahead]
        exact expressionStatement_arrives h hcode hus hrest hahead hdepth
  unfold statement
  simp only
  generalize (if s.isAt (.text "let") then letStatement s else expressionStatement s) = s₁
    at hread ⊢
  have hskip₁ := hread.lexed.arrives_skipTrivia hread.ahead
  obtain ⟨t, ts, rfl, hends⟩ := hrest
  have heq := hskip₁.lexed.within.current_eq hread.lexed.within.ready.current_skipTrivia
    hskip₁.ahead
  rw [if_pos (by rw [heq]; exact hends)]
  exact hread.trans hskip₁

/-- Statements up to the end of the input.  The induction is on the rounds, and what is left of a
program behind a statement is one that begins with an empty line. -/
theorem errors_statements {rounds : Nat} {e : Token} (h : Lexed [] s) (hus : Derives .program us)
    (he : e.kind = .eof) (hahead : s.ahead = us ++ [e])
    (hdepth : us.length ≤ s.options.maxDepth - s.depth) :
    (statements rounds s).errors = s.errors := by
  induction rounds generalizing s us with
  | zero => rfl
  | succ rounds ih =>
      have hcurrent := h.within.ready.current_skipTrivia
      have hskip := h.arrives_skipTrivia hahead
      -- a statement, behind which a program is left
      have hstatement : ∀ {vs ws : List Token}, Derives .statement vs → Derives .program ws →
          us = vs ++ ws → OverLine (ws ++ [e]) →
          (statements (rounds + 1) s).errors = s.errors := by
        intro vs ws hvs hws htokens hover
        obtain ⟨t, ts, hhead, hends⟩ := hvs.statement_head
        have heq := hskip.lexed.within.current_eq hcurrent
          (by rw [hskip.ahead, htokens, hhead]; rfl)
        have hlength : vs.length + ws.length ≤ s.options.maxDepth - s.depth := by
          rwa [htokens, List.length_append] at hdepth
        have hread := statement_arrives hskip.lexed rfl hvs hover
          (by rw [hskip.ahead, htokens, List.append_assoc])
          (Nat.le_trans (Nat.le_add_right _ _) hlength)
        have harrives := hskip.trans hread
        have hrest := ih harrives.lexed hws harrives.ahead (by
          rw [harrives.keeps.options, harrives.keeps.depth]
          omega)
        rw [statements_succ (by rw [heq]; exact hends), hrest, harrives.keeps.errors]
      cases hus with
      | nothing =>
          have heq := hskip.lexed.within.current_eq hcurrent hskip.ahead
          simp only [statements, heq, he]
          rfl
      | last hus =>
          exact hstatement hus .nothing (List.append_nil _).symm
            ⟨e, [], rfl, by simp [Session.endsLine, he]⟩
      | @blank t us ht hus =>
          obtain ⟨heq, hbehind⟩ := hskip.lexed.take rfl hcurrent hskip.ahead
            (by simp [ht, TokenKind.isStringPart])
          have harrives := hskip.trans hbehind
          rw [List.length_cons] at hdepth
          have hrest := ih harrives.lexed hus harrives.ahead (by
            rw [harrives.keeps.options, harrives.keeps.depth]
            omega)
          simp only [statements, heq, ht]
          rw [hrest, harrives.keeps.errors]
      | @line vs ws t hvs ht hws =>
          exact hstatement hvs (.blank ht hws) rfl
            ⟨t, ws ++ [e], rfl, by simp [Session.endsLine, ht]⟩

end Statements

/-! ## Programs -/

/-- **A program is read without an error**, if expressions may nest as deep as it has tokens. -/
theorem program_complete {source : String} {options : SessionOptions}
    (hderives : Derives .program (significantTokens source))
    (hdepth : (significantTokens source).length ≤ options.maxDepth) (traced : Bool) :
    (program (Session.start (tokenize source config none) options traced)).errors = [] := by
  obtain ⟨h, e, he, hahead⟩ := lexed_start source options traced
  exact errors_statements h hderives he hahead hdepth

/-- **The parser accepts exactly the grammar**, if expressions may nest as deep as there are
tokens: it reports no error if and only if the significant tokens of a text derive from the
grammar. -/
theorem program_errors_eq_nil_iff (source : String) (options : SessionOptions) (traced : Bool)
    (hdepth : (tokenize source config none).length ≤ options.maxDepth) :
    (program (Session.start (tokenize source config none) options traced)).errors = [] ↔
      Derives .program (significantTokens source) := by
  have hlength : (significantTokens source).length ≤ options.maxDepth :=
    Nat.le_trans (List.length_filter_le _ _) hdepth
  exact ⟨program_sound, fun hderives => program_complete hderives hlength traced⟩

/-- A choice between an operand with a prefix and a string with a block is a program, and a group
that is closed on another line is none. -/
theorem program_errors_eq_nil_iff_choice_and_open_group :
    let choice := "let a = b ? -1 : \"x$\x7ba + 2\x7d\"\n\n!c"
    let openGroup := "a = (b\n)"
    (tokenize choice config none).length ≤ ({} : SessionOptions).maxDepth ∧
      Derives .program (significantTokens choice) ∧
      (tokenize openGroup config none).length ≤ ({} : SessionOptions).maxDepth ∧
      ¬ Derives .program (significantTokens openGroup) := by
  intro choice openGroup
  have hchoice : (tokenize choice config none).length ≤ ({} : SessionOptions).maxDepth := by
    decide +kernel
  have hopen : (tokenize openGroup config none).length ≤ ({} : SessionOptions).maxDepth := by
    decide +kernel
  refine ⟨hchoice, ?_, hopen, ?_⟩
  · exact (program_errors_eq_nil_iff choice {} false hchoice).mp (by decide +kernel)
  · intro hderives
    have hnone := (program_errors_eq_nil_iff openGroup {} false hopen).mpr hderives
    exact absurd hnone (by decide +kernel)

end Calculator

end Lossless
