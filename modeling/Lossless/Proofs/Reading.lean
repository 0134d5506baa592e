import Lossless.Expression
import Lossless.Proofs.Phrase

/-!
# Expressions are read as ranked phrases

An expression parser keeps no tree.  It completes markers, and what it has read is the phrase
that these markers belong to.  If no error is reported, then **the phrase is placed where the
session has been, its operators respect their powers, and the next operator binds too loosely
to be part of it** (`expressionAt_reads`).

The claim is carried through the parser by what each step says about its phrase (`Reads`).
The decisive part of it is `reach`: an operator that follows the phrase binds more loosely
than any operator on the right edge of the phrase would accept.
-/

namespace Lossless

variable {κ : Type}

/-- An atom that is the current token, whose kind follows from the token. -/
def singleTokenAtom (atomKind : Token → κ) (_ : Nat → ElementParser κ) : ElementParser κ :=
  fun s =>
    let (m, s') := s.mark
    let (marker, s') := s'.advance.complete m (atomKind s.current)
    (some marker, s')

/-- The expressions of an operator table over atoms of one token. -/
def plainGrammar (ops : Operators κ) (atomKind : Token → κ) : ExpressionGrammar κ where
  operators := ops
  atom := singleTokenAtom atomKind

@[simp] theorem operators_plainGrammar (ops : Operators κ) (atomKind : Token → κ) :
    (plainGrammar ops atomKind).operators = ops := rfl

/-! ## What stays when a session goes on -/

namespace Session

/-- A session goes on to another over the same tokens, and takes back no error. -/
structure Reaches (s s' : Session κ) : Prop where
  tokens : s'.tokens = s.tokens
  cursor_lt : s'.cursor < s'.tokens.size
  errors : s.errors.length ≤ s'.errors.length

theorem Ready.reaches {s : Session κ} (h : s.Ready) : s.Reaches s :=
  ⟨rfl, h.cursor_lt, Nat.le_refl _⟩

theorem Reaches.ready {s s' : Session κ} (h : s.Reaches s') (hs : s.Ready) : s'.Ready :=
  ⟨h.cursor_lt, by rw [h.tokens]; exact hs.last_kind⟩

theorem Reaches.trans {s s' s'' : Session κ} (h : s.Reaches s') (h' : s'.Reaches s'') :
    s.Reaches s'' :=
  ⟨h'.tokens.trans h.tokens, h'.cursor_lt, Nat.le_trans h.errors h'.errors⟩

/-- From one session to another, markers are completed: in some order, with numbers that were
not used before, and no number twice. -/
structure Records (s s' : Session κ) (ms : List (Marker κ)) : Prop where
  completed : ∃ done, s'.completed = s.completed ++ done ∧ done.Perm ms
  opened : s.opened ≤ s'.opened
  ids : ∀ m ∈ ms, s.opened ≤ m.id ∧ m.id < s'.opened
  nodup : (ms.map (·.id)).Nodup

theorem Records.nil {s s' : Session κ} (hcompleted : s'.completed = s.completed)
    (hopened : s.opened ≤ s'.opened) : Records s s' [] :=
  ⟨⟨[], by simp [hcompleted], .nil⟩, hopened, by simp, by simp⟩

theorem Records.append {s s₁ s' : Session κ} {ms ns : List (Marker κ)} (h : Records s s₁ ms)
    (h' : Records s₁ s' ns) : Records s s' (ms ++ ns) := by
  obtain ⟨done, hdone, hperm⟩ := h.completed
  obtain ⟨done', hdone', hperm'⟩ := h'.completed
  have hopened := h.opened
  have hopened' := h'.opened
  refine ⟨⟨done ++ done', ?_, hperm.append hperm'⟩, by omega, ?_, ?_⟩
  · rw [hdone', hdone, List.append_assoc]
  · intro m hm
    rcases List.mem_append.mp hm with hm | hm
    · have hid := h.ids m hm
      omega
    · have hid := h'.ids m hm
      omega
  · rw [List.map_append, List.nodup_append]
    refine ⟨h.nodup, h'.nodup, ?_⟩
    intro i hi j hj
    obtain ⟨m, hm, rfl⟩ := List.mem_map.mp hi
    obtain ⟨n, hn, rfl⟩ := List.mem_map.mp hj
    have hidm := h.ids m hm
    have hidn := h'.ids n hn
    omega

/-- Markers are also completed from an earlier session, if none is completed in between. -/
theorem Records.weaken {s s₁ s' : Session κ} {ms : List (Marker κ)} (h : Records s₁ s' ms)
    (hopened : s.opened ≤ s₁.opened) (hcompleted : s₁.completed = s.completed) :
    Records s s' ms := by
  obtain ⟨done, hdone, hperm⟩ := h.completed
  have hle := h.opened
  refine ⟨⟨done, by rw [hdone, hcompleted], hperm⟩, by omega, ?_, h.nodup⟩
  intro m hm
  have hid := h.ids m hm
  omega

/-- A marker that is opened when some are completed, and completed after some more. -/
theorem Records.complete {s s₁ s₂ s₃ : Session κ} {ms ns : List (Marker κ)}
    (h : Records s s₁ ms) (h' : Records s₂ s₃ ns) (hopen : s₂.opened = s₁.opened + 1)
    (hnone : s₂.completed = s₁.completed) {m : OpenMarker} (hid : m.id = s₁.opened) (kind : κ) :
    Records s (s₃.complete m kind).2 ((s₃.complete m kind).1 :: (ms ++ ns)) := by
  have hboth := h.append (h'.weaken (by omega) hnone)
  obtain ⟨done, hdone, hperm⟩ := hboth.completed
  have hle := h.opened
  have hle' := h'.opened
  have hwrapper : (s₃.complete m kind).1.id = s₁.opened := hid
  have hnew : ∀ n ∈ ms ++ ns, n.id ≠ (s₃.complete m kind).1.id := by
    intro n hn
    rcases List.mem_append.mp hn with hn | hn
    · have hidn := h.ids n hn
      omega
    · have hidn := h'.ids n hn
      omega
  refine ⟨⟨done ++ [(s₃.complete m kind).1], ?_, ?_⟩, hboth.opened, ?_, ?_⟩
  · show s₃.completed ++ [(s₃.complete m kind).1] = _
    rw [hdone, List.append_assoc]
  · exact (List.perm_append_singleton _ _).trans (hperm.cons _)
  · intro n hn
    show s.opened ≤ n.id ∧ n.id < s₃.opened
    rcases List.mem_cons.mp hn with rfl | hn
    · omega
    · exact hboth.ids n hn
  · rw [List.map_cons, List.nodup_cons]
    refine ⟨?_, hboth.nodup⟩
    intro hmem
    obtain ⟨n, hn, heq⟩ := List.mem_map.mp hmem
    exact hnew n hn heq

end Session

/-! ## What is read -/

/-- From one session to another, a phrase is read. -/
structure Reads (ops : Operators κ) (atomKind : Token → κ) (s s' : Session κ) (p : Phrase κ) :
    Prop where
  tokens : s'.tokens = s.tokens
  records : s.Records s' p.markers
  stop : s'.cursor = p.marker.stop
  last : (tokenIn s.tokens (p.marker.stop - 1)).isTrivia = false
  placed : p.Placed ops atomKind s.tokens
  ranked : p.Ranked
  /-- The operator that follows binds too loosely for every operator on the right edge. -/
  reach : ∀ power, ops.continuingPower? (s'.nth 0) = some power →
    ∀ q ∈ p.rightPowers, power < q

/-- A way to read expressions, by the least power of their operators, that goes on whatever it
meets. -/
def GoesOn (parse : Nat → ElementParser κ) : Prop :=
  ∀ least (s : Session κ), s.Ready → s.Reaches (parse least s).2

/-- A way to read expressions, by the least power of their operators: unless an error is
reported, it reads a phrase from the first significant token on, whose operators have at least
that power, and stops in front of an operator that has not. -/
structure ReadsPhrases (ops : Operators κ) (atomKind : Token → κ)
    (parse : Nat → ElementParser κ) : Prop where
  goes_on : GoesOn parse
  reads : ∀ least s, s.Ready → (parse least s).2.errors.length = s.errors.length →
    ∃ p, (parse least s).1 = some p.marker ∧ Reads ops atomKind s (parse least s).2 p ∧
      FirstSignificant s.tokens s.cursor p.marker.start ∧
      (∀ q ∈ p.leftPowers, least ≤ q) ∧
      ∀ power, ops.continuingPower? ((parse least s).2.nth 0) = some power → power < least

variable {ops : Operators κ} {atomKind : Token → κ}

/-- What is read does not depend on the depth, the events and the errors of the sessions. -/
theorem Reads.congr {s s' t t' : Session κ} {p : Phrase κ} (h : Reads ops atomKind s s' p)
    (htokens : t.tokens = s.tokens) (hopened : t.opened = s.opened)
    (hcompleted : t.completed = s.completed) (htokens' : t'.tokens = s'.tokens)
    (hcursor' : t'.cursor = s'.cursor) (hopened' : t'.opened = s'.opened)
    (hcompleted' : t'.completed = s'.completed) : Reads ops atomKind t t' p := by
  have hnth : t'.nth 0 = s'.nth 0 := by
    simp only [Session.nth, Session.remaining, Session.last, Session.tokenAt, htokens', hcursor']
  obtain ⟨done, hdone, hperm⟩ := h.records.completed
  refine ⟨by rw [htokens', htokens, h.tokens], ⟨⟨done, ?_, hperm⟩, ?_, ?_, h.records.nodup⟩,
    by rw [hcursor', h.stop], by rw [htokens]; exact h.last, by rw [htokens]; exact h.placed,
    h.ranked, by rw [hnth]; exact h.reach⟩
  · rw [hcompleted', hdone, hcompleted]
  · rw [hopened, hopened']
    exact h.records.opened
  · rw [hopened, hopened']
    exact h.records.ids

/-- An operator whose last operand is all that was read: what follows is too loose for the
operator itself, by its own power, and for those inside of the operand. -/
theorem Reads.reach_cons {s s' : Session κ} {p : Phrase κ} (h : Reads ops atomKind s s' p)
    {least : Nat}
    (hnext : ∀ power, ops.continuingPower? (s'.nth 0) = some power → power < least) :
    ∀ power, ops.continuingPower? (s'.nth 0) = some power →
      ∀ q ∈ least :: p.rightPowers, power < q := by
  intro power hpower q hq
  rcases List.mem_cons.mp hq with rfl | hq
  · exact hnext power hpower
  · exact h.reach power hpower q hq

/-! ## Going on -/

section GoingOn

open ExpressionGrammar

theorem Session.Ready.reaches_advance {s : Session κ} (h : s.Ready) : s.Reaches s.advance := by
  unfold Session.advance
  split
  · rename_i hlt
    exact ⟨rfl, hlt, Nat.le_refl _⟩
  · exact h.reaches

theorem Session.Ready.reaches_skipTrivia {s : Session κ} (h : s.Ready) :
    s.Reaches s.skipTrivia :=
  ⟨rfl, h.skipTrivia.cursor_lt, Nat.le_refl _⟩

theorem Session.Reaches.error {s s' : Session κ} (h : s.Reaches s') (message : String) :
    s.Reaches (s'.error message) ∧ s.errors.length < (s'.error message).errors.length := by
  have hgrows : (s'.error message).errors.length = s'.errors.length + 1 := by
    simp [Session.error, Session.record]
  have hle := h.errors
  exact ⟨⟨h.tokens, h.cursor_lt, by omega⟩, by omega⟩

theorem Session.Reaches.complete {s s' : Session κ} (h : s.Reaches s') (m : OpenMarker) (kind : κ) :
    s.Reaches (s'.complete m kind).2 :=
  ⟨h.tokens, h.cursor_lt, h.errors⟩

theorem reaches_settle {s s' : Session κ} (h : s.Reaches s') (m : OpenMarker) (kind : κ)
    (found : Bool) : s.Reaches (settle m kind found s').2 := by
  cases found with
  | true => exact h.complete m kind
  | false => exact ⟨h.tokens, h.cursor_lt, h.errors⟩

theorem errors_settle (m : OpenMarker) (kind : κ) (found : Bool) (s : Session κ) :
    (settle m kind found s).2.errors = s.errors := by
  cases found <;> rfl

theorem reaches_expect {s : Session κ} (h : s.Ready) (e : Expectation) :
    s.Reaches (s.expect e).2 := by
  simp only [Session.expect, Session.eat]
  by_cases hholds : e.holds s.skipTrivia.current = true
  · simp only [hholds, if_true]
    exact h.reaches_skipTrivia.trans h.skipTrivia.reaches_advance
  · simp only [hholds, if_false, Bool.false_eq_true]
    exact (h.reaches_skipTrivia.error _).1

/-- Opening a marker, moving past a token and going on. -/
theorem GoesOn.behind_open {inner : Nat → ElementParser κ} (hinner : GoesOn inner)
    {s : Session κ} (hs : s.Ready) (start : Nat) (precedes : Option Nat) (least : Nat) :
    s.Reaches (s.openAt start precedes).2.advance ∧
      s.Reaches (inner least (s.openAt start precedes).2.advance).2 := by
  have hopen : (s.openAt start precedes).2.Ready := ⟨hs.cursor_lt, hs.last_kind⟩
  have hadvance := hopen.reaches_advance
  have hbehind : s.Reaches (s.openAt start precedes).2.advance :=
    ⟨hadvance.tokens, hadvance.cursor_lt, hadvance.errors⟩
  exact ⟨hbehind, hbehind.trans (hinner least _ (hbehind.ready hs))⟩

/-- Reading an atom goes on whatever it meets, if reading inside of it does. -/
def AtomGoesOn (g : ExpressionGrammar κ) : Prop :=
  ∀ inner, GoesOn inner → ∀ s : Session κ, s.Ready → s.Reaches (g.atom inner s).2

theorem atomGoesOn_plainGrammar (ops : Operators κ) (atomKind : Token → κ) :
    AtomGoesOn (plainGrammar ops atomKind) := by
  intro inner hinner s hs
  exact (hinner.behind_open hs s.cursor none 0).1.complete s.mark.1 (atomKind s.current)

theorem reaches_operand {g : ExpressionGrammar κ} (hatom : AtomGoesOn g)
    {inner : Nat → ElementParser κ} (hinner : GoesOn inner) {s : Session κ} (hs : s.Ready) :
    s.Reaches (g.operand inner s).2 := by
  unfold operand
  split
  · exact hatom inner hinner s hs
  · exact reaches_settle (hinner.behind_open hs s.cursor none _).2 _ _ _

theorem reaches_ternaryOperands {inner : Nat → ElementParser κ} (hinner : GoesOn inner)
    {s : Session κ} (hs : s.Ready) (op : TernaryOperator κ) :
    s.Reaches (ternaryOperands op inner s).2 := by
  have hfirst := hinner 0 s hs
  unfold ternaryOperands
  generalize inner 0 s = r at hfirst ⊢
  obtain ⟨found, s₁⟩ := r
  cases found with
  | none => exact hfirst
  | some m =>
      have hs₁ : s₁.Ready := hfirst.ready hs
      have hexpect := reaches_expect hs₁ (.text op.separator)
      simp only
      generalize s₁.expect (.text op.separator) = r' at hexpect ⊢
      obtain ⟨present, s₂⟩ := r'
      have hs₂ : s₂.Ready := hexpect.ready hs₁
      cases present with
      | false => exact hfirst.trans hexpect
      | true => exact (hfirst.trans hexpect).trans (hinner op.power s₂ hs₂)

theorem reaches_extend (g : ExpressionGrammar κ) {inner : Nat → ElementParser κ}
    (hinner : GoesOn inner) (left : Marker κ) {s : Session κ} (hs : s.Ready) :
    s.Reaches (g.extend inner left s).2 := by
  have hbehind := (hinner.behind_open hs left.start (some left.id) 0).1
  unfold extend
  split
  · exact reaches_settle (hbehind.trans (reaches_ternaryOperands hinner (hbehind.ready hs) _)) _ _ _
  · split
    · exact reaches_settle (hinner.behind_open hs left.start (some left.id) _).2 _ _ _
    · split
      · exact reaches_settle hbehind _ _ _
      · exact hs.reaches

theorem reaches_extendWhile (g : ExpressionGrammar κ) {inner : Nat → ElementParser κ}
    (hinner : GoesOn inner) (least rounds : Nat) (left : Marker κ) {s : Session κ} (hs : s.Ready) :
    s.Reaches (g.extendWhile inner least rounds left s).2 := by
  induction rounds generalizing left s with
  | zero => exact hs.reaches
  | succ rounds ih =>
      unfold extendWhile
      split
      · exact hs.reaches
      · split
        · have hextend := hs.reaches_skipTrivia.trans
            (reaches_extend g hinner left hs.skipTrivia)
          split
          · rename_i wider s' hwider
            rw [hwider] at hextend
            exact hextend.trans (ih wider (hextend.ready hs))
          · rename_i s' hnone
            rw [hnone] at hextend
            exact hextend
        · exact hs.reaches

theorem reaches_expressionBody {g : ExpressionGrammar κ} (hatom : AtomGoesOn g)
    {inner : Nat → ElementParser κ} (hinner : GoesOn inner) (least : Nat) {s : Session κ}
    (hs : s.Ready) : s.Reaches (g.expressionBody inner least s).2 := by
  have hoperand : s.Reaches (g.operand inner s).2 := reaches_operand hatom hinner hs
  unfold expressionBody
  split
  · rename_i s' hnone
    rw [hnone] at hoperand
    exact hoperand
  · rename_i left s' hleft
    rw [hleft] at hoperand
    exact hoperand.trans (reaches_extendWhile _ hinner least _ left (hoperand.ready hs))

end GoingOn

/-! ## Operands -/

section Operands

open ExpressionGrammar

/-- A marker that is completed behind its start. -/
theorem complete_fst {s : Session κ} {m : OpenMarker} (kind : κ) (h : m.start ≤ s.cursor) :
    (s.complete m kind).1 = ⟨m.id, m.start, s.cursor, kind, m.precedes⟩ := by
  simp [Session.complete, Nat.max_eq_left h]

/-- An atom is read as a phrase of one token. -/
theorem singleTokenAtom_reads {s : Session κ} (hs : s.Ready) (hcurrent : s.current.isTrivia = false)
    (hkind : s.current.kind ≠ .eof) (inner : Nat → ElementParser κ) :
    ∃ p, (singleTokenAtom atomKind inner s).1 = some p.marker ∧
      Reads ops atomKind s (singleTokenAtom atomKind inner s).2 p ∧
      p.marker.start = s.cursor ∧ p.leftPowers = [] := by
  have hmark : s.mark.2.Ready := ⟨hs.cursor_lt, hs.last_kind⟩
  obtain ⟨_, hadvance⟩ := hmark.advance_eq hkind
  let t : Session κ := { s.mark.2 with cursor := s.cursor + 1 }
  let m : Marker κ := ⟨s.opened, s.cursor, s.cursor + 1, atomKind s.current, none⟩
  have hcomplete : (t.complete s.mark.1 (atomKind s.current)).1 = m :=
    complete_fst _ (Nat.le_succ s.cursor)
  have hread : singleTokenAtom atomKind inner s =
      (some m, (t.complete s.mark.1 (atomKind s.current)).2) := by
    rw [← hcomplete]
    show (some (s.mark.2.advance.complete s.mark.1 _).1, (s.mark.2.advance.complete s.mark.1 _).2) = _
    rw [hadvance]
    rfl
  have hnone : t.Records t [] := .nil rfl (Nat.le_refl _)
  have hrecords : s.Records (t.complete s.mark.1 (atomKind s.current)).2 (m :: ([] ++ [])) := by
    rw [← hcomplete]
    exact (Session.Records.nil rfl (Nat.le_refl _)).complete hnone rfl rfl rfl _
  have htoken : significantBetween s.tokens s.cursor (s.cursor + 1) = [s.current] := by
    rw [significantBetween_succ hs.cursor_lt]
    have hsignificant : (tokenIn s.tokens s.cursor).isTrivia = false := hcurrent
    simp only [List.filter_cons, hsignificant, Bool.not_false, if_true, List.filter_nil]
    rfl
  rw [hread]
  refine ⟨.atom m, rfl, ?_, rfl, rfl⟩
  exact ⟨rfl, by simpa using hrecords, rfl, hcurrent,
    ⟨Nat.lt_succ_self _, s.current, htoken, hkind, rfl⟩, trivial, by simp [Phrase.rightPowers]⟩

/-- An operator in front of its operand is read as such. -/
theorem operand_before_reads {inner : Nat → ElementParser κ}
    (hinner : ReadsPhrases ops atomKind inner) {s : Session κ} (hs : s.Ready)
    (hcurrent : s.current.isTrivia = false) {op : UnaryOperator κ}
    (hop : ops.before? s.current = some op)
    (herrors : ((plainGrammar ops atomKind).operand inner s).2.errors.length = s.errors.length) :
    ∃ p, ((plainGrammar ops atomKind).operand inner s).1 = some p.marker ∧
      Reads ops atomKind s ((plainGrammar ops atomKind).operand inner s).2 p ∧
      p.marker.start = s.cursor ∧ p.leftPowers = [] := by
  have hmark : s.mark.2.Ready := ⟨hs.cursor_lt, hs.last_kind⟩
  have hkind : s.current.kind ≠ .eof :=
    ops.kind_ne_eof_of_before? hop
  obtain ⟨hlt, hadvance⟩ := hmark.advance_eq hkind
  let t : Session κ := { s.mark.2 with cursor := s.cursor + 1 }
  have ht : t.Ready := ⟨hlt, hs.last_kind⟩
  have hread : (plainGrammar ops atomKind).operand inner s =
      settle s.mark.1 op.kind (inner op.power t).1.isSome (inner op.power t).2 := by
    simp only [operand, operators_plainGrammar, hop]
    rw [hadvance]
    rfl
  rw [hread, errors_settle] at herrors
  obtain ⟨x, hfound, hx, hfirst, hleft, hnext⟩ := hinner.reads op.power t ht herrors
  rw [hread]
  generalize inner op.power t = r at hfound hx hnext ⊢
  obtain ⟨found, s'⟩ := r
  obtain rfl : found = some x.marker := hfound
  have hopen := hx.placed.start_lt_stop
  have hstart : s.cursor + 1 ≤ x.marker.start := hfirst.le
  have hstop : s'.cursor = x.marker.stop := hx.stop
  let m : Marker κ := ⟨s.opened, s.cursor, s'.cursor, op.kind, none⟩
  have hcomplete : (s'.complete s.mark.1 op.kind).1 = m :=
    complete_fst _ (by show s.cursor ≤ s'.cursor; omega)
  have hrecords : s.Records (s'.complete s.mark.1 op.kind).2 (m :: ([] ++ x.markers)) := by
    rw [← hcomplete]
    exact (Session.Records.nil rfl (Nat.le_refl _)).complete hx.records rfl rfl rfl _
  have htoken : significantBetween s.tokens s.cursor x.marker.start = [s.current] := by
    have hhere : FirstSignificant s.tokens s.cursor s.cursor :=
      ⟨Nat.le_refl _, hs.cursor_lt, hcurrent, fun k hk hlt' => absurd hlt' (by omega)⟩
    exact hhere.significantBetween_eq hstart (Nat.le_of_lt hfirst.lt_size) hfirst.trivia
  refine ⟨.before m op x, congrArg some hcomplete, ?_, rfl, rfl⟩
  refine ⟨hx.tokens, ?_, rfl, ?_, ?_, ⟨hleft, hx.ranked⟩, ?_⟩
  · rw [Phrase.markers_before]
    exact hrecords
  · show (tokenIn s.tokens (s'.cursor - 1)).isTrivia = false
    rw [hstop]
    exact hx.last
  · exact ⟨hstart, hstop, rfl, ⟨s.current, htoken, hop⟩, hx.placed⟩
  · exact hx.reach_cons hnext

end Operands

/-! ## Operators behind an operand -/

section Extending

open ExpressionGrammar

/-- The session behind an operator that continues an expression, with the marker of the
operator open. -/
def behindOperator (s : Session κ) (left : Marker κ) : Session κ :=
  (s.skipTrivia.precede left).2.advance

theorem behindOperator_ready {s : Session κ} (hs : s.Ready) (left : Marker κ)
    (hkind : s.skipTrivia.current.kind ≠ .eof) :
    (behindOperator s left).Ready ∧ (behindOperator s left).tokens = s.tokens ∧
      (behindOperator s left).cursor = s.skipTrivia.cursor + 1 ∧
      (behindOperator s left).opened = s.opened + 1 ∧
      (behindOperator s left).completed = s.completed ∧
      (behindOperator s left).errors = s.errors := by
  have hopen : (s.skipTrivia.precede left).2.Ready := ⟨hs.skipTrivia.cursor_lt, hs.last_kind⟩
  obtain ⟨hlt, hadvance⟩ := hopen.advance_eq hkind
  rw [behindOperator, hadvance]
  exact ⟨⟨hlt, hs.last_kind⟩, rfl, rfl, rfl, rfl, rfl⟩

/-- Completing the marker of an operator wraps what was in front of it. -/
theorem Reads.complete_wrapper {s₀ s s' : Session κ} {p : Phrase κ}
    (h : Reads ops atomKind s₀ s p) (hs : s.Ready) (hkind : s.skipTrivia.current.kind ≠ .eof)
    {ns : List (Marker κ)} (hrecords : (behindOperator s p.marker).Records s' ns) (kind : κ)
    (hcursor : p.marker.start ≤ s'.cursor) :
    let m := (s.skipTrivia.precede p.marker).1
    (s'.complete m kind).1 = ⟨s.opened, p.marker.start, s'.cursor, kind, some p.marker.id⟩ ∧
      s₀.Records (s'.complete m kind).2
        (⟨s.opened, p.marker.start, s'.cursor, kind, some p.marker.id⟩ :: (p.markers ++ ns)) := by
  intro m
  obtain ⟨_, _, _, hopened, hcompleted, _⟩ := behindOperator_ready hs p.marker hkind
  have hcomplete : (s'.complete m kind).1 =
      ⟨s.opened, p.marker.start, s'.cursor, kind, some p.marker.id⟩ := complete_fst _ hcursor
  refine ⟨hcomplete, ?_⟩
  rw [← hcomplete]
  exact h.records.complete hrecords hopened hcompleted rfl kind

/-- Behind a phrase and its trivia, up to what follows the next significant token, there is
nothing but that token to see. -/
theorem Reads.significantBetween_operator {s₀ s : Session κ} {p : Phrase κ}
    (h : Reads ops atomKind s₀ s p) (hs : s.Ready) {k : Nat} (hk : s.skipTrivia.cursor + 1 ≤ k)
    (hsize : k ≤ s.tokens.size)
    (htrivia : ∀ n, s.skipTrivia.cursor + 1 ≤ n → n < k → (tokenIn s.tokens n).isTrivia = true) :
    significantBetween s₀.tokens p.marker.stop k = [s.skipTrivia.current] := by
  rw [← h.tokens, ← h.stop]
  exact hs.skipTrivia_first.significantBetween_eq hk hsize htrivia

/-- What it takes to continue a phrase: unless an error is reported, a wider phrase is read from
the same start on, with one more operator on its left edge. -/
def Extends (ops : Operators κ) (atomKind : Token → κ) (s₀ s : Session κ) (p : Phrase κ)
    (power : Nat) (r : Option (Marker κ) × Session κ) : Prop :=
  r.2.errors.length = s.errors.length →
    ∃ p', r.1 = some p'.marker ∧ Reads ops atomKind s₀ r.2 p' ∧
      p'.marker.start = p.marker.start ∧ p'.leftPowers = power :: p.leftPowers ∧
      s.cursor < r.2.cursor

/-- An operator behind its operand is read as such. -/
theorem extend_after {inner : Nat → ElementParser κ} {s₀ s : Session κ} {p : Phrase κ}
    (h : Reads ops atomKind s₀ s p) (hs : s.Ready) {op : UnaryOperator κ}
    (hternary : ops.ternary? s.skipTrivia.current = none)
    (hbetween : ops.between? s.skipTrivia.current = none)
    (hafter : ops.after? s.skipTrivia.current = some op)
    (hreach : ∀ q ∈ p.rightPowers, op.power < q) :
    Extends ops atomKind s₀ s p op.power
      ((plainGrammar ops atomKind).extend inner p.marker s.skipTrivia) := by
  have hkind : s.skipTrivia.current.kind ≠ .eof :=
    ops.kind_ne_eof_of_after? hafter
  obtain ⟨_, htokens, hcursor, _, _, _⟩ := behindOperator_ready hs p.marker hkind
  have hfirst := hs.skipTrivia_first
  have hopen := h.placed.start_lt_stop
  have hstop := h.stop
  have hle := hfirst.le
  have hread : (plainGrammar ops atomKind).extend inner p.marker s.skipTrivia =
      settle (s.skipTrivia.precede p.marker).1 op.kind true (behindOperator s p.marker) := by
    simp only [extend, operators_plainGrammar, hternary, hbetween, hafter]
    rfl
  have hnone : (behindOperator s p.marker).Records (behindOperator s p.marker) [] :=
    .nil rfl (Nat.le_refl _)
  obtain ⟨hmarker, hrecords⟩ := h.complete_wrapper hs hkind hnone op.kind (by omega)
  have htoken := h.significantBetween_operator hs (Nat.le_refl _) hfirst.lt_size
    (fun k hk hlt => absurd hlt (by omega))
  rw [hread]
  intro _
  refine ⟨.after ⟨s.opened, p.marker.start, (behindOperator s p.marker).cursor, op.kind,
    some p.marker.id⟩ op p, congrArg some hmarker, ?_, rfl, rfl, ?_⟩
  · refine ⟨htokens.trans h.tokens, ?_, rfl, ?_, ?_, ⟨hreach, h.ranked⟩, by
      simp [Phrase.rightPowers]⟩
    · rw [Phrase.markers_after]
      rwa [List.append_nil] at hrecords
    · show (tokenIn s₀.tokens ((behindOperator s p.marker).cursor - 1)).isTrivia = false
      rw [hcursor, Nat.add_sub_cancel, ← h.tokens]
      exact hfirst.significant
    · refine ⟨rfl, ?_, rfl, ⟨s.skipTrivia.current, ?_, hafter⟩, h.placed⟩
      · show p.marker.stop < (behindOperator s p.marker).cursor
        omega
      · show significantBetween s₀.tokens p.marker.stop (behindOperator s p.marker).cursor = _
        rw [hcursor]
        exact htoken
  · show s.cursor < (behindOperator s p.marker).cursor
    omega

/-- An operator between two operands is read as such. -/
theorem extend_between {inner : Nat → ElementParser κ} (hinner : ReadsPhrases ops atomKind inner)
    {s₀ s : Session κ} {p : Phrase κ} (h : Reads ops atomKind s₀ s p) (hs : s.Ready)
    {op : BinaryOperator κ} (hternary : ops.ternary? s.skipTrivia.current = none)
    (hbetween : ops.between? s.skipTrivia.current = some op)
    (hreach : ∀ q ∈ p.rightPowers, op.power < q) :
    Extends ops atomKind s₀ s p op.power
      ((plainGrammar ops atomKind).extend inner p.marker s.skipTrivia) := by
  have hkind : s.skipTrivia.current.kind ≠ .eof :=
    ops.kind_ne_eof_of_between? hbetween
  obtain ⟨hready, htokens, hcursor, _, _, herrors⟩ := behindOperator_ready hs p.marker hkind
  have hopen := h.placed.start_lt_stop
  have hstop := h.stop
  have hle := hs.skipTrivia_first.le
  have hread : (plainGrammar ops atomKind).extend inner p.marker s.skipTrivia =
      settle (s.skipTrivia.precede p.marker).1 op.kind
        (inner op.rightPower (behindOperator s p.marker)).1.isSome
        (inner op.rightPower (behindOperator s p.marker)).2 := by
    simp only [extend, operators_plainGrammar, hternary, hbetween]
    rfl
  rw [hread, Extends, errors_settle, ← herrors]
  intro hsame
  obtain ⟨y, hfound, hy, hfirst, hleft, hnext⟩ := hinner.reads op.rightPower _ hready hsame
  generalize inner op.rightPower (behindOperator s p.marker) = r at hfound hy hnext ⊢
  obtain ⟨found, s'⟩ := r
  obtain rfl : found = some y.marker := hfound
  have hstop' : s'.cursor = y.marker.stop := hy.stop
  have hopen' := hy.placed.start_lt_stop
  have hstart := hfirst.le
  rw [hcursor] at hstart
  obtain ⟨hmarker, hrecords⟩ := h.complete_wrapper hs hkind hy.records op.kind (by
    show p.marker.start ≤ s'.cursor
    omega)
  rw [hcursor, htokens] at hfirst
  have htoken := h.significantBetween_operator hs hfirst.le (Nat.le_of_lt hfirst.lt_size)
    hfirst.trivia
  have hsource : (behindOperator s p.marker).tokens = s₀.tokens := htokens.trans h.tokens
  refine ⟨.between ⟨s.opened, p.marker.start, s'.cursor, op.kind, some p.marker.id⟩ op p y,
    congrArg some hmarker, ?_, rfl, rfl, ?_⟩
  · refine ⟨hy.tokens.trans hsource, ?_, rfl, ?_, ?_, ⟨hreach, hleft, h.ranked, hy.ranked⟩, ?_⟩
    · rw [Phrase.markers_between]
      exact hrecords
    · show (tokenIn s₀.tokens (s'.cursor - 1)).isTrivia = false
      rw [hstop', ← hsource]
      exact hy.last
    · exact ⟨rfl, by omega, hstop', rfl, ⟨s.skipTrivia.current, htoken, hbetween⟩, h.placed,
        hsource ▸ hy.placed⟩
    · exact hy.reach_cons hnext
  · show s.cursor < s'.cursor
    omega

/-- Unless an error is reported, an expected text is there, and the session is behind it. -/
theorem expect_text {s : Session κ} (hs : s.Ready) {text : String}
    (herrors : (s.expect (.text text)).2.errors.length = s.errors.length) :
    s.skipTrivia.current.kind ≠ .eof ∧ s.skipTrivia.current.text = text ∧
      s.expect (.text text) = (true, { s with cursor := s.skipTrivia.cursor + 1 }) := by
  by_cases hholds : (Expectation.text text).holds s.skipTrivia.current = true
  · have hboth : Expectation.hasOwnText s.skipTrivia.current = true ∧
        s.skipTrivia.current.text = text := by
      simpa [Expectation.holds] using hholds
    have hkind : s.skipTrivia.current.kind ≠ .eof := by
      intro hkind
      have hown := hboth.1
      simp [Expectation.hasOwnText, hkind] at hown
    obtain ⟨_, hadvance⟩ := hs.skipTrivia.advance_eq hkind
    refine ⟨hkind, hboth.2, ?_⟩
    simp only [Session.expect, Session.eat, hholds, if_true, hadvance]
    rfl
  · have hexpect : s.expect (.text text) =
        (false, s.skipTrivia.error ("expected " ++ (Expectation.text text).display)) := by
      simp only [Session.expect, Session.eat, hholds, if_false, Bool.false_eq_true]
    have hgrows := (hs.reaches_skipTrivia.error
      ("expected " ++ (Expectation.text text).display)).2
    rw [hexpect] at herrors
    exact absurd herrors (Nat.ne_of_gt hgrows)

/-- The two operands behind the opener of a ternary operator, with the separator between them,
and the sessions between which each of them is read. -/
structure TernaryRest (ops : Operators κ) (atomKind : Token → κ) (op : TernaryOperator κ)
    (s s' : Session κ) (y z : Phrase κ) : Prop where
  records : s.Records s' (y.markers ++ z.markers)
  first : FirstSignificant s.tokens s.cursor y.marker.start
  second_placed : y.Placed ops atomKind s.tokens
  second_ranked : y.Ranked
  gap : y.marker.stop < z.marker.start
  separator : ∃ t, significantBetween s.tokens y.marker.stop z.marker.start = [t] ∧
    t.kind ≠ .eof ∧ t.text = op.separator
  third : ∃ s₁, s₁.tokens = s.tokens ∧ Reads ops atomKind s₁ s' z
  third_powers : ∀ q ∈ z.leftPowers, op.power ≤ q
  next : ∀ power, ops.continuingPower? (s'.nth 0) = some power → power < op.power

theorem ternaryOperands_reads {inner : Nat → ElementParser κ}
    (hinner : ReadsPhrases ops atomKind inner) {s : Session κ} (hs : s.Ready)
    {op : TernaryOperator κ}
    (herrors : (ternaryOperands op inner s).2.errors.length = s.errors.length) :
    (ternaryOperands op inner s).1 = true ∧
      ∃ y z, TernaryRest ops atomKind op s (ternaryOperands op inner s).2 y z := by
  have hreaches₁ := hinner.goes_on 0 s hs
  have hreads₁ := hinner.reads 0 s hs
  unfold ternaryOperands at herrors ⊢
  generalize inner 0 s = r₁ at hreaches₁ hreads₁ herrors ⊢
  obtain ⟨found₁, s₁⟩ := r₁
  have hs₁ : s₁.Ready := hreaches₁.ready hs
  cases found₁ with
  | none =>
      obtain ⟨y, hfound, _⟩ := hreads₁ herrors
      cases hfound
  | some m₁ =>
      have hreaches₂ := reaches_expect hs₁ (.text op.separator)
      have hexpect := fun h => expect_text hs₁ (h :
        (s₁.expect (.text op.separator)).2.errors.length = s₁.errors.length)
      simp only at herrors ⊢
      generalize s₁.expect (.text op.separator) = r₂ at hreaches₂ hexpect herrors ⊢
      obtain ⟨present, s₂⟩ := r₂
      have hs₂ : s₂.Ready := hreaches₂.ready hs₁
      have hle : s.errors.length ≤ s₁.errors.length := hreaches₁.errors
      have hle' : s₁.errors.length ≤ s₂.errors.length := hreaches₂.errors
      cases present with
      | false =>
          have hsame : s₂.errors.length = s.errors.length := herrors
          obtain ⟨_, _, heq⟩ := hexpect (by simp only; omega)
          cases heq
      | true =>
          have hle'' := (hinner.goes_on op.power s₂ hs₂).errors
          have hsame : (inner op.power s₂).2.errors.length = s.errors.length := herrors
          obtain ⟨y, _, hy, hfirst, _, _⟩ := hreads₁ (by simp only; omega)
          obtain ⟨hkind, htext, heq⟩ := hexpect (by simp only; omega)
          obtain ⟨z, hfound, hz, hfirst', hleft, hnext⟩ := hinner.reads op.power s₂ hs₂ (by omega)
          cases heq
          have htokens : s₁.tokens = s.tokens := hy.tokens
          have hstop : s₁.cursor = y.marker.stop := hy.stop
          have hgap : s₁.cursor ≤ s₁.skipTrivia.cursor := hs₁.skipTrivia_first.le
          have hstart : s₁.skipTrivia.cursor + 1 ≤ z.marker.start := hfirst'.le
          have hseparator : significantBetween s.tokens y.marker.stop z.marker.start =
              [s₁.skipTrivia.current] := by
            rw [← htokens, ← hstop]
            exact hs₁.skipTrivia_first.significantBetween_eq hstart (Nat.le_of_lt hfirst'.lt_size)
              hfirst'.trivia
          refine ⟨by simp only [hfound, Option.isSome_some], y, z, ?_⟩
          exact {
            records := hy.records.append (hz.records.weaken (Nat.le_refl _) rfl)
            first := hfirst
            second_placed := hy.placed
            second_ranked := hy.ranked
            gap := by omega
            separator := ⟨s₁.skipTrivia.current, hseparator, hkind, htext⟩
            third := ⟨{ s₁ with cursor := s₁.skipTrivia.cursor + 1 }, htokens, hz⟩
            third_powers := hleft
            next := hnext }

/-- A ternary operator is read as such. -/
theorem extend_ternary {inner : Nat → ElementParser κ} (hinner : ReadsPhrases ops atomKind inner)
    {s₀ s : Session κ} {p : Phrase κ} (h : Reads ops atomKind s₀ s p) (hs : s.Ready)
    {op : TernaryOperator κ} (hternary : ops.ternary? s.skipTrivia.current = some op)
    (hreach : ∀ q ∈ p.rightPowers, op.power < q) :
    Extends ops atomKind s₀ s p op.power
      ((plainGrammar ops atomKind).extend inner p.marker s.skipTrivia) := by
  have hkind : s.skipTrivia.current.kind ≠ .eof :=
    ops.kind_ne_eof_of_ternary? hternary
  obtain ⟨hready, htokens, hcursor, _, _, herrors⟩ := behindOperator_ready hs p.marker hkind
  have hopen := h.placed.start_lt_stop
  have hstop := h.stop
  have hle := hs.skipTrivia_first.le
  have hread : (plainGrammar ops atomKind).extend inner p.marker s.skipTrivia =
      settle (s.skipTrivia.precede p.marker).1 op.kind
        (ternaryOperands op inner (behindOperator s p.marker)).1
        (ternaryOperands op inner (behindOperator s p.marker)).2 := by
    simp only [extend, operators_plainGrammar, hternary]
    rfl
  rw [hread, Extends, errors_settle, ← herrors]
  intro hsame
  obtain ⟨hfound, y, z, hrest⟩ := ternaryOperands_reads hinner hready hsame
  generalize ternaryOperands op inner (behindOperator s p.marker) = r at hfound hrest ⊢
  obtain ⟨found, s'⟩ := r
  obtain rfl : found = true := hfound
  obtain ⟨s₁, hsame₁, hz⟩ := hrest.third
  have hsource : (behindOperator s p.marker).tokens = s₀.tokens := htokens.trans h.tokens
  have hsource₁ : s₁.tokens = s₀.tokens := hsame₁.trans hsource
  have hstop' : s'.cursor = z.marker.stop := hz.stop
  have hopeny := hrest.second_placed.start_lt_stop
  have hopenz := hz.placed.start_lt_stop
  have hgap := hrest.gap
  have hfirst := hrest.first
  rw [hcursor, htokens] at hfirst
  have hstart := hfirst.le
  obtain ⟨hmarker, hrecords⟩ := h.complete_wrapper hs hkind hrest.records op.kind (by
    show p.marker.start ≤ s'.cursor
    omega)
  have hopener := h.significantBetween_operator hs hfirst.le (Nat.le_of_lt hfirst.lt_size)
    hfirst.trivia
  refine ⟨.ternary ⟨s.opened, p.marker.start, s'.cursor, op.kind, some p.marker.id⟩ op p y z,
    congrArg some hmarker, ?_, rfl, rfl, ?_⟩
  · refine ⟨hz.tokens.trans hsource₁, ?_, rfl, ?_, ?_,
      ⟨hreach, hrest.third_powers, h.ranked, hrest.second_ranked, hz.ranked⟩, ?_⟩
    · rw [Phrase.markers_ternary]
      exact hrecords
    · show (tokenIn s₀.tokens (s'.cursor - 1)).isTrivia = false
      rw [hstop', ← hsource₁]
      exact hz.last
    · exact ⟨rfl, by omega, hgap, hstop', rfl, ⟨s.skipTrivia.current, hopener, hternary⟩,
        hsource ▸ hrest.separator, h.placed, hsource ▸ hrest.second_placed, hsource₁ ▸ hz.placed⟩
    · exact hz.reach_cons hrest.next
  · show s.cursor < s'.cursor
    omega

/-- **An operator that continues an expression widens the phrase.** -/
theorem extend_reads {inner : Nat → ElementParser κ} (hinner : ReadsPhrases ops atomKind inner)
    {s₀ s : Session κ} {p : Phrase κ} (h : Reads ops atomKind s₀ s p) (hs : s.Ready) {power : Nat}
    (hpower : ops.continuingPower? (s.nth 0) = some power) :
    Extends ops atomKind s₀ s p power
      ((plainGrammar ops atomKind).extend inner p.marker s.skipTrivia) := by
  have hreach := h.reach power hpower
  rw [hs.nth_zero] at hpower
  cases hternary : ops.ternary? s.skipTrivia.current with
  | some op =>
      obtain rfl : op.power = power := by simpa [Operators.continuingPower?, hternary] using hpower
      exact extend_ternary hinner h hs hternary hreach
  | none =>
      cases hbetween : ops.between? s.skipTrivia.current with
      | some op =>
          obtain rfl : op.power = power := by
            simpa [Operators.continuingPower?, hternary, hbetween] using hpower
          exact extend_between hinner h hs hternary hbetween hreach
      | none =>
          cases hafter : ops.after? s.skipTrivia.current with
          | some op =>
              obtain rfl : op.power = power := by
                simpa [Operators.continuingPower?, hternary, hbetween, hafter] using hpower
              exact extend_after h hs hternary hbetween hafter hreach
          | none => simp [Operators.continuingPower?, hternary, hbetween, hafter] at hpower

end Extending

/-! ## Whole expressions -/

section Expressions

open ExpressionGrammar

/-- A row of operators on one level: each round widens the phrase, and what ends the row is an
operator that binds too loosely, or none.  The tokens that are left bound the rounds. -/
theorem extendWhile_reads {inner : Nat → ElementParser κ}
    (hinner : ReadsPhrases ops atomKind inner) {least : Nat} {s₀ : Session κ} {rounds : Nat}
    {s : Session κ} {p : Phrase κ} (h : Reads ops atomKind s₀ s p) (hs : s.Ready)
    (hrounds : s.remaining ≤ rounds) (hleast : ∀ q ∈ p.leftPowers, least ≤ q)
    {r : Marker κ × Session κ}
    (hr : (plainGrammar ops atomKind).extendWhile inner least rounds p.marker s = r)
    (herrors : r.2.errors.length = s.errors.length) :
    ∃ p', r.1 = p'.marker ∧ Reads ops atomKind s₀ r.2 p' ∧
      p'.marker.start = p.marker.start ∧ (∀ q ∈ p'.leftPowers, least ≤ q) ∧
      ∀ power, ops.continuingPower? (r.2.nth 0) = some power → power < least := by
  induction rounds generalizing s p with
  | zero =>
      have hlt := hs.cursor_lt
      simp only [Session.remaining] at hrounds
      omega
  | succ rounds ih =>
      simp only [extendWhile, operators_plainGrammar] at hr
      cases hpower : ops.continuingPower? (s.nth 0) with
      | none =>
          simp only [hpower] at hr
          subst hr
          refine ⟨p, rfl, h, rfl, hleast, ?_⟩
          intro power hnext
          rw [hpower] at hnext
          cases hnext
      | some power =>
          simp only [hpower] at hr
          by_cases hle : least ≤ power
          · have hreaches := hs.reaches_skipTrivia.trans
              (reaches_extend (plainGrammar ops atomKind) hinner.goes_on p.marker hs.skipTrivia)
            have hextends := extend_reads hinner h hs hpower
            simp only [hle, if_true] at hr
            generalize (plainGrammar ops atomKind).extend inner p.marker s.skipTrivia = e
              at hreaches hextends hr
            obtain ⟨found, s'⟩ := e
            have hs' : s'.Ready := hreaches.ready hs
            cases found with
            | none =>
                subst hr
                obtain ⟨p', hfound, _⟩ := hextends herrors
                cases hfound
            | some m =>
                have hgrows : s.errors.length ≤ s'.errors.length := hreaches.errors
                have hgrows' : s'.errors.length ≤ r.2.errors.length := by
                  rw [← hr]
                  exact (reaches_extendWhile (plainGrammar ops atomKind) hinner.goes_on least rounds m
                    hs').errors
                have hsame : s'.errors.length = s.errors.length := by omega
                obtain ⟨p', hfound, hp', hstart, hpowers, hcursor⟩ := hextends hsame
                cases hfound
                have htokens : s'.tokens = s.tokens := hreaches.tokens
                have hfewer : s'.remaining ≤ rounds := by
                  have hlt : s.cursor < s'.cursor := hcursor
                  simp only [Session.remaining, htokens] at hrounds ⊢
                  omega
                have hleast' : ∀ q ∈ p'.leftPowers, least ≤ q := by
                  rw [hpowers]
                  intro q hq
                  rcases List.mem_cons.mp hq with rfl | hq
                  · exact hle
                  · exact hleast q hq
                obtain ⟨p'', hmarker, hp'', hstart', hrest⟩ :=
                  ih hp' hs' hfewer hleast' hr (herrors.trans hsame.symm)
                exact ⟨p'', hmarker, hp'', hstart'.trans hstart, hrest⟩
          · simp only [hle, if_false] at hr
            subst hr
            refine ⟨p, rfl, h, rfl, hleast, ?_⟩
            intro power' hnext
            rw [hpower] at hnext
            cases hnext
            omega

/-- An operand is read as a phrase without operators on its left edge. -/
theorem operand_reads {inner : Nat → ElementParser κ} (hinner : ReadsPhrases ops atomKind inner)
    {s : Session κ} (hs : s.Ready) (hcurrent : s.current.isTrivia = false)
    (hkind : s.current.kind ≠ .eof)
    (herrors : ((plainGrammar ops atomKind).operand inner s).2.errors.length = s.errors.length) :
    ∃ p, ((plainGrammar ops atomKind).operand inner s).1 = some p.marker ∧
      Reads ops atomKind s ((plainGrammar ops atomKind).operand inner s).2 p ∧
      p.marker.start = s.cursor ∧ p.leftPowers = [] := by
  cases hbefore : ops.before? s.current with
  | some op => exact operand_before_reads hinner hs hcurrent hbefore herrors
  | none =>
      have hread : (plainGrammar ops atomKind).operand inner s =
          singleTokenAtom atomKind inner s := by
        simp only [operand, operators_plainGrammar, hbefore]
        rfl
      rw [hread]
      exact singleTokenAtom_reads hs hcurrent hkind inner

/-- The body of an expression is an operand and a row of operators. -/
theorem expressionBody_reads {inner : Nat → ElementParser κ}
    (hinner : ReadsPhrases ops atomKind inner) {least : Nat} {s : Session κ} (hs : s.Ready)
    (hcurrent : s.current.isTrivia = false) (hkind : s.current.kind ≠ .eof)
    {r : Option (Marker κ) × Session κ}
    (hr : (plainGrammar ops atomKind).expressionBody inner least s = r)
    (herrors : r.2.errors.length = s.errors.length) :
    ∃ p, r.1 = some p.marker ∧ Reads ops atomKind s r.2 p ∧ p.marker.start = s.cursor ∧
      (∀ q ∈ p.leftPowers, least ≤ q) ∧
      ∀ power, ops.continuingPower? (r.2.nth 0) = some power → power < least := by
  have hreaches : s.Reaches ((plainGrammar ops atomKind).operand inner s).2 :=
    reaches_operand (atomGoesOn_plainGrammar ops atomKind) hinner.goes_on hs
  have hreads := operand_reads hinner hs hcurrent hkind
  unfold expressionBody at hr
  generalize (plainGrammar ops atomKind).operand inner s = e at hreaches hreads hr
  obtain ⟨found, s'⟩ := e
  have hs' : s'.Ready := hreaches.ready hs
  cases found with
  | none =>
      subst hr
      obtain ⟨p, hfound, _⟩ := hreads herrors
      cases hfound
  | some left =>
      subst hr
      have hgrows : s.errors.length ≤ s'.errors.length := hreaches.errors
      have hgrows' := (reaches_extendWhile (plainGrammar ops atomKind) hinner.goes_on least
        s'.remaining left hs').errors
      have hsame : s'.errors.length = s.errors.length := Nat.le_antisymm (herrors ▸ hgrows') hgrows
      obtain ⟨p, hfound, hp, hstart, hpowers⟩ := hreads hsame
      cases hfound
      obtain ⟨p', hmarker, hp', hstart', hrest⟩ := extendWhile_reads hinner hp hs' (Nat.le_refl _)
        (by simp [hpowers]) rfl (herrors.trans hsame.symm)
      exact ⟨p', congrArg some hmarker, hp', hstart'.trans hstart, hrest⟩

/-- Reading an expression reports an error at once, or reads its body one level deeper. -/
theorem expressionAt_cases (g : ExpressionGrammar κ) (levels least : Nat) (s : Session κ) :
    (∃ message, g.expressionAt levels least s = (none, s.skipTrivia.error message)) ∨
      ∃ n, levels = n + 1 ∧ s.skipTrivia.current.kind ≠ .eof ∧
        (g.startingPower? s.skipTrivia.current).isSome = true ∧
        g.expressionAt levels least s =
          ((g.expressionBody (g.expressionAt n) least
              { s.skipTrivia with depth := s.skipTrivia.depth + 1 }).1,
            (g.expressionBody (g.expressionAt n) least
              { s.skipTrivia with depth := s.skipTrivia.depth + 1 }).2.exitExpression) := by
  unfold expressionAt
  by_cases hline : Session.endsLine s.skipTrivia.current = true
  · simp only [hline, if_true]
    exact Or.inl ⟨_, rfl⟩
  · by_cases hstart : (g.startingPower? s.skipTrivia.current).isNone = true
    · simp only [hline, hstart, if_true, if_false, Bool.false_eq_true]
      exact Or.inl ⟨_, rfl⟩
    · simp only [hline, hstart, if_false, Bool.false_eq_true]
      cases levels with
      | zero => exact Or.inl ⟨_, rfl⟩
      | succ n =>
          refine Or.inr ⟨n, rfl, ?_, ?_, rfl⟩
          · intro hkind
            simp [Session.endsLine, hkind] at hline
          · simpa [Option.isSome_iff_ne_none] using hstart

/-- Beyond the last token there is no expression to read, so without an error the session was at
one of its tokens. -/
theorem ready_of_expressionAt {g : ExpressionGrammar κ} {levels least : Nat} {s : Session κ}
    (hlast : (tokenIn s.tokens (s.tokens.size - 1)).kind = .eof)
    (herrors : (g.expressionAt levels least s).2.errors = s.errors) : s.Ready := by
  refine ⟨?_, hlast⟩
  by_contra hcursor
  rcases expressionAt_cases g levels least s with ⟨message, heq⟩ | ⟨n, _, hkind, _, _⟩
  · rw [heq] at herrors
    exact List.cons_ne_nil _ _ (List.append_right_eq_self.mp herrors)
  · have hremaining : s.remaining = 0 := by
      rw [Session.remaining]
      omega
    have hskip : s.skipTrivia = s := by
      rw [Session.skipTrivia, Session.advanceTo, hremaining, Session.seek]
    have hsize : s.tokens.size ≤ s.cursor := Nat.le_of_not_lt hcursor
    rw [hskip, Session.current, Session.tokenAt, Array.getD_eq_getD_getElem?,
      Array.getElem?_eq_none hsize] at hkind
    exact hkind rfl

theorem goesOn_expressionAt {g : ExpressionGrammar κ} (hatom : AtomGoesOn g) (levels : Nat) :
    GoesOn (g.expressionAt levels) := by
  induction levels using Nat.strong_induction_on with
  | _ levels ih =>
      intro least s hs
      rcases expressionAt_cases g levels least s with ⟨message, heq⟩ | ⟨n, rfl, _, _, heq⟩
      · rw [heq]
        exact (hs.reaches_skipTrivia.error message).1
      · have hdeeper : Session.Ready { s.skipTrivia with depth := s.skipTrivia.depth + 1 } :=
          ⟨hs.skipTrivia.cursor_lt, hs.last_kind⟩
        have hbody := reaches_expressionBody hatom (ih n (Nat.lt_succ_self n)) least hdeeper
        rw [heq]
        exact ⟨hbody.tokens, hbody.cursor_lt, hbody.errors⟩

theorem reaches_expressionAt (ops : Operators κ) (atomKind : Token → κ) (levels : Nat) :
    GoesOn ((plainGrammar ops atomKind).expressionAt levels) :=
  goesOn_expressionAt (atomGoesOn_plainGrammar ops atomKind) levels

/-- **Expressions are read as ranked phrases**, however deep they may nest. -/
theorem expressionAt_reads (ops : Operators κ) (atomKind : Token → κ) (levels : Nat) :
    ReadsPhrases ops atomKind ((plainGrammar ops atomKind).expressionAt levels) := by
  induction levels using Nat.strong_induction_on with
  | _ levels ih =>
      refine ⟨reaches_expressionAt ops atomKind levels, ?_⟩
      intro least s hs herrors
      rcases expressionAt_cases (plainGrammar ops atomKind) levels least s with
        ⟨message, heq⟩ | ⟨n, rfl, hkind, _, heq⟩
      · rw [heq] at herrors
        exact absurd herrors (Nat.ne_of_gt (hs.reaches_skipTrivia.error message).2)
      · have hfirst := hs.skipTrivia_first
        have hdeeper : Session.Ready { s.skipTrivia with depth := s.skipTrivia.depth + 1 } :=
          ⟨hs.skipTrivia.cursor_lt, hs.last_kind⟩
        rw [heq] at herrors ⊢
        obtain ⟨p, hfound, hp, hstart, hleast, hnext⟩ :=
          expressionBody_reads (ih n (Nat.lt_succ_self n)) hdeeper hfirst.significant hkind rfl
            herrors
        refine ⟨p, hfound, hp.congr rfl rfl rfl rfl rfl rfl rfl, ?_, hleast, hnext⟩
        rw [hstart]
        exact hfirst

end Expressions

end Lossless
