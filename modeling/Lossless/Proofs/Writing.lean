import Lossless.Proofs.Atoms
import Lossless.Proofs.Completeness

/-!
# Expressions as they are written

A `Term` is an expression as such: atoms, and operators with their operands.  To write it
down, brackets are put around some of its operands; `Written` is an expression together with
these brackets, and `Written.print` is its text, with one blank between any two tokens.

Brackets may be left out where the operators of the language group the operands in the same
way without them: around an operand whose operator binds tighter than the one it belongs to, or
as tightly if it stands on the side to which operators of this power group
(`Written.Bracketed`).  Then **the operators on the edges of an operand are of no harm either**
(`Bracketed.ranked`), and these are the ones that a parser meets.
-/

namespace Lossless

namespace Calculator

open Operators

/-! ## Expressions and their texts -/

/-- An atom: a name, a number, a character or a truth value. -/
structure Atom where
  token : Lexeme
  kind : Kind
  isAtom : IsAtom token kind

/-- An operator in front of its operand, with its text. -/
abbrev OperatorBefore := { entry : String × UnaryOperator Kind // entry ∈ operators.before }

/-- An operator between two operands, with its text. -/
abbrev OperatorBetween := { entry : String × BinaryOperator Kind // entry ∈ operators.between }

/-- An expression: kinds, operands in order, and the texts of the atoms. -/
inductive Term where
  | atom (kind : Kind) (text : String)
  | before (kind : Kind) (operand : Term)
  | between (kind : Kind) (left right : Term)
  | choice (kind : Kind) (first second third : Term)
deriving DecidableEq, Repr

/-- An expression with brackets around some of its operands. -/
inductive Written where
  | atom (a : Atom)
  | group (inner : Written)
  | before (op : OperatorBefore) (operand : Written)
  | between (op : OperatorBetween) (left right : Written)
  | choice (first second third : Written)

/-- The token of an operator. -/
def operatorToken (text : String) : Lexeme := ⟨.operator, text.toList⟩

/-- The token of a bracket. -/
def bracketToken (text : String) : Lexeme := ⟨.punctuation, text.toList⟩

namespace Written

/-- The expression without its brackets. -/
def term : Written → Term
  | atom a => .atom a.kind (String.ofList a.token.text)
  | group x => x.term
  | before op x => .before op.1.2.kind x.term
  | between op x y => .between op.1.2.kind x.term y.term
  | choice x y z => .choice .cond x.term y.term z.term

/-- The tokens of an expression. -/
def lexemes : Written → List Lexeme
  | atom a => [a.token]
  | group x => bracketToken "(" :: (x.lexemes ++ [bracketToken ")"])
  | before op x => operatorToken op.1.1 :: x.lexemes
  | between op x y => x.lexemes ++ operatorToken op.1.1 :: y.lexemes
  | choice x y z =>
    x.lexemes ++ operatorToken "?" :: (y.lexemes ++ operatorToken ":" :: z.lexemes)

/-- The text of an expression, with one blank between any two tokens. -/
def print (w : Written) : String :=
  " ".intercalate (w.lexemes.map fun l => String.ofList l.text)

/-- How many expressions are open inside one another where most are.  Behind an operator and
behind a bracket another one is opened; what an operator has in front of it is not. -/
def depth : Written → Nat
  | atom _ => 1
  | group x => x.depth + 1
  | before _ x => x.depth + 1
  | between _ x y => max x.depth (y.depth + 1)
  | choice x y z => max x.depth (max (y.depth + 1) (z.depth + 1))

theorem depth_pos (w : Written) : 0 < w.depth := by
  induction w <;> simp only [depth] <;> omega

/-! ## Brackets that cannot be left out -/

/-- The power of an operator that stands between operands of an expression, outside of all
brackets, and how operators of this power group. -/
def level? : Written → Option (Nat × Associativity)
  | atom _ | group _ | before _ _ => none
  | between op _ _ => some (op.1.2.power, op.1.2.associativity)
  | choice _ _ _ => some (Precedence.ternary.power, .right)

/-- An operand may stand without brackets on one side of an operator: its own operator binds
tighter, or as tightly on the side to which the operator groups. -/
def Stands (power : Nat) (associativity side : Associativity) (x : Written) : Prop :=
  ∀ level ∈ x.level?, power < level.1 ∨ power = level.1 ∧ associativity = side

instance (power : Nat) (associativity side : Associativity) (x : Written) :
    Decidable (x.Stands power associativity side) :=
  inferInstanceAs (Decidable (∀ level ∈ x.level?, _))

/-- There are brackets around every operand that may not stand without them. -/
def Bracketed : Written → Prop
  | atom _ => True
  | group x => x.Bracketed
  | before op x => x.Stands op.1.2.power .right .right ∧ x.Bracketed
  | between op x y => x.Stands op.1.2.power op.1.2.associativity .left ∧
      y.Stands op.1.2.power op.1.2.associativity .right ∧ x.Bracketed ∧ y.Bracketed
  | choice x y z => x.Stands Precedence.ternary.power .right .left ∧
      z.Stands Precedence.ternary.power .right .right ∧ x.Bracketed ∧ y.Bracketed ∧ z.Bracketed

instance decidableBracketed : (w : Written) → Decidable w.Bracketed
  | atom _ => inferInstanceAs (Decidable True)
  | group x => decidableBracketed x
  | before _ x =>
    have := decidableBracketed x
    inferInstanceAs (Decidable (_ ∧ _))
  | between _ x y =>
    have := decidableBracketed x
    have := decidableBracketed y
    inferInstanceAs (Decidable (_ ∧ _ ∧ _ ∧ _))
  | choice x y z =>
    have := decidableBracketed x
    have := decidableBracketed y
    have := decidableBracketed z
    inferInstanceAs (Decidable (_ ∧ _ ∧ _ ∧ _ ∧ _))

/-- Whether an expression is a name without brackets. -/
def isName : Written → Bool
  | atom a => a.kind == .name
  | _ => false

/-- Only names are assigned to. -/
def AssignsNames : Written → Prop
  | atom _ => True
  | group x => x.AssignsNames
  | before _ x => x.AssignsNames
  | between op x y =>
    (op.1.2.kind = .assign → x.isName = true) ∧ x.AssignsNames ∧ y.AssignsNames
  | choice x y z => x.AssignsNames ∧ y.AssignsNames ∧ z.AssignsNames

instance decidableAssignsNames : (w : Written) → Decidable w.AssignsNames
  | atom _ => inferInstanceAs (Decidable True)
  | group x => decidableAssignsNames x
  | before _ x => decidableAssignsNames x
  | between _ x y =>
    have := decidableAssignsNames x
    have := decidableAssignsNames y
    inferInstanceAs (Decidable (_ ∧ _ ∧ _))
  | choice x y z =>
    have := decidableAssignsNames x
    have := decidableAssignsNames y
    have := decidableAssignsNames z
    inferInstanceAs (Decidable (_ ∧ _ ∧ _))

/-! ## Powers on the edges -/

/-- The powers of the operators on the left edge, each of which has something in front of it. -/
def leftPowers : Written → List Nat
  | atom _ | group _ | before _ _ => []
  | between op x _ => op.1.2.power :: x.leftPowers
  | choice x _ _ => Precedence.ternary.power :: x.leftPowers

/-- The least powers with which the operators on the right edge read their last operands. -/
def rightPowers : Written → List Nat
  | atom _ | group _ => []
  | before op x => op.1.2.power :: x.rightPowers
  | between op _ y => op.1.2.rightPower :: y.rightPowers
  | choice _ _ z => Precedence.ternary.power :: z.rightPowers

/-- The operators of an expression respect their powers, on all edges of their operands. -/
def Ranked : Written → Prop
  | atom _ => True
  | group x => x.Ranked
  | before op x => (∀ q ∈ x.leftPowers, op.1.2.power ≤ q) ∧ x.Ranked
  | between op x y => (∀ q ∈ x.rightPowers, op.1.2.power < q) ∧
      (∀ q ∈ y.leftPowers, op.1.2.rightPower ≤ q) ∧ x.Ranked ∧ y.Ranked
  | choice x y z => (∀ q ∈ x.rightPowers, Precedence.ternary.power < q) ∧
      (∀ q ∈ z.leftPowers, Precedence.ternary.power ≤ q) ∧ x.Ranked ∧ y.Ranked ∧ z.Ranked

/-- The levels of the operators that stand between operands. -/
def levels : List (Nat × Associativity) :=
  (Precedence.ternary.power, .right) ::
    operators.between.map fun entry => (entry.2.power, entry.2.associativity)

/-- Operators of one power group to the same side. -/
theorem associativity_unique :
    ∀ level ∈ levels, ∀ level' ∈ levels, level.1 = level'.1 → level.2 = level'.2 := by
  decide

/-- An operator in front of its operand binds tighter than any that stands between operands. -/
theorem power_lt_before : ∀ level ∈ levels, ∀ entry ∈ operators.before, level.1 < entry.2.power := by
  decide

theorem mem_levels (op : OperatorBetween) :
    (op.1.2.power, op.1.2.associativity) ∈ levels :=
  List.mem_cons_of_mem _ (List.mem_map.mpr ⟨op.1, op.2, rfl⟩)

/-- An operand on the right of an operator has the power with which the operator reads it. -/
theorem Stands.rightPower_le {op : BinaryOperator Kind} {x : Written}
    (h : x.Stands op.power op.associativity .right) :
    ∀ level ∈ x.level?, op.rightPower ≤ level.1 := by
  intro level hlevel
  have hstands := h level hlevel
  unfold BinaryOperator.rightPower
  split
  · rename_i hleft
    rw [hleft] at hstands
    simp at hstands
    omega
  · omega

/-- On the left edge operators bind no more loosely than the outermost one. -/
theorem Bracketed.le_leftPowers {x : Written} (h : x.Bracketed) {least : Nat}
    (hleast : ∀ level ∈ x.level?, least ≤ level.1) : ∀ q ∈ x.leftPowers, least ≤ q := by
  induction x with
  | atom | group | before => simp [leftPowers]
  | between op x y ihx _ =>
      obtain ⟨hx, _, hbx, _⟩ := h
      have hpower := hleast _ rfl
      have hleft := ihx hbx (fun level hlevel => by have := hx level hlevel; omega)
      simpa [leftPowers] using ⟨hpower, hleft⟩
  | choice x y z ihx _ _ =>
      obtain ⟨hx, _, hbx, _⟩ := h
      have hpower := hleast _ rfl
      have hleft := ihx hbx (fun level hlevel => by have := hx level hlevel; omega)
      simpa [leftPowers] using ⟨hpower, hleft⟩

theorem le_rightPower (op : BinaryOperator Kind) : op.power ≤ op.rightPower := by
  unfold BinaryOperator.rightPower
  split <;> omega

/-- The outermost operator reads its last operand with no less than its own power. -/
theorem lt_head_rightPowers {x : Written} {power : Nat}
    (hbefore : ∀ entry ∈ operators.before, power < entry.2.power)
    (hlevel : ∀ level ∈ x.level?, power < level.1) : ∀ q ∈ x.rightPowers.head?, power < q := by
  intro q hq
  cases x with
  | atom | group => cases hq
  | before op x =>
      obtain rfl := Option.some.inj hq
      exact hbefore op.1 op.2
  | between op x y =>
      obtain rfl := Option.some.inj hq
      exact Nat.lt_of_lt_of_le (hlevel _ rfl) (le_rightPower op.1.2)
  | choice x y z =>
      obtain rfl := Option.some.inj hq
      exact hlevel _ rfl

/-- On the right edge operators read their last operands with no less power than the outermost
one. -/
theorem Bracketed.lt_rightPowers {x : Written} (h : x.Bracketed) {power : Nat}
    (hbefore : ∀ entry ∈ operators.before, power < entry.2.power)
    (hlast : ∀ q ∈ x.rightPowers.head?, power < q) : ∀ q ∈ x.rightPowers, power < q := by
  induction x with
  | atom | group => simp [rightPowers]
  | before op x ih =>
      have hpower := hlast _ rfl
      have hright := ih h.2 (lt_head_rightPowers hbefore
        (fun level hlevel => by have := h.1 level hlevel; omega))
      simpa [rightPowers] using ⟨hpower, hright⟩
  | between op x y _ ihy =>
      obtain ⟨_, hy, _, hby⟩ := h
      have hpower := hlast _ rfl
      have hright := ihy hby (lt_head_rightPowers hbefore
        (fun level hlevel => Nat.lt_of_lt_of_le hpower (hy.rightPower_le level hlevel)))
      simpa [rightPowers] using ⟨hpower, hright⟩
  | choice x y z _ _ ihz =>
      obtain ⟨_, hz, _, _, hbz⟩ := h
      have hpower := hlast _ rfl
      have hright := ihz hbz (lt_head_rightPowers hbefore
        (fun level hlevel => by have := hz level hlevel; omega))
      simpa [rightPowers] using ⟨hpower, hright⟩

/-- An operand on the left of an operator does not take the operator for itself. -/
theorem Bracketed.lt_rightPowers_of_stands {x : Written} (h : x.Bracketed)
    {level : Nat × Associativity} (hlevel : level ∈ levels) (hx : x.Stands level.1 level.2 .left) :
    ∀ q ∈ x.rightPowers, level.1 < q := by
  refine h.lt_rightPowers (power_lt_before level hlevel) ?_
  intro q hq
  cases x with
  | atom | group => cases hq
  | before op x =>
      obtain rfl := Option.some.inj hq
      exact power_lt_before level hlevel op.1 op.2
  | between op x y =>
      obtain rfl := Option.some.inj hq
      have hle := le_rightPower op.1.2
      rcases hx _ rfl with hlt | ⟨heq, hleft⟩
      · exact Nat.lt_of_lt_of_le hlt hle
      · -- operators of one power group alike, so this one leaves an equal one to its right alone
        have hop : op.1.2.associativity = .left :=
          (associativity_unique level hlevel _ (mem_levels op) heq).symm.trans hleft
        rw [BinaryOperator.rightPower, hop, heq]
        exact Nat.lt_succ_self _
  | choice x y z =>
      obtain rfl := Option.some.inj hq
      rcases hx _ rfl with hlt | ⟨heq, hleft⟩
      · exact hlt
      · have hright := associativity_unique level hlevel _ List.mem_cons_self heq
        rw [hleft] at hright
        cases hright

/-- **Where brackets stand around all operands that need them, no operator on the edge of an
operand is out of place.** -/
theorem Bracketed.ranked {x : Written} (h : x.Bracketed) : x.Ranked := by
  induction x with
  | atom a => trivial
  | group x ih => exact ih h
  | before op x ih =>
      exact ⟨h.2.le_leftPowers (fun level hlevel => by have := h.1 level hlevel; omega), ih h.2⟩
  | between op x y ihx ihy =>
      obtain ⟨hx, hy, hbx, hby⟩ := h
      exact ⟨hbx.lt_rightPowers_of_stands (mem_levels op) hx, hby.le_leftPowers hy.rightPower_le,
        ihx hbx, ihy hby⟩
  | choice x y z ihx ihy ihz =>
      obtain ⟨hx, hz, hbx, hby, hbz⟩ := h
      have hternary : (Precedence.ternary.power, Associativity.right) ∈ levels :=
        List.mem_cons_self
      exact ⟨hbx.lt_rightPowers_of_stands hternary hx,
        hbz.le_leftPowers (fun level hlevel => by have := hz level hlevel; omega),
        ihx hbx, ihy hby, ihz hbz⟩

end Written

/-! ## Tokens -/

/-- No mark of the language has a blank in it. -/
theorem blankFree_config : rules.BlankFree := by
  constructor <;> decide +kernel

/-- The texts of all operators. -/
def operatorTexts : List String :=
  "?" :: ":" :: (operators.before.map Prod.fst ++ operators.between.map Prod.fst)

theorem readsAlone_operatorToken {text : String} (h : text ∈ operatorTexts) :
    rules.ReadsAlone (operatorToken text) := by
  have hread : ∀ text ∈ operatorTexts,
      lexemes rules (operatorToken text).text = [operatorToken text] := by
    decide +kernel
  exact ⟨hread text h, rfl⟩

theorem readsAlone_bracketToken {text : String} (h : text ∈ ["(", ")"]) :
    rules.ReadsAlone (bracketToken text) := by
  have hread : ∀ text ∈ ["(", ")"],
      lexemes rules (bracketToken text).text = [bracketToken text] := by
    decide +kernel
  exact ⟨hread text h, rfl⟩

theorem Atom.readsAlone (a : Atom) : rules.ReadsAlone a.token := by
  refine ⟨a.isAtom.lexemes_eq, ?_⟩
  have hadmitted := a.isAtom.admitted
  unfold atomKind? at hadmitted
  split at hadmitted <;> rename_i hkind <;> simp_all [TokenKind.isPlain]

theorem mem_operatorTexts_before (op : OperatorBefore) : op.1.1 ∈ operatorTexts :=
  List.mem_cons_of_mem _ (List.mem_cons_of_mem _
    (List.mem_append_left _ (List.mem_map_of_mem op.2)))

theorem mem_operatorTexts_between (op : OperatorBetween) : op.1.1 ∈ operatorTexts :=
  List.mem_cons_of_mem _ (List.mem_cons_of_mem _
    (List.mem_append_right _ (List.mem_map_of_mem op.2)))

/-- Every token of an expression is read from its own text. -/
theorem Written.readsAlone (w : Written) :
    ∀ l ∈ w.lexemes, rules.ReadsAlone l := by
  induction w with
  | atom a => simpa [lexemes] using a.readsAlone
  | group x ih =>
      simp only [lexemes, List.forall_mem_cons, List.forall_mem_append]
      exact ⟨readsAlone_bracketToken (by simp), ih, readsAlone_bracketToken (by simp), by simp⟩
  | before op x ih =>
      simp only [lexemes, List.forall_mem_cons]
      exact ⟨readsAlone_operatorToken (mem_operatorTexts_before op), ih⟩
  | between op x y ihx ihy =>
      simp only [lexemes, List.forall_mem_cons, List.forall_mem_append]
      exact ⟨ihx, readsAlone_operatorToken (mem_operatorTexts_between op), ihy⟩
  | choice x y z ihx ihy ihz =>
      simp only [lexemes, List.forall_mem_cons, List.forall_mem_append]
      exact ⟨ihx, readsAlone_operatorToken List.mem_cons_self, ihy,
        readsAlone_operatorToken (List.mem_cons_of_mem _ List.mem_cons_self), ihz⟩

theorem Written.toList_print (w : Written) : w.print.toList = Lexeme.spaced w.lexemes := by
  rw [print, String.toList_intercalate]
  generalize w.lexemes = ls
  induction ls with
  | nil => rfl
  | cons l ls ih =>
      cases ls with
      | nil => simp [Lexeme.spaced, Lexeme.joined]
      | cons k ks =>
          rw [Lexeme.spaced_cons_cons, ← ih]
          simp

/-- The significant tokens of a text are its lexemes without trivia. -/
theorem map_lexeme_significantTokens (source : String) :
    (significantTokens source).map Token.lexeme =
      (lexemes rules source.toList).filter Lexeme.isSignificant := by
  have hchars : Span.chars source.toList ⟨0, Text.byteSize source.toList⟩ = source.toList := by
    simpa using Span.chars_middle [] source.toList []
  have hkeeps : ∀ kind, config.keeps kind = true := Config.keeps_eq_true rfl rfl
  have htokens : tokenize source config none =
      Lexeme.placeFrom 0 (lexemes rules source.toList) ++
        [Token.eof (Text.byteSize source.toList)] := by
    simp [tokenize, window, hchars, hkeeps]
  have hfilter := List.filter_map (f := Token.lexeme) (p := Lexeme.isSignificant)
    (l := Lexeme.placeFrom 0 (lexemes rules source.toList))
  rw [lexeme_placeFrom] at hfilter
  rw [hfilter, significantTokens, htokens, List.filter_append, List.map_append]
  exact List.append_nil _

/-- **The significant tokens of the text of an expression are those of the expression.** -/
theorem Written.map_lexeme_print (w : Written) :
    (significantTokens w.print).map Token.lexeme = w.lexemes := by
  rw [map_lexeme_significantTokens, toList_print, lexemes_spaced blankFree_config w.readsAlone]
  exact filter_intersperse_blank fun l hl => (w.readsAlone l hl).plain

/-! ## Tokens in place -/

/-- Tokens are those of an expression, wherever they stand. -/
def Written.SpelledBy (w : Written) (us : List Token) : Prop :=
  us.map Token.lexeme = w.lexemes

theorem is_of_lexeme {t : Token} {kind : TokenKind} {text : String}
    (h : t.lexeme = ⟨kind, text.toList⟩) : t.Is kind text := by
  obtain ⟨hkind, htext⟩ := Lexeme.mk.inj h
  exact ⟨hkind, String.toList_injective htext⟩

namespace Written.SpelledBy

variable {us : List Token}

theorem atom {a : Atom} (h : (Written.atom a).SpelledBy us) :
    ∃ t, us = [t] ∧ t.lexeme = a.token := by
  simpa [SpelledBy, lexemes, List.map_eq_cons_iff] using h

theorem group {x : Written} (h : (Written.group x).SpelledBy us) :
    ∃ opener vs closer, us = opener :: (vs ++ [closer]) ∧ opener.Is .punctuation "(" ∧
      x.SpelledBy vs ∧ closer.Is .punctuation ")" := by
  obtain ⟨opener, ws, rfl, hopener, hws⟩ := List.map_eq_cons_iff.mp h
  obtain ⟨vs, cs, rfl, hvs, hcs⟩ := List.map_eq_append_iff.mp hws
  obtain ⟨closer, ds, rfl, hcloser, hds⟩ := List.map_eq_cons_iff.mp hcs
  obtain rfl := List.map_eq_nil_iff.mp hds
  exact ⟨opener, vs, closer, rfl, is_of_lexeme hopener, hvs, is_of_lexeme hcloser⟩

theorem before {op : OperatorBefore} {x : Written} (h : (Written.before op x).SpelledBy us) :
    ∃ t vs, us = t :: vs ∧ t.lexeme = operatorToken op.1.1 ∧ x.SpelledBy vs := by
  obtain ⟨t, vs, rfl, ht, hvs⟩ := List.map_eq_cons_iff.mp h
  exact ⟨t, vs, rfl, ht, hvs⟩

theorem between {op : OperatorBetween} {x y : Written} (h : (Written.between op x y).SpelledBy us) :
    ∃ vs t ws, us = vs ++ t :: ws ∧ x.SpelledBy vs ∧ t.lexeme = operatorToken op.1.1 ∧
      y.SpelledBy ws := by
  obtain ⟨vs, cs, rfl, hvs, hcs⟩ := List.map_eq_append_iff.mp h
  obtain ⟨t, ws, rfl, ht, hws⟩ := List.map_eq_cons_iff.mp hcs
  exact ⟨vs, t, ws, rfl, hvs, ht, hws⟩

theorem choice {x y z : Written} (h : (Written.choice x y z).SpelledBy us) :
    ∃ vs opener ws separator zs, us = vs ++ opener :: (ws ++ separator :: zs) ∧ x.SpelledBy vs ∧
      opener.Is .operator "?" ∧ y.SpelledBy ws ∧ separator.Is .operator ":" ∧ z.SpelledBy zs := by
  obtain ⟨vs, cs, rfl, hvs, hcs⟩ := List.map_eq_append_iff.mp h
  obtain ⟨opener, ds, rfl, hopener, hds⟩ := List.map_eq_cons_iff.mp hcs
  obtain ⟨ws, es, rfl, hws, hes⟩ := List.map_eq_append_iff.mp hds
  obtain ⟨separator, zs, rfl, hseparator, hzs⟩ := List.map_eq_cons_iff.mp hes
  exact ⟨vs, opener, ws, separator, zs, rfl, hvs, is_of_lexeme hopener, hws,
    is_of_lexeme hseparator, hzs⟩

end Written.SpelledBy

theorem before?_of_lexeme {op : OperatorBefore} {t : Token}
    (h : t.lexeme = operatorToken op.1.1) : operators.before? t = some op.1.2 := by
  have hlookup : ∀ entry ∈ operators.before, operators.before.lookup entry.1 = some entry.2 := by
    decide
  obtain ⟨hkind, htext⟩ := is_of_lexeme h
  rw [before?, if_pos (by simp [mayOperate, hkind]), htext]
  exact hlookup op.1 op.2

theorem between?_of_lexeme {op : OperatorBetween} {t : Token}
    (h : t.lexeme = operatorToken op.1.1) : operators.between? t = some op.1.2 := by
  have hlookup : ∀ entry ∈ operators.between, operators.between.lookup entry.1 = some entry.2 := by
    decide
  obtain ⟨hkind, htext⟩ := is_of_lexeme h
  rw [between?, if_pos (by simp [mayOperate, hkind]), htext]
  exact hlookup op.1 op.2

/-- The token of an atom is a leaf of the grammar. -/
theorem Atom.isLeaf (a : Atom) {t : Token} (h : t.lexeme = a.token) : IsLeaf t := by
  have hadmitted := a.isAtom.admitted
  rw [← h] at hadmitted
  unfold atomKind? at hadmitted
  have hkind : t.lexeme.kind = t.kind := rfl
  have htext : ∀ text : String, t.lexeme.text = text.toList → t.text = text :=
    fun text heq => String.toList_injective heq
  split at hadmitted <;> rename_i heq <;> rw [hkind] at heq
  · exact Or.inr (Or.inr (Or.inl heq))
  · exact Or.inr (Or.inl heq)
  · exact Or.inl (by rw [heq]; rfl)
  · exact Or.inl (by rw [heq]; rfl)
  · split at hadmitted
    · rename_i hword
      exact Or.inr (Or.inr (Or.inr (hword.imp (fun h => ⟨heq, htext _ h⟩)
        (fun h => ⟨heq, htext _ h⟩))))
    · cases hadmitted
  · cases hadmitted

/-- The tokens of an expression derive from the grammar, whatever brackets there are. -/
theorem Written.SpelledBy.derives {w : Written} {us : List Token} (h : w.SpelledBy us) :
    Derives .expression us := by
  induction w generalizing us with
  | atom a =>
      obtain ⟨t, rfl, ht⟩ := h.atom
      exact .expression (.operand (.leaf (a.isLeaf ht))) .stop
  | group x ih =>
      obtain ⟨opener, vs, closer, rfl, hopener, hvs, hcloser⟩ := h.group
      have hatom : Derives .atom _ := .group hopener (ih hvs) hcloser
      simpa using Derives.expression (.operand hatom) .stop
  | before op x ih =>
      obtain ⟨t, vs, rfl, ht, hvs⟩ := h.before
      exact (ih hvs).expression_before (by simp [before?_of_lexeme ht])
  | between op x y ihx ihy =>
      obtain ⟨vs, t, ws, rfl, hvs, ht, hws⟩ := h.between
      cases ihy hws with
      | expression hu hc =>
          exact (ihx hvs).expression_append (.between (by simp [between?_of_lexeme ht]) hu hc)
  | choice x y z ihx ihy ihz =>
      obtain ⟨vs, opener, ws, separator, zs, rfl, hvs, hopener, hws, hseparator, hzs⟩ := h.choice
      cases ihz hzs with
      | expression hu hc =>
          exact (ihx hvs).expression_append (.choice hopener (ihy hws) hseparator hu hc)

end Calculator

end Lossless
