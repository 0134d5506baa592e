import Lossless.Calculator
import Lossless.Proofs.StringNesting

/-!
# The grammar of the calculator language

The grammar as such, apart from any way to read it: `Derives` says which rows of significant
tokens are programs, statements and expressions.  An expression is a row of operands with
operators between them; nothing is said about which operator binds tighter, because every row
can be read in one way or another.

A keyword, an operator or a bracket is a token of that kind with that text.  The tokens of a
text are spelled in such a way (`Calculator.Spelled`) that the text alone tells the kind.
-/

namespace Lossless

/-- A token of a certain kind and text. -/
def Token.Is (t : Token) (kind : TokenKind) (text : String) : Prop :=
  t.kind = kind ∧ t.text = text

theorem Token.Is.holds {t : Token} {kind : TokenKind} {text : String} (h : t.Is kind text)
    (hown : Expectation.hasOwnText t = true) : (Expectation.text text).holds t = true := by
  simp [Expectation.holds, hown, h.2]

namespace Calculator

open Operators

/-- What the grammar has rules for. -/
inductive Nonterminal where
  | program
  | statement
  | expression
  /-- The operators of an expression behind its first operand, with the other operands. -/
  | continuation
  | unary
  | atom
  /-- What stands between the delimiters of a string. -/
  | pieces
deriving DecidableEq, Repr

/-- An atom of one token. -/
def IsLeaf (t : Token) : Prop :=
  t.kind.isNumber = true ∨ t.kind = .literal .char ∨ t.kind = .identifier ∨
    t.Is .keyword "true" ∨ t.Is .keyword "false"

/-- **The grammar.**  Significant tokens derive from a nonterminal. -/
inductive Derives : Nonterminal → List Token → Prop
  -- program := (statement? linebreak)* statement?
  | nothing : Derives .program []
  | last {us : List Token} (h : Derives .statement us) : Derives .program us
  | blank {t : Token} {us : List Token} (ht : t.kind = .linebreak) (h : Derives .program us) :
      Derives .program (t :: us)
  | line {us vs : List Token} {t : Token} (h : Derives .statement us) (ht : t.kind = .linebreak)
      (h' : Derives .program vs) : Derives .program (us ++ t :: vs)
  -- statement := "let" identifier "=" expression | expression
  | binding {keyword name sign : Token} {us : List Token} (hkeyword : keyword.Is .keyword "let")
      (hname : name.kind = .identifier) (hsign : sign.Is .operator "=")
      (h : Derives .expression us) : Derives .statement (keyword :: name :: sign :: us)
  | plain {us : List Token} (h : Derives .expression us) : Derives .statement us
  -- expression := unary (infix unary | "?" expression ":" unary)*
  | expression {us vs : List Token} (h : Derives .unary us) (h' : Derives .continuation vs) :
      Derives .expression (us ++ vs)
  | stop : Derives .continuation []
  | between {t : Token} {us vs : List Token} (ht : (operators.between? t).isSome = true)
      (h : Derives .unary us) (h' : Derives .continuation vs) :
      Derives .continuation (t :: (us ++ vs))
  | choice {opener separator : Token} {us vs ws : List Token} (hopener : opener.Is .operator "?")
      (h : Derives .expression us) (hseparator : separator.Is .operator ":")
      (h' : Derives .unary vs) (h'' : Derives .continuation ws) :
      Derives .continuation (opener :: (us ++ separator :: (vs ++ ws)))
  -- unary := prefix* atom
  | before {t : Token} {us : List Token} (ht : (operators.before? t).isSome = true)
      (h : Derives .unary us) : Derives .unary (t :: us)
  | operand {us : List Token} (h : Derives .atom us) : Derives .unary us
  -- atom := number | char | identifier | "true" | "false" | "(" expression ")" | string
  | leaf {t : Token} (ht : IsLeaf t) : Derives .atom [t]
  | group {opener closer : Token} {us : List Token} (hopener : opener.Is .punctuation "(")
      (h : Derives .expression us) (hcloser : closer.Is .punctuation ")") :
      Derives .atom (opener :: (us ++ [closer]))
  | string {style : StringStyle} {opener closer : Token} {us : List Token}
      (hopener : opener.kind = .string (.opening style)) (h : Derives .pieces us)
      (hcloser : closer.kind = .string (.closing style)) :
      Derives .atom (opener :: (us ++ [closer]))
  -- pieces := (basic | escaped | mark identifier | block-opening expression block-closing)*
  | noPiece : Derives .pieces []
  | content {t : Token} {us : List Token} (ht : t.kind = .string .basic ∨ t.kind = .string .escaped)
      (h : Derives .pieces us) : Derives .pieces (t :: us)
  | name {mark name : Token} {us : List Token} (hmark : mark.kind = .string .nameMark)
      (hname : name.kind = .identifier) (h : Derives .pieces us) :
      Derives .pieces (mark :: name :: us)
  | block {opener closer : Token} {us vs : List Token} (hopener : opener.kind = .string .blockOpen)
      (h : Derives .expression us) (hcloser : closer.kind = .string .blockClose)
      (h' : Derives .pieces vs) : Derives .pieces (opener :: (us ++ closer :: vs))

theorem Derives.continuation_append {us vs : List Token} (h : Derives .continuation us)
    (h' : Derives .continuation vs) : Derives .continuation (us ++ vs) := by
  generalize hx : Nonterminal.continuation = x at h
  induction h <;> cases hx
  case stop => exact h'
  case between ht hu _ _ ih =>
    rw [List.cons_append, List.append_assoc]
    exact .between ht hu (ih rfl)
  case choice hopener hu hseparator hv _ _ _ ih =>
    simp only [List.cons_append, List.append_assoc]
    exact .choice hopener hu hseparator hv (ih rfl)

/-- An expression may go on. -/
theorem Derives.expression_append {us vs : List Token} (h : Derives .expression us)
    (h' : Derives .continuation vs) : Derives .expression (us ++ vs) := by
  cases h with
  | expression hu hv =>
      rw [List.append_assoc]
      exact .expression hu (hv.continuation_append h')

/-- A prefix may stand in front of an expression. -/
theorem Derives.expression_before {t : Token} {us : List Token}
    (ht : (operators.before? t).isSome = true) (h : Derives .expression us) :
    Derives .expression (t :: us) := by
  cases h with
  | expression hu hv => exact .expression (.before ht hu) hv

/-- Only a program, a continuation and the pieces of a string may be empty. -/
theorem Derives.ne_nil {x : Nonterminal} {us : List Token} (h : Derives x us)
    (hprogram : x ≠ .program) (hcontinuation : x ≠ .continuation) (hpieces : x ≠ .pieces) :
    us ≠ [] := by
  induction h with
  | nothing | last | blank | line => exact absurd rfl hprogram
  | stop | between | choice => exact absurd rfl hcontinuation
  | noPiece | content | name | block => exact absurd rfl hpieces
  | binding | before | leaf | group | string => exact List.cons_ne_nil _ _
  | plain _ ih | operand _ ih => exact ih (by simp) (by simp) (by simp)
  | expression _ _ ih _ =>
      exact List.append_ne_nil_of_left_ne_nil (ih (by simp) (by simp) (by simp)) _

/-! ## Spelling -/

/-- A token that is spelled as the rules of the language have it. -/
def Spelled (t : Token) : Prop :=
  (Rules.ofConfig config).Spells ⟨t.kind, t.text.toList⟩

/-- The texts that the grammar asks for, and what kind of token has them. -/
def quoted : List (String × TokenKind) :=
  [("let", .keyword), ("=", .operator), ("?", .operator), (":", .operator), (")", .punctuation)]

/-- **The text alone tells the kind** of the tokens that the grammar asks for. -/
theorem Spelled.is_quoted {t : Token} (h : Spelled t) {text : String} {kind : TokenKind}
    (hquoted : (text, kind) ∈ quoted) (hown : Expectation.hasOwnText t = true)
    (htext : t.text = text) : t.Is kind text := by
  refine ⟨?_, htext⟩
  have hkeyword : ∀ p ∈ quoted, (Rules.ofConfig config).isKeyword p.1.toList = true →
      TokenKind.keyword = p.2 := by decide
  have hword : ∀ p ∈ quoted, (Rules.ofConfig config).isKeyword p.1.toList = false →
      p.1.toList.head?.any (Rules.ofConfig config).startsWord = false := by decide
  have hoperator : ∀ p ∈ quoted, p.1.toList ∈ (Rules.ofConfig config).operators →
      TokenKind.operator = p.2 := by decide
  have hpunctuation : ∀ p ∈ quoted, p.1.toList ∈ (Rules.ofConfig config).punctuation →
      TokenKind.punctuation = p.2 := by decide
  unfold Spelled Rules.Spells at h
  rw [htext] at h
  unfold Expectation.hasOwnText at hown
  split at hown <;> rename_i hkind
  · rw [hkind] at h
    exact hkind.trans (hkeyword _ hquoted h)
  · rw [hkind] at h
    obtain ⟨hnot, c, cs, htext', hc⟩ := h
    have hstarts := hword _ hquoted hnot
    have htext'' : text.toList = c :: cs := htext'
    simp only [htext'', List.head?_cons, Option.any_some, hc] at hstarts
    cases hstarts
  · rw [hkind] at h
    exact hkind.trans (hoperator _ hquoted h)
  · rw [hkind] at h
    exact hkind.trans (hpunctuation _ hquoted h)
  · cases hown

theorem Spelled.is_of_holds {t : Token} (h : Spelled t) {text : String} {kind : TokenKind}
    (hquoted : (text, kind) ∈ quoted) (hholds : (Expectation.text text).holds t = true) :
    t.Is kind text := by
  simp only [Expectation.holds, Bool.and_eq_true, beq_iff_eq] at hholds
  exact h.is_quoted hquoted hholds.1 hholds.2

/-! ## Operators -/

/-- Only an operator, a keyword or punctuation may operate. -/
theorem continuingPower?_of_not_mayOperate {t : Token} (h : mayOperate t = false) :
    operators.continuingPower? t = none := by
  simp [continuingPower?, ternary?, between?, after?, h]

/-- An operator that is found in a list of operators has its text there. -/
theorem mem_of_lookup_isSome {β : Type} {text : String} {table : List (String × β)}
    (h : (table.lookup text).isSome = true) : text ∈ table.map Prod.fst := by
  obtain ⟨entry, hentry, heq⟩ := List.lookup_isSome_iff.mp h
  exact List.mem_map.mpr ⟨entry, hentry, (beq_iff_eq.mp heq).symm⟩

theorem before?_isSome {t : Token} (h : (operators.before? t).isSome = true) :
    mayOperate t = true ∧ t.text ∈ ["~", "!", "-"] := by
  unfold before? at h
  split at h
  · rename_i hmay
    exact ⟨hmay, mem_of_lookup_isSome h⟩
  · cases h

theorem between?_isSome {t : Token} (h : (operators.between? t).isSome = true) :
    mayOperate t = true ∧ t.text ∈ operators.between.map Prod.fst := by
  unfold between? at h
  split at h
  · rename_i hmay
    exact ⟨hmay, mem_of_lookup_isSome h⟩
  · cases h

/-- There is one ternary operator. -/
theorem ternary?_eq_some {t : Token} {op : TernaryOperator Kind}
    (h : operators.ternary? t = some op) :
    mayOperate t = true ∧ t.text = "?" ∧ op = ⟨"?", ":", Precedence.ternary.power, .cond⟩ := by
  unfold ternary? at h
  split at h
  · rename_i hmay
    obtain rfl := List.mem_singleton.mp (List.mem_of_find?_eq_some h)
    have hopener := List.find?_some h
    simp only [beq_iff_eq] at hopener
    exact ⟨hmay, hopener.symm, rfl⟩
  · cases h

theorem ternary?_of_is {t : Token} (h : t.Is .operator "?") :
    operators.ternary? t = some ⟨"?", ":", Precedence.ternary.power, .cond⟩ := by
  have hmay : mayOperate t = true := by simp [mayOperate, h.1]
  rw [ternary?, if_pos hmay, h.2]
  rfl

/-- No operator between two operands opens a ternary one. -/
theorem ternary?_of_between? {t : Token} (h : (operators.between? t).isSome = true) :
    operators.ternary? t = none := by
  rw [Option.eq_none_iff_forall_ne_some]
  intro op hop
  have hmem := (between?_isSome h).2
  rw [(ternary?_eq_some hop).2.1] at hmem
  exact absurd hmem (by decide)

theorem after?_eq_none (t : Token) : operators.after? t = none := by
  unfold after?
  split <;> rfl

theorem continuingPower?_separator {t : Token} (h : t.Is .operator ":") :
    operators.continuingPower? t = none := by
  simp only [continuingPower?, ternary?, between?, after?, mayOperate, h.1, h.2]
  rfl

theorem continuingPower?_closer {t : Token} (h : t.Is .punctuation ")") :
    operators.continuingPower? t = none := by
  simp only [continuingPower?, ternary?, between?, after?, mayOperate, h.1, h.2]
  rfl

end Calculator

end Lossless
