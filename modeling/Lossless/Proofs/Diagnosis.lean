import Lossless.Diagnostic
import Lossless.Proofs.Losslessness
import Lossless.Proofs.Soundness

/-!
# Validity and diagnostics agree

A tree is valid if no error was reported and no element was refused.  Its diagnostics are read
off the tree alone, and lexical errors are among them, of which validity says nothing.  That
the two agree for every text (`Calculator.valid_iff_no_diagnostic`) rests on two facts:

* **no reported error is lost**: wherever the markers are, there is a node for it
  (`exists_report`), so validity can be read off the tree as well (`valid_build`);
* **no program has a lexical error in it** (`Calculator.Derives.kind_ne_error`), so where there
  is one, the parser has reported something.
-/

namespace Lossless

variable {κ : Type}

/-! ## Reported errors in the tree -/

theorem exists_mem_distinctErrors {errors : List ParseError} {e : ParseError} (he : e ∈ errors)
    (seen : List (Nat × String)) : (e.index, e.message) ∈ seen ∨
      ∃ e' ∈ distinctErrors seen errors, e'.index = e.index ∧ e'.message = e.message := by
  induction errors generalizing seen with
  | nil => cases he
  | cons d ds ih =>
      unfold distinctErrors
      split
      · rename_i hseen
        rcases List.mem_cons.mp he with rfl | he
        · exact Or.inl (List.contains_iff_mem.mp hseen)
        · exact ih he seen
      · rcases List.mem_cons.mp he with rfl | he
        · exact Or.inr ⟨e, List.mem_cons_self, rfl, rfl⟩
        · rcases ih he ((d.index, d.message) :: seen) with hmem | ⟨e', he', hsame⟩
          · rcases List.mem_cons.mp hmem with heq | hmem
            · obtain ⟨hindex, hmessage⟩ := Prod.mk.inj heq
              exact Or.inr ⟨d, List.mem_cons_self, hindex.symm, hmessage.symm⟩
            · exact Or.inl hmem
          · exact Or.inr ⟨e', List.mem_cons_of_mem _ he', hsame⟩

namespace BuildContext

/-- An error belongs to a node itself, or to one of the plots inside of it that cover it. -/
theorem report_mem_ordered {inner : List (Plot κ)} {errors : List ParseError} {e : ParseError}
    (he : e ∈ errors) {items : List (Item κ)}
    (hbelow : (∃ p ∈ inner, p.marker.covers e.index = true) →
      (errorLeaf e).tree ∈ Tree.nodesOf (items.map Item.tree)) :
    (errorLeaf e).tree ∈ Tree.nodesOf (ordered (ownErrors inner errors) items) := by
  rw [(nodesOf_ordered _ items).mem_iff, List.mem_append]
  by_cases hcovered : ∃ p ∈ inner, p.marker.covers e.index = true
  · exact Or.inr (hbelow hcovered)
  · refine Or.inl (List.mem_map.mpr ⟨e, ?_, rfl⟩)
    have hown : (!inner.any fun p => p.marker.covers e.index) = true := by
      simpa using hcovered
    exact List.mem_filter.mpr ⟨he, hown⟩

variable [DecidableEq κ] [Named κ]

mutual

/-- Each error of a plot has a node in its tree. -/
theorem report_mem_assemble {b : BuildContext κ} (hb : b.registry.KeepsParts) :
    ∀ (p : Plot κ) (errors : List ParseError) (e : ParseError), e ∈ errors →
      (errorLeaf e).tree ∈ (b.assemble errors p).tree.nodes
  | .mk m inner, errors, e, he => by
      have hbelow := report_mem_assembleParts hb inner errors m.start m.stop e he
      obtain ⟨kind, span, hnode⟩ := close_parts hb m
        (ordered (ownErrors inner errors) (b.assembleParts errors m.start m.stop inner).1)
        (b.assembleParts errors m.start m.stop inner).2
      rw [assemble, hnode, Tree.nodes]
      exact List.mem_cons_of_mem _ (report_mem_ordered he hbelow)

/-- Each error that one of the plots in a row covers has a node among the parts of the row. -/
theorem report_mem_assembleParts {b : BuildContext κ} (hb : b.registry.KeepsParts) :
    ∀ (ps : List (Plot κ)) (errors : List ParseError) (cursor stop : Nat) (e : ParseError),
      e ∈ errors → (∃ p ∈ ps, p.marker.covers e.index = true) →
        (errorLeaf e).tree ∈
          Tree.nodesOf ((b.assembleParts errors cursor stop ps).1.map Item.tree)
  | [], _, _, _, _, _, hcovered => by simp at hcovered
  | p :: ps, errors, cursor, stop, e, he, hcovered => by
      rw [assembleParts, List.map_append, List.map_cons, Tree.nodesOf_append, Tree.nodesOf]
      refine List.mem_append_right _ (List.mem_append.mpr ?_)
      cases hp : p.marker.covers e.index with
      | true =>
          exact Or.inl (report_mem_assemble hb p _ e (List.mem_filter.mpr ⟨he, hp⟩))
      | false =>
          have hlater : ∃ q ∈ ps, q.marker.covers e.index = true := by
            simpa [hp] using hcovered
          exact Or.inr (report_mem_assembleParts hb ps errors _ stop e he hlater)

end

end BuildContext

section Trees

variable [DecidableEq κ] [Named κ] {r : Registry κ}

/-- **No reported error is lost**: the tree has a node with its message and its token. -/
theorem exists_report (hr : r.KeepsParts) (options : BuildOptions) (tokens : List Token)
    (markers : List (Marker κ)) {errors : List ParseError} {e : ParseError} (he : e ∈ errors) :
    ∃ node ∈ (build r options tokens markers errors).root.nodes,
      node.errorMessage? = some e.message ∧ node.errorIndex? = some e.index := by
  rcases exists_mem_distinctErrors he [] with hmem | ⟨e', he', hindex, hmessage⟩
  · cases hmem
  · refine ⟨(BuildContext.errorLeaf e').tree, ?_, ?_⟩
    · let b : BuildContext κ := ⟨tokens.toArray, options, r⟩
      have hb : b.registry.KeepsParts := hr
      have hbelow := BuildContext.report_mem_assembleParts hb (plots tokens.length markers).1 _ 0
        tokens.length e' he'
      rw [build_root, Tree.nodes]
      exact List.mem_cons_of_mem _ (BuildContext.report_mem_ordered he' hbelow)
    · rw [← hmessage, ← hindex]
      exact ⟨rfl, rfl⟩

theorem errors_eq_nil_of_valid {options : BuildOptions} {tokens : List Token}
    {markers : List (Marker κ)} {errors : List ParseError}
    (h : (build r options tokens markers errors).valid = true) : errors = [] := by
  have hvalid :
      (errors.isEmpty && !(build r options tokens markers errors).root.hasError) = true := h
  exact List.isEmpty_iff.mp (Bool.and_eq_true_iff.mp hvalid).1

/-- **Validity can be read off the tree.** -/
theorem valid_build (hr : r.KeepsParts) (options : BuildOptions) (tokens : List Token)
    (markers : List (Marker κ)) (errors : List ParseError) :
    (build r options tokens markers errors).valid =
      !(build r options tokens markers errors).root.hasError := by
  cases errors with
  | nil => rfl
  | cons e es =>
      obtain ⟨node, hnode, hmessage, _⟩ :=
        exists_report hr options tokens markers (List.mem_cons_self : e ∈ e :: es)
      have herror : (build r options tokens markers (e :: es)).root.hasError = true :=
        List.any_eq_true.mpr ⟨node, hnode, by simp [Tree.isError, hmessage]⟩
      rw [herror]
      rfl

end Trees

/-! ## Diagnostics -/

namespace Diagnostic

theorem mem_ofTree {ls : Lines} {t : Tree κ} {d : Diagnostic} :
    d ∈ ofTree ls t ↔ (∃ node ∈ t.errors, ofError ls node = d) ∨
      ∃ u ∈ t.tokens, u.kind = .error ∧ ofToken ls u = d := by
  simp [ofTree, and_assoc]

/-- A tree with an error node has a diagnostic that is more than a warning. -/
theorem exists_error_of_hasError {t : Tree κ} (h : t.hasError = true) (ls : Lines) :
    ∃ d ∈ ofTree ls t, d.severity = .error := by
  obtain ⟨node, hnode, herror⟩ := List.any_eq_true.mp h
  exact ⟨ofError ls node, mem_ofTree.mpr (Or.inl ⟨node, List.mem_filter.mpr ⟨hnode, herror⟩, rfl⟩),
    rfl⟩

theorem ofTree_eq_nil {t : Tree κ} (hnodes : t.hasError = false)
    (htokens : ∀ u ∈ t.tokens, u.kind ≠ .error) (ls : Lines) : ofTree ls t = [] := by
  rw [List.eq_nil_iff_forall_not_mem]
  intro d hd
  rcases mem_ofTree.mp hd with ⟨node, hnode, _⟩ | ⟨u, hu, hkind, _⟩
  · obtain ⟨hmem, herror⟩ := List.mem_filter.mp hnode
    have hsome : t.hasError = true := List.any_eq_true.mpr ⟨node, hmem, herror⟩
    rw [hnodes] at hsome
    cases hsome
  · exact htokens u hu hkind

end Diagnostic

/-! ## The calculator language -/

namespace Calculator

theorem IsLeaf.kind_ne_error {t : Token} (h : IsLeaf t) : t.kind ≠ .error := by
  intro hkind
  rcases h with h | h | h | h | h
  · simp [hkind, TokenKind.isNumber] at h
  · simp [hkind] at h
  · simp [hkind] at h
  · simp [hkind, Token.Is] at h
  · simp [hkind, Token.Is] at h

/-- **The grammar has no rule for a lexical error.** -/
theorem Derives.kind_ne_error {x : Nonterminal} {us : List Token} (h : Derives x us) :
    ∀ t ∈ us, t.kind ≠ .error := by
  have hoperator : ∀ {t : Token}, Operators.mayOperate t = true → t.kind ≠ .error := by
    intro t hmay hkind
    simp [Operators.mayOperate, hkind] at hmay
  induction h with
  | nothing | stop | noPiece => simp
  | last _ ih | plain _ ih | operand _ ih => exact ih
  | blank ht _ ih => exact List.forall_mem_cons.mpr ⟨by simp [ht], ih⟩
  | line _ ht _ ih ih' =>
      simp only [List.forall_mem_append, List.forall_mem_cons]
      exact ⟨ih, by simp [ht], ih'⟩
  | binding hkeyword hname hsign _ ih =>
      simp only [List.forall_mem_cons]
      exact ⟨by simp [hkeyword.1], by simp [hname], by simp [hsign.1], ih⟩
  | expression _ _ ih ih' => exact List.forall_mem_append.mpr ⟨ih, ih'⟩
  | between ht _ _ ih ih' =>
      simp only [List.forall_mem_append, List.forall_mem_cons]
      exact ⟨hoperator (between?_isSome ht).1, ih, ih'⟩
  | choice hopener _ hseparator _ _ ih ih' ih'' =>
      simp only [List.forall_mem_append, List.forall_mem_cons]
      exact ⟨by simp [hopener.1], ih, by simp [hseparator.1], ih', ih''⟩
  | before ht _ ih => exact List.forall_mem_cons.mpr ⟨hoperator (before?_isSome ht).1, ih⟩
  | leaf ht => exact List.forall_mem_singleton.mpr ht.kind_ne_error
  | group hopener _ hcloser ih =>
      simp only [List.forall_mem_append, List.forall_mem_cons]
      exact ⟨by simp [hopener.1], ih, by simp [hcloser.1]⟩
  | string hopener _ hcloser ih =>
      simp only [List.forall_mem_append, List.forall_mem_cons]
      exact ⟨by simp [hopener, TokenKind.string], ih, by simp [hcloser, TokenKind.string]⟩
  | content ht _ ih =>
      refine List.forall_mem_cons.mpr ⟨?_, ih⟩
      rcases ht with ht | ht <;> simp [ht, TokenKind.string]
  | name hmark hname _ ih =>
      simp only [List.forall_mem_cons]
      exact ⟨by simp [hmark, TokenKind.string], by simp [hname], ih⟩
  | block hopener _ hcloser _ ih ih' =>
      simp only [List.forall_mem_append, List.forall_mem_cons]
      exact ⟨by simp [hopener, TokenKind.string], ih, by simp [hcloser, TokenKind.string], ih'⟩

/-- A text that is read without an error has no lexical error in it, since trivia and the end of
the input are none. -/
theorem kind_ne_error_of_errors_eq_nil {source : String} {traced : Bool}
    (herrors : (parse source traced).errors = []) :
    ∀ t ∈ tokenize source config none, t.kind ≠ .error := by
  intro t ht hkind
  have hsignificant : t ∈ significantTokens source :=
    List.mem_filter.mpr ⟨ht, by simp [Token.isTrivia, TokenKind.isTrivia, hkind]⟩
  exact (program_sound herrors).kind_ne_error t hsignificant hkind

/-- The parser leaves the tokens as they are. -/
theorem tokens_parse (source : String) (traced : Bool) :
    (parse source traced).tokens.toList = tokenize source config none := by
  let s : Session Kind := Session.start (tokenize source config none) {} traced
  have hready : s.Ready := (lexed_start source {} traced).1.within.ready
  have htokens : (parse source traced).tokens = s.tokens :=
    (reaches_statements s.remaining hready).tokens
  rw [htokens]
  show (Session.ended (tokenize source config none)).toArray.toList = _
  rw [ended_tokenize, List.toList_toArray]

/-- **A text is valid if and only if there is no diagnostic about it.**  A text with a lexical
error, wherever it is, is not valid, and what is not valid has a diagnostic that is more than
a warning. -/
theorem valid_iff_no_diagnostic (source : String) :
    ((parseTree source).valid = true ↔
      Diagnostic.ofTree (Lines.ofText source.toList) (parseTree source).root = []) ∧
    ((∃ t ∈ tokenize source config none, t.kind = .error) → (parseTree source).valid = false) ∧
    ((parseTree source).valid = false →
      ∃ d ∈ Diagnostic.ofTree (Lines.ofText source.toList) (parseTree source).root,
        d.severity = .error) := by
  have hparts := registry_keeps.1
  have hvalid : (parseTree source).valid = !(parseTree source).root.hasError :=
    valid_build hparts _ _ _ _
  have htokens : (parseTree source).root.tokens ⊆ tokenize source config none := by
    rw [← tokens_parse source false]
    exact (tokens_build hparts _ _ _ _) ▸ List.filter_subset_self _
  have hlexical : (parseTree source).valid = true →
      ∀ t ∈ tokenize source config none, t.kind ≠ .error := by
    intro hout
    exact kind_ne_error_of_errors_eq_nil (errors_eq_nil_of_valid hout)
  generalize parseTree source = out at hvalid htokens hlexical ⊢
  have hshown : out.valid = false →
      ∃ d ∈ Diagnostic.ofTree (Lines.ofText source.toList) out.root, d.severity = .error := by
    intro hout
    have herror : out.root.hasError = true := by simpa [hout] using hvalid
    exact Diagnostic.exists_error_of_hasError herror _
  refine ⟨⟨?_, ?_⟩, ?_, hshown⟩
  · intro hout
    have hnodes : out.root.hasError = false := by simpa [hout] using hvalid
    exact Diagnostic.ofTree_eq_nil hnodes (fun u hu => hlexical hout u (htokens hu)) _
  · intro hnone
    by_contra hout
    obtain ⟨d, hd, _⟩ := hshown (Bool.eq_false_iff.mpr hout)
    rw [hnone] at hd
    cases hd
  · rintro ⟨t, ht, hkind⟩
    by_contra hout
    exact hlexical (by simpa using hout) t ht hkind

end Calculator

end Lossless
