import Lossless.Calculator.Kind
import Lossless.Proofs.Placement
import Lossless.Proofs.TokenStream

/-!
# Trees lose nothing

The leaves of a tree are the tokens that it was built from, whatever the markers and the
errors are.  If the tokens cover a window of a text, then so does the tree, **node by
node**: the text of each node is the part of the source at its span
(`build_lossless`).  Only the node of a reported error has no text; it stands for a
token that is a leaf somewhere else.
-/

namespace Lossless

variable {κ : Type}

/-! ## Stretches of a stream -/

/-- A stream over a window of a text: tokens that cover it and the end of input. -/
structure Token.Stream (cs : List Char) (w : Span) (tokens : List Token) : Prop where
  abut : Token.Abut w.start w.stop tokens
  holds : ∀ t ∈ tokens, t.HoldsText cs
  ne_nil : tokens ≠ []
  /-- The tokens that never become leaves hold no text. -/
  text_eof : ∀ t ∈ tokens, t.kind = .eof → t.text = ""

theorem Token.Covers.stream {cs : List Char} {w : Span} {body : List Token}
    (h : Token.Covers cs w body) : Token.Stream cs w (body ++ [Token.eof w.stop]) where
  abut := Token.abut_append.mpr ⟨w.stop, h.abut, rfl, rfl⟩
  holds := by
    intro t ht
    rcases List.mem_append.mp ht with ht | ht
    · exact h.holds t ht
    · obtain rfl := List.mem_singleton.mp ht
      exact h.stop_boundary
  ne_nil := by simp
  text_eof := by
    intro t ht hkind
    rcases List.mem_append.mp ht with ht | ht
    · exact absurd hkind (h.kind_ne_eof t ht)
    · obtain rfl := List.mem_singleton.mp ht
      rfl

theorem Token.Covers.filter_keeps {cs : List Char} {w : Span} {body : List Token}
    (h : Token.Covers cs w body) :
    (body ++ [Token.eof w.stop]).filter ({} : BuildOptions).keeps = body := by
  have hbody : body.filter ({} : BuildOptions).keeps = body := by
    rw [List.filter_eq_self]
    intro t ht
    simpa [keeps_default] using h.kind_ne_eof t ht
  rw [List.filter_append, hbody]
  simp [keeps_default, Token.eof]

/-- Tokens without a text may be left out. -/
theorem sourceText_filter_keeps {ts : List Token} (heof : ∀ t ∈ ts, t.kind = .eof → t.text = "") :
    Token.sourceText (ts.filter ({} : BuildOptions).keeps) = Token.sourceText ts := by
  induction ts with
  | nil => rfl
  | cons t ts ih =>
      have hrest := ih (fun u hu => heof u (List.mem_cons_of_mem _ hu))
      by_cases hkind : t.kind = .eof
      · have htext := heof t List.mem_cons_self hkind
        rw [List.filter_cons_of_neg (by simp [keeps_default, hkind]), hrest, Token.sourceText_cons,
          htext, String.empty_append]
      · rw [List.filter_cons_of_pos (by simp [keeps_default, hkind]), Token.sourceText_cons,
          Token.sourceText_cons, hrest]

/-- Tokens in a row reach from the start of the first to the stop of the last. -/
theorem Token.Abut.ends {i j : Nat} {ts : List Token} (h : Token.Abut i j ts) {t u : Token}
    (hfirst : ts.head? = some t) (hlast : ts.getLast? = some u) :
    t.span.start = i ∧ u.span.stop = j := by
  induction ts generalizing i t with
  | nil => cases hfirst
  | cons v vs ih =>
      obtain ⟨hstart, habut⟩ := h
      obtain rfl : v = t := by simpa using hfirst
      refine ⟨hstart, ?_⟩
      cases vs with
      | nil =>
          obtain rfl : v = u := by simpa using hlast
          exact habut
      | cons w ws => exact (ih habut rfl (by simpa using hlast)).2

/-- The span of a stretch reaches from its first token to its last one. -/
theorem tokenSpan_of_lt {tokens : List Token} {start stop : Nat} (hlt : start < stop)
    (hstop : stop ≤ tokens.length) :
    ∃ t u, tokens[start]? = some t ∧ tokens[stop - 1]? = some u ∧
      tokenSpan tokens.toArray start stop = ⟨t.span.start, u.span.stop⟩ := by
  have hfirst : start < tokens.length := by omega
  have hlast : stop - 1 < tokens.length := by omega
  refine ⟨_, _, List.getElem?_eq_getElem hfirst, List.getElem?_eq_getElem hlast, ?_⟩
  simp [tokenSpan, hlt, hstop, hfirst, hlast]

/-- The span of no tokens is empty and starts where a token starts. -/
theorem tokenSpan_self {tokens : List Token} (hne : tokens ≠ []) (start : Nat) :
    ∃ t ∈ tokens, tokenSpan tokens.toArray start start = .empty t.span.start := by
  cases hstart : tokens[start]? with
  | some t =>
      refine ⟨t, List.mem_of_getElem? hstart, ?_⟩
      simp [tokenSpan, hstart]
  | none =>
      refine ⟨tokens.getLast hne, List.getLast_mem hne, ?_⟩
      simp [tokenSpan, hstart, List.getLast?_eq_some_getLast hne]

/-- A stretch of tokens in a row lies in a row itself, from end to end of its span. -/
theorem Token.Abut.stretch {i j : Nat} {tokens : List Token} (h : Token.Abut i j tokens)
    {start stop : Nat} (hlt : start < stop) (hstop : stop ≤ tokens.length) :
    Token.Abut (tokenSpan tokens.toArray start stop).start (tokenSpan tokens.toArray start stop).stop
      ((tokens.drop start).take (stop - start)) := by
  have hsplit : tokens =
      tokens.take start ++ ((tokens.drop start).take (stop - start) ++ tokens.drop stop) := by
    have hsum : start + (stop - start) = stop := by omega
    rw [← hsum, ← List.drop_drop, hsum, List.take_append_drop, List.take_append_drop]
  have hwhole := hsplit ▸ h
  obtain ⟨i', _, hrest⟩ := Token.abut_append.mp hwhole
  obtain ⟨j', habut, _⟩ := Token.abut_append.mp hrest
  have hfirst : ((tokens.drop start).take (stop - start)).head? = tokens[start]? := by
    rw [List.head?_take, if_neg (by omega), List.head?_drop]
  have hlast : ((tokens.drop start).take (stop - start)).getLast? = tokens[stop - 1]? := by
    have hindex : start + (stop - start - 1) = stop - 1 := by omega
    rw [List.getLast?_take, if_neg (by omega), List.getElem?_drop, hindex,
      List.getElem?_eq_getElem (by omega), Option.some_or]
  obtain ⟨t, u, ht, hu, hspan⟩ := tokenSpan_of_lt hlt hstop
  obtain ⟨rfl, rfl⟩ := habut.ends (hfirst.trans ht) (hlast.trans hu)
  rw [hspan]
  exact habut

/-- **The leaves of a stretch of a stream hold the text at the span of the stretch.** -/
theorem Token.Stream.slice?_tokenSpan {cs : List Char} {w : Span} {tokens : List Token}
    (h : Token.Stream cs w tokens) (r : Registry κ) {start stop : Nat} (hle : start ≤ stop)
    (hstop : stop ≤ tokens.length) :
    let span := tokenSpan tokens.toArray start stop
    Text.slice? cs span.start span.stop =
      some (Token.sourceText
        (BuildContext.leafTokens ⟨tokens.toArray, {}, r⟩ start stop)).toList := by
  intro span
  rcases Nat.lt_or_eq_of_le hle with hlt | rfl
  · have hmem : ∀ t ∈ (tokens.drop start).take (stop - start), t ∈ tokens :=
      fun t ht => List.mem_of_mem_drop (List.mem_of_mem_take ht)
    have habut := h.abut.stretch hlt hstop
    obtain ⟨_, u, _, hu, hspan⟩ := tokenSpan_of_lt hlt hstop
    have hboundary : Text.slice? cs span.stop span.stop = some [] := by
      simp only [span, hspan]
      exact Text.slice?_stop (h.holds u (List.mem_of_getElem? hu))
    rw [BuildContext.leafTokens, sourceText_filter_keeps (fun t ht => h.text_eof t (hmem t ht))]
    exact Token.slice?_sourceText habut (fun t ht => h.holds t (hmem t ht)) hboundary
  · obtain ⟨t, ht, hspan⟩ := tokenSpan_self h.ne_nil start
    have hempty : BuildContext.leafTokens ⟨tokens.toArray, {}, r⟩ start start = [] := by
      simp [BuildContext.leafTokens]
    simp only [span, hspan, hempty]
    exact Text.slice?_start (h.holds t ht)

/-! ## Every node -/

variable [DecidableEq κ] [Named κ]

/-- A node made for a marker of a stream holds the text at its span. -/
theorem Token.Stream.slice?_madeFor {cs : List Char} {w : Span} {tokens : List Token}
    (h : Token.Stream cs w tokens) {r : Registry κ} (hparts : r.KeepsParts) (hspan : r.KeepsSpan)
    {m : Marker κ} (hle : m.start ≤ m.stop) (hstop : m.stop ≤ tokens.length) {node : Tree κ}
    (hnode : BuildContext.MadeFor ⟨tokens.toArray, {}, r⟩ m node) :
    Text.slice? cs node.span.start node.span.stop = some node.text.toList := by
  let b : BuildContext κ := ⟨tokens.toArray, {}, r⟩
  obtain ⟨parts, rfl, htokens⟩ := hnode
  obtain ⟨kind, span, hclose⟩ := b.close_parts hparts m parts []
  have hnodeSpan := b.close_span hspan m parts []
  have hnodeTokens : (b.close m parts []).tree.tokens = b.leafTokens m.start m.stop := by
    rw [hclose, Tree.tokens, htokens]
  rw [Tree.text, hnodeTokens, hnodeSpan]
  exact h.slice?_tokenSpan r hle hstop

/-- **Trees are lossless, node by node.**  For a stream over a window of a text, and any markers
and errors whatsoever, the leaves of the tree are the tokens of the stream, and every node that
does not stand for a reported error has the text at its span. -/
theorem build_lossless {cs : List Char} {w : Span} {body : List Token}
    (hbody : Token.Covers cs w body) {r : Registry κ} (hparts : r.KeepsParts)
    (hspan : r.KeepsSpan) (markers : List (Marker κ)) (errors : List ParseError) :
    let root := (build r {} (body ++ [Token.eof w.stop]) markers errors).root
    root.tokens = body ∧
      ∀ node ∈ root.nodes,
        (∃ e ∈ errors, node = .node (.error e.message (some e.index)) e.span []) ∨
          Text.slice? cs node.span.start node.span.stop = some node.text.toList := by
  intro root
  have hstream := hbody.stream
  have htokens : root.tokens = body := by
    rw [tokens_build hparts, hbody.filter_keeps]
  refine ⟨htokens, ?_⟩
  intro node hnode
  obtain ⟨below, hnodes, elements, shown, hperm, hmade, hshown⟩ :=
    nodes_build hparts {} (body ++ [Token.eof w.stop]) markers errors
  rw [hnodes] at hnode
  rcases List.mem_cons.mp hnode with rfl | hnode
  · have hwhole := hstream.slice?_tokenSpan r (Nat.zero_le _) (Nat.le_refl _)
    rw [BuildContext.leafTokens_all, ← tokens_build hparts {} _ markers errors] at hwhole
    exact Or.inr hwhole
  · rcases List.mem_append.mp (hperm.mem_iff.mp hnode) with helement | hreport
    · obtain ⟨m, hm, hfor⟩ := exists_mem_of_forall₂ (List.Forall₂.flip hmade) helement
      obtain ⟨hle, hstop⟩ := kept_fits hm
      exact Or.inr (hstream.slice?_madeFor hparts hspan hle hstop hfor)
    · obtain ⟨e, he, rfl⟩ := List.mem_map.mp hreport
      exact Or.inl ⟨e, hshown e he, rfl⟩

theorem Calculator.constructor_cases {kind : Kind} {constructor : Constructor Kind}
    (hget : registry.get? kind = some constructor) :
    constructor = groupConstructor ∨ constructor = assignConstructor := by
  cases kind <;> simp [registry, Registry.register, Registry.get?] at hget <;> simp [← hget]

/-- The constructors of the calculator keep the parts and the span of an element. -/
theorem Calculator.registry_keeps :
    Calculator.registry.KeepsParts ∧ Calculator.registry.KeepsSpan := by
  have hbuilt : ∀ kind constructor, Calculator.registry.get? kind = some constructor →
      ∀ m parts span node, constructor m parts span = .built node →
        ∃ k, node = .node (.element k) span parts := by
    intro kind constructor hget m parts span node hnode
    rcases Calculator.constructor_cases hget with rfl | rfl
    · unfold Calculator.groupConstructor at hnode
      split at hnode
      · cases hnode
        exact ⟨_, rfl⟩
      · cases hnode
    · unfold Calculator.assignConstructor at hnode
      split at hnode
      · cases hnode
        exact ⟨_, rfl⟩
      · cases hnode
  constructor
  · intro kind constructor hget m parts span node hnode
    obtain ⟨k, rfl⟩ := hbuilt kind constructor hget m parts span node hnode
    exact ⟨rfl, rfl⟩
  · intro kind constructor hget m parts span node hnode
    obtain ⟨k, rfl⟩ := hbuilt kind constructor hget m parts span node hnode
    rfl

/-- A group that is refused, an assignment in it, a marker that crosses it, one that is
inverted, and an error. -/
theorem build_lossless_unclosed_group :
    let body : List Token :=
      [⟨.punctuation, "(", ⟨2, 3⟩⟩, ⟨.identifier, "é", ⟨3, 5⟩⟩, ⟨.operator, "=", ⟨5, 6⟩⟩,
        ⟨.whitespace, " ", ⟨6, 7⟩⟩, ⟨.identifier, "b", ⟨7, 8⟩⟩]
    let markers : List (Marker Calculator.Kind) :=
      [⟨1, 0, 3, .group, none⟩, ⟨2, 1, 2, .name, none⟩, ⟨3, 1, 3, .assign, none⟩,
        ⟨4, 2, 5, .add, none⟩, ⟨5, 4, 2, .mul, none⟩]
    let errors : List ParseError := [⟨3, "expected ')'", ⟨6, 7⟩⟩]
    let root := (build Calculator.registry {} (body ++ [Token.eof 8]) markers errors).root
    Token.Covers "ü(é= b;".toList ⟨2, 8⟩ body ∧ Calculator.registry.KeepsParts ∧
      Calculator.registry.KeepsSpan ∧ root.errors.length = 2 ∧ root.tokens = body ∧
      ∀ node ∈ root.nodes,
        (∃ e ∈ errors, node = .node (.error e.message (some e.index)) e.span []) ∨
          Text.slice? "ü(é= b;".toList node.span.start node.span.stop =
            some node.text.toList := by
  intro body markers errors root
  obtain ⟨hparts, hspan⟩ := Calculator.registry_keeps
  have hbody : Token.Covers "ü(é= b;".toList ⟨2, 8⟩ body := by
    refine ⟨⟨rfl, rfl, rfl, rfl, rfl, rfl⟩, ?_, ?_, by decide⟩
    · unfold Token.HoldsText
      decide
    · decide
  exact ⟨hbody, hparts, hspan, by cbv, build_lossless hbody hparts hspan markers errors⟩

end Lossless
