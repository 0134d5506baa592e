import Lossless.Proofs.Coverage

/-!
# Dropping trivia is filtering

`tokenize` reads all lexemes of a window and then leaves out the trivia that a configuration
does not keep.  A scanner may also write tokens down while it reads and skip such trivia there
and then (`tokenizeInPlace`).  For a string that breaks off it goes back to the number of tokens
that it had at the opening delimiter, and writes one error instead; how many tokens are taken
back depends on what is kept, also from inside of blocks.

**The two give the same tokens** (`tokenizeInPlace_eq`): what is written since the opening
delimiter only ever comes behind what was there, so the mark finds its place again whatever is
kept.
-/

namespace Lossless

/-! ## Writing tokens down -/

/-- The tokens written down so far, and how far the text has been read. -/
structure Output where
  tokens : List Token
  position : Nat
deriving DecidableEq, Repr

namespace Output

/-- Moves past a lexeme, and writes it down if tokens of its kind are kept. -/
def push (keeps : TokenKind → Bool) (o : Output) (l : Lexeme) : Output :=
  let stop := o.position + Text.byteSize l.text
  let token : Token := ⟨l.kind, String.ofList l.text, ⟨o.position, stop⟩⟩
  ⟨if keeps l.kind then o.tokens ++ [token] else o.tokens, stop⟩

/-- Goes back to a position and a number of tokens. -/
def truncate (o : Output) (count position : Nat) : Output :=
  ⟨o.tokens.take count, position⟩

end Output

/-- What writing a stretch of text down gives. -/
structure Written where
  output : Output
  rest : List Char
  /-- Whether the stretch came to its proper end. -/
  closed : Bool

/-- A way to write the code of an interpolation block down. -/
abbrev BlockWriter := Nat → Bool → Output → List Char → Written

section Writing

variable (r : Rules) (keeps : TokenKind → Bool)

/-- Writes the pieces of a string behind its opening delimiter. -/
def writePieces (block? : Option BlockWriter) (style : StringStyle) (delimiter : List Char) :
    Nat → Output → List Char → Written
  | 0, o, cs => ⟨o, cs, false⟩
  | _ + 1, o, [] => ⟨o, [], false⟩
  | rounds + 1, o, c :: cs =>
    if style.breaksAt c then
      ⟨o, c :: cs, false⟩
    else if delimiter.isPrefixOf (c :: cs) then
      ⟨o.push keeps ⟨.string (.closing style), delimiter⟩, (c :: cs).drop delimiter.length, true⟩
    else if some c == r.escapeChar then
      match cs with
      | [] => ⟨o, [], false⟩
      | d :: ds =>
        if style.breaksAt d then
          ⟨o, d :: ds, false⟩
        else
          writePieces block? style delimiter rounds (o.push keeps ⟨.string .escaped, [c, d]⟩) ds
    else
      match interpolation? r block?.isSome (c :: cs), block? with
      | some .block, some block =>
        let inner := block rounds (style == .singleLine)
          (o.push keeps ⟨.string .blockOpen, c :: cs.take 1⟩) (cs.drop 1)
        if inner.closed then
          writePieces block? style delimiter rounds inner.output inner.rest
        else
          inner
      | some .name, _ =>
        match cs with
        | [] => ⟨o, [], false⟩
        | d :: ds =>
          let name := Plain.word r d ds
          writePieces block? style delimiter rounds
            ((o.push keeps ⟨.string .nameMark, [c]⟩).push keeps name.lexeme) name.rest
      | _, _ =>
        let (run, rest) := splitBefore (contentStops r block?.isSome style delimiter) cs
        writePieces block? style delimiter rounds (o.push keeps ⟨.string .basic, c :: run⟩) rest

/-- Writes a string literal.  If it breaks off, all that was written for it is taken back, and
it is written as one error. -/
def writeString (block? : Option BlockWriter) (style : StringStyle) (delimiter : List Char)
    (rounds : Nat) (o : Output) (cs : List Char) : Output × List Char :=
  let written := writePieces r keeps block? style delimiter rounds
    (o.push keeps ⟨.string (.opening style), delimiter⟩) (cs.drop delimiter.length)
  if written.closed then
    (written.output, written.rest)
  else
    let text := cs.take (cs.length - written.rest.length)
    ((written.output.truncate o.tokens.length o.position).push keeps ⟨.error, text⟩, written.rest)

/-- Writes what the first rule to apply reads off the text `c :: cs`. -/
def writeAt (block? : Option BlockWriter) (rounds : Nat) (o : Output) (c : Char)
    (cs : List Char) : Output × List Char :=
  match Plain.linebreak? (c :: cs) <|> Plain.blanks? (c :: cs) <|> Plain.comment? r (c :: cs) with
  | some cut => (o.push keeps cut.lexeme, cut.rest)
  | none =>
    match opening? r (c :: cs) with
    | some (style, delimiter) => writeString r keeps block? style delimiter rounds o (c :: cs)
    | none =>
      let cut := if r.charDelimiter == some c then Plain.charLiteral r c cs else Plain.other r c cs
      (o.push keeps cut.lexeme, cut.rest)

/-- Writes code in a region, with `braces` braces open. -/
def writeTokens (block? : Option BlockWriter) (region : Region) :
    Nat → Nat → Output → List Char → Written
  | 0, _, o, cs => ⟨o, cs, false⟩
  | _ + 1, _, o, [] => ⟨o, [], false⟩
  | rounds + 1, braces, o, c :: cs =>
    match region.gate braces c with
    | .close => ⟨o.push keeps ⟨.string .blockClose, [c]⟩, cs, true⟩
    | .halt => ⟨o, c :: cs, false⟩
    | .token open' =>
      let (o, rest) := writeAt r keeps block? rounds o c cs
      writeTokens block? region rounds open' o rest

/-- Writes code in a region, in which blocks may still nest `levels` deep. -/
def writeCode : Nat → Region → Nat → Output → List Char → Written
  | 0, region, rounds, o, cs => writeTokens r keeps none region rounds 0 o cs
  | levels + 1, region, rounds, o, cs =>
    let block : BlockWriter := fun rounds lineBound => writeCode levels (.block lineBound) rounds
    writeTokens r keeps (some block) region rounds 0 o cs

end Writing

/-- The tokens of a window, written down while it is read. -/
def tokenizeInPlace (source : String) (config : Config) (asked : Option Span) : List Token :=
  let cs := source.toList
  let w := window cs asked
  let text := w.chars cs
  let written := writeCode (Rules.ofConfig config) config.keeps maxBlockDepth .top text.length
    ⟨[], w.start⟩ text
  written.output.tokens ++ [Token.eof w.stop]

/-! ## Written lexemes -/

namespace Output

variable {keeps : TokenKind → Bool}

/-- Moves past lexemes in order. -/
def pushAll (keeps : TokenKind → Bool) (o : Output) (ls : List Lexeme) : Output :=
  ls.foldl (push keeps) o

@[simp] theorem pushAll_nil (o : Output) : o.pushAll keeps [] = o := rfl

@[simp] theorem pushAll_cons (o : Output) (l : Lexeme) (ls : List Lexeme) :
    o.pushAll keeps (l :: ls) = (o.push keeps l).pushAll keeps ls := rfl

theorem pushAll_append (o : Output) (ks ls : List Lexeme) :
    o.pushAll keeps (ks ++ ls) = (o.pushAll keeps ks).pushAll keeps ls :=
  List.foldl_append

/-- Writing lexemes down puts those that are kept, in their places, behind what is there. -/
theorem tokens_pushAll (o : Output) (ls : List Lexeme) :
    (o.pushAll keeps ls).tokens =
      o.tokens ++ (Lexeme.placeFrom o.position ls).filter fun t => keeps t.kind := by
  induction ls generalizing o with
  | nil => simp [Lexeme.placeFrom]
  | cons l ls ih =>
      rw [pushAll_cons, ih, Lexeme.placeFrom, List.filter_cons]
      cases hkeeps : keeps l.kind with
      | true => simp [push, hkeeps]
      | false => simp [push, hkeeps]

theorem prefix_pushAll (o : Output) (ls : List Lexeme) :
    o.tokens <+: (o.pushAll keeps ls).tokens := by
  rw [tokens_pushAll]
  exact List.prefix_append _ _

theorem prefix_push (o : Output) (l : Lexeme) : o.tokens <+: (o.push keeps l).tokens :=
  o.prefix_pushAll [l]

/-- Going back to where an output was. -/
theorem truncate_eq {o o' : Output} (h : o.tokens <+: o'.tokens) :
    o'.truncate o.tokens.length o.position = o := by
  obtain ⟨later, hlater⟩ := h
  simp [truncate, ← hlater]

end Output

/-- A scan, written down behind what is there. -/
def Scan.written (keeps : TokenKind → Bool) (s : Scan) (o : Output) : Written :=
  ⟨o.pushAll keeps s.lexemes, s.rest, s.closed⟩

theorem Scan.written_after (keeps : TokenKind → Bool) (s : Scan) (ls : List Lexeme) (o : Output) :
    (s.after ls).written keeps o = s.written keeps (o.pushAll keeps ls) := by
  simp [Scan.written, Scan.after, Output.pushAll_append]

/-- The writer of blocks that first scans them. -/
def BlockScanner.writer (keeps : TokenKind → Bool) (block : BlockScanner) : BlockWriter :=
  fun rounds lineBound o cs => (block rounds lineBound cs).written keeps o

/-- Writing agrees with a scan: it reads the same text, and comes to its end where the scan
does.  Then the lexemes of the scan are written; otherwise something is, behind what was
there. -/
structure Scan.Transcribed (keeps : TokenKind → Bool) (s : Scan) (o : Output) (w : Written) :
    Prop where
  rest : w.rest = s.rest
  closed : w.closed = s.closed
  output : s.closed = true → w.output = o.pushAll keeps s.lexemes
  kept : o.tokens <+: w.output.tokens

namespace Scan.Transcribed

variable {keeps : TokenKind → Bool} {s : Scan} {o : Output} {w : Written}

/-- A scan that breaks off, whatever its last lexemes are. -/
theorem broken (o : Output) (ls : List Lexeme) (rest : List Char) :
    Scan.Transcribed keeps ⟨ls, rest, false⟩ o ⟨o, rest, false⟩ :=
  ⟨rfl, rfl, by simp, List.prefix_refl _⟩

/-- Lexemes are written first. -/
theorem after {ls : List Lexeme} (h : s.Transcribed keeps (o.pushAll keeps ls) w) :
    (s.after ls).Transcribed keeps o w where
  rest := h.rest
  closed := h.closed
  output hclosed := by
    rw [h.output hclosed]
    exact (o.pushAll_append ls s.lexemes).symm
  kept := (o.prefix_pushAll ls).trans h.kept

end Scan.Transcribed

section Transcribing

variable (r : Rules) (keeps : TokenKind → Bool) {block? : Option BlockScanner}

theorem writePieces_transcribed (block? : Option BlockScanner) (style : StringStyle)
    (delimiter : List Char) (rounds : Nat) (o : Output) (cs : List Char) :
    (pieces r block? style delimiter rounds cs).Transcribed keeps o
      (writePieces r keeps (block?.map (·.writer keeps)) style delimiter rounds o cs) := by
  induction rounds generalizing o cs with
  | zero => exact .broken o [] cs
  | succ rounds ih =>
      cases cs with
      | nil => exact .broken o [] []
      | cons c cs =>
          simp only [pieces, writePieces, Option.isSome_map]
          by_cases hbreaks : style.breaksAt c = true
          · simp only [hbreaks, if_true]
            exact .broken o [] _
          by_cases hclose : delimiter.isPrefixOf (c :: cs) = true
          · simp only [hbreaks, hclose, if_true, if_false, Bool.false_eq_true]
            exact ⟨rfl, rfl, fun _ => rfl, o.prefix_push _⟩
          by_cases hescape : (some c == r.escapeChar) = true
          · simp only [hbreaks, hclose, hescape, if_true, if_false, Bool.false_eq_true]
            cases cs with
            | nil => exact .broken o _ _
            | cons d ds =>
                simp only
                split
                · exact .broken o _ _
                · exact (ih _ ds).after
          simp only [hbreaks, hclose, hescape, if_false, Bool.false_eq_true]
          -- what follows depends on the interpolation, and on whether blocks may be opened
          cases hopens : interpolation? r block?.isSome (c :: cs) with
          | none => exact (ih _ _).after
          | some opens =>
              cases opens with
              | name =>
                  cases cs with
                  | nil => exact .broken o _ _
                  | cons d ds => exact (ih _ _).after
              | block =>
                  cases block? with
                  | none => exact (ih _ _).after
                  | some block =>
                      have hwriter : BlockScanner.writer keeps block = fun rounds lineBound o cs =>
                          (block rounds lineBound cs).written keeps o := rfl
                      simp only [Option.map_some, hwriter, Scan.written]
                      split
                      · exact (ih _ _).after
                      · rename_i hopen
                        exact ⟨rfl, Bool.eq_false_iff.mpr hopen, by simp,
                          (o.prefix_push _).trans (Output.prefix_pushAll _ _)⟩

/-- **A broken string takes back what was written for it**, and nothing else. -/
theorem writeString_eq (hblock : ∀ block ∈ block?, BlockScanner.Splits block)
    {style : StringStyle} {delimiter : List Char} (rounds : Nat) (o : Output) {cs : List Char}
    (hopening : opening? r cs = some (style, delimiter)) :
    writeString r keeps (block?.map (·.writer keeps)) style delimiter rounds o cs =
      (o.pushAll keeps (stringLiteral r block? style delimiter rounds cs).1,
        (stringLiteral r block? style delimiter rounds cs).2) := by
  obtain ⟨hne, hpre⟩ := opening?_isPrefixOf hopening
  have hsplit := pieces_split r hblock style hne rounds (cs.drop delimiter.length)
  have hwritten := writePieces_transcribed r keeps block? style delimiter rounds
    (o.push keeps ⟨.string (.opening style), delimiter⟩) (cs.drop delimiter.length)
  simp only [writeString, stringLiteral, Scan.sealed]
  generalize pieces r block? style delimiter rounds (cs.drop delimiter.length) = scan
    at hsplit hwritten ⊢
  generalize writePieces r keeps (block?.map (·.writer keeps)) style delimiter rounds
    (o.push keeps ⟨.string (.opening style), delimiter⟩) (cs.drop delimiter.length) = written
    at hwritten ⊢
  have htext : delimiter ++ Lexeme.joined scan.lexemes =
      cs.take (cs.length - scan.rest.length) := by
    have hcs : delimiter ++ Lexeme.joined scan.lexemes ++ scan.rest = cs := by
      rw [List.append_assoc, hsplit.joined, append_drop_of_isPrefixOf hpre]
    have hlength : cs.length - scan.rest.length =
        (delimiter ++ Lexeme.joined scan.lexemes).length := by
      rw [← hcs, List.length_append, Nat.add_sub_cancel]
    rw [hlength, ← hcs, List.take_left]
  cases hclosed : scan.closed with
  | true =>
      have hend : written.closed = true := hwritten.closed.trans hclosed
      simp only [hend, hclosed, Scan.after, if_true, hwritten.rest, hwritten.output hclosed]
      rfl
  | false =>
      have hbroken : written.closed = false := hwritten.closed.trans hclosed
      have hback := Output.truncate_eq ((o.prefix_push _).trans hwritten.kept)
      simp only [hbroken, hclosed, Scan.after, if_false, Bool.false_eq_true, hwritten.rest, hback,
        ← htext]
      simp

theorem writeAt_eq (hblock : ∀ block ∈ block?, BlockScanner.Splits block) (rounds : Nat)
    (o : Output) (c : Char) (cs : List Char) :
    writeAt r keeps (block?.map (·.writer keeps)) rounds o c cs =
      (o.pushAll keeps (lexemesAt r block? rounds c cs).1, (lexemesAt r block? rounds c cs).2) := by
  unfold writeAt lexemesAt
  cases Plain.linebreak? (c :: cs) <|> Plain.blanks? (c :: cs) <|> Plain.comment? r (c :: cs) with
  | some cut => rfl
  | none =>
      cases hopening : opening? r (c :: cs) with
      | some found => exact writeString_eq r keeps hblock rounds o hopening
      | none => rfl

theorem writeTokens_eq (hblock : ∀ block ∈ block?, BlockScanner.Splits block) (region : Region)
    (rounds braces : Nat) (o : Output) (cs : List Char) :
    writeTokens r keeps (block?.map (·.writer keeps)) region rounds braces o cs =
      (tokensIn r block? region rounds braces cs).written keeps o := by
  induction rounds generalizing braces o cs with
  | zero => rfl
  | succ rounds ih =>
      cases cs with
      | nil => rfl
      | cons c cs =>
          simp only [writeTokens, tokensIn]
          cases region.gate braces c with
          | close => rfl
          | halt => rfl
          | token open' =>
              simp only
              rw [writeAt_eq r keeps hblock, ih, Scan.written_after]

theorem writeCode_eq (levels : Nat) (region : Region) (rounds : Nat) (o : Output)
    (cs : List Char) :
    writeCode r keeps levels region rounds o cs =
      (code r levels region rounds cs).written keeps o := by
  induction levels generalizing region rounds o cs with
  | zero => exact @writeTokens_eq r keeps none (by simp) region rounds 0 o cs
  | succ levels ih =>
      have hblocks : (fun rounds lineBound => writeCode r keeps levels (.block lineBound) rounds) =
          BlockScanner.writer keeps
            fun rounds lineBound => code r levels (.block lineBound) rounds := by
        funext rounds lineBound o cs
        exact ih _ _ _ _
      rw [writeCode, hblocks]
      refine @writeTokens_eq r keeps (some _) ?_ region rounds 0 o cs
      intro block hb
      obtain rfl := Option.some.inj hb
      exact fun rounds lineBound cs => code_split r levels (.block lineBound) rounds cs

end Transcribing

/-! ## Filtering -/

/-- **Writing tokens down in place gives the tokens of the text.** -/
theorem tokenizeInPlace_eq (source : String) (config : Config) (asked : Option Span) :
    tokenizeInPlace source config asked = tokenize source config asked := by
  simp only [tokenizeInPlace, tokenize, lexemes]
  rw [writeCode_eq, Scan.written, Output.tokens_pushAll, List.nil_append]

theorem Rules.ofConfig_withTrivia (c : Config) (whitespace comments : Bool) :
    Rules.ofConfig (c.withTrivia whitespace comments) = Rules.ofConfig c := rfl

theorem Config.keeps_withTrivia (c : Config) (whitespace comments : Bool) (kind : TokenKind) :
    (c.withTrivia whitespace comments).keeps kind =
      ((whitespace || kind != .whitespace) && (comments || kind != .comment)) := by
  cases kind <;> simp [Config.keeps, Config.withTrivia]

theorem tokenize_withTrivia (source : String) (c : Config) (asked : Option Span)
    (whitespace comments : Bool) :
    tokenize source (c.withTrivia whitespace comments) asked =
      (tokenize source (c.withTrivia true true) asked).filter fun t =>
        (whitespace || t.kind != .whitespace) && (comments || t.kind != .comment) := by
  simp only [tokenize, Rules.ofConfig_withTrivia, Config.keeps_withTrivia, List.filter_append]
  simp [Token.eof]

/-- **Dropping trivia is filtering.**  For every text, configuration and window, leaving out
whitespace or comments gives the tokens that are read when all trivia is kept, without the
whitespace or the comments.  A scanner that skips this trivia while it reads, and takes back the
tokens of broken strings, gives the same tokens. -/
theorem tokenize_withTrivia_eq_filter (source : String) (c : Config) (asked : Option Span)
    (whitespace comments : Bool) :
    let kept := (tokenize source (c.withTrivia true true) asked).filter fun t =>
      (whitespace || t.kind != .whitespace) && (comments || t.kind != .comment)
    tokenize source (c.withTrivia whitespace comments) asked = kept ∧
      tokenizeInPlace source (c.withTrivia whitespace comments) asked = kept := by
  intro kept
  have hfilter := tokenize_withTrivia source c asked whitespace comments
  exact ⟨hfilter, (tokenizeInPlace_eq source _ asked).trans hfilter⟩

/-- Of a string that breaks off in a block one error is left, whether the blanks in the block were
written down or not. -/
example :
    (tokenizeInPlace "a \"b$\x7b c\n" (Config.curlyBrace.withTrivia false true) none).map
      (fun t => (t.kind, t.text)) =
      [(.identifier, "a"), (.error, "\"b$\x7b c"), (.linebreak, "\n"), (.eof, "")] := by
  cbv

end Lossless
