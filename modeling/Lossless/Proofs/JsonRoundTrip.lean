import Lossless.Json.Reader
import Lossless.Json.Writer
import Lossless.Proofs.Digits

/-!
# What is written as JSON is read back

A value and its reader agree if the reader gets the value back from what is written, **at any
depth, behind any blanks and in front of anything that may follow a value** (`Writer.ReadsAs`).
With the rest of the text left open in this way, values that agree with their readers can be put
together: lists agree if their items do (`list_readsAs`), and an object agrees with a record if its
members do with the fields, one by one (`record_readsAs`).

Strings come first.  Each character is read back whether it is written as it is, behind a backslash
or by its code (`stringBody_escape`).  A number is read to where a value may end, and has no leading
zero (`numeral_written`).  An alternative is read back by its name, alone or with a value that
belongs to it (`plain_readsAs`, `holding_readsAs`).
-/

namespace Lossless.Json

/-! ## Strings -/

theorem hexValue?_hexDigit : ∀ d < 16, hexValue? (hexDigit d) = some d := by
  decide

/-- The code of a control character below the space is read back. -/
theorem codedChar_control {c : Char} (hc : c.toNat < 32) (cs : List Char) :
    codedChar ('0' :: '0' :: hexDigit (c.toNat / 16) :: hexDigit (c.toNat % 16) :: cs) =
      .ok (c, cs) := by
  have hzero : hexValue? '0' = some 0 := by decide
  have hhigh := hexValue?_hexDigit (c.toNat / 16) (by omega)
  have hlow := hexValue?_hexDigit (c.toNat % 16) (by omega)
  have hvalue : c.toNat / 16 * 16 + c.toNat % 16 = c.toNat := by omega
  have hunit : codeUnit ('0' :: '0' :: hexDigit (c.toNat / 16) :: hexDigit (c.toNat % 16) :: cs) =
      .ok (c.toNat, cs) := by
    simp [codeUnit, hzero, hhigh, hlow, hvalue]
  have htrail : ¬ 0xDC00 ≤ c.toNat := by omega
  have hlead : ¬ 0xD800 ≤ c.toNat := by omega
  simp [codedChar, hunit, bind, Except.bind, htrail, hlead]

/-- The characters with a letter of their own. -/
def lettered : List Char :=
  ['"', '\\', '\x08', '\x0c', '\n', '\r', '\t']

theorem escape_lettered {c : Char} (h : c ∈ lettered) :
    ∃ d, escape c = ['\\', d] ∧ escaped? d = some c := by
  simp only [lettered, List.mem_cons, List.not_mem_nil, or_false] at h
  rcases h with rfl | rfl | rfl | rfl | rfl | rfl | rfl
  · exact ⟨'"', rfl, rfl⟩
  · exact ⟨'\\', rfl, rfl⟩
  · exact ⟨'b', rfl, rfl⟩
  · exact ⟨'f', rfl, rfl⟩
  · exact ⟨'n', rfl, rfl⟩
  · exact ⟨'r', rfl, rfl⟩
  · exact ⟨'t', rfl, rfl⟩

theorem escapedChar_of_escaped? {c d : Char} (h : escaped? d = some c) (cs : List Char) :
    escapedChar (d :: cs) = .ok (c, cs) := by
  have hcode : d ≠ 'u' := by
    rintro rfl
    cases h
  simp [escapedChar, hcode, h]

/-- A character is written behind a backslash and read back from there, or it is written as it
is. -/
theorem escape_cases (c : Char) :
    (∃ body, escape c = '\\' :: body ∧ ∀ cs, escapedChar (body ++ cs) = .ok (c, cs)) ∨
      escape c = [c] ∧ c ≠ '"' ∧ c ≠ '\\' ∧ 32 ≤ c.toNat := by
  by_cases hlettered : c ∈ lettered
  · obtain ⟨d, hescape, hread⟩ := escape_lettered hlettered
    exact Or.inl ⟨[d], hescape, escapedChar_of_escaped? hread⟩
  · simp only [lettered, List.mem_cons, List.not_mem_nil, or_false, not_or] at hlettered
    obtain ⟨hquote, hslash, _⟩ := hlettered
    by_cases hcontrol : c.toNat < 32
    · refine Or.inl ⟨['u', '0', '0', hexDigit (c.toNat / 16), hexDigit (c.toNat % 16)], ?_, ?_⟩
      · simp_all [escape]
      · exact codedChar_control hcontrol
    · refine Or.inr ⟨?_, hquote, hslash, Nat.le_of_not_lt hcontrol⟩
      simp_all [escape]

theorem stringBody_escape (c : Char) (rounds : Nat) (cs : List Char) :
    stringBody (rounds + 1) (escape c ++ cs) =
      (stringBody rounds cs).map fun p => (c :: p.1, p.2) := by
  rcases escape_cases c with ⟨body, hescape, hread⟩ | ⟨hescape, hquote, hslash, hspace⟩
  · rw [hescape, List.cons_append, stringBody]
    simp only [hread]
    rfl
  · rw [hescape, List.singleton_append, stringBody]
    simp only [beq_iff_eq, hquote, hslash, Nat.not_lt.mpr hspace, if_false]
    cases stringBody rounds cs <;> rfl

theorem stringBody_written {s : List Char} {rounds : Nat} (hrounds : s.length < rounds)
    (rest : List Char) :
    stringBody rounds (s.flatMap escape ++ '"' :: rest) = .ok (s, rest) := by
  induction s generalizing rounds with
  | nil =>
      obtain ⟨rounds, rfl⟩ := Nat.exists_eq_add_one_of_ne_zero (Nat.ne_of_gt hrounds)
      rfl
  | cons c s ih =>
      obtain ⟨rounds, rfl⟩ := Nat.exists_eq_add_one_of_ne_zero (Nat.ne_of_gt (Nat.zero_lt_of_lt hrounds))
      rw [List.flatMap_cons, List.append_assoc, stringBody_escape,
        ih (by simpa using hrounds)]
      rfl

theorem length_le_flatMap_escape (s : List Char) : s.length ≤ (s.flatMap escape).length := by
  induction s with
  | nil => exact Nat.le_refl _
  | cons c s ih =>
      have hpos : 0 < (escape c).length := by
        rcases escape_cases c with ⟨body, hescape, _⟩ | ⟨hescape, _⟩ <;> simp [hescape]
      rw [List.flatMap_cons, List.length_cons, List.length_append]
      omega

/-- **A string is read back behind its opening quote.** -/
theorem stringRest_written (s : String) (rest : List Char) :
    stringRest (s.toList.flatMap escape ++ '"' :: rest) = .ok (s, rest) := by
  have hlength := length_le_flatMap_escape s.toList
  have hrounds : s.toList.length < (s.toList.flatMap escape ++ '"' :: rest).length := by
    rw [List.length_append, List.length_cons]
    omega
  rw [stringRest, stringBody_written hrounds]
  exact congrArg (fun t => Except.ok (t, rest)) (String.ofList_toList)

/-! ## Values -/

/-- What may stand behind a value: nothing, a blank, a comma, or the end of a list or an object.  A
number goes on with any digit that follows it. -/
def Ends (rest : List Char) : Prop :=
  ∀ c ∈ rest.head?, isBlank c = true ∨ c = ',' ∨ c = ']' ∨ c = '\x7d'

/-- A reader gets a value back from what is written, at any depth, behind any blanks and in front of
anything that may follow.  What is written begins with no blank and closes no list. -/
structure Writer.ReadsAs {α : Type} (w : Writer) (read : Reader α) (a : α) : Prop where
  begins : ∀ depth, ∃ c cs, w depth = c :: cs ∧ isBlank c = false ∧ c ≠ ']'
  reads : ∀ depth blanks rest, (∀ c ∈ blanks, isBlank c = true) → Ends rest →
    read (blanks ++ (w depth ++ rest)) = .ok (a, rest)

theorem skipBlanks_append {blanks : List Char} (h : ∀ c ∈ blanks, isBlank c = true)
    (cs : List Char) : skipBlanks (blanks ++ cs) = skipBlanks cs :=
  List.dropWhile_append_of_pos h

@[simp] theorem skipBlanks_cons {c : Char} (hc : isBlank c = false) (cs : List Char) :
    skipBlanks (c :: cs) = c :: cs :=
  List.dropWhile_cons_of_neg (by simp [hc])

theorem isBlank_newLine (depth : Nat) : ∀ c ∈ newLine depth, isBlank c = true := by
  intro c hc
  rcases List.mem_cons.mp hc with rfl | hc
  · rfl
  · rw [List.eq_of_mem_replicate hc]
    rfl

namespace Writer.ReadsAs

variable {α β : Type} {w : Writer} {read : Reader α} {a : α}

/-- A value that is made into another. -/
theorem map (h : w.ReadsAs read a) (f : α → β) :
    w.ReadsAs (fun cs => do let (a, rest) ← read cs; .ok (f a, rest)) (f a) where
  begins := h.begins
  reads depth blanks rest hblanks hends := by
    simp only [h.reads depth blanks rest hblanks hends]
    rfl

/-- Behind blanks the text of a value begins. -/
theorem skipBlanks_eq (h : w.ReadsAs read a) {blanks : List Char}
    (hblanks : ∀ c ∈ blanks, isBlank c = true) (depth : Nat) (rest : List Char) :
    skipBlanks (blanks ++ (w depth ++ rest)) = w depth ++ rest := by
  obtain ⟨c, cs, hw, hc, _⟩ := h.begins depth
  rw [skipBlanks_append hblanks, hw, List.cons_append, skipBlanks_cons hc]

/-- A document is read back, with blanks behind it. -/
theorem document_append (h : w.ReadsAs read a) {blanks : List Char}
    (hblanks : ∀ c ∈ blanks, isBlank c = true) :
    read.document (w.document ++ String.ofList blanks) = .ok a := by
  have hends : Ends blanks := fun c hc => Or.inl (hblanks c (List.mem_of_mem_head? hc))
  have hread := h.reads 0 [] blanks (by simp) hends
  have hnothing := skipBlanks_append hblanks []
  rw [List.append_nil] at hnothing
  rw [List.nil_append] at hread
  rw [Reader.document, Writer.document, String.toList_append, String.toList_ofList,
    String.toList_ofList, hread]
  simp only [bind, Except.bind, hnothing]
  rfl

/-- **A document is read back.** -/
theorem document (h : w.ReadsAs read a) : read.document w.document = .ok a := by
  have hblanks : ∀ c ∈ ([] : List Char), isBlank c = true := by simp
  simpa using h.document_append hblanks

end Writer.ReadsAs

theorem string_readsAs (s : String) : (Writer.string s).ReadsAs Reader.string s where
  begins depth := ⟨'"', _, rfl, rfl, by decide⟩
  reads depth blanks rest hblanks _ := by
    have htext : Writer.string s depth ++ rest = '"' :: (s.toList.flatMap escape ++ '"' :: rest) := by
      simp [Writer.string, quoted]
    rw [Reader.string, skipBlanks_append hblanks, htext, skipBlanks_cons rfl]
    exact stringRest_written s rest

theorem char_readsAs (c : Char) : (Writer.char c).ReadsAs Reader.char c where
  begins := (string_readsAs _).begins
  reads depth blanks rest hblanks hends := by
    have hread := (string_readsAs (String.singleton c)).reads depth blanks rest hblanks hends
    rw [← Writer.char] at hread
    rw [Reader.char, hread]
    simp [bind, Except.bind]

theorem bool_readsAs (b : Bool) : (Writer.bool b).ReadsAs Reader.bool b where
  begins depth := by
    cases b with
    | true => exact ⟨'t', _, rfl, rfl, by decide⟩
    | false => exact ⟨'f', _, rfl, rfl, by decide⟩
  reads depth blanks rest hblanks _ := by
    rw [Reader.bool, skipBlanks_append hblanks]
    cases b with
    | true => rfl
    | false => rfl

/-- A value that may be missing, unless it could be taken for the one that stands for nothing. -/
theorem option_readsAs {α : Type} {write : α → Writer} {read : Reader α} {o : Option α}
    (h : ∀ a ∈ o, (write a).ReadsAs read a) (hnull : ∀ a ∈ o, ∀ depth, (write a depth).head? ≠ some 'n') :
    (Writer.option write o).ReadsAs (Reader.option read) o := by
  cases o with
  | none =>
      refine ⟨fun depth => ⟨'n', _, rfl, rfl, by decide⟩, fun depth blanks rest hblanks _ => ?_⟩
      rw [Reader.option, skipBlanks_append hblanks]
      rfl
  | some a =>
      have ha := h a rfl
      refine ⟨ha.begins, fun depth blanks rest hblanks hends => ?_⟩
      obtain ⟨c, cs, hw, _⟩ := ha.begins depth
      have hread := ha.reads depth [] rest (by simp) hends
      rw [Reader.option, Writer.option, ha.skipBlanks_eq hblanks]
      rw [List.nil_append] at hread
      split
      · rename_i _ _ hnothing
        rw [hw, List.cons_append] at hnothing
        refine absurd ?_ (hnull a rfl depth)
        rw [hw, (List.cons.inj hnothing).1]
        rfl
      · rw [hread]
        rfl

/-! ## Numbers -/

/-- What may stand behind a value goes on with no number. -/
theorem Ends.cases {rest : List Char} (h : Ends rest) :
    rest = [] ∨ ∃ c cs, rest = c :: cs ∧ c.isDigit = false ∧ c ≠ '.' ∧ c ≠ 'e' ∧ c ≠ 'E' := by
  cases rest with
  | nil => exact Or.inl rfl
  | cons c cs =>
      refine Or.inr ⟨c, cs, rfl, ?_⟩
      have hc := h c rfl
      simp only [isBlank, Bool.or_eq_true, beq_iff_eq, or_assoc] at hc
      rcases hc with rfl | rfl | rfl | rfl | rfl | rfl | rfl <;> decide

/-- A row of digits in front of something else is taken as it is. -/
theorem someDigits_append (ending : Fault) {ds rest : List Char} (hne : ds ≠ [])
    (hdigits : ∀ d ∈ ds, d.isDigit = true) (hrest : ∀ c ∈ rest.head?, c.isDigit = false) :
    someDigits ending (ds ++ rest) = .ok (ds, rest) := by
  obtain ⟨d, ds, rfl⟩ := List.exists_cons_of_ne_nil hne
  obtain ⟨hd, hds⟩ := List.forall_mem_cons.mp hdigits
  have hstop : rest.takeWhile Char.isDigit = [] ∧ rest.dropWhile Char.isDigit = rest := by
    cases rest with
    | nil => exact ⟨rfl, rfl⟩
    | cons c cs => simp [hrest c rfl]
  rw [List.cons_append, someDigits, if_pos hd, List.takeWhile_append_of_pos hds,
    List.dropWhile_append_of_pos hds, hstop.1, hstop.2, List.append_nil]

/-- The digits of a number have its value. -/
theorem decimalValue_toDigits (n : Nat) : decimalValue (Nat.toDigits 10 n) = n := by
  have hvalue : decimalValue (Nat.toDigits 10 n) = Nat.ofDigitChars 10 (Nat.toDigits 10 n) 0 := by
    have hstep : (fun (v : Nat) (d : Char) => v * 10 + (d.toNat - 48)) =
        fun v d => 10 * v + (d.toNat - '0'.toNat) := by
      funext v d
      rw [Nat.mul_comm v 10]
      rfl
    rw [decimalValue, Nat.ofDigitChars, hstep]
  rw [hvalue, Nat.ofDigitChars_ten_toDigits]

theorem wholePart_written (ending : Fault) (n : Nat) {rest : List Char} (hrest : Ends rest) :
    wholePart ending (Nat.toDigits 10 n ++ rest) = .ok (Nat.toDigits 10 n, rest) := by
  have hstop : ∀ c ∈ rest.head?, c.isDigit = false := by
    rcases hrest.cases with rfl | ⟨c, cs, rfl, hc, _⟩
    · simp
    · simpa using hc
  have hzero : ¬ ((Nat.toDigits 10 n).head? == some '0' && 1 < (Nat.toDigits 10 n).length) = true := by
    simp only [Bool.and_eq_true, beq_iff_eq, decide_eq_true_eq, not_and]
    intro hhead
    rw [eq_zero_of_head?_toDigits hhead]
    decide
  rw [wholePart, someDigits_append ending Nat.toDigits_ne_nil (isDigit_toDigits n) hstop]
  exact if_neg hzero

/-- A number ends where a value may end. -/
theorem numeral_written (ending : Fault) (n : Nat) {rest : List Char} (hrest : Ends rest) :
    numeral ending (Nat.toDigits 10 n ++ rest) =
      .ok (⟨false, Nat.toDigits 10 n, none, none⟩, rest) := by
  have hwhole := wholePart_written ending n hrest
  have hfraction : fractionPart ending rest = .ok (none, rest) := by
    rcases hrest.cases with rfl | ⟨c, cs, rfl, _, hpoint, _⟩
    · rfl
    · unfold fractionPart
      split
      · rename_i heq
        exact absurd (List.cons.inj heq).1 hpoint
      · rfl
  have hexponent : exponentPart ending rest = .ok (none, rest) := by
    rcases hrest.cases with rfl | ⟨c, cs, rfl, _, _, hlower, hupper⟩
    · rfl
    · simp [exponentPart, hlower, hupper]
  obtain ⟨d, ds, hds, hdigit⟩ := exists_digit n
  have hsign : d ≠ '-' := by
    rintro rfl
    cases hdigit
  unfold numeral
  rw [hds, List.cons_append] at hwhole ⊢
  split
  rename_i negative cs hsplit
  split at hsplit
  · rename_i heq
    exact absurd (List.cons.inj heq).1 hsign
  · cases hsplit
    simp only [hwhole, hfraction, hexponent, bind, Except.bind]

theorem nat_readsAs {n : Nat} (h : n ≤ maxWord) : (Writer.nat n).ReadsAs Reader.offset n := by
  obtain ⟨d, ds, hds, hdigit⟩ := exists_digit n
  have hblank : isBlank d = false := by
    rw [Bool.eq_false_iff]
    intro hd
    simp only [isBlank, Bool.or_eq_true, beq_iff_eq, or_assoc] at hd
    rcases hd with rfl | rfl | rfl | rfl <;> cases hdigit
  have hclose : d ≠ ']' := by
    rintro rfl
    cases hdigit
  refine ⟨fun depth => ⟨d, ds, hds, hblank, hclose⟩, fun depth blanks rest hblanks hends => ?_⟩
  have hnumeral := numeral_written .cutOff n hends
  have hoffset : Numeral.offset? ⟨false, Nat.toDigits 10 n, none, none⟩ = some n := by
    simp [Numeral.offset?, decimalValue_toDigits, h]
  rw [Writer.nat, Reader.offset, skipBlanks_append hblanks]
  rw [hds, List.cons_append] at hnumeral ⊢
  rw [skipBlanks_cons hblank]
  simp only [hdigit, Bool.or_true, if_true, hnumeral, hds ▸ hoffset]

/-! ## Lists -/

/-- Values behind the first one, each on a line of its own and behind a comma. -/
def later (depth : Nat) (values : List (List Char)) : List Char :=
  values.flatMap fun v => ',' :: (newLine depth ++ v)

theorem later_cons (depth : Nat) (v : List Char) (vs : List (List Char)) (rest : List Char) :
    later depth (v :: vs) ++ rest = ',' :: (newLine depth ++ (v ++ (later depth vs ++ rest))) := by
  simp [later]

theorem lines_cons (depth : Nat) (v : List Char) (vs : List (List Char)) :
    Writer.lines depth (v :: vs) = newLine depth ++ (v ++ later depth vs) := by
  induction vs generalizing v with
  | nil => simp [Writer.lines, later]
  | cons u vs ih =>
      rw [Writer.lines, ih u]
      · simp [later]
      · simp

/-- Values between brackets, of which there is at least one. -/
theorem enclosed_cons (opener closer : Char) (depth : Nat) (v : List Char) (vs : List (List Char))
    (rest : List Char) :
    Writer.enclosed opener closer depth (v :: vs) ++ rest =
      opener :: (newLine (depth + 1) ++
        (v ++ (later (depth + 1) vs ++ (newLine depth ++ closer :: rest)))) := by
  simp [Writer.enclosed, lines_cons]

theorem length_le_later (depth : Nat) (vs : List (List Char)) :
    vs.length ≤ (later depth vs).length := by
  induction vs with
  | nil => exact Nat.le_refl _
  | cons v vs ih =>
      simp only [later, List.flatMap_cons, List.length_append, List.length_cons] at ih ⊢
      omega

/-- Behind a value comes a comma or a line. -/
theorem ends_later (depth outer : Nat) (vs : List (List Char)) (rest : List Char) :
    Ends (later depth vs ++ (newLine outer ++ rest)) := by
  cases vs with
  | nil => simp [Ends, later, newLine, isBlank]
  | cons v vs => simp [Ends, later]

section Lists

variable {α : Type} {write : α → Writer} {read : Reader α}

theorem nextItem_closed (first : Bool) {blanks : List Char}
    (hblanks : ∀ c ∈ blanks, isBlank c = true) (rest : List Char) :
    Reader.nextItem first (blanks ++ ']' :: rest) = .ok none := by
  rw [Reader.nextItem, skipBlanks_append hblanks, skipBlanks_cons rfl]
  rfl

theorem closeList_closed {blanks : List Char} (hblanks : ∀ c ∈ blanks, isBlank c = true)
    (rest : List Char) : Reader.closeList (blanks ++ ']' :: rest) = .ok rest := by
  rw [Reader.closeList, skipBlanks_append hblanks, skipBlanks_cons rfl]
  rfl

theorem nextItem_first {w : Writer} {a : α} (h : w.ReadsAs read a) (depth : Nat)
    (rest : List Char) :
    Reader.nextItem true (newLine depth ++ (w depth ++ rest)) = .ok (some (w depth ++ rest)) := by
  obtain ⟨c, cs, hw, _, hclose⟩ := h.begins depth
  rw [Reader.nextItem, h.skipBlanks_eq (isBlank_newLine depth), hw, List.cons_append]
  simp

theorem nextItem_later {w : Writer} {a : α} (h : w.ReadsAs read a) (depth : Nat)
    (rest : List Char) :
    Reader.nextItem false (',' :: (newLine depth ++ (w depth ++ rest))) =
      .ok (some (w depth ++ rest)) := by
  obtain ⟨c, cs, hw, _, hclose⟩ := h.begins depth
  have hcomma : skipBlanks (',' :: (newLine depth ++ (w depth ++ rest))) =
      ',' :: (newLine depth ++ (w depth ++ rest)) := skipBlanks_cons rfl _
  have hitem := h.skipBlanks_eq (isBlank_newLine depth) depth rest
  rw [hw, List.cons_append] at hcomma hitem ⊢
  rw [Reader.nextItem, hcomma]
  simp only [Char.reduceEq, imp_self, Bool.false_eq_true, if_false, BEq.rfl, if_true, hitem]
  split
  · rename_i heq
    cases heq
  · rename_i heq
    exact absurd (List.cons.inj heq).1 hclose
  · rfl

/-- One item of a list, with those behind it. -/
theorem items_cons {w : Writer} {a : α} (h : w.ReadsAs read a) {depth rounds : Nat} {first : Bool}
    {cs tail rest : List Char} {as : List α}
    (hnext : Reader.nextItem first cs = .ok (some (w depth ++ tail))) (hends : Ends tail)
    (hlater : Reader.items read rounds false tail = .ok (as, rest)) :
    Reader.items read (rounds + 1) first cs = .ok (a :: as, rest) := by
  have hread := h.reads depth [] tail (by simp) hends
  rw [List.nil_append] at hread
  simp only [Reader.items, hnext, hread, hlater, bind, Except.bind]

/-- The items behind the first one are read back. -/
theorem items_later {depth outer : Nat} {as : List α} (h : ∀ a ∈ as, (write a).ReadsAs read a)
    {rounds : Nat} (hrounds : as.length < rounds) (rest : List Char) :
    Reader.items read rounds false
        (later depth (as.map fun a => write a depth) ++ (newLine outer ++ ']' :: rest)) =
      .ok (as, rest) := by
  induction as generalizing rounds with
  | nil =>
      obtain ⟨rounds, rfl⟩ := Nat.exists_eq_add_one.mpr hrounds
      have hblanks := isBlank_newLine outer
      simp only [List.map_nil, later, List.flatMap_nil, List.nil_append, Reader.items,
        nextItem_closed false hblanks, closeList_closed hblanks, bind, Except.bind]
  | cons a as ih =>
      obtain ⟨rounds, rfl⟩ := Nat.exists_eq_add_one.mpr (Nat.zero_lt_of_lt hrounds)
      obtain ⟨ha, has⟩ := List.forall_mem_cons.mp h
      rw [List.map_cons, later_cons]
      exact items_cons ha (nextItem_later ha depth _) (ends_later _ _ _ _)
        (ih has (Nat.lt_of_succ_lt_succ hrounds))

/-- Behind its bracket a list is read item by item; each takes a character at least. -/
theorem list_opened {blanks : List Char} (hblanks : ∀ c ∈ blanks, isBlank c = true)
    (cs : List Char) :
    Reader.list read (blanks ++ '[' :: cs) = Reader.items read cs.length true cs := by
  rw [Reader.list, skipBlanks_append hblanks, skipBlanks_cons rfl]
  rfl

/-- **A list is read back if its items are.** -/
theorem list_readsAs {as : List α} (h : ∀ a ∈ as, (write a).ReadsAs read a) :
    (Writer.list write as).ReadsAs (Reader.list read) as where
  begins depth := by
    cases as with
    | nil => exact ⟨'[', _, rfl, rfl, by decide⟩
    | cons a as =>
        have htext := enclosed_cons '[' ']' depth (write a (depth + 1))
          (as.map fun a => write a (depth + 1)) []
        rw [List.append_nil] at htext
        exact ⟨'[', _, htext, rfl, by decide⟩
  reads depth blanks rest hblanks _ := by
    cases as with
    | nil =>
        rw [Reader.list, skipBlanks_append hblanks]
        rfl
    | cons a as =>
        rw [Writer.list, List.map_cons, enclosed_cons, list_opened hblanks]
        obtain ⟨ha, has⟩ := List.forall_mem_cons.mp h
        have hlater := length_le_later (depth + 1) (as.map fun a => write a (depth + 1))
        rw [List.length_map] at hlater
        rw [newLine, List.cons_append, List.length_cons]
        refine items_cons ha (nextItem_first ha (depth + 1) _) (ends_later _ _ _ _)
          (items_later has ?_ rest)
        simp only [List.length_append, List.length_cons]
        omega

/-- A control character is written by its code, and a character beyond ASCII as it is. -/
example : (Writer.list Writer.string ["", "\"\\\x01é"]).document =
    "[\n  \"\",\n  \"\\\"\\\\\\u0001é\"\n]" := by
  decide

end Lists

/-! ## Records -/

section Records

/-- Members of an object and fields of a record go together, one by one: the fields in order take
the record from one state to another as they are read from what is written. -/
inductive Fills {σ : Type} : List (Reader.Field σ) → List (String × Writer) → σ → σ → Prop
  | nil (s : σ) : Fills [] [] s s
  | cons {f : Reader.Field σ} {fs : List (Reader.Field σ)} {w : Writer}
      {members : List (String × Writer)} {s t u : σ} (h : w.ReadsAs (f.read s) t)
      (hrest : Fills fs members t u) : Fills (f :: fs) ((f.name, w) :: members) s u

/-- A member of an object as it is written. -/
def memberText (depth : Nat) (m : String × Writer) : List Char :=
  quoted m.1 ++ [':', ' '] ++ m.2 depth

/-- A member behind the quote that opens its name, in front of `rest`. -/
def behindQuote (depth : Nat) (m : String × Writer) (rest : List Char) : List Char :=
  m.1.toList.flatMap escape ++ '"' :: ':' :: ' ' :: (m.2 depth ++ rest)

variable {σ : Type} {shape : Reader.Shape σ} {depth outer : Nat}

theorem memberText_append (m : String × Writer) (rest : List Char) :
    memberText depth m ++ rest = '"' :: behindQuote depth m rest := by
  simp [memberText, quoted, behindQuote]

theorem nextMember_closed (first : Bool) {blanks : List Char}
    (hblanks : ∀ c ∈ blanks, isBlank c = true) (rest : List Char) :
    Reader.nextMember first (blanks ++ '\x7d' :: rest) = .ok none := by
  rw [Reader.nextMember, skipBlanks_append hblanks, skipBlanks_cons rfl]
  rfl

theorem closeObject_closed {blanks : List Char} (hblanks : ∀ c ∈ blanks, isBlank c = true)
    (rest : List Char) : Reader.closeObject (blanks ++ '\x7d' :: rest) = .ok rest := by
  rw [Reader.closeObject, skipBlanks_append hblanks, skipBlanks_cons rfl]
  rfl

theorem nextMember_first (depth : Nat) (m : String × Writer) (rest : List Char) :
    Reader.nextMember true (newLine depth ++ (memberText depth m ++ rest)) =
      .ok (some (behindQuote depth m rest)) := by
  rw [memberText_append, Reader.nextMember, skipBlanks_append (isBlank_newLine depth),
    skipBlanks_cons rfl]
  rfl

theorem nextMember_later (depth : Nat) (m : String × Writer) (rest : List Char) :
    Reader.nextMember false (',' :: (newLine depth ++ (memberText depth m ++ rest))) =
      .ok (some (behindQuote depth m rest)) := by
  have hcomma : ∀ cs, Reader.nextMember false (',' :: cs) =
      (Reader.openName (skipBlanks cs)).map some := fun _ => rfl
  rw [hcomma, memberText_append, skipBlanks_append (isBlank_newLine depth), skipBlanks_cons rfl]
  rfl

/-- One member of an object, with those behind it. -/
theorem keyed_cons {f : Reader.Field σ}
    (hfind : shape.fields.find? (·.name == f.name) = some f) {seen : List String}
    (hseen : f.name ∉ seen) {w : Writer} {s t : σ} (h : w.ReadsAs (f.read s) t) {rounds : Nat}
    {first : Bool} {cs tail rest : List Char} {result : σ × List String}
    (hnext : Reader.nextMember first cs = .ok (some (behindQuote depth (f.name, w) tail)))
    (hends : Ends tail)
    (hlater : Reader.keyed shape rounds false (f.name :: seen) t tail = .ok (result, rest)) :
    Reader.keyed shape (rounds + 1) first seen s cs = .ok (result, rest) := by
  have hname := stringRest_written f.name (':' :: ' ' :: (w depth ++ tail))
  have hcolon : Reader.colon (':' :: ' ' :: (w depth ++ tail)) = .ok (' ' :: (w depth ++ tail)) :=
    rfl
  have hread := h.reads depth [' '] tail (by simp [isBlank]) hends
  rw [List.singleton_append] at hread
  simp only [Reader.keyed, hnext, behindQuote, hname, hfind, List.contains_eq_mem, hseen,
    decide_false, hcolon, hread, hlater, bind, Except.bind, Bool.false_eq_true, if_false]

/-- A field is found by its name, and none in front of it has the name. -/
theorem find?_field (hnodup : (shape.fields.map (·.name)).Nodup) {before fs : List (Reader.Field σ)}
    {f : Reader.Field σ} (hfields : shape.fields = before ++ f :: fs) :
    shape.fields.find? (·.name == f.name) = some f ∧ f.name ∉ before.map (·.name) := by
  rw [hfields, List.map_append, List.map_cons] at hnodup
  have hfresh : f.name ∉ before.map (·.name) := by
    intro hmem
    exact (List.nodup_append.mp hnodup).2.2 _ hmem _ List.mem_cons_self rfl
  have hbefore : before.find? (·.name == f.name) = none := by
    rw [List.find?_eq_none]
    intro g hg heq
    exact hfresh (List.mem_map.mpr ⟨g, hg, beq_iff_eq.mp heq⟩)
  refine ⟨?_, hfresh⟩
  rw [hfields, List.find?_append, hbefore, Option.none_or, List.find?_cons_of_pos (by simp)]

/-- The members behind the first one are read back, into the fields that are left. -/
theorem keyed_later (hnodup : (shape.fields.map (·.name)).Nodup)
    {fs : List (Reader.Field σ)} {members : List (String × Writer)} {s t : σ}
    (h : Fills fs members s t) {before : List (Reader.Field σ)}
    (hfields : shape.fields = before ++ fs) {rounds : Nat} (hrounds : members.length < rounds)
    (rest : List Char) :
    Reader.keyed shape rounds false (before.map (·.name)).reverse s
        (later depth (members.map (memberText depth)) ++ (newLine outer ++ '\x7d' :: rest)) =
      .ok ((t, (shape.fields.map (·.name)).reverse), rest) := by
  induction h generalizing before rounds with
  | nil s =>
      obtain ⟨rounds, rfl⟩ := Nat.exists_eq_add_one.mpr hrounds
      have hblanks := isBlank_newLine outer
      rw [hfields, List.append_nil]
      simp only [List.map_nil, later, List.flatMap_nil, List.nil_append, Reader.keyed,
        nextMember_closed false hblanks, closeObject_closed hblanks, bind, Except.bind]
  | @cons f fs w members s t u hread _ ih =>
      obtain ⟨rounds, rfl⟩ := Nat.exists_eq_add_one.mpr (Nat.zero_lt_of_lt hrounds)
      obtain ⟨hfind, hfresh⟩ := find?_field hnodup hfields
      have hleft : shape.fields = (before ++ [f]) ++ fs := by
        rw [hfields, List.append_assoc, List.singleton_append]
      have hnext := ih hleft (Nat.lt_of_succ_lt_succ hrounds)
      rw [List.map_append, List.reverse_append] at hnext
      rw [List.map_cons, later_cons]
      exact keyed_cons hfind (by simpa using hfresh) hread (nextMember_later depth _ _)
        (ends_later _ _ _ _) hnext

/-- Behind its brace an object is read member by member, and nothing is missing if all fields are
read. -/
theorem record_opened {blanks : List Char} (hblanks : ∀ c ∈ blanks, isBlank c = true) {s t : σ}
    {cs rest : List Char} (hkeyed : Reader.keyed shape cs.length true [] s cs =
      .ok ((t, (shape.fields.map (·.name)).reverse), rest)) :
    Reader.record shape s (blanks ++ '\x7b' :: cs) = .ok (t, rest) := by
  have hcomplete : shape.fields.all
      (fun f => (shape.fields.map (·.name)).reverse.contains f.name) = true := by
    rw [List.all_eq_true]
    intro f hf
    simpa using ⟨f, hf, rfl⟩
  have hopen : Reader.record shape s ('\x7b' :: cs) =
      (Reader.keyed shape cs.length true [] s cs).bind fun r =>
        if shape.complete && !shape.fields.all (fun f => r.1.2.contains f.name) then
          .error .mismatch
        else
          .ok (r.1.1, r.2) := rfl
  rw [Reader.record, skipBlanks_append hblanks, ← Reader.record, hopen, hkeyed]
  simp only [Except.bind, hcomplete]
  simp

/-- **An object is read back as a record if its members are as the fields**, one by one. -/
theorem record_readsAs (hnodup : (shape.fields.map (·.name)).Nodup)
    {members : List (String × Writer)} {s t : σ} (h : Fills shape.fields members s t) :
    (Writer.object members).ReadsAs (Reader.record shape s) t where
  begins depth := by
    cases members with
    | nil => exact ⟨'\x7b', _, rfl, rfl, by decide⟩
    | cons m members =>
        have htext := enclosed_cons '\x7b' '\x7d' depth (memberText (depth + 1) m)
          (members.map (memberText (depth + 1))) []
        rw [List.append_nil] at htext
        exact ⟨'\x7b', _, htext, rfl, by decide⟩
  reads depth blanks rest hblanks _ := by
    have hmembers : Writer.object members depth =
        Writer.enclosed '\x7b' '\x7d' depth (members.map (memberText (depth + 1))) := rfl
    generalize hfields : shape.fields = fs at h
    cases h with
    | nil =>
        refine record_opened hblanks ?_
        rw [hfields]
        rfl
    | @cons f fs w members s t u hread hrest =>
        have hwhole : shape.fields = [] ++ f :: fs := hfields
        have hleft : shape.fields = [f] ++ fs := hfields
        obtain ⟨hfind, _⟩ := find?_field hnodup hwhole
        have hlater := length_le_later (depth + 1) (members.map (memberText (depth + 1)))
        rw [List.length_map] at hlater
        rw [hmembers, List.map_cons, enclosed_cons]
        refine record_opened hblanks ?_
        rw [newLine, List.cons_append, List.length_cons]
        refine keyed_cons hfind List.not_mem_nil hread (nextMember_first (depth + 1) _ _)
          (ends_later _ _ _ _) (keyed_later hnodup hrest hleft ?_ rest)
        simp only [List.length_append, List.length_cons]
        omega

end Records

/-! ## Alternatives -/

section Alternatives

variable {α : Type} {named? : String → Option (Reader.Alternative α)} {name : String}

/-- An alternative that is a plain name. -/
theorem plain_readsAs {a : α} (h : named? name = some (.plain a)) :
    (Writer.string name).ReadsAs (Reader.alternative named?) a where
  begins := (string_readsAs name).begins
  reads depth blanks rest hblanks _ := by
    have hname := stringRest_written name rest
    have htext : Writer.string name depth ++ rest =
        '"' :: (name.toList.flatMap escape ++ '"' :: rest) := by
      simp [Writer.string, quoted]
    rw [Reader.alternative, skipBlanks_append hblanks, htext, skipBlanks_cons rfl]
    simp only [hname, h, bind, Except.bind]

/-- **An alternative with a value that belongs to it is read back if the value is.**  It is an object
with one member. -/
theorem holding_readsAs {read : Reader α} {w : Writer} {a : α}
    (h : named? name = some (.holding read)) (hw : w.ReadsAs read a) :
    (Writer.object [(name, w)]).ReadsAs (Reader.alternative named?) a := by
  have htext : ∀ depth rest, Writer.object [(name, w)] depth ++ rest =
      '\x7b' :: (newLine (depth + 1) ++
        '"' :: behindQuote (depth + 1) (name, w) (newLine depth ++ '\x7d' :: rest)) := by
    intro depth rest
    have hmember := enclosed_cons '\x7b' '\x7d' depth (memberText (depth + 1) (name, w)) [] rest
    rw [later, List.flatMap_nil, List.nil_append, memberText_append] at hmember
    exact hmember
  refine ⟨fun depth => ?_, fun depth blanks rest hblanks _ => ?_⟩
  · have hbegin := htext depth []
    rw [List.append_nil] at hbegin
    exact ⟨'\x7b', _, hbegin, rfl, by decide⟩
  · have hname := stringRest_written name
      (':' :: ' ' :: (w (depth + 1) ++ (newLine depth ++ '\x7d' :: rest)))
    have hends : Ends (newLine depth ++ '\x7d' :: rest) := ends_later 0 depth [] _
    have hvalue := hw.reads (depth + 1) [' '] _ (by simp [isBlank]) hends
    have hopen : skipBlanks (newLine (depth + 1) ++
        '"' :: behindQuote (depth + 1) (name, w) (newLine depth ++ '\x7d' :: rest)) =
          '"' :: behindQuote (depth + 1) (name, w) (newLine depth ++ '\x7d' :: rest) := by
      rw [skipBlanks_append (isBlank_newLine _), skipBlanks_cons rfl]
    have hclose := closeObject_closed (isBlank_newLine depth) rest
    have hcolon : ∀ cs, Reader.colon (':' :: cs) = .ok cs := fun _ => rfl
    rw [List.singleton_append] at hvalue
    rw [Reader.alternative, skipBlanks_append hblanks, htext, skipBlanks_cons rfl]
    split
    · rename_i heq
      cases heq
    · rename_i heq
      cases heq
    · rename_i heq
      obtain ⟨rfl, rfl⟩ := List.cons.inj heq
      rw [hopen]
      simp only [BEq.rfl, if_true, Reader.openName, behindQuote, hname, h, hcolon, hvalue, hclose,
        bind, Except.bind]

end Alternatives

end Lossless.Json
