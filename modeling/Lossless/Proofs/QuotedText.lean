import Lossless.Proofs.Digits
import Lossless.Text.Quoted
import Mathlib.Tactic.SplitIfs

/-!
# Quoted text is read in one way

A text between quotes holds no hidden character, so it stays on its line whatever it quotes
(`quote_shown`).  A character is shown as itself, as a letter behind a backslash, or by its code, and
from its beginning it can be told which, and where it ends.  So **of two quoted texts with anything
behind them, neither begins the other**: if they are followed by equal texts they are equal
(`quoted_append_inj`).
-/

namespace Lossless

/-- A run of characters of a sort ends where the first of another sort stands. -/
theorem run_append_inj {α : Type} {p : α → Bool} {xs ys r r' : List α} {c d : α}
    (hxs : ∀ x ∈ xs, p x = true) (hys : ∀ y ∈ ys, p y = true) (hc : p c = false) (hd : p d = false)
    (h : xs ++ c :: r = ys ++ d :: r') : xs = ys ∧ c = d ∧ r = r' := by
  have hrun := congrArg (List.takeWhile p) h
  rw [List.takeWhile_append_of_pos hxs, List.takeWhile_append_of_pos hys,
    List.takeWhile_cons_of_neg (by simp [hc]), List.takeWhile_cons_of_neg (by simp [hd]),
    List.append_nil, List.append_nil] at hrun
  subst hrun
  exact ⟨rfl, List.cons.inj (List.append_cancel_left h)⟩

namespace Text

/-! ## How a character is shown -/

/-- The visible characters of ASCII, and the space, are not hidden. -/
theorem isHidden_ascii {c : Char} (hlow : 0x20 ≤ c.toNat) (hhigh : c.toNat < 0x7f) :
    isHidden c = false := by
  show CodeSet.member c.toNat (0x0 :: 0x20 :: 0x7f :: _) false = false
  rw [CodeSet.member, if_neg (by omega), CodeSet.member, if_neg (by omega), CodeSet.member,
    if_pos hhigh]
  rfl

/-- The characters that are shown by a letter, each with its letter. -/
def lettered : List (Char × Char) :=
  [('\x00', '0'), ('\t', 't'), ('\r', 'r'), ('\n', 'n'), ('"', '"'), ('\\', '\\')]

/-- The three ways to show a character. -/
inductive Escapes (c : Char) : List Char → Prop
  | letter {d : Char} (h : (c, d) ∈ lettered) : Escapes c ['\\', d]
  | code : Escapes c ('\\' :: 'u' :: '\x7b' :: (hexadecimal c.toNat ++ ['\x7d']))
  | itself (hslash : c ≠ '\\') (hquote : c ≠ '"') (hshown : isHidden c = false) : Escapes c [c]

theorem escapes (c : Char) : Escapes c (escape c) := by
  unfold escape
  split_ifs with hnull htab hreturn hfeed hquote hslash hhidden
  · exact .letter (by simp_all [lettered])
  · exact .letter (by simp_all [lettered])
  · exact .letter (by simp_all [lettered])
  · exact .letter (by simp_all [lettered])
  · exact .letter (by simp_all [lettered])
  · exact .letter (by simp_all [lettered])
  · exact .code
  · exact .itself (by simpa using hslash) (by simpa using hquote) (by simpa using hhidden)

/-- Digits are not hidden. -/
theorem isHidden_toDigits {b n : Nat} (hb : 1 < b) (hdigits : b ≤ 16) :
    ∀ c ∈ Nat.toDigits b n, isHidden c = false := by
  have hascii : ∀ d < 16, 0x20 ≤ (Nat.digitChar d).toNat ∧ (Nat.digitChar d).toNat < 0x7f := by
    decide
  intro c hc
  obtain ⟨d, hd, rfl⟩ := exists_of_mem_toDigits hb hc
  exact isHidden_ascii (hascii d (by omega)).1 (hascii d (by omega)).2

theorem not_mem_hexadecimal (n : Nat) : ∀ c ∈ hexadecimal n, (c != '\x7d') = true := by
  intro c hc
  have hdigits : ∀ d < 16, (Nat.digitChar d != '\x7d') = true := by decide
  obtain ⟨d, hd, rfl⟩ := exists_of_mem_toDigits (by decide) hc
  exact hdigits d hd

/-- **It can be told which character is shown, and where it ends.** -/
theorem Escapes.append_inj {c d : Char} {xs ys r r' : List Char} (hc : Escapes c xs)
    (hd : Escapes d ys) (heq : xs ++ r = ys ++ r') : c = d ∧ r = r' := by
  have hletters : ∀ a ∈ lettered, a.2 ≠ 'u' ∧ ∀ b ∈ lettered, a.2 = b.2 → a.1 = b.1 := by decide
  cases hc with
  | letter hc =>
      cases hd with
      | letter hd =>
          simp only [List.cons_append, List.nil_append, List.cons.injEq, true_and] at heq
          exact ⟨(hletters _ hc).2 _ hd heq.1, heq.2⟩
      | code =>
          simp only [List.cons_append, List.nil_append, List.cons.injEq, true_and] at heq
          exact absurd heq.1 (hletters _ hc).1
      | itself hslash => exact absurd (List.cons.inj heq).1.symm hslash
  | code =>
      cases hd with
      | letter hd =>
          simp only [List.cons_append, List.nil_append, List.cons.injEq, true_and] at heq
          exact absurd heq.1.symm (hletters _ hd).1
      | code =>
          simp only [List.cons_append, List.append_assoc, List.nil_append, List.cons.injEq,
            true_and] at heq
          obtain ⟨hdigits, _, hrest⟩ := run_append_inj (not_mem_hexadecimal _)
            (not_mem_hexadecimal _) (by decide) (by decide) heq
          exact ⟨Char.toNat_inj.mp (toDigits_inj (by decide) (by decide) hdigits), hrest⟩
      | itself hslash => exact absurd (List.cons.inj heq).1.symm hslash
  | itself hslash =>
      cases hd with
      | letter => exact absurd (List.cons.inj heq).1 hslash
      | code => exact absurd (List.cons.inj heq).1 hslash
      | itself => exact List.cons.inj heq

/-- A quote that stands alone shows no character. -/
theorem Escapes.head_ne_quote {c : Char} {xs : List Char} (h : Escapes c xs) (r r' : List Char) :
    xs ++ r ≠ '"' :: r' := by
  intro heq
  cases h with
  | letter => cases heq
  | code => cases heq
  | itself _ hquote => exact hquote (List.cons.inj heq).1

/-- A hidden character is not shown as such. -/
theorem Escapes.shown {c : Char} {xs : List Char} (h : Escapes c xs) :
    ∀ x ∈ xs, isHidden x = false := by
  have hslash : isHidden '\\' = false := isHidden_ascii (by decide) (by decide)
  cases h with
  | letter h =>
      have hletters : ∀ a ∈ lettered, 0x20 ≤ a.2.toNat ∧ a.2.toNat < 0x7f := by decide
      obtain ⟨hlow, hhigh⟩ := hletters _ h
      simpa [hslash] using isHidden_ascii hlow hhigh
  | code =>
      intro x hx
      simp only [List.mem_cons, List.mem_append, List.not_mem_nil, or_false] at hx
      rcases hx with rfl | rfl | rfl | hx | rfl
      · exact hslash
      · exact isHidden_ascii (by decide) (by decide)
      · exact isHidden_ascii (by decide) (by decide)
      · exact isHidden_toDigits (by decide) (by decide) x hx
      · exact isHidden_ascii (by decide) (by decide)
  | itself _ _ hshown => simpa using hshown

/-! ## Quoted texts -/

theorem body_append_inj {s s' r r' : List Char}
    (h : s.flatMap escape ++ '"' :: r = s'.flatMap escape ++ '"' :: r') : s = s' ∧ r = r' := by
  induction s generalizing s' with
  | nil =>
      cases s' with
      | nil => exact ⟨rfl, (List.cons.inj h).2⟩
      | cons c s' =>
          rw [List.flatMap_cons, List.append_assoc] at h
          exact absurd h.symm ((escapes c).head_ne_quote _ _)
  | cons c s ih =>
      cases s' with
      | nil =>
          rw [List.flatMap_cons, List.append_assoc] at h
          exact absurd h ((escapes c).head_ne_quote _ _)
      | cons d s' =>
          rw [List.flatMap_cons, List.flatMap_cons, List.append_assoc, List.append_assoc] at h
          obtain ⟨rfl, htail⟩ := (escapes c).append_inj (escapes d) h
          obtain ⟨rfl, hrest⟩ := ih htail
          exact ⟨rfl, hrest⟩

/-- **A quoted text is read in one way**, whatever follows it. -/
theorem quoted_append_inj {s s' : String} {r r' : List Char}
    (h : (quote s).toList ++ r = (quote s').toList ++ r') : s = s' ∧ r = r' := by
  have htext : ∀ (s : String) r,
      (quote s).toList ++ r = '"' :: (s.toList.flatMap escape ++ '"' :: r) := by
    simp [quote]
  rw [htext, htext] at h
  obtain ⟨hbody, hrest⟩ := body_append_inj (List.cons.inj h).2
  exact ⟨String.toList_inj.mp hbody, hrest⟩

/-- **A quoted text shows no hidden character**, so it stays on its line. -/
theorem quote_shown (s : String) : ∀ c ∈ (quote s).toList, isHidden c = false := by
  have hquote : isHidden '"' = false := isHidden_ascii (by decide) (by decide)
  intro c hc
  simp only [quote, String.toList_ofList, List.cons_append, List.mem_cons, List.mem_append,
    List.mem_flatMap, List.not_mem_nil, or_false] at hc
  rcases hc with rfl | ⟨d, _, hc⟩ | rfl
  · exact hquote
  · exact (escapes d).shown c hc
  · exact hquote

end Text

end Lossless
