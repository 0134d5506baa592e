/-!
# Numbers as digits

A number is written in a base of at most sixteen by digits and without a leading zero, so **numbers
with the same digits are the same** (`toDigits_inj`).
-/

namespace Lossless

/-- Every digit of a number stands for less than the base. -/
theorem exists_of_mem_toDigits {b n : Nat} (hb : 1 < b) {c : Char} (hc : c ∈ Nat.toDigits b n) :
    ∃ d < b, c = Nat.digitChar d := by
  induction n using Nat.strongRecOn with
  | ind n ih =>
      by_cases hn : n < b
      · rw [Nat.toDigits_of_lt_base hn, List.mem_singleton] at hc
        exact ⟨n, hn, hc⟩
      · rw [Nat.toDigits_of_base_le hb (Nat.le_of_not_lt hn), List.mem_append,
          List.mem_singleton] at hc
        rcases hc with hc | hc
        · exact ih (n / b) (Nat.div_lt_self (by omega) hb) hc
        · exact ⟨n % b, Nat.mod_lt _ (by omega), hc⟩

theorem isDigit_toDigits (n : Nat) : ∀ d ∈ Nat.toDigits 10 n, d.isDigit = true := fun _ hd =>
  Nat.isDigit_of_mem_toDigits (by decide) (by decide) hd

/-- A number begins with a digit. -/
theorem exists_digit (n : Nat) : ∃ d ds, Nat.toDigits 10 n = d :: ds ∧ d.isDigit = true := by
  obtain ⟨d, ds, hds⟩ := List.exists_cons_of_ne_nil (Nat.toDigits_ne_nil (n := n) (b := 10))
  exact ⟨d, ds, hds, isDigit_toDigits n d (hds ▸ List.mem_cons_self)⟩

/-- Only zero is written with a leading zero. -/
theorem eq_zero_of_head?_toDigits {n : Nat} (h : (Nat.toDigits 10 n).head? = some '0') : n = 0 := by
  induction n using Nat.strongRecOn with
  | ind n ih =>
      by_cases hn : n < 10
      · rw [Nat.toDigits_of_lt_base hn] at h
        have hdigit : ∀ d < 10, Nat.digitChar d = '0' → d = 0 := by decide
        exact hdigit n hn (Option.some.inj h)
      · rw [Nat.toDigits_of_base_le (by decide) (Nat.le_of_not_lt hn), List.head?_append,
          List.head?_eq_some_head Nat.toDigits_ne_nil, Option.some_or,
          ← List.head?_eq_some_head] at h
        have hquotient := ih (n / 10) (by omega) h
        omega

theorem digitChar_inj : ∀ m < 16, ∀ n < 16, Nat.digitChar m = Nat.digitChar n → m = n := by
  decide

/-- **Numbers with the same digits are the same**, up to the base for which there are digits. -/
theorem toDigits_inj {b m n : Nat} (hb : 1 < b) (hdigits : b ≤ 16)
    (h : Nat.toDigits b m = Nat.toDigits b n) : m = n := by
  have hone : ∀ {k l}, k < b → ¬ l < b → Nat.toDigits b k ≠ Nat.toDigits b l := by
    intro k l hk hl heq
    have hlength := congrArg List.length heq
    have hpos := Nat.length_toDigits_pos (b := b) (n := l / b)
    rw [Nat.toDigits_of_lt_base hk, Nat.toDigits_of_base_le hb (Nat.le_of_not_lt hl),
      List.length_append, List.length_singleton, List.length_singleton] at hlength
    omega
  induction m using Nat.strongRecOn generalizing n with
  | ind m ih =>
      by_cases hm : m < b <;> by_cases hn : n < b
      · rw [Nat.toDigits_of_lt_base hm, Nat.toDigits_of_lt_base hn] at h
        exact digitChar_inj m (by omega) n (by omega) (List.singleton_inj.mp h)
      · exact absurd h (hone hm hn)
      · exact absurd h.symm (hone hn hm)
      · rw [Nat.toDigits_of_base_le hb (Nat.le_of_not_lt hm),
          Nat.toDigits_of_base_le hb (Nat.le_of_not_lt hn)] at h
        obtain ⟨hhigh, hlow⟩ := List.append_inj' h rfl
        have hquotient := ih (m / b) (Nat.div_lt_self (by omega) hb) hhigh
        have hmb := Nat.mod_lt m (show b > 0 by omega)
        have hnb := Nat.mod_lt n (show b > 0 by omega)
        have hremainder := digitChar_inj (m % b) (by omega) (n % b) (by omega)
          (List.singleton_inj.mp hlow)
        rw [← Nat.div_add_mod m b, ← Nat.div_add_mod n b, hquotient, hremainder]

end Lossless
