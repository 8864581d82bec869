import Mathlib.Tactic

/-!
# Positions of a ring

A ring of capacity `c` stores position `p` in slot `p % c`.  Two positions share
a slot exactly when they are a multiple of `c` apart, so the positions of a
window of length `c` occupy pairwise distinct slots and every position has
exactly one representative in the window.
-/

namespace BcConcurrency.Ring

variable {c a b d : ℕ}

/-- A later position of the same slot is at least one lap later. -/
lemma add_le_of_mod_eq (h : a % c = b % c) (hlt : a < b) : a + c ≤ b := by
  have hdvd : c ∣ b - a := (Nat.modEq_iff_dvd' hlt.le).mp h
  have hle : c ≤ b - a := Nat.le_of_dvd (by omega) hdvd
  omega

lemma eq_of_mod_eq_of_window (h : a % c = b % c) (hda : d ≤ a) (hac : a < d + c)
    (hdb : d ≤ b) (hbc : b < d + c) : a = b := by
  rcases lt_trichotomy a b with hlt | heq | hlt
  · have := add_le_of_mod_eq h hlt
    omega
  · exact heq
  · have := add_le_of_mod_eq h.symm hlt
    omega

/-- Every slot is that of exactly one position of the window from `d`. -/
lemma exists_representative (hc : 0 < c) (a d : ℕ) : ∃ b, d ≤ b ∧ b < d + c ∧ b % c = a % c := by
  refine ⟨d + (a + (c - d % c)) % c, by omega, by have := Nat.mod_lt (a + (c - d % c)) hc; omega, ?_⟩
  have hd : d % c < c := Nat.mod_lt d hc
  calc (d + (a + (c - d % c)) % c) % c = (d + (a + (c - d % c))) % c := by simp
    _ = (a + c + c * (d / c)) % c := by
        congr 1
        have := Nat.div_add_mod d c
        omega
    _ = a % c := by simp

/-- Successive positions lie in different slots of a ring with two or more. -/
lemma succ_mod_ne (hc : 2 ≤ c) (a : ℕ) : (a + 1) % c ≠ a % c := by
  intro h
  have := add_le_of_mod_eq h.symm (Nat.lt_succ_self a)
  omega

/-- Two positions of one slot of a ring of `2 ^ k` slots that differ by less
than `2 ^ 63` differ by at most `2 ^ 63 - 2 ^ k`. -/
lemma add_pow_le_of_mod_eq {k : ℕ} (hk : k ≤ 63) (h : a % 2 ^ k = b % 2 ^ k) (hab : a ≤ b)
    (hlt : b < a + 2 ^ 63) : b + 2 ^ k ≤ a + 2 ^ 63 := by
  have hdvd : 2 ^ k ∣ b - a := (Nat.modEq_iff_dvd' hab).mp h
  have hpow : 2 ^ k ∣ 2 ^ 63 := pow_dvd_pow 2 hk
  have hle : 2 ^ k ≤ 2 ^ 63 - (b - a) := Nat.le_of_dvd (by omega) (Nat.dvd_sub hpow hdvd)
  omega

end BcConcurrency.Ring
