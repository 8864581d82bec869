import Mathlib.Tactic

/-!
# 64-bit words

Values of the types `size_t` and `uint64_t` are natural numbers below `2 ^ 64`;
arithmetic on them is arithmetic modulo `2 ^ 64`.  The conversion to `int64_t`
and signed subtraction are two's complement.
-/

namespace BcConcurrency

/-- Reduction of an exact value to a 64-bit word. -/
def word (n : ℕ) : ℕ := n % 2 ^ 64

lemma word_of_lt {n : ℕ} (h : n < 2 ^ 64) : word n = n := Nat.mod_eq_of_lt h

lemma word_lt (n : ℕ) : word n < 2 ^ 64 := Nat.mod_lt _ (by norm_num)

@[simp] lemma word_word (n : ℕ) : word (word n) = word n := Nat.mod_mod _ _

/-- The value of `int64_t` with the bits of an exact value. -/
def toInt64 (n : ℤ) : ℤ := n.bmod (2 ^ 64)

/-- `(int64_t)a - (int64_t)b`. -/
def signedDifference (a b : ℕ) : ℤ := toInt64 (toInt64 a - toInt64 b)

lemma signedDifference_eq (a b : ℕ) : signedDifference a b = ((a : ℤ) - b).bmod (2 ^ 64) := by
  simp [signedDifference, toInt64]

lemma signedDifference_eq_zero_iff {a b : ℕ} (ha : a < 2 ^ 64) (hb : b < 2 ^ 64) :
    signedDifference a b = 0 ↔ a = b := by
  rw [signedDifference_eq, Int.bmod_def]
  constructor
  · intro h
    split at h <;> omega
  · rintro rfl
    simp

/-- For words less than `2 ^ 63` apart the signed difference is the exact one. -/
lemma signedDifference_of_near {a b : ℕ} (h₁ : a < b + 2 ^ 63) (h₂ : b ≤ a + 2 ^ 63) :
    signedDifference a b = (a : ℤ) - b := by
  rw [signedDifference_eq, Int.bmod_def]
  split <;> omega

end BcConcurrency
