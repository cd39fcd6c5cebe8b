import Mathlib.Data.Nat.Bitwise

/-!
# Tagged words

A tagged word is an aligned address with flags in the bits that alignment and size leave free: `a ||| f`, where `2 ^
n` divides `a` and `a < 2 ^ w`. A mask of free bits reads the flags alone (`low_and`, `high_and`), and the mask of
the address field reads the address alone (`address_and`).
-/

namespace Bits

variable {n w a f c : Nat}

/-- A number below `2 ^ n` and a multiple of `2 ^ n` have no bit in common. -/
theorem and_eq_zero (hc : c < 2 ^ n) (ha : 2 ^ n ∣ a) : a &&& c = 0 := by
  obtain ⟨b, rfl⟩ := ha
  apply Nat.eq_of_testBit_eq
  intro i
  rw [Nat.testBit_and, Nat.mul_comm, Nat.testBit_mul_two_pow, Nat.zero_testBit]
  by_cases hi : n ≤ i
  · rw [Nat.testBit_lt_two_pow (Nat.lt_of_lt_of_le hc (Nat.pow_le_pow_right (by decide) hi)), Bool.and_false]
  · simp [hi]

/-- The bits from `n` up to `w`. -/
def field (n w : Nat) : Nat := (2 ^ (w - n) - 1) * 2 ^ n

theorem and_field (ha : 2 ^ n ∣ a) (hw : a < 2 ^ w) : a &&& field n w = a := by
  obtain ⟨b, rfl⟩ := ha
  apply Nat.eq_of_testBit_eq
  intro i
  unfold field
  rw [Nat.testBit_and, Nat.mul_comm, Nat.testBit_mul_two_pow, Nat.testBit_mul_two_pow, Nat.testBit_two_pow_sub_one]
  by_cases hi : n ≤ i
  · by_cases hiw : i < w
    · simp [hi, show i - n < w - n by omega]
    · have hzero : (b * 2 ^ n).testBit i = false :=
        Nat.testBit_lt_two_pow (Nat.lt_of_lt_of_le (Nat.mul_comm _ b ▸ hw)
          (Nat.pow_le_pow_right (by decide) (Nat.not_lt.1 hiw)))
      rw [Nat.testBit_mul_two_pow] at hzero
      simp only [hi, decide_true, Bool.true_and] at hzero
      simp [hzero]
  · simp [hi]

/-- The address of a tagged word. -/
theorem address_and (ha : 2 ^ n ∣ a) (hw : a < 2 ^ w) (hf : f &&& field n w = 0) : (a ||| f) &&& field n w = a := by
  rw [Nat.and_or_distrib_right, hf, Nat.or_zero, and_field ha hw]

/-- The flags of a tagged word below the address. -/
theorem low_and (ha : 2 ^ n ∣ a) (hc : c < 2 ^ n) : (a ||| f) &&& c = f &&& c := by
  rw [Nat.and_or_distrib_right, and_eq_zero hc ha, Nat.zero_or]

/-- The flags of a tagged word above the address. -/
theorem high_and (hw : a < 2 ^ w) (hc : 2 ^ w ∣ c) : (a ||| f) &&& c = f &&& c := by
  rw [Nat.and_or_distrib_right, Nat.and_comm a, and_eq_zero hw hc, Nat.zero_or]

end Bits
