import Mathlib.Data.Nat.Bitwise

/-!
# Words with flag bits

A table word holds an aligned base in its high bits and flags in the low ones; it is built with `|||`
and taken apart with shifts, masks and `Nat.testBit`. The lemmas say that the two parts do not
interfere. Machine words are natural numbers, so a mask of the high bits is a difference of powers.
-/

namespace Boss.Lib.Word

variable {n i base flags x : Nat}

/-- The base of a flagged word is what is left above the flags. -/
lemma base_of_or (h : flags < 2 ^ n) : (base <<< n ||| flags) >>> n = base := by
  rw [Nat.shiftRight_or_distrib, Nat.shiftLeft_shiftRight, Nat.shiftRight_eq_div_pow,
    Nat.div_eq_of_lt h, Nat.or_zero]

/-- The low bits of a flagged word are the flags. -/
lemma testBit_or_low (h : i < n) : (base <<< n ||| flags).testBit i = flags.testBit i := by
  rw [Nat.testBit_or, Nat.testBit_shiftLeft]
  have : ¬ n ≤ i := by omega
  simp [this]

/-- Clearing the low `n` bits of a word below `2 ^ w` rounds it down. -/
lemma and_high_mask {w : Nat} (hn : n ≤ w) (h : x < 2 ^ w) :
    x &&& (2 ^ w - 2 ^ n) = x / 2 ^ n * 2 ^ n := by
  have mask : 2 ^ w - 2 ^ n = (2 ^ (w - n) - 1) <<< n := by
    rw [Nat.shiftLeft_eq, Nat.sub_mul, Nat.one_mul, ← Nat.pow_add, Nat.sub_add_cancel hn]
  rw [mask, ← Nat.shiftRight_eq_div_pow, ← Nat.shiftLeft_eq]
  apply Nat.eq_of_testBit_eq
  intro j
  rw [Nat.testBit_and, Nat.testBit_shiftLeft, Nat.testBit_shiftLeft, Nat.testBit_shiftRight,
    Nat.testBit_two_pow_sub_one]
  by_cases hj : n ≤ j
  · have e : n + (j - n) = j := by omega
    by_cases hw : j < w
    · have : j - n < w - n := by omega
      simp [hj, e, this]
    · have hz : x.testBit j = false := by
        apply Nat.testBit_eq_false_of_lt
        exact lt_of_lt_of_le h (Nat.pow_le_pow_right (by decide) (by omega))
      simp [hj, e, hz]
  · simp [hj]

end Boss.Lib.Word
