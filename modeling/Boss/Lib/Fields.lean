import Mathlib.Data.Nat.Bitwise

/-!
# Bit fields

`pack` puts fields side by side into one number, the first one lowest, as C compilers lay out bit fields; a value that is
too large for its field is cut. `bits` takes a range of bits out again. A range that is a field of the number is the value
of that field (`bits_pack_head`, `bits_pack_tail`), and a range made of several fields comes apart into them
(`bits_add`). `bits_of_mask` is for code that takes a range out with a mask and a shift.
-/

namespace Boss.Lib.Fields

variable {x v w lo n : Nat} {fs : List (Nat × Nat)}

/-- The `w` bits of `x` from bit `lo` on. -/
def bits (x lo w : Nat) : Nat := x / 2 ^ lo % 2 ^ w

/-- The number made of fields, each with its width and its value. -/
def pack : List (Nat × Nat) → Nat
  | [] => 0
  | (w, v) :: fs => v % 2 ^ w + 2 ^ w * pack fs

/-- A field of `w` bits is below `2 ^ w`. -/
lemma bits_lt : bits x lo w < 2 ^ w := Nat.mod_lt _ (Nat.two_pow_pos w)

/-- A number that fits is its own lowest field. -/
lemma bits_zero (h : x < 2 ^ w) : bits x 0 w = x := by
  rw [bits, Nat.pow_zero, Nat.div_one, Nat.mod_eq_of_lt h]

/-- Adjacent ranges make one range. -/
lemma bits_add (x lo m n : Nat) : bits x lo (m + n) = bits x lo m + 2 ^ m * bits x (lo + m) n := by
  rw [bits, bits, bits, Nat.pow_add, Nat.mod_mul, Nat.div_div_eq_div_mul, ← Nat.pow_add]

/-- Masking and shifting, as C code takes a field out of a word. -/
lemma bits_of_mask : (x &&& (2 ^ w - 1) <<< lo) >>> lo = bits x lo w := by
  apply Nat.eq_of_testBit_eq
  intro j
  rw [bits, Nat.testBit_mod_two_pow, Nat.testBit_div_two_pow, Nat.testBit_shiftRight, Nat.testBit_and,
    Nat.testBit_shiftLeft, Nat.add_sub_cancel_left, Nat.testBit_two_pow_sub_one, decide_eq_true (Nat.le_add_right lo j),
    Bool.true_and, Bool.and_comm, Nat.add_comm]

/-- The field that is packed first is the lowest one. -/
lemma bits_pack_head : bits (pack ((w, v) :: fs)) 0 w = v % 2 ^ w := by
  rw [bits, pack, Nat.pow_zero, Nat.div_one, Nat.add_mul_mod_self_left, Nat.mod_mod]

/-- Behind the first field are the others. -/
lemma bits_pack_tail (h : w ≤ lo) : bits (pack ((w, v) :: fs)) lo n = bits (pack fs) (lo - w) n := by
  obtain ⟨k, rfl⟩ := Nat.exists_eq_add_of_le h
  have hdrop : pack ((w, v) :: fs) / 2 ^ w = pack fs := by
    rw [pack, Nat.add_mul_div_left _ _ (Nat.two_pow_pos w), Nat.div_eq_of_lt (Nat.mod_lt _ (Nat.two_pow_pos w)),
      Nat.zero_add]
  rw [bits, bits, Nat.pow_add, ← Nat.div_div_eq_div_mul, hdrop, Nat.add_sub_cancel_left]

end Boss.Lib.Fields
