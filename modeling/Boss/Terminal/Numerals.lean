import Boss.Terminal.Keyboard
import Mathlib.Data.Nat.Digits.Lemmas

/-!
# Notations of numbers

`numeral` is the notation that `itoa` of `lib.c` should produce, in terms of `Nat.digits`. `fillZeros` is the loop with
which `%#x` writes zeros before a number in the same buffer; `replicate_numeral` says that there are eight digits then.
-/

namespace Boss
open Lib

/-- `lookup` of `itoa`. -/
def lookup (i : Nat) : UInt8 := (keyRow "0123456789ABCDEFGHIJKLMNOPQRSTUVWXYZ").getD i 0

/-- `strlen` of a string in one of the buffers, which have 64 bytes at most. -/
def strlenAt (m : Mem) (s : Nat) : Nat := Mem.strlen (fun i => m (s + i)) 64

/-- The loop that writes zeros up to `conv_buf[8]`. -/
def fillZeros : (fuel i : Nat) → Mem → Mem
  | 0, _, m => m
  | fuel + 1, i, m => if i < 8 then fillZeros fuel (i + 1) (Function.update m i 48) else m

/-- A digit. -/
def digit (d : Nat) : UInt8 := UInt8.ofNat (if d < 10 then 48 + d else 55 + d)

/-- A number in the notation of a radix. -/
def numeral (radix n : Nat) : List UInt8 := if n = 0 then [digit 0] else ((Nat.digits radix n).map digit).reverse

/-- A number of 32 bits in eight hexadecimal digits. -/
def hex8 (n : Nat) : List UInt8 := (List.range 8).reverse.map fun k => digit (n / 16 ^ k % 16)

/-- Signed decimal notation. -/
def signedNumeral (v : Int) : List UInt8 := if v < 0 then 45 :: numeral 10 v.natAbs else numeral 10 v.natAbs

variable {m : Mem} {radix fuel n i : Nat} {value : UInt32}

/-- The table of `itoa` holds the digits in their order. -/
lemma lookup_eq {d : Nat} (h : d < 36) : lookup d = digit d := by
  have htable : keyRow "0123456789ABCDEFGHIJKLMNOPQRSTUVWXYZ" = (List.range 36).map digit := by rfl
  rw [lookup, htable, List.getD_eq_getElem _ _ (by rwa [List.length_map, List.length_range]), List.getElem_map,
    List.getElem_range]

/-- No digit is a zero byte. -/
lemma digit_ne_zero {d : Nat} (h : d < 36) : digit d ≠ 0 := by
  rw [digit, ne_eq, ← UInt8.toNat_inj, UInt8.toNat_ofNat', UInt8.toNat_zero]
  split_ifs <;> omega

/-- What `itoa` looks up are the digits. -/
lemma map_lookup (h : 2 ≤ radix ∧ radix ≤ 36) : (Nat.digits radix n).map lookup = (Nat.digits radix n).map digit := by
  refine List.map_congr_left fun d hd => lookup_eq ?_
  have := Nat.digits_lt_base (by omega) hd
  omega

/-- A numeral is a string. -/
lemma zero_notMem_numeral (h : 2 ≤ radix ∧ radix ≤ 36) : 0 ∉ numeral radix n := by
  rw [numeral]
  split
  · decide
  · intro hmem
    obtain ⟨d, hd, hz⟩ := List.mem_map.mp (List.mem_reverse.mp hmem)
    have := Nat.digits_lt_base (by omega) hd
    exact digit_ne_zero (by omega) hz

/-- A number below `2 ^ 32` has at most 32 digits. -/
lemma length_numeral (hr : 2 ≤ radix) (h : n < 2 ^ 32) : (numeral radix n).length ≤ 32 := by
  rw [numeral]
  split
  · rw [List.length_singleton]
    omega
  · rw [List.length_reverse, List.length_map]
    rw [Nat.digits_length_le_iff (by omega)]
    exact h.trans_le (Nat.pow_le_pow_left hr 32)

/-- The loop stores as many zeros as are missing. -/
lemma fillZeros_eq (h : 8 ≤ i + fuel) : fillZeros fuel i m = m.put i (List.replicate (8 - i) 48) := by
  induction fuel generalizing i m with
  | zero =>
    have hi : 8 - i = 0 := by omega
    rw [hi]
    rfl
  | succ fuel ih =>
    rw [fillZeros]
    split
    · next hi =>
      obtain ⟨k, hk⟩ : ∃ k, 8 - i = k + 1 := ⟨8 - i - 1, by omega⟩
      have hk' : 8 - (i + 1) = k := by omega
      rw [ih (by omega), hk, hk', List.replicate_succ, Mem.put]
    · next hi =>
      rw [Nat.sub_eq_zero_of_le (by omega)]
      rfl

/-- A number below `2 ^ 32` has at most eight hexadecimal digits. -/
lemma length_numeral_hex (h : n < 2 ^ 32) : (numeral 16 n).length ≤ 8 := by
  rw [numeral]
  split
  · rw [List.length_singleton]
    omega
  · rw [List.length_reverse, List.length_map, Nat.digits_length_le_iff (by omega)]
    exact h

/-- The digits of a number of 32 bits, with the zeros that are missing. -/
lemma digits_replicate (h : (Nat.digits 16 n).length ≤ 8) :
    Nat.digits 16 n ++ List.replicate (8 - (Nat.digits 16 n).length) 0 = (List.range 8).map fun k => n / 16 ^ k % 16 := by
  refine List.ext_getElem (by simp; omega) fun k hk hk' => ?_
  rw [List.getElem_map, List.getElem_range, ← Nat.getD_digits n k (by omega)]
  by_cases hlt : k < (Nat.digits 16 n).length
  · rw [List.getElem_append_left hlt, List.getD_eq_getElem _ _ hlt]
  · rw [List.getElem_append_right (by omega), List.getElem_replicate, List.getD_eq_default _ _ (by omega)]

/-- Filled up with zeros, a hexadecimal number has eight digits. -/
lemma replicate_numeral (h : n < 2 ^ 32) :
    List.replicate (8 - (numeral 16 n).length) 48 ++ numeral 16 n = hex8 n := by
  have hlen := length_numeral_hex h
  rw [numeral] at hlen ⊢
  split
  · next hn =>
    rw [hn]
    rfl
  · next hn =>
    rw [if_neg hn, List.length_reverse, List.length_map] at hlen
    rw [List.length_reverse, List.length_map]
    calc List.replicate (8 - (Nat.digits 16 n).length) 48 ++ ((Nat.digits 16 n).map digit).reverse
      _ = ((Nat.digits 16 n ++ List.replicate (8 - (Nat.digits 16 n).length) 0).map digit).reverse := by
        rw [List.map_append, List.reverse_append, List.map_replicate, List.reverse_replicate]
        rfl
      _ = hex8 n := by rw [digits_replicate hlen, List.map_map, ← List.map_reverse, hex8, Function.comp_def]

/-! ### Signed numbers -/

/-- A word as a signed number. -/
lemma toInt_toInt32 : value.toInt32.toInt = if value.toNat < 0x80000000 then (value.toNat : Int)
    else value.toNat - 0x100000000 := by
  have hcond : value.toInt32.toInt = _ := BitVec.toInt_eq_toNat_cond value.toBitVec
  rw [hcond]
  exact if_congr (by rw [UInt32.toNat_toBitVec]; omega) rfl rfl

/-- The sign is the highest bit. -/
lemma toInt32_neg_iff : value.toInt32 < 0 ↔ 0x80000000 ≤ value.toNat := by
  have hlt := value.toNat_lt
  rw [Int32.lt_iff_toInt_lt, toInt_toInt32]
  change (if value.toNat < 0x80000000 then (value.toNat : Int) else value.toNat - 0x100000000) < 0 ↔ _
  split
  · omega
  · omega

/-- The least number has no opposite; its negation is itself, read as an unsigned number. -/
lemma signedNumeral_neg (h : value.toInt32 < 0) :
    signedNumeral value.toInt32.toInt = 45 :: numeral 10 (0 - value).toNat := by
  have hneg : value.toInt32.toInt < 0 := Int32.lt_iff_toInt_lt.mp h
  have habs : value.toInt32.toInt.natAbs = (0 - value).toNat := by
    have hlt := value.toNat_lt
    have hbig := toInt32_neg_iff.mp h
    have hsub : (0 - value).toNat = (2 ^ 32 - value.toNat + 0) % 2 ^ 32 := UInt32.toNat_sub 0 value
    rw [toInt_toInt32, if_neg (Nat.not_lt.mpr hbig)]
    omega
  rw [signedNumeral, if_pos hneg, habs]

/-- Without a sign, the notations are the same. -/
lemma signedNumeral_nonneg (h : ¬ value.toInt32 < 0) :
    signedNumeral value.toInt32.toInt = numeral 10 value.toNat := by
  have hsmall : value.toNat < 0x80000000 := Nat.not_le.mp (mt toInt32_neg_iff.mpr h)
  have hval : value.toInt32.toInt = value.toNat := by rw [toInt_toInt32, if_pos hsmall]
  have hpos : ¬ (value.toNat : Int) < 0 := by omega
  rw [hval, signedNumeral, if_neg hpos, Int.natAbs_natCast]

end Boss
