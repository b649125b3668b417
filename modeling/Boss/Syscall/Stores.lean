import Boss.Syscall.Descriptors
import Boss.Video.Tables

/-!
# What `getargs` and `vidmap` store

Two system calls that store through a pointer of the caller by themselves; what `read` stores is in the results of its
drivers. `getargs` stores the argument string with its zero byte, or nothing, except for a size that leaves no room for the
zero byte alone and for negative sizes (`getargs_contract_iff`). It does not look at its pointer; `vidmap` looks at the
first byte of it.
-/

namespace Boss
open Lib

/-- The loop of `getargs`. -/
def getargsLoop (args : Mem) : (fuel i : Nat) → List UInt8
  | 0, _ => []
  | fuel + 1, i => if args i = 0 then [0] else args i :: getargsLoop args fuel (i + 1)

/-- `getargs`: the comparison with `strlen` is unsigned, the others are signed. -/
def getargs (args : CString) (nbytes : UInt32) : Result :=
  if args.length > nbytes.toNat then .fail
  else
    let nbytes := if nbytes.toInt32.toInt > 128 then 128 else nbytes.toInt32.toInt
    ⟨0, getargsLoop args.byte nbytes.toNat 0⟩

/-- The check and the store of `vidmap`: the address `USER_VIDEO`, little-endian. -/
def vidmapStore (screenStart : Nat) : Result :=
  if screenStart = 0 ∨ isKernelPtr screenStart then .fail else ⟨0, [0x00, 0x00, 0x40, 0x08]⟩

/-! ### The contract of `getargs` -/

/-- The loop of `getargs` copies a string with its zero byte when it may go that far. -/
lemma getargsLoop_string {args : Mem} {fuel i n : Nat} (hzero : args (i + n) = 0)
    (hne : ∀ j < n, args (i + j) ≠ 0) (hfuel : n < fuel) :
    getargsLoop args fuel i = args.bytes i n ++ [0] := by
  induction n generalizing fuel i with
  | zero =>
    obtain ⟨fuel, rfl⟩ : ∃ m, fuel = m + 1 := ⟨fuel - 1, by omega⟩
    rw [Nat.add_zero] at hzero
    rw [getargsLoop, if_pos hzero]
    rfl
  | succ n ih =>
    obtain ⟨fuel, rfl⟩ : ∃ m, fuel = m + 1 := ⟨fuel - 1, by omega⟩
    have hfirst := hne 0 (Nat.zero_lt_succ n)
    rw [Nat.add_zero] at hfirst
    rw [getargsLoop, if_neg hfirst, ih ?_ ?_ (by omega), Mem.bytes_succ, List.cons_append]
    · rwa [Nat.add_assoc, Nat.add_comm 1]
    · intro j hj
      rw [Nat.add_assoc, Nat.add_comm 1]
      exact hne (j + 1) (by omega)

/-- An `int32_t` as the `uint32_t` that `strlen` is compared with. -/
lemma toUInt32_toNat (n : Int32) :
    (n.toUInt32.toNat : Int) = if 0 ≤ n.toInt then n.toInt else n.toInt + 0x100000000 := by
  have h := BitVec.toInt_eq_toNat_cond n.toBitVec
  have hlt := n.toBitVec.isLt
  change (n.toBitVec.toNat : Int) = if 0 ≤ n.toBitVec.toInt then n.toBitVec.toInt else n.toBitVec.toInt + 0x100000000
  split at h <;> split <;> omega

/-- With room for the string and its zero byte, both are stored. -/
lemma getargs_fits {args : CString} {nbytes : Int32} (hargs : args.length ≤ 127)
    (hn : (args.length : Int) < nbytes.toInt) :
    getargs args nbytes.toUInt32 = ⟨0, args.byte.bytes 0 args.length ++ [0]⟩ := by
  have hnat := toUInt32_toNat nbytes
  rw [if_pos (by omega)] at hnat
  have hlong : ¬ args.length > nbytes.toUInt32.toNat := by omega
  simp only [getargs, if_neg hlong, Int32.toInt32_toUInt32]
  rw [getargsLoop_string (n := args.length)]
  · rw [Nat.zero_add]
    exact Mem.strlen_zero args.nul
  · intro j hj
    rw [Nat.zero_add]
    exact Mem.ne_zero_of_lt_strlen hj
  · split <;> omega

/-- With less room than the string needs, nothing is stored. -/
lemma getargs_short {args : CString} {nbytes : Int32} (hpos : 0 ≤ nbytes.toInt)
    (hn : nbytes.toInt < args.length) : getargs args nbytes.toUInt32 = .fail := by
  have hnat := toUInt32_toNat nbytes
  rw [if_pos hpos] at hnat
  exact if_pos (by omega)

/-- A negative size is a large one for the comparison, and the size of the string passes it as well. -/
lemma getargs_ret {args : CString} {nbytes : Int32} (hargs : args.length ≤ 127)
    (hn : nbytes.toInt < 0 ∨ nbytes.toInt = args.length) : (getargs args nbytes.toUInt32).ret = 0 := by
  have hnat := toUInt32_toNat nbytes
  have hlow := nbytes.le_toInt
  have hlong : ¬ args.length > nbytes.toUInt32.toNat := by
    split at hnat <;> omega
  rw [getargs, if_neg hlong]

/-- `getargs` succeeds when the string and its zero byte fit, and then stores just these; otherwise it fails and
stores nothing. -/
def GetargsContract (args : CString) (nbytes : Int32) : Prop :=
  getargs args nbytes.toUInt32 =
    if (args.length : Int) + 1 ≤ nbytes.toInt then ⟨0, args.byte.bytes 0 args.length ++ [0]⟩ else .fail

/-- `getargs` keeps its contract except for negative sizes and for a size equal to the length of the string. -/
theorem getargs_contract_iff (args : CString) (hargs : args.length ≤ 127) (nbytes : Int32) :
    GetargsContract args nbytes ↔ 0 ≤ nbytes.toInt ∧ nbytes.toInt ≠ args.length := by
  unfold GetargsContract
  constructor
  · intro h
    by_contra hbad
    have hret : (getargs args nbytes.toUInt32).ret = 0 := getargs_ret hargs (by omega)
    rw [h, if_neg (by omega)] at hret
    cases hret
  · rintro ⟨hpos, hne⟩
    by_cases hfits : (args.length : Int) < nbytes.toInt
    · rw [if_pos (by omega), getargs_fits hargs hfits]
    · rw [if_neg (by omega), getargs_short hpos (by omega)]

/-- The argument string `a`. -/
def argsA : CString := ⟨fun i => ([97] : List UInt8).getD i 0, 1, rfl⟩

/-- One argument of one byte. -/
theorem getargs_contract_iff_a : GetargsContract argsA 2 :=
  (getargs_contract_iff argsA (by decide) 2).mpr (by decide)

/-- With a buffer of one byte for `a` the call succeeds, and no zero byte is stored. -/
theorem getargs_unterminated : getargs argsA (1 : Int32).toUInt32 = ⟨0, [97]⟩ ∧ ¬ GetargsContract argsA 1 := by
  unfold GetargsContract
  decide

end Boss
