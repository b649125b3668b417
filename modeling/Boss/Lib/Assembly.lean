import Boss.Lib.Memory
import Mathlib.Data.UInt
import Mathlib.Logic.Function.Iterate

/-!
# Assembly routines

The part of the 32-bit instruction set that byte-block routines are made of. A routine is a list of instructions with
labels, and the place where it is executed is the rest of the list. `run` executes it; it has no result when the fuel is
used up or a label is missing.

`Ends P is Q c` is total correctness: from the place `is` of the routine `P` and the state `c`, the routine ends in a
state with `Q`. There is one rule for each kind of instruction, so that proofs about routines do not mention fuel, and
`Ends.and` says that there is only one end. A string instruction with `rep` is one instruction; `once_stos`,
`once_movs_forward` and `once_movs_backward` say what its repetitions have done.

All data segments are flat, so that an address is an offset.
-/

namespace Boss.Lib.Asm

/-- The registers that string instructions work on. -/
inductive Reg
  | eax | ecx | edx | esi | edi

/-- The data segment registers. -/
inductive Seg
  | ds | es

/-- The registers, the flags that the routines use, and memory. -/
structure Cpu where
  eax : UInt32
  ecx : UInt32
  edx : UInt32
  esi : UInt32
  edi : UInt32
  ds : UInt16
  es : UInt16
  zf : Bool
  cf : Bool
  df : Bool
  mem : Mem

namespace Cpu

/-- Read a register. -/
def get (c : Cpu) : Reg → UInt32
  | .eax => c.eax
  | .ecx => c.ecx
  | .edx => c.edx
  | .esi => c.esi
  | .edi => c.edi

/-- Write a register. -/
def set (c : Cpu) (v : UInt32) : Reg → Cpu
  | .eax => { c with eax := v }
  | .ecx => { c with ecx := v }
  | .edx => { c with edx := v }
  | .esi => { c with esi := v }
  | .edi => { c with edi := v }

/-- Read a segment register. -/
def getSeg (c : Cpu) : Seg → UInt16
  | .ds => c.ds
  | .es => c.es

/-- Write a segment register. -/
def setSeg (c : Cpu) (v : UInt16) : Seg → Cpu
  | .ds => { c with ds := v }
  | .es => { c with es := v }

/-- The flags after an operation with this result and carry. -/
def flags (c : Cpu) (result : UInt32) (carry : Bool) : Cpu := { c with zf := result = 0, cf := carry }

end Cpu

/-! ### Memory through 32-bit addresses -/

/-- `w` bytes from `a` on. -/
def load (m : Mem) (a : UInt32) (w : Nat) : List UInt8 := (List.range w).map fun k => m (a + UInt32.ofNat k).toNat

/-- Store bytes, the first of them `k` bytes behind `a`. -/
def store (m : Mem) (a : UInt32) : (k : Nat) → List UInt8 → Mem
  | _, [] => m
  | k, b :: bs => store (Function.update m (a + UInt32.ofNat k).toNat b) a (k + 1) bs

/-- The lower bytes of a word, the lowest first. -/
def bytesOf (v : UInt32) (w : Nat) : List UInt8 := (List.range w).map fun k => (v >>> (8 * UInt32.ofNat k)).toUInt8

section
variable {m : Mem} {a w k : Nat} {bs : List UInt8}

/-- An address inside of a block that does not wrap. -/
lemma toNat_offset (h : a + k < 2 ^ 32) : (UInt32.ofNat a + UInt32.ofNat k).toNat = a + k := by
  rw [← UInt32.ofNat_add, UInt32.toNat_ofNat_of_lt' h]

/-- A load from a block that does not wrap. -/
lemma load_eq (h : a + w ≤ 2 ^ 32) : load m (UInt32.ofNat a) w = m.bytes a w := by
  refine List.map_congr_left fun k hk => ?_
  rw [List.mem_range] at hk
  rw [toNat_offset (by omega)]

/-- A store to a block that does not wrap. -/
lemma store_eq (h : a + k + bs.length ≤ 2 ^ 32) : store m (UInt32.ofNat a) k bs = m.put (a + k) bs := by
  induction bs generalizing m k with
  | nil => rfl
  | cons b bs ih =>
    rw [List.length_cons] at h
    rw [store, ih (by omega), toNat_offset (by omega)]
    rfl

end

/-! ### Instructions -/

/-- A string instruction on units of `w` bytes. -/
inductive StringOp
  | stos (w : Nat)
  | movs (w : Nat)

namespace StringOp

/-- The next unit, in the direction of the flag. -/
def advance (c : Cpu) (a : UInt32) (w : Nat) : UInt32 := if c.df then a - UInt32.ofNat w else a + UInt32.ofNat w

/-- One string instruction. -/
def exec (c : Cpu) : StringOp → Cpu
  | .stos w => { c with mem := store c.mem c.edi 0 (bytesOf c.eax w), edi := advance c c.edi w }
  | .movs w =>
    { c with mem := store c.mem c.edi 0 (load c.mem c.esi w), esi := advance c c.esi w, edi := advance c c.edi w }

/-- One repetition. -/
def once (i : StringOp) (c : Cpu) : Cpu := { i.exec c with ecx := c.ecx - 1 }

end StringOp

/-! ### Repetitions -/

section
variable {c : Cpu} {b : UInt8} {a d s w n : Nat}

/-- Nothing has been counted down yet. -/
lemma sub_ofNat_zero {v : UInt32} : v - UInt32.ofNat 0 = v := UInt32.sub_zero v

/-- Counting down once more. -/
lemma sub_ofNat_succ {v : UInt32} : v - 1 - UInt32.ofNat n = v - UInt32.ofNat (n + 1) := by
  rw [Nat.add_comm, UInt32.ofNat_add, sub_sub]
  rfl

/-- `stos` with a unit of equal bytes fills memory upwards. -/
lemma once_stos (hdf : c.df = false) (hedi : c.edi = UInt32.ofNat a) (hfit : a + w * n ≤ 2 ^ 32)
    (hunit : bytesOf c.eax w = List.replicate w b) :
    (StringOp.stos w).once^[n] c =
      { c with
        mem := c.mem.put a (List.replicate (w * n) b), edi := UInt32.ofNat (a + w * n),
        ecx := c.ecx - UInt32.ofNat n } := by
  induction n generalizing c a with
  | zero =>
    rw [Nat.mul_zero, Nat.add_zero, ← hedi, sub_ofNat_zero]
    rfl
  | succ n ih =>
    rw [Nat.mul_succ] at hfit
    have hstep : (StringOp.stos w).once c =
        { c with
          mem := c.mem.put a (List.replicate w b), edi := UInt32.ofNat (a + w), ecx := c.ecx - 1 } := by
      rw [StringOp.once, StringOp.exec, StringOp.advance, hdf, hunit, hedi,
        store_eq (by rw [List.length_replicate]; omega), UInt32.ofNat_add]
      rfl
    have hsize : w + w * n = w * (n + 1) := by rw [Nat.mul_succ, Nat.add_comm]
    have hiter := @ih ((StringOp.stos w).once c) (a + w) (by rw [hstep]; exact hdf) (by rw [hstep]) (by omega)
      (by rw [hstep]; exact hunit)
    rw [Function.iterate_succ_apply, hiter, hstep]
    dsimp only
    rw [Mem.put_replicate, sub_ofNat_succ, Nat.add_assoc, hsize]

/-- `movs` upwards copies the old bytes, unless it comes to bytes that it has already overwritten. -/
lemma once_movs_forward (hdf : c.df = false) (hedi : c.edi = UInt32.ofNat d) (hesi : c.esi = UInt32.ofNat s)
    (hd : d + w * n ≤ 2 ^ 32) (hs : s + w * n ≤ 2 ^ 32) (hdir : d ≤ s ∨ s + w * n ≤ d) :
    (StringOp.movs w).once^[n] c =
      { c with
        mem := c.mem.put d (c.mem.bytes s (w * n)), edi := UInt32.ofNat (d + w * n), esi := UInt32.ofNat (s + w * n),
        ecx := c.ecx - UInt32.ofNat n } := by
  induction n generalizing c d s with
  | zero =>
    rw [Nat.mul_zero, Nat.add_zero, Nat.add_zero, ← hedi, ← hesi, sub_ofNat_zero]
    rfl
  | succ n ih =>
    rw [Nat.mul_succ] at hd hs hdir
    have hstep : (StringOp.movs w).once c =
        { c with
          mem := c.mem.put d (c.mem.bytes s w), edi := UInt32.ofNat (d + w), esi := UInt32.ofNat (s + w),
          ecx := c.ecx - 1 } := by
      rw [StringOp.once, StringOp.exec, StringOp.advance, StringOp.advance, hdf, hedi, hesi, load_eq (by omega),
        store_eq (by rw [Mem.length_bytes]; omega), UInt32.ofNat_add, UInt32.ofNat_add]
      rfl
    have hsize : w + w * n = w * (n + 1) := by rw [Nat.mul_succ, Nat.add_comm]
    have hiter := @ih ((StringOp.movs w).once c) (d + w) (s + w) (by rw [hstep]; exact hdf) (by rw [hstep])
      (by rw [hstep]) (by omega) (by omega) (by omega)
    rw [Function.iterate_succ_apply, hiter, hstep]
    dsimp only
    rw [Mem.put_bytes (by omega), sub_ofNat_succ, Nat.add_assoc, Nat.add_assoc, hsize]

/-- `movs` downwards, from the last unit on. -/
lemma once_movs_backward (hdf : c.df = true) (hedi : c.edi + UInt32.ofNat w = UInt32.ofNat (d + w * n))
    (hesi : c.esi + UInt32.ofNat w = UInt32.ofNat (s + w * n))
    (hd : d + w * n ≤ 2 ^ 32) (hs : s + w * n ≤ 2 ^ 32) (hdir : s ≤ d) :
    ∃ edi esi ecx, (StringOp.movs w).once^[n] c =
      { c with mem := c.mem.put d (c.mem.bytes s (w * n)), edi, esi, ecx } := by
  induction n generalizing c with
  | zero => exact ⟨c.edi, c.esi, c.ecx, rfl⟩
  | succ n ih =>
    rw [Nat.mul_succ] at hd hs
    rw [Nat.mul_succ, ← Nat.add_assoc, UInt32.ofNat_add, add_left_inj] at hedi hesi
    have hstep : (StringOp.movs w).once c =
        { c with
          mem := c.mem.put (d + w * n) (c.mem.bytes (s + w * n) w), edi := c.edi - UInt32.ofNat w,
          esi := c.esi - UInt32.ofNat w, ecx := c.ecx - 1 } := by
      rw [StringOp.once, StringOp.exec, StringOp.advance, StringOp.advance, hdf, hedi, hesi, load_eq (by omega),
        store_eq (by rw [Mem.length_bytes]; omega)]
      rfl
    have hread : (c.mem.put (d + w * n) (c.mem.bytes (s + w * n) w)).bytes s (w * n) = c.mem.bytes s (w * n) := by
      refine Mem.bytes_congr fun i hi => ?_
      rw [Mem.put_apply, if_neg (by omega)]
    have hput : (c.mem.put (d + w * n) (c.mem.bytes (s + w * n) w)).put d (c.mem.bytes s (w * n)) =
        c.mem.put d (c.mem.bytes s (w * (n + 1))) := by
      rw [Nat.mul_succ, Mem.bytes_add, Mem.put_put (by rw [Mem.length_bytes])]
    obtain ⟨edi, esi, ecx, hiter⟩ := @ih ((StringOp.movs w).once c) (by rw [hstep]; exact hdf)
      (by rw [hstep]; exact (sub_add_cancel _ _).trans hedi) (by rw [hstep]; exact (sub_add_cancel _ _).trans hesi)
      (by omega) (by omega)
    refine ⟨edi, esi, ecx, ?_⟩
    rw [Function.iterate_succ_apply, hiter, hstep]
    dsimp only
    rw [hread, hput]

end

/-- Instructions that go on to the next one; operands in the order of the source, the destination last. -/
inductive Op
  | test (src dst : Reg)
  | testImm (v : UInt32) (dst : Reg)
  | cmp (src dst : Reg)
  /-- `movb (src), %al` -/
  | loadb (src : Reg)
  /-- `movb %al, (dst)` -/
  | storeb (dst : Reg)
  | addImm (v : UInt32) (dst : Reg)
  | subImm (v : UInt32) (dst : Reg)
  | andImm (v : UInt32) (dst : Reg)
  | shrImm (v : UInt32) (dst : Reg)
  | mov (src dst : Reg)
  /-- `movw` of a segment register to the lower half of a register. -/
  | movFromSeg (src : Seg) (dst : Reg)
  | movToSeg (src : Reg) (dst : Seg)
  /-- `leal disp(base, index), dst` -/
  | lea (disp : UInt32) (base index dst : Reg)
  | cld
  | std
  | rep (i : StringOp)

/-- One instruction that does not jump. -/
def Op.exec (c : Cpu) : Op → Cpu
  | .test src dst => c.flags (c.get src &&& c.get dst) false
  | .testImm v dst => c.flags (v &&& c.get dst) false
  | .cmp src dst => c.flags (c.get dst - c.get src) (c.get dst < c.get src)
  | .loadb src => { c with eax := c.eax &&& 0xFFFFFF00 ||| (c.mem (c.get src).toNat).toUInt32 }
  | .storeb dst => { c with mem := Function.update c.mem (c.get dst).toNat c.eax.toUInt8 }
  | .addImm v dst => (c.set (c.get dst + v) dst).flags (c.get dst + v) (c.get dst + v < v)
  | .subImm v dst => (c.set (c.get dst - v) dst).flags (c.get dst - v) (c.get dst < v)
  | .andImm v dst => (c.set (c.get dst &&& v) dst).flags (c.get dst &&& v) false
  | .shrImm v dst => (c.set (c.get dst >>> v) dst).flags (c.get dst >>> v) ((c.get dst >>> (v - 1)) &&& 1 ≠ 0)
  | .mov src dst => c.set (c.get src) dst
  | .movFromSeg src dst => c.set (c.get dst &&& 0xFFFF0000 ||| (c.getSeg src).toUInt32) dst
  | .movToSeg src dst => c.setSeg (c.get src).toUInt16 dst
  | .lea disp base index dst => c.set (disp + c.get base + c.get index) dst
  | .cld => { c with df := false }
  | .std => { c with df := true }
  | .rep i => i.once^[c.ecx.toNat] c

/-- When a jump is taken. -/
inductive Cond
  | always
  | zero
  | aboveEqual

/-- When a jump is taken. -/
def Cond.holds (c : Cpu) : Cond → Bool
  | .always => true
  | .zero => c.zf
  | .aboveEqual => !c.cf

/-- An instruction of a routine with labels `L`. -/
inductive Instr (L : Type)
  | label (l : L)
  | op (o : Op)
  | jump (k : Cond) (l : L)

variable {L : Type} [DecidableEq L]

/-- The place of a label. -/
def fromLabel (l : L) : List (Instr L) → Option (List (Instr L))
  | [] => none
  | .label k :: is => if k = l then some (.label k :: is) else fromLabel l is
  | _ :: is => fromLabel l is

/-- The state at the end of the routine `P`, executed from a place on. -/
def run (P : List (Instr L)) : (fuel : Nat) → List (Instr L) → Cpu → Option Cpu
  | _, [], c => some c
  | 0, _ :: _, _ => none
  | fuel + 1, .label _ :: is, c => run P fuel is c
  | fuel + 1, .op o :: is, c => run P fuel is (o.exec c)
  | fuel + 1, .jump k l :: is, c =>
    if k.holds c then (fromLabel l P).bind fun is => run P fuel is c else run P fuel is c

/-! ### Rules -/

/-- The routine ends, in a state with `Q`. -/
def Ends (P : List (Instr L)) (is : List (Instr L)) (Q : Cpu → Prop) (c : Cpu) : Prop :=
  ∃ fuel t, run P fuel is c = some t ∧ Q t

variable {P is is' : List (Instr L)} {Q R : Cpu → Prop} {c t : Cpu} {l : L} {o : Op} {k : Cond} {fuel fuel' : Nat}

/-- More fuel does not change the end. -/
lemma run_mono (h : run P fuel is c = some t) (hle : fuel ≤ fuel') : run P fuel' is c = some t := by
  induction fuel generalizing is c fuel' with
  | zero =>
    cases is with
    | nil => rwa [run] at h ⊢
    | cons i is => cases h
  | succ fuel ih =>
    obtain ⟨n, rfl⟩ : ∃ n, fuel' = n + 1 := ⟨fuel' - 1, by omega⟩
    have hn : fuel ≤ n := Nat.le_of_succ_le_succ hle
    cases is with
    | nil => exact h
    | cons i is =>
      cases i with
      | label l =>
        rw [run] at h ⊢
        exact ih h hn
      | op o =>
        rw [run] at h ⊢
        exact ih h hn
      | jump k l =>
        rw [run] at h ⊢
        split at h
        · next hk =>
          rw [if_pos hk]
          obtain ⟨is', hl, his'⟩ := Option.bind_eq_some_iff.mp h
          exact Option.bind_eq_some_iff.mpr ⟨is', hl, ih his' hn⟩
        · next hk =>
          rw [if_neg hk]
          exact ih h hn

namespace Ends

/-- The code has ended. -/
lemma nil (h : Q c) : Ends P [] Q c := ⟨0, c, by rw [run], h⟩

/-- A label does nothing. -/
lemma label (h : Ends P is Q c) : Ends P (.label l :: is) Q c := by
  obtain ⟨fuel, t, hrun, ht⟩ := h
  exact ⟨fuel + 1, t, hrun, ht⟩

/-- One instruction. -/
lemma op (h : Ends P is Q (o.exec c)) : Ends P (.op o :: is) Q c := by
  obtain ⟨fuel, t, hrun, ht⟩ := h
  exact ⟨fuel + 1, t, hrun, ht⟩

/-- A jump that is taken. -/
lemma jump (hk : k.holds c = true) (hl : fromLabel l P = some is') (h : Ends P is' Q c) :
    Ends P (.jump k l :: is) Q c := by
  obtain ⟨fuel, t, hrun, ht⟩ := h
  refine ⟨fuel + 1, t, ?_, ht⟩
  rw [run, if_pos hk, hl]
  exact hrun

/-- A jump that is not taken. -/
lemma fall (hk : k.holds c = false) (h : Ends P is Q c) : Ends P (.jump k l :: is) Q c := by
  obtain ⟨fuel, t, hrun, ht⟩ := h
  refine ⟨fuel + 1, t, ?_, ht⟩
  rw [run, if_neg (by rw [hk]; exact Bool.false_ne_true)]
  exact hrun

/-- `testl` of a register with itself and `jz`: the jump is taken when the register is zero. -/
lemma jz {r : Reg} (hr : c.get r = 0) (hl : fromLabel l P = some is') (h : Ends P is' Q (c.flags 0 false)) :
    Ends P (.op (.test r r) :: .jump .zero l :: is) Q c := by
  have htest : (Op.test r r).exec c = c.flags 0 false := by rw [Op.exec, hr, UInt32.and_self]
  refine .op ?_
  rw [htest]
  exact .jump rfl hl h

/-- A jump if a register is zero, which it is not. -/
lemma jz_fall {r : Reg} (hr : c.get r ≠ 0) (h : Ends P is Q (c.flags (c.get r) false)) :
    Ends P (.op (.test r r) :: .jump .zero l :: is) Q c := by
  have htest : (Op.test r r).exec c = c.flags (c.get r) false := by rw [Op.exec, UInt32.and_self]
  refine .op ?_
  rw [htest]
  exact .fall (decide_eq_false hr) h

/-- A weaker result. -/
lemma imp (h : Ends P is Q c) (himp : ∀ t, Q t → R t) : Ends P is R c := by
  obtain ⟨fuel, t, hrun, ht⟩ := h
  exact ⟨fuel, t, hrun, himp t ht⟩

/-- There is one end only. -/
lemma and (h : Ends P is Q c) (h' : Ends P is R c) : Ends P is (fun t => Q t ∧ R t) c := by
  obtain ⟨fuel, t, hrun, ht⟩ := h
  obtain ⟨fuel', t', hrun', ht'⟩ := h'
  have hmax := run_mono hrun (Nat.le_max_left fuel fuel')
  rw [run_mono hrun' (Nat.le_max_right fuel fuel')] at hmax
  obtain rfl := Option.some.inj hmax
  exact ⟨fuel, t', hrun, ht, ht'⟩

/-- Code that ends has a result. -/
lemma exists_of (h : Ends P is Q c) : ∃ t, Q t := by
  obtain ⟨_, t, _, ht⟩ := h
  exact ⟨t, ht⟩

end Ends

end Boss.Lib.Asm
