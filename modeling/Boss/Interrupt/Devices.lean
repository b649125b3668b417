import Boss.Lib.Memory
import Mathlib.Data.List.Induction
import Mathlib.Tactic.IntervalCases

/-!
# The RTC and the interrupt controllers

Two drivers that keep a setting in a device register. `RTC_write` turns a frequency into a rate and puts it into the low
half of register A of the CMOS clock. `enable_irq` and `disable_irq` keep the masks of the two 8259A chips in
`master_mask` and `slave_mask` and send them on.

What `outb` does depends on the state of the device behind the port. The CMOS has an index port (the low seven bits of
the byte choose a register, the high bit turns NMIs off) and a data port. An 8259A takes a byte with bit 4 on its
command port as ICW1: it clears its mask register and takes the next three bytes on its data port for the remaining
initialisation words. All other bytes on the data port are masks.

* `rtc_write_iff`: `RTC_write` treats a request as it should unless it has the right size and the wrong frequency.
* `masks_match_iff`: the chips have the masks of the kernel as soon as both have been sent one after `i8259_init`.
-/

namespace Boss
open Lib

/-- The CMOS: the register that the index port chose, and the registers. -/
structure Cmos where
  index : UInt8
  reg : UInt8 → UInt8

/-- An 8259A: its mask register, and how many of the initialisation words it waits for. -/
structure Pic where
  imr : UInt8
  icws : Nat

/-- A byte on the command port. Without bit 4 it is an end of interrupt or a request to read a register. -/
def Pic.command (c : Pic) (byte : UInt8) : Pic := if byte &&& 0x10 = 0 then c else ⟨0, 3⟩

/-- A byte on the data port. -/
def Pic.data (c : Pic) (byte : UInt8) : Pic :=
  match c.icws with
  | 0 => { c with imr := byte }
  | n + 1 => { c with icws := n }

/-- An initialised controller takes a byte for its mask. -/
lemma Pic.data_of_ready {c : Pic} {byte : UInt8} (h : c.icws = 0) : c.data byte = ⟨byte, 0⟩ := by
  rw [data, h]

/-- The devices behind the ports of the two drivers. -/
structure Board where
  cmos : Cmos
  master : Pic
  slave : Pic

namespace Board
variable {b : Board}

/-- `outb(data, port)`. -/
def outb (b : Board) (data : UInt8) (port : UInt16) : Board :=
  if port = 0x70 then { b with cmos := { b.cmos with index := data &&& 0x7F } }
  else if port = 0x71 then { b with cmos := { b.cmos with reg := Function.update b.cmos.reg b.cmos.index data } }
  else if port = 0x20 then { b with master := b.master.command data }
  else if port = 0x21 then { b with master := b.master.data data }
  else if port = 0xA0 then { b with slave := b.slave.command data }
  else if port = 0xA1 then { b with slave := b.slave.data data }
  else b

/-- `inb(CMOS)`. -/
def inbCmos (b : Board) : UInt8 := b.cmos.reg b.cmos.index

/-! ### The frequency of the RTC -/

/-- Register A of the clock. -/
def registerA (b : Board) : UInt8 := b.cmos.reg 0x0A

/-- The rate for a frequency. The chain of comparisons of `RTC_write` has no last `else`: the variable `rate`, which is
not initialised, then keeps what it had. -/
def rateOf (fq : Int32) (rate : UInt8) : UInt8 :=
  if fq = 1024 then 0x06
  else if fq = 512 then 0x07
  else if fq = 256 then 0x08
  else if fq = 128 then 0x09
  else if fq = 64 then 0x0A
  else if fq = 32 then 0x0B
  else if fq = 16 then 0x0C
  else if fq = 8 then 0x0D
  else if fq = 4 then 0x0E
  else if fq = 2 then 0x0F
  else rate

/-- The port operations that put a rate into register A. -/
def setRate (b : Board) (rate : UInt8) : Board :=
  let b := b.outb 0x8A 0x70
  let val := b.inbCmos
  let b := b.outb 0x8A 0x70
  b.outb ((val &&& 0xF0) ||| rate) 0x71

/-- The `int32_t` at the beginning of a buffer. -/
def frequency (buff : Mem) : Int32 := Int32.ofNat (buff.le32 0)

/-- `RTC_write`; `rate` is what the local variable of this name has on the stack. -/
def rtcWrite (b : Board) (rate : UInt8) (buff : Mem) (nbytes : UInt32) : Board × Int :=
  if nbytes = 4 then (b.setRate (rateOf (frequency buff) rate), 0) else (b, -1)

/-- The frequencies that programs may ask for: 2, 4, …, 1024. -/
def PowerOfTwo (f : Int32) : Prop := ∃ k, 1 ≤ k ∧ k ≤ 10 ∧ f.toInt = 2 ^ k

/-- A request is answered as it should be: a frequency that the clock can have is set and nothing else is touched, and
all other requests are refused. -/
structure Validates (b : Board) (rate : UInt8) (buff : Mem) (nbytes : UInt32) : Prop where
  ret : (b.rtcWrite rate buff nbytes).2 = 0 ↔ nbytes = 4 ∧ PowerOfTwo (frequency buff)
  upper : nbytes = 4 ∧ PowerOfTwo (frequency buff) →
    (b.rtcWrite rate buff nbytes).1.registerA &&& 0xF0 = b.registerA &&& 0xF0
  lower : nbytes = 4 ∧ PowerOfTwo (frequency buff) →
    ((32768 >>> (((b.rtcWrite rate buff nbytes).1.registerA &&& 0x0F).toNat - 1) : Nat) : Int) =
      (frequency buff).toInt
  refused : ¬ (nbytes = 4 ∧ PowerOfTwo (frequency buff)) →
    (b.rtcWrite rate buff nbytes).2 = -1 ∧ (b.rtcWrite rate buff nbytes).1.registerA = b.registerA

/-- The new rate beside the upper half of the register. -/
lemma setRate_registerA {rate : UInt8} : (b.setRate rate).registerA = (b.registerA &&& 0xF0) ||| rate := by
  change Function.update b.cmos.reg 0x0A ((b.cmos.reg 0x0A &&& 0xF0) ||| rate) 0x0A = _
  rw [Function.update_self, registerA]

/-- Masking both parts of a sum of bits. -/
lemma or_and {x y z : UInt8} : (x ||| y) &&& z = x &&& z ||| y &&& z :=
  UInt8.toBitVec_inj.mp BitVec.and_or_distrib_right

/-- The rate goes into the low half of the register, the high half stays. -/
lemma setRate_halves {rate : UInt8} (hrate : rate &&& 0xF0 = 0) :
    (b.setRate rate).registerA &&& 0xF0 = b.registerA &&& 0xF0 ∧
      (b.setRate rate).registerA &&& 0x0F = rate &&& 0x0F := by
  rw [setRate_registerA, or_and, or_and, hrate, UInt8.and_assoc, UInt8.and_assoc]
  have hkeep : (0xF0 : UInt8) &&& 0xF0 = 0xF0 := rfl
  have hclear : (0xF0 : UInt8) &&& 0x0F = 0 := rfl
  rw [hkeep, hclear, UInt8.or_zero, UInt8.and_zero, UInt8.zero_or]
  exact ⟨rfl, rfl⟩

/-- The rate of a power of two is below 16, and the clock makes this frequency of it. -/
lemma rateOf_spec {f : Int32} {rate : UInt8} (h : PowerOfTwo f) :
    rateOf f rate &&& 0xF0 = 0 ∧ ((32768 >>> ((rateOf f rate &&& 0x0F).toNat - 1) : Nat) : Int) = f.toInt := by
  obtain ⟨k, hk, hk', hf⟩ := h
  have hlit : f = Int32.ofInt (2 ^ k) := by rw [← hf, Int32.ofInt_toInt]
  have hrate : rateOf f rate = UInt8.ofNat (16 - k) := by
    subst hlit
    clear hf
    interval_cases k
    all_goals rfl
  rw [hrate, hf]
  clear hf hlit hrate
  interval_cases k
  all_goals exact ⟨rfl, rfl⟩

/-- Requests of another size are refused. -/
lemma Validates.of_size {rate : UInt8} {buff : Mem} {nbytes : UInt32} (hn : nbytes ≠ 4) :
    b.Validates rate buff nbytes := by
  have hwrite : b.rtcWrite rate buff nbytes = (b, -1) := if_neg hn
  have hbad : ¬ (nbytes = 4 ∧ PowerOfTwo (frequency buff)) := fun h => hn h.1
  refine ⟨?_, fun h => absurd h hbad, fun h => absurd h hbad, fun _ => ?_⟩
  · rw [hwrite]
    exact ⟨fun h => absurd h (Int.negSucc_ne_zero 0), fun h => absurd h hbad⟩
  · rw [hwrite]
    exact ⟨rfl, rfl⟩

/-- A frequency that the clock can have is set. -/
lemma Validates.of_power {rate : UInt8} {buff : Mem} (hf : PowerOfTwo (frequency buff)) : b.Validates rate buff 4 := by
  have hwrite : b.rtcWrite rate buff 4 = (b.setRate (rateOf (frequency buff) rate), 0) := if_pos rfl
  obtain ⟨hlow, hfreq⟩ := @rateOf_spec _ rate hf
  obtain ⟨hkeep, hset⟩ := @setRate_halves b _ hlow
  refine ⟨?_, fun _ => ?_, fun _ => ?_, fun h => absurd ⟨rfl, hf⟩ h⟩
  · rw [hwrite]
    exact ⟨fun _ => ⟨rfl, hf⟩, fun _ => rfl⟩
  · rw [hwrite]
    exact hkeep
  · rw [hwrite, hset]
    exact hfreq

end Board

open Board in
/-- A request of four bytes is never refused, whatever its frequency is. All other requests are answered as they should
be. -/
theorem rtc_write_iff (b : Board) (rate : UInt8) (buff : Mem) (nbytes : UInt32) :
    b.Validates rate buff nbytes ↔ nbytes ≠ 4 ∨ PowerOfTwo (frequency buff) := by
  by_cases hn : nbytes = 4
  · subst hn
    constructor
    · intro h
      have hret : (b.rtcWrite rate buff 4).2 = 0 := by rw [rtcWrite, if_pos rfl]
      exact Or.inr (h.ret.mp hret).2
    · rintro (hn | hf)
      · exact absurd rfl hn
      · exact .of_power hf
  · exact ⟨fun _ => Or.inl hn, fun _ => .of_size hn⟩

/-- A machine that was just switched on. -/
def freshBoard : Board := ⟨⟨0, fun _ => 0⟩, ⟨0, 0⟩, ⟨0, 0⟩⟩

open Board in
/-- 1000 Hz is no power of two. The request is granted, and a stale rate of 255 goes into both halves of register A. -/
theorem rtc_write_takes_1000 : ¬ freshBoard.Validates 255 (Mem.put (fun _ => 0) 0 [0xE8, 0x03]) 4 ∧
    (freshBoard.rtcWrite 255 (Mem.put (fun _ => 0) 0 [0xE8, 0x03]) 4).2 = 0 ∧
    (freshBoard.rtcWrite 255 (Mem.put (fun _ => 0) 0 [0xE8, 0x03]) 4).1.registerA = 255 := by
  have hset : (freshBoard.rtcWrite 255 (Mem.put (fun _ => 0) 0 [0xE8, 0x03]) 4).1.registerA = 255 := rfl
  have hret : (freshBoard.rtcWrite 255 (Mem.put (fun _ => 0) 0 [0xE8, 0x03]) 4).2 = 0 := rfl
  refine ⟨fun h => ?_, hret, hset⟩
  have hkept := h.upper (h.ret.mp hret)
  rw [hset] at hkept
  exact absurd hkept (by decide)

/-! ### The masks of the interrupt controllers -/

/-- `mask &= ~(1 << bit)`, in a mask of eight bits. -/
def clearBit (bit : UInt32) (mask : UInt8) : UInt8 := mask &&& (~~~(1 <<< bit)).toUInt8

/-- `mask |= 1 << bit`. -/
def setBit (bit : UInt32) (mask : UInt8) : UInt8 := mask ||| (1 <<< bit).toUInt8

/-- The bits of a mask with one bit. -/
lemma testBit_one_shiftLeft {bit : UInt32} {i : Nat} (hbit : bit.toNat < 8) (hi : i < 8) :
    ((1 : UInt32) <<< bit).toUInt8.toNat.testBit i = decide (i = bit.toNat) := by
  have hlit : bit = UInt32.ofNat bit.toNat := UInt32.ofNat_toNat.symm
  generalize bit.toNat = n at *
  subst hlit
  interval_cases n
  all_goals interval_cases i
  all_goals rfl

/-- Setting one bit. -/
lemma testBit_setBit {bit : UInt32} {mask : UInt8} {i : Nat} (hbit : bit.toNat < 8) (hi : i < 8) :
    (setBit bit mask).toNat.testBit i = (mask.toNat.testBit i || decide (i = bit.toNat)) := by
  rw [setBit, UInt8.toNat_or, Nat.testBit_or, testBit_one_shiftLeft hbit hi]

/-- Clearing one bit. -/
lemma testBit_clearBit {bit : UInt32} {mask : UInt8} {i : Nat} (hbit : bit.toNat < 8) (hi : i < 8) :
    (clearBit bit mask).toNat.testBit i = (mask.toNat.testBit i && !decide (i = bit.toNat)) := by
  have hnot : (~~~((1 : UInt32) <<< bit)).toUInt8 = ~~~((1 : UInt32) <<< bit).toUInt8 := UInt32.toUInt8_not _
  have hbits : (~~~((1 : UInt32) <<< bit).toUInt8).toNat.testBit i = !((1 : UInt32) <<< bit).toUInt8.toNat.testBit i := by
    rw [← UInt8.toNat_toBitVec, ← UInt8.toNat_toBitVec, UInt8.toBitVec_not, BitVec.testBit_toNat, BitVec.testBit_toNat,
      BitVec.getLsbD_not, decide_eq_true hi, Bool.true_and]
  rw [clearBit, UInt8.toNat_and, Nat.testBit_and, hnot, hbits, testBit_one_shiftLeft hbit hi]

/-- The variables of the driver for the interrupt controllers, and the devices. -/
structure I8259 where
  masterMask : UInt8
  slaveMask : UInt8
  board : Board

/-- A call of `enable_irq` or `disable_irq`. -/
inductive IrqCall
  | enable (irqNum : UInt32)
  | disable (irqNum : UInt32)
  deriving DecidableEq

namespace IrqCall
variable {c : IrqCall} {calls : List IrqCall} {irq : UInt32}

/-- The interrupt that the call names. -/
def irqNum : IrqCall → UInt32
  | enable irqNum | disable irqNum => irqNum

/-- What the call does to a bit of a mask. -/
def op : IrqCall → UInt32 → UInt8 → UInt8
  | enable _ => clearBit
  | disable _ => setBit

/-- The call goes to the second chip. -/
def slave (c : IrqCall) : Bool := 8 ≤ c.irqNum

/-- The bit of the mask of its chip. -/
def bit (c : IrqCall) : UInt32 := if c.irqNum < 8 then c.irqNum else c.irqNum - 8

/-- The last call that names an interrupt. -/
def last (irq : UInt32) (calls : List IrqCall) : Option IrqCall := (calls.filter (·.irqNum = irq)).getLast?

/-- The place of a line in the mask of its controller. -/
lemma bit_toNat (hc : c.irqNum < 16) : c.bit.toNat = c.irqNum.toNat % 8 := by
  rw [bit]
  split
  · next hlow =>
    rw [UInt32.lt_iff_toNat_lt] at hlow
    exact (Nat.mod_eq_of_lt hlow).symm
  · next hhigh =>
    rw [UInt32.not_lt] at hhigh
    rw [UInt32.toNat_sub_of_le _ _ hhigh]
    rw [UInt32.le_iff_toNat_le] at hhigh
    rw [UInt32.lt_iff_toNat_lt] at hc
    change c.irqNum.toNat - 8 = _
    change 8 ≤ _ at hhigh
    change _ < 16 at hc
    omega

/-- Two interrupts of one chip have different bits. -/
lemma eq_of_bit (hc : c.irqNum < 16) (hirq : irq < 16) (hslave : c.slave = decide (8 ≤ irq)) :
    irq.toNat % 8 = c.bit.toNat ↔ c.irqNum = irq := by
  rw [bit_toNat hc, ← UInt32.toNat_inj]
  rw [UInt32.lt_iff_toNat_lt] at hc hirq
  rw [slave, decide_eq_decide, UInt32.le_iff_toNat_le, UInt32.le_iff_toNat_le] at hslave
  change _ < 16 at hc hirq
  change 8 ≤ _ ↔ 8 ≤ _ at hslave
  omega

/-- The last call for a line. -/
lemma last_snoc : last irq (calls ++ [c]) = if c.irqNum = irq then some c else last irq calls := by
  rw [last, List.filter_append]
  split
  · next h => simp [h]
  · next h => simp [h, last]

/-- The last call for a line is one of the calls. -/
lemma mem_of_last (h : last irq calls = some c) : c ∈ calls ∧ c.irqNum = irq := by
  have hmem := List.mem_filter.mp (List.mem_of_getLast? h)
  exact ⟨hmem.1, of_decide_eq_true hmem.2⟩

end IrqCall

namespace I8259
variable {s : I8259} {c : IrqCall} {calls : List IrqCall} {irq : UInt32} {slave : Bool}

/-- A store to a port. -/
def outb (s : I8259) (data : UInt8) (port : UInt16) : I8259 := { s with board := s.board.outb data port }

/-- `i8259_init`. -/
def i8259Init (s : I8259) : I8259 :=
  let s := { s with masterMask := 0xff, slaveMask := 0xff }
  let s := s.outb s.masterMask 0x21
  let s := s.outb s.slaveMask 0xA1
  let s := s.outb 0x11 0x20
  let s := s.outb 0x20 0x21
  let s := s.outb 0x04 0x21
  let s := s.outb 0x01 0x21
  let s := s.outb 0x11 0xA0
  let s := s.outb 0x28 0xA1
  let s := s.outb 0x02 0xA1
  s.outb 0x01 0xA1

/-- The common part of `enable_irq` and `disable_irq`: change the mask of the chip and send it. -/
def setIrq (s : I8259) (op : UInt32 → UInt8 → UInt8) (irqNum : UInt32) : I8259 :=
  if irqNum < 8 then
    let s := { s with masterMask := op irqNum s.masterMask }
    s.outb s.masterMask 0x21
  else
    let s := { s with slaveMask := op (irqNum - 8) s.slaveMask }
    s.outb s.slaveMask 0xA1

/-- `enable_irq`. -/
def enableIrq (s : I8259) (irqNum : UInt32) : I8259 := s.setIrq clearBit irqNum

/-- `disable_irq`. -/
def disableIrq (s : I8259) (irqNum : UInt32) : I8259 := s.setIrq setBit irqNum

/-- `enable_irq` or `disable_irq`. -/
def call (s : I8259) : IrqCall → I8259
  | .enable irqNum => s.enableIrq irqNum
  | .disable irqNum => s.disableIrq irqNum

/-- The mask of a chip in the kernel. -/
def mask (s : I8259) (slave : Bool) : UInt8 := if slave then s.slaveMask else s.masterMask

/-- One of the chips. -/
def chip (s : I8259) (slave : Bool) : Pic := if slave then s.board.slave else s.board.master

/-- The interrupt is masked in the hardware. -/
def Masked (s : I8259) (irq : UInt32) : Prop := (s.chip (8 ≤ irq)).imr.toNat.testBit (irq.toNat % 8)

/-- The chips have the masks of the kernel, and these are what the calls asked for. -/
structure MasksMatch (s : I8259) (calls : List IrqCall) : Prop where
  master : s.board.master.imr = s.masterMask
  slave : s.board.slave.imr = s.slaveMask
  bits : ∀ irq < 16, ¬ s.Masked irq ↔ IrqCall.last irq calls = some (.enable irq)

/-- A call changes the mask of its chip and sends it. -/
lemma call_chip : (s.call c).mask slave = (if c.slave = slave then c.op c.bit (s.mask slave) else s.mask slave) ∧
    (s.call c).chip slave =
      if c.slave = slave then (s.chip slave).data (c.op c.bit (s.mask slave)) else s.chip slave := by
  have hcall : s.call c = s.setIrq c.op c.irqNum := by
    cases c with
    | enable irqNum => rfl
    | disable irqNum => rfl
  rw [hcall, setIrq, IrqCall.bit, IrqCall.slave]
  by_cases hlow : c.irqNum < 8
  · have hslave : decide (8 ≤ c.irqNum) = false := decide_eq_false (UInt32.not_le.mpr hlow)
    rw [if_pos hlow, if_pos hlow, hslave]
    cases slave with
    | false => exact ⟨rfl, rfl⟩
    | true => exact ⟨rfl, rfl⟩
  · have hslave : decide (8 ≤ c.irqNum) = true := decide_eq_true (UInt32.not_lt.mp hlow)
    rw [if_neg hlow, if_neg hlow, hslave]
    cases slave with
    | false => exact ⟨rfl, rfl⟩
    | true => exact ⟨rfl, rfl⟩

/-- What holds after `i8259_init` and the calls: the masks of the kernel are what the calls asked for, and a chip has
its mask if a call went to it, and else masks nothing. -/
structure Follows (s : I8259) (calls : List IrqCall) : Prop where
  ready : ∀ slave, (s.chip slave).icws = 0
  sent : ∀ c ∈ calls, (s.chip c.slave).imr = s.mask c.slave
  unsent : ∀ slave, (∀ c ∈ calls, c.slave ≠ slave) → (s.chip slave).imr = 0
  bits : ∀ irq < 16, ¬ (s.mask (8 ≤ irq)).toNat.testBit (irq.toNat % 8) ↔ IrqCall.last irq calls = some (.enable irq)

/-- ICW1 clears the masks that `i8259_init` sent before it, and no mask is sent after it. -/
lemma follows_init : s.i8259Init.Follows [] where
  ready slave := by
    cases slave with
    | false => rfl
    | true => rfl
  sent c hc := absurd hc List.not_mem_nil
  unsent slave _ := by
    cases slave with
    | false => rfl
    | true => rfl
  bits irq hirq := by
    have hall : ∀ i < 8, (255 : UInt8).toNat.testBit i := by decide
    have hmask : s.i8259Init.mask (8 ≤ irq) = 255 := ite_self _
    rw [hmask]
    exact ⟨fun h => absurd (hall _ (Nat.mod_lt _ (by decide))) h, fun h => absurd h (by simp [IrqCall.last])⟩

/-- The bit of the interrupt that the call names becomes what the call asks for, all others stay. -/
lemma bits_call (hc : c.irqNum < 16) (hirq : irq < 16) :
    ((s.call c).mask (8 ≤ irq)).toNat.testBit (irq.toNat % 8) =
      if c.irqNum = irq then decide (c = .disable irq) else (s.mask (8 ≤ irq)).toNat.testBit (irq.toNat % 8) := by
  have hbit : c.bit.toNat < 8 := IrqCall.bit_toNat hc ▸ Nat.mod_lt _ (by decide)
  have hmod : irq.toNat % 8 < 8 := Nat.mod_lt _ (by decide)
  rw [call_chip.1]
  by_cases hslave : c.slave = decide (8 ≤ irq)
  · have heq : (irq.toNat % 8 = c.bit.toNat) = (c.irqNum = irq) := propext (IrqCall.eq_of_bit hc hirq hslave)
    rw [if_pos hslave]
    cases c with
    | enable irqNum =>
      rw [IrqCall.op, testBit_clearBit hbit hmod]
      simp only [heq]
      split
      · next h => rw [decide_eq_true h, Bool.not_true, Bool.and_false, decide_eq_false IrqCall.noConfusion]
      · next h => rw [decide_eq_false h, Bool.not_false, Bool.and_true]
    | disable irqNum =>
      rw [IrqCall.op, testBit_setBit hbit hmod]
      simp only [heq]
      split
      · next h =>
        rw [decide_eq_true h, Bool.or_true]
        exact (decide_eq_true (congrArg IrqCall.disable h)).symm
      · next h => rw [decide_eq_false h, Bool.or_false]
  · have hne : c.irqNum ≠ irq := fun h => hslave (h ▸ rfl)
    rw [if_neg hslave, if_neg hne]

/-- One more call. -/
lemma Follows.call (h : s.Follows calls) (hc : c.irqNum < 16) : (s.call c).Follows (calls ++ [c]) := by
  have hchip : ∀ slave, c.slave = slave →
      (s.call c).chip slave = ⟨(s.call c).mask slave, 0⟩ := by
    intro slave hslave
    rw [call_chip.1, call_chip.2, if_pos hslave, if_pos hslave, Pic.data_of_ready (h.ready slave)]
  have hother : ∀ slave, c.slave ≠ slave →
      (s.call c).chip slave = s.chip slave ∧ (s.call c).mask slave = s.mask slave := by
    intro slave hslave
    rw [call_chip.1, call_chip.2, if_neg hslave, if_neg hslave]
    exact ⟨rfl, rfl⟩
  refine ⟨fun slave => ?_, fun c' hc' => ?_, fun slave hnone => ?_, fun irq hirq => ?_⟩
  · by_cases hslave : c.slave = slave
    · rw [hchip slave hslave]
    · rw [(hother slave hslave).1, h.ready]
  · by_cases hslave : c.slave = c'.slave
    · rw [hchip _ hslave]
    · rw [(hother _ hslave).1, (hother _ hslave).2]
      rcases List.mem_append.mp hc' with hmem | hlast
      · exact h.sent c' hmem
      · exact absurd (congrArg IrqCall.slave (List.mem_singleton.mp hlast).symm) hslave
  · have hslave := hnone c (List.mem_append_right _ List.mem_cons_self)
    rw [(hother slave hslave).1]
    exact h.unsent slave fun c' hc' => hnone c' (List.mem_append_left _ hc')
  · rw [bits_call hc hirq, IrqCall.last_snoc]
    by_cases hname : c.irqNum = irq
    · rw [if_pos hname, if_pos hname, Option.some.injEq, decide_eq_true_eq]
      cases c with
      | enable irqNum =>
        cases hname
        exact ⟨fun _ => rfl, fun _ => IrqCall.noConfusion⟩
      | disable irqNum =>
        cases hname
        exact ⟨fun hn => absurd rfl hn, fun he => IrqCall.noConfusion he⟩
    · rw [if_neg hname, if_neg hname]
      exact h.bits irq hirq

/-- The state after `i8259_init` and the calls. -/
def afterCalls (s : I8259) (calls : List IrqCall) : I8259 := calls.foldl call s.i8259Init

/-- Any number of calls. -/
lemma follows_calls (hcalls : ∀ c ∈ calls, c.irqNum < 16) : (s.afterCalls calls).Follows calls := by
  induction calls using List.reverseRecOn with
  | nil => exact follows_init
  | append_singleton calls c ih =>
    have hprev := ih fun c' hc' => hcalls c' (List.mem_append_left _ hc')
    rw [afterCalls, List.foldl_append]
    exact hprev.call (hcalls c (List.mem_append_right _ List.mem_cons_self))

/-- What the calls asked for is not yet in a chip to which no call went: it masks nothing. -/
lemma MasksMatch.named (hm : s.MasksMatch calls) (h : s.Follows calls) (hirq : irq < 16) :
    ∃ c ∈ calls, c.slave = decide (8 ≤ irq) := by
  by_contra hno
  have hnone : ∀ c ∈ calls, c.slave ≠ decide (8 ≤ irq) := fun c hc hslave => hno ⟨c, hc, hslave⟩
  have hzero := h.unsent _ hnone
  have hopen : ¬ s.Masked irq := by
    rw [Masked, hzero]
    simp
  obtain ⟨hmem, _⟩ := IrqCall.mem_of_last ((hm.bits irq hirq).mp hopen)
  exact hnone _ hmem rfl

end I8259

open I8259 in
/-- `i8259_init` leaves all interrupts unmasked in the hardware and masked in the kernel; a chip gets the mask of the
kernel with the first call that goes to it. -/
theorem masks_match_iff (s : I8259) (calls : List IrqCall) (hcalls : ∀ c ∈ calls, c.irqNum < 16) :
    (s.afterCalls calls).MasksMatch calls ↔ (∃ c ∈ calls, c.irqNum < 8) ∧ ∃ c ∈ calls, 8 ≤ c.irqNum := by
  have h := @follows_calls s calls hcalls
  constructor
  · intro hm
    obtain ⟨c, hc, hmaster⟩ := @MasksMatch.named _ _ 0 hm h (by decide)
    obtain ⟨c', hc', hslave⟩ := @MasksMatch.named _ _ 8 hm h (by decide)
    exact ⟨⟨c, hc, UInt32.not_le.mp (of_decide_eq_false hmaster)⟩, c', hc', of_decide_eq_true hslave⟩
  · rintro ⟨⟨c, hc, hlow⟩, c', hc', hhigh⟩
    have hmaster : c.slave = false := decide_eq_false (UInt32.not_le.mpr hlow)
    have hslave : c'.slave = true := decide_eq_true hhigh
    have hsent : ∀ slave, ((s.afterCalls calls).chip slave).imr = (s.afterCalls calls).mask slave := by
      intro slave
      cases slave with
      | false => exact hmaster ▸ h.sent c hc
      | true => exact hslave ▸ h.sent c' hc'
    refine ⟨hsent false, hsent true, fun irq hirq => ?_⟩
    rw [Masked, hsent]
    exact h.bits irq hirq

/-- Chips in the state in which the machine starts, and a call to each of them. -/
theorem masks_match_iff_two :
    (I8259.afterCalls ⟨0, 0, freshBoard⟩ [.enable 1, .enable 8]).MasksMatch [.enable 1, .enable 8] :=
  (masks_match_iff ⟨0, 0, freshBoard⟩ [.enable 1, .enable 8] (by decide)).mpr ⟨⟨.enable 1, by decide⟩, .enable 8, by decide⟩

/-- Right after `i8259_init` the mask of the kernel is 0xFF, and the mask register of the first chip 0. -/
theorem init_unmasks_all : (I8259.afterCalls ⟨0, 0, freshBoard⟩ []).masterMask = 0xFF ∧
    (I8259.afterCalls ⟨0, 0, freshBoard⟩ []).board.master.imr = 0 ∧
    ¬ (I8259.afterCalls ⟨0, 0, freshBoard⟩ []).MasksMatch [] :=
  ⟨rfl, rfl, fun h => absurd h.master (by decide)⟩

end Boss
