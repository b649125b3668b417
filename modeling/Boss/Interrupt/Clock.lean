import Boss.Interrupt.Devices
import Boss.Process.Kernel

/-!
# The clock and its interrupts

`RTC_init` and `RTC_write` reach a register of the clock in two port operations: one puts the number of the register
into the index port, the next one reads or writes the data port. They run with interrupts on, and `rtc_irq_handler` uses
the same index port: it selects register C and reads it, which clears the register. When that happens between the two
operations, the second one goes to register C.

The machine of this module lets any number of processes call the driver, one port operation at a time, and lets the
clock interrupt them anywhere.

* `settings_in_order`: as long as every access finds the index port as its own call has left it, the calls do not
  disturb one another, however they are interleaved. The low half of register A is the rate that was stored last, and
  nothing else of registers A and B changes but the bit that turns the interrupts of the clock on. This is for calls
  that ask for frequencies of the clock: for any other one `RTC_write` stores what its variable `rate` held before, all
  eight bits of it.
* `rate_arrives_iff`: interrupts before the other port operations of `RTC_write` do not matter, but one between a
  selection and its access loses the rate or the upper half of register A.
-/

namespace Boss
open Lib Board

/-- The port operations of the driver. An access is named after the register that it is meant for. -/
inductive ClockOp
  /-- `outb(reg, NMI)` -/
  | select (reg : UInt8)
  /-- `val = inb(CMOS)` -/
  | loadA
  | loadB
  /-- `outb((val & RATEMASK) | rate, CMOS)` -/
  | storeA (rate : UInt8)
  /-- `outb(val | MASKBIT6, CMOS)` -/
  | storeB
  /-- `enable_irq(IRQ_NUM)` -/
  | enable
  deriving DecidableEq

/-- The code of `RTC_init`. -/
def rtcInit : List ClockOp :=
  [.select 0x8B, .loadB, .select 0x8B, .storeB, .select 0x8A, .loadA, .select 0x8A, .storeA 0x0F, .enable]

/-- The code of `RTC_write` from the choice of the rate on. -/
def rtcSetRate (rate : UInt8) : List ClockOp := [.select 0x8A, .loadA, .select 0x8A, .storeA rate]

/-- A call in progress: its variable `val`, and what is left of its code. -/
structure ClockTask where
  val : UInt8
  code : List ClockOp

/-- The devices, the calls in progress, and the rates that calls have stored, the last one first. -/
structure Clock where
  i8259 : I8259
  task : Pid → ClockTask
  rates : List UInt8

/-- What happens to the driver. -/
inductive ClockEvent
  /-- `RTC_open` -/
  | opens (p : Pid)
  /-- `RTC_write` of four bytes with the frequency `fq`; `stale` is what its variable `rate` has on the stack. -/
  | writes (p : Pid) (stale : UInt8) (fq : Int32)
  /-- The next port operation of a call. -/
  | goes (p : Pid)
  /-- An interrupt of the clock. -/
  | interrupt

/-- What `rtc_irq_handler` does to the clock. Register C is clear when it has been read. -/
def Board.clockInterrupt (b : Board) : Board :=
  let b := b.outb 0x8C 0x70
  { b with cmos := { b.cmos with reg := Function.update b.cmos.reg b.cmos.index 0 } }

namespace Clock
variable {s s' : Clock} {e : ClockEvent} {es : List ClockEvent} {p q : Pid} {b : Board} {n : Nat}

/-- A port operation of the call of `p`. -/
def perform (s : Clock) (p : Pid) (op : ClockOp) (code : List ClockOp) : Clock :=
  let val := (s.task p).val
  let s' := { s with task := Function.update s.task p ⟨val, code⟩ }
  match op with
  | .select reg => { s' with i8259 := s.i8259.outb reg 0x70 }
  | .loadA | .loadB => { s with task := Function.update s.task p ⟨s.i8259.board.inbCmos, code⟩ }
  | .storeA rate => { s' with i8259 := s.i8259.outb ((val &&& 0xF0) ||| rate) 0x71, rates := rate :: s.rates }
  | .storeB => { s' with i8259 := s.i8259.outb (val ||| 0x40) 0x71 }
  | .enable => { s' with i8259 := s.i8259.enableIrq 8 }

/-- A process makes a call when its last one is over. -/
def begin (s : Clock) (p : Pid) (code : List ClockOp) : Option Clock :=
  match (s.task p).code with
  | [] => some { s with task := Function.update s.task p ⟨(s.task p).val, code⟩ }
  | _ => none

/-- One event. -/
def step (s : Clock) : ClockEvent → Option Clock
  | .opens p => s.begin p rtcInit
  | .writes p stale fq => s.begin p (rtcSetRate (rateOf fq stale))
  | .goes p =>
    match (s.task p).code with
    | [] => none
    | op :: code => some (s.perform p op code)
  | .interrupt => some { s with i8259 := { s.i8259 with board := s.i8259.board.clockInterrupt } }

end Clock

/-- The driver as a system. -/
def clockSystem : System Clock ClockEvent := ⟨Clock.step⟩

/-- Register B of the clock. -/
def Board.registerB (b : Board) : UInt8 := b.cmos.reg 0x0B

/-- The index port is as the operation expects it. -/
def ClockOp.Finds (index : UInt8) : ClockOp → Prop
  | .loadA | .storeA _ => index = 0x0A
  | .loadB | .storeB => index = 0x0B
  | _ => True

/-- An access goes to the register it is meant for. -/
def Clock.Reaches (s : Clock) : ClockEvent → Prop
  | .goes p => ∀ op ∈ (s.task p).code.head?, op.Finds s.i8259.board.cmos.index
  | _ => True

/-- A write asks for a frequency that the clock can have. -/
def ClockEvent.AsksPower : ClockEvent → Prop
  | .writes _ _ fq => PowerOfTwo fq
  | _ => True

instance decidablePowerOfTwo (f : Int32) : Decidable (PowerOfTwo f) :=
  decidable_of_iff (∃ k, k < 11 ∧ 1 ≤ k ∧ f.toInt = 2 ^ k)
    ⟨fun ⟨k, hlt, hpos, hf⟩ => ⟨k, hpos, Nat.le_of_lt_succ hlt, hf⟩,
      fun ⟨k, hpos, hle, hf⟩ => ⟨k, Nat.lt_succ_of_le hle, hpos, hf⟩⟩

instance ClockOp.decidableFinds (index : UInt8) : ∀ op : ClockOp, Decidable (op.Finds index)
  | .loadA | .loadB | .storeA _ | .storeB => inferInstanceAs (Decidable (index = _))
  | .select _ | .enable => isTrue trivial

instance Clock.decidableReaches (s : Clock) : ∀ e, Decidable (s.Reaches e)
  | .goes p => inferInstanceAs (Decidable (∀ op ∈ (s.task p).code.head?, _))
  | .writes _ _ _ | .opens _ | .interrupt => isTrue trivial

instance ClockEvent.decidableAsksPower : ∀ e : ClockEvent, Decidable e.AsksPower
  | .writes _ _ fq => inferInstanceAs (Decidable (PowerOfTwo fq))
  | .goes _ | .opens _ | .interrupt => isTrue trivial

namespace Clock
variable {s s' s₀ : Clock} {e : ClockEvent} {es : List ClockEvent} {p q : Pid} {b : Board} {n : Nat}

/-- The variable `val` is as the rest of the code needs it, when the upper half of register A is that of `a` and register
B is `b` but for bit 6. -/
def Fits (a b : UInt8) (val : UInt8) : List ClockOp → Prop
  | [] => True
  | .select _ :: code | .enable :: code => Fits a b val code
  | .loadA :: code => ∀ v, v &&& 0xF0 = a &&& 0xF0 → Fits a b v code
  | .loadB :: code => ∀ v, v ||| 0x40 = b ||| 0x40 → Fits a b v code
  | .storeA rate :: code => val &&& 0xF0 = a &&& 0xF0 ∧ rate &&& 0xF0 = 0 ∧ Fits a b val code
  | .storeB :: code => val ||| 0x40 = b ||| 0x40 ∧ Fits a b val code

/-- What holds after calls that began with `a` and `b` in registers A and B. -/
structure Settled (a b : UInt8) (s : Clock) : Prop where
  upper : s.i8259.board.registerA &&& 0xF0 = a &&& 0xF0
  rate : s.i8259.board.registerA &&& 0x0F = s.rates.headD (a &&& 0x0F) &&& 0x0F
  other : s.i8259.board.registerB ||| 0x40 = b ||| 0x40
  fits : ∀ p, Fits a b (s.task p).val (s.task p).code

/-- What is stored in register A. -/
lemma stored_halves {val rate : UInt8} (hrate : rate &&& 0xF0 = 0) :
    ((val &&& 0xF0) ||| rate) &&& 0xF0 = val &&& 0xF0 ∧ ((val &&& 0xF0) ||| rate) &&& 0x0F = rate &&& 0x0F := by
  have hkeep : (0xF0 : UInt8) &&& 0xF0 = 0xF0 := rfl
  have hclear : (0xF0 : UInt8) &&& 0x0F = 0 := rfl
  rw [or_and, or_and, hrate, UInt8.and_assoc, UInt8.and_assoc, hkeep, hclear, UInt8.or_zero, UInt8.and_zero,
    UInt8.zero_or]
  exact ⟨rfl, rfl⟩

/-- One call has gone on, the others are as they were. -/
lemma fits_update {a c val : UInt8} {code : List ClockOp} (h : ∀ q, Fits a c (s.task q).val (s.task q).code)
    (hp : Fits a c val code) (q : Pid) :
    Fits a c (Function.update s.task p ⟨val, code⟩ q).val (Function.update s.task p ⟨val, code⟩ q).code := by
  by_cases hq : q = p
  · subst hq
    rwa [Function.update_self]
  · rw [Function.update_of_ne hq]
    exact h q

/-- A new call disturbs nothing. -/
lemma Settled.begin {a c : UInt8} {code : List ClockOp} (h : s.Settled a c) (hcode : ∀ val, Fits a c val code)
    (hs : s.begin p code = some s') : s'.Settled a c := by
  unfold Clock.begin at hs
  split at hs
  · cases hs
    exact ⟨h.upper, h.rate, h.other, fits_update h.fits (hcode _)⟩
  · cases hs

/-- `RTC_init` loads each register before it stores there. -/
lemma fits_rtcInit {a c val : UInt8} : Fits a c val rtcInit := fun _ hb => ⟨hb, fun _ ha => ⟨ha, rfl, trivial⟩⟩

/-- So does `RTC_write`. -/
lemma fits_rtcSetRate {a c val rate : UInt8} (hrate : rate &&& 0xF0 = 0) : Fits a c val (rtcSetRate rate) :=
  fun _ ha => ⟨ha, hrate, trivial⟩

/-- An access that reaches its register keeps everything settled. -/
lemma Settled.perform {a c : UInt8} {op : ClockOp} {code : List ClockOp} (h : s.Settled a c)
    (hcode : (s.task p).code = op :: code) (hop : op.Finds s.i8259.board.cmos.index) :
    (s.perform p op code).Settled a c := by
  have hfits := h.fits p
  rw [hcode] at hfits
  cases op with
  | select reg => exact ⟨h.upper, h.rate, h.other, fits_update h.fits hfits⟩
  | enable => exact ⟨h.upper, h.rate, h.other, fits_update h.fits hfits⟩
  | loadA =>
    refine ⟨h.upper, h.rate, h.other, fits_update h.fits (hfits _ ?_)⟩
    rw [inbCmos, show s.i8259.board.cmos.index = 0x0A from hop]
    exact h.upper
  | loadB =>
    refine ⟨h.upper, h.rate, h.other, fits_update h.fits (hfits _ ?_)⟩
    rw [inbCmos, show s.i8259.board.cmos.index = 0x0B from hop]
    exact h.other
  | storeA rate =>
    obtain ⟨hval, hrate, hrest⟩ := hfits
    obtain ⟨hupper, hlower⟩ := @stored_halves (s.task p).val rate hrate
    have hreg : (s.perform p (.storeA rate) code).i8259.board.cmos.reg =
        Function.update s.i8259.board.cmos.reg 0x0A (((s.task p).val &&& 0xF0) ||| rate) := by
      rw [← show s.i8259.board.cmos.index = 0x0A from hop]
      rfl
    refine ⟨?_, ?_, ?_, fits_update h.fits hrest⟩
    · rw [registerA, hreg, Function.update_self, hupper, hval]
    · rw [registerA, hreg, Function.update_self, hlower]
      rfl
    · rw [registerB, hreg, Function.update_of_ne (by decide)]
      exact h.other
  | storeB =>
    obtain ⟨hval, hrest⟩ := hfits
    have hreg : (s.perform p .storeB code).i8259.board.cmos.reg =
        Function.update s.i8259.board.cmos.reg 0x0B ((s.task p).val ||| 0x40) := by
      rw [← show s.i8259.board.cmos.index = 0x0B from hop]
      rfl
    refine ⟨?_, ?_, ?_, fits_update h.fits hrest⟩
    · rw [registerA, hreg, Function.update_of_ne (by decide)]
      exact h.upper
    · rw [registerA, hreg, Function.update_of_ne (by decide)]
      exact h.rate
    · rw [registerB, hreg, Function.update_self, hval, UInt8.or_assoc]
      rfl

/-- Every event keeps everything settled. -/
lemma Settled.step {a c : UInt8} (h : s.Settled a c) (he : s.Reaches e) (hfq : e.AsksPower) (hs : s.step e = some s') :
    s'.Settled a c := by
  cases e with
  | opens p => exact h.begin (fun _ => fits_rtcInit) hs
  | writes p stale fq => exact h.begin (fun _ => fits_rtcSetRate (rateOf_spec hfq).1) hs
  | goes p =>
    simp only [Clock.step] at hs
    split at hs
    · cases hs
    · next op code hcode =>
      cases hs
      refine h.perform hcode (he op ?_)
      rw [hcode]
      rfl
  | interrupt =>
    cases hs
    exact ⟨h.upper, h.rate, h.other, h.fits⟩

end Clock

/-- Calls of any processes in any interleaving, interrupted by the clock anywhere: as long as the frequencies asked for are
powers of two from 2 to 1024 and accesses reach the registers they are meant for, register A has its upper half and the
rate that was stored last, and register B changes in bit 6 only. -/
theorem settings_in_order (s₀ s : Clock) (hidle : ∀ p, (s₀.task p).code = []) (hrates : s₀.rates = [])
    (es : List ClockEvent) (hfq : ∀ e ∈ es, e.AsksPower) (hrun : clockSystem.run s₀ es = some s)
    (hreaches : clockSystem.Guarded Clock.Reaches s₀ es) :
    s.i8259.board.registerA &&& 0xF0 = s₀.i8259.board.registerA &&& 0xF0 ∧
      s.i8259.board.registerA &&& 0x0F = s.rates.headD (s₀.i8259.board.registerA &&& 0x0F) &&& 0x0F ∧
      s.i8259.board.registerB ||| 0x40 = s₀.i8259.board.registerB ||| 0x40 := by
  have hstart : s₀.Settled s₀.i8259.board.registerA s₀.i8259.board.registerB := by
    refine ⟨rfl, ?_, rfl, fun p => ?_⟩
    · rw [hrates, List.headD_nil, UInt8.and_assoc]
      rfl
    · rw [hidle]
      trivial
  obtain ⟨hupper, hrate, hother, -⟩ :=
    System.guarded_invariant (S := clockSystem) (fun _ _ _ h he hs => h.step he.1 he.2 hs) hstart
      (hreaches.and_forall hfq) hrun
  exact ⟨hupper, hrate, hother⟩

/-- A clock that ticks at 2 Hz. -/
def slowClock : Clock := ⟨⟨0, 0, ⟨⟨0, fun n => if n = 0x0A then 0x2F else 0⟩, ⟨0, 0⟩, ⟨0, 0⟩⟩⟩, fun _ => ⟨0, []⟩, []⟩

/-- A program opens the clock while another one sets it to 32 Hz. -/
def twoCalls : List ClockEvent :=
  [.opens 0, .writes 1 0 32, .goes 0, .goes 0, .goes 1, .goes 1, .goes 0, .goes 0, .interrupt, .goes 0, .goes 0,
    .goes 0, .goes 0, .interrupt, .goes 1, .goes 1, .interrupt, .goes 0]

/-- The rate that was stored last is 32 Hz. -/
theorem settings_in_order_two : ∃ s, clockSystem.run slowClock twoCalls = some s ∧ s.rates = [0x0B, 0x0F] ∧
    s.i8259.board.registerA &&& 0x0F = s.rates.headD (slowClock.i8259.board.registerA &&& 0x0F) &&& 0x0F :=
  ⟨_, rfl, rfl, (settings_in_order slowClock _ (fun _ => rfl) rfl twoCalls (by decide) rfl (by decide)).2.1⟩

namespace Clock
variable {s s' : Clock} {es : List ClockEvent} {p : Pid} {b : Board} {n : Nat}

/-- The call of `p` is about to go on with `code`. -/
def At (s : Clock) (p : Pid) (b : Board) (val : UInt8) (code : List ClockOp) : Prop :=
  s.i8259.board = b ∧ s.task p = ⟨val, code⟩

section At
variable {val reg rate : UInt8} {code : List ClockOp}

/-- Interrupts leave the call where it is. -/
lemma At.interrupts (h : s.At p b val code) (n : Nat) :
    ∃ s', (∀ es, clockSystem.run s (List.replicate n .interrupt ++ es) = clockSystem.run s' es) ∧
      s'.At p (clockInterrupt^[n] b) val code := by
  induction n generalizing s b with
  | zero => exact ⟨s, fun _ => rfl, h⟩
  | succ n ih =>
    obtain ⟨rfl, htask⟩ := h
    have hnext : At { s with i8259 := { s.i8259 with board := s.i8259.board.clockInterrupt } } p
        s.i8259.board.clockInterrupt val code := ⟨rfl, htask⟩
    obtain ⟨s', hrun, hs'⟩ := ih hnext
    exact ⟨s', fun es => hrun es, hs'⟩

/-- The call goes on with its next operation. -/
lemma At.goes {op : ClockOp} (h : s.At p b val (op :: code)) (es : List ClockEvent) :
    clockSystem.run s (.goes p :: es) = clockSystem.run (s.perform p op code) es := by
  have hstep : clockSystem.step s (.goes p) = some (s.perform p op code) := by
    change Clock.step s (.goes p) = _
    simp only [Clock.step, h.2]
  rw [System.run, hstep, Option.bind_some]

/-- A selection. -/
lemma At.select (h : s.At p b val (.select reg :: code)) :
    (s.perform p (.select reg) code).At p (b.outb reg 0x70) val code := by
  obtain ⟨rfl, htask⟩ := h
  refine ⟨rfl, ?_⟩
  change Function.update s.task p ⟨(s.task p).val, code⟩ p = _
  rw [Function.update_self, htask]

/-- A load gets what the index port points to. -/
lemma At.loadA (h : s.At p b val (.loadA :: code)) : (s.perform p .loadA code).At p b b.inbCmos code := by
  obtain ⟨rfl, htask⟩ := h
  exact ⟨rfl, Function.update_self ..⟩

/-- A store goes where the index port points to. -/
lemma At.storeA (h : s.At p b val (.storeA rate :: code)) :
    (s.perform p (.storeA rate) code).i8259.board = b.outb ((val &&& 0xF0) ||| rate) 0x71 := by
  obtain ⟨rfl, htask⟩ := h
  change s.i8259.board.outb (((s.task p).val &&& 0xF0) ||| rate) 0x71 = _
  rw [htask]

end At

/-- After interrupts register C is selected and clear, and the others are as they were. -/
lemma interrupted_cmos (n : Nat) (b : Board) : (clockInterrupt^[n + 1] b).cmos.index = 0x0C ∧
    (clockInterrupt^[n + 1] b).cmos.reg = Function.update b.cmos.reg 0x0C 0 := by
  induction n generalizing b with
  | zero => exact ⟨rfl, rfl⟩
  | succ n ih =>
    obtain ⟨hindex, hreg⟩ := ih b.clockInterrupt
    exact ⟨hindex, hreg.trans (Function.update_idem ..)⟩

/-- Interrupts do not touch register A. -/
lemma interrupted_registerA (n : Nat) (b : Board) : (clockInterrupt^[n] b).registerA = b.registerA := by
  cases n with
  | zero => rfl
  | succ n => rw [registerA, (interrupted_cmos n b).2, Function.update_of_ne (by decide), registerA]

/-- What `RTC_write` finds on the data port after the first selection and `n` interrupts. -/
lemma inb_interrupted (n : Nat) (b : Board) (h : b.cmos.index = 0x0A) :
    (clockInterrupt^[n] b).inbCmos = if n = 0 then b.registerA else 0 := by
  cases n with
  | zero => rw [if_pos rfl, registerA, ← h]; rfl
  | succ n =>
    obtain ⟨hindex, hreg⟩ := interrupted_cmos n b
    rw [if_neg n.succ_ne_zero, inbCmos, hindex, hreg, Function.update_self]

/-- Where the byte goes that `RTC_write` sends after the second selection and `n` interrupts. -/
lemma outb_interrupted (n : Nat) (b : Board) (h : b.cmos.index = 0x0A) (data : UInt8) :
    ((clockInterrupt^[n] b).outb data 0x71).registerA = if n = 0 then data else b.registerA := by
  cases n with
  | zero =>
    change Function.update b.cmos.reg b.cmos.index data 0x0A = _
    rw [if_pos rfl, h, Function.update_self]
  | succ n =>
    obtain ⟨hindex, hreg⟩ := interrupted_cmos n b
    change Function.update (clockInterrupt^[n + 1] b).cmos.reg (clockInterrupt^[n + 1] b).cmos.index data 0x0A = _
    rw [if_neg n.succ_ne_zero, hindex, hreg, Function.update_of_ne (by decide), Function.update_of_ne (by decide),
      registerA]

end Clock

/-- `RTC_write`, with clock interrupts before each of its port operations. -/
def writeInterrupted (p : Pid) (stale : UInt8) (fq : Int32) (n₀ n₁ n₂ n₃ : Nat) : List ClockEvent :=
  .writes p stale fq :: (List.replicate n₀ .interrupt ++ .goes p :: (List.replicate n₁ .interrupt ++ .goes p ::
    (List.replicate n₂ .interrupt ++ .goes p :: (List.replicate n₃ .interrupt ++ [.goes p]))))

/-- What `RTC_write` leaves in register A. -/
lemma write_interrupted (s : Clock) (p : Pid) (hidle : (s.task p).code = []) (stale : UInt8) (fq : Int32)
    (n₀ n₁ n₂ n₃ : Nat) :
    ∃ s', clockSystem.run s (writeInterrupted p stale fq n₀ n₁ n₂ n₃) = some s' ∧
      s'.i8259.board.registerA = if n₃ = 0 then
        ((if n₁ = 0 then s.i8259.board.registerA else 0) &&& 0xF0) ||| rateOf fq stale
      else s.i8259.board.registerA := by
  have hbegin : clockSystem.step s (.writes p stale fq) =
      some { s with task := Function.update s.task p ⟨(s.task p).val, rtcSetRate (rateOf fq stale)⟩ } := by
    change s.begin p _ = _
    unfold Clock.begin
    rw [hidle]
  have h0 : Clock.At { s with task := Function.update s.task p ⟨(s.task p).val, rtcSetRate (rateOf fq stale)⟩ } p
      s.i8259.board (s.task p).val (rtcSetRate (rateOf fq stale)) := ⟨rfl, Function.update_self ..⟩
  obtain ⟨s1, hrun1, h1⟩ := h0.interrupts n₀
  obtain ⟨s2, hrun2, h2⟩ := h1.select.interrupts n₁
  obtain ⟨s3, hrun3, h3⟩ := h2.loadA.interrupts n₂
  obtain ⟨s4, hrun4, h4⟩ := h3.select.interrupts n₃
  refine ⟨s4.perform p (.storeA (rateOf fq stale)) [], ?_, ?_⟩
  · rw [writeInterrupted, System.run, hbegin, Option.bind_some, hrun1, h1.goes, hrun2, h2.goes, hrun3, h3.goes, hrun4,
      h4.goes]
    rfl
  · rw [h4.storeA, Clock.outb_interrupted n₃ _ rfl, Clock.inb_interrupted n₁ _ rfl]
    have hA : ∀ b : Board, (b.outb 0x8A 0x70).registerA = b.registerA := fun _ => rfl
    simp only [hA, Clock.interrupted_registerA]

/-- A new rate for a power of two arrives in register A, and the rest of the register stays, if and only if no interrupt of
the clock comes between a selection and the access that follows it. The upper half is taken to be other than zero, as it is
when the clock runs: a lost one would not show otherwise. -/
theorem rate_arrives_iff (s : Clock) (p : Pid) (hidle : (s.task p).code = []) (stale : UInt8) (fq : Int32)
    (hfq : PowerOfTwo fq) (hdivider : s.i8259.board.registerA &&& 0xF0 ≠ 0)
    (hnew : s.i8259.board.registerA &&& 0x0F ≠ rateOf fq stale &&& 0x0F) (n₀ n₁ n₂ n₃ : Nat) :
    ∃ s', clockSystem.run s (writeInterrupted p stale fq n₀ n₁ n₂ n₃) = some s' ∧
      (s'.i8259.board.registerA = (s.i8259.board.setRate (rateOf fq stale)).registerA ↔ n₁ = 0 ∧ n₃ = 0) := by
  obtain ⟨s', hrun, hA⟩ := write_interrupted s p hidle stale fq n₀ n₁ n₂ n₃
  have hrate := (@rateOf_spec fq stale hfq).1
  obtain ⟨hupper, hlower⟩ := @Clock.stored_halves s.i8259.board.registerA _ hrate
  refine ⟨s', hrun, ?_⟩
  rw [hA, setRate_registerA]
  constructor
  · intro heq
    have hthree : n₃ = 0 := by
      by_contra hne
      rw [if_neg hne] at heq
      rw [heq, hlower] at hnew
      exact hnew rfl
    refine ⟨?_, hthree⟩
    by_contra hne
    rw [if_pos hthree, if_neg hne] at heq
    have hzero := congrArg (· &&& 0xF0) heq
    simp only [hupper, (@Clock.stored_halves 0 _ hrate).1] at hzero
    exact hdivider hzero.symm
  · rintro ⟨rfl, rfl⟩
    rw [if_pos rfl, if_pos rfl]

/-- An interrupt before the last port operation: the clock goes on at 2 Hz. -/
theorem rate_arrives_iff_lost : ∃ s', clockSystem.run slowClock (writeInterrupted 0 0 32 0 0 0 1) = some s' ∧
    s'.i8259.board.registerA ≠ (slowClock.i8259.board.setRate (rateOf 32 0)).registerA := by
  obtain ⟨s', hrun, hiff⟩ := rate_arrives_iff slowClock 0 rfl 0 32 (by decide) (by decide) (by decide) 0 0 0 1
  exact ⟨s', hrun, fun h => absurd (hiff.mp h).2 Nat.one_ne_zero⟩

end Boss
