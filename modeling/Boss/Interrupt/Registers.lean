import Boss.Process.Kernel
import Mathlib.Data.List.Induction

/-!
# Registers across interrupts

The gates of the timer, the keyboard and the RTC lead straight into C functions that end in `leave; iret`.
Such a function pushes `ebp` and `leave` pops it; every other register is left as the function used it. The
handlers of the keyboard and the RTC end with the port operation that tells the PIC that the interrupt is over, and
so with its operands in `eax` and `edx`. The handler of the timer calls `sched` after it, which computes in `eax`, `ecx`
and `edx` as every C function may, and saves the stack of a process and not its registers. So a process that comes back
after a tick has in these three what `sched` left there, and in the others what the program had that ran last.

`registers_survive_iff` says what follows for an interrupted program: `ebp` is always restored, and the other
registers are what they were only by accident.

Registers that a C compiler may use in between are not modelled for the other two handlers; only what the inline assembly
fixes is.
-/

namespace Boss
open Lib

/-- The general registers but the stack pointer. -/
@[ext] structure Registers where
  eax : UInt32
  ecx : UInt32
  edx : UInt32
  ebx : UInt32
  esi : UInt32
  edi : UInt32
  ebp : UInt32
  deriving DecidableEq

/-- `inb` and `outb`. -/
inductive PortOp
  | outb (data port : UInt32)
  | inb (val : UInt8) (port : UInt32)

/-- The operands of a port operation, in `eax` and `edx`. -/
def PortOp.load (r : Registers) : PortOp → Registers
  | .outb data port => { r with eax := data, edx := port }
  | .inb val port => { r with eax := val.toUInt32, edx := port }

/-- `send_eoi`. -/
def sendEoi (irqNum : UInt32) : List PortOp :=
  if 8 ≤ irqNum then [.outb (0x60 ||| 2) 0x20, .outb (0x60 ||| (irqNum - 8)) 0xA0]
  else [.outb (0x60 ||| irqNum) 0x20]

/-- The port operations of `move_csr`, for the position `temp`. -/
def moveCsrPorts (temp : UInt32) : List PortOp :=
  [.outb 14 0x3D4, .outb (temp >>> 8) 0x3D5, .outb 15 0x3D4, .outb temp 0x3D5]

/-- The port operations of `key_irq_handler` on a path that moves the cursor to the positions `cursor`. -/
def keyIrqHandler (byte : UInt8) (cursor : List UInt32) : List PortOp :=
  .inb byte 0x60 :: (cursor.flatMap moveCsrPorts ++ sendEoi 1)

/-- The port operations of `rtc_irq_handler`. -/
def rtcIrqHandler (val : UInt8) : List PortOp := [.outb 0x8C 0x70, .inb val 0x71] ++ sendEoi 8

/-- The registers that a C function need not keep. -/
structure Scratch where
  eax : UInt32
  ecx : UInt32
  edx : UInt32
  deriving DecidableEq

/-- The processor, and what the handlers keep on the stacks of the processes. -/
structure Machine where
  regs : Registers
  running : Pid
  active : Pid → Bool
  /-- The `ebp` that the handler on the stack of a process has pushed. -/
  frame : Pid → UInt32

namespace Machine

/-- The first instruction of a handler, `pushl %ebp`. -/
def enter (m : Machine) : Machine := { m with frame := Function.update m.frame m.running m.regs.ebp }

/-- Port operations. -/
def ports (m : Machine) (ops : List PortOp) : Machine := { m with regs := ops.foldl PortOp.load m.regs }

/-- `sched` once the shells are started: the next active process has the processor, and the registers have what the
function left in them. -/
def sched (m : Machine) (left : Scratch) : Option Machine :=
  let active := Function.update m.active m.running true
  (Kernel.getNextProc active 6 m.running).map fun next =>
    { m with active, running := next, regs := { m.regs with eax := left.eax, ecx := left.ecx, edx := left.edx } }

/-- The last instructions of a handler, `leave; iret`. -/
def leaveIret (m : Machine) : Machine := { m with regs := { m.regs with ebp := m.frame m.running } }

end Machine

/-- An interrupt, or work of other programs: they set the registers as they like, and what they do may start and stop
processes and hand the processor on among them. A tick comes with what `sched` leaves in the registers; as long as not all
shells are started it ends in a new one. -/
inductive Interruption
  | key (byte : UInt8) (cursor : List UInt32)
  | rtc (val : UInt8)
  | tick (left : Scratch)
  | startShell (shell : Pid) (r : Registers)
  | work (r : Registers) (active : Pid → Bool) (running : Pid)

/-- What happens to the machine while the program `p` is interrupted. -/
def Machine.step (p : Pid) (m : Machine) : Interruption → Option Machine
  | .key byte cursor => some (m.enter.ports (keyIrqHandler byte cursor)).leaveIret
  | .rtc val => some (m.enter.ports (rtcIrqHandler val)).leaveIret
  -- `pit_irq_handler`
  | .tick left => ((m.enter.ports (sendEoi 0)).sched left).map Machine.leaveIret
  -- `sched` calls `execute`, which enters the shell with registers of its own
  | .startShell shell r =>
    if shell = p then none
    else
      let active := Function.update (Function.update m.active m.running true) shell true
      some { m.enter with regs := r, running := shell, active }
  | .work r active running =>
    if m.running = p ∨ running = p then none else some { m with regs := r, active, running }

/-- The machine with the program `p` interrupted. -/
def interruptSystem (p : Pid) : System Machine Interruption := ⟨Machine.step p⟩

/-- What an interruption leaves in the registers, apart from `ebp`: the operands of the last port operation, what `sched`
computed, or what the other program had. -/
def Interruption.leaves (r : Registers) : Interruption → Registers
  | .key _ _ => { r with eax := 0x61, edx := 0x20 }
  | .rtc _ => { r with eax := 0x60, edx := 0xA0 }
  | .tick left => { r with eax := left.eax, ecx := left.ecx, edx := left.edx }
  | .startShell _ w | .work w _ _ => w

/-- What an interrupt leaves in `eax` and `edx` of the program it goes back to. -/
def Interruption.last : Interruption → Option (UInt32 × UInt32)
  | .key _ _ => some (0x61, 0x20)
  | .rtc _ => some (0x60, 0xA0)
  | .tick left => some (left.eax, left.edx)
  | .startShell _ _ | .work _ _ _ => none

/-- The registers with which another program last worked. -/
def lastWork (is : List Interruption) : Option Registers :=
  is.foldl (fun w i => match i with | .work r _ _ | .startShell _ r => some r | _ => w) none

/-- The `ecx` that another program or `sched` left last. -/
def lastEcx (is : List Interruption) : Option UInt32 :=
  is.foldl (fun w i => match i with
    | .work r _ _ | .startShell _ r => some r.ecx
    | .tick left => some left.ecx
    | _ => w) none

/-- The registers that no handler uses. -/
def Registers.SameRest (r r' : Registers) : Prop := r.ebx = r'.ebx ∧ r.esi = r'.esi ∧ r.edi = r'.edi

variable {p : Pid} {m m' : Machine} {i : Interruption} {is : List Interruption} {r : Registers}

/-- Port operations change `eax` and `edx`, to the operands of the last one. -/
lemma foldl_load (ops : List PortOp) (data port : UInt32) (r : Registers) :
    (ops ++ [PortOp.outb data port]).foldl PortOp.load r = { r with eax := data, edx := port } := by
  induction ops generalizing r with
  | nil => rfl
  | cons op ops ih =>
    refine (ih (op.load r)).trans ?_
    cases op <;> rfl

/-- What one interruption does. -/
structure Interrupted (p : Pid) (m m' : Machine) (i : Interruption) : Prop where
  regs : m'.regs = { i.leaves m.regs with ebp := m'.regs.ebp }
  ebp : m'.running = p → m'.regs.ebp = m'.frame p
  frame : m'.frame p = if m.running = p then m.regs.ebp else m.frame p
  back : m'.running = p → ∃ eoi, i.last = some eoi

/-- The `ebp` on the stack of `p` after the first instruction of a handler. -/
lemma Machine.enter_frame : m.enter.frame p = if m.running = p then m.regs.ebp else m.frame p := by
  simp only [enter, Function.update_apply, eq_comm]

/-- A handler ends with the operands of its last port operation in `eax` and `edx`. -/
lemma ports_interrupted {ops : List PortOp} {data port : UInt32}
    (hregs : i.leaves m.regs = { m.regs with eax := data, edx := port }) (hlast : i.last = some (data, port))
    (hops : ∃ ops', ops = ops' ++ [.outb data port]) : Interrupted p m (m.enter.ports ops).leaveIret i := by
  obtain ⟨ops', rfl⟩ := hops
  have hload := foldl_load ops' data port m.regs
  refine ⟨?_, ?_, Machine.enter_frame, fun _ => ⟨_, hlast⟩⟩
  · simp only [Machine.leaveIret, Machine.ports, Machine.enter, hload, hregs]
  · rintro rfl
    rfl

/-- What each interruption does. -/
lemma step_interrupted (hstep : m.step p i = some m') : Interrupted p m m' i := by
  cases i with
  | key byte cursor =>
    cases hstep
    exact ports_interrupted rfl rfl ⟨.inb byte 0x60 :: cursor.flatMap moveCsrPorts, rfl⟩
  | rtc val =>
    cases hstep
    exact ports_interrupted rfl rfl ⟨[.outb 0x8C 0x70, .inb val 0x71, .outb (0x60 ||| 2) 0x20], rfl⟩
  | tick left =>
    simp only [Machine.step, Machine.sched, Option.map_map, Option.map_eq_some_iff] at hstep
    obtain ⟨next, -, rfl⟩ := hstep
    refine ⟨rfl, ?_, Machine.enter_frame, fun _ => ⟨_, rfl⟩⟩
    rintro rfl
    rfl
  | startShell shell w =>
    simp only [Machine.step, Option.ite_none_left_eq_some] at hstep
    obtain ⟨hne, hm⟩ := hstep
    cases hm
    exact ⟨rfl, fun h => absurd h hne, Machine.enter_frame, fun h => absurd h hne⟩
  | work w active running =>
    simp only [Machine.step, Option.ite_none_left_eq_some, not_or] at hstep
    obtain ⟨⟨hne, hne'⟩, hm⟩ := hstep
    cases hm
    exact ⟨rfl, fun h => absurd h hne', (if_neg hne).symm, fun h => absurd h hne'⟩

/-- What is known about the machine after some interruptions that began with the registers `r`. -/
structure Traced (p : Pid) (r : Registers) (is : List Interruption) (m : Machine) : Prop where
  regs : m.regs = { is.foldl Interruption.leaves r with ebp := m.regs.ebp }
  here : m.running = p → m.regs.ebp = r.ebp
  away : m.running ≠ p → m.frame p = r.ebp

/-- One more interruption. -/
lemma Traced.step (h : Traced p r is m) (hstep : m.step p i = some m') : Traced p r (is ++ [i]) m' := by
  obtain ⟨hregs, hebp, hframe, -⟩ := step_interrupted hstep
  have hp : m'.frame p = r.ebp := by
    rw [hframe]
    split
    · next hrun => exact h.here hrun
    · next hrun => exact h.away hrun
  refine ⟨?_, fun hrun => (hebp hrun).trans hp, fun _ => hp⟩
  rw [List.foldl_append, hregs, h.regs]
  cases i <;> rfl

/-- Any number of interruptions. -/
lemma traced_of_run (hm : m.running = p) (hrun : (interruptSystem p).run m is = some m') :
    Traced p m.regs is m' := by
  induction is using List.reverseRecOn generalizing m' with
  | nil =>
    cases hrun
    exact ⟨rfl, fun _ => rfl, fun hc => absurd hm hc⟩
  | append_singleton is i ih =>
    rw [System.run_append, Option.bind_eq_some_iff] at hrun
    obtain ⟨m1, hm1, hstep⟩ := hrun
    obtain ⟨m2, hm2, hend⟩ := System.run_cons.mp hstep
    cases hend
    exact (ih hm1).step hm2

/-- `ecx` is what was last left there. -/
lemma foldl_leaves_ecx : (is.foldl Interruption.leaves r).ecx = (lastEcx is).getD r.ecx := by
  induction is using List.reverseRecOn with
  | nil => rfl
  | append_singleton is i ih =>
    simp only [lastEcx, List.foldl_append, List.foldl_cons, List.foldl_nil] at ih ⊢
    cases i with
    | key | rtc => exact ih
    | tick | startShell | work => rfl

/-- The registers that no handler uses are those of the program that ran last. -/
lemma foldl_leaves_rest : (is.foldl Interruption.leaves r).SameRest ((lastWork is).getD r) := by
  induction is using List.reverseRecOn with
  | nil => exact ⟨rfl, rfl, rfl⟩
  | append_singleton is i ih =>
    simp only [lastWork, List.foldl_append, List.foldl_cons, List.foldl_nil] at ih ⊢
    cases i with
    | key | rtc | tick => exact ih
    | startShell | work => exact ⟨rfl, rfl, rfl⟩

/-- `ecx` survives exactly if it held what was last left there. -/
lemma ecx_survives_iff : (is.foldl Interruption.leaves r).ecx = r.ecx ↔ ∀ c, lastEcx is = some c → r.ecx = c := by
  rw [foldl_leaves_ecx]
  cases lastEcx is with
  | none => exact iff_of_true rfl nofun
  | some c => exact ⟨fun h _ hc => by cases hc; exact h.symm, fun h => (h c rfl).symm⟩

/-- The registers that no handler uses survive exactly if they held what the program had in them that ran last. -/
lemma rest_survives_iff :
    (is.foldl Interruption.leaves r).SameRest r ↔ ∀ w, lastWork is = some w → r.SameRest w := by
  have hrest := @foldl_leaves_rest is r
  cases hw : lastWork is with
  | none =>
    rw [hw] at hrest
    exact iff_of_true hrest nofun
  | some w =>
    rw [hw] at hrest
    obtain ⟨hbx, hsi, hdi⟩ := hrest
    constructor
    · rintro ⟨hbx', hsi', hdi'⟩ w' hw'
      cases hw'
      exact ⟨hbx'.symm.trans hbx, hsi'.symm.trans hsi, hdi'.symm.trans hdi⟩
    · intro h
      obtain ⟨hbx', hsi', hdi'⟩ := h w rfl
      exact ⟨hbx.trans hbx'.symm, hsi.trans hsi'.symm, hdi.trans hdi'.symm⟩

/-- After an interrupt that goes back to a program, `eax` and `edx` are what it left. -/
lemma leaves_last {eoi : UInt32 × UInt32} (h : i.last = some eoi) : (i.leaves r).eax = eoi.1 ∧ (i.leaves r).edx = eoi.2 := by
  cases i with
  | key | rtc | tick =>
    cases h
    exact ⟨rfl, rfl⟩
  | startShell | work => cases h

/-- When an interrupted program goes on, it has its `ebp`; and it has its other registers exactly when it was
not interrupted, or they happened to hold what the last handler, `sched` and the last other program leave in them. -/
theorem registers_survive_iff (p : Pid) (m m' : Machine) (is : List Interruption) (hm : m.running = p)
    (hrun : (interruptSystem p).run m is = some m') (hm' : m'.running = p) :
    m'.regs.ebp = m.regs.ebp ∧
      (m'.regs = m.regs ↔ is = [] ∨
        (∃ i, is.getLast? = some i ∧ i.last = some (m.regs.eax, m.regs.edx)) ∧
          (∀ c, lastEcx is = some c → m.regs.ecx = c) ∧ ∀ w, lastWork is = some w → m.regs.SameRest w) := by
  have h := traced_of_run hm hrun
  have hebp := h.here hm'
  refine ⟨hebp, ?_⟩
  cases is using List.reverseRecOn with
  | nil =>
    cases hrun
    exact iff_of_true rfl (Or.inl rfl)
  | append_singleton is i =>
    -- the last interruption has gone back to `p`
    obtain ⟨m1, -, hlast⟩ := Option.bind_eq_some_iff.mp ((System.run_append ..).symm.trans hrun)
    obtain ⟨m2, hstep, hend⟩ := System.run_cons.mp hlast
    cases hend
    obtain ⟨⟨ax, dx⟩, heoi⟩ := (step_interrupted hstep).back hm'
    have hregs := h.regs
    have hax : m'.regs.eax = ax ∧ m'.regs.edx = dx := by
      rw [hregs, List.foldl_append]
      exact leaves_last heoi
    have hcx : m'.regs.ecx = m.regs.ecx ↔ ∀ c, lastEcx (is ++ [i]) = some c → m.regs.ecx = c := by
      rw [hregs]
      exact ecx_survives_iff
    have hrest : m'.regs.SameRest m.regs ↔ ∀ w, lastWork (is ++ [i]) = some w → m.regs.SameRest w := by
      rw [hregs]
      exact rest_survives_iff
    rw [or_iff_right (List.append_ne_nil_of_right_ne_nil _ (List.cons_ne_nil _ _)), List.getLast?_concat,
      ← hcx, ← hrest]
    constructor
    · intro hsame
      rw [hsame] at hax ⊢
      exact ⟨⟨i, rfl, by rw [heoi, hax.1, hax.2]⟩, rfl, rfl, rfl, rfl⟩
    · rintro ⟨⟨j, hj, hjeoi⟩, hecx, hbx, hsi, hdi⟩
      cases hj
      rw [heoi] at hjeoi
      cases hjeoi
      exact Registers.ext hax.1 hecx hax.2 hbx hsi hdi hebp

/-- A program that happens to have in its registers what the handlers leave there. -/
def lucky : Machine := ⟨⟨0x61, 1, 0x20, 2, 3, 4, 5⟩, 0, fun p => p == 0 || p == 1, fun _ => 0⟩

/-- Two ticks with another program in between that leaves the other registers alone, and a key press. -/
theorem registers_survive_iff_lucky : ∃ m', (interruptSystem 0).run lucky
    [.tick ⟨6, 7, 8⟩, .work ⟨9, 9, 9, 2, 3, 4, 9⟩ lucky.active 1, .tick ⟨6, 1, 8⟩, .key 0x2A []] = some m' ∧
    m'.regs = lucky.regs := by
  refine ⟨_, rfl, ?_⟩
  refine (registers_survive_iff 0 lucky _ [.tick ⟨6, 7, 8⟩, .work ⟨9, 9, 9, 2, 3, 4, 9⟩ lucky.active 1,
    .tick ⟨6, 1, 8⟩, .key 0x2A []] rfl rfl rfl).2.mpr (Or.inr ⟨⟨.key 0x2A [], rfl, rfl⟩, fun c hc => ?_, fun w hw => ?_⟩)
  · cases hc
    rfl
  · cases hw
    exact ⟨rfl, rfl, rfl⟩

/-- A program at work. -/
def working : Machine := ⟨⟨7, 1, 8, 2, 3, 4, 5⟩, 0, fun p => p == 0, fun _ => 0⟩

/-- A key press (left shift) changes the `eax` of the program it interrupts. -/
theorem key_press_changes_registers : ∃ m', (interruptSystem 0).run working [.key 0x2A []] = some m' ∧
    m'.running = working.running ∧ m'.regs.eax = 0x61 ∧ m'.regs.eax ≠ working.regs.eax :=
  ⟨_, rfl, rfl, rfl, by decide⟩

end Boss
