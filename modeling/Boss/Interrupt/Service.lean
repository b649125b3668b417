import Boss.Interrupt.Registers
import Boss.Process.Fairness
import Mathlib.Algebra.BigOperators.Group.Finset.Basic
import Mathlib.Algebra.Order.BigOperators.Group.Finset

/-!
# Interrupts in service

An interrupt is in service from the moment the processor takes it until its handler has sent the end of interrupt, and
as long as it is, the controllers hold back the lines of the same and of lower priority. The three handlers differ in
when they send it and in whether they let other interrupts in before:

* `rtc_irq_handler` sends it last, with interrupts off;
* `pit_irq_handler` sends it first and then calls `sched`, which comes back with interrupts on, perhaps much later, when
  the process has its next turn;
* `key_irq_handler` sends it last, and when a terminal switch was asked for, `switch_terminals` has turned interrupts on
  before that. A tick that comes in between puts the handler aside together with the process it has interrupted.

The machine of this module takes these handlers apart into what they do to the controllers and to the interrupt flag, on
top of the processes of `procSystem`. Requests of the devices, interrupts, instructions of handlers and system calls
come in any order.

* `owed_eq_inService`: a line is in service exactly as long as one handler, on the stack of one process, still has to
  send the end of interrupt, so no handler is entered a second time before that.
* `enabled_lines`: while interrupts are on, no line is in service but that of the keyboard. So a tick is never held
  back, and everything else only by a terminal switch that was put aside.
* `keyboard_returns`: that lasts for five ticks at most, if the handlers of the ticks are not interrupted themselves.
-/

namespace Boss
open Lib Lib.Rotation

/-! ### The controllers -/

/-- The devices that interrupt. -/
inductive Device
  | timer
  | keyboard
  | clock
  deriving DecidableEq

/-- The line of a device: those from 8 on belong to the second chip, which hangs on line 2 of the first one. -/
def Device.irq : Device → Fin 16
  | timer => 0
  | keyboard => 1
  | clock => 8

/-- The lines that are in service together with that of the device. -/
def Device.levels (d : Device) : List (Fin 16) := if d.irq < 8 then [d.irq] else [2, d.irq]

/-- The lines of the same or of a higher priority, on each chip that the request passes through. -/
def Device.rivals (d : Device) : List (Fin 16) :=
  (List.finRange 16).filter fun n => if d.irq < 8 then n ≤ d.irq else n ≤ 2 ∨ (8 ≤ n ∧ n ≤ d.irq)

/-- The two 8259A chips: the requests, and the lines in service. -/
structure Pics where
  irr : Device → Bool
  isr : Fin 16 → Bool

namespace Pics

/-- A device asks for an interrupt. -/
def raise (c : Pics) (d : Device) : Pics := { c with irr := Function.update c.irr d true }

/-- A request that no line in service holds back. -/
def ready (c : Pics) (d : Device) : Bool := c.irr d && d.rivals.all fun n => !c.isr n

/-- The request that the chips present to the processor, that of the highest priority. -/
def presents (c : Pics) : Option Device := [.timer, .keyboard, .clock].find? c.ready

/-- The processor takes the interrupt. -/
def acknowledge (c : Pics) (d : Device) : Pics where
  irr := Function.update c.irr d false
  isr n := c.isr n || decide (n ∈ d.levels)

end Pics

/-- The line whose service ends with a byte on a port: `0x60` with a number is a specific end of interrupt. -/
def eoiLine (data port : UInt32) : Option (Fin 16) :=
  if data &&& 0xF8 = 0x60 then
    if port = 0x20 then some (Fin.ofNat 16 (data &&& 7).toNat)
    else if port = 0xA0 then some (Fin.ofNat 16 (8 + (data &&& 7).toNat))
    else none
  else none

/-! ### The handlers -/

/-- What the handlers do. -/
inductive HandlerOp
  | port (op : PortOp)
  | cli
  | sti
  /-- `sched` between its `cli` and its `sti`. -/
  | sched
  /-- `switch_terminals` between its `cli` and the `move_csr` before its `sti`. -/
  | switchTerminals (term : UInt8)
  | iret

namespace HandlerOp

/-- The line whose service it ends. -/
def eoi : HandlerOp → Option (Fin 16)
  | .port (.outb data addr) => eoiLine data addr
  | _ => none

/-- What it does to the interrupt flag. -/
def setFlag (flag : Bool) : HandlerOp → Bool
  | cli => false
  | sti => true
  | _ => flag

/-- What it does to the lines in service. -/
def setService (c : Pics) (op : HandlerOp) : Pics :=
  match op.eoi with
  | some n => { c with isr := Function.update c.isr n false }
  | none => c

/-- It concerns the processor and the controllers only. -/
def isLocal : HandlerOp → Bool
  | port _ | cli | sti => true
  | _ => false

end HandlerOp

/-- What a handler finds: the byte of the keyboard, the positions to which the cursor moves because of it and the
terminal that it asks for; register C of the clock. -/
structure Found where
  byte : UInt8
  cursor : List UInt32
  term : Option UInt8
  registerC : UInt8

/-- The code of `pit_irq_handler`. -/
def pitCode : List HandlerOp := (sendEoi 0).map .port ++ [.cli, .sched, .sti, .iret]

/-- The code of `key_irq_handler`. -/
def keyCode (found : Found) : List HandlerOp :=
  let moves := (found.cursor.flatMap moveCsrPorts).map .port
  let work := match found.term with
    | some term => .cli :: .switchTerminals term :: (moves ++ [.sti])
    | none => moves
  .port (.inb found.byte 0x60) :: (work ++ ((sendEoi 1).map .port ++ [.iret]))

/-- The code of `rtc_irq_handler`. -/
def rtcCode (found : Found) : List HandlerOp := (rtcIrqHandler found.registerC).map .port ++ [.iret]

/-- The handler of a device. -/
def Device.code (found : Found) : Device → List HandlerOp
  | timer => pitCode
  | keyboard => keyCode found
  | clock => rtcCode found

/-! ### The machine -/

/-- A handler on a kernel stack: the interrupt flag that it has pushed, and what is left of its code. -/
structure Frame where
  saved : Bool
  code : List HandlerOp

/-- The processes with the handlers on their kernel stacks, the innermost one first. -/
structure Service where
  kernel : Kernel
  pics : Pics
  flag : Bool
  frames : Pid → List Frame

/-- What happens. -/
inductive Happening
  /-- A device requests an interrupt. -/
  | raise (d : Device)
  /-- The processor takes the interrupt that is presented. -/
  | interrupt (found : Found)
  /-- The innermost handler of the running process goes on. -/
  | proceed
  /-- A system call of the running program, or the part of a handler that has to do with the processes. -/
  | input (i : Input)
  /-- `cli` or `sti` in a system call. -/
  | setFlag (flag : Bool)

namespace Service
variable {env : Env} {m m' m1 : Service} {e : Happening} {es : List Happening} {n : Fin 16} {p w : Pid}

/-- The handlers of the running process. -/
def current (m : Service) : List Frame := m.frames m.kernel.running

/-- The handlers of all processes, after a change of those of the running one. -/
def put (m : Service) (l : List Frame) : Pid → List Frame := Function.update m.frames m.kernel.running l

/-- A step of the processes. An interrupt gate has turned interrupts off for a handler, and a program has them on when
its system call is over. -/
def step (env : Env) (m : Service) : Happening → Option Service
  | .raise d => some { m with pics := m.pics.raise d }
  | .interrupt found =>
    if m.flag then
      m.pics.presents.map fun d =>
        { m with pics := m.pics.acknowledge d, flag := false, frames := m.put (⟨m.flag, d.code found⟩ :: m.current) }
    else none
  | .proceed =>
    match m.current with
    | ⟨saved, [.iret]⟩ :: rest => some { m with flag := saved, frames := m.put rest }
    | ⟨saved, op :: code⟩ :: rest =>
      if op.isLocal then
        some { m with pics := op.setService m.pics, flag := op.setFlag m.flag, frames := m.put (⟨saved, code⟩ :: rest) }
      else none
    | _ => none
  | .input i =>
    match m.current, i with
    | ⟨saved, .sched :: code⟩ :: rest, .tick e =>
      (m.kernel.step env (.tick e)).map fun k => { m with kernel := k, frames := m.put (⟨saved, code⟩ :: rest) }
    | ⟨saved, .switchTerminals term :: code⟩ :: rest, .switchTerminals term' =>
      if term = term' then
        (m.kernel.step env (.switchTerminals term)).map fun k =>
          { m with kernel := k, frames := m.put (⟨saved, code⟩ :: rest) }
      else none
    | [], .execute e command =>
      (m.kernel.step env (.execute e command)).map fun k => { m with kernel := k, flag := true }
    | [], .halt e status => (m.kernel.step env (.halt e status)).map fun k => { m with kernel := k, flag := true }
    | [], .vidmap e start => (m.kernel.step env (.vidmap e start)).map fun k => { m with kernel := k, flag := true }
    | _, _ => none
  | .setFlag flag =>
    match m.current with
    | [] => some { m with flag }
    | _ => none

/-- Three root shells: one has the processor, and a tick has interrupted the two others. -/
def start (k : Kernel) : Service where
  kernel := k
  pics := ⟨fun _ => false, fun _ => false⟩
  flag := true
  frames p := if k.active p && p ≠ k.running then [⟨true, [.sti, .iret]⟩] else []

end Service

/-- The machine as a system. -/
def serviceSystem (env : Env) : System Service Happening := ⟨Service.step env⟩

namespace Service
variable {env : Env} {m m' m1 : Service} {e : Happening} {es : List Happening} {n : Fin 16} {p w : Pid}

/-- A system call that is a step of the processes. -/
def IsCall : Input → Prop
  | .execute .. | .halt .. | .vidmap .. => True
  | _ => False

/-- The ways in which the machine can go on. -/
inductive Way (env : Env) (m : Service) : Happening → Service → Prop
  | raise (d : Device) : Way env m (.raise d) { m with pics := m.pics.raise d }
  | interrupt {d : Device} (found : Found) (hflag : m.flag = true) (hd : m.pics.presents = some d) :
      Way env m (.interrupt found)
        { m with pics := m.pics.acknowledge d, flag := false, frames := m.put (⟨true, d.code found⟩ :: m.current) }
  | proceed {saved : Bool} {op : HandlerOp} {code : List HandlerOp} {rest : List Frame} (hop : op.isLocal = true)
      (hcur : m.current = ⟨saved, op :: code⟩ :: rest) :
      Way env m .proceed
        { m with pics := op.setService m.pics, flag := op.setFlag m.flag, frames := m.put (⟨saved, code⟩ :: rest) }
  | iret {saved : Bool} {rest : List Frame} (hcur : m.current = ⟨saved, [.iret]⟩ :: rest) :
      Way env m .proceed { m with flag := saved, frames := m.put rest }
  | sched {saved : Bool} {code : List HandlerOp} {rest : List Frame} {e : Entry} {k : Kernel}
      (hcur : m.current = ⟨saved, .sched :: code⟩ :: rest) (hk : m.kernel.step env (.tick e) = some k) :
      Way env m (.input (.tick e)) { m with kernel := k, frames := m.put (⟨saved, code⟩ :: rest) }
  | switch {saved : Bool} {code : List HandlerOp} {rest : List Frame} {term : UInt8} {k : Kernel}
      (hcur : m.current = ⟨saved, .switchTerminals term :: code⟩ :: rest)
      (hk : m.kernel.step env (.switchTerminals term) = some k) :
      Way env m (.input (.switchTerminals term)) { m with kernel := k, frames := m.put (⟨saved, code⟩ :: rest) }
  | call {i : Input} {k : Kernel} (hi : IsCall i) (hcur : m.current = []) (hk : m.kernel.step env i = some k) :
      Way env m (.input i) { m with kernel := k, flag := true }
  | setFlag {flag : Bool} (hcur : m.current = []) : Way env m (.setFlag flag) { m with flag }

/-- What one step can do. -/
lemma way_of_step (h : m.step env e = some m') : Way env m e m' := by
  unfold step at h
  split at h
  · cases h
    exact .raise _
  · split at h
    · next hflag =>
      obtain ⟨d, hd, rfl⟩ := Option.map_eq_some_iff.mp h
      rw [hflag]
      exact .interrupt _ hflag hd
    · cases h
  · split at h
    · next hcur =>
      cases h
      exact .iret hcur
    · next hcur =>
      split at h
      · next hop =>
        cases h
        exact .proceed hop hcur
      · cases h
    · cases h
  · split at h
    · next hcur =>
      obtain ⟨k, hk, rfl⟩ := Option.map_eq_some_iff.mp h
      exact .sched hcur hk
    · next hcur =>
      split at h
      · next hterm =>
        subst hterm
        obtain ⟨k, hk, rfl⟩ := Option.map_eq_some_iff.mp h
        exact .switch hcur hk
      · cases h
    · next hcur =>
      obtain ⟨k, hk, rfl⟩ := Option.map_eq_some_iff.mp h
      exact .call trivial hcur hk
    · next hcur =>
      obtain ⟨k, hk, rfl⟩ := Option.map_eq_some_iff.mp h
      exact .call trivial hcur hk
    · next hcur =>
      obtain ⟨k, hk, rfl⟩ := Option.map_eq_some_iff.mp h
      exact .call trivial hcur hk
    · cases h
  · split at h
    · next hcur =>
      cases h
      exact .setFlag hcur
    · cases h

/-! ### Ends of interrupt that are owed -/

end Service

/-- How often code ends the service of line `n`. -/
def eois (n : Fin 16) (code : List HandlerOp) : Nat := code.countP (·.eoi = some n)

/-- How often the handlers of a stack have yet to end it. -/
def owedBy (n : Fin 16) (l : List Frame) : Nat := (l.map fun f => eois n f.code).sum

section Eois
variable {n : Fin 16} {op : HandlerOp} {code code' : List HandlerOp} {l : List Frame}

/-- The ends of interrupt of two pieces of code. -/
lemma eois_append : eois n (code ++ code') = eois n code + eois n code' := List.countP_append

/-- The ends of interrupt, by the first instruction. -/
lemma eois_cons : eois n (op :: code) = eois n code + if op.eoi = some n then 1 else 0 := by
  rw [eois, List.countP_cons, eois]
  simp only [decide_eq_true_eq]

/-- An instruction that sends no end of interrupt. -/
lemma eois_cons_of_none (h : op.eoi = none) : eois n (op :: code) = eois n code := by
  rw [eois_cons, h, if_neg (Option.some_ne_none n).symm, Nat.add_zero]

/-- What a stack owes, by its topmost handler. -/
lemma owedBy_cons {saved : Bool} : owedBy n (⟨saved, code⟩ :: l) = eois n code + owedBy n l := by
  rw [owedBy, List.map_cons, List.sum_cons, owedBy]

/-- `move_csr` ends no service. -/
lemma eois_moves (cursor : List UInt32) : eois n ((cursor.flatMap moveCsrPorts).map .port) = 0 := by
  induction cursor with
  | nil => rfl
  | cons temp cursor ih =>
    rw [List.flatMap_cons, List.map_append, eois_append, ih]
    simp only [moveCsrPorts, List.map_cons, List.map_nil]
    have hlow : (HandlerOp.port (.outb temp 0x3D5)).eoi = none := ite_self none
    have hhigh : (HandlerOp.port (.outb (temp >>> 8) 0x3D5)).eoi = none := ite_self none
    rw [eois_cons_of_none rfl, eois_cons_of_none hhigh, eois_cons_of_none rfl, eois_cons_of_none hlow]
    rfl

/-- A handler ends the service of the lines that its interrupt has put into service, once each. -/
lemma eois_code (d : Device) (found : Found) : eois n (d.code found) = if n ∈ d.levels then 1 else 0 := by
  cases d with
  | timer =>
    have hall : ∀ n, eois n pitCode = if n ∈ Device.timer.levels then 1 else 0 := by decide
    exact hall n
  | clock =>
    have hall : ∀ n, eois n ((sendEoi 8).map .port ++ [.iret]) = if n ∈ Device.clock.levels then 1 else 0 := by decide
    rw [← hall]
    exact (eois_cons_of_none rfl).trans (eois_cons_of_none rfl)
  | keyboard =>
    have hall : ∀ n, eois n ((sendEoi 1).map .port ++ [.iret]) = if n ∈ Device.keyboard.levels then 1 else 0 := by
      decide
    rw [Device.code, keyCode, eois_cons_of_none rfl, eois_append, hall]
    refine Nat.add_eq_right.mpr ?_
    cases found.term with
    | none => exact eois_moves _
    | some term => rw [eois_cons_of_none rfl, eois_cons_of_none rfl, eois_append, eois_moves]; rfl

end Eois

/-- The ends of interrupt that are owed on all stacks together. -/
def owed (n : Fin 16) (frames : Pid → List Frame) : Nat := ∑ p, owedBy n (frames p)

/-- Only one stack has changed. -/
lemma owed_update {n : Fin 16} {frames : Pid → List Frame} {p : Pid} {l : List Frame} :
    owed n (Function.update frames p l) + owedBy n (frames p) = owed n frames + owedBy n l := by
  have hsum : ∀ f : Pid → List Frame, owed n f = owedBy n (f p) + ∑ q ∈ Finset.univ.erase p, owedBy n (f q) :=
    fun f => (Finset.add_sum_erase _ _ (Finset.mem_univ p)).symm
  have hrest : ∑ q ∈ Finset.univ.erase p, owedBy n (Function.update frames p l q) =
      ∑ q ∈ Finset.univ.erase p, owedBy n (frames q) :=
    Finset.sum_congr rfl fun q hq => by rw [Function.update_of_ne (Finset.ne_of_mem_erase hq)]
  rw [hsum (Function.update frames p l), hsum frames, hrest, Function.update_self]
  omega

/-- What one process owes is part of what is owed. -/
lemma owedBy_le_owed {n : Fin 16} {frames : Pid → List Frame} (p : Pid) : owedBy n (frames p) ≤ owed n frames :=
  Finset.single_le_sum (f := fun p => owedBy n (frames p)) (fun _ _ => Nat.zero_le _) (Finset.mem_univ p)

/-- A line that is presented is not in service. -/
lemma Pics.presents_idle {c : Pics} {d : Device} {n : Fin 16} (h : c.presents = some d) (hn : n ∈ d.levels) :
    c.isr n = false := by
  have hready : c.ready d = true := List.find?_some h
  have hrivals : ∀ d : Device, ∀ n ∈ d.levels, n ∈ d.rivals := by
    intro d
    cases d <;> decide
  have hall := List.all_eq_true.mp (Bool.and_eq_true_iff.mp hready).2 n (hrivals d n hn)
  rwa [Bool.not_eq_true'] at hall

namespace Service
variable {env : Env} {m m' m1 : Service} {e : Happening} {es : List Happening} {n : Fin 16} {p w : Pid}

/-- A line is in service as long as the end of its service is owed. -/
def Balanced (m : Service) : Prop := ∀ n, owed n m.frames = (m.pics.isr n).toNat

/-- Only the stack of the running process has changed. -/
lemma owed_put {l : List Frame} :
    owed n (m.put l) + owedBy n m.current = owed n m.frames + owedBy n l := owed_update

/-- An instruction without an end of interrupt changes nothing in what is owed. -/
lemma owed_skip {saved : Bool} {op : HandlerOp} {code : List HandlerOp} {rest : List Frame} (hop : op.eoi = none)
    (hcur : m.current = ⟨saved, op :: code⟩ :: rest) :
    owed n (m.put (⟨saved, code⟩ :: rest)) = owed n m.frames := by
  have h := @owed_put m n (⟨saved, code⟩ :: rest)
  rw [hcur, owedBy_cons, owedBy_cons, eois_cons_of_none hop] at h
  omega

/-- The line of an interrupt that is taken is owed. -/
lemma Balanced.interrupt {d : Device} {found : Found} (h : m.Balanced) (hd : m.pics.presents = some d) :
    owed n (m.put (⟨true, d.code found⟩ :: m.current)) = ((m.pics.acknowledge d).isr n).toNat := by
  have hsum := @owed_put m n (⟨true, d.code found⟩ :: m.current)
  rw [owedBy_cons, eois_code, h n] at hsum
  change _ = (m.pics.isr n || decide (n ∈ d.levels)).toNat
  by_cases hn : n ∈ d.levels
  · rw [if_pos hn, Pics.presents_idle hd hn] at hsum
    rw [decide_eq_true hn, Bool.or_true]
    change _ = 1
    change _ + _ = 0 + _ at hsum
    omega
  · rw [if_neg hn] at hsum
    rw [decide_eq_false hn, Bool.or_false]
    omega

/-- An end of interrupt that is sent is no longer owed. -/
lemma Balanced.proceed {saved : Bool} {op : HandlerOp} {code : List HandlerOp} {rest : List Frame} (h : m.Balanced)
    (hcur : m.current = ⟨saved, op :: code⟩ :: rest) :
    owed n (m.put (⟨saved, code⟩ :: rest)) = ((op.setService m.pics).isr n).toNat := by
  cases hop : op.eoi with
  | none => rw [owed_skip hop hcur, h n, HandlerOp.setService, hop]
  | some k =>
    have hsum := @owed_put m n (⟨saved, code⟩ :: rest)
    have hle : owedBy n m.current ≤ owed n m.frames := owedBy_le_owed m.kernel.running
    rw [hcur, owedBy_cons, owedBy_cons, eois_cons, hop, h n] at hsum
    rw [hcur, owedBy_cons, eois_cons, hop, h n] at hle
    have hone : (m.pics.isr n).toNat ≤ 1 := Bool.toNat_le _
    simp only [HandlerOp.setService, hop]
    by_cases hk : n = k
    · subst hk
      rw [Function.update_self]
      rw [if_pos rfl] at hsum hle
      change _ = 0
      omega
    · rw [Function.update_of_ne hk]
      rw [if_neg fun heq => hk (Option.some.inj heq).symm] at hsum
      omega

/-- Every step keeps the balance. -/
lemma Balanced.step (h : m.Balanced) (hstep : m.step env e = some m') : m'.Balanced := by
  intro n
  cases way_of_step hstep with
  | raise d => exact h n
  | interrupt found hflag hd => exact h.interrupt hd
  | proceed hop hcur => exact h.proceed hcur
  | @iret saved rest hcur =>
    have hsum := @owed_put m n rest
    rw [hcur, owedBy_cons] at hsum
    change _ + (0 + _) = _ at hsum
    have hsame := h n
    change owed n (m.put rest) = (m.pics.isr n).toNat
    omega
  | sched hcur hk => exact (owed_skip rfl hcur).trans (h n)
  | switch hcur hk => exact (owed_skip rfl hcur).trans (h n)
  | call hi hcur hk => exact h n
  | setFlag hcur => exact h n

end Service

/-! ### The order on the stacks -/

/-- What is left of a handler that can be interrupted. -/
def Open (code : List HandlerOp) : Prop := code = [.iret] ∨ code = (sendEoi 1).map .port ++ [.iret]

/-- What is left of a handler that has interrupts off. -/
def Closed : List HandlerOp → Prop
  | .sti :: code => Open code
  | .sched :: code => code = [.sti, .iret]
  | .port _ :: code | .cli :: code | .switchTerminals _ :: code => Closed code
  | .iret :: code => code = []
  | [] => False

/-- What is left of the innermost handler. -/
def Sound (flag : Bool) (code : List HandlerOp) : Prop :=
  match flag with
  | true => Open code
  | false => Closed code

/-- The handlers of the running process: the innermost one has interrupted the others. -/
def Stacked (flag : Bool) : List Frame → Prop
  | [] => True
  | f :: rest => Sound flag f.code ∧ ∀ g ∈ rest, Open g.code

/-- The handlers of a process that was put aside in `sched`. -/
def Suspended (l : List Frame) : Prop := ∃ saved rest, l = ⟨saved, [.sti, .iret]⟩ :: rest ∧ ∀ g ∈ rest, Open g.code

/-- A process that was put aside comes back with interrupts off. -/
lemma Suspended.stacked {l : List Frame} (h : Suspended l) : Stacked false l := by
  obtain ⟨saved, rest, rfl, hrest⟩ := h
  exact ⟨.inl rfl, hrest⟩

/-- A process that was put aside calls `sched` no more. -/
lemma Suspended.no_sched {l : List Frame} (h : Suspended l) : ∀ f ∈ l, HandlerOp.sched ∉ f.code := by
  obtain ⟨saved, rest, rfl, hrest⟩ := h
  refine List.forall_mem_cons.mpr ⟨by simp, fun f hf => ?_⟩
  rcases hrest f hf with hcode | hcode
  · rw [hcode]
    simp
  · rw [hcode]
    simp [sendEoi]

/-- With interrupts on, every handler on the stack is open to them. -/
lemma stacked_true {l : List Frame} : Stacked true l ↔ ∀ f ∈ l, Open f.code := by
  cases l with
  | nil => exact ⟨fun _ f hf => absurd hf List.not_mem_nil, fun _ => trivial⟩
  | cons f rest =>
    rw [List.forall_mem_cons]
    rfl

/-- Stores to ports turn no interrupts on. -/
lemma closed_ports {ops : List PortOp} {code : List HandlerOp} (h : Closed code) : Closed (ops.map .port ++ code) := by
  induction ops with
  | nil => exact h
  | cons op ops ih => exact ih

/-- Every handler is entered with interrupts off. -/
lemma closed_code (d : Device) (found : Found) : Closed (d.code found) := by
  have hend : ∀ ops, Closed (List.map .port ops ++ [.iret]) := fun ops => closed_ports rfl
  cases d with
  | timer => exact closed_ports rfl
  | clock => exact hend _
  | keyboard =>
    rw [Device.code, keyCode]
    change Closed (_ ++ _)
    cases found.term with
    | none => exact closed_ports (hend _)
    | some term =>
      change Closed (_ ++ _ ++ _)
      rw [List.append_assoc]
      exact closed_ports (.inr rfl)

/-- An instruction of a handler leaves it sound. -/
lemma Sound.proceed {flag : Bool} {op : HandlerOp} {code : List HandlerOp} (h : Sound flag (op :: code))
    (hop : op.isLocal = true) : Sound (op.setFlag flag) code := by
  cases flag with
  | false =>
    cases op with
    | port op => exact h
    | cli => exact h
    | sti => exact h
    | _ => cases hop
  | true =>
    rcases h with h | h
    · cases h
      cases hop
    · cases h
      exact .inl rfl

/-- Only code with interrupts off has to do with the processes. -/
lemma Sound.eq_false {flag : Bool} {op : HandlerOp} {code : List HandlerOp} (h : Sound flag (op :: code))
    (hop : op.isLocal = false) (hne : op ≠ .iret) : flag = false := by
  cases flag with
  | false => rfl
  | true =>
    rcases h with h | h
    · cases h
      exact absurd rfl hne
    · cases h
      cases hop

namespace Kernel
variable {env : Env} {k k' : Kernel} {s : ProcStacks} {cur : TermId} {i : Input} {p : Pid}

/-- The processes that `sched` takes: the running one and the topmost of the other terminals. -/
lemma Runs.active_iff (h : k.Runs s cur) :
    k.active p = true ↔ p = k.running ∨ ∃ t, t ≠ cur ∧ s.Top t p := by
  rw [h.1.active]
  constructor
  · rintro ⟨t, ht⟩
    by_cases htc : t = cur
    · subst htc
      exact .inl (Top.unique ht h.1.running)
    · exact .inr ⟨t, htc, ht⟩
  · rintro (rfl | ⟨t, -, ht⟩)
    · exact ⟨cur, h.1.running⟩
    · exact ⟨t, ht⟩

/-- A step other than a tick changes nothing for the processes of the other terminals. -/
lemma Runs.others (h : k.Runs s cur) (hi : i.isTick = false) (hstep : k.step env i = some k') :
    (∀ p, p ≠ k.running → p ≠ k'.running → k'.active p = k.active p) ∧
      (k'.running ≠ k.running → k.active k'.running = false ∧ k'.active k.running = false) := by
  obtain ⟨s', h', hsame⟩ := h.staysOn hi hstep
  have hothers : ∀ p, (∃ t, t ≠ cur ∧ s'.Top t p) ↔ ∃ t, t ≠ cur ∧ s.Top t p := by
    intro p
    refine exists_congr fun t => and_congr_right fun ht => ?_
    rw [Stacks.Top, hsame t ht, Stacks.Top]
  refine ⟨fun p hp hp' => ?_, fun hne => ⟨?_, ?_⟩⟩
  · rw [Bool.eq_iff_iff, h'.active_iff, h.active_iff, hothers, or_iff_right hp, or_iff_right hp']
  · rw [Bool.eq_false_iff, Ne, h.active_iff, ← hothers]
    rintro (heq | ⟨t, ht, htop⟩)
    · exact hne heq
    · exact ht (Stacks.eq_of_mem htop.mem_stack h'.1.running.mem_stack)
  · rw [Bool.eq_false_iff, Ne, h'.active_iff, hothers]
    rintro (heq | ⟨t, ht, htop⟩)
    · exact hne heq.symm
    · exact ht (Stacks.eq_of_mem htop.mem_stack h.1.running.mem_stack)

/-- A tick changes nothing in who is active. -/
lemma Runs.tick_active {e : Entry} (h : k.Runs s cur) (hstep : k.step env (.tick e) = some k') :
    k'.active = k.active ∧ k'.active k'.running = true := by
  obtain ⟨t, -, h', -⟩ := h.tick hstep
  refine ⟨funext fun p => ?_, (h'.active_iff).mpr (.inl rfl)⟩
  rw [Bool.eq_iff_iff, h'.1.active, h.1.active]

end Kernel

namespace Service
variable {env : Env} {m m' m1 : Service} {e : Happening} {es : List Happening} {n : Fin 16} {p w : Pid}

/-- What the handlers on the stacks are up to. -/
structure Ordered (m : Service) : Prop where
  runs : ∃ s cur, m.kernel.Runs s cur
  current : Stacked m.flag m.current
  saved : ∀ p, ∀ f ∈ m.frames p, f.saved = true
  waiting : ∀ p, m.kernel.active p = true → p ≠ m.kernel.running → Suspended (m.frames p)
  idle : ∀ p, m.kernel.active p = false → m.frames p = []

/-- The new stack of the running process. -/
lemma put_self {l : List Frame} : m.put l m.kernel.running = l := Function.update_self ..

/-- The other stacks are as they were. -/
lemma put_of_ne {l : List Frame} (h : p ≠ m.kernel.running) : m.put l p = m.frames p := Function.update_of_ne h ..

/-- Handlers that have saved their registers are added to such. -/
lemma saved_put {l : List Frame} (h : ∀ p, ∀ f ∈ m.frames p, f.saved = true) (hl : ∀ f ∈ l, f.saved = true) :
    ∀ p, ∀ f ∈ m.put l p, f.saved = true := by
  intro p f hf
  by_cases hp : p = m.kernel.running
  · subst hp
    rw [put_self] at hf
    exact hl f hf
  · rw [put_of_ne hp] at hf
    exact h p f hf

/-- The running process is active. -/
lemma Ordered.active_running (h : m.Ordered) : m.kernel.active m.kernel.running = true := by
  obtain ⟨s, cur, hruns⟩ := h.runs
  exact hruns.active_iff.mpr (.inl rfl)

/-- A process that is not active is not running. -/
lemma Ordered.ne_of_idle (h : m.Ordered) (hp : m.kernel.active p = false) : p ≠ m.kernel.running := by
  rintro rfl
  exact Bool.noConfusion (hp.symm.trans h.active_running)

/-- A step that concerns the handlers of the running process only. -/
lemma Ordered.put {l : List Frame} {flag : Bool} {pics : Pics} {k : Kernel} (h : m.Ordered)
    (hrunning : k.running = m.kernel.running) (hactive : k.active = m.kernel.active) (hruns : ∃ s cur, k.Runs s cur)
    (hl : Stacked flag l) (hsaved : ∀ f ∈ l, f.saved = true) : Ordered ⟨k, pics, flag, m.put l⟩ where
  runs := hruns
  current := by
    change Stacked flag (m.put l k.running)
    rwa [hrunning, put_self]
  saved := saved_put h.saved hsaved
  waiting p hp hne := by
    change k.active p = true at hp
    change p ≠ k.running at hne
    rw [hactive] at hp
    rw [hrunning] at hne
    change Suspended (m.put l p)
    rw [put_of_ne hne]
    exact h.waiting p hp hne
  idle p hp := by
    change k.active p = false at hp
    rw [hactive] at hp
    exact (put_of_ne (h.ne_of_idle hp)).trans (h.idle p hp)

/-- `sched` puts the process aside and goes on with the handlers of another one. -/
lemma Ordered.sched {saved : Bool} {code : List HandlerOp} {rest : List Frame} {e : Entry} {k : Kernel} (h : m.Ordered)
    (hcur : m.current = ⟨saved, .sched :: code⟩ :: rest) (hk : m.kernel.step env (.tick e) = some k) :
    Ordered { m with kernel := k, frames := m.put (⟨saved, code⟩ :: rest) } := by
  obtain ⟨s, cur, hruns⟩ := h.runs
  obtain ⟨t, -, hruns', -⟩ := hruns.tick hk
  obtain ⟨hactive, hrunning⟩ := hruns.tick_active hk
  have hcurrent := h.current
  rw [hcur] at hcurrent
  have hflag : m.flag = false := hcurrent.1.eq_false rfl HandlerOp.noConfusion
  rw [hflag] at hcurrent
  have hcode : code = [.sti, .iret] := hcurrent.1
  have hwaiting : ∀ p, m.kernel.active p = true → Suspended (m.put (⟨saved, code⟩ :: rest) p) := by
    intro p hp
    by_cases hne : p = m.kernel.running
    · subst hne
      rw [put_self, hcode]
      exact ⟨saved, rest, rfl, hcurrent.2⟩
    · rw [put_of_ne hne]
      exact h.waiting p hp hne
  refine ⟨⟨s, t, hruns'⟩, ?_, saved_put h.saved ?_, fun p hp _ => hwaiting p (hactive ▸ hp), fun p hp => ?_⟩
  · change Stacked m.flag (m.put (⟨saved, code⟩ :: rest) k.running)
    rw [hflag]
    exact (hwaiting k.running (hactive ▸ hrunning)).stacked
  · have hsaved : ∀ f ∈ m.current, f.saved = true := h.saved m.kernel.running
    rw [hcur, List.forall_mem_cons] at hsaved
    exact List.forall_mem_cons.mpr hsaved
  · have hidle : m.kernel.active p = false := hactive ▸ hp
    exact (put_of_ne (h.ne_of_idle hidle)).trans (h.idle p hidle)

/-- A system call moves the processor between processes without handlers. -/
lemma Ordered.call {i : Input} {k : Kernel} (h : m.Ordered) (hi : IsCall i) (hcur : m.current = [])
    (hk : m.kernel.step env i = some k) : Ordered { m with kernel := k, flag := true } := by
  obtain ⟨s, cur, hruns⟩ := h.runs
  have hnot : i.isTick = false := by
    cases i with
    | tick e => cases hi
    | _ => rfl
  obtain ⟨s', hruns', -⟩ := hruns.staysOn hnot hk
  obtain ⟨hothers, hchange⟩ := hruns.others hnot hk
  have hnew : m.frames k.running = [] := by
    by_cases hne : k.running = m.kernel.running
    · rw [hne]
      exact hcur
    · exact h.idle _ (hchange hne).1
  refine ⟨⟨s', cur, hruns'⟩, ?_, h.saved, fun p hp hne => ?_, fun p hp => ?_⟩
  · change Stacked true (m.frames k.running)
    rw [hnew]
    trivial
  · have hold : p ≠ m.kernel.running := by
      rintro rfl
      change k.active _ = true at hp
      rw [(hchange (Ne.symm hne)).2] at hp
      cases hp
    exact h.waiting p (by rw [← hothers p hold hne]; exact hp) hold
  · by_cases hnew' : p = k.running
    · rw [hnew', ← hnew]
    by_cases hold : p = m.kernel.running
    · rw [hold]
      exact hcur
    · exact h.idle p (by rw [← hothers p hold hnew']; exact hp)

/-- Every step keeps the order. -/
lemma Ordered.step (h : m.Ordered) (hstep : m.step env e = some m') : m'.Ordered := by
  have hcurrent := h.current
  have hsaved := h.saved m.kernel.running
  change ∀ f ∈ m.current, _ at hsaved
  cases way_of_step hstep with
  | raise d => exact ⟨h.runs, h.current, h.saved, h.waiting, h.idle⟩
  | interrupt found hflag hd =>
    rw [hflag, stacked_true] at hcurrent
    exact h.put rfl rfl h.runs ⟨closed_code _ _, hcurrent⟩ (List.forall_mem_cons.mpr ⟨rfl, hsaved⟩)
  | proceed hop hcur =>
    rw [hcur] at hcurrent hsaved
    exact h.put rfl rfl h.runs ⟨hcurrent.1.proceed hop, hcurrent.2⟩ (List.forall_mem_cons.mpr
      (List.forall_mem_cons.mp hsaved))
  | iret hcur =>
    rw [hcur] at hcurrent hsaved
    obtain ⟨hone, hrest⟩ := List.forall_mem_cons.mp hsaved
    exact h.put rfl rfl h.runs ((congrArg (Stacked · _) hone).mpr (stacked_true.mpr hcurrent.2)) hrest
  | sched hcur hk => exact h.sched hcur hk
  | switch hcur hk =>
    rw [hcur] at hcurrent hsaved
    have hflag := hcurrent.1.eq_false rfl HandlerOp.noConfusion
    rw [hflag] at hcurrent
    obtain ⟨s, cur, hruns⟩ := h.runs
    obtain ⟨s', hruns', -⟩ := hruns.staysOn rfl hk
    cases hk
    rw [hflag]
    exact h.put rfl rfl ⟨s', cur, hruns'⟩ hcurrent (List.forall_mem_cons.mpr (List.forall_mem_cons.mp hsaved))
  | call hi hcur hk => exact h.call hi hcur hk
  | setFlag hcur =>
    refine ⟨h.runs, ?_, h.saved, h.waiting, h.idle⟩
    change Stacked _ m.current
    rw [hcur]
    trivial

/-- Nothing is owed at the start. -/
lemma balanced_start (k : Kernel) : (start k).Balanced := by
  intro n
  refine Finset.sum_eq_zero fun p _ => ?_
  change owedBy n (if _ then _ else _) = 0
  split
  · rfl
  · rfl

/-- No handler runs at the start. -/
lemma ordered_start {k : Kernel} (hk : RootShells k) : (start k).Ordered := by
  obtain ⟨cur, hruns⟩ := hk.runs
  have hrest : ∀ p, k.active p = true → p ≠ k.running → (start k).frames p = [⟨true, [.sti, .iret]⟩] := by
    intro p hp hne
    exact if_pos (by rw [hp, decide_eq_true hne]; rfl)
  have hnone : (start k).frames k.running = [] := if_neg (by simp)
  refine ⟨⟨_, cur, hruns⟩, ?_, fun p f hf => ?_, fun p hp hne => ?_, fun p hp => ?_⟩
  · change Stacked true ((start k).frames k.running)
    rw [hnone]
    trivial
  · change f ∈ if _ then _ else _ at hf
    split at hf
    · rw [List.mem_singleton.mp hf]
    · cases hf
  · exact ⟨true, [], hrest p hp hne, fun g hg => absurd hg List.not_mem_nil⟩
  · exact if_neg (by rw [show k.active p = false from hp]; exact Bool.false_ne_true)

/-- Any number of steps. -/
lemma Balanced.run (h : m.Balanced) (hrun : (serviceSystem env).run m es = some m') : m'.Balanced :=
  System.run_invariant (S := serviceSystem env) (fun _ _ _ h hstep => h.step hstep) h hrun

/-- Any number of steps. -/
lemma Ordered.run (h : m.Ordered) (hrun : (serviceSystem env).run m es = some m') : m'.Ordered :=
  System.run_invariant (S := serviceSystem env) (fun _ _ _ h hstep => h.step hstep) h hrun

end Service

/-- At any moment, whatever devices, handlers and programs have done in whatever order: a line is in service if and only
if the end of its service is owed by a handler on one of the stacks, and then it is owed once. -/
theorem owed_eq_inService (env : Env) (k : Kernel) (es : List Happening) (m : Service)
    (hrun : (serviceSystem env).run (Service.start k) es = some m) (n : Fin 16) :
    ∑ p, ((m.frames p).map fun f => eois n f.code).sum = (m.pics.isr n).toNat :=
  (Service.balanced_start k).run hrun n

/-- Alt+F2 at the keyboard, and a tick right after `switch_terminals` has turned interrupts on. -/
def putAside : List Happening :=
  [.raise .keyboard, .interrupt ⟨0x3C, [], some 1, 0⟩, .proceed, .proceed, .input (.switchTerminals 1), .proceed,
    .raise .timer, .interrupt ⟨0, [], none, 0⟩, .proceed, .proceed, .input (.tick someEntry), .proceed, .proceed]

/-- The second shell runs, and the handler of the keyboard waits on the stack of the first one. -/
theorem owed_eq_inService_aside : ∃ m, (serviceSystem shellEnv).run (Service.start threeShells) putAside = some m ∧
    m.kernel.running = 1 ∧ m.pics.isr 1 = true ∧ ((m.frames 0).map fun f => eois 1 f.code).sum = 1 ∧
    ∑ p, ((m.frames p).map fun f => eois 1 f.code).sum = (m.pics.isr 1).toNat :=
  ⟨_, rfl, rfl, rfl, rfl, owed_eq_inService shellEnv threeShells putAside _ rfl 1⟩

namespace Service
variable {env : Env} {m m' m1 : Service} {e : Happening} {es : List Happening} {n : Fin 16} {p w : Pid}

/-! ### While interrupts are on -/

/-- The rest of the handlers on all stacks while interrupts are on. -/
lemma Ordered.rest (h : m.Ordered) (hflag : m.flag = true) {f : Frame} (hf : f ∈ m.frames p) :
    Open f.code ∨ f.code = [.sti, .iret] := by
  by_cases hp : p = m.kernel.running
  · subst hp
    have hcurrent := h.current
    rw [hflag, stacked_true] at hcurrent
    exact .inl (hcurrent f hf)
  · cases hactive : m.kernel.active p with
    | false =>
      rw [h.idle p hactive] at hf
      cases hf
    | true =>
      obtain ⟨saved, rest, hframes, hrest⟩ := h.waiting p hactive hp
      rw [hframes] at hf
      rcases List.mem_cons.mp hf with rfl | hf
      · exact .inr rfl
      · exact .inl (hrest f hf)

end Service

/-- Only the keyboard's line can be in service in a handler that can be interrupted. -/
lemma eois_rest {code : List HandlerOp} {n : Fin 16} (h : Open code ∨ code = [.sti, .iret]) (hn : 0 < eois n code) :
    n = 1 ∧ code = (sendEoi 1).map .port ++ [.iret] := by
  have hkey : ∀ n, 0 < eois n ((sendEoi 1).map .port ++ [.iret]) → n = 1 := by decide
  rcases h with (rfl | rfl) | rfl
  · cases hn
  · exact ⟨hkey n hn, rfl⟩
  · cases hn

/-- What is owed is owed by a handler. -/
lemma exists_owed {n : Fin 16} {frames : Pid → List Frame} (h : 0 < owed n frames) :
    ∃ p, ∃ f ∈ frames p, 0 < eois n f.code := by
  by_contra hnone
  push Not at hnone
  refine absurd h (Nat.not_lt.mpr (Nat.le_zero.mpr (Finset.sum_eq_zero fun p _ => List.sum_eq_zero fun x hx => ?_)))
  obtain ⟨f, hf, rfl⟩ := List.mem_map.mp hx
  exact Nat.le_zero.mp (hnone p f hf)

/-- What is owed once is owed by one process. -/
lemma owedBy_of_ne {n : Fin 16} {frames : Pid → List Frame} {p w : Pid} {f : Frame} (h : owed n frames = 1)
    (hf : f ∈ frames w) (hn : 0 < eois n f.code) (hp : p ≠ w) : owedBy n (frames p) = 0 := by
  have hw : eois n f.code ≤ owedBy n (frames w) :=
    List.single_le_sum (fun _ _ => Nat.zero_le _) _ (List.mem_map_of_mem hf)
  have hsum := @owed_update n frames w []
  have hle := @owedBy_le_owed n (Function.update frames w []) p
  rw [Function.update_of_ne hp] at hle
  change _ = _ + 0 at hsum
  omega

/-- Whenever interrupts are on, a tick is taken as soon as it is requested, and a request is held back by a line in
service only if a handler that was interrupted in a terminal switch has yet to send its end of interrupt. -/
theorem enabled_lines (env : Env) (k : Kernel) (hk : RootShells k) (es : List Happening) (m : Service)
    (hrun : (serviceSystem env).run (Service.start k) es = some m) (hflag : m.flag = true) :
    (m.pics.irr .timer = true → m.pics.presents = some .timer) ∧
      (∀ d, m.pics.irr d = true → m.pics.ready d = false →
        ∃ p, ∃ f ∈ m.frames p, f.code = (sendEoi 1).map .port ++ [.iret]) := by
  have hbal := (Service.balanced_start k).run hrun
  have hord := (Service.ordered_start hk).run hrun
  have howed : ∀ n, m.pics.isr n = true → n = 1 ∧ ∃ p, ∃ f ∈ m.frames p, f.code = (sendEoi 1).map .port ++ [.iret] := by
    intro n hn
    have hsum := hbal n
    rw [hn] at hsum
    obtain ⟨p, f, hf, hpos⟩ := exists_owed (by rw [hsum]; exact Nat.one_pos)
    obtain ⟨hone, hcode⟩ := eois_rest (hord.rest hflag hf) hpos
    exact ⟨hone, p, f, hf, hcode⟩
  constructor
  · intro hirr
    have hzero : m.pics.isr 0 = false := Bool.eq_false_iff.mpr fun h => absurd (howed 0 h).1 (by decide)
    have hrivals : Device.timer.rivals = [0] := by decide
    have hready : m.pics.ready .timer = true := by
      rw [Pics.ready, hirr, hrivals, List.all_cons, hzero]
      rfl
    exact List.find?_cons_of_pos hready
  · intro d hirr hnot
    rw [Pics.ready, hirr, Bool.true_and] at hnot
    obtain ⟨n, -, hn⟩ := List.all_eq_false.mp hnot
    exact (howed n (by simpa using hn)).2

/-- The keyboard asks again while the handler waits. -/
theorem enabled_lines_aside : ∃ m,
    (serviceSystem shellEnv).run (Service.start threeShells) (putAside ++ [.raise .keyboard]) = some m ∧
    m.pics.irr .keyboard = true ∧ m.pics.ready .keyboard = false ∧
    ∃ p, ∃ f ∈ m.frames p, f.code = (sendEoi 1).map .port ++ [.iret] :=
  ⟨_, rfl, rfl, rfl, (enabled_lines shellEnv threeShells threeShells_root (putAside ++ [.raise .keyboard]) _ rfl rfl).2
    .keyboard rfl rfl⟩

/-- What the processes are told of. -/
def Happening.toInput : Happening → Option Input
  | .input i => some i
  | _ => none

/-- The number of times that `sched` is called. -/
def turns (es : List Happening) : Nat := ticksOf (es.filterMap Happening.toInput)

/-- Calls of `sched` are counted. -/
lemma turns_append {es es' : List Happening} : turns (es ++ es') = turns es + turns es' := by
  rw [turns, List.filterMap_append, ticksOf, List.countP_append]
  rfl

namespace Service
variable {env : Env} {m m' m1 : Service} {e : Happening} {es : List Happening} {n : Fin 16} {p w : Pid}

/-! ### A terminal switch that was put aside -/

/-- An interrupt is a tick, and it interrupts a program and no handler. -/
def Undisturbed (m : Service) : Happening → Prop
  | .interrupt _ => m.current = [] ∧ m.pics.presents = some .timer
  | _ => True

instance decidableUndisturbed (m : Service) : ∀ e, Decidable (m.Undisturbed e)
  | .interrupt _ => inferInstanceAs (Decidable (_ ∧ _))
  | .raise _ | .proceed | .input _ | .setFlag _ => isTrue trivial

/-- The machine passes inputs on to the kernel, -/
lemma kernel_input {i : Input} (hi : e.toInput = some i) (hstep : m.step env e = some m') :
    m.kernel.step env i = some m'.kernel := by
  cases way_of_step hstep with
  | sched hcur hk | switch hcur hk | call _ hcur hk =>
    cases hi
    exact hk
  | _ => cases hi

/-- and does nothing else with it. -/
lemma kernel_rest (hi : e.toInput = none) (hstep : m.step env e = some m') : m'.kernel = m.kernel := by
  cases way_of_step hstep with
  | sched hcur hk | switch hcur hk | call _ hcur hk => cases hi
  | _ => rfl

/-- Only the handlers of the running process go on. -/
lemma frames_of_ne (hstep : m.step env e = some m') (hp : p ≠ m.kernel.running) : m'.frames p = m.frames p := by
  cases way_of_step hstep with
  | raise | call | setFlag => rfl
  | interrupt | proceed | iret | sched | switch => exact put_of_ne hp

/-- Without interrupts of the keyboard no end of interrupt for it becomes due. -/
lemma owedBy_le (hstep : m.step env e = some m') (hquiet : m.Undisturbed e) (p : Pid) :
    owedBy 1 (m'.frames p) ≤ owedBy 1 (m.frames p) := by
  by_cases hp : p = m.kernel.running
  · subst hp
    change _ ≤ owedBy 1 m.current
    cases way_of_step hstep with
    | raise | call | setFlag => exact Nat.le_refl _
    | interrupt found hflag hd =>
      rw [Option.some.inj (hd.symm.trans hquiet.2)]
      change owedBy 1 (m.put _ _) ≤ _
      rw [put_self, owedBy_cons, eois_code, if_neg (by decide), Nat.zero_add]
    | proceed hop hcur =>
      change owedBy 1 (m.put _ _) ≤ _
      rw [put_self, hcur, owedBy_cons, owedBy_cons, eois_cons]
      omega
    | iret hcur =>
      change owedBy 1 (m.put _ _) ≤ _
      rw [put_self, hcur, owedBy_cons]
      omega
    | sched hcur hk | switch hcur hk =>
      change owedBy 1 (m.put _ _) ≤ _
      rw [put_self, hcur, owedBy_cons, owedBy_cons, eois_cons]
      omega
  · rw [frames_of_ne hstep hp]

/-- Undisturbed, no process gets to owe the end of another keyboard interrupt. -/
lemma owedBy_le_run (hrun : (serviceSystem env).run m es = some m')
    (hquiet : (serviceSystem env).Guarded Undisturbed m es) (p : Pid) :
    owedBy 1 (m'.frames p) ≤ owedBy 1 (m.frames p) := by
  have hkeep : ∀ (m1 : Service) (e : Happening) (m2 : Service),
      owedBy 1 (m1.frames p) ≤ owedBy 1 (m.frames p) → m1.Undisturbed e → m1.step env e = some m2 →
        owedBy 1 (m2.frames p) ≤ owedBy 1 (m.frames p) :=
    fun m1 e m2 hle hquiet hstep => (owedBy_le hstep hquiet p).trans hle
  exact @System.guarded_invariant _ _ (serviceSystem env) _ _ _ _ _ hkeep (Nat.le_refl _) hquiet hrun

/-- The process leaves its handlers before the next tick comes. -/
lemma leaves (hrun : (serviceSystem env).run m es = some m') (hquiet : (serviceSystem env).Guarded Undisturbed m es)
    (hsched : ∀ f ∈ m.current, HandlerOp.sched ∉ f.code) (hturns : 0 < turns es) :
    ∃ js ks m1, es = js ++ ks ∧ turns js = 0 ∧ (serviceSystem env).run m js = some m1 ∧
      m1.kernel.running = m.kernel.running ∧ m1.current = [] := by
  induction es generalizing m with
  | nil => cases hturns
  | cons e es ih =>
    by_cases hcur : m.current = []
    · exact ⟨[], e :: es, m, rfl, rfl, rfl, rfl, hcur⟩
    obtain ⟨m2, hstep, hrest⟩ := System.run_cons.mp hrun
    have hgo : m2.kernel.running = m.kernel.running → (∀ f ∈ m2.current, HandlerOp.sched ∉ f.code) →
        (∀ es, turns (e :: es) = turns es) → ∃ js ks m1, e :: es = js ++ ks ∧ turns js = 0 ∧
          (serviceSystem env).run m js = some m1 ∧ m1.kernel.running = m.kernel.running ∧ m1.current = [] := by
      intro hrunning hsched hcount
      rw [hcount] at hturns
      obtain ⟨js, ks, m1, rfl, hzero, hjs, hm1, hdone⟩ := ih hrest (hquiet.2 m2 hstep) hsched hturns
      exact ⟨e :: js, ks, m1, rfl, (hcount js).trans hzero, System.run_cons.mpr ⟨m2, hstep, hjs⟩,
        hm1.trans hrunning, hdone⟩
    cases way_of_step hstep with
    | raise => exact hgo rfl hsched fun _ => rfl
    | interrupt => exact absurd hquiet.1.1 hcur
    | proceed hop h =>
      rw [h, List.forall_mem_cons] at hsched
      refine hgo rfl ?_ fun _ => rfl
      change ∀ f ∈ m.put _ _, _
      rw [put_self]
      exact List.forall_mem_cons.mpr ⟨fun hmem => hsched.1 (List.mem_cons_of_mem _ hmem), hsched.2⟩
    | iret h =>
      rw [h, List.forall_mem_cons] at hsched
      refine hgo rfl ?_ fun _ => rfl
      change ∀ f ∈ m.put _ _, _
      rw [put_self]
      exact hsched.2
    | sched h =>
      rw [h, List.forall_mem_cons] at hsched
      exact absurd List.mem_cons_self hsched.1
    | switch h hk =>
      rw [h, List.forall_mem_cons] at hsched
      cases hk
      refine hgo rfl ?_ fun _ => rfl
      change ∀ f ∈ m.put _ _, _
      rw [put_self]
      exact List.forall_mem_cons.mpr ⟨fun hmem => hsched.1 (List.mem_cons_of_mem _ hmem), hsched.2⟩
    | call _ h | setFlag h => exact absurd h hcur

/-- A process that waits for its turn and has it leaves its handlers, both within five ticks. -/
lemma Ordered.leaves_within (h : m.Ordered) (hw : m.kernel.active w = true) (hne : m.kernel.running ≠ w)
    (hrun : (serviceSystem env).run m es = some m') (hquiet : (serviceSystem env).Guarded Undisturbed m es)
    (hturns : 6 ≤ turns es) :
    ∃ js ks m1, es = js ++ ks ∧ turns js ≤ 5 ∧ (serviceSystem env).run m js = some m1 ∧ m1.frames w = [] := by
  obtain ⟨s, cur, hruns⟩ := h.runs
  -- until its turn comes, the handlers of the process stay as they are
  obtain ⟨js, ks, ma, rfl, hfive, hjs, hma, hsame⟩ := hruns.first_turn (J := fun m1 => m1.frames w = m.frames w)
    Service.kernel Happening.toInput (fun _ _ _ _ hi hstep => kernel_input hi hstep)
    (fun _ _ _ hi hstep => kernel_rest hi hstep)
    (fun _ _ _ hrunning hJ hstep => (frames_of_ne hstep (Ne.symm hrunning)).trans hJ) hw rfl hrun
    (Nat.le_of_succ_le hturns)
  rw [System.run_append, hjs, Option.bind_some] at hrun
  have hsched : ∀ f ∈ ma.current, HandlerOp.sched ∉ f.code := by
    rw [Service.current, hma, hsame]
    exact (h.waiting w hw hne.symm).no_sched
  change turns js ≤ 5 at hfive
  have hpos : 0 < turns ks := by
    rw [turns_append] at hturns
    omega
  obtain ⟨ls, rs, mb, rfl, hzero, hmb, hrunning, hdone⟩ := leaves hrun (hquiet.append hjs) hsched hpos
  refine ⟨js ++ ls, rs, mb, (List.append_assoc ..).symm, ?_, ?_, ?_⟩
  · rw [turns_append]
    omega
  · rw [System.run_append, hjs, Option.bind_some, hmb]
  · rw [Service.current, hrunning, hma] at hdone
    exact hdone

end Service

/-- Whenever a program runs while a terminal switch has been put aside, the keyboard gets its line back within five
ticks, as long as the handlers of the ticks are not interrupted themselves. -/
theorem keyboard_returns (env : Env) (k : Kernel) (hk : RootShells k) (es₀ es : List Happening) (m m' : Service)
    (hrun₀ : (serviceSystem env).run (Service.start k) es₀ = some m) (hprogram : m.current = [])
    (hrun : (serviceSystem env).run m es = some m') (hquiet : (serviceSystem env).Guarded Service.Undisturbed m es)
    (hturns : 6 ≤ turns es) :
    ∃ js ks m1, es = js ++ ks ∧ turns js ≤ 5 ∧ (serviceSystem env).run m js = some m1 ∧ m1.pics.isr 1 = false := by
  have hbal := (Service.balanced_start k).run hrun₀
  have hord := (Service.ordered_start hk).run hrun₀
  cases hisr : m.pics.isr 1 with
  | false => exact ⟨[], es, m, rfl, Nat.zero_le 5, rfl, hisr⟩
  | true =>
    have hone : owed 1 m.frames = 1 := by rw [hbal 1, hisr]; rfl
    obtain ⟨w, f, hf, hpos⟩ := exists_owed (by rw [hone]; exact Nat.one_pos)
    have hne : m.kernel.running ≠ w := by
      rintro rfl
      change f ∈ m.current at hf
      rw [hprogram] at hf
      cases hf
    have hw : m.kernel.active w = true := by
      by_contra hnot
      rw [hord.idle w (Bool.eq_false_iff.mpr hnot)] at hf
      cases hf
    obtain ⟨js, ks, m1, rfl, hjs, hm1, hdone⟩ := hord.leaves_within hw hne hrun hquiet hturns
    refine ⟨js, ks, m1, rfl, hjs, hm1, ?_⟩
    have hothers : ∀ p, owedBy 1 (m1.frames p) = 0 := by
      intro p
      by_cases hp : p = w
      · rw [hp, hdone]
        rfl
      · exact Nat.le_zero.mp ((Service.owedBy_le_run hm1 hquiet.left p).trans_eq (owedBy_of_ne hone hf hpos hp))
    have hsum := hbal.run hm1 1
    rw [owed, Finset.sum_eq_zero fun p _ => hothers p] at hsum
    exact Bool.toNat_eq_zero.mp hsum.symm

/-- A tick with nothing in between. -/
def tickAlone : List Happening :=
  [.raise .timer, .interrupt ⟨0, [], none, 0⟩, .proceed, .proceed, .input (.tick someEntry), .proceed, .proceed]

/-- Six ticks. With the second one the first shell has its turn, and its handler of the keyboard is left. -/
def sixTicks : List Happening :=
  tickAlone ++ tickAlone ++ [.proceed, .proceed] ++ tickAlone ++ tickAlone ++ tickAlone ++ tickAlone

/-- Six ticks, after a terminal switch was put aside. -/
theorem keyboard_returns_aside : ∃ m, (serviceSystem shellEnv).run (Service.start threeShells) putAside = some m ∧
    m.pics.isr 1 = true ∧ ∃ js ks m1, sixTicks = js ++ ks ∧ turns js ≤ 5 ∧
      (serviceSystem shellEnv).run m js = some m1 ∧ m1.pics.isr 1 = false :=
  ⟨_, rfl, rfl, keyboard_returns shellEnv threeShells threeShells_root putAside sixTicks _ _ rfl rfl rfl (by decide)
    (by decide)⟩

end Boss
