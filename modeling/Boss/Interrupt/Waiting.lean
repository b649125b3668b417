import Boss.Interrupt.Service

/-!
# Waiting for the clock

`RTC_read` clears the flag of its terminal and looks at it until a clock interrupt has set it again. The flags of the
three terminals are the whole of the protocol: there is one for each terminal and not one for each process. That is
enough, since only the process on top of a terminal's stack can run, and a process that waits in `RTC_read` stays on
top: it cannot execute a program meanwhile.

The machine of this module runs the processes of the kernel with the steps of `RTC_read` and the interrupts of the clock
in any order. Beside the flags it counts, for every pending read, the interrupts since its flag was cleared.

* `rtc_read_waits`: the flag that a pending read looks at is set exactly if there was an interrupt since. No read returns
  without one, and no other process clears the flag under its hands.
* `rtc_read_returns`: once there was an interrupt, the read is over as soon as its process looks at the flag again, and
  that is after five ticks at the latest.
-/

namespace Boss
open Lib

/-- A pending call of `RTC_read`: its local `term`, and the number of interrupts since it has cleared its flag. -/
structure Waiting where
  term : TermId
  since : Nat

/-- The kernel with `rtc_interrupt_occured`, the pending calls of `RTC_read` and the calls that have returned. -/
structure Readers where
  kernel : Kernel
  occurred : TermId → Bool
  reading : Pid → Option Waiting
  returned : List (Pid × Waiting)

/-- What happens: an input to the processes, a call of `RTC_read`, a look at the flag, or an interrupt of the clock. -/
inductive ReadEvent
  | input (i : Input)
  /-- `RTC_read` up to `sti` -/
  | enter
  /-- One look at the flag. -/
  | test
  /-- `rtc_irq_handler` -/
  | interrupt

/-- An input that does not come from the running process. -/
def Input.isInterrupt : Input → Bool
  | .tick _ | .switchTerminals _ => true
  | _ => false

namespace Readers

/-- The terminal of the running process. -/
def term (s : Readers) : TermId := (s.kernel.pcb s.kernel.running).terminalId

/-- One event. -/
def step (env : Env) (s : Readers) : ReadEvent → Option Readers
  | .input i =>
    -- a process in `RTC_read` makes no other call
    if (s.reading s.kernel.running).isSome ∧ i.isInterrupt = false then none
    else (s.kernel.step env i).map fun k => { s with kernel := k }
  | .enter =>
    match s.reading s.kernel.running with
    | some _ => none
    | none =>
      some { s with
        occurred := Function.update s.occurred s.term false
        reading := Function.update s.reading s.kernel.running (some ⟨s.term, 0⟩) }
  | .test =>
    match s.reading s.kernel.running with
    | none => none
    | some w =>
      if s.occurred w.term then
        some { s with
          reading := Function.update s.reading s.kernel.running none
          returned := (s.kernel.running, w) :: s.returned }
      else some s
  | .interrupt =>
    some { s with
      occurred := fun _ => true
      reading := fun p => (s.reading p).map fun w => { w with since := w.since + 1 } }

/-- No process is in `RTC_read`. -/
def start (k : Kernel) (occurred : TermId → Bool) : Readers := ⟨k, occurred, fun _ => none, []⟩

end Readers

/-- Readers as a system. -/
def readSystem (env : Env) : System Readers ReadEvent := ⟨Readers.step env⟩

namespace Kernel
variable {env : Env} {k k' : Kernel} {s s' : ProcStacks} {cur cur' t : TermId} {p : Pid} {i : Input} {lost : Option Pid}

/-- A process stays on top as long as it makes no call itself. -/
lemma Move.top (h : k.Runs s cur) (hm : Move env k s cur i lost k' s' cur') (htop : s.Top t p)
    (hp : p = k.running → i.isInterrupt = true) : s'.Top t p := by
  have hne : p ≠ k.running → t ≠ cur := by
    rintro hne rfl
    exact hne (Top.unique htop h.1.running)
  cases hm with
  | stay | display | map | restart | tick => exact htop
  | start =>
    have hcall : p ≠ k.running := fun heq => nomatch hp heq
    rw [Stacks.Top, Stacks.stack_push_of_ne (hne hcall)]
    exact htop
  | exit ends =>
    have hcall : p ≠ k.running := by
      intro heq
      cases i with
      | tick e => exact ends
      | switchTerminals term => exact ends
      | _ => cases hp heq
    rw [Stacks.Top, Stacks.stack_pop_of_ne (hne hcall)]
    exact htop

end Kernel

namespace Readers
variable {env : Env} {s s' : Readers} {e : ReadEvent} {es : List ReadEvent} {p : Pid} {w : Waiting}

/-- Pending reads are on top, and their flags tell whether there was an interrupt. -/
structure Inv (s : Readers) : Prop where
  pending : ∃ st cur, s.kernel.Runs st cur ∧
    ∀ p w, s.reading p = some w → st.Top w.term p ∧ s.occurred w.term = decide (0 < w.since)
  returned : ∀ r ∈ s.returned, 0 < r.2.since

/-- The processes go on; one that waits in `RTC_read` makes no call. -/
lemma Inv.input {i : Input} {k : Kernel} (h : s.Inv)
    (hfree : ¬ ((s.reading s.kernel.running).isSome ∧ i.isInterrupt = false)) (hk : s.kernel.step env i = some k) :
    Inv { s with kernel := k } := by
  obtain ⟨⟨st, cur, hruns, hpending⟩, hreturned⟩ := h
  obtain ⟨lost, st', cur', hm, hruns'⟩ := hruns.step_inv hk
  refine ⟨⟨st', cur', hruns', fun p w hp => ?_⟩, hreturned⟩
  obtain ⟨htop, hflag⟩ := hpending p w hp
  refine ⟨hm.top hruns htop ?_, hflag⟩
  rintro rfl
  by_contra hcall
  refine hfree ⟨?_, Bool.eq_false_iff.mpr hcall⟩
  change s.reading s.kernel.running = some w at hp
  rw [hp]
  rfl

/-- A call of `RTC_read` clears the flag of its terminal. -/
lemma Inv.enter (h : s.Inv) : Inv { s with
    occurred := Function.update s.occurred s.term false
    reading := Function.update s.reading s.kernel.running (some ⟨s.term, 0⟩) } := by
  obtain ⟨⟨st, cur, hruns, hpending⟩, hreturned⟩ := h
  have hterm : s.term = cur := hruns.1.terminal cur _ hruns.1.running.mem_stack
  refine ⟨⟨st, cur, hruns, fun p w hp => ?_⟩, hreturned⟩
  change Function.update s.reading s.kernel.running (some ⟨s.term, 0⟩) p = some w at hp
  change st.Top w.term p ∧ Function.update s.occurred s.term false w.term = decide (0 < w.since)
  rw [hterm] at hp ⊢
  by_cases hrun : p = s.kernel.running
  · subst hrun
    rw [Function.update_self] at hp
    cases hp
    exact ⟨hruns.1.running, Function.update_self ..⟩
  · rw [Function.update_of_ne hrun] at hp
    obtain ⟨htop, hflag⟩ := hpending p w hp
    -- the top of this terminal is another process, which has just cleared its own flag
    have hne : w.term ≠ cur := fun heq => hrun (Kernel.Top.unique (heq ▸ htop) hruns.1.running)
    exact ⟨htop, (Function.update_of_ne hne ..).trans hflag⟩

/-- The flag is found set, and the call returns. -/
lemma Inv.test (h : s.Inv) (hw : s.reading s.kernel.running = some w) (hset : s.occurred w.term = true) : Inv { s with
    reading := Function.update s.reading s.kernel.running none
    returned := (s.kernel.running, w) :: s.returned } := by
  obtain ⟨⟨st, cur, hruns, hpending⟩, hreturned⟩ := h
  refine ⟨⟨st, cur, hruns, fun p v hp => ?_⟩, ?_⟩
  · change Function.update s.reading s.kernel.running none p = some v at hp
    by_cases hrun : p = s.kernel.running
    · rw [hrun, Function.update_self] at hp
      cases hp
    · rw [Function.update_of_ne hrun] at hp
      exact hpending p v hp
  · rw [List.forall_mem_cons]
    obtain ⟨-, hflag⟩ := hpending _ w hw
    exact ⟨of_decide_eq_true (hflag.symm.trans hset), hreturned⟩

/-- An interrupt sets all flags. -/
lemma Inv.interrupt (h : s.Inv) : Inv { s with
    occurred := fun _ => true
    reading := fun p => (s.reading p).map fun w => { w with since := w.since + 1 } } := by
  obtain ⟨⟨st, cur, hruns, hpending⟩, hreturned⟩ := h
  refine ⟨⟨st, cur, hruns, fun p w hp => ?_⟩, hreturned⟩
  obtain ⟨v, hv, rfl⟩ := Option.map_eq_some_iff.mp hp
  exact ⟨(hpending p v hv).1, (decide_eq_true (Nat.succ_pos v.since)).symm⟩

/-- One event. -/
lemma Inv.step (h : s.Inv) (hstep : s.step env e = some s') : s'.Inv := by
  cases e with
  | input i =>
    simp only [Readers.step] at hstep
    split at hstep
    · cases hstep
    · next hfree =>
      obtain ⟨k, hk, rfl⟩ := Option.map_eq_some_iff.mp hstep
      exact h.input hfree hk
  | enter =>
    simp only [Readers.step] at hstep
    split at hstep
    · cases hstep
    · cases hstep
      exact h.enter
  | test =>
    simp only [Readers.step] at hstep
    split at hstep
    · cases hstep
    · next w hw =>
      split at hstep
      · next hset =>
        cases hstep
        exact h.test hw hset
      · cases hstep
        exact h
  | interrupt =>
    cases hstep
    exact h.interrupt

/-- Nobody waits at the start. -/
lemma Inv.start {k : Kernel} (hk : RootShells k) (occurred : TermId → Bool) : (start k occurred).Inv := by
  obtain ⟨cur, hruns⟩ := hk.runs
  exact ⟨⟨rootStacks, cur, hruns, fun p w hp => nomatch hp⟩, fun r hr => nomatch hr⟩

/-- Any number of events. -/
lemma Inv.run (h : s.Inv) (hrun : (readSystem env).run s es = some s') : s'.Inv :=
  System.run_invariant (fun _ _ _ h hstep => h.step hstep) h hrun

end Readers

/-- In every run from three root shells, a pending `RTC_read` finds its flag set exactly if there was a clock interrupt
since it cleared it, whatever reads the processes of the other terminals make; and every read that has returned had
waited for one. -/
theorem rtc_read_waits (env : Env) (k : Kernel) (hk : RootShells k) (occurred : TermId → Bool) (es : List ReadEvent)
    (s : Readers) (hrun : (readSystem env).run (Readers.start k occurred) es = some s) :
    (∀ r ∈ s.returned, 0 < r.2.since) ∧
      ∀ p w, s.reading p = some w → (s.occurred w.term = true ↔ 0 < w.since) := by
  obtain ⟨⟨st, cur, hruns, hpending⟩, hreturned⟩ := (Readers.Inv.start hk occurred).run hrun
  refine ⟨hreturned, fun p w hp => ?_⟩
  rw [(hpending p w hp).2, decide_eq_true_iff]

/-- Two shells wait, and the interrupt comes while the second one runs. -/
def twoReads : List ReadEvent := [.enter, .test, .input (.tick someEntry), .enter, .test, .interrupt]

/-- Two reads on two terminals. -/
theorem rtc_read_waits_two : ∃ s, (readSystem shellEnv).run (Readers.start threeShells fun _ => true) twoReads = some s ∧
    (∀ r ∈ s.returned, 0 < r.2.since) ∧ ∀ p w, s.reading p = some w → (s.occurred w.term = true ↔ 0 < w.since) :=
  ⟨_, rfl, rtc_read_waits shellEnv threeShells threeShells_root (fun _ => true) twoReads _ rfl⟩

/-! ### The end of a read -/

/-- What the kernel is told of an event. -/
def ReadEvent.toInput : ReadEvent → Option Input
  | .input i => some i
  | _ => none

namespace Readers
variable {env : Env} {s s' : Readers} {e : ReadEvent} {p : Pid}

/-- The processes get their inputs. -/
lemma kernel_input {i : Input} (hi : e.toInput = some i) (hstep : s.step env e = some s') :
    s.kernel.step env i = some s'.kernel := by
  cases e with
  | input j =>
    cases hi
    simp only [Readers.step] at hstep
    split at hstep
    · cases hstep
    · obtain ⟨k, hk, rfl⟩ := Option.map_eq_some_iff.mp hstep
      exact hk
  | _ => cases hi

/-- Other events leave the processes alone. -/
lemma kernel_rest (hi : e.toInput = none) (hstep : s.step env e = some s') : s'.kernel = s.kernel := by
  cases e with
  | input => cases hi
  | enter =>
    simp only [Readers.step] at hstep
    split at hstep <;> cases hstep
    rfl
  | test =>
    simp only [Readers.step] at hstep
    split at hstep
    · cases hstep
    · split at hstep <;> cases hstep <;> rfl
  | interrupt =>
    cases hstep
    rfl

/-- The read of `p` is pending and had an interrupt. -/
def Due (p : Pid) (s : Readers) : Prop := ∃ w, s.reading p = some w ∧ 0 < w.since

/-- Other processes do not end a read, and they take no interrupt back. -/
lemma Due.step (hdue : s.Due p) (hp : s.kernel.running ≠ p) (hstep : s.step env e = some s') : s'.Due p := by
  obtain ⟨w, hw, hpos⟩ := hdue
  cases e with
  | input i =>
    simp only [Readers.step] at hstep
    split at hstep
    · cases hstep
    · obtain ⟨k, -, rfl⟩ := Option.map_eq_some_iff.mp hstep
      exact ⟨w, hw, hpos⟩
  | enter =>
    simp only [Readers.step] at hstep
    split at hstep <;> cases hstep
    exact ⟨w, (Function.update_of_ne hp.symm ..).trans hw, hpos⟩
  | test =>
    simp only [Readers.step] at hstep
    split at hstep
    · cases hstep
    · split at hstep <;> cases hstep
      · exact ⟨w, (Function.update_of_ne hp.symm ..).trans hw, hpos⟩
      · exact ⟨w, hw, hpos⟩
  | interrupt =>
    cases hstep
    exact ⟨_, congrArg (Option.map _) hw, Nat.succ_pos w.since⟩

/-- The first look at the flag ends a read that had an interrupt. -/
lemma Inv.ends (h : s.Inv) (hdue : s.Due s.kernel.running) :
    ∃ w s', s.step env .test = some s' ∧ s'.reading s.kernel.running = none ∧
      s'.returned = (s.kernel.running, w) :: s.returned := by
  obtain ⟨w, hw, hpos⟩ := hdue
  obtain ⟨⟨st, cur, -, hpending⟩, -⟩ := h
  have hset : s.occurred w.term = true := (hpending _ w hw).2.trans (decide_eq_true hpos)
  refine ⟨w, { s with
    reading := Function.update s.reading s.kernel.running none
    returned := (s.kernel.running, w) :: s.returned }, ?_, Function.update_self .., rfl⟩
  simp only [Readers.step, hw, if_pos hset]

end Readers

/-- A pending `RTC_read` that had its interrupt returns within five ticks: its process is running again by then, and the
first look at the flag ends the read. -/
theorem rtc_read_returns (env : Env) (k : Kernel) (hk : RootShells k) (occurred : TermId → Bool)
    (es0 es : List ReadEvent) (s s' : Readers)
    (hrun0 : (readSystem env).run (Readers.start k occurred) es0 = some s) (p : Pid) (hdue : s.Due p)
    (hrun : (readSystem env).run s es = some s') (hticks : 5 ≤ ticksOf (es.filterMap ReadEvent.toInput)) :
    ∃ js ks s1 s2 w, es = js ++ ks ∧ ticksOf (js.filterMap ReadEvent.toInput) ≤ 5 ∧
      (readSystem env).run s js = some s1 ∧ s1.kernel.running = p ∧ s1.step env .test = some s2 ∧
      s2.reading p = none ∧ s2.returned = (p, w) :: s1.returned := by
  have hinv := (Readers.Inv.start hk occurred).run hrun0
  obtain ⟨st, cur, hruns, hpending⟩ := hinv.pending
  have hactive : s.kernel.active p = true := by
    obtain ⟨w, hw, -⟩ := hdue
    exact (hruns.1.active p).mpr ⟨w.term, (hpending p w hw).1⟩
  obtain ⟨js, ks, s1, rfl, hfive, hjs, rfl, hdue1⟩ :=
    hruns.first_turn (J := Readers.Due p) Readers.kernel ReadEvent.toInput
      (fun _ _ _ _ hi hstep => Readers.kernel_input hi hstep) (fun _ _ _ hi hstep => Readers.kernel_rest hi hstep)
      (fun _ _ _ hne hread hstep => hread.step hne hstep) hactive hdue hrun hticks
  obtain ⟨w, s2, htest, hnone, hreturned⟩ := (hinv.run hjs).ends hdue1
  exact ⟨js, ks, s1, s2, w, rfl, hfive, hjs, rfl, htest, hnone, hreturned⟩

/-- The first of the two shells has its read ended. -/
theorem rtc_read_returns_two :
    ∃ s s', (readSystem shellEnv).run (Readers.start threeShells fun _ => true) twoReads = some s ∧
      (readSystem shellEnv).run s (List.replicate 5 (.input (.tick someEntry))) = some s' ∧
      ∃ js ks s1 s2 w, List.replicate 5 (ReadEvent.input (.tick someEntry)) = js ++ ks ∧
        ticksOf (js.filterMap ReadEvent.toInput) ≤ 5 ∧ (readSystem shellEnv).run s js = some s1 ∧
        s1.kernel.running = threeShells.running ∧ s1.step shellEnv .test = some s2 ∧
        s2.reading threeShells.running = none ∧ s2.returned = (threeShells.running, w) :: s1.returned :=
  ⟨_, _, rfl, rfl, rtc_read_returns shellEnv threeShells threeShells_root (fun _ => true) twoReads _ _ _ rfl _
    ⟨_, rfl, Nat.one_pos⟩ rfl (by decide)⟩

end Boss
