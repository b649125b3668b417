import Boss.Process.Context

/-!
# What `execute` returns

The comment over `execute` promises -1 on failure, 256 for an exception and 0 to 255 for a `halt`, and the
shell decodes its result by that. The value comes from three places: the `return -1` of `execute`, the
status that a program passes to `halt`, and the `halt(-1)` at the end of every exception handler of `idt.c`.
The last one goes through the `uint8_t` parameter of `halt`, where -1 becomes 255.

`Calls` is the kernel with the list of all results so far. Each result has the process that gets it, the
process whose `execute` it is the result of, and what became of the child. `results_identify_outcome_iff`
says of every run: a result is the promised one exactly when the child did not end by an exception.
-/

namespace Boss
open Lib Lib.Paging

/-- The exceptions with a handler in `idt.c`. -/
inductive Exception
  | de | db | nmi | bp | of | br | ud | nm | df | coSegmentOverrun | ts | np | ss | gp | pf | mf | ac | mc | xf
  | generic
  deriving DecidableEq

/-- What a handler prints, and the argument of its `halt`. -/
structure ExceptionHandler where
  message : String
  status : Int

/-- The handlers differ in the text only; the one of a page fault is a format for `cr2` and the error
code. -/
def exceptionHandler (message : String) : ExceptionHandler := ⟨message, -1⟩

/-- The table of handlers. -/
def Exception.handler : Exception → ExceptionHandler
  | de => exceptionHandler "divide by zero exception"
  | db => exceptionHandler "db exception"
  | nmi => exceptionHandler "nmi exception"
  | bp => exceptionHandler "bp exception"
  | of => exceptionHandler "of exception"
  | br => exceptionHandler "br exception"
  | ud => exceptionHandler "ud exception"
  | nm => exceptionHandler "nm exception"
  | df => exceptionHandler "df exception"
  | coSegmentOverrun => exceptionHandler "co_segment_overrun exception"
  | ts => exceptionHandler "ts exception"
  | np => exceptionHandler "np exception"
  | ss => exceptionHandler "ss exception"
  | gp => exceptionHandler "gp exception"
  | pf => exceptionHandler "pf exception at %x, %x\n"
  | mf => exceptionHandler "mf exception"
  | ac => exceptionHandler "ac exception"
  | mc => exceptionHandler "mc exception"
  | xf => exceptionHandler "xf exception"
  | generic => exceptionHandler "Unknown exception"

/-- The argument of `halt` as its `uint8_t` parameter. -/
def Exception.status (x : Exception) : UInt8 := UInt8.ofInt x.handler.status

@[simp] lemma Exception.status_eq (x : Exception) : x.status = 0xFF := by
  cases x <;> rfl

/-- What became of the program that an `execute` was to start. -/
inductive Fate
  | neverStarted
  | exception (x : Exception)
  | halted (status : UInt8)
  deriving DecidableEq

/-- A result of `execute`. -/
structure Return where
  /-- The process that goes on with the value. -/
  caller : Pid
  /-- The process that called this `execute`. -/
  asked : Option Pid
  value : Int
  fate : Fate
  deriving DecidableEq

/-- The result is the one that the comment over `execute` promises. -/
structure Return.Right (r : Return) : Prop where
  caller : r.asked = some r.caller
  refused : r.value = -1 ↔ r.fate = .neverStarted
  exception : r.value = 256 ↔ ∃ x, r.fate = .exception x
  halted : ∀ status, r.fate = .halted status → r.value = status.toNat

/-- A call or an interrupt, or an exception of the running process. -/
inductive Act
  | call (i : Input)
  | trap (e : Entry) (x : Exception)

namespace Kernel

/-- The result when `halt` has jumped to `halt_ret_label`, with the status in `eax`. -/
def resumed (k' : Kernel) (fate : Fate) : List Return :=
  match k'.log with
  | .haltLoaded child _ _ status :: log =>
    [⟨k'.running, (lastStart child log).map Prod.fst, status.toNat, fate⟩]
  | _ => []

/-- The results of a step from `k` to `k'`. A page fault inside the kernel is an exception of the process that
made the call. -/
def returns (env : Env) (k k' : Kernel) : Input → List Return
  | .execute e command =>
    match curPcb (k.entryRegs e).esp with
    | none => []
    | some cur =>
      match k.execute env e.stale cur (k.entryRegs e) command with
      | .refused _ k' => [⟨k'.running, some cur, -1, .neverStarted⟩]
      | .started _ _ => []
      | .faulted _ => k'.resumed (.exception .pf)
  | .halt _ status => k'.resumed (.halted status)
  | .vidmap e screenStart =>
    match curPcb (k.entryRegs e).esp with
    | none => []
    | some cur =>
      match k.vidmap env cur screenStart.toNat with
      | (_, some _) => []
      | (_, none) => k'.resumed (.exception .pf)
  | .tick _ | .switchTerminals _ => []

end Kernel

/-- The kernel and all results so far. -/
structure Calls where
  kernel : Kernel
  returns : List Return

/-- One step. -/
def Calls.step (env : Env) (s : Calls) : Act → Option Calls
  | .call i => (s.kernel.step env i).map fun k' => ⟨k', s.kernel.returns env k' i ++ s.returns⟩
  | .trap e x =>
    (s.kernel.step env (.halt e x.status)).map fun k' => ⟨k', k'.resumed (.exception x) ++ s.returns⟩

/-- The calls as a system. -/
def callSystem (env : Env) : System Calls Act := ⟨Calls.step env⟩

/-- A result tells the outcome exactly when the child has not ended by an exception. -/
def Return.Identifies (r : Return) : Prop := r.Right ↔ ∀ x, r.fate ≠ .exception x

/-- For a command that is refused, -1 tells the outcome. -/
lemma identifies_refused (p : Pid) : (⟨p, some p, -1, .neverStarted⟩ : Return).Identifies := by
  refine iff_of_true ⟨rfl, by simp, by simp, by simp⟩ ?_
  intro x hx
  cases hx

/-- For a child that calls `halt`, its status tells the outcome. -/
lemma identifies_halted (p : Pid) (status : UInt8) :
    (⟨p, some p, status.toNat, .halted status⟩ : Return).Identifies := by
  have hlt := status.toNat_lt
  refine iff_of_true ⟨rfl, ⟨fun h => ?_, fun h => by cases h⟩, ⟨fun h => ?_, fun ⟨x, hx⟩ => by cases hx⟩, ?_⟩ ?_
  · simp only at h
    omega
  · simp only at h
    omega
  · intro status' h
    cases h
    rfl
  · intro x hx
    cases hx

/-- The status 255 does not tell that there was an exception. -/
lemma identifies_exception (p : Pid) (x : Exception) :
    (⟨p, some p, (0xFF : UInt8).toNat, .exception x⟩ : Return).Identifies := by
  refine iff_of_false (fun hright => ?_) fun hno => hno x rfl
  have hvalue : ((0xFF : UInt8).toNat : Int) = 256 := hright.exception.mpr ⟨x, rfl⟩
  exact absurd hvalue (by decide)

namespace Kernel
variable {env : Env} {stale : Mem} {k k' k0 : Kernel} {s : ProcStacks} {cur : TermId} {r : Regs}
  {status : UInt8} {lost : Option Pid}

/-- `halt` of the running process returns its status to the process that started it, or, from a root shell,
nothing. -/
lemma halt_resumed (h : k.Runs s cur) (hc : k.Contexts s cur) (hkept : Kept k k0 lost)
    (hclear : Clearable env k0) (hhalt : k0.halt env stale k.running r status = some k') (fate : Fate) :
    k'.resumed fate = [] ∨ ∃ q, k'.resumed fate = [⟨q, some q, status.toNat, fate⟩] := by
  obtain ⟨rest, hstack⟩ := List.head?_eq_some_iff.mp h.1.running
  cases rest with
  | nil =>
    obtain ⟨k1, _, hstart⟩ := (halt_restarts stale r status h hkept hclear hstack).1 k' hhalt
    left
    rw [resumed, hstart.log]
  | cons q rest =>
    obtain ⟨k1, k'', hpops, hrel, _, _, hsw⟩ := halt_pops stale r status h hkept hclear hstack
    rw [hhalt] at hpops
    cases hpops
    have hlog : k1.log = k.log := hrel.log.trans hkept.log
    have hwaits := hc.waits cur
    rw [hstack] at hwaits
    right
    refine ⟨q, ?_⟩
    simp only [resumed, hsw.log, hsw.running, hlog, (List.isChain_cons_cons.mp hwaits).1, Option.map_some]

/-- The results of a call identify the outcome. -/
lemma returns_identify (h : k.Runs s cur) (hc : k.Contexts s cur) (i : Input)
    (hstep : k.step env i = some k') : ∀ r ∈ k.returns env k' i, r.Identifies := by
  cases i with
  | execute e command =>
    simp only [step, h.1.curPcb e, Option.bind_some, callExecute] at hstep
    simp only [returns, h.1.curPcb e]
    cases hexec : k.execute env e.stale k.running (k.entryRegs e) command with
    | refused m k1 =>
      have hrun := (execute_refused hexec).control.running
      simp only [List.forall_mem_singleton, hrun]
      exact identifies_refused k.running
    | started eip k1 => simp
    | faulted k0 =>
      obtain ⟨pid, hfree, hfault⟩ := execute_faulted hexec
      rw [hexec] at hstep
      simp only
      rcases halt_resumed h hc (hfault.kept hfree) (hfault.clearable h) hstep (.exception .pf) with hno | ⟨q, hq⟩
      · simp [hno]
      · rw [hq, List.forall_mem_singleton]
        exact identifies_exception q .pf
  | halt e status =>
    simp only [step, h.1.curPcb e, Option.bind_some] at hstep
    rcases halt_resumed h hc (Kept.refl k) (h.clearable env) hstep (.halted status) with hno | ⟨q, hq⟩
    · simp [returns, hno]
    · rw [returns, hq, List.forall_mem_singleton]
      exact identifies_halted q status
  | tick e => simp [returns]
  | vidmap e screenStart =>
    simp only [step, h.1.curPcb e, Option.bind_some, callVidmap] at hstep
    simp only [returns, h.1.curPcb e]
    rcases vidmap_ways env k.running screenStart.toNat k with hno | ⟨k1, hmap, _⟩ | ⟨phys, hfault, _⟩
    · simp [hno]
    · simp [hmap]
    · rw [hfault] at hstep ⊢
      simp only at hstep ⊢
      rcases halt_resumed h hc (Kept.of_phys k phys) (h.clearable env) hstep (.exception .pf) with
        hno | ⟨q, hq⟩
      · simp [hno]
      · rw [hq, List.forall_mem_singleton]
        exact identifies_exception q .pf
  | switchTerminals term => simp [returns]

/-- So do those of an exception. -/
lemma trap_identifies (h : k.Runs s cur) (hc : k.Contexts s cur) (e : Entry) (x : Exception)
    (hstep : k.step env (.halt e x.status) = some k') : ∀ r ∈ k'.resumed (.exception x), r.Identifies := by
  simp only [step, h.1.curPcb e, Option.bind_some] at hstep
  rcases halt_resumed h hc (Kept.refl k) (h.clearable env) hstep (.exception x) with hno | ⟨q, hq⟩
  · simp [hno]
  · rw [hq, List.forall_mem_singleton, x.status_eq]
    exact identifies_exception q x

end Kernel

/-- The kernel of a run of calls holds stacks with saved contexts, and its results identify the outcomes. -/
structure Calls.Inv (s : Calls) : Prop where
  runs : ∃ st cur, s.kernel.Runs st cur ∧ s.kernel.Contexts st cur
  identify : ∀ r ∈ s.returns, r.Identifies

/-- One call. -/
lemma Calls.Inv.step {env : Env} {s s' : Calls} {a : Act} (h : s.Inv) (hstep : s.step env a = some s') :
    s'.Inv := by
  obtain ⟨⟨st, cur, hruns, hc⟩, hall⟩ := h
  have hmove : ∀ i k', s.kernel.step env i = some k' →
      ∃ st cur, k'.Runs st cur ∧ k'.Contexts st cur := by
    intro i k' hk
    obtain ⟨lost, st', cur', hm, hruns'⟩ := hruns.step_inv hk
    exact ⟨st', cur', hruns', (hm.contexts hruns hc (.refl _)).1⟩
  cases a with
  | call i =>
    obtain ⟨k', hk, rfl⟩ := Option.map_eq_some_iff.mp hstep
    refine ⟨hmove i k' hk, fun r hr => ?_⟩
    rcases List.mem_append.mp hr with hr | hr
    · exact Kernel.returns_identify hruns hc i hk r hr
    · exact hall r hr
  | trap e x =>
    obtain ⟨k', hk, rfl⟩ := Option.map_eq_some_iff.mp hstep
    refine ⟨hmove _ k' hk, fun r hr => ?_⟩
    rcases List.mem_append.mp hr with hr | hr
    · exact Kernel.trap_identifies hruns hc e x hk r hr
    · exact hall r hr

/-- In every run from three root shells, a result of `execute` is the promised one exactly when the child has
not ended by an exception. -/
theorem results_identify_outcome_iff (env : Env) (k : Kernel) (hk : RootShells k) (acts : List Act) :
    (callSystem env).Always (fun s => ∀ r ∈ s.returns, (r.Right ↔ ∀ x, r.fate ≠ .exception x)) ⟨k, []⟩ acts := by
  obtain ⟨cur, hruns⟩ := hk.runs
  refine System.always_of_invariant (I := Calls.Inv) (fun s a s' h hstep => h.step hstep)
    (fun s h => h.identify) ⟨⟨rootStacks, cur, hruns, hk.contexts hruns⟩, ?_⟩
  intro r hr
  cases hr

/-- A program that halts with 7. -/
theorem results_identify_outcome_iff_halt :
    (callSystem shellEnv).Always (fun s => ∀ r ∈ s.returns, (r.Right ↔ ∀ x, r.fate ≠ .exception x))
      ⟨threeShells, []⟩ [.call (.execute someEntry (some shellEnv.shell)), .call (.halt someEntry 7)] :=
  results_identify_outcome_iff shellEnv threeShells threeShells_root _

/-- A child that divides by zero gives its parent the result 255, as one that halts with this status does. -/
theorem exception_returns_status :
    (∃ s, (callSystem shellEnv).run ⟨threeShells, []⟩
        [.call (.execute someEntry (some shellEnv.shell)), .trap someEntry .de] = some s ∧
      s.returns = [⟨0, some 0, 255, .exception .de⟩]) ∧
    (∃ s, (callSystem shellEnv).run ⟨threeShells, []⟩
        [.call (.execute someEntry (some shellEnv.shell)), .call (.halt someEntry 255)] = some s ∧
      s.returns = [⟨0, some 0, 255, .halted 255⟩]) ∧
    ¬ (⟨0, some 0, 255, .exception .de⟩ : Return).Right := by
  refine ⟨⟨_, rfl, rfl⟩, ⟨_, rfl, rfl⟩, fun hright => ?_⟩
  exact absurd (hright.exception.mpr ⟨.de, rfl⟩) (by decide)

end Boss
