import Boss.Process.Tree

/-!
# Booting the shells

`entry` starts one shell, and `sched` starts one at each tick until `shells_started`, which begins at 1, is 3.
Nobody says which process numbers these shells get: `execute` takes the first free one, and makes every
program with a number up to 2 a root of its own terminal. It is right when nothing but these three calls
has taken a number by then.

`bootSystem` runs the kernel from the call of `enablePaging` in `entry` on, with interrupts enabled. A tick may come
before `entry` has called `execute`; the shell it starts is process 0, and `entry`, whose stack is that of process 0
and whose stack pointer the `memset` of the PCB has erased, never gets the processor back. After the call of `entry`,
the two ticks do what they are meant to do unless an `execute` of a shell takes a process number before them: a
program that it starts becomes a root (`boot_shells_of_patient`, `impatient_shell_takes_root`), and a number that is
lost in a page fault is missing for a root. A command that is refused does no harm.
-/

namespace Boss
open Lib Lib.Paging

/-! ### The system -/

/-- Where `entry` is: before its call of `execute`, behind it, or preempted by a tick for good. -/
inductive EntryPhase
  | before
  | done
  | preempted
  deriving DecidableEq

/-- A program that has been started: by a process or by the kernel itself, from which file, and with what in its
4MB page when it was entered. -/
structure Start where
  byUser : Bool
  pid : Pid
  parent : Pid
  terminal : TermId
  file : Option Dentry
  page : Nat → UInt8

/-- The kernel, `entry`, and all programs started so far, newest first. -/
structure Boot where
  kernel : Kernel
  phase : EntryPhase
  starts : List Start

/-- What happens: the call of `entry`, a call of a process or an interrupt, or a store of the running program to its
own page. -/
inductive BootInput
  | entry (e : Entry)
  | call (i : Input)
  | store (off : Fin 0x400000) (b : UInt8)

/-- The file that a command names. -/
def programOf (env : Env) (command : Option Command) : Option Dentry :=
  command.bind fun c => c.parse.2.bind fun len => env.fs.readDentryByName c.parse.1 len

namespace Kernel

/-- The physical frame of a process. -/
def framePage (k : Kernel) (p : Pid) : Nat → UInt8 := fun off => k.video.phys (kernelTop + mb4 * p + off)

/-- The program that was entered in the step from `k` to `k'`, if one was. -/
def newStart (k k' : Kernel) (byUser : Bool) (file : Option Dentry) : List Start :=
  match k'.log with
  | .executeSaved q p _ :: log =>
    if k.log.length ≤ log.length then [⟨byUser, p, q, (k'.pcb p).terminalId, file, k'.framePage p⟩] else []
  | _ => []

/-- The programs started by an input: a call of `execute` starts what the user asks for, everything else (the
end of a root by a page fault in `execute` included) a shell. -/
def startsOf (env : Env) (k k' : Kernel) : Input → List Start
  | .execute e command =>
    match (curPcb (k.entryRegs e).esp).map fun cur => k.execute env e.stale cur (k.entryRegs e) command with
    | some (.faulted _) => k.newStart k' false (programOf env (some env.shell))
    | _ => k.newStart k' true (programOf env command)
  | _ => k.newStart k' false (programOf env (some env.shell))

end Kernel

namespace Boot

/-- The call of `execute` in `entry`. A failure leaves the machine spinning. -/
def callEntry (env : Env) (b : Boot) (e : Entry) : Option Boot :=
  (curPcb (b.kernel.entryRegs e).esp).bind fun cur =>
    match b.kernel.execute env e.stale cur (b.kernel.entryRegs e) (some env.shell) with
    | .started _ k' =>
      some ⟨k', .done, b.kernel.newStart k' false (programOf env (some env.shell)) ++ b.starts⟩
    | _ => none

/-- A step of the kernel, and where it leaves `entry`. -/
def stepKernel (env : Env) (b : Boot) (i : Input) (phase : EntryPhase) : Option Boot :=
  (b.kernel.step env i).map fun k' => ⟨k', phase, b.kernel.startsOf env k' i ++ b.starts⟩

/-- One step. Before the first shell runs there are interrupts only. -/
def step (env : Env) (b : Boot) : BootInput → Option Boot
  | .entry e => if b.phase = .before then b.callEntry env e else none
  | .call i =>
    if b.phase = .before then
      match i with
      | .tick _ => b.stepKernel env i .preempted
      | .switchTerminals _ => b.stepKernel env i .before
      | _ => none
    else b.stepKernel env i b.phase
  | .store off v =>
    if b.phase = .before then none
    else
      match b.kernel.storeUser env (userMemLocation + off) [v] with
      | (k', true) => some { b with kernel := k' }
      | (_, false) => none

end Boot

/-- The kernel when `entry` has enabled paging: no process, and `entry` on the stack at `KERNEL_TOP`. -/
structure AtBoot (k : Kernel) : Prop where
  used : ∀ p, k.procIdUsed p = false
  active : ∀ p, k.active p = false
  shells : k.shellsStarted = 1
  esp0 : k.esp0 = kernelTop

/-- A program of the user is no root, and what the kernel starts is one. -/
structure Start.Right (s : Start) : Prop where
  kernel : s.byUser = false → ∃ t, s.pid = root t ∧ s.parent = root t ∧ s.terminal = t
  user : s.byUser = true → 2 < s.pid.val ∧ s.parent ≠ s.pid

/-- Before `shells_started` is 3, a call of `execute` neither starts a program nor faults. -/
def Patient (env : Env) (b : Boot) (i : BootInput) : Prop :=
  ∀ e command, i = .call (.execute e command) →
    b.kernel.shellsStarted = 3 ∨ Fits env e.stale b.kernel command ∧ ¬ Starts env e.stale command

/-! ### Roots -/

/-- `p` is a root shell. -/
structure Kernel.IsRoot (k : Kernel) (p : Pid) : Prop where
  pid : (k.pcb p).pid = p
  parent : (k.pcb p).parent = some p
  terminal : (k.pcb p).terminalId.val = p.val
  files : (k.pcb p).fd = freshFds
  frame : k.procPageDirectory p (userMemLocation / 0x400000) = Kernel.frameEntry p

/-- But for `p`, the processes are the roots with smaller numbers, all of them saved by `sched`. -/
structure Kernel.RootsBelow (k : Kernel) (p : Pid) : Prop where
  used : ∀ q, q ≠ p → (k.procIdUsed q = true ↔ q < p)
  active : ∀ q, q ≠ p → (k.active q = true ↔ q < p)
  root : ∀ q < p, k.IsRoot q
  saved : ∀ q < p, OnStack q (k.pcb q).esp ∧ lastSave q k.log = some (.schedSaved q (k.saved q))
  shells : k.shellsStarted = p.val + 1

/-- The shells started so far are the roots up to the one that runs. -/
structure Kernel.Booting (k : Kernel) : Prop where
  le : k.running.val ≤ 2
  below : k.RootsBelow k.running
  used : k.procIdUsed k.running = true
  active : k.active k.running = true
  self : k.IsRoot k.running
  esp0 : k.esp0 = stackTop k.running
  cr3 : k.cr3 = some k.running

namespace Kernel
variable {env : Env} {stale : Mem} {k k' k0 : Kernel} {p q : Pid} {t : TermId} {r : Regs} {e : Entry}
  {status : UInt8}

/-- What a root depends on. -/
lemma IsRoot.keep (h : k.IsRoot p) (pcb : k'.pcb p = k.pcb p)
    (dirs : k'.procPageDirectory p (userMemLocation / 0x400000) = k.procPageDirectory p (userMemLocation / 0x400000)) :
    k'.IsRoot p where
  pid := by rw [pcb, h.pid]
  parent := by rw [pcb, h.parent]
  terminal := by rw [pcb, h.terminal]
  files := by rw [pcb, h.files]
  frame := by rw [dirs, h.frame]

/-- What the roots below `p` depend on. -/
lemma RootsBelow.keep (h : k.RootsBelow p) (used : ∀ q, q ≠ p → k'.procIdUsed q = k.procIdUsed q)
    (active : ∀ q, q ≠ p → k'.active q = k.active q) (pcb : ∀ q < p, k'.pcb q = k.pcb q)
    (dirs : ∀ q < p, k'.procPageDirectory q (userMemLocation / 0x400000) =
      k.procPageDirectory q (userMemLocation / 0x400000))
    (log : ∀ q < p, lastSave q k'.log = lastSave q k.log) (shells : k'.shellsStarted = k.shellsStarted) :
    k'.RootsBelow p where
  used q hq := by rw [used q hq, h.used q hq]
  active q hq := by rw [active q hq, h.active q hq]
  root q hq := (h.root q hq).keep (pcb q hq) (dirs q hq)
  saved q hq := by
    have hsaved : k'.saved q = k.saved q := by
      rw [Kernel.saved, Kernel.saved, pcb q hq]
    rw [pcb q hq, log q hq, hsaved]
    exact h.saved q hq
  shells := by rw [shells, h.shells]

/-- A root started over the roots below it. -/
lemma RootsBelow.start (h : k.RootsBelow p) (hp : p.val ≤ 2) (hstart : Started env k k' p p t r)
    (ht : t.val = p.val) : k'.Booting := by
  have hrun := hstart.running
  obtain ⟨hpid, hparent, hterm, hfd⟩ := hstart.child
  refine ⟨by rw [hrun]; exact hp, ?_, ?_, ?_, ?_, ?_, ?_⟩
  · rw [hrun]
    refine h.keep (fun q hq => ?_) (fun q hq => ?_) (fun q hq => ?_) (fun q hq => ?_) (fun q hq => ?_) hstart.shells
    · rw [hstart.used, Function.update_of_ne hq]
    · rw [hstart.active, Function.update_of_ne hq, if_pos rfl, Function.update_of_ne hq]
    · exact hstart.others q (Fin.ne_of_lt hq) (Fin.ne_of_lt hq)
    · rw [hstart.dirs, Function.update_of_ne (Fin.ne_of_lt hq)]
    · rw [hstart.log, lastSave, if_neg (Ne.symm (Fin.ne_of_lt hq))]
  · rw [hrun, hstart.used, Function.update_self]
  · rw [hrun, hstart.active, Function.update_self]
  · rw [hrun]
    refine ⟨hpid, hparent, ?_, hfd, ?_⟩
    · rw [hterm, ht]
    · rw [hstart.dirs, Function.update_self, programDir_frame]
  · rw [hstart.esp0, hrun]
  · rw [hstart.cr3, hrun]

/-- The next number is free. -/
lemma RootsBelow.free (h : k.RootsBelow p) (hp : k.procIdUsed p = false) : freePid k.procIdUsed = some p :=
  freePid_eq_some.mpr ⟨hp, fun q hq => (h.used q (Fin.ne_of_lt hq)).mpr hq⟩

/-- `execute("shell")` with a root's number free starts that root. -/
lemma RootsBelow.execute_shell (h : k.RootsBelow p) (hp : p.val ≤ 2) (hused : k.procIdUsed p = false)
    (hshell : ShellLoads env) (stale : Mem) (cur : Pid) (r : Regs) :
    ∃ eip k', k.execute env stale cur r (some env.shell) = .started eip k' ∧ k'.Booting ∧
      k'.log = .executeSaved p p r :: k.log ∧ k'.running = p := by
  have hfree := h.free hused
  obtain ⟨eip, k', hexec⟩ := Kernel.execute_shell stale cur r hshell hfree
  obtain ⟨pid, hpid, hstart⟩ := execute_started hexec
  rw [hfree] at hpid
  cases hpid
  have hparent : parentOf cur p = p := if_pos hp
  have hterm : (k.terminalOf cur p).val = p.val := by
    rw [terminalOf, dif_pos hp]
  rw [hparent] at hstart
  exact ⟨eip, k', hexec, h.start hp hstart hterm, hstart.log, hstart.running⟩

/-! ### From one root to three -/

/-- `entry` starts the first root. -/
lemma rootsBelow_zero (h : AtBoot k) : k.RootsBelow 0 where
  used q hq := iff_of_false (by rw [h.used q]; exact Bool.false_ne_true) (Fin.not_lt_zero q)
  active q hq := iff_of_false (by rw [h.active q]; exact Bool.false_ne_true) (Fin.not_lt_zero q)
  root q hq := absurd hq (Fin.not_lt_zero q)
  saved q hq := absurd hq (Fin.not_lt_zero q)
  shells := h.shells

/-- The state in which `sched` starts the next root. -/
lemma Booting.next (h : k.Booting) (hp : p.val = k.running.val + 1) (hr : OnStack k.running r.esp) :
    ({ k.saveContext k.running r with shellsStarted := k.shellsStarted + 1 } : Kernel).RootsBelow p := by
  have hlt : ∀ q : Pid, q < p ↔ q < k.running ∨ q = k.running := by
    intro q
    rw [Fin.lt_def, Fin.lt_def, Fin.ext_iff]
    omega
  have hself : (k.saveContext k.running r).pcb k.running = { k.pcb k.running with esp := r.esp, ebp := r.ebp } :=
    Function.update_self ..
  have hpcb : ∀ q, q ≠ k.running → (k.saveContext k.running r).pcb q = k.pcb q :=
    fun q hq => Function.update_of_ne hq ..
  have hactive : (k.saveContext k.running r).active = Function.update k.active k.running true :=
    congrArg (Function.update k.active · true) h.self.pid
  refine ⟨fun q hq => ?_, fun q hq => ?_, fun q hq => ?_, fun q hq => ?_, ?_⟩
  · rw [hlt]
    by_cases hqr : q = k.running
    · rw [hqr]
      exact iff_of_true h.used (Or.inr rfl)
    · rw [or_iff_left hqr]
      exact h.below.used q hqr
  · rw [hlt]
    simp only [hactive]
    by_cases hqr : q = k.running
    · rw [hqr, Function.update_self]
      exact iff_of_true rfl (Or.inr rfl)
    · rw [Function.update_of_ne hqr, or_iff_left hqr]
      exact h.below.active q hqr
  · rcases (hlt q).mp hq with hq | rfl
    · exact (h.below.root q hq).keep (hpcb q (Fin.ne_of_lt hq)) rfl
    · obtain ⟨h1, h2, h3, h4, h5⟩ := h.self
      exact ⟨by rw [hself, h1], by rw [hself, h2], by rw [hself, h3], by rw [hself, h4], h5⟩
  · rcases (hlt q).mp hq with hq | rfl
    · obtain ⟨hstack, hsave⟩ := h.below.saved q hq
      have hne := Fin.ne_of_lt hq
      simp only [Kernel.saved, hpcb q hne]
      refine ⟨hstack, ?_⟩
      exact (if_neg (Ne.symm hne)).trans hsave
    · simp only [Kernel.saved, hself]
      exact ⟨hr, if_pos rfl⟩
  · simp only [h.below.shells, hp]

/-- A tick starts the next root. -/
lemma Booting.tick (h : k.Booting) (hlt : k.running.val < 2) (hshell : ShellLoads env) (e : Entry) :
    ∃ k' p, k.step env (.tick e) = some k' ∧ k'.Booting ∧ p.val = k.running.val + 1 ∧ k'.running = p ∧
      k'.log = .executeSaved p p (k.entryRegs e) :: .schedSaved k.running (k.entryRegs e) :: k.log := by
  have hr : OnStack k.running (k.entryRegs e).esp := entryRegs_onStack h.esp0
  obtain ⟨p, hp⟩ : ∃ p : Pid, p.val = k.running.val + 1 := ⟨⟨k.running.val + 1, by omega⟩, rfl⟩
  have hne : p ≠ k.running := fun hpr => by
    rw [hpr] at hp
    omega
  have hbelow := h.next hp hr
  have hfree : k.procIdUsed p = false := by
    rw [Bool.eq_false_iff, Ne, h.below.used p hne, Fin.lt_def]
    omega
  obtain ⟨eip, k', hexec, hboot, hlog, hrun⟩ := hbelow.execute_shell (by omega) hfree hshell e.stale k.running
    (k.entryRegs e)
  refine ⟨k', p, ?_, hboot, hp, hrun, hlog⟩
  have hshells : (k.saveContext k.running (k.entryRegs e)).shellsStarted < 3 := by
    have hcount : (k.saveContext k.running (k.entryRegs e)).shellsStarted = k.running.val + 1 := h.below.shells
    omega
  simp only [step, curPcb_of_onStack hr, Option.bind_some, sched, if_pos hshells]
  have hsame : (k.saveContext k.running (k.entryRegs e)).shellsStarted = k.shellsStarted := rfl
  rw [hsame, hexec]

/-- The end of the root that runs starts it again. -/
lemma Booting.halt (h : k.Booting) (hshell : ShellLoads env) (stale : Mem) (r : Regs) (status : UInt8) :
    ∃ k', k.halt env stale k.running r status = some k' ∧ k'.Booting ∧ k'.running = k.running ∧
      k'.log = .executeSaved k.running k.running r :: k.log := by
  have hclear : Clearable env k := by
    refine clearable_of_frame (p := k.running) ?_
    simp only [directory, h.cr3]
    exact h.self.frame
  obtain ⟨k1, hrel, heq⟩ := halt_eq stale r status hclear.1 hclear.2 h.self.parent
    (by rw [h.self.files]; exact freshFds_closable)
  have hbelow : k1.RootsBelow k.running := by
    refine h.below.keep (fun q hq => ?_) (fun q hq => ?_) (fun q hq => hrel.others q (Fin.ne_of_lt hq))
      (fun q _ => by rw [hrel.dirs]) (fun q _ => by rw [hrel.log]) hrel.shells
    · rw [hrel.used, h.self.pid, Function.update_of_ne hq]
    · rw [hrel.active, h.self.pid, Function.update_of_ne hq, Function.update_of_ne hq]
  have hfree : k1.procIdUsed k.running = false := by
    rw [hrel.used, h.self.pid, Function.update_self]
  obtain ⟨eip, k', hexec, hboot, hlog, hrun⟩ := hbelow.execute_shell h.le hfree hshell stale k.running r
  refine ⟨k', ?_, hboot, hrun, by rw [hlog, hrel.log]⟩
  rw [heq, leave, if_pos rfl, hexec]

/-- The screens play no part. -/
lemma Booting.setVideo (h : k.Booting) (v : Video) : ({ k with video := v } : Kernel).Booting where
  le := h.le
  below := h.below.keep (fun _ _ => rfl) (fun _ _ => rfl) (fun _ _ => rfl) (fun _ _ => rfl) (fun _ _ => rfl) rfl
  used := h.used
  active := h.active
  self := h.self.keep rfl rfl
  esp0 := h.esp0
  cr3 := h.cr3

/-- With three roots the shells are up. -/
lemma Booting.rootShells (h : k.Booting) (htwo : k.running.val = 2) : RootShells k := by
  have hle : ∀ p : Pid, p.val ≤ 2 ↔ p < k.running ∨ p = k.running := by
    intro p
    rw [Fin.lt_def, Fin.ext_iff]
    omega
  have hroot : ∀ t, k.IsRoot (root t) := by
    intro t
    rcases (hle (root t)).mp (Nat.le_of_lt_succ t.isLt) with hlt | heq
    · exact h.below.root _ hlt
    · rw [heq]
      exact h.self
  refine ⟨fun p => ?_, fun p => ?_, fun t => (hroot t).pid, fun t => (hroot t).parent, fun t => ?_,
    fun t => (hroot t).files, fun t => (hroot t).frame, ⟨⟨k.running.val, by omega⟩, rfl⟩, h.esp0, h.cr3, ?_, ?_⟩
  · rw [hle]
    by_cases hp : p = k.running
    · rw [hp]
      exact iff_of_true h.used (Or.inr rfl)
    · rw [or_iff_left hp]
      exact h.below.used p hp
  · rw [hle]
    by_cases hp : p = k.running
    · rw [hp]
      exact iff_of_true h.active (Or.inr rfl)
    · rw [or_iff_left hp]
      exact h.below.active p hp
  · exact Fin.ext (hroot t).terminal
  · intro t ht
    refine h.below.saved _ ?_
    exact ((hle (root t)).mp (Nat.le_of_lt_succ t.isLt)).resolve_right ht
  · rw [h.below.shells, htwo]

/-- `vidmap` touches no entry that the roots need. -/
lemma Booting.mapped (h : k.Booting) (hm : Mapped env k k' k.running) : k'.Booting := by
  have hdir : ∀ q, k'.procPageDirectory q (userMemLocation / 0x400000) =
      k.procPageDirectory q (userMemLocation / 0x400000) := by
    intro q
    rw [hm.dirs, h.self.pid]
    by_cases hq : q = k.running
    · rw [hq, Function.update_self, Function.update_of_ne (by decide)]
    · rw [Function.update_of_ne hq]
  have hrun := hm.running
  refine ⟨by rw [hrun]; exact h.le, ?_, by rw [hrun, hm.used, h.used], by rw [hrun, hm.active, h.active], ?_,
    by rw [hm.esp0, h.esp0, hrun], by rw [hm.cr3, h.self.pid, hrun]⟩
  · rw [hrun]
    exact h.below.keep (fun q _ => by rw [hm.used]) (fun q _ => by rw [hm.active]) (fun q _ => by rw [hm.pcb])
      (fun q _ => hdir q) (fun q _ => by rw [hm.log]; rfl) hm.shells
  · rw [hrun]
    exact h.self.keep (by rw [hm.pcb]) (hdir _)

/-- A command that is refused leaves nothing behind that the roots depend on. -/
lemma Booting.refused (h : k.Booting) (hr : Refused k k') : k'.Booting := by
  have hrun := hr.control.running
  have hpcb : ∀ q < k.running, k'.pcb q = k.pcb q := fun q hq =>
    hr.pcb q ((h.below.used q (Fin.ne_of_lt hq)).mpr hq)
  refine ⟨by rw [hrun]; exact h.le, ?_, by rw [hrun, hr.used, h.used], by rw [hrun, hr.control.active, h.active], ?_,
    by rw [hr.control.esp0, h.esp0, hrun], by rw [hr.cr3, h.cr3, hrun]⟩
  · rw [hrun]
    exact h.below.keep (fun q _ => by rw [hr.used]) (fun q _ => by rw [hr.control.active]) hpcb
      (fun q _ => by rw [hr.dirs]) (fun q _ => by rw [hr.control.log]) hr.control.shells
  · rw [hrun]
    exact h.self.keep (hr.pcb _ h.used) (by rw [hr.dirs])

/-! ### The programs that are started -/

variable {byUser : Bool} {file : Option Dentry} {s : ProcStacks} {cur : TermId} {lost : Option Pid} {i : Input}

/-- Nothing is started without an entry in the log. -/
lemma newStart_same (h : k'.log = k.log) : k.newStart k' byUser file = [] := by
  unfold newStart
  rw [h]
  split
  · next hlog =>
    rw [hlog]
    exact if_neg (by simp)
  · rfl

/-- The program of a new entry. -/
lemma newStart_pushed {log : List ContextEvent} (h : k'.log = .executeSaved q p r :: log)
    (hle : k.log.length ≤ log.length) :
    k.newStart k' byUser file = [⟨byUser, p, q, (k'.pcb p).terminalId, file, k'.framePage p⟩] := by
  unfold newStart
  rw [h]
  exact if_pos hle

/-- A start of a root by the kernel. -/
lemma right_root (file : Option Dentry) (h : k'.log = .executeSaved p p r :: k.log ∨
      ∃ e, k'.log = .executeSaved p p r :: e :: k.log) (hle : p.val ≤ 2) (hroot : k'.IsRoot p) :
    (∃ s ∈ k.newStart k' false file, s.byUser = false ∧ s.pid = p) ∧
      ∀ s ∈ k.newStart k' false file, s.Right := by
  have hstart : k.newStart k' false file =
      [⟨false, p, p, (k'.pcb p).terminalId, file, k'.framePage p⟩] := by
    rcases h with h | ⟨e, h⟩
    · exact newStart_pushed h (Nat.le_refl _)
    · exact newStart_pushed h (by simp)
  rw [hstart]
  refine ⟨⟨_, List.mem_singleton_self _, rfl, rfl⟩, ?_⟩
  intro s hs
  rw [List.mem_singleton.mp hs]
  have hp : p = root ⟨p.val, by omega⟩ := rfl
  exact ⟨fun _ => ⟨⟨p.val, by omega⟩, hp, hp, Fin.ext hroot.terminal⟩, fun huser => by cases huser⟩

/-- A program that a process starts when the roots are there. -/
lemma right_user {eip : Nat} (h : k.Runs s cur) {command : Option Command}
    (hexec : k.execute env stale k.running r command = .started eip k') :
    ∀ s ∈ k.newStart k' true file, s.Right := by
  obtain ⟨pid, hfree, hstart⟩ := execute_started hexec
  have hgt : 2 < pid.val := h.1.lt_free hfree
  have hparent : parentOf k.running pid = k.running := if_neg (Nat.not_le.mpr hgt)
  rw [hparent] at hstart
  rw [newStart_pushed hstart.log (Nat.le_refl _)]
  intro s hs
  rw [List.mem_singleton.mp hs]
  refine ⟨fun hkernel => (by cases hkernel), fun _ => ⟨hgt, ?_⟩⟩
  exact ne_of_used hfree (h.1.used _ h.1.running.mem)

/-- The end of a process starts nothing but the root it was. -/
lemma right_halt (h : k.Runs s cur) (hkept : Kept k k0 lost) (hclear : Clearable env k0)
    (hhalt : k0.halt env stale k.running r status = some k') :
    ∀ s ∈ k.newStart k' false file, s.Right := by
  obtain ⟨rest, hstack⟩ := List.head?_eq_some_iff.mp h.1.running
  cases rest with
  | nil =>
    obtain ⟨k1, hrel, hstart⟩ := (halt_restarts stale r status h hkept hclear hstack).1 k' hhalt
    obtain ⟨_, _, hterm, _⟩ := hstart.child
    have hlog : k'.log = .executeSaved k.running k.running r :: k.log := by
      rw [hstart.log, hrel.log, hkept.log]
    have hroot := h.1.running_root hstack
    rw [newStart_pushed hlog (Nat.le_refl _)]
    intro s hs
    rw [List.mem_singleton.mp hs]
    exact ⟨fun _ => ⟨cur, hroot, hroot, hterm⟩, fun huser => by cases huser⟩
  | cons q rest =>
    obtain ⟨k1, k'', hpops, _, _, _, hsw⟩ := halt_pops stale r status h hkept hclear hstack
    rw [hhalt] at hpops
    cases hpops
    simp [newStart, hsw.log]

/-- With the roots there, every start is right. -/
lemma Runs.starts_right (h : k.Runs s cur) (hstep : k.step env i = some k') :
    ∀ s ∈ k.startsOf env k' i, s.Right := by
  cases i with
  | execute e command =>
    simp only [step, h.1.curPcb e, Option.bind_some, callExecute] at hstep
    simp only [startsOf, h.1.curPcb e, Option.map_some]
    cases hexec : k.execute env e.stale k.running (k.entryRegs e) command with
    | refused m k1 =>
      rw [hexec] at hstep
      cases hstep
      simp [newStart_same (execute_refused hexec).control.log]
    | started eip k1 =>
      rw [hexec] at hstep
      cases hstep
      exact right_user h hexec
    | faulted k0 =>
      obtain ⟨pid, hfree, hfault⟩ := execute_faulted hexec
      rw [hexec] at hstep
      exact right_halt h (hfault.kept hfree) (hfault.clearable h) hstep
  | halt e status =>
    simp only [step, h.1.curPcb e, Option.bind_some] at hstep
    exact right_halt h (Kept.refl k) (h.clearable env) hstep
  | tick e =>
    obtain ⟨lost, s', cur', hmove, _⟩ := h.step_inv hstep
    cases hmove with
    | stay kept => simp [startsOf, newStart_same kept.log]
    | map mapped => simp [startsOf, newStart, mapped.log]
    | exit ends => exact ends.elim
    | restart ends => exact ends.elim
    | tick onStack top cr3 esp0 switched => simp [startsOf, newStart, switched.log]
  | vidmap e screenStart =>
    simp only [step, h.1.curPcb e, Option.bind_some, callVidmap] at hstep
    rcases vidmap_ways env k.running screenStart.toNat k with hno | ⟨k1, hmap, hmapped⟩ | ⟨phys, hfault, _⟩
    · rw [hno] at hstep
      cases hstep
      simp [startsOf, newStart_same]
    · rw [hmap] at hstep
      cases hstep
      simp [startsOf, newStart, hmapped.log]
    · rw [hfault] at hstep
      exact right_halt h (Kept.of_phys k phys) (h.clearable env) hstep
  | switchTerminals term =>
    cases hstep
    simp [startsOf, newStart_same]

/-- The end of the root that runs, from a state that differs from `k` in memory only. -/
lemma Booting.right_halt (h : k.Booting) (phys : Mem) (hshell : ShellLoads env)
    (hhalt : (k.setPhys phys).halt env stale k.running r status = some k') :
    k'.Booting ∧ k'.running = k.running ∧ ∀ s ∈ k.newStart k' false file, s.Right := by
  have h0 : (k.setPhys phys).Booting := h.setVideo _
  obtain ⟨k'', hhalt'', hboot, hrun, hlog⟩ := h0.halt hshell stale r status
  have hsame : (k.setPhys phys).halt env stale k.running r status = some k'' := hhalt''
  rw [hhalt] at hsame
  cases hsame
  refine ⟨hboot, hrun, (right_root file (Or.inl hlog) h.le ?_).2⟩
  have hself := hboot.self
  rwa [hrun] at hself

/-- A step while the roots are being started. -/
lemma Booting.step (h : k.Booting) (hlt : k.running.val < 2) (hshell : ShellLoads env)
    (hi : ∀ e command, i = .execute e command → Fits env e.stale k command ∧ ¬ Starts env e.stale command)
    (hstep : k.step env i = some k') :
    k'.Booting ∧ (∀ s ∈ k.startsOf env k' i, s.Right) ∧
      (k'.running = k.running ∨ k'.running.val = k.running.val + 1 ∧
        ∃ s ∈ k.startsOf env k' i, s.byUser = false ∧ s.pid = k'.running) := by
  have hcur : ∀ e, curPcb (k.entryRegs e).esp = some k.running := fun e =>
    curPcb_of_onStack (entryRegs_onStack h.esp0)
  cases i with
  | execute e command =>
    obtain ⟨hfits, hnone⟩ := hi e command rfl
    simp only [Kernel.step, hcur e, Option.bind_some, callExecute] at hstep
    simp only [startsOf, hcur e, Option.map_some]
    cases hexec : k.execute env e.stale k.running (k.entryRegs e) command with
    | refused m k1 =>
      rw [hexec] at hstep
      cases hstep
      have hrefused := execute_refused hexec
      exact ⟨h.refused hrefused, by simp [newStart_same hrefused.control.log], Or.inl hrefused.control.running⟩
    | started eip k1 => exact absurd (execute_starts hexec) hnone
    | faulted k1 => exact absurd hexec (execute_fits hfits)
  | halt e status =>
    simp only [Kernel.step, hcur e, Option.bind_some] at hstep
    obtain ⟨hboot, hrun, hright⟩ := h.right_halt k.video.phys hshell hstep
    exact ⟨hboot, hright, Or.inl hrun⟩
  | tick e =>
    obtain ⟨k'', p, hstep'', hboot, hp, hrun, hlog⟩ := h.tick hlt hshell e
    rw [hstep] at hstep''
    cases hstep''
    have hself := hboot.self
    rw [hrun] at hself
    obtain ⟨hexists, hright⟩ := right_root (programOf env (some env.shell)) (Or.inr ⟨_, hlog⟩) (by omega) hself
    rw [hrun]
    exact ⟨hboot, hright, Or.inr ⟨hp, hexists⟩⟩
  | vidmap e screenStart =>
    simp only [Kernel.step, hcur e, Option.bind_some, callVidmap] at hstep
    rcases vidmap_ways env k.running screenStart.toNat k with hno | ⟨k1, hmap, hmapped⟩ | ⟨phys, hfault, _⟩
    · rw [hno] at hstep
      cases hstep
      exact ⟨h, by simp [startsOf, newStart_same], Or.inl rfl⟩
    · rw [hmap] at hstep
      cases hstep
      exact ⟨h.mapped hmapped, by simp [startsOf, newStart, hmapped.log], Or.inl hmapped.running⟩
    · rw [hfault] at hstep
      obtain ⟨hboot, hrun, hright⟩ := h.right_halt phys hshell hstep
      exact ⟨hboot, hright, Or.inl hrun⟩
  | switchTerminals term =>
    cases hstep
    exact ⟨h.setVideo _, by simp [startsOf, newStart_same], Or.inl rfl⟩

end Kernel

/-! ### Runs from boot -/

/-- The roots are being started, or are there. -/
def Kernel.Up (k : Kernel) : Prop := (k.Booting ∧ k.running.val < 2) ∨ ∃ s cur, k.Runs s cur

/-- The starts so far: all of them right, and one for each root that there is. -/
structure Boot.Started (b : Boot) : Prop where
  up : b.kernel.Up
  roots : ∀ t : TermId, t.val < b.kernel.shellsStarted → ∃ s ∈ b.starts, s.byUser = false ∧ s.pid = root t
  right : ∀ s ∈ b.starts, s.Right

/-- What holds in a patient run: nothing has happened, or everything as it should, or `entry` is lost. -/
def Boot.Inv (b : Boot) : Prop :=
  match b.phase with
  | .before => AtBoot b.kernel ∧ b.starts = []
  | .done => b.Started
  | .preempted => True

variable {env : Env} {b b' : Boot} {k k' : Kernel} {i : BootInput}

/-- With the third root started, they are all there. -/
lemma Kernel.Booting.up (h : k.Booting) : k.Up := by
  by_cases hlt : k.running.val < 2
  · exact Or.inl ⟨h, hlt⟩
  · obtain ⟨cur, hruns⟩ := (h.rootShells (by have := h.le; omega)).runs
    exact Or.inr ⟨rootStacks, cur, hruns⟩

/-- Once three shells are counted, the roots are there. -/
lemma Kernel.Up.runs (h : k.Up) (hshells : k.shellsStarted = 3) : ∃ s cur, k.Runs s cur := by
  rcases h with ⟨hboot, hlt⟩ | hruns
  · have := hboot.below.shells
    omega
  · exact hruns

/-- The call of `entry`. -/
lemma AtBoot.entry (h : AtBoot k) (hshell : ShellLoads env) {e : Entry} {starts : List Start}
    (hstep : Boot.callEntry env ⟨k, .before, starts⟩ e = some b') (hstarts : starts = []) :
    b'.phase = .done ∧ b'.Started := by
  subst hstarts
  obtain ⟨cur, _, hcall⟩ := Option.bind_eq_some_iff.mp hstep
  obtain ⟨eip, k', hexec, hboot, hlog, hrun⟩ := (Kernel.rootsBelow_zero h).execute_shell (by decide) (h.used 0)
    hshell e.stale cur (k.entryRegs e)
  simp only [hexec] at hcall
  cases hcall
  have hself := hboot.self
  rw [hrun] at hself
  obtain ⟨hexists, hright⟩ := Kernel.right_root (programOf env (some env.shell)) (Or.inl hlog) (by decide) hself
  refine ⟨rfl, hboot.up, fun t ht => ?_, by simpa using hright⟩
  have hcount := hboot.below.shells
  rw [hrun] at hcount
  have ht0 : t = 0 := by
    apply Fin.ext
    simp only at ht
    rw [hcount] at ht
    exact Nat.lt_one_iff.mp ht
  subst ht0
  obtain ⟨s, hs, hs'⟩ := hexists
  exact ⟨s, by simpa using hs, hs'⟩

/-- A step of the kernel while `entry` is done. -/
lemma Boot.Started.step (h : b.Started) (hshell : ShellLoads env) {i : Input}
    (hpatient : Patient env b (.call i)) (hstep : b.kernel.step env i = some k') :
    Boot.Started ⟨k', b.phase, b.kernel.startsOf env k' i ++ b.starts⟩ := by
  obtain ⟨hup, hroots, hright⟩ := h
  have hall : (∀ s ∈ b.kernel.startsOf env k' i, s.Right) →
      ∀ s ∈ b.kernel.startsOf env k' i ++ b.starts, s.Right := by
    intro hnew s hs
    rcases List.mem_append.mp hs with hs | hs
    · exact hnew s hs
    · exact hright s hs
  rcases hup with ⟨hboot, hlt⟩ | ⟨s, cur, hruns⟩
  · have hcount := hboot.below.shells
    have hi : ∀ e command, i = .execute e command →
        Fits env e.stale b.kernel command ∧ ¬ Starts env e.stale command := by
      rintro e command rfl
      exact (hpatient e command rfl).resolve_left (by omega)
    obtain ⟨hboot', hnew, hrun⟩ := hboot.step hlt hshell hi hstep
    have hcount' := hboot'.below.shells
    refine ⟨hboot'.up, fun t ht => ?_, hall hnew⟩
    simp only at ht
    rcases hrun with hrun | ⟨hrun, s, hs, huser, hpid⟩
    · obtain ⟨s, hs, hs'⟩ := hroots t (by rw [hrun] at hcount'; omega)
      exact ⟨s, List.mem_append_right _ hs, hs'⟩
    · by_cases hnext : t.val = k'.running.val
      · exact ⟨s, List.mem_append_left _ hs, huser, hpid.trans (Fin.ext hnext.symm)⟩
      · obtain ⟨s, hs, hs'⟩ := hroots t (by omega)
        exact ⟨s, List.mem_append_right _ hs, hs'⟩
  · have hthree := hruns.1.shells
    obtain ⟨lost, s', cur', _, hruns'⟩ := hruns.step_inv hstep
    refine ⟨Or.inr ⟨s', cur', hruns'⟩, fun t _ => ?_, hall (hruns.starts_right hstep)⟩
    obtain ⟨s, hs, hs'⟩ := hroots t (by omega)
    exact ⟨s, List.mem_append_right _ hs, hs'⟩

/-- Memory plays no part. -/
lemma Kernel.Up.setPhys (h : k.Up) (phys : Mem) : (k.setPhys phys).Up := by
  rcases h with ⟨hboot, hlt⟩ | ⟨s, cur, hruns⟩
  · exact Or.inl ⟨hboot.setVideo _, hlt⟩
  · exact Or.inr ⟨s, cur, (Kernel.Kept.of_phys k phys).shells_of hruns.1, hruns.2⟩

/-- A store changes memory only. -/
lemma Boot.step_store {off : Fin 0x400000} {v : UInt8} (h : b.step env (.store off v) = some b') :
    b.phase ≠ .before ∧ (b.kernel.storeUser env (userMemLocation + off) [v]).2 = true ∧
      b' = { b with kernel := (b.kernel.storeUser env (userMemLocation + off) [v]).1 } := by
  simp only [Boot.step] at h
  split at h
  · cases h
  next hphase =>
  split at h
  · next k' hstore =>
    cases h
    rw [hstore]
    exact ⟨hphase, rfl, rfl⟩
  · cases h

/-- Once a shell runs, a call is a step of the kernel. -/
lemma Boot.step_call {i : Input} (h : b.phase ≠ .before) : b.step env (.call i) = b.stepKernel env i b.phase :=
  if_neg h

/-- A patient step keeps the invariant. -/
lemma Boot.Inv.step (h : b.Inv) (hshell : ShellLoads env) (hpatient : Patient env b i)
    (hstep : b.step env i = some b') : b'.Inv := by
  obtain ⟨k, phase, starts⟩ := b
  cases i with
  | entry e =>
    cases phase with
    | before =>
      obtain ⟨hdone, hstarted⟩ := AtBoot.entry h.1 hshell hstep h.2
      rw [Boot.Inv, hdone]
      exact hstarted
    | done => cases hstep
    | preempted => cases hstep
  | call i =>
    cases phase with
    | before =>
      cases i with
      | tick e =>
        obtain ⟨k', _, rfl⟩ := Option.map_eq_some_iff.mp hstep
        trivial
      | switchTerminals term =>
        cases hstep
        obtain ⟨hboot, hnone⟩ := h
        refine ⟨⟨hboot.used, hboot.active, hboot.shells, hboot.esp0⟩, ?_⟩
        simp only at hnone
        simp [hnone, Kernel.startsOf, Kernel.newStart_same]
      | execute e command => cases hstep
      | halt e status => cases hstep
      | vidmap e screenStart => cases hstep
    | done =>
      obtain ⟨k', hk, rfl⟩ := Option.map_eq_some_iff.mp hstep
      exact Boot.Started.step h hshell hpatient hk
    | preempted =>
      obtain ⟨k', _, rfl⟩ := Option.map_eq_some_iff.mp hstep
      trivial
  | store off v =>
    obtain ⟨hphase, _, rfl⟩ := Boot.step_store hstep
    cases phase with
    | before => exact absurd rfl hphase
    | done => exact ⟨h.up.setPhys _, h.roots, h.right⟩
    | preempted => trivial

end Boss
