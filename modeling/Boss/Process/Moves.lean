import Boss.Process.Shells

/-!
# The kernel moves process stacks

Every step of the kernel, from a state that holds process stacks, is one of the moves of `Move`, and holds
stacks again: nothing happens to them, a program is pushed, the running one is popped or, being a root,
started again, or the processor goes to the top of another stack. This is `step_leads`; it also says that
no step gets stuck as long as root shells can be started. What each move does to the rest of the kernel is
part of it, so that the invariants of the process table need not look at the functions again.

A page fault inside `execute` or `vidmap` ends the running process as a `halt` would. By then `execute` has
taken a process number, which is never given back: it is the number `lost` of the move.
-/

namespace Boss
open Lib Lib.Paging

/-- An `execute` does not fault. -/
def Input.Fits (env : Env) (k : Kernel) : Input → Prop
  | .execute e command => Boss.Fits env e.stale k command
  | _ => True

/-- The bytes behind a pointer are mapped. -/
def Kernel.Writable (env : Env) (k : Kernel) (va n : Nat) : Prop :=
  ∀ i < n, ∃ t, walk (k.video.tables env.link) (k.directory env) ((va + i) % 0x100000000) = some t

/-- The running process does not survive the input: it halts, or a page fault makes it halt. -/
def Input.Ends (env : Env) (k : Kernel) : Input → Prop
  | .halt _ _ => True
  | .execute e command => ¬ Boss.Fits env e.stale k command
  | .vidmap _ screenStart => ¬ isKernelPtr screenStart.toNat ∧ ¬ k.Writable env screenStart.toNat 4
  | _ => False

namespace Kernel

/-- Nothing has happened to the processes in use; `lost` is a number taken in vain. -/
structure Kept (k k' : Kernel) (lost : Option Pid) : Prop where
  tables : SameTables k k'
  free : ∀ p, lost = some p → k.procIdUsed p = false
  used : ∀ p, k'.procIdUsed p = true ↔ k.procIdUsed p = true ∨ lost = some p
  active : k'.active = k.active
  pcb : ∀ p, k.procIdUsed p = true → k'.pcb p = k.pcb p
  dirs : ∀ p, lost ≠ some p → k'.procPageDirectory p = k.procPageDirectory p
  running : k'.running = k.running
  esp0 : k'.esp0 = k.esp0
  shells : k'.shellsStarted = k.shellsStarted
  log : k'.log = k.log

/-- What an input does to the stacks, and to the kernel behind them. -/
inductive Move (env : Env) (k : Kernel) (s : ProcStacks) (cur : TermId) :
    Input → Option Pid → Kernel → ProcStacks → TermId → Prop
  | stay {i : Input} {k' : Kernel} (kept : Kept k k' none) (cr3 : k'.cr3 = k.cr3) :
    Move env k s cur i none k' s cur
  | display (term : UInt8) :
    Move env k s cur (.switchTerminals term) none { k with video := k.video.switchTerminals term } s cur
  | map {i : Input} {k' : Kernel} (mapped : Mapped env k k' k.running) : Move env k s cur i none k' s cur
  | start {e : Entry} {command : Option Command} {k' : Kernel} {pid : Pid} {r : Regs}
    (starts : Starts env e.stale command) (free : freePid k.procIdUsed = some pid)
    (fresh : ¬ s.Mem pid) (started : Started env k k' pid k.running cur r)
    (onStack : OnStack k.running r.esp) :
    Move env k s cur (.execute e command) none k' (s.push cur pid fresh) cur
  | exit {i : Input} {k0 k1 k' : Kernel} {lost : Option Pid} {q : Pid} {rest : List Pid} {status : UInt8}
    (ends : i.Ends env k) (fits : i.Fits env k → lost = none) (kept : Kept k k0 lost)
    (stack : s.stack cur = k.running :: q :: rest)
    (released : Released k0 k1 k.running q) (cr3 : k'.cr3 = k1.cr3) (esp0 : k'.esp0 = k1.esp0)
    (switched : Switched k1 k' q (.haltLoaded k.running q (k1.saved q) status)) :
    Move env k s cur i lost k' (s.pop cur) cur
  | restart {i : Input} {k0 k1 k' : Kernel} {lost : Option Pid} {r : Regs}
    (ends : i.Ends env k) (fits : i.Fits env k → lost = none) (kept : Kept k k0 lost)
    (stack : s.stack cur = [k.running]) (released : Released k0 k1 k.running k.running)
    (started : Started env k1 k' k.running k.running cur r) : Move env k s cur i lost k' s cur
  | tick {e : Entry} {k' : Kernel} {p : Pid} {t : TermId} {r : Regs} (onStack : OnStack k.running r.esp)
    (top : s.Top t p) (cr3 : k'.cr3 = some p) (esp0 : k'.esp0 = stackTop p)
    (switched : Switched (k.saveContext k.running r) k' p
      (.schedLoaded p ((k.saveContext k.running r).saved p))) : Move env k s cur (.tick e) none k' s t

variable {env : Env} {stale : Mem} {k k' k0 k1 : Kernel} {s s' : ProcStacks} {cur cur' t : TermId}
  {pid q p : Pid} {r : Regs} {status : UInt8} {lost : Option Pid} {i : Input} {e : Entry}

/-- A process number in use is not lost. -/
lemma Kept.ne_lost (hk : Kept k k' lost) (hp : k.procIdUsed p = true) : lost ≠ some p := by
  intro hlost
  rw [hk.free p hlost] at hp
  cases hp

/-- The shells stay what they are. -/
lemma Kept.shells_of (hk : Kept k k' lost) (h : k.Shells s cur) : k'.Shells s cur :=
  h.keep (fun p hp => (hk.used p).mpr (Or.inl (h.used p hp))) hk.active
    (fun p hp => hk.pcb p (h.used p hp)) (fun p hp => by rw [hk.dirs p (hk.ne_lost (h.used p hp))])
    hk.running hk.esp0 hk.shells

/-- Nothing has happened. -/
lemma Kept.refl (k : Kernel) : Kept k k none :=
  ⟨⟨rfl, rfl, rfl⟩, fun _ h => (by cases h), fun _ => by simp, rfl, fun _ _ => rfl, fun _ _ => rfl, rfl, rfl,
    rfl, rfl⟩

/-- Memory is not part of it. -/
lemma Kept.of_phys (k : Kernel) (phys : Mem) : Kept k (k.setPhys phys) none :=
  ⟨⟨rfl, rfl, rfl⟩, fun _ h => (by cases h), fun _ => by simp [setPhys], rfl, fun _ _ => rfl, fun _ _ => rfl,
    rfl, rfl, rfl, rfl⟩

/-- A refused `execute` keeps everything. -/
lemma Refused.kept (h : Refused k k') : Kept k k' none :=
  ⟨h.tables, fun _ h => (by cases h), fun p => by simp [h.used], h.control.active, h.pcb,
    fun p _ => by rw [h.dirs], h.control.running, h.control.esp0, h.control.shells, h.control.log⟩

/-- An `execute` that faults loses the number it has taken. -/
lemma Faulted.kept (h : Faulted env k k' pid) (hfree : freePid k.procIdUsed = some pid) :
    Kept k k' (some pid) := by
  have hne : ∀ p, k.procIdUsed p = true → p ≠ pid := fun p => ne_of_used hfree
  refine ⟨h.tables, ?_, ?_, h.control.active, fun p hp => h.pcb p (hne p hp), ?_, h.control.running,
    h.control.esp0, h.control.shells, h.control.log⟩
  · rintro p hp
    cases hp
    exact (freePid_eq_some.mp hfree).1
  · intro p
    rw [h.used]
    by_cases hp : p = pid
    · simp [hp]
    · simp [Function.update_of_ne hp, Ne.symm hp]
  · intro p hp
    rcases h.paging with ⟨_, hd⟩ | ⟨_, hd⟩
    · rw [hd]
    · rw [hd, Function.update_of_ne fun e => hp (by rw [e])]

/-- A move keeps the kernel and the stacks in step. -/
theorem Move.runs (h : k.Runs s cur) (hm : Move env k s cur i lost k' s' cur') : k'.Runs s' cur' := by
  obtain ⟨hs, hcr3⟩ := h
  have hpid := hs.pid _ hs.running.mem
  cases hm with
  | stay kept cr3 => exact ⟨kept.shells_of hs, by rw [cr3, hcr3, kept.running]⟩
  | display term =>
    exact ⟨hs.keep hs.used rfl (fun _ _ => rfl) (fun _ _ => rfl) rfl rfl rfl, hcr3⟩
  | map mapped =>
    refine ⟨hs.keep (fun p hp => by rw [mapped.used, hs.used p hp]) mapped.active
      (fun p _ => by rw [mapped.pcb]) (fun p hp => ?_) mapped.running mapped.esp0 mapped.shells, ?_⟩
    · rw [mapped.dirs, hpid]
      by_cases hpr : p = k.running
      · subst hpr
        rw [Function.update_self, Function.update_of_ne (by decide)]
      · rw [Function.update_of_ne hpr]
    · rw [mapped.cr3, hpid, mapped.running]
  | start starts free fresh started onStack =>
    exact ⟨hs.push free started onStack, by rw [started.cr3, started.running]⟩
  | exit ends fits kept stack released cr3 esp0 switched =>
    have h0 := kept.shells_of hs
    rw [← kept.running] at stack released
    refine ⟨h0.pop stack released esp0 switched, ?_⟩
    rw [cr3, released.cr3, switched.running, h0.pid _ ⟨cur, by simp [stack]⟩]
  | restart ends fits kept stack released started =>
    have h0 := kept.shells_of hs
    rw [← kept.running] at stack released started
    exact ⟨h0.restart stack released started, by rw [started.cr3, started.running]⟩
  | tick onStack top cr3 esp0 switched =>
    obtain ⟨h1, hready⟩ := hs.save onStack
    exact ⟨h1.tick hready top switched esp0, by rw [cr3, switched.running]⟩

/-- The page that `halt` clears is mapped. -/
def Clearable (env : Env) (k : Kernel) : Prop :=
  present (k.directory env (userMemLocation / 0x400000)) = true ∧
    large (k.directory env (userMemLocation / 0x400000)) = true

/-- A frame that is mapped can be cleared. -/
lemma clearable_of_frame (h : k.directory env (userMemLocation / 0x400000) = frameEntry p) :
    Clearable env k := by
  obtain ⟨hp, hl, _⟩ := frameEntry_spec p
  exact ⟨by rw [h, hp], by rw [h, hl]⟩

/-- The frame of the running process can be cleared. -/
lemma Runs.clearable (env : Env) (h : k.Runs s cur) : Clearable env k := by
  refine clearable_of_frame (p := k.running) ?_
  simp only [directory, h.2]
  exact h.1.frame _ h.1.running.mem

/-- When `execute` faults, it has loaded either nothing or the directory of the new process. -/
lemma Faulted.clearable (h : Faulted env k k' pid) (hruns : k.Runs s cur) : Clearable env k' := by
  rcases h.paging with ⟨hcr3, hdirs⟩ | ⟨hcr3, hdirs⟩
  · have hdir : k'.directory env = k.directory env := by
      unfold directory
      rw [hcr3, hdirs]
    rw [Clearable, hdir]
    exact hruns.clearable env
  · refine clearable_of_frame (p := pid) ?_
    simp only [directory, hcr3, hdirs, Function.update_self, programDir_frame]

/-- `halt` of a program resumes the one below it. -/
lemma halt_pops {rest : List Pid} (stale : Mem) (r : Regs) (status : UInt8) (h : k.Runs s cur)
    (hkept : Kept k k0 lost) (hclear : Clearable env k0) (hstack : s.stack cur = k.running :: q :: rest) :
    ∃ k1 k', k0.halt env stale k.running r status = some k' ∧ Released k0 k1 k.running q ∧
      k'.cr3 = k1.cr3 ∧ k'.esp0 = k1.esp0 ∧
      Switched k1 k' q (.haltLoaded k.running q (k1.saved q) status) := by
  have h0 := hkept.shells_of h.1
  have hmem := h.1.running.mem
  have hchain := h0.chain cur
  rw [hstack] at hchain
  have hwaits := (List.isChain_cons_cons.mp hchain).1
  obtain ⟨k1, hrel, heq⟩ := halt_eq stale r status hclear.1 hclear.2 hwaits.parent (h0.files _ hmem)
  have hqr : q ≠ k.running := by
    have hnodup := s.nodup cur
    rw [hstack, List.nodup_cons] at hnodup
    rintro rfl
    exact hnodup.1 (List.mem_cons_self ..)
  obtain ⟨fd, hfd⟩ := hrel.self
  have hq : k1.pcb q = k0.pcb q := hrel.others q hqr
  have hne : (k1.pcb k.running).pid ≠ (k1.pcb q).pid := by
    rw [hfd, hq, h0.pid q ⟨cur, by simp [hstack]⟩]
    exact fun e => hqr (e.symm.trans (h0.pid _ hmem))
  have hparent : (k1.pcb k.running).parent = some q := by
    rw [hfd]
    exact hwaits.parent
  have hesp : OnStack q (k1.pcb q).esp := by
    rw [hq]
    exact hwaits.esp
  obtain ⟨k', hres, hcr3, hesp0, hsw⟩ := resumeParent_eq status hparent hesp
  refine ⟨k1, k', ?_, hrel, hcr3, hesp0, hsw⟩
  rw [heq, leave, if_neg hne, hres]

/-- A process that was not started has a zeroed PCB, without a stack pointer to go back to. -/
lemma resumeParent_refused {c : Command} {m : String} (hfree : freePid k.procIdUsed = some p)
    (h : k.execute env stale q r (some c) = .refused m k') : k'.resumeParent p status = none := by
  obtain ⟨text, hblank⟩ := execute_refused_blank hfree h
  have hzero : curPcb 0 = none := by decide
  simp only [resumeParent, hblank, blankPcb]
  split
  · rw [Option.bind_some, hblank]
    exact congrArg (Option.map _) hzero
  · rfl

/-- `halt` of a root shell starts it again; the machine does not survive it when that fails. -/
lemma halt_restarts (stale : Mem) (r : Regs) (status : UInt8) (h : k.Runs s cur) (hkept : Kept k k0 lost)
    (hclear : Clearable env k0) (hstack : s.stack cur = [k.running]) :
    (∀ k', k0.halt env stale k.running r status = some k' → ∃ k1, Released k0 k1 k.running k.running ∧
        Started env k1 k' k.running k.running cur r) ∧
      (ShellLoads env → ∃ k', k0.halt env stale k.running r status = some k') := by
  have h0 := hkept.shells_of h.1
  have hmem := h.1.running.mem
  have hroot : k.running = root cur := h.1.running_root hstack
  have hparent : (k0.pcb k.running).parent = some k.running := by
    rw [hroot]
    exact h0.roots cur
  obtain ⟨k1, hrel, heq⟩ := halt_eq stale r status hclear.1 hclear.2 hparent (h0.files _ hmem)
  have hle : k.running.val ≤ 2 := by
    rw [hroot]
    exact Nat.le_of_lt_succ cur.isLt
  have hfree : freePid k1.procIdUsed = some k.running := by
    rw [freePid_eq_some, hrel.used, h0.pid _ hmem]
    refine ⟨Function.update_self .., fun p hp => ?_⟩
    have hp' : p.val < k.running.val := hp
    rw [Function.update_of_ne (Fin.ne_of_lt hp)]
    exact h0.used p ⟨⟨p.val, by omega⟩, h0.mem_root ⟨p.val, by omega⟩⟩
  have ht : k1.terminalOf k.running k.running = cur := by
    unfold terminalOf
    rw [dif_pos hle]
    apply Fin.ext
    simp only [hroot, root]
  rw [heq, leave, if_pos rfl]
  refine ⟨fun k' hk' => ?_, fun hshell => ?_⟩
  · cases hexec : k1.execute env stale k.running r (some env.shell) with
    | started eip k2 =>
      rw [hexec] at hk'
      cases hk'
      obtain ⟨pid, hpid, hstart⟩ := execute_started hexec
      rw [hfree] at hpid
      cases hpid
      rw [parentOf, if_pos hle, ht] at hstart
      exact ⟨k1, hrel, hstart⟩
    | refused m k2 =>
      rw [hexec] at hk'
      exact absurd (hk'.symm.trans (resumeParent_refused hfree hexec)) (by simp)
    | faulted k2 =>
      rw [hexec] at hk'
      cases hk'
  · obtain ⟨eip, k', hexec⟩ := execute_shell stale k.running r hshell hfree
    exact ⟨k', by rw [hexec]⟩

/-- A result of the input `i`: it is a move, and there is one when the shell can be started. -/
structure Leads (env : Env) (k : Kernel) (s : ProcStacks) (cur : TermId) (i : Input) (o : Option Kernel) :
    Prop where
  move : ∀ k', o = some k' → ∃ lost s' cur', Move env k s cur i lost k' s' cur'
  total : ShellLoads env → ∃ k', o = some k'

/-- A move is a step that leads on. -/
lemma Leads.of_move (hm : Move env k s cur i lost k' s' cur') : Leads env k s cur i (some k') where
  move k'' h := by
    cases h
    exact ⟨lost, s', cur', hm⟩
  total _ := ⟨k', rfl⟩

/-- `halt` by the running process is a move. -/
lemma halt_leads (stale : Mem) (r : Regs) (status : UInt8) (h : k.Runs s cur)
    (hends : i.Ends env k) (hfits : i.Fits env k → lost = none) (hkept : Kept k k0 lost)
    (hclear : Clearable env k0) : Leads env k s cur i (k0.halt env stale k.running r status) := by
  obtain ⟨rest, hstack⟩ := List.head?_eq_some_iff.mp h.1.running
  cases rest with
  | nil =>
    obtain ⟨hstarts, htotal⟩ := halt_restarts stale r status h hkept hclear hstack
    refine ⟨fun k' hk' => ?_, htotal⟩
    obtain ⟨k1, hrel, hstart⟩ := hstarts k' hk'
    exact ⟨lost, s, cur, .restart hends hfits hkept hstack hrel hstart⟩
  | cons q rest =>
    obtain ⟨k1, k', hhalt, hrel, hcr3, hesp0, hsw⟩ := halt_pops stale r status h hkept hclear hstack
    rw [hhalt]
    exact .of_move (.exit hends hfits hkept hstack hrel hcr3 hesp0 hsw)

/-- A call of `execute` by the running process is a move. -/
lemma execute_leads (e : Entry) (command : Option Command) (h : k.Runs s cur) :
    Leads env k s cur (.execute e command) (k.callExecute env e k.running command) := by
  have hr : OnStack k.running (k.entryRegs e).esp := entryRegs_onStack h.1.esp0
  unfold callExecute
  cases hexec : k.execute env e.stale k.running (k.entryRegs e) command with
  | refused m k' =>
    have hrefused := execute_refused hexec
    exact .of_move (.stay hrefused.kept hrefused.cr3)
  | started eip k' =>
    obtain ⟨pid, hfree, hstart⟩ := execute_started hexec
    have hgt : ¬ pid.val ≤ 2 := Nat.not_le.mpr (h.1.lt_free hfree)
    rw [parentOf, if_neg hgt, terminalOf, dif_neg hgt,
      h.1.terminal cur _ h.1.running.mem_stack] at hstart
    exact .of_move (.start (execute_starts hexec) hfree (h.1.fresh hfree) hstart hr)
  | faulted k0 =>
    obtain ⟨pid, hfree, hfault⟩ := execute_faulted hexec
    have hends : ¬ Fits env e.stale k command := fun hfits => execute_fits hfits hexec
    exact halt_leads e.stale (k.entryRegs e) 0xFF h hends (fun hfits => absurd hfits hends)
      (hfault.kept hfree) (hfault.clearable h)

/-- A call of `vidmap` by the running process is a move. -/
lemma vidmap_leads (e : Entry) (screenStart : UInt32) (h : k.Runs s cur) :
    Leads env k s cur (.vidmap e screenStart) (k.callVidmap env e k.running screenStart) := by
  unfold callVidmap
  rcases vidmap_ways env k.running screenStart.toNat k with
    hno | ⟨k', hmap, hmapped⟩ | ⟨phys, hfault, hptr, hstore⟩
  · rw [hno]
    exact .of_move (.stay (Kept.refl k) rfl)
  · rw [hmap]
    exact .of_move (.map hmapped)
  · rw [hfault]
    have hends : Input.Ends env k (.vidmap e screenStart) := by
      refine ⟨by simp [hptr], fun hwrite => ?_⟩
      rw [storeBytes_mapped fun i hi => ?_] at hstore
      · cases hstore
      · exact hwrite i (Nat.lt_of_lt_of_le hi (vidmapStore_length _))
    exact halt_leads e.stale (k.entryRegs e) 0xFF h hends (fun _ => rfl) (Kept.of_phys k phys)
      (h.clearable env)

/-- A tick gives the processor to the next active process, which is on top of a stack. -/
lemma Runs.tick_eq (env : Env) (h : k.Runs s cur) (e : Entry) : ∃ p t k', k.step env (.tick e) = some k' ∧
    getNextProc (k.saveContext k.running (k.entryRegs e)).active 6 k.running = some p ∧ s.Top t p ∧
    k'.cr3 = some p ∧ k'.esp0 = stackTop p ∧ Switched (k.saveContext k.running (k.entryRegs e)) k' p
      (.schedLoaded p ((k.saveContext k.running (k.entryRegs e)).saved p)) := by
  obtain ⟨h1, hready⟩ := h.1.save (entryRegs_onStack h.1.esp0 : OnStack k.running (k.entryRegs e).esp)
  have hact : (k.saveContext k.running (k.entryRegs e)).active k.running = true :=
    (h1.active _).mpr ⟨cur, h1.running⟩
  obtain ⟨p, hnext, hp⟩ := getNextProc_some hact
  obtain ⟨t, htop⟩ := (h1.active p).mp hp
  obtain ⟨k', hsw, hcr3, hesp0, hswitched⟩ := switchProcess_eq hnext (hready t p htop)
  refine ⟨p, t, k', ?_, hnext, htop, hcr3, hesp0, hswitched⟩
  simp only [step, h.1.curPcb e, Option.bind_some]
  rw [sched_eq h.1.shells, h.1.pid _ h.1.running.mem, hsw]

/-- Every step moves the stacks. -/
theorem step_leads (h : k.Runs s cur) (i : Input) : Leads env k s cur i (k.step env i) := by
  cases i with
  | execute e command =>
    simp only [step, h.1.curPcb e, Option.bind_some]
    exact execute_leads e command h
  | halt e status =>
    simp only [step, h.1.curPcb e, Option.bind_some]
    exact halt_leads e.stale (k.entryRegs e) status h trivial (fun _ => rfl) (Kept.refl k) (h.clearable env)
  | tick e =>
    obtain ⟨p, t, k', htick, -, htop, hcr3, hesp0, hswitched⟩ := h.tick_eq env e
    rw [htick]
    exact .of_move (.tick (entryRegs_onStack h.1.esp0) htop hcr3 hesp0 hswitched)
  | vidmap e screenStart =>
    simp only [step, h.1.curPcb e, Option.bind_some]
    exact vidmap_leads e screenStart h
  | switchTerminals term => exact .of_move (.display term)

/-- What a step can have done. -/
theorem Runs.step_inv (h : k.Runs s cur) (hstep : k.step env i = some k') :
    ∃ lost s' cur', Move env k s cur i lost k' s' cur' ∧ k'.Runs s' cur' := by
  obtain ⟨lost, s', cur', hmove⟩ := (step_leads h i).move k' hstep
  exact ⟨lost, s', cur', hmove, hmove.runs h⟩

end Kernel

end Boss
