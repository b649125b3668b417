import Boss.Process.Moves

/-!
# `halt`, one statement at a time

The system call gate leaves interrupts on and `halt` never turns them off, so a tick can come between any two
of its statements. `haltSystem` runs `halt` by single statements (`Kernel.haltStmt`), with ticks in between
that run `sched` and let other processes have the processor. `halt_without_ticks` says that without ticks this
is `Kernel.halt`. `Advanced` and `Ticked` are all that a statement and a tick do; what they do to a run of
`halt` is the subject of `Boss.Process.HaltTicks`.
-/

namespace Boss
open Lib Lib.Paging

/-- The statements of `halt`. -/
inductive Stmt
  | memset
  | loadDirectory
  | close (i : Fin 8)
  | clearUsed
  | clearActive
  | setActive
  | setEsp0
  | setSs0
  | restart
  | loadStack
  | jump
  deriving DecidableEq

/-- Where a process goes on: before a statement of `halt`, back in user mode at the end of the jump, or
somewhere outside `halt`. -/
inductive Point
  | elsewhere
  | halting (st : Stmt)
  | returned
  deriving DecidableEq

namespace Kernel

/-- The registers of a process that is interrupted in the kernel. -/
def kernelRegs (k : Kernel) (e : Entry) : Regs := ⟨stackTop k.running - e.depth, e.ebp⟩

/-- One statement of `halt` by the running process. -/
def haltStmt (env : Env) (e : Entry) (status : UInt8) (k : Kernel) : Stmt → Option (Kernel × Point)
  | .memset => (k.clearUser env).map (·, .halting .loadDirectory)
  | .loadDirectory =>
    (k.pcb k.running).parent.map fun q => (k.loadPageDirectory (k.pcb q).pid, .halting (.close 0))
  | .close i =>
    (sysClose (k.pcb k.running).fd i.val).map fun (_, fd) =>
      (k.setPcb k.running fun pcb => { pcb with fd },
        .halting (if h : i.val + 1 < 8 then .close ⟨i.val + 1, h⟩ else .clearUsed))
  | .clearUsed => some (k.setUsed (k.pcb k.running).pid false, .halting .clearActive)
  | .clearActive => some (k.setActive (k.pcb k.running).pid false, .halting .setActive)
  | .setActive =>
    (k.pcb k.running).parent.map fun q => (k.setActive (k.pcb q).pid true, .halting .setEsp0)
  | .setEsp0 => (k.pcb k.running).parent.map fun q => ({ k with esp0 := (k.pcb q).esp0 }, .halting .setSs0)
  | .setSs0 => (k.pcb k.running).parent.map fun q => ({ k with ss0 := (k.pcb q).ss0 }, .halting .restart)
  | .restart =>
    (k.pcb k.running).parent.bind fun q =>
      if (k.pcb k.running).pid = (k.pcb q).pid then
        match k.execute env e.stale k.running (k.kernelRegs e) (some env.shell) with
        | .started _ k => some (k, .elsewhere)
        | .refused _ k => some (k, .halting .loadStack)
        | .faulted _ => none
      else some (k, .halting .loadStack)
  | .loadStack => (k.resumeParent k.running status).map (·, .halting .jump)
  | .jump => some (k, .returned)

end Kernel

/-- The kernel while a process halts: where the running process goes on, where the others will, and where
the processes were that took a tick. -/
structure HaltRun where
  kernel : Kernel
  point : Point
  saved : Pid → Point
  ticks : List Point

/-- The running process takes its next statement of `halt`, or a timer tick. -/
inductive HaltInput
  | next (e : Entry)
  | tick (e : Entry)

namespace HaltRun

/-- `halt` has been called. -/
def enter (k : Kernel) : HaltRun :=
  ⟨k, .halting .memset, Function.update (fun _ => .elsewhere) k.running (.halting .memset), []⟩

/-- One statement or one tick. -/
def step (env : Env) (status : UInt8) (h : HaltRun) : HaltInput → Option HaltRun
  | .next e =>
    match h.point with
    | .halting st =>
      (h.kernel.haltStmt env e status st).map fun (kernel, point) => { h with kernel, point }
    | _ => none
  | .tick e =>
    if h.point = .returned then none
    else
      let saved := Function.update h.saved h.kernel.running h.point
      (h.kernel.sched env e.stale h.kernel.running (h.kernel.kernelRegs e)).map fun kernel =>
        { kernel, point := saved kernel.running, saved, ticks := h.point :: h.ticks }

end HaltRun

/-- A process halts. -/
def haltSystem (env : Env) (status : UInt8) : System HaltRun HaltInput := ⟨HaltRun.step env status⟩

/-- The next statement. -/
def Stmt.after : Stmt → Stmt
  | .memset => .loadDirectory
  | .loadDirectory => .close 0
  | .close i => if h : i.val + 1 < 8 then .close ⟨i.val + 1, h⟩ else .clearUsed
  | .clearUsed => .clearActive
  | .clearActive => .setActive
  | .setActive => .setEsp0
  | .setEsp0 => .setSs0
  | .setSs0 => .restart
  | .restart => .loadStack
  | .loadStack | .jump => .jump

namespace Kernel
variable {env : Env} {stale : Mem} {k k' : Kernel} {s : ProcStacks} {p q x : Pid} {r : Regs} {e : Entry}
  {status : UInt8}

/-- What neither `halt` of `p` nor a tick changes. -/
structure Halts (k : Kernel) (s : ProcStacks) (p q : Pid) : Prop where
  pid : ∀ x, s.Mem x → (k.pcb x).pid = x
  parent : (k.pcb p).parent = some q
  esp0 : (k.pcb q).esp0 = stackTop q
  shells : ¬ k.shellsStarted < 3
  mem : ∀ x, k.active x = true → s.Mem x
  running : s.Mem k.running
  ready : ∀ x, k.active x = true ∨ x = q → x ≠ k.running → OnStack x (k.pcb x).esp

/-- `halt` is called with a parent that waits. -/
lemma Shells.halts {cur : TermId} (h : k.Shells s cur) (hparent : (k.pcb k.running).parent = some q)
    (hne : q ≠ k.running) : s.Mem q ∧ k.Halts s k.running q := by
  obtain ⟨rest, hstack⟩ : ∃ rest, s.stack cur = k.running :: rest := List.head?_eq_some_iff.mp h.running
  have hchain := h.chain cur
  rw [hstack] at hchain
  cases rest with
  | nil =>
    have hroot := h.roots cur
    rw [← h.running_root hstack, hparent] at hroot
    exact absurd (Option.some.inj hroot) hne
  | cons q' rest =>
    obtain ⟨hq', hesp0, hesp⟩ := (List.isChain_cons_cons.mp hchain).1
    cases hparent.symm.trans hq'
    have hmem : s.Mem q := ⟨cur, by rw [hstack]; exact List.mem_cons_of_mem _ List.mem_cons_self⟩
    refine ⟨hmem, h.pid, hparent, hesp0, h.shells, fun x hx => ?_, h.running.mem, fun x hx hxr => ?_⟩
    · obtain ⟨t, ht⟩ := (h.active x).mp hx
      exact ht.mem
    · rcases hx with hx | rfl
      · obtain ⟨t, ht⟩ := (h.active x).mp hx
        refine h.ready t x ?_ ht
        rintro rfl
        exact hxr (Option.some.inj (ht.symm.trans h.running))
      · exact hesp

/-- The kernel is on the stack of the running process. -/
lemma kernelRegs_onStack (k : Kernel) (e : Entry) : OnStack k.running (k.kernelRegs e).esp :=
  entryRegs_onStack (k := { k with esp0 := stackTop k.running }) rfl

/-- A tick: the process that took it is saved and active, and an active process has the processor. -/
structure Ticked (k k' : Kernel) (x : Pid) : Prop where
  used : k'.procIdUsed = k.procIdUsed
  active : k'.active = Function.update k.active k.running true
  next : k'.active x = true
  running : k'.running = x
  cr3 : k'.cr3 = some x
  esp0 : k'.esp0 = stackTop x
  shells : k'.shellsStarted = k.shellsStarted
  self : ∃ r : Regs, OnStack k.running r.esp ∧
    k'.pcb k.running = { k.pcb k.running with esp := r.esp, ebp := r.ebp }
  others : ∀ y, y ≠ k.running → k'.pcb y = k.pcb y

/-- A tick makes no other process active. -/
lemma Ticked.was_active (ht : Ticked k k' x) {y : Pid} (hy : k'.active y = true) :
    k.active y = true ∨ y = k.running := by
  rw [ht.active] at hy
  by_cases hyr : y = k.running
  · exact Or.inr hyr
  · rw [Function.update_of_ne hyr] at hy
    exact Or.inl hy

/-- A process that took the tick, or that could be resumed before, can be resumed after it. -/
lemma Ticked.onStack (ht : Ticked k k' x) {y : Pid} (hy : y ≠ k.running → OnStack y (k.pcb y).esp) :
    OnStack y (k'.pcb y).esp := by
  by_cases hyr : y = k.running
  · obtain ⟨r, hr, hself⟩ := ht.self
    rw [hyr, hself]
    exact hr
  · rw [ht.others y hyr]
    exact hy hyr

/-- A tick keeps the links between the processes. -/
lemma Ticked.keeps (ht : Ticked k k' x) (y : Pid) : (k'.pcb y).pid = (k.pcb y).pid ∧
    (k'.pcb y).parent = (k.pcb y).parent ∧ (k'.pcb y).esp0 = (k.pcb y).esp0 := by
  by_cases hyr : y = k.running
  · obtain ⟨r, _, hself⟩ := ht.self
    rw [hyr, hself]
    exact ⟨rfl, rfl, rfl⟩
  · rw [ht.others y hyr]
    exact ⟨rfl, rfl, rfl⟩

/-- What `sched` does while a process halts. -/
lemma Halts.ticked (h : k.Halts s p q) (hstep : k.sched env stale k.running (k.kernelRegs e) = some k') :
    ∃ x, Ticked k k' x := by
  have hon := kernelRegs_onStack k e
  have hpid := h.pid _ h.running
  rw [sched_eq h.shells, hpid] at hstep
  have hactive : (k.saveContext k.running (k.kernelRegs e)).active = Function.update k.active k.running true :=
    congrArg (Function.update k.active · true) hpid
  have hrun : (k.saveContext k.running (k.kernelRegs e)).active k.running = true := by
    rw [hactive, Function.update_self]
  obtain ⟨x, hnext, hx⟩ := getNextProc_some hrun
  have hself : (k.saveContext k.running (k.kernelRegs e)).pcb k.running =
      { k.pcb k.running with esp := (k.kernelRegs e).esp, ebp := (k.kernelRegs e).ebp } :=
    Function.update_self ..
  have hothers : ∀ y, y ≠ k.running → (k.saveContext k.running (k.kernelRegs e)).pcb y = k.pcb y :=
    fun y hy => Function.update_of_ne hy ..
  have hesp : OnStack x ((k.saveContext k.running (k.kernelRegs e)).pcb x).esp := by
    by_cases hxr : x = k.running
    · rw [hxr, hself]
      exact hon
    · rw [hactive, Function.update_of_ne hxr] at hx
      rw [hothers x hxr]
      exact h.ready x (Or.inl hx) hxr
  obtain ⟨k'', hk'', hcr3, hesp0, hsw⟩ := switchProcess_eq hnext hesp
  rw [hk''] at hstep
  cases hstep
  refine ⟨x, hsw.used, hsw.active.trans hactive, by rw [hsw.active, hx], hsw.running, hcr3, hesp0, hsw.shells,
    ⟨k.kernelRegs e, hon, by rw [hsw.pcb, hself]⟩, fun y hy => by rw [hsw.pcb, hothers y hy]⟩

/-- Ticks leave everything in place that `halt` needs. -/
lemma Halts.tick (h : k.Halts s p q) (ht : Ticked k k' x) : k'.Halts s p q where
  pid y hy := by rw [(ht.keeps y).1, h.pid y hy]
  parent := by rw [(ht.keeps p).2.1, h.parent]
  esp0 := by rw [(ht.keeps q).2.2, h.esp0]
  shells := by
    rw [ht.shells]
    exact h.shells
  mem y hy := by
    rcases ht.was_active hy with hy | rfl
    · exact h.mem y hy
    · exact h.running
  running := by
    rw [ht.running]
    rcases ht.was_active ht.next with hx | rfl
    · exact h.mem x hx
    · exact h.running
  ready y hy _ := by
    refine ht.onStack fun hyr => ?_
    rcases hy with hy | hy
    · exact h.ready y (Or.inl ((ht.was_active hy).resolve_right hyr)) hyr
    · exact h.ready y (Or.inr hy) hyr

/-- What the statement `st` of `halt` by `p` does. -/
structure Advanced (k k' : Kernel) (p q : Pid) (st : Stmt) : Prop where
  used : k'.procIdUsed p = if st = .clearUsed then false else k.procIdUsed p
  active : k'.active p = if st = .clearActive then false else k.active p
  cr3 : k'.cr3 = if st = .loadDirectory then some q else k.cr3
  esp0 : k'.esp0 = if st = .setEsp0 then stackTop q else k.esp0
  running : k'.running = if st = .loadStack then q else p
  esp : (k'.pcb p).esp = (k.pcb p).esp

/-- A statement that leaves the processor and the links between the processes alone. -/
lemma Halts.of_control (h : k.Halts s p q) (hrunning : k'.running = k.running)
    (hshells : k'.shellsStarted = k.shellsStarted)
    (hactive : ∀ x, k'.active x = true → k.active x = true ∨ x = q ∧ s.Mem q)
    (hpcb : ∀ x, (k'.pcb x).pid = (k.pcb x).pid ∧ (k'.pcb x).parent = (k.pcb x).parent ∧
      (k'.pcb x).esp0 = (k.pcb x).esp0 ∧ (k'.pcb x).esp = (k.pcb x).esp) : k'.Halts s p q where
  pid x hx := by rw [(hpcb x).1, h.pid x hx]
  parent := by rw [(hpcb p).2.1, h.parent]
  esp0 := by rw [(hpcb q).2.2.1, h.esp0]
  shells := by
    rw [hshells]
    exact h.shells
  mem x hx := by
    rcases hactive x hx with hx | ⟨rfl, hq⟩
    · exact h.mem x hx
    · exact hq
  running := by
    rw [hrunning]
    exact h.running
  ready x hx hne := by
    rw [hrunning] at hne
    rw [(hpcb x).2.2.2]
    refine h.ready x ?_ hne
    rcases hx with hx | hx
    · rcases hactive x hx with hx | ⟨hx, _⟩
      · exact Or.inl hx
      · exact Or.inr hx
    · exact Or.inr hx

/-- Clearing the frame changes memory only. -/
lemma clearUser_phys (h : k.clearUser env = some k') : ∃ phys, k' = k.setPhys phys := by
  simp only [clearUser, Option.ite_none_right_eq_some, Option.some.injEq] at h
  exact ⟨_, h.2.symm⟩

/-- A statement that none of this depends on. -/
lemma Halts.of_same (h : k.Halts s p q) (hrunning : k'.running = k.running)
    (hshells : k'.shellsStarted = k.shellsStarted) (hactive : k'.active = k.active) (hpcb : k'.pcb = k.pcb) :
    k'.Halts s p q := by
  refine h.of_control hrunning hshells (fun x hx => Or.inl ?_) fun x => ?_
  · rwa [hactive] at hx
  · rw [hpcb]
    exact ⟨rfl, rfl, rfl, rfl⟩

/-- The parent runs: now the process that halts may be the one that waits. -/
lemma Halts.switched {ev : ContextEvent} (h : k.Halts s k.running q) (hq : s.Mem q)
    (hready : k.active k.running = true → OnStack k.running (k.pcb k.running).esp) (hsw : Switched k k' q ev) :
    k'.Halts s k.running q where
  pid := by
    rw [hsw.pcb]
    exact h.pid
  parent := by rw [hsw.pcb, h.parent]
  esp0 := by rw [hsw.pcb, h.esp0]
  shells := by
    rw [hsw.shells]
    exact h.shells
  mem := by
    rw [hsw.active]
    exact h.mem
  running := by
    rw [hsw.running]
    exact hq
  ready x hx hxq := by
    rw [hsw.running] at hxq
    rw [hsw.active] at hx
    rw [hsw.pcb]
    have hx := hx.resolve_right hxq
    by_cases hxp : x = k.running
    · subst hxp
      exact hready hx
    · exact h.ready x (Or.inl hx) hxp

/-- Every statement of `halt` but the jump goes on to the next one. -/
lemma Halts.advanced {st : Stmt} {pt : Point} (h : k.Halts s p q) (hrun : k.running = p) (hq : s.Mem q)
    (hne : q ≠ p) (hst : st ≠ .jump)
    (hready : st = .loadStack → k.active p = true → OnStack p (k.pcb p).esp)
    (hstep : k.haltStmt env e status st = some (k', pt)) :
    pt = .halting st.after ∧ Advanced k k' p q st ∧ k'.Halts s p q := by
  subst hrun
  have hpp := h.pid _ h.running
  have hpq := h.pid q hq
  cases st with
  | memset =>
    simp only [haltStmt, Option.map_eq_some_iff] at hstep
    obtain ⟨k1, hclear, hk⟩ := hstep
    obtain ⟨phys, rfl⟩ := clearUser_phys hclear
    cases hk
    exact ⟨rfl, ⟨rfl, rfl, rfl, rfl, rfl, rfl⟩, h.of_same rfl rfl rfl rfl⟩
  | loadDirectory =>
    simp only [haltStmt, h.parent, Option.map_some, hpq] at hstep
    cases hstep
    exact ⟨rfl, ⟨rfl, rfl, rfl, rfl, rfl, rfl⟩, h.of_same rfl rfl rfl rfl⟩
  | close i =>
    simp only [haltStmt, Option.map_eq_some_iff] at hstep
    obtain ⟨⟨ret, fd⟩, _, hk⟩ := hstep
    cases hk
    refine ⟨rfl, ⟨rfl, rfl, rfl, rfl, rfl, by simp only [setPcb, Function.update_self]⟩,
      h.of_control rfl rfl (fun x hx => Or.inl hx) fun x => ?_⟩
    simp only [setPcb]
    by_cases hx : x = k.running
    · rw [hx, Function.update_self]
      exact ⟨rfl, rfl, rfl, rfl⟩
    · rw [Function.update_of_ne hx]
      exact ⟨rfl, rfl, rfl, rfl⟩
  | clearUsed =>
    simp only [haltStmt, hpp] at hstep
    cases hstep
    exact ⟨rfl, ⟨Function.update_self .., rfl, rfl, rfl, rfl, rfl⟩, h.of_same rfl rfl rfl rfl⟩
  | clearActive =>
    simp only [haltStmt, hpp] at hstep
    cases hstep
    refine ⟨rfl, ⟨rfl, Function.update_self .., rfl, rfl, rfl, rfl⟩,
      h.of_control rfl rfl (fun x hx => Or.inl ?_) fun x => ⟨rfl, rfl, rfl, rfl⟩⟩
    simp only [setActive] at hx
    by_cases hxp : x = k.running
    · rw [hxp, Function.update_self] at hx
      cases hx
    · rwa [Function.update_of_ne hxp] at hx
  | setActive =>
    simp only [haltStmt, h.parent, Option.map_some, hpq] at hstep
    cases hstep
    refine ⟨rfl, ⟨rfl, Function.update_of_ne hne.symm .., rfl, rfl, rfl, rfl⟩,
      h.of_control rfl rfl (fun x hx => ?_) fun x => ⟨rfl, rfl, rfl, rfl⟩⟩
    by_cases hxq : x = q
    · exact Or.inr ⟨hxq, hq⟩
    · simp only [setActive] at hx
      rw [Function.update_of_ne hxq] at hx
      exact Or.inl hx
  | setEsp0 =>
    simp only [haltStmt, h.parent, Option.map_some, h.esp0] at hstep
    cases hstep
    exact ⟨rfl, ⟨rfl, rfl, rfl, rfl, rfl, rfl⟩, h.of_same rfl rfl rfl rfl⟩
  | setSs0 =>
    simp only [haltStmt, h.parent, Option.map_some] at hstep
    cases hstep
    exact ⟨rfl, ⟨rfl, rfl, rfl, rfl, rfl, rfl⟩, h.of_same rfl rfl rfl rfl⟩
  | restart =>
    simp only [haltStmt, h.parent, Option.bind_some, hpp, hpq, if_neg hne.symm] at hstep
    cases hstep
    exact ⟨rfl, ⟨rfl, rfl, rfl, rfl, rfl, rfl⟩, h⟩
  | loadStack =>
    have honq := h.ready q (Or.inr rfl) hne
    obtain ⟨k1, hk1, hcr3, hesp0, hsw⟩ := resumeParent_eq status h.parent honq
    simp only [haltStmt, hk1, Option.map_some] at hstep
    cases hstep
    exact ⟨rfl, ⟨by rw [hsw.used]; rfl, by rw [hsw.active]; rfl, hcr3, hesp0, hsw.running, by rw [hsw.pcb]⟩,
      h.switched hq (hready rfl) hsw⟩
  | jump => exact absurd rfl hst

end Kernel

namespace HaltRun
variable {env : Env} {status : UInt8} {k : Kernel} {saved : Pid → Point} {ticks : List Point} {q : Pid} {e : Entry}

/-- At the call, only the process itself is in `halt`. -/
lemma enter_saved {x : Pid} (hx : x ≠ k.running) : (enter k).saved x = .elsewhere := by
  simp only [enter, ne_eq, hx, not_false_eq_true, Function.update_of_ne]

/-- One file is closed. -/
lemma step_close (i : Fin 8) (fd : Fds) :
    (haltSystem env status).step
        ⟨k.setPcb k.running fun pcb => { pcb with fd }, .halting (.close i), saved, ticks⟩ (.next e) =
      (sysClose fd i.val).map fun closed =>
        ⟨k.setPcb k.running fun pcb => { pcb with fd := closed.2 }, .halting (Stmt.close i).after, saved, ticks⟩ := by
  have hpcb : ((k.setPcb k.running fun pcb => { pcb with fd }).pcb k.running).fd = fd := by
    simp only [Kernel.setPcb, Function.update_self]
  have htwice : ∀ fd', (k.setPcb k.running fun pcb => { pcb with fd }).setPcb k.running
      (fun pcb => { pcb with fd := fd' }) = k.setPcb k.running fun pcb => { pcb with fd := fd' } := by
    intro fd'
    simp only [Kernel.setPcb, Function.update_self, Function.update_idem]
  change ((Kernel.haltStmt env e status _ (.close i)).map _) = _
  simp only [Kernel.haltStmt, Option.map_map]
  change (sysClose ((k.setPcb k.running fun pcb => { pcb with fd }).pcb k.running).fd i.val).map _ = _
  rw [hpcb]
  congr 1
  funext closed
  exact congrArg (HaltRun.mk · _ _ _) (htwice closed.2)

/-- The loop that closes the descriptors, from one on. -/
lemma closeLoop_drop (i : Fin 8) (fd : Fds) : Kernel.closeLoop ((List.finRange 8).drop i) fd =
    (sysClose fd i.val).bind fun (_, fd) => Kernel.closeLoop ((List.finRange 8).drop (i.val + 1)) fd := by
  rw [List.drop_eq_getElem_cons (by simp), List.getElem_finRange]
  rfl

/-- The files from `i` on are closed one by one. -/
lemma run_closes (n : Nat) (i : Fin 8) (hi : i.val + n + 1 = 8) (fd : Fds) :
    (haltSystem env status).run
        ⟨k.setPcb k.running fun pcb => { pcb with fd }, .halting (.close i), saved, ticks⟩
        (List.replicate (n + 1) (.next e)) =
      (Kernel.closeLoop ((List.finRange 8).drop i) fd).map fun fd =>
        ⟨k.setPcb k.running fun pcb => { pcb with fd }, .halting .clearUsed, saved, ticks⟩ := by
  induction n generalizing i fd with
  | zero =>
    have hafter : (Stmt.close i).after = .clearUsed := dif_neg (by omega)
    have hdone : (List.finRange 8).drop (i.val + 1) = [] := by
      rw [List.drop_eq_nil_iff, List.length_finRange]
      omega
    rw [List.replicate_succ, System.run, step_close, closeLoop_drop, hafter, hdone]
    cases sysClose fd i.val <;> rfl
  | succ n ih =>
    have hlt : i.val + 1 < 8 := by omega
    have hafter : (Stmt.close i).after = .close ⟨i.val + 1, hlt⟩ := dif_pos hlt
    rw [List.replicate_succ, System.run, step_close, closeLoop_drop, hafter]
    cases sysClose fd i.val with
    | none => rfl
    | some ret => exact ih ⟨i.val + 1, hlt⟩ (by simp only; omega) ret.2

/-- A statement of a run without ticks. -/
lemma run_next {k' : Kernel} {st : Stmt} {p : Point} {n : Nat} (h : k.haltStmt env e status st = some (k', p)) :
    (haltSystem env status).run ⟨k, .halting st, saved, ticks⟩ (List.replicate (n + 1) (.next e)) =
      (haltSystem env status).run ⟨k', p, saved, ticks⟩ (List.replicate n (.next e)) := by
  change Option.bind (Option.map _ (k.haltStmt env e status st)) _ = _
  rw [h]
  rfl

/-- A statement that looks up the parent. -/
lemma run_next_parent {f : Pid → Kernel × Point} {st : Stmt} {n : Nat} (hparent : (k.pcb k.running).parent = some q)
    (h : k.haltStmt env e status st = (k.pcb k.running).parent.map f) :
    (haltSystem env status).run ⟨k, .halting st, saved, ticks⟩ (List.replicate (n + 1) (.next e)) =
      (haltSystem env status).run ⟨(f q).1, (f q).2, saved, ticks⟩ (List.replicate n (.next e)) := by
  refine run_next ?_
  rw [h, hparent]
  rfl

/-- The statements after the files are closed. -/
lemma run_release (hparent : (k.pcb k.running).parent = some q)
    (hne : (k.pcb k.running).pid ≠ (k.pcb q).pid) (r : Regs) :
    (haltSystem env status).run ⟨k, .halting .clearUsed, saved, ticks⟩ (List.replicate 8 (.next e)) =
      ((k.releaseProcess k.running q).leave env e.stale k.running q r status).map fun k' =>
        ⟨k', .returned, saved, ticks⟩ := by
  have hleave : (k.releaseProcess k.running q).leave env e.stale k.running q r status =
      (k.releaseProcess k.running q).resumeParent k.running status := if_neg hne
  rw [hleave]
  have hrestart : (k.releaseProcess k.running q).haltStmt env e status .restart =
      some (k.releaseProcess k.running q, .halting .loadStack) :=
    (congrArg (Option.bind · _) hparent).trans (if_neg hne)
  refine (run_next rfl).trans ((run_next rfl).trans ?_)
  refine Eq.trans (run_next_parent hparent rfl) ?_
  refine Eq.trans (run_next_parent hparent rfl) ?_
  refine Eq.trans (run_next_parent hparent rfl) ?_
  refine Eq.trans (run_next hrestart) ?_
  change Option.bind (Option.map _ (Option.map _ ((k.releaseProcess k.running q).resumeParent k.running status))) _ = _
  cases (k.releaseProcess k.running q).resumeParent k.running status <;> rfl

/-- The statements from the first `close` on. -/
lemma run_closed (hparent : (k.pcb k.running).parent = some q)
    (hne : (k.pcb k.running).pid ≠ (k.pcb q).pid) (r : Regs) :
    (haltSystem env status).run ⟨k, .halting (.close 0), saved, ticks⟩
        (List.replicate 8 (.next e) ++ List.replicate 8 (.next e)) =
      ((Kernel.closeLoop (List.finRange 8) (k.pcb k.running).fd).bind fun fd =>
        ((k.setPcb k.running fun pcb => { pcb with fd }).releaseProcess k.running q).leave env e.stale k.running
          q r status).map fun k' => ⟨k', .returned, saved, ticks⟩ := by
  have hself : k = k.setPcb k.running fun pcb => { pcb with fd := (k.pcb k.running).fd } := by
    simp only [Kernel.setPcb, Function.update_eq_self]
  have hcloses : (haltSystem env status).run ⟨k, .halting (.close 0), saved, ticks⟩
      (List.replicate 8 (.next e)) = _ :=
    (congrArg (fun k => System.run _ (HaltRun.mk k _ _ _) _) hself).trans
      (run_closes 7 0 rfl (k.pcb k.running).fd)
  rw [System.run_append, hcloses]
  change ((Kernel.closeLoop (List.finRange 8) (k.pcb k.running).fd).map _).bind _ = _
  cases Kernel.closeLoop (List.finRange 8) (k.pcb k.running).fd with
  | none => rfl
  | some fd =>
    have hkeep : ((k.setPcb k.running fun pcb => { pcb with fd }).pcb k.running).parent = some q := by
      simp only [Kernel.setPcb, Function.update_self, hparent]
    refine run_release hkeep ?_ r
    change (Function.update k.pcb k.running _ k.running).pid ≠ (Function.update k.pcb k.running _ q).pid
    rw [Kernel.closed_pcb.1, Kernel.closed_pcb.1]
    exact hne

/-- `halt` without ticks, by single statements. -/
theorem halt_without_ticks (env : Env) (status : UInt8) (e : Entry)
    (hparent : (k.pcb k.running).parent = some q) (hne : (k.pcb k.running).pid ≠ (k.pcb q).pid) :
    (haltSystem env status).run (enter k) (List.replicate 18 (.next e)) =
      (k.halt env e.stale k.running (k.kernelRegs e) status).map fun k' =>
        ⟨k', .returned, (enter k).saved, []⟩ := by
  have hload : ∀ k1 : Kernel, (k1.pcb k1.running).parent = some q →
      (haltSystem env status).step ⟨k1, .halting .loadDirectory, (enter k).saved, []⟩ (.next e) =
        some ⟨k1.loadPageDirectory (k1.pcb q).pid, .halting (.close 0), (enter k).saved, []⟩ := by
    intro k1 h1
    simp only [haltSystem, step, Kernel.haltStmt, h1, Option.map_some]
  have hclear : (haltSystem env status).step (enter k) (.next e) =
      (k.clearUser env).map fun k1 => ⟨k1, .halting .loadDirectory, (enter k).saved, []⟩ := by
    simp only [haltSystem, step, Kernel.haltStmt, enter, Option.map_map]
    rfl
  have hlist : List.replicate 18 (HaltInput.next e) =
      .next e :: .next e :: (List.replicate 8 (.next e) ++ List.replicate 8 (.next e)) := rfl
  rw [hlist, System.run, hclear, Kernel.halt]
  cases hc : k.clearUser env with
  | none => rfl
  | some k1 =>
    obtain ⟨phys, rfl⟩ := Kernel.clearUser_phys hc
    rw [Option.map_some, Option.bind_some, System.run, hload (k.setPhys phys) hparent, Option.bind_some,
      Option.bind_some]
    have hparent' : ((k.setPhys phys).pcb k.running).parent = some q := hparent
    rw [hparent', Option.bind_some]
    exact run_closed (k := (k.setPhys phys).loadPageDirectory (k.pcb q).pid) hparent hne (k.kernelRegs e)

end HaltRun

end Boss
