import Boss.Lib.Stacks
import Boss.Process.Switch

/-!
# Process stacks

What the process table is for: each terminal has a stack of programs, its root shell at the bottom and the
program the user talks to on top. `execute` pushes, `halt` pops, a timer tick goes to the top of another
stack, and nothing else ever happens to the stacks.

`Shells k s cur` says that the kernel `k` holds the stacks `s` with terminal `cur` having the processor: the
tops are the active processes, the PCBs link each process to the one below it, and every process that does
not have the processor can be resumed, a covered one by the `halt` of the program above it and an uncovered
one by `sched`. Process numbers in use that are on no stack are those a faulting `execute` has lost.

That every step of the kernel is a move on the stacks is shown in `Boss.Process.Moves`.
-/

namespace Boss
open Lib Lib.Paging

/-- The root shell of a terminal. -/
def root (t : TermId) : Pid := ⟨t, by omega⟩

/-- Each terminal has a root of its own. -/
lemma root_injective : Function.Injective root := fun _ _ h => Fin.ext (Fin.mk.inj h)

/-- The stacks of programs, by terminal. -/
abbrev ProcStacks := Stacks TermId Pid

namespace Kernel

/-- `p` was started by `q`, and `q` can be resumed when `p` halts. -/
structure Waits (k : Kernel) (p q : Pid) : Prop where
  parent : (k.pcb p).parent = some q
  esp0 : (k.pcb q).esp0 = stackTop q
  esp : OnStack q (k.pcb q).esp

/-- The kernel holds the stacks `s`, and terminal `cur` has the processor. -/
structure Shells (k : Kernel) (s : ProcStacks) (cur : TermId) : Prop where
  base : ∀ t, (s.stack t).getLast? = some (root t)
  used : ∀ p, s.Mem p → k.procIdUsed p = true
  active : ∀ p, k.active p = true ↔ s.IsTop p
  pid : ∀ p, s.Mem p → (k.pcb p).pid = p
  terminal : ∀ t, ∀ p ∈ s.stack t, (k.pcb p).terminalId = t
  roots : ∀ t, (k.pcb (root t)).parent = some (root t)
  chain : ∀ t, (s.stack t).IsChain k.Waits
  ready : ∀ t p, t ≠ cur → s.Top t p → OnStack p (k.pcb p).esp
  files : ∀ p, s.Mem p → Closable (k.pcb p).fd
  frame : ∀ p, s.Mem p → k.procPageDirectory p (userMemLocation / 0x400000) = frameEntry p
  running : s.Top cur k.running
  esp0 : k.esp0 = stackTop k.running
  shells : ¬ k.shellsStarted < 3

/-- The processor works in the page directory of the running process. -/
def Runs (k : Kernel) (s : ProcStacks) (cur : TermId) : Prop := k.Shells s cur ∧ k.cr3 = some k.running

variable {env : Env} {stale : Mem} {k k' k0 k1 : Kernel} {s : ProcStacks} {cur t : TermId}
  {pid q p : Pid} {r : Regs} {status : UInt8}

/-- Waiting is kept with the parent of the one and the PCB of the other. -/
lemma Waits.of_pcb {a b : Pid} (h : k.Waits a b) (ha : (k'.pcb a).parent = (k.pcb a).parent)
    (hb : k'.pcb b = k.pcb b) : k'.Waits a b :=
  ⟨ha.trans h.parent, by rw [hb, h.esp0], by rw [hb]; exact h.esp⟩

namespace Shells

/-- The root is at the bottom of its stack. -/
lemma mem_root (h : k.Shells s cur) (t : TermId) : root t ∈ s.stack t :=
  List.mem_of_getLast? (h.base t)

/-- The first three numbers are those of the roots. -/
lemma lt_free (h : k.Shells s cur) (hfree : freePid k.procIdUsed = some pid) : 2 < pid.val := by
  by_contra hle
  have hroot : pid = root ⟨pid.val, by omega⟩ := rfl
  have hused := h.used (root ⟨pid.val, by omega⟩) ⟨_, h.mem_root _⟩
  rw [← hroot, (freePid_eq_some.mp hfree).1] at hused
  cases hused

/-- A free number is on no stack. -/
lemma fresh (h : k.Shells s cur) (hfree : freePid k.procIdUsed = some pid) : ¬ s.Mem pid := by
  intro hmem
  have hused := h.used pid hmem
  rw [(freePid_eq_some.mp hfree).1] at hused
  cases hused

/-- The kernel is entered on the stack of the running process. -/
lemma curPcb (h : k.Shells s cur) (e : Entry) : curPcb (k.entryRegs e).esp = some k.running :=
  curPcb_of_onStack (entryRegs_onStack h.esp0)

/-- The stacks depend on the processes that are on them only. -/
lemma keep (h : k.Shells s cur) (hused : ∀ p, s.Mem p → k'.procIdUsed p = true)
    (hactive : k'.active = k.active) (hpcb : ∀ p, s.Mem p → k'.pcb p = k.pcb p)
    (hframe : ∀ p, s.Mem p → k'.procPageDirectory p (userMemLocation / 0x400000) =
      k.procPageDirectory p (userMemLocation / 0x400000))
    (hrunning : k'.running = k.running) (hesp0 : k'.esp0 = k.esp0)
    (hshells : k'.shellsStarted = k.shellsStarted) : k'.Shells s cur where
  base := h.base
  used := hused
  active p := by rw [hactive, h.active]
  pid p hp := by rw [hpcb p hp, h.pid p hp]
  terminal t p hp := by rw [hpcb p ⟨t, hp⟩, h.terminal t p hp]
  roots t := by rw [hpcb _ ⟨t, h.mem_root t⟩, h.roots t]
  chain t := by
    refine (h.chain t).imp_of_mem_imp fun a b ha hb hab => ?_
    exact hab.of_pcb (by rw [hpcb a ⟨t, ha⟩]) (hpcb b ⟨t, hb⟩)
  ready t p ht hp := by
    rw [hpcb p hp.mem]
    exact h.ready t p ht hp
  files p hp := by
    rw [hpcb p hp]
    exact h.files p hp
  frame p hp := by rw [hframe p hp, h.frame p hp]
  running := by
    rw [hrunning]
    exact h.running
  esp0 := by rw [hesp0, h.esp0, hrunning]
  shells := by
    rw [hshells]
    exact h.shells

/-- A process alone on its stack is the root. -/
lemma running_root (h : k.Shells s cur) (hstack : s.stack cur = [k.running]) : k.running = root cur := by
  have hbase := h.base cur
  rw [hstack] at hbase
  exact Option.some.inj hbase

/-- The processes of other terminals are not running. -/
lemma ne_running (h : k.Shells s cur) (ht : t ≠ cur) (hp : p ∈ s.stack t) : p ≠ k.running := by
  rintro rfl
  exact ht (Stacks.eq_of_mem hp h.running.mem_stack)

end Shells

/-- What a started program leaves alone in the PCB of every other process. -/
lemma Started.keeps (h : Started env k k' pid q t r) (hp : p ≠ pid) :
    (k'.pcb p).pid = (k.pcb p).pid ∧ (k'.pcb p).parent = (k.pcb p).parent ∧
      (k'.pcb p).terminalId = (k.pcb p).terminalId ∧ (k'.pcb p).fd = (k.pcb p).fd := by
  by_cases hq : p = q
  · subst hq
    rw [h.parent hp]
    exact ⟨rfl, rfl, rfl, rfl⟩
  · rw [h.others p hp hq]
    exact ⟨rfl, rfl, rfl, rfl⟩

/-- The running process waits for the program it starts. Below it, every waiting process is one that was covered
before. -/
lemma Shells.push_chain (h : k.Shells s cur) (hfresh : ¬ s.Mem pid) (hstart : Started env k k' pid k.running cur r)
    (hr : OnStack k.running r.esp) (t : TermId) : ((s.push cur pid hfresh).stack t).IsChain k'.Waits := by
  have hne : ∀ p, s.Mem p → p ≠ pid := fun p hp e => hfresh (e ▸ hp)
  have hrun := hne _ h.running.mem
  have hkeep : ∀ a b, s.Mem a → s.Mem b → b ≠ k.running → k.Waits a b → k'.Waits a b := by
    intro a b ha hb hbr hab
    exact hab.of_pcb (hstart.keeps (hne a ha)).2.1 (hstart.others b (hne b hb) hbr)
  by_cases ht : t = cur
  · subst ht
    obtain ⟨rest, hstack⟩ := List.head?_eq_some_iff.mp h.running
    have hnodup := s.nodup t
    have hchain := h.chain t
    rw [hstack] at hnodup hchain
    rw [Stacks.stack_push_self, hstack, List.isChain_cons_cons]
    refine ⟨⟨hstart.child.2.1, ?_, ?_⟩, ?_⟩
    · rw [hstart.parent hrun, h.esp0]
    · rw [hstart.parent hrun]
      exact hr
    · refine hchain.imp_of_mem_tail_imp fun a b ha hb hab => ?_
      refine hkeep a b ⟨t, by rwa [hstack]⟩ ⟨t, by rw [hstack]; exact List.mem_of_mem_tail hb⟩ ?_ hab
      rintro rfl
      exact (List.nodup_cons.mp hnodup).1 hb
  · rw [Stacks.stack_push_of_ne ht]
    refine (h.chain t).imp_of_mem_imp fun a b ha hb hab => ?_
    exact hkeep a b ⟨t, ha⟩ ⟨t, hb⟩ (h.ne_running ht hb) hab

/-- `execute` pushes the program it starts. -/
lemma Shells.push (h : k.Shells s cur) (hfree : freePid k.procIdUsed = some pid)
    (hstart : Started env k k' pid k.running cur r) (hr : OnStack k.running r.esp) :
    k'.Shells (s.push cur pid (h.fresh hfree)) cur := by
  have hfresh := h.fresh hfree
  have hne : ∀ p, s.Mem p → p ≠ pid := fun p hp e => hfresh (e ▸ hp)
  have hrun := hne _ h.running.mem
  obtain ⟨rest, hstack⟩ := List.head?_eq_some_iff.mp h.running
  obtain ⟨hpid, -, hterm, hfd⟩ := hstart.child
  constructor
  case base =>
    intro t
    by_cases ht : t = cur
    · subst ht
      rw [Stacks.stack_push_self, hstack, List.getLast?_cons_cons, ← hstack, h.base]
    · rw [Stacks.stack_push_of_ne ht, h.base]
  case used =>
    intro p hp
    rw [hstart.used]
    rcases Stacks.mem_push.mp hp with rfl | hp
    · exact Function.update_self ..
    · rw [Function.update_of_ne (hne p hp), h.used p hp]
  case active =>
    intro p
    rw [hstart.active, if_neg (Ne.symm hrun), h.pid _ h.running.mem, Stacks.isTop_push]
    by_cases hp : p = pid
    · simp [hp]
    · rw [Function.update_of_ne hp]
      by_cases hpr : p = k.running
      · subst hpr
        simp [hp, h.running]
      · have hnot : ¬ s.Top cur p := fun htop => hpr (Option.some.inj (htop.symm.trans h.running))
        rw [Function.update_of_ne hpr, h.active]
        simp [hp, hnot]
  case pid =>
    intro p hp
    rcases Stacks.mem_push.mp hp with rfl | hp
    · exact hpid
    · rw [(hstart.keeps (hne p hp)).1, h.pid p hp]
  case terminal =>
    intro t p hp
    by_cases ht : t = cur
    · subst ht
      rw [Stacks.stack_push_self] at hp
      rcases List.mem_cons.mp hp with rfl | hp
      · exact hterm
      · rw [(hstart.keeps (hne p ⟨t, hp⟩)).2.2.1, h.terminal t p hp]
    · rw [Stacks.stack_push_of_ne ht] at hp
      rw [(hstart.keeps (hne p ⟨t, hp⟩)).2.2.1, h.terminal t p hp]
  case roots =>
    intro t
    rw [(hstart.keeps (hne _ ⟨t, h.mem_root t⟩)).2.1, h.roots t]
  case chain =>
    intro t
    exact h.push_chain hfresh hstart hr t
  case ready =>
    intro t p ht htop
    rw [Stacks.Top, Stacks.stack_push_of_ne ht] at htop
    have htop : s.Top t p := htop
    rw [hstart.others p (hne p htop.mem) (h.ne_running ht htop.mem_stack)]
    exact h.ready t p ht htop
  case files =>
    intro p hp
    rcases Stacks.mem_push.mp hp with rfl | hp
    · rw [hfd]
      exact freshFds_closable
    · rw [(hstart.keeps (hne p hp)).2.2.2]
      exact h.files p hp
  case frame =>
    intro p hp
    rw [hstart.dirs]
    rcases Stacks.mem_push.mp hp with rfl | hp
    · rw [Function.update_self, programDir_frame]
    · rw [Function.update_of_ne (hne p hp), h.frame p hp]
  case running => rw [hstart.running, Stacks.Top, Stacks.stack_push_self, List.head?_cons]
  case esp0 => rw [hstart.esp0, hstart.running]
  case shells =>
    rw [hstart.shells]
    exact h.shells

/-- `halt` of a program pops it. -/
lemma Shells.pop {rest : List Pid} {e : ContextEvent} (h : k.Shells s cur)
    (hstack : s.stack cur = k.running :: q :: rest) (hrel : Released k k1 k.running q)
    (hesp0 : k'.esp0 = k1.esp0) (hsw : Switched k1 k' q e) : k'.Shells (s.pop cur) cur := by
  have hmem : ∀ p, (s.pop cur).Mem p → s.Mem p ∧ p ≠ k.running := fun p => (Stacks.mem_pop h.running).mp
  have hpcb : ∀ p, (s.pop cur).Mem p → k'.pcb p = k.pcb p := by
    intro p hp
    rw [hsw.pcb, hrel.others p (hmem p hp).2]
  have hnodup := s.nodup cur
  have hwaits := h.chain cur
  rw [hstack] at hnodup hwaits
  have hq : s.Mem q := ⟨cur, by simp [hstack]⟩
  have hqr : q ≠ k.running := by
    rintro rfl
    exact (List.nodup_cons.mp hnodup).1 (List.mem_cons_self ..)
  have hbase : ∀ t, ((s.pop cur).stack t).getLast? = some (root t) := by
    intro t
    by_cases ht : t = cur
    · subst ht
      rw [Stacks.stack_pop_self, hstack, List.tail_cons, ← List.getLast?_cons_cons, ← hstack, h.base]
    · rw [Stacks.stack_pop_of_ne ht, h.base]
  constructor
  case base => exact hbase
  case used =>
    intro p hp
    rw [hsw.used, hrel.used, h.pid _ h.running.mem, Function.update_of_ne (hmem p hp).2]
    exact h.used p (hmem p hp).1
  case active =>
    intro p
    rw [hsw.active, hrel.active, h.pid _ h.running.mem, h.pid q hq, Stacks.isTop_pop hstack]
    by_cases hpq : p = q
    · simp [hpq]
    · rw [Function.update_of_ne hpq]
      by_cases hpr : p = k.running
      · simp [hpr, Ne.symm hqr]
      · rw [Function.update_of_ne hpr, h.active]
        simp [hpq, hpr]
  case pid =>
    intro p hp
    rw [hpcb p hp, h.pid p (hmem p hp).1]
  case terminal =>
    intro t p hp
    rw [hpcb p ⟨t, hp⟩, h.terminal t p ((Stacks.stack_pop_suffix t).mem hp)]
  case roots =>
    intro t
    rw [hpcb _ ⟨t, List.mem_of_getLast? (hbase t)⟩, h.roots t]
  case chain =>
    intro t
    have hchain := (h.chain t).suffix (Stacks.stack_pop_suffix (t := cur) t)
    refine hchain.imp_of_mem_imp fun a b ha hb hab => ?_
    exact hab.of_pcb (by rw [hpcb a ⟨t, ha⟩]) (hpcb b ⟨t, hb⟩)
  case ready =>
    intro t p ht htop
    rw [hpcb p htop.mem]
    rw [Stacks.Top, Stacks.stack_pop_of_ne ht] at htop
    exact h.ready t p ht htop
  case files =>
    intro p hp
    rw [hpcb p hp]
    exact h.files p (hmem p hp).1
  case frame =>
    intro p hp
    rw [hsw.dirs, hrel.dirs, h.frame p (hmem p hp).1]
  case running => rw [hsw.running, Stacks.Top, Stacks.stack_pop_self, hstack, List.tail_cons, List.head?_cons]
  case esp0 =>
    rw [hesp0, hrel.esp0, hsw.running]
    exact (List.isChain_cons_cons.mp hwaits).1.esp0
  case shells =>
    rw [hsw.shells, hrel.shells]
    exact h.shells

/-- `halt` of a root shell leaves the stacks as they are: the shell is started again. -/
lemma Shells.restart (h : k.Shells s cur) (hstack : s.stack cur = [k.running])
    (hrel : Released k k1 k.running k.running)
    (hstart : Started env k1 k' k.running k.running cur r) : k'.Shells s cur := by
  have hrun := h.pid _ h.running.mem
  have hpcb : ∀ p, p ≠ k.running → k'.pcb p = k.pcb p := by
    intro p hp
    rw [hstart.others p hp hp, hrel.others p hp]
  obtain ⟨hpid, hparent, hterm, hfd⟩ := hstart.child
  constructor
  case base => exact h.base
  case used =>
    intro p hp
    rw [hstart.used, hrel.used, hrun, Function.update_idem]
    by_cases hpr : p = k.running
    · rw [hpr, Function.update_self]
    · rw [Function.update_of_ne hpr]
      exact h.used p hp
  case active =>
    intro p
    rw [hstart.active, if_pos rfl, hrel.active, hrun]
    by_cases hpr : p = k.running
    · subst hpr
      simp only [Function.update_self, true_iff]
      exact ⟨cur, h.running⟩
    · simp only [Function.update_of_ne hpr]
      exact h.active p
  case pid =>
    intro p hp
    by_cases hpr : p = k.running
    · rw [hpr, hpid]
    · rw [hpcb p hpr, h.pid p hp]
  case terminal =>
    intro t p hp
    by_cases hpr : p = k.running
    · rw [hpr] at hp ⊢
      rw [hterm, Stacks.eq_of_mem hp h.running.mem_stack]
    · rw [hpcb p hpr, h.terminal t p hp]
  case roots =>
    intro t
    by_cases hpr : root t = k.running
    · rw [hpr, hparent]
    · rw [hpcb _ hpr, h.roots t]
  case chain =>
    intro t
    by_cases ht : t = cur
    · subst ht
      rw [hstack]
      exact List.isChain_singleton _
    · refine (h.chain t).imp_of_mem_imp fun a b ha hb hab => ?_
      exact hab.of_pcb (by rw [hpcb a (h.ne_running ht ha)]) (hpcb b (h.ne_running ht hb))
  case ready =>
    intro t p ht htop
    rw [hpcb p (h.ne_running ht htop.mem_stack)]
    exact h.ready t p ht htop
  case files =>
    intro p hp
    by_cases hpr : p = k.running
    · rw [hpr, hfd]
      exact freshFds_closable
    · rw [hpcb p hpr]
      exact h.files p hp
  case frame =>
    intro p hp
    rw [hstart.dirs, hrel.dirs]
    by_cases hpr : p = k.running
    · rw [hpr, Function.update_self, programDir_frame]
    · rw [Function.update_of_ne hpr, h.frame p hp]
  case running =>
    rw [hstart.running]
    exact h.running
  case esp0 => rw [hstart.esp0, hstart.running]
  case shells =>
    rw [hstart.shells, hrel.shells]
    exact h.shells

/-- The state in which `sched` looks for the next process: the running one is saved like the others. -/
lemma Shells.save (h : k.Shells s cur) (hr : OnStack k.running r.esp) :
    (k.saveContext k.running r).Shells s cur ∧
      ∀ t p, s.Top t p → OnStack p ((k.saveContext k.running r).pcb p).esp := by
  have hpcb : ∀ p, p ≠ k.running → (k.saveContext k.running r).pcb p = k.pcb p :=
    fun p hp => Function.update_of_ne hp ..
  have hself : (k.saveContext k.running r).pcb k.running =
      { k.pcb k.running with esp := r.esp, ebp := r.ebp } := Function.update_self ..
  have hsame : ∀ p, ((k.saveContext k.running r).pcb p).pid = (k.pcb p).pid ∧
      ((k.saveContext k.running r).pcb p).parent = (k.pcb p).parent ∧
      ((k.saveContext k.running r).pcb p).terminalId = (k.pcb p).terminalId ∧
      ((k.saveContext k.running r).pcb p).fd = (k.pcb p).fd ∧
      ((k.saveContext k.running r).pcb p).esp0 = (k.pcb p).esp0 := by
    intro p
    by_cases hp : p = k.running
    · subst hp
      rw [hself]
      exact ⟨rfl, rfl, rfl, rfl, rfl⟩
    · rw [hpcb p hp]
      exact ⟨rfl, rfl, rfl, rfl, rfl⟩
  have hesp : ∀ p, OnStack p (k.pcb p).esp → OnStack p ((k.saveContext k.running r).pcb p).esp := by
    intro p hp
    by_cases hpr : p = k.running
    · rw [hpr, hself]
      exact hr
    · rwa [hpcb p hpr]
  refine ⟨⟨h.base, h.used, ?_, ?_, ?_, ?_, ?_, ?_, ?_, h.frame, h.running, h.esp0, h.shells⟩, ?_⟩
  · intro p
    have hactive : (k.saveContext k.running r).active = k.active := by
      have hrun : k.active k.running = true := (h.active _).mpr ⟨cur, h.running⟩
      simp only [saveContext, setActive, setPcb, h.pid _ h.running.mem]
      rw [← hrun, Function.update_eq_self]
    rw [hactive, h.active]
  · intro p hp
    rw [(hsame p).1, h.pid p hp]
  · intro t p hp
    rw [(hsame p).2.2.1, h.terminal t p hp]
  · intro t
    rw [(hsame _).2.1, h.roots t]
  · intro t
    refine (h.chain t).imp fun a b hab => ?_
    exact ⟨by rw [(hsame a).2.1, hab.parent], by rw [(hsame b).2.2.2.2, hab.esp0], hesp b hab.esp⟩
  · intro t p ht hp
    exact hesp p (h.ready t p ht hp)
  · intro p hp
    rw [(hsame p).2.2.2.1]
    exact h.files p hp
  · intro t p hp
    by_cases hpr : p = k.running
    · rw [hpr, hself]
      exact hr
    · have ht : t ≠ cur := by
        rintro rfl
        exact hpr (Option.some.inj (hp.symm.trans h.running))
      exact hesp p (h.ready t p ht hp)

/-- A timer tick goes to the top of a stack. -/
lemma Shells.tick {e : ContextEvent} (h : k.Shells s cur)
    (hready : ∀ t p, s.Top t p → OnStack p (k.pcb p).esp) (htop : s.Top t p)
    (hsw : Switched k k' p e) (hesp0 : k'.esp0 = stackTop p) : k'.Shells s t where
  base := h.base
  used p hp := by rw [hsw.used, h.used p hp]
  active p := by rw [hsw.active, h.active]
  pid p hp := by rw [hsw.pcb, h.pid p hp]
  terminal t p hp := by rw [hsw.pcb, h.terminal t p hp]
  roots t := by rw [hsw.pcb, h.roots t]
  chain t := by
    refine (h.chain t).imp fun a b hab => ?_
    exact ⟨by rw [hsw.pcb, hab.parent], by rw [hsw.pcb, hab.esp0], by rw [hsw.pcb]; exact hab.esp⟩
  ready t p _ hp := by
    rw [hsw.pcb]
    exact hready t p hp
  files p hp := by
    rw [hsw.pcb]
    exact h.files p hp
  frame p hp := by rw [hsw.dirs, h.frame p hp]
  running := by
    rw [hsw.running]
    exact htop
  esp0 := by rw [hesp0, hsw.running]
  shells := by
    rw [hsw.shells]
    exact h.shells

end Kernel

end Boss
