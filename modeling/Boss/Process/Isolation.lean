import Boss.Process.Tree
import Boss.Video.Screens

/-!
# Address spaces

Which physical pages user code of a process can reach: its own 4MB frame at 128MB and, once the program has
called `vidmap`, the screen of its terminal at `USER_VIDEO` (`Isolated`).

A page directory outlives the program it was filled for, and `execute` rewrites the entries 0, 1 and 32 only.
Entry 33, which `vidmap` sets, is never taken back. So isolation holds as long as no program is started in a
slot whose page directory has that entry, and no `execute` faults (`isolated_of_clean`); and it is broken by
the first program that gets the slot of one that had called `vidmap` (`stale_video_page`).
-/

namespace Boss
open Lib Lib.Paging

/-- The program that runs as `p` has called `vidmap` since it was started. -/
def calledVidmap (p : Pid) : List ContextEvent → Bool
  | [] => false
  | .vidmapped q :: log => if q = p then true else calledVidmap p log
  | .executeSaved _ c _ :: log => if c = p then false else calledVidmap p log
  | _ :: log => calledVidmap p log

namespace Kernel

/-- The page directory of `p` has an entry for the video page. -/
def HasVideo (k : Kernel) (p : Pid) : Prop :=
  present (k.procPageDirectory p (userVideo / 0x400000)) = true

/-- The input starts no program in a slot that has an entry for the video page, and does not fault in
`execute`. -/
def Clean (env : Env) (k : Kernel) (i : Input) : Prop :=
  i.Fits env k ∧ (i.Ends env k → k.running.val ≤ 2 → ¬ k.HasVideo k.running) ∧
    match i with
    | .execute e command =>
      Starts env e.stale command → ∀ p, freePid k.procIdUsed = some p → ¬ k.HasVideo p
    | _ => True

/-- The word `vidmap` stores: the table of the terminal, with the process number in its low bits. -/
def videoEntry (env : Env) (t : TermId) (p : Pid) : Nat :=
  ((env.link.termVideoTables + t) * 4096 + 4 * p.val) ||| flagWriteEnable ||| flagPresent ||| flagUser

/-- The page directory of `p`, as far as user code is concerned. -/
structure PagesOf (env : Env) (k : Kernel) (p : Pid) : Prop where
  low : userBit (k.procPageDirectory p 0) = false ∧ userBit (k.procPageDirectory p 1) = false
  rest : ∀ i, i ≠ 0 → i ≠ 1 → i ≠ 32 → i ≠ 33 → k.procPageDirectory p i = 0
  frame : k.procIdUsed p = true → k.procPageDirectory p 32 = frameEntry p
  screen : k.procIdUsed p = true →
    if calledVidmap p k.log = true then k.procPageDirectory p 33 = videoEntry env (k.pcb p).terminalId p
    else ¬ k.HasVideo p

variable {env : Env} {k k' : Kernel} {s s' : ProcStacks} {cur cur' t : TermId} {p q : Pid} {i : Input}

/-- The entry of the page directory for the user page. -/
lemma userMem_index : userMemLocation / 0x400000 = 32 := rfl

/-- The screens stay mapped. -/
lemma SameTables.mapped (ht : SameTables k k') (h : k.video.Mapped) : k'.video.Mapped := by
  have hhome : k'.video.home = k.video.home := by
    funext t
    unfold Video.home
    rw [ht.cur]
  unfold Video.Mapped
  rw [hhome]
  exact Video.Maps.of_tables h ht.page ht.term

/-- A page directory that has not been touched is still in order. -/
lemma PagesOf.keep (h : PagesOf env k p) (hdir : k'.procPageDirectory p = k.procPageDirectory p)
    (hused : k'.procIdUsed p = true → k.procIdUsed p = true ∧
      (k'.pcb p).terminalId = (k.pcb p).terminalId ∧ calledVidmap p k'.log = calledVidmap p k.log) :
    PagesOf env k' p where
  low := by
    rw [hdir]
    exact h.low
  rest := by
    rw [hdir]
    exact h.rest
  frame hp := by rw [hdir, h.frame (hused hp).1]
  screen hp := by
    obtain ⟨hused, hterm, hlog⟩ := hused hp
    rw [hlog, hterm, HasVideo, hdir]
    exact h.screen hused

/-- All other entries but that of the frame are left as they were. -/
lemma programDir_other {dir : Nat → Nat} {n : Nat} (h0 : n ≠ 0) (h1 : n ≠ 1) (h32 : n ≠ 32) :
    programDir env p dir n = dir n := by
  simp only [programDir, userMem_index]
  rw [Function.update_of_ne h32, Function.update_of_ne h1, Function.update_of_ne h0]

end Kernel

/-- The page directories of three root shells that have not called `vidmap`, and of free slots. -/
structure RootPages (env : Env) (k : Kernel) : Prop where
  video : k.video.Mapped
  roots : ∀ t, k.procPageDirectory (root t) = Kernel.programDir env (root t) fun _ => 0
  free : ∀ p, 2 < p.val → k.procPageDirectory p = fun _ => 0
  quiet : ∀ t, calledVidmap (root t) k.log = false

/-- The page directories of the three shells. -/
lemma threeShells_pages : RootPages shellEnv threeShells where
  video := Video.initKernelPd_mapped _
  roots := by
    intro t
    fin_cases t <;> rfl
  free := by
    intro p hp
    exact if_neg (Nat.not_le.mpr hp)
  quiet := by decide

end Boss
