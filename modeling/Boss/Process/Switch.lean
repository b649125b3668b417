import Boss.Process.Outcomes

/-!
# What `halt`, `sched` and `vidmap` do

As for `execute`, one structure for each thing that can have happened: a process has been given up
(`Released`), the processor has gone to another process (`Switched`), the video page has been mapped
(`Mapped`). `halt_eq` and `sched_eq` say that these are all that happens, under what the process table
always satisfies: the process has a parent and a page to clear, no open file is without its operations,
and a process that is to be resumed has its stack pointer on its own stack.
-/

namespace Boss
open Lib Lib.Paging

/-- `close` finds the operations of every open file. -/
def Closable (fds : Fds) : Prop := ∀ i, (fds i).flags ≠ 0 → (fds i).fOp ≠ none

/-- The descriptors of a new process can be closed. -/
lemma freshFds_closable : Closable freshFds := by
  intro i
  fin_cases i <;> decide

namespace Kernel
variable {env : Env} {stale : Mem} {k k' : Kernel} {cur pid q p : Pid} {r : Regs} {status : UInt8}

/-- Closing everything succeeds. -/
lemma closeLoop_closable {is : List (Fin 8)} {fds : Fds} (h : Closable fds) :
    ∃ fds', closeLoop is fds = some fds' := by
  induction is generalizing fds with
  | nil => exact ⟨fds, rfl⟩
  | cons i is ih =>
    have hclose : ∃ ret fds', sysClose fds i.val = some (ret, fds') ∧ Closable fds' := by
      unfold sysClose
      split
      · exact ⟨_, fds, rfl, h⟩
      · next j _ =>
        split
        · exact ⟨_, fds, rfl, h⟩
        · next hflags =>
          cases hop : (fds j).fOp with
          | none => exact absurd hop (h j hflags)
          | some op =>
            refine ⟨_, _, rfl, fun i' => ?_⟩
            by_cases hi : i' = j
            · subst hi
              simp [File.zero]
            · rw [Function.update_of_ne hi]
              exact h i'
    obtain ⟨ret, fds', heq, h'⟩ := hclose
    obtain ⟨fds'', hrest⟩ := ih h'
    exact ⟨fds'', by simp only [closeLoop, heq, Option.bind_some, hrest]⟩

/-- `halt` has given the process `cur` up in favour of `q`. -/
structure Released (k k' : Kernel) (cur q : Pid) : Prop where
  tables : SameTables k k'
  used : k'.procIdUsed = Function.update k.procIdUsed (k.pcb cur).pid false
  active : k'.active = Function.update (Function.update k.active (k.pcb cur).pid false) (k.pcb q).pid true
  dirs : k'.procPageDirectory = k.procPageDirectory
  cr3 : k'.cr3 = some (k.pcb q).pid
  esp0 : k'.esp0 = (k.pcb q).esp0
  running : k'.running = k.running
  shells : k'.shellsStarted = k.shellsStarted
  log : k'.log = k.log
  self : ∃ fd, k'.pcb cur = { k.pcb cur with fd }
  others : ∀ p, p ≠ cur → k'.pcb p = k.pcb p

/-- The PCBs while the files of `cur` are closed. -/
lemma closed_pcb {fd : Fds} : (Function.update k.pcb cur { k.pcb cur with fd } p).pid = (k.pcb p).pid ∧
    (Function.update k.pcb cur { k.pcb cur with fd } p).esp0 = (k.pcb p).esp0 := by
  by_cases hp : p = cur
  · subst hp
    rw [Function.update_self]
    exact ⟨rfl, rfl⟩
  · rw [Function.update_of_ne hp]
    exact ⟨rfl, rfl⟩

/-- What `halt` does between the `memset` and its way out. -/
lemma released (k : Kernel) (cur q : Pid) (phys : Mem) (fd : Fds) :
    Released k ((((k.setPhys phys).loadPageDirectory (k.pcb q).pid).setPcb cur fun pcb =>
      { pcb with fd }).releaseProcess cur q) cur q := by
  refine ⟨⟨rfl, rfl, rfl⟩, ?_, ?_, rfl, rfl, ?_, rfl, rfl, rfl, ⟨fd, ?_⟩, ?_⟩
  · exact congrArg (Function.update k.procIdUsed · false) closed_pcb.1
  · exact congrArg₂ (fun a b => Function.update (Function.update k.active a false) b true)
      closed_pcb.1 closed_pcb.1
  · exact closed_pcb.2
  · exact Function.update_self ..
  · intro p hp
    exact Function.update_of_ne hp ..

/-- `halt` gives the process up and leaves it. -/
lemma halt_eq (stale : Mem) (r : Regs) (status : UInt8)
    (hpde : present (k.directory env (userMemLocation / 0x400000)) = true)
    (hlarge : large (k.directory env (userMemLocation / 0x400000)) = true)
    (hparent : (k.pcb cur).parent = some q) (hfiles : Closable (k.pcb cur).fd) :
    ∃ k1, Released k k1 cur q ∧ k.halt env stale cur r status = k1.leave env stale cur q r status := by
  obtain ⟨fd, hfd⟩ : ∃ fd, closeLoop (List.finRange 8) (k.pcb cur).fd = some fd :=
    closeLoop_closable hfiles
  obtain ⟨phys, hclear⟩ : ∃ phys, k.clearUser env = some (k.setPhys phys) := by
    simp only [clearUser, hpde, hlarge, Bool.and_self, if_true]
    exact ⟨_, rfl⟩
  refine ⟨_, released k cur q phys fd, ?_⟩
  unfold halt
  rw [hclear, Option.bind_some]
  simp only [setPhys, hparent, Option.bind_some, loadPageDirectory, hfd]

/-- The processor has gone to `p`: only the record of it and what it runs on have changed. -/
structure Switched (k k' : Kernel) (p : Pid) (e : ContextEvent) : Prop where
  tables : SameTables k k'
  used : k'.procIdUsed = k.procIdUsed
  active : k'.active = k.active
  pcb : k'.pcb = k.pcb
  dirs : k'.procPageDirectory = k.procPageDirectory
  running : k'.running = p
  shells : k'.shellsStarted = k.shellsStarted
  log : k'.log = e :: k.log

/-- The saved registers of a process. -/
def saved (k : Kernel) (p : Pid) : Regs := ⟨(k.pcb p).esp, (k.pcb p).ebp⟩

/-- `halt` resumes the parent on its own stack. -/
lemma resumeParent_eq (status : UInt8) (hparent : (k.pcb cur).parent = some q) (hq : OnStack q (k.pcb q).esp) :
    ∃ k', k.resumeParent cur status = some k' ∧ k'.cr3 = k.cr3 ∧ k'.esp0 = k.esp0 ∧
      Switched k k' q (.haltLoaded cur q (k.saved q) status) := by
  simp only [resumeParent, hparent, Option.bind_some, curPcb_of_onStack hq, Option.map_some]
  exact ⟨_, rfl, rfl, rfl, ⟨rfl, rfl, rfl⟩, rfl, rfl, rfl, rfl, rfl, rfl, rfl⟩

/-- The search of `get_next_proc` ends at the first active process. -/
lemma getNextProc_active {active : Pid → Bool} {fuel : Nat}
    (h : getNextProc active fuel p = some q) : active q = true := by
  induction fuel generalizing p with
  | zero => cases h
  | succ fuel ih =>
    unfold getNextProc at h
    split at h
    · next hact =>
      cases h
      exact hact
    · exact ih h

/-- `get_next_proc` finds an active process no further away than its fuel. -/
lemma getNextProc_finds {active : Pid → Bool} {fuel n : Nat} (hn : n < fuel)
    (h : active (p + 1 + Fin.ofNat 6 n) = true) : ∃ q, getNextProc active fuel p = some q := by
  induction fuel generalizing p n with
  | zero => cases hn
  | succ fuel ih =>
    unfold getNextProc
    split
    · exact ⟨_, rfl⟩
    · next hact =>
      cases n with
      | zero =>
        have hz : p + 1 + Fin.ofNat 6 0 = p + 1 := by
          change p + 1 + 0 = p + 1
          rw [Fin.add_zero]
        rw [hz] at h
        exact absurd h hact
      | succ n =>
        refine ih (n := n) (Nat.lt_of_succ_lt_succ hn) ?_
        have hs : p + 1 + 1 + Fin.ofNat 6 n = p + 1 + Fin.ofNat 6 (n + 1) := by
          apply Fin.ext
          simp only [Fin.val_add, Fin.val_ofNat]
          omega
        rwa [hs]

/-- From an active process the search comes round at the latest. -/
lemma getNextProc_some {active : Pid → Bool} (h : active p = true) :
    ∃ q, getNextProc active 6 p = some q ∧ active q = true := by
  have hround : ∀ p : Pid, p + 1 + Fin.ofNat 6 5 = p := by decide
  obtain ⟨q, hq⟩ : ∃ q, getNextProc active 6 p = some q :=
    getNextProc_finds (n := 5) (by decide) (by rwa [hround p])
  exact ⟨q, hq, getNextProc_active hq⟩

/-- The status bytes leave the page tables as they are. -/
lemma storeLoop_tables (addr : Pid → Nat) (val : Pid → UInt8) (ps : List Pid) (v : Video) :
    let w := ps.foldl (fun v p => v.store (addr p) (val p)) v
    w.videoPageTable = v.videoPageTable ∧ w.termVideoTables = v.termVideoTables ∧
      w.curTerminal = v.curTerminal := by
  induction ps generalizing v with
  | nil => exact ⟨rfl, rfl, rfl⟩
  | cons p ps ih =>
    obtain ⟨h1, h2, h3⟩ := ih (v.store (addr p) (val p))
    have hstore : (v.store (addr p) (val p)).videoPageTable = v.videoPageTable ∧
        (v.store (addr p) (val p)).termVideoTables = v.termVideoTables ∧
        (v.store (addr p) (val p)).curTerminal = v.curTerminal := by
      unfold Video.store
      split <;> exact ⟨rfl, rfl, rfl⟩
    exact ⟨h1.trans hstore.1, h2.trans hstore.2.1, h3.trans hstore.2.2⟩

/-- `show_status` writes to the screen only. -/
lemma showStatus_tables : SameTables k k.showStatus := by
  unfold showStatus
  obtain ⟨h1, h2, h3⟩ := storeLoop_tables (fun p => Boss.video + 2 * (80 - 6 + p.val) + 1)
    (fun p => if k.procIdUsed p then (if k.active p then 0x20 else 0x40) else Terminal.attrib)
    (List.finRange 6) k.video
  exact ⟨h1, h2, h3⟩

/-- `sched` switches to the next process, on its stack and in its page directory. -/
lemma switchProcess_eq (hnext : getNextProc k.active 6 pid = some p) (hp : OnStack p (k.pcb p).esp) :
    ∃ k', k.switchProcess pid = some k' ∧ k'.cr3 = some p ∧ k'.esp0 = stackTop p ∧
      Switched k k' p (.schedLoaded p (k.saved p)) := by
  have hpcb : k.showStatus.pcb p = k.pcb p := rfl
  simp only [switchProcess, hnext, Option.bind_some, hpcb, curPcb_of_onStack hp, Option.map_some]
  obtain ⟨h1, h2, h3⟩ := showStatus_tables (k := k)
  exact ⟨_, rfl, rfl, rfl, ⟨h1, h2, h3⟩, rfl, rfl, rfl, rfl, rfl, rfl, rfl⟩

/-- With the shells running, `sched` saves the process and switches. -/
lemma sched_eq (hshells : ¬ k.shellsStarted < 3) :
    k.sched env stale cur r = (k.saveContext cur r).switchProcess (k.pcb cur).pid := by
  have hkeep : ¬ (k.saveContext cur r).shellsStarted < 3 := hshells
  unfold sched
  rw [if_neg hkeep]

/-- `vidmap` has mapped the video page of the terminal of `cur`. -/
structure Mapped (env : Env) (k k' : Kernel) (cur : Pid) : Prop where
  tables : SameTables k k'
  used : k'.procIdUsed = k.procIdUsed
  active : k'.active = k.active
  pcb : k'.pcb = k.pcb
  dirs : k'.procPageDirectory = Function.update k.procPageDirectory (k.pcb cur).pid
    (Function.update (k.procPageDirectory (k.pcb cur).pid) (userVideo / 0x400000)
      (((env.link.termVideoTables + (k.pcb cur).terminalId) * 4096 + 4 * (k.pcb cur).pid.val) |||
        flagWriteEnable ||| flagPresent ||| flagUser))
  cr3 : k'.cr3 = some (k.pcb cur).pid
  esp0 : k'.esp0 = k.esp0
  running : k'.running = k.running
  shells : k'.shellsStarted = k.shellsStarted
  log : k'.log = .vidmapped (k.pcb cur).pid :: k.log

/-- `vidmap` stores one word at most. -/
lemma vidmapStore_length (screenStart : Nat) : (vidmapStore screenStart).stored.length ≤ 4 := by
  unfold vidmapStore
  split
  · exact Nat.zero_le 4
  · exact Nat.le_refl 4

/-- `vidmap` refuses the pointer, maps the page, or faults on the pointer with nothing but user memory
changed. -/
lemma vidmap_ways (env : Env) (cur : Pid) (screenStart : Nat) (k : Kernel) :
    k.vidmap env cur screenStart = (k, some (-1)) ∨
    (∃ k', k.vidmap env cur screenStart = (k', some 0) ∧ Mapped env k k' cur) ∨
    ∃ phys, k.vidmap env cur screenStart = (k.setPhys phys, none) ∧ isKernelPtr screenStart = false ∧
      (storeBytes (k.video.tables env.link) (k.directory env) k.video.phys screenStart
        (vidmapStore screenStart).stored).2 = false := by
  by_cases hptr : screenStart = 0 ∨ isKernelPtr screenStart = true
  · have hfail : vidmapStore screenStart = .fail := if_pos hptr
    refine Or.inl ?_
    rw [vidmap, hfail]
    rfl
  · have hret : (vidmapStore screenStart).ret = 0 := congrArg Result.ret (if_neg hptr)
    simp only [vidmap, storeUser_eq, hret]
    cases hstore : (storeBytes (k.video.tables env.link) (k.directory env) k.video.phys screenStart
      (vidmapStore screenStart).stored).2 with
    | true => exact Or.inr (Or.inl ⟨_, rfl, ⟨rfl, rfl, rfl⟩, rfl, rfl, rfl, rfl, rfl, rfl, rfl, rfl, rfl⟩)
    | false => exact Or.inr (Or.inr ⟨_, rfl, Bool.eq_false_iff.mpr fun h => hptr (Or.inr h), rfl⟩)

end Kernel

end Boss
