import Boss.Filesys.Reads
import Boss.Process.Frames
import Boss.Process.Isolation

/-!
# No memory residue

A program finds nothing in its page but its own file: what `execute` loads is loaded over zeros. The frames
are zero at boot, `halt` clears the frame it gives up, and `execute` writes to the frame of the process it
starts; so the frame of a process number that is free is always zero (`Clear`).

That `halt` clears the right frame is a matter of control: the page directory in use has to be that of the
process whose stack the TSS names (`At`). It is kept by `halt` because a process with a child waits for it,
inactive, with its own kernel stack saved in its PCB, and it has one child only. Nothing of this
depends on who was started when. The shells may come up in any order, a user's program may have become a root,
and the stack that `sched` goes back to may be any: whoever runs, the next call is made on the stack and in the
page directory that `sched`, `halt` or `execute` have set together.

The second half of `no_memory_residue` compares two runs. Stores of programs change physical memory only, and
nothing the kernel does depends on it, so that the same programs are started in both; and with the same pages.
-/

namespace Boss
open Lib Lib.Paging

/-- A page with a program in it and zeros around. -/
def initialPage (program : List UInt8) (off : Nat) : UInt8 :=
  if off < 0x48000 then 0 else program.getD (off - 0x48000) 0

/-- The program was entered with its file in its page, and nothing else. -/
def Start.Fresh (env : Env) (s : Start) : Prop :=
  ∃ d, s.file = some d ∧ (∀ off < mb4, s.page off = initialPage (programBytes env d) off) ∧
    (env.fs.FilesValid → d.inode < env.fs.numInodes → programBytes env d = env.fs.content d.inode)

namespace Kernel

/-! ### Parents and children -/

/-- `p` was started by `q`, which waits for it. -/
structure ChildOf (k : Kernel) (live : Set Pid) (p q : Pid) : Prop where
  parent : (k.pcb p).parent = some q
  ne : q ≠ p
  live : q ∈ live
  esp0 : (k.pcb q).esp0 = stackTop q
  waits : k.active q = false

/-- The processes that have been started and have not halted: each is a root, or the only child of another. -/
structure Linked (k : Kernel) (live : Set Pid) : Prop where
  used : ∀ p ∈ live, k.procIdUsed p = true
  pid : ∀ p ∈ live, (k.pcb p).pid = p
  frame : ∀ p ∈ live, k.procPageDirectory p (userMemLocation / 0x400000) = frameEntry p
  parent : ∀ p ∈ live, ((k.pcb p).parent = some p ∧ p.val ≤ 2) ∨ (2 < p.val ∧ ∃ q, k.ChildOf live p q)
  only : ∀ p ∈ live, ∀ p' ∈ live, ∀ q, k.ChildOf live p q → k.ChildOf live p' q → p = p'
  below : ∀ p ∈ live, p.val ≤ 2 → ∀ q < p, k.procIdUsed q = true

/-- The processor works on the stack and in the page directory of `cur`. -/
structure At (k : Kernel) (live : Set Pid) (cur : Pid) : Prop where
  linked : k.Linked live
  active : ∀ p, k.active p = true → p ∈ live
  top : k.active cur = true
  cr3 : k.cr3 = some cur
  esp0 : k.esp0 = stackTop cur

/-- The frames of the free process numbers are zero. -/
def Clear (k : Kernel) : Prop := ∀ p, k.procIdUsed p = false → ∀ off < mb4, k.framePage p off = 0

/-- What holds between two steps. -/
structure Steady (k : Kernel) (live : Set Pid) (cur : Pid) : Prop where
  at_cur : k.At live cur
  clear : k.Clear
  mapped : k.video.Mapped

variable {env : Env} {stale : Mem} {k k' k1 : Kernel} {live : Set Pid} {cur pid p q : Pid} {t : TermId} {r : Regs}
  {status : UInt8} {command : Option Command} {eip : Nat} {m : String} {e : ContextEvent}

/-- A process whose parent is another is no root, and a child of it. -/
lemma Linked.child (h : k.Linked live) (hp : p ∈ live) (hparent : (k.pcb p).parent = some q) (hne : q ≠ p) :
    2 < p.val ∧ k.ChildOf live p q := by
  rcases h.parent p hp with ⟨hself, _⟩ | ⟨hgt, q', hchild⟩
  · rw [hparent] at hself
    cases hself
    exact absurd rfl hne
  · have hq := hchild.parent
    rw [hparent] at hq
    cases hq
    exact ⟨hgt, hchild⟩

/-- A process with a parent is a child of it. -/
lemma Linked.childOf (h : k.Linked live) (hp : p ∈ live) (hparent : (k.pcb p).parent = some q) (hne : q ≠ p) :
    k.ChildOf live p q := (h.child hp hparent hne).2

/-- A process that is its own parent is a root. -/
lemma Linked.root_le (h : k.Linked live) (hp : p ∈ live) (hparent : (k.pcb p).parent = some p) : p.val ≤ 2 := by
  rcases h.parent p hp with ⟨_, hle⟩ | ⟨_, q, hchild⟩
  · exact hle
  · have hq := hchild.parent
    rw [hparent] at hq
    cases hq
    exact absurd rfl hchild.ne

/-- What the links depend on. -/
lemma Linked.keep (h : k.Linked live) (used : ∀ p, k.procIdUsed p = true → k'.procIdUsed p = true)
    (pcb : ∀ p ∈ live, (k'.pcb p).pid = (k.pcb p).pid ∧ (k'.pcb p).parent = (k.pcb p).parent)
    (frame : ∀ p ∈ live, k'.procPageDirectory p (userMemLocation / 0x400000) = frameEntry p)
    (waits : ∀ p ∈ live, k.active p = false → k'.active p = false ∧ (k'.pcb p).esp0 = (k.pcb p).esp0) :
    k'.Linked live where
  used p hp := used p (h.used p hp)
  pid p hp := by rw [(pcb p hp).1, h.pid p hp]
  frame := frame
  parent p hp := by
    rw [(pcb p hp).2]
    rcases h.parent p hp with hroot | ⟨hlt, q, hparent, hne, hq, hesp0, hwaits⟩
    · exact Or.inl hroot
    · obtain ⟨hactive, hsame⟩ := waits q hq hwaits
      exact Or.inr ⟨hlt, q, by rw [(pcb p hp).2, hparent], hne, hq, by rw [hsame, hesp0], hactive⟩
  only p hp p' hp' q hchild hchild' := by
    refine h.only p hp p' hp' q (h.childOf hp ?_ hchild.ne) (h.childOf hp' ?_ hchild'.ne)
    · rw [← (pcb p hp).2, hchild.parent]
    · rw [← (pcb p' hp').2, hchild'.parent]
  below p hp hle q hq := used q (h.below p hp hle q hq)

/-- Another process joins, as a root or as the only child of its parent. -/
lemma Linked.add (h : k.Linked live) (used : k.procIdUsed pid = true) (hpid : (k.pcb pid).pid = pid)
    (frame : k.procPageDirectory pid (userMemLocation / 0x400000) = frameEntry pid)
    (below : ∀ q < pid, k.procIdUsed q = true)
    (parent : ((k.pcb pid).parent = some pid ∧ pid.val ≤ 2) ∨
      (2 < pid.val ∧ k.ChildOf (insert pid live) pid q ∧ ∀ p ∈ live, ¬ k.ChildOf (insert pid live) p q)) :
    k.Linked (insert pid live) := by
  have hlift : ∀ p q, k.ChildOf live p q → k.ChildOf (insert pid live) p q := fun p q hc =>
    ⟨hc.parent, hc.ne, Set.mem_insert_of_mem _ hc.live, hc.esp0, hc.waits⟩
  have hdrop : ∀ p ∈ live, ∀ q, k.ChildOf (insert pid live) p q → k.ChildOf live p q := fun p hp q hc =>
    h.childOf hp hc.parent hc.ne
  have hnew : ∀ p ∈ live, ∀ q', k.ChildOf (insert pid live) pid q' → ¬ k.ChildOf (insert pid live) p q' := by
    intro p hp q' hc
    have hc' := hc.parent
    rcases parent with ⟨hself, _⟩ | ⟨_, hchild, hnone⟩
    · rw [hself] at hc'
      cases hc'
      exact absurd rfl hc.ne
    · rw [hchild.parent] at hc'
      cases hc'
      exact hnone p hp
  refine ⟨fun p hp => ?_, fun p hp => ?_, fun p hp => ?_, fun p hp => ?_, fun p hp p' hp' q' hc hc' => ?_,
    fun p hp hle q hq => ?_⟩
  · rcases hp with rfl | hp
    · exact used
    · exact h.used p hp
  · rcases hp with rfl | hp
    · exact hpid
    · exact h.pid p hp
  · rcases hp with rfl | hp
    · exact frame
    · exact h.frame p hp
  · rcases hp with rfl | hp
    · exact parent.imp id fun hc => ⟨hc.1, q, hc.2.1⟩
    · exact (h.parent p hp).imp id fun hc => ⟨hc.1, hc.2.imp fun q hq => hlift p q hq⟩
  · rcases hp with rfl | hp
    · rcases hp' with rfl | hp'
      · rfl
      · exact absurd hc' (hnew p' hp' q' hc)
    · rcases hp' with rfl | hp'
      · exact absurd hc (hnew p hp q' hc')
      · exact h.only p hp p' hp' q' (hdrop p hp q' hc) (hdrop p' hp' q' hc')
  · rcases hp with rfl | hp
    · exact below q hq
    · exact h.below p hp hle q hq

namespace At

/-- The running process is alive. -/
lemma mem (h : k.At live cur) : cur ∈ live := h.active cur h.top

/-- A number that is free is no process's. -/
lemma ne_free (h : k.At live cur) (hfree : freePid k.procIdUsed = some pid) (hp : p ∈ live) : p ≠ pid :=
  ne_of_used hfree (h.linked.used p hp)

/-- The user page is the frame of the running process. -/
lemma directory (h : k.At live cur) (env : Env) :
    k.directory env (userMemLocation / 0x400000) = frameEntry cur := by
  simp only [Kernel.directory, h.cr3]
  exact h.linked.frame cur h.mem

/-- The PCB is found from the stack pointer. -/
lemma curPcb (h : k.At live cur) (e : Entry) : Boss.curPcb (k.entryRegs e).esp = some cur :=
  curPcb_of_onStack (entryRegs_onStack h.esp0)

/-- The process that runs waits for nobody. -/
lemma childless (h : k.At live cur) : ¬ k.ChildOf live p cur := by
  intro hchild
  have hwaits := hchild.waits
  rw [h.top] at hwaits
  cases hwaits

/-- A step that changes nothing the links depend on. -/
lemma keep (h : k.At live cur) (used : ∀ p, k.procIdUsed p = true → k'.procIdUsed p = true)
    (active : k'.active = k.active)
    (pcb : ∀ p ∈ live, (k'.pcb p).pid = (k.pcb p).pid ∧ (k'.pcb p).parent = (k.pcb p).parent ∧
      (k'.pcb p).esp0 = (k.pcb p).esp0)
    (dirs : ∀ p ∈ live, k'.procPageDirectory p = k.procPageDirectory p) (cr3 : k'.cr3 = k.cr3)
    (esp0 : k'.esp0 = k.esp0) : k'.At live cur where
  linked := h.linked.keep used (fun p hp => ⟨(pcb p hp).1, (pcb p hp).2.1⟩)
    (fun p hp => by rw [dirs p hp, h.linked.frame p hp]) (fun p hp hwaits => ⟨by rw [active, hwaits], (pcb p hp).2.2⟩)
  active p hp := h.active p (by rw [← active, hp])
  top := by rw [active, h.top]
  cr3 := by rw [cr3, h.cr3]
  esp0 := by rw [esp0, h.esp0]

/-- A refused `execute` goes back to its process. -/
lemma refused (h : k.At live cur) (hr : Refused k k') : k'.At live cur := by
  refine h.keep (fun p hp => by rw [hr.used, hp]) hr.control.active (fun p hp => ?_) (fun p _ => by rw [hr.dirs])
    hr.cr3 hr.control.esp0
  rw [hr.pcb p (h.linked.used p hp)]
  exact ⟨rfl, rfl, rfl⟩

/-- An `execute` that faults is still in its process. -/
lemma faulted (h : k.At live cur) (hfree : freePid k.procIdUsed = some pid) (hf : Faulted env k k' pid)
    (hcr3 : k'.cr3 = k.cr3) (hdirs : k'.procPageDirectory = k.procPageDirectory) : k'.At live cur := by
  refine h.keep (fun p hp => ?_) hf.control.active (fun p hp => ?_) (fun p _ => by rw [hdirs]) hcr3 hf.control.esp0
  · rw [hf.used, Function.update_of_ne (ne_of_used hfree hp), hp]
  · rw [hf.pcb p (h.ne_free hfree hp)]
    exact ⟨rfl, rfl, rfl⟩

/-- Memory plays no part. -/
lemma setPhys (h : k.At live cur) (phys : Mem) : (k.setPhys phys).At live cur :=
  h.keep (fun _ hp => hp) rfl (fun _ _ => ⟨rfl, rfl, rfl⟩) (fun _ _ => rfl) rfl rfl

/-- `sched` saves the process and counts the shells. -/
lemma save (h : k.At live cur) (n : Nat) : ({ k.saveContext cur r with shellsStarted := n } : Kernel).At live cur := by
  refine h.keep (fun _ hp => hp) ?_ (fun p _ => ?_) (fun _ _ => rfl) rfl rfl
  · change Function.update k.active (k.pcb cur).pid true = k.active
    rw [h.linked.pid cur h.mem, ← h.top, Function.update_eq_self]
  · change (Function.update k.pcb cur { k.pcb cur with esp := r.esp, ebp := r.ebp } p).pid = _ ∧ _ ∧ _
    by_cases hp : p = cur
    · subst hp
      simp [saveContext, setPcb, setActive]
    · simp [saveContext, setPcb, setActive, Function.update_of_ne hp]

/-- `sched` goes to another active process. -/
lemma switch (h : k.At live cur) (hsw : Switched k k' p e) (hact : k.active q = true) (hcr3 : k'.cr3 = some q)
    (hesp0 : k'.esp0 = stackTop q) : k'.At live q where
  linked := h.linked.keep (fun p hp => by rw [hsw.used, hp]) (fun p _ => by rw [hsw.pcb]; exact ⟨rfl, rfl⟩)
    (fun p hp => by rw [hsw.dirs, h.linked.frame p hp])
    (fun p _ hwaits => by rw [hsw.active, hsw.pcb]; exact ⟨hwaits, rfl⟩)
  active p hp := h.active p (by rw [← hsw.active, hp])
  top := by rw [hsw.active, hact]
  cr3 := hcr3
  esp0 := hesp0

/-- The links of the processes that were there before another was started. -/
lemma started_linked (h : k.At live cur) (hfree : freePid k.procIdUsed = some pid)
    (hs : Started env k k' pid (parentOf cur pid) t r) : k'.Linked live := by
  have hne : ∀ p ∈ live, p ≠ pid := fun p hp => h.ne_free hfree hp
  refine h.linked.keep (fun p hp => ?_) (fun p hp => ?_) (fun p hp => ?_) (fun p hp hwaits => ?_)
  · rw [hs.used, Function.update_of_ne (ne_of_used hfree hp), hp]
  · by_cases hq : p = parentOf cur pid
    · subst hq
      rw [hs.parent (hne _ hp)]
      exact ⟨rfl, rfl⟩
    · rw [hs.others p (hne p hp) hq]
      exact ⟨rfl, rfl⟩
  · rw [hs.dirs, Function.update_of_ne (hne p hp), h.linked.frame p hp]
  · have hcur : p ≠ cur := by
      rintro rfl
      rw [h.top] at hwaits
      cases hwaits
    have hq : p ≠ parentOf cur pid := by
      unfold parentOf
      split
      · exact hne p hp
      · exact hcur
    refine ⟨?_, by rw [hs.others p (hne p hp) hq]⟩
    rw [hs.active, Function.update_of_ne (hne p hp)]
    by_cases hstop : p = if pid = parentOf cur pid then pid else (k.pcb (parentOf cur pid)).pid
    · rw [hstop, Function.update_self]
    · rw [Function.update_of_ne hstop, hwaits]

/-- The process that was started is a root or the only child of the one that started it. -/
lemma started_parent (h : k.At live cur) (hfree : freePid k.procIdUsed = some pid)
    (hs : Started env k k' pid (parentOf cur pid) t r) : ((k'.pcb pid).parent = some pid ∧ pid.val ≤ 2) ∨
      (2 < pid.val ∧ k'.ChildOf (insert pid live) pid cur ∧ ∀ p ∈ live, ¬ k'.ChildOf (insert pid live) p cur) := by
  obtain ⟨_, hparent, _, _⟩ := hs.child
  by_cases hle : pid.val ≤ 2
  · rw [parentOf, if_pos hle] at hparent
    exact Or.inl ⟨hparent, hle⟩
  · have hne := h.ne_free hfree h.mem
    rw [parentOf, if_neg hle] at hs hparent
    refine Or.inr ⟨Nat.not_le.mp hle, ⟨hparent, hne, Set.mem_insert_of_mem _ h.mem, ?_, ?_⟩, fun p hp hchild => ?_⟩
    · rw [hs.parent hne, h.esp0]
    · rw [hs.active, Function.update_of_ne hne, if_neg (Ne.symm hne), h.linked.pid cur h.mem, Function.update_self]
    · -- a child of `cur` in `k'` would be one in `k`, where `cur` runs
      have hp' : (k.pcb p).parent = some cur := by
        have hsame := hchild.parent
        rwa [hs.others p (h.ne_free hfree hp) hchild.ne.symm] at hsame
      exact h.childless (h.linked.childOf hp hp' hchild.ne)

/-- `execute` starts a program. -/
lemma start (h : k.At live cur) (hfree : freePid k.procIdUsed = some pid)
    (hs : Started env k k' pid (parentOf cur pid) t r) : k'.At (insert pid live) pid := by
  obtain ⟨hpid, _, _, _⟩ := hs.child
  refine ⟨(h.started_linked hfree hs).add ?_ hpid ?_ (fun q hq => ?_) (h.started_parent hfree hs), fun p hp => ?_,
    ?_, hs.cr3, hs.esp0⟩
  · rw [hs.used, Function.update_self]
  · rw [hs.dirs, Function.update_self, programDir_frame]
  · rw [hs.used, Function.update_of_ne (Fin.ne_of_lt hq), (freePid_eq_some.mp hfree).2 q hq]
  · rw [hs.active] at hp
    by_cases hpp : p = pid
    · exact Or.inl hpp
    · rw [Function.update_of_ne hpp] at hp
      refine Or.inr (h.active p ?_)
      by_cases hstop : p = if pid = parentOf cur pid then pid else (k.pcb (parentOf cur pid)).pid
      · rw [hstop, Function.update_self] at hp
        cases hp
      · rwa [Function.update_of_ne hstop] at hp
  · rw [hs.active, Function.update_self]

/-- The links of the processes that are left when `cur` has gone back to its parent. -/
lemma resume_linked (h : k.At live cur) (hchild : k.ChildOf live cur q) (hgt : 2 < cur.val)
    (hused : k'.procIdUsed = Function.update k.procIdUsed cur false)
    (hact : k'.active = Function.update (Function.update k.active cur false) q true)
    (hpcb : ∀ p ∈ live \ {cur}, k'.pcb p = k.pcb p) (hdirs : k'.procPageDirectory = k.procPageDirectory) :
    k'.Linked (live \ {cur}) := by
  have hlinked := h.linked
  -- the links that are left are links of `k`
  have hdrop : ∀ p ∈ live \ {cur}, ∀ q', k'.ChildOf (live \ {cur}) p q' → k.ChildOf live p q' := by
    intro p hp q' hc
    exact hlinked.childOf hp.1 (by rw [← hpcb p hp, hc.parent]) hc.ne
  refine ⟨fun p hp => ?_, fun p hp => ?_, fun p hp => ?_, fun p hp => ?_, fun p hp p' hp' q' hc hc' => ?_,
    fun p hp hle q' hq' => ?_⟩
  · rw [hused, Function.update_of_ne hp.2, hlinked.used p hp.1]
  · rw [hpcb p hp, hlinked.pid p hp.1]
  · rw [hdirs, hlinked.frame p hp.1]
  · rcases hlinked.parent p hp.1 with hroot | ⟨hlt, q', hc⟩
    · rw [hpcb p hp]
      exact Or.inl hroot
    · have hqc : q' ≠ cur := by
        rintro rfl
        exact h.childless hc
      have hqq : q' ≠ q := by
        rintro rfl
        exact hp.2 (hlinked.only p hp.1 cur h.mem q' hc hchild)
      refine Or.inr ⟨hlt, q', by rw [hpcb p hp, hc.parent], hc.ne, ⟨hc.live, hqc⟩, ?_, ?_⟩
      · rw [hpcb q' ⟨hc.live, hqc⟩, hc.esp0]
      · rw [hact, Function.update_of_ne hqq, Function.update_of_ne hqc, hc.waits]
  · exact hlinked.only p hp.1 p' hp'.1 q' (hdrop p hp q' hc) (hdrop p' hp' q' hc')
  · have hqc : q' ≠ cur := by
      rintro rfl
      exact absurd (Nat.lt_of_lt_of_le hq' hle) (by omega)
    rw [hused, Function.update_of_ne hqc, hlinked.below p hp.1 hle q' hq']

/-- `halt` goes back to the parent. -/
lemma resume (h : k.At live cur) (hparent : (k.pcb cur).parent = some q) (hne : q ≠ cur) (hrel : Released k k1 cur q)
    (hsw : Switched k1 k' p e) (hcr3 : k'.cr3 = k1.cr3) (hesp0 : k'.esp0 = k1.esp0) : k'.At (live \ {cur}) q := by
  have hchild := h.linked.childOf h.mem hparent hne
  have hpid := h.linked.pid cur h.mem
  have hact : k'.active = Function.update (Function.update k.active cur false) q true := by
    rw [hsw.active, hrel.active, hpid, h.linked.pid q hchild.live]
  refine ⟨h.resume_linked hchild (h.linked.child h.mem hparent hne).1 ?_ hact (fun p hp => ?_) ?_, fun p hp => ?_, ?_,
    ?_, ?_⟩
  · rw [hsw.used, hrel.used, hpid]
  · rw [hsw.pcb, hrel.others p hp.2]
  · rw [hsw.dirs, hrel.dirs]
  · rw [hact] at hp
    by_cases hpq : p = q
    · rw [hpq]
      exact ⟨hchild.live, hne⟩
    · rw [Function.update_of_ne hpq] at hp
      by_cases hpc : p = cur
      · rw [hpc, Function.update_self] at hp
        cases hp
      · rw [Function.update_of_ne hpc] at hp
        exact ⟨h.active p hp, hpc⟩
  · rw [hact, Function.update_self]
  · rw [hcr3, hrel.cr3, h.linked.pid q hchild.live]
  · rw [hesp0, hrel.esp0, hchild.esp0]

/-- A root gives itself up for a moment, and its number is the first that is free. -/
lemma free_root (h : k.At live cur) (hle : cur.val ≤ 2) (hrel : Released k k1 cur cur) :
    freePid k1.procIdUsed = some cur := by
  rw [freePid_eq_some, hrel.used, h.linked.pid cur h.mem]
  refine ⟨Function.update_self .., fun p hp => ?_⟩
  rw [Function.update_of_ne (Fin.ne_of_lt hp), h.linked.below cur h.mem hle p hp]

/-- `halt` starts a root again. -/
lemma restart (h : k.At live cur) (hparent : (k.pcb cur).parent = some cur) (hrel : Released k k1 cur cur)
    (hs : Started env k1 k' cur cur t r) : k'.At live cur := by
  obtain ⟨hlinked, hactive, htop, _, _⟩ := id h
  have hpid := hlinked.pid cur h.mem
  obtain ⟨hpid', hparent', _, _⟩ := hs.child
  have hpcb : ∀ p, p ≠ cur → k'.pcb p = k.pcb p := fun p hp => by rw [hs.others p hp hp, hrel.others p hp]
  have hact : k'.active = k.active := by
    rw [hs.active, if_pos rfl, hrel.active, hpid]
    simp only [Function.update_idem]
    rw [← htop, Function.update_eq_self]
  refine ⟨hlinked.keep (fun p hp => ?_) (fun p hp => ?_) (fun p hp => ?_) (fun p hp hwaits => ?_), fun p hp => ?_, ?_,
    hs.cr3, hs.esp0⟩
  · rw [hs.used, hrel.used, hpid, Function.update_idem]
    by_cases hpc : p = cur
    · rw [hpc, Function.update_self]
    · rw [Function.update_of_ne hpc, hp]
  · by_cases hpc : p = cur
    · rw [hpc, hpid', hparent', hpid, hparent]
      exact ⟨rfl, rfl⟩
    · rw [hpcb p hpc]
      exact ⟨rfl, rfl⟩
  · rw [hs.dirs, hrel.dirs]
    by_cases hpc : p = cur
    · rw [hpc, Function.update_self, programDir_frame]
    · rw [Function.update_of_ne hpc, hlinked.frame p hp]
  · have hpc : p ≠ cur := by
      rintro rfl
      rw [htop] at hwaits
      cases hwaits
    rw [hact, hpcb p hpc]
    exact ⟨hwaits, rfl⟩
  · exact hactive p (by rw [← hact, hp])
  · rw [hact, htop]

/-- The first process. -/
lemma first (hact : ∀ p, p ≠ 0 → k.active p = false) (hs : Started env k k' 0 0 t r) : k'.At {0} 0 := by
  obtain ⟨hpid, hparent, _, _⟩ := hs.child
  refine ⟨⟨?_, ?_, ?_, ?_, ?_, ?_⟩, fun p hp => ?_, ?_, hs.cr3, hs.esp0⟩
  · rintro p rfl
    rw [hs.used, Function.update_self]
  · rintro p rfl
    exact hpid
  · rintro p rfl
    rw [hs.dirs, Function.update_self, programDir_frame]
  · rintro p rfl
    exact Or.inl ⟨hparent, by decide⟩
  · rintro p rfl p' rfl q _ _
    rfl
  · rintro p rfl _ q hq
    exact absurd hq (Fin.not_lt_zero q)
  · by_contra hne
    rw [hs.active, Function.update_of_ne hne, if_pos rfl, Function.update_of_ne hne, hact p hne] at hp
    cases hp
  · rw [hs.active, Function.update_self]

end At

/-! ### What a program finds -/

/-- Of a valid file `execute` reads all there is. -/
lemma programBytes_content {d : Dentry} (hvalid : env.fs.FilesValid) (hin : d.inode < env.fs.numInodes) :
    programBytes env d = env.fs.content d.inode := by
  have hinode := hvalid.inodes _ hin
  have hlen := hinode.length
  have hmin : min mb4 (env.fs.lengthBytes d.inode - 0) = env.fs.lengthBytes d.inode := by
    simp only [mb4]
    omega
  rw [programBytes, Image.readData_spec hinode (Nat.le_of_lt hvalid.limit), hmin, Image.content_eq_slice hlen]

/-- A program that is started over a zero frame is fresh, and the free frames stay zero. -/
lemma Clear.execute (h : k.Clear) (hfit : ProgramsFit env) (hfree : freePid k.procIdUsed = some pid)
    (hexec : k.execute env stale cur r command = .started eip k') :
    k'.Clear ∧ ∀ k0 byUser, ∀ s ∈ newStart k0 k' byUser (programOf env command), s.Fresh env := by
  obtain ⟨d, hd, hframes⟩ := execute_started_frames hfit hfree hexec
  obtain ⟨pid', hfree', hs⟩ := execute_started hexec
  rw [hfree] at hfree'
  cases hfree'
  have hzero := h pid (freePid_eq_some.mp hfree).1
  refine ⟨fun p hp off hoff => ?_, fun k0 byUser s hmem => ?_⟩
  · obtain ⟨hne, hp⟩ := hs.free_of_free hp
    rw [hframes p off hoff, if_neg fun hin => hne hin.1, h p hp off hoff]
  · simp only [newStart, hs.log] at hmem
    split at hmem
    · rw [List.mem_singleton.mp hmem]
      refine ⟨d, hd, fun off hoff => ?_, programBytes_content⟩
      simp only [hframes pid off hoff, true_and, hzero off hoff, initialPage]
      by_cases hlow : off < 0x48000
      · rw [if_neg (by omega), if_pos hlow]
      · rw [if_neg hlow]
        by_cases hin : off < 0x48000 + (programBytes env d).length
        · rw [if_pos ⟨Nat.not_lt.mp hlow, hin⟩]
        · rw [if_neg (by omega), List.getD_eq_default _ _ (by omega)]
    · cases hmem

/-- After a step: the kernel is steady, and the program that has been entered, if one has, is fresh. -/
structure Settled (env : Env) (file : Option Dentry) (k' : Kernel) : Prop where
  steady : ∃ live cur, k'.Steady live cur
  fresh : ∀ k byUser, ∀ s ∈ newStart k k' byUser file, s.Fresh env

namespace Steady
variable {file : Option Dentry}

/-- A refused `execute` keeps the frames as they are. -/
lemma refused (h : k.Steady live cur) (hexec : k.execute env stale cur r command = .refused m k') :
    k'.Steady live cur := by
  have hr := execute_refused hexec
  refine ⟨h.at_cur.refused hr, fun p hp off hoff => ?_, hr.tables.mapped h.mapped⟩
  rw [hr.used] at hp
  rw [framePage, execute_refused_phys hexec]
  exact h.clear p hp off hoff

/-- An `execute` that faults keeps the frames as they are and starts nothing. -/
lemma faulted (h : k.Steady live cur) (hfit : ProgramsFit env)
    (hexec : k.execute env stale cur r command = .faulted k') : k'.Steady live cur ∧ k'.log = k.log := by
  obtain ⟨pid, hfree, hf⟩ := execute_faulted hexec
  obtain ⟨hphys, hcr3, hdirs⟩ := execute_faulted_phys hfit hexec
  refine ⟨⟨h.at_cur.faulted hfree hf hcr3 hdirs, fun p hp off hoff => ?_, hf.tables.mapped h.mapped⟩, hf.control.log⟩
  rw [hf.used] at hp
  have hp' : k.procIdUsed p = false := by
    by_contra hused
    rw [Bool.not_eq_false] at hused
    rw [Function.update_of_ne (ne_of_used hfree hused), hused] at hp
    cases hp
  rw [framePage, hphys]
  exact h.clear p hp' off hoff

/-- A program that is started finds its own file and zeros. -/
lemma started (h : k.Steady live cur) (hfit : ProgramsFit env)
    (hexec : k.execute env stale cur r command = .started eip k') : k'.Settled env (programOf env command) := by
  obtain ⟨pid, hfree, hs⟩ := execute_started hexec
  obtain ⟨hclear, hfresh⟩ := h.clear.execute hfit hfree hexec
  exact ⟨⟨_, pid, h.at_cur.start hfree hs, hclear, hs.tables.mapped h.mapped⟩, hfresh⟩

/-- `sched` goes to the next process. -/
lemma switch (h : k.Steady live cur) (hsw : k.switchProcess pid = some k') : k'.Settled env file := by
  obtain ⟨next, p, hact, hsw, hcr3, hesp0, hframes⟩ := switchProcess_inv h.mapped hsw
  refine ⟨⟨live, next, h.at_cur.switch hsw hact hcr3 hesp0, fun p hp off hoff => ?_, hsw.tables.mapped h.mapped⟩,
    fun k0 byUser s hmem => ?_⟩
  · rw [hsw.used] at hp
    rw [hframes, h.clear p hp off hoff]
  · simp [newStart, hsw.log] at hmem

/-- `halt` leaves a zero frame, and what it starts finds one. -/
lemma halt (h : k.Steady live cur) (hfit : ProgramsFit env) (hhalt : k.halt env stale cur r status = some k') :
    k'.Settled env (programOf env (some env.shell)) := by
  obtain ⟨k1, q, hparent, hrel, hleave, hframes⟩ := halt_inv (h.at_cur.directory env) hhalt
  have hpid := h.at_cur.linked.pid cur h.at_cur.mem
  have hclear : k1.Clear := by
    intro p hp off hoff
    rw [hframes p off hoff]
    by_cases hpc : p = cur
    · rw [if_pos hpc]
    · rw [hrel.used, hpid, Function.update_of_ne hpc] at hp
      rw [if_neg hpc, h.clear p hp off hoff]
  have hmapped := hrel.tables.mapped h.mapped
  unfold leave at hleave
  by_cases hq : q = cur
  · subst hq
    have hle := h.at_cur.linked.root_le h.at_cur.mem hparent
    have hfree := h.at_cur.free_root hle hrel
    rw [if_pos rfl] at hleave
    cases hexec : k1.execute env stale q r (some env.shell) with
    | refused m k2 =>
      rw [hexec] at hleave
      exact absurd (hleave.symm.trans (resumeParent_refused hfree hexec)) (by simp)
    | started eip k2 =>
      rw [hexec] at hleave
      cases hleave
      obtain ⟨hclear', hfresh⟩ := hclear.execute hfit hfree hexec
      obtain ⟨pid, hpid', hs⟩ := execute_started hexec
      rw [hfree] at hpid'
      cases hpid'
      rw [parentOf, if_pos hle] at hs
      exact ⟨⟨live, q, h.at_cur.restart hparent hrel hs, hclear', hs.tables.mapped hmapped⟩, hfresh⟩
    | faulted k2 =>
      rw [hexec] at hleave
      cases hleave
  · obtain ⟨fd, hself⟩ := hrel.self
    have hchild := h.at_cur.linked.childOf h.at_cur.mem hparent hq
    have hne : (k1.pcb cur).pid ≠ (k1.pcb q).pid := by
      rw [hself, hrel.others q hq, h.at_cur.linked.pid q hchild.live]
      exact fun heq => hq (heq.symm.trans hpid)
    rw [if_neg hne] at hleave
    obtain ⟨q', p, _, hsw, hcr3, hesp0, hvideo⟩ := resumeParent_inv hleave
    refine ⟨⟨_, q, h.at_cur.resume hparent hq hrel hsw hcr3 hesp0, fun p hp off hoff => ?_, hsw.tables.mapped hmapped⟩,
      fun k0 byUser s hmem => ?_⟩
    · rw [hsw.used] at hp
      rw [framePage, hvideo]
      exact hclear p hp off hoff
    · simp [newStart, hsw.log] at hmem

/-- A tick. -/
lemma sched (h : k.Steady live cur) (hfit : ProgramsFit env) (hsched : k.sched env stale cur r = some k') :
    k'.Settled env (programOf env (some env.shell)) := by
  have hsave : ∀ n, ({ k.saveContext cur r with shellsStarted := n } : Kernel).Steady live cur := fun n =>
    ⟨h.at_cur.save n, h.clear, h.mapped⟩
  simp only [Kernel.sched] at hsched
  split at hsched
  · cases hexec : ({ k.saveContext cur r with shellsStarted := (k.saveContext cur r).shellsStarted + 1 } :
        Kernel).execute env stale cur r (some env.shell) with
    | refused m k1 =>
      rw [hexec] at hsched
      exact ((hsave _).refused hexec).switch hsched
    | started eip k1 =>
      rw [hexec] at hsched
      cases hsched
      exact (hsave _).started hfit hexec
    | faulted k1 =>
      rw [hexec] at hsched
      exact ((hsave _).faulted hfit hexec).1.halt hfit hsched
  · exact (hsave (k.saveContext cur r).shellsStarted).switch hsched

/-- A program stores to its own page. -/
lemma store (h : k.Steady live cur) (off : Fin 0x400000) (v : UInt8) :
    (k.storeUser env (userMemLocation + off) [v]).1.Steady live cur := by
  refine ⟨h.at_cur.setPhys _, fun p hp o ho => ?_, Video.Maps.of_tables h.mapped rfl rfl⟩
  have hne : p ≠ cur := by
    rintro rfl
    have hused : k.procIdUsed p = false := hp
    rw [h.at_cur.linked.used p h.at_cur.mem] at hused
    cases hused
  have hoff : off.val + [v].length ≤ mb4 := off.isLt
  rw [storeUser_frame (h.at_cur.directory env) hoff p ho, if_neg fun hin => hne hin.1]
  exact h.clear p hp o ho

/-- A call of `execute`. -/
lemma step_execute {e : Entry} (h : k.Steady live cur) (hfit : ProgramsFit env)
    (hstep : k.step env (.execute e command) = some k') :
    (∃ live cur, k'.Steady live cur) ∧ ∀ s ∈ k.startsOf env k' (.execute e command), s.Fresh env := by
  simp only [step, h.at_cur.curPcb e, Option.bind_some, callExecute] at hstep
  simp only [startsOf, h.at_cur.curPcb e, Option.map_some]
  cases hexec : k.execute env e.stale cur (k.entryRegs e) command with
  | refused m k1 =>
    rw [hexec] at hstep
    cases hstep
    refine ⟨⟨live, cur, h.refused hexec⟩, fun s hs => ?_⟩
    simp [newStart_same (execute_refused hexec).control.log] at hs
  | started eip k1 =>
    rw [hexec] at hstep
    cases hstep
    obtain ⟨hsteady, hfresh⟩ := h.started hfit hexec
    exact ⟨hsteady, hfresh k true⟩
  | faulted k1 =>
    rw [hexec] at hstep
    obtain ⟨hsteady, hfresh⟩ := (h.faulted hfit hexec).1.halt hfit hstep
    exact ⟨hsteady, hfresh k false⟩

end Steady

end Kernel

/-! ### Boot -/

/-- Where all programs fit, the shell does. -/
lemma ProgramsFit.shell {env : Env} (h : ProgramsFit env) (stale : Mem) (k : Kernel) :
    Fits env stale k (some env.shell) := by
  rintro c pid hc -
  cases hc
  refine ⟨5, by rw [Kernel.parse_shell], fun d hd => ⟨Command.ofString_histMapped _, fun helf => ?_⟩⟩
  exact Image.readData_length_le.trans (h _ _ d stale hd helf)

/-- The kernel when `entry` has enabled paging, with zeros in the frames of the processes and where the first PCB will
be. -/
structure CleanBoot (k : Kernel) : Prop extends AtBoot k where
  pid : (k.pcb 0).pid = 0
  frames : ∀ p, ∀ off < mb4, k.framePage p off = 0
  mapped : k.video.Mapped

/-- There is no process; the next will be process 0. -/
structure Kernel.Empty (k : Kernel) : Prop where
  used : ∀ p, k.procIdUsed p = false
  active : ∀ p, p ≠ 0 → k.active p = false
  frames : ∀ p, ∀ off < mb4, k.framePage p off = 0
  mapped : k.video.Mapped

section
variable {env : Env} {stale : Mem} {k k' : Kernel} {cur : Pid} {r : Regs} {eip : Nat} {e : Entry}

/-- The first process number is free. -/
lemma Kernel.Empty.free (h : k.Empty) : freePid k.procIdUsed = some 0 :=
  freePid_eq_some.mpr ⟨h.used 0, fun q hq => absurd hq (Fin.not_lt_zero q)⟩

/-- The first program that is started. -/
lemma Kernel.Empty.started (h : k.Empty) (hfit : ProgramsFit env)
    (hexec : k.execute env stale cur r (some env.shell) = .started eip k') :
    k'.Settled env (programOf env (some env.shell)) := by
  obtain ⟨hclear, hfresh⟩ := Kernel.Clear.execute (fun p _ => h.frames p) hfit h.free hexec
  obtain ⟨pid, hpid, hs⟩ := Kernel.execute_started hexec
  rw [h.free] at hpid
  cases hpid
  exact ⟨⟨{0}, 0, Kernel.At.first h.active hs, hclear, hs.tables.mapped h.mapped⟩, hfresh⟩

/-- There is no process yet. -/
lemma CleanBoot.empty (h : CleanBoot k) : k.Empty := ⟨h.used, fun p _ => h.active p, h.frames, h.mapped⟩

/-- A tick before `entry` has started anything. -/
lemma CleanBoot.save (h : CleanBoot k) (n : Nat) : ({ k.saveContext 0 r with shellsStarted := n } : Kernel).Empty := by
  refine ⟨h.used, fun p hp => ?_, h.frames, h.mapped⟩
  change Function.update k.active (k.pcb 0).pid true p = false
  rw [h.pid, Function.update_of_ne hp, h.active p]

/-- `entry` runs on the stack of process 0. -/
lemma CleanBoot.curPcb (h : CleanBoot k) (e : Entry) : Boss.curPcb (k.entryRegs e).esp = some 0 := by
  have hpos := e.pos
  have hfits := e.fits
  refine curPcb_of_onStack ⟨?_, ?_⟩
  · simp only [Kernel.entryRegs, h.esp0, pcbAddr_eq, kernelTop, kb8] at hfits ⊢
    omega
  · simp only [Kernel.entryRegs, h.esp0, pcbAddr_eq, kernelTop, kb8] at hfits ⊢
    omega

/-- A tick before the call of `entry` starts the first program or nothing at all. -/
lemma CleanBoot.tick (h : CleanBoot k) (hfit : ProgramsFit env) (hsched : k.sched env stale 0 r = some k') :
    k'.Settled env (programOf env (some env.shell)) := by
  have hshells : (k.saveContext 0 r).shellsStarted < 3 := by
    change k.shellsStarted < 3
    rw [h.shells]
    decide
  have hempty := h.save (r := r) ((k.saveContext 0 r).shellsStarted + 1)
  simp only [Kernel.sched, if_pos hshells] at hsched
  cases hexec : ({ k.saveContext 0 r with shellsStarted := (k.saveContext 0 r).shellsStarted + 1 } :
      Kernel).execute env stale 0 r (some env.shell) with
  | started eip k1 =>
    rw [hexec] at hsched
    cases hsched
    exact hempty.started hfit hexec
  | refused m k1 =>
    -- process 0 is the only one that is active, and its PCB has been zeroed
    rw [hexec] at hsched
    obtain ⟨next, hnext, hsched⟩ := Option.bind_eq_some_iff.mp hsched
    obtain ⟨p, hp, _⟩ := Option.map_eq_some_iff.mp hsched
    have hact := Kernel.getNextProc_active hnext
    have hzero : next = 0 := by
      by_contra hne
      rw [(Kernel.execute_refused hexec).control.active, hempty.active next hne] at hact
      cases hact
    obtain ⟨text, hblank⟩ := Kernel.execute_refused_blank hempty.free hexec
    have hesp : (k1.pcb next).esp = 0 := by
      rw [hzero, hblank]
      rfl
    have hnone : Boss.curPcb 0 = none := by decide
    have hstuck : Boss.curPcb (k1.pcb next).esp = some p := hp
    rw [hesp, hnone] at hstuck
    cases hstuck
  | faulted k1 => exact absurd hexec (Kernel.execute_fits (hfit.shell stale _))

end

/-! ### Runs -/

/-- What happens to the processes: `entry` and processes call `execute`, processes halt, by the system call or
through an exception handler, and store to their own page, and the timer ticks. -/
inductive ProcInput
  | entry (e : Entry)
  | execute (e : Entry) (command : Option Command)
  | halt (e : Entry) (status : UInt8)
  | tick (e : Entry)
  | store (off : Fin 0x400000) (b : UInt8)

namespace ProcInput

/-- The input as one of the machine. -/
def input : ProcInput → BootInput
  | entry e => .entry e
  | execute e command => .call (.execute e command)
  | halt e status => .call (.halt e status)
  | tick e => .call (.tick e)
  | store off b => .store off b

/-- The input is not a store. -/
def visible : ProcInput → Bool
  | store _ _ => false
  | _ => true

end ProcInput

/-- The machine with paging enabled, with these inputs. -/
def memorySystem (env : Env) : System Boot ProcInput := ⟨fun b i => b.step env i.input⟩

/-- What holds in every run. -/
structure Boot.Clean (env : Env) (b : Boot) : Prop where
  before : b.phase = .before → CleanBoot b.kernel
  after : b.phase ≠ .before → ∃ live cur, b.kernel.Steady live cur
  fresh : ∀ s ∈ b.starts, s.Fresh env

section
variable {env : Env} {k k' : Kernel} {b b' : Boot} {e : Entry}

/-- More programs, all of them fresh. -/
lemma Boot.Clean.add (h : b.Clean env) {phase : EntryPhase} {starts : List Start} (hphase : phase ≠ .before)
    (hsteady : ∃ live cur, k'.Steady live cur) (hfresh : ∀ s ∈ starts, s.Fresh env) :
    Boot.Clean env ⟨k', phase, starts ++ b.starts⟩ := by
  refine ⟨fun hb => absurd hb hphase, fun _ => hsteady, fun s hs => ?_⟩
  rcases List.mem_append.mp hs with hs | hs
  · exact hfresh s hs
  · exact h.fresh s hs

/-- A call of a process. -/
lemma Boot.Clean.call (h : b.Clean env) (hfit : ProgramsFit env) {i : Input} (hphase : b.phase ≠ .before)
    (hstep : b.stepKernel env i b.phase = some b') (hi : i.Plain) : b'.Clean env := by
  obtain ⟨k', hk, rfl⟩ := Option.map_eq_some_iff.mp hstep
  obtain ⟨live, cur, hsteady⟩ := h.after hphase
  cases i with
  | execute e command =>
    obtain ⟨hsteady', hfresh⟩ := hsteady.step_execute hfit hk
    exact h.add hphase hsteady' hfresh
  | halt e status =>
    simp only [Kernel.step, hsteady.at_cur.curPcb e, Option.bind_some] at hk
    obtain ⟨hsteady', hfresh⟩ := hsteady.halt hfit hk
    exact h.add hphase hsteady' (hfresh _ _)
  | tick e =>
    simp only [Kernel.step, hsteady.at_cur.curPcb e, Option.bind_some] at hk
    obtain ⟨hsteady', hfresh⟩ := hsteady.sched hfit hk
    exact h.add hphase hsteady' (hfresh _ _)
  | vidmap e screenStart => exact hi.elim
  | switchTerminals term => exact hi.elim

/-- Every step keeps the frames clean. -/
lemma Boot.Clean.step (h : b.Clean env) (hfit : ProgramsFit env) {i : ProcInput}
    (hstep : (memorySystem env).step b i = some b') : b'.Clean env := by
  by_cases hphase : b.phase = .before
  · have hboot := h.before hphase
    cases i with
    | entry e =>
      simp only [memorySystem, ProcInput.input, Boot.step, if_pos hphase, Boot.callEntry, hboot.curPcb e,
        Option.bind_some] at hstep
      cases hexec : b.kernel.execute env e.stale 0 (b.kernel.entryRegs e) (some env.shell) with
      | started eip k' =>
        rw [hexec] at hstep
        cases hstep
        obtain ⟨hsteady, hfresh⟩ := hboot.empty.started hfit hexec
        exact h.add (by decide) hsteady (hfresh _ _)
      | refused m k' =>
        rw [hexec] at hstep
        cases hstep
      | faulted k' =>
        rw [hexec] at hstep
        cases hstep
    | tick e =>
      simp only [memorySystem, ProcInput.input, Boot.step, if_pos hphase] at hstep
      obtain ⟨k', hk, rfl⟩ := Option.map_eq_some_iff.mp hstep
      simp only [Kernel.step, hboot.curPcb e, Option.bind_some] at hk
      obtain ⟨hsteady, hfresh⟩ := hboot.tick hfit hk
      exact h.add (by decide) hsteady (hfresh _ _)
    | execute e command =>
      simp only [memorySystem, ProcInput.input, Boot.step, if_pos hphase] at hstep
      cases hstep
    | halt e status =>
      simp only [memorySystem, ProcInput.input, Boot.step, if_pos hphase] at hstep
      cases hstep
    | store off v => exact absurd hphase (Boot.step_store hstep).1
  · cases i with
    | entry e =>
      simp only [memorySystem, ProcInput.input, Boot.step, if_neg hphase] at hstep
      cases hstep
    | execute e command => exact h.call hfit hphase ((Boot.step_call hphase).symm.trans hstep) trivial
    | halt e status => exact h.call hfit hphase ((Boot.step_call hphase).symm.trans hstep) trivial
    | tick e => exact h.call hfit hphase ((Boot.step_call hphase).symm.trans hstep) trivial
    | store off v =>
      obtain ⟨_, _, rfl⟩ := Boot.step_store hstep
      obtain ⟨live, cur, hsteady⟩ := h.after hphase
      exact ⟨fun hb => absurd hb hphase, fun _ => ⟨live, cur, hsteady.store off v⟩, h.fresh⟩

end

/-! ### Two runs -/

/-- The page that a program should have. -/
def Start.load (env : Env) (s : Start) : Start :=
  { s with page := fun off => if off < mb4 then initialPage ((s.file.map (programBytes env)).getD []) off else 0 }

/-- Two states that differ in what memory holds and in the pages of the programs. -/
structure Boot.Alike (b a : Boot) : Prop where
  phase : a.phase = b.phase
  kernel : ∃ phys, a.kernel = b.kernel.setPhys phys
  starts : a.starts.map Start.erase = b.starts.map Start.erase

section
variable {env : Env} {b b' a : Boot}

/-- One input on two machines that differ in memory. -/
lemma Boot.Alike.stepKernel (h : b.Alike a) {i : Input} {phase : EntryPhase}
    (hstep : b.stepKernel env i phase = some b') (hi : i.Plain) :
    ∃ a', a.stepKernel env i phase = some a' ∧ b'.Alike a' := by
  obtain ⟨_, ⟨phys, hkernel⟩, hstarts⟩ := h
  obtain ⟨k', hk, rfl⟩ := Option.map_eq_some_iff.mp hstep
  obtain ⟨phys', hstep'⟩ := Kernel.step_setPhys env hi phys b.kernel
  rw [← hkernel, hk] at hstep'
  refine ⟨⟨k'.setPhys phys', phase, a.kernel.startsOf env (k'.setPhys phys') i ++ a.starts⟩, ?_, rfl, ⟨phys', rfl⟩, ?_⟩
  · rw [Boot.stepKernel, hstep']
    rfl
  · simp only [List.map_append, hstarts, hkernel, Kernel.startsOf_setPhys]

/-- What is not a store is done in both. -/
lemma Boot.Alike.step (h : b.Alike a) {i : ProcInput} (hi : i.visible = true)
    (hstep : (memorySystem env).step b i = some b') : ∃ a', (memorySystem env).step a i = some a' ∧ b'.Alike a' := by
  cases i with
  | entry e =>
    obtain ⟨hphase, ⟨phys, hkernel⟩, hstarts⟩ := h
    simp only [memorySystem, ProcInput.input, Boot.step, hphase] at hstep ⊢
    split at hstep
    · next hbefore =>
      rw [if_pos hbefore]
      obtain ⟨cur, hcur, hcall⟩ := Option.bind_eq_some_iff.mp hstep
      obtain ⟨phys', hexec'⟩ := Kernel.execute_setPhys env e.stale cur (b.kernel.entryRegs e) (some env.shell) phys
        b.kernel
      have hregs : a.kernel.entryRegs e = b.kernel.entryRegs e := by
        rw [hkernel]
        rfl
      simp only [Boot.callEntry, hregs, hcur, Option.bind_some]
      cases hexec : b.kernel.execute env e.stale cur (b.kernel.entryRegs e) (some env.shell) with
      | started eip k' =>
        rw [hexec] at hcall
        cases hcall
        rw [hexec, ← hkernel] at hexec'
        rw [hexec']
        refine ⟨_, rfl, rfl, ⟨phys', rfl⟩, ?_⟩
        simp only [List.map_append, hstarts, hkernel, Kernel.newStart_setPhys]
      | refused m k' =>
        rw [hexec] at hcall
        cases hcall
      | faulted k' =>
        rw [hexec] at hcall
        cases hcall
    · cases hstep
  | execute e command =>
    simp only [memorySystem, ProcInput.input, Boot.step, h.phase] at hstep ⊢
    split at hstep
    · cases hstep
    · next hbefore =>
      rw [if_neg hbefore]
      exact h.stepKernel hstep trivial
  | halt e status =>
    simp only [memorySystem, ProcInput.input, Boot.step, h.phase] at hstep ⊢
    split at hstep
    · cases hstep
    · next hbefore =>
      rw [if_neg hbefore]
      exact h.stepKernel hstep trivial
  | tick e =>
    simp only [memorySystem, ProcInput.input, Boot.step, h.phase] at hstep ⊢
    split at hstep
    · next hbefore =>
      rw [if_pos hbefore]
      exact h.stepKernel hstep trivial
    · next hbefore =>
      rw [if_neg hbefore]
      exact h.stepKernel hstep trivial
  | store off v => cases hi

/-- A store is not noticed. -/
lemma Boot.Alike.store (h : b.Alike a) {i : ProcInput} (hi : i.visible = false)
    (hstep : (memorySystem env).step b i = some b') : b'.Alike a := by
  cases i with
  | store off v =>
    obtain ⟨hphase, ⟨phys, hkernel⟩, hstarts⟩ := h
    obtain ⟨_, _, rfl⟩ := Boot.step_store hstep
    exact ⟨hphase, ⟨phys, hkernel⟩, hstarts⟩
  | _ => cases hi

end

end Boss
