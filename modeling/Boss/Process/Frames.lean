import Boss.Process.Boot

/-!
# The frames of the processes

What `execute`, `halt` and `sched` do to physical memory: `execute` reads a file into the frame of the process
that it starts and touches no other frame, `halt` clears the frame of the page directory in use, and `sched`
writes to the displayed page only. A call of `execute` that fails leaves memory alone, also when it faults, as
long as no program is too long for its page.

The other direction is that memory does not matter to them. The last part of the file says so: a function of
the kernel, on a state that differs in physical memory, does the same up to physical memory.
-/

namespace Boss
open Lib Lib.Paging

/-- Every file that `execute` takes for a program fits into the page of a process. -/
def ProgramsFit (env : Env) : Prop :=
  ∀ text len d stale, env.fs.readDentryByName text len = some d →
    Kernel.isElf (Kernel.elfHead env.fs d.inode stale) = true → env.fs.lengthBytes d.inode ≤ programRoom

/-- The bytes that `execute` reads of a program. -/
def programBytes (env : Env) (d : Dentry) : List UInt8 := (env.fs.readData d.inode 0 mb4).2

/-- A program that fits stays in its page of 4MB. -/
lemma programBytes_length {env : Env} {d : Dentry} (h : env.fs.lengthBytes d.inode ≤ programRoom) :
    0x48000 + (programBytes env d).length ≤ mb4 := by
  have hlen := Nat.le_trans (Image.readData_length_le (n := mb4)) h
  simp only [programRoom, userMemLocation, userProgLocation, mb4] at hlen ⊢
  exact (Nat.add_le_add_left hlen 0x48000)

/-- A program that has been started, but for its page. -/
def Start.erase (s : Start) : Start := { s with page := fun _ => 0 }

/-- The input has nothing to do with the screens. -/
def Input.Plain : Input → Prop
  | .vidmap _ _ => False
  | .switchTerminals _ => False
  | _ => True

namespace Kernel
variable {env : Env} {stale : Mem} {k k' : Kernel} {cur pid p q : Pid} {t : TermId} {r : Regs} {status : UInt8}
  {c : Command} {command : Option Command} {len eip : Nat} {m : String}

/-! ### `execute` -/

/-- A store to the page of a process is a store to its frame. -/
lemma storeUser_frame {o : Nat} {bs : List UInt8}
    (hdir : k.directory env (userMemLocation / 0x400000) = frameEntry p) (hlen : o + bs.length ≤ mb4) (q : Pid)
    {off : Nat} (hoff : off < mb4) :
    (k.storeUser env (userMemLocation + o) bs).1.framePage q off =
      if q = p ∧ o ≤ off ∧ off < o + bs.length then bs.getD (off - o) 0 else k.framePage q off := by
  obtain ⟨hp, hl, _, hbase⟩ := frameEntry_spec p
  have hwalk : ∀ i < bs.length, ∃ t, walk (k.video.tables env.link) (k.directory env)
      ((userMemLocation + o + i) % 0x100000000) = some t ∧ t.pa = kernelTop + mb4 * p + o + i := by
    intro i hi
    have hva : (userMemLocation + o + i) % 0x100000000 / 0x400000 = userMemLocation / 0x400000 := by
      simp only [userMemLocation, mb4] at hlen ⊢
      omega
    have hmod : (userMemLocation + o + i) % 0x100000000 % 0x400000 = o + i := by
      simp only [userMemLocation, mb4] at hlen ⊢
      omega
    simp only [walk, hva, hmod, hdir, hp, hl, hbase, if_true]
    exact ⟨_, rfl, (Nat.add_assoc ..).symm⟩
  have hsub : kernelTop + mb4 * q + off - (kernelTop + mb4 * p + o) = off - o ∨ q ≠ p := by
    by_cases hq : q = p
    · subst hq
      exact Or.inl (by omega)
    · exact Or.inr hq
  rw [storeUser_eq]
  simp only [framePage, setPhys]
  rw [storeBytes_apply _ hwalk]
  have hiff : (kernelTop + mb4 * p + o ≤ kernelTop + mb4 * q + off ∧
      kernelTop + mb4 * q + off < kernelTop + mb4 * p + o + bs.length) ↔
      q = p ∧ o ≤ off ∧ off < o + bs.length := by
    rw [Fin.ext_iff]
    simp only [mb4] at hlen hoff ⊢
    omega
  refine if_ctx_congr hiff (fun hin => ?_) fun _ => rfl
  rw [hsub.resolve_right fun hne => hne hin.1]

/-- A refused `execute` stores nothing. -/
lemma execute_refused_phys (h : k.execute env stale cur r command = .refused m k') :
    k'.video.phys = k.video.phys := by
  rcases execute_ways env stale cur r command k with ⟨m', hm, _⟩ | ⟨pid, text, hfree, hfault | hways⟩
  · rw [hm] at h
    cases h
    rfl
  · rw [hfault] at h
    cases h
  · rw [h] at hways
    cases hways
    rfl

/-- With programs that fit, only the history of commands can fault. -/
lemma startProgram_faulted (hfit : ProgramsFit env)
    (h : k.startProgram env stale pid q t r c len = .faulted k') : ∃ hist, k' = k.setHist t hist := by
  unfold startProgram at h
  split at h
  · cases h
  · next d hd =>
    simp only at h
    split at h
    · split at h
      · next helf =>
        rw [if_pos (load_mapped (Image.readData_length_le.trans (hfit _ _ d stale hd helf)))] at h
        cases h
      · cases h
    · cases h
      exact ⟨_, rfl⟩

/-- A fault leaves memory and the page directories alone. -/
lemma execute_faulted_phys (hfit : ProgramsFit env) (h : k.execute env stale cur r command = .faulted k') :
    k'.video.phys = k.video.phys ∧ k'.cr3 = k.cr3 ∧ k'.procPageDirectory = k.procPageDirectory := by
  unfold execute at h
  cases command with
  | none => cases h
  | some c =>
    simp only at h
    split at h
    · cases h
    · split at h
      · cases h
        exact ⟨rfl, rfl, rfl⟩
      · obtain ⟨hist, rfl⟩ := startProgram_faulted hfit h
        exact ⟨rfl, rfl, rfl⟩

/-- What a program is started from: a file that is found and passes for a program, and the frame it is copied to. -/
lemma startProgram_started (h : k.startProgram env stale pid q t r c len = .started eip k') :
    ∃ d hist, env.fs.readDentryByName (k.pcb pid).text len = some d ∧
      isElf (elfHead env.fs d.inode stale) = true ∧
      k' = (((k.setHist t hist).mapProgram env pid).storeUser env userProgLocation
        (programBytes env d)).1.enterProgram pid q t r := by
  unfold startProgram at h
  split at h
  · cases h
  · next d hd =>
    simp only at h
    split at h
    · split at h
      · next helf =>
        split at h
        · cases h
          exact ⟨d, _, hd, helf, rfl⟩
        · cases h
      · cases h
    · cases h

/-- `execute` reads the program into the frame of the new process. -/
lemma execute_started_frames (hfit : ProgramsFit env) (hfree : freePid k.procIdUsed = some pid)
    (h : k.execute env stale cur r command = .started eip k') :
    ∃ d, programOf env command = some d ∧ ∀ p off, off < mb4 → k'.framePage p off =
      if p = pid ∧ 0x48000 ≤ off ∧ off < 0x48000 + (programBytes env d).length
      then (programBytes env d).getD (off - 0x48000) 0 else k.framePage p off := by
  unfold execute at h
  cases command with
  | none => cases h
  | some c =>
    simp only [hfree] at h
    split at h
    · cases h
    · next len hlen =>
      obtain ⟨d, hist, hd, helf, rfl⟩ := startProgram_started h
      simp only [setPcb, Function.update_self, blankPcb] at hd
      refine ⟨d, ?_, fun p off hoff => ?_⟩
      · simp only [programOf, Option.bind_some, hlen, hd]
      · refine storeUser_frame (o := 0x48000) ?_ (programBytes_length (hfit _ _ d stale hd helf)) p hoff
        simp only [directory, mapProgram, Function.update_self, programDir_frame]

/-! ### `halt` and `sched` -/

/-- `halt` clears the frame of the page directory in use. -/
lemma halt_inv (hdir : k.directory env (userMemLocation / 0x400000) = frameEntry p)
    (h : k.halt env stale cur r status = some k') :
    ∃ k1 q, (k.pcb cur).parent = some q ∧ Released k k1 cur q ∧ k1.leave env stale cur q r status = some k' ∧
      ∀ q off, off < mb4 → k1.framePage q off = if q = p then 0 else k.framePage q off := by
  obtain ⟨hp, hl, _, hbase⟩ := frameEntry_spec p
  obtain ⟨k0, hclear, h⟩ := Option.bind_eq_some_iff.mp h
  obtain ⟨q, hparent, h⟩ := Option.bind_eq_some_iff.mp h
  obtain ⟨fd, _, h⟩ := Option.bind_eq_some_iff.mp h
  simp only [clearUser, hdir, hp, hl, hbase, Bool.and_self, if_true, Option.some.injEq] at hclear
  subst hclear
  refine ⟨_, q, hparent, released k cur q _ fd, h, fun q' off hoff => ?_⟩
  have hiff : (kernelTop + mb4 * p ≤ kernelTop + mb4 * q' + off ∧
      kernelTop + mb4 * q' + off < kernelTop + mb4 * p + mb4) ↔ q' = p := by
    rw [Fin.ext_iff]
    simp only [mb4] at hoff ⊢
    omega
  exact if_ctx_congr hiff (fun _ => rfl) fun _ => rfl

/-- The way out of `halt` changes who runs and nothing else. -/
lemma resumeParent_inv (h : k.resumeParent cur status = some k') :
    ∃ q p, (k.pcb cur).parent = some q ∧ Switched k k' p (.haltLoaded cur q (k.saved q) status) ∧
      k'.cr3 = k.cr3 ∧ k'.esp0 = k.esp0 ∧ k'.video = k.video := by
  obtain ⟨q, hparent, h⟩ := Option.bind_eq_some_iff.mp h
  obtain ⟨p, _, rfl⟩ := Option.map_eq_some_iff.mp h
  exact ⟨q, p, hparent, ⟨⟨rfl, rfl, rfl⟩, rfl, rfl, rfl, rfl, rfl, rfl, rfl⟩, rfl, rfl, rfl⟩

/-- A store to the displayed page touches no frame. -/
lemma store_display {v : Video} {off a : Nat} (hv : v.Mapped) (hoff : off < 4096) (ha : kernelTop ≤ a) (b : UInt8) :
    (v.store (Boss.video + off) b).phys a = v.phys a := by
  have hne : a ≠ Boss.video + off := by
    simp only [kernelTop, Boss.video] at ha ⊢
    omega
  simp only [Video.store, hv.displayPa hoff]
  exact Function.update_of_ne hne ..

/-- The status bytes on the screen leave all memory above the kernel as it is. -/
lemma storeLoop_frames {addr : Pid → Nat} (haddr : ∀ p, ∃ off < 4096, addr p = Boss.video + off)
    (val : Pid → UInt8) (ps : List Pid) {v : Video} (hv : v.Mapped) {a : Nat} (ha : kernelTop ≤ a) :
    (ps.foldl (fun v p => v.store (addr p) (val p)) v).phys a = v.phys a := by
  induction ps generalizing v with
  | nil => rfl
  | cons p ps ih =>
    obtain ⟨off, hoff, hp⟩ := haddr p
    have hmapped : (v.store (addr p) (val p)).Mapped := by
      simp only [hp, Video.store, hv.displayPa hoff]
      exact Video.Maps.of_tables hv rfl rfl
    rw [List.foldl_cons, ih hmapped, hp, store_display hv hoff ha]

/-- `show_status` touches no frame. -/
lemma showStatus_frame (hv : k.video.Mapped) (p : Pid) (off : Nat) :
    k.showStatus.framePage p off = k.framePage p off := by
  refine storeLoop_frames (fun p => ⟨2 * (80 - 6 + p.val) + 1, ?_, Nat.add_assoc ..⟩) _ _ hv ?_
  · have := p.isLt
    omega
  · simp only [Nat.add_assoc]
    exact Nat.le_add_right ..

/-- `sched` switches to an active process and its page directory. -/
lemma switchProcess_inv (hv : k.video.Mapped) (h : k.switchProcess pid = some k') :
    ∃ next p, k.active next = true ∧ Switched k k' p (.schedLoaded next (k.saved next)) ∧
      k'.cr3 = some next ∧ k'.esp0 = stackTop next ∧ ∀ q off, k'.framePage q off = k.framePage q off := by
  obtain ⟨next, hnext, h⟩ := Option.bind_eq_some_iff.mp h
  obtain ⟨p, _, rfl⟩ := Option.map_eq_some_iff.mp h
  obtain ⟨h1, h2, h3⟩ := showStatus_tables (k := k)
  exact ⟨next, p, getNextProc_active hnext, ⟨⟨h1, h2, h3⟩, rfl, rfl, rfl, rfl, rfl, rfl, rfl⟩, rfl, rfl,
    fun q off => showStatus_frame hv q off⟩

/-! ### Memory does not matter -/

/-- The same outcome in another kernel. -/
def Outcome.map (f : Kernel → Kernel) : Outcome → Outcome
  | .refused message k => .refused message (f k)
  | .started eip k => .started eip (f k)
  | .faulted k => .faulted (f k)

variable {va : Nat} {bs : List UInt8} {i : Input}

/-- Two states of one kernel differ in memory. -/
lemma exists_setPhys (k : Kernel) (phys phys' phys1 : Mem) :
    ∃ phys2, (k.setPhys phys).setPhys phys1 = (k.setPhys phys').setPhys phys2 := ⟨phys1, rfl⟩

/-- A store to a user address depends on the page tables only. -/
lemma storeUser_setPhys (env : Env) (va : Nat) (bs : List UInt8) (phys : Mem) (k : Kernel) :
    ∃ phys', (k.setPhys phys).storeUser env va bs =
      ((k.storeUser env va bs).1.setPhys phys', (k.storeUser env va bs).2) :=
  ⟨_, Prod.ext rfl storeBytes_snd⟩

/-- `execute` behind its first checks does the same whatever memory holds. -/
lemma startProgram_setPhys (phys : Mem) : ∃ phys', (k.setPhys phys).startProgram env stale pid q t r c len =
    (k.startProgram env stale pid q t r c len).map (·.setPhys phys') := by
  unfold startProgram
  have htext : ((k.setPhys phys).pcb pid).text = (k.pcb pid).text := rfl
  have hhist : (k.setPhys phys).cmdHist t = k.cmdHist t := rfl
  rw [htext, hhist]
  cases env.fs.readDentryByName (k.pcb pid).text len with
  | none => exact ⟨phys, rfl⟩
  | some d =>
    simp only
    split
    · split
      · obtain ⟨phys', hstore⟩ := storeUser_setPhys env userProgLocation (env.fs.readData d.inode 0 mb4).2 phys
          ((k.setHist t (c.pushHist (k.cmdHist t)).1).mapProgram env pid)
        refine ⟨phys', ?_⟩
        have hsame : ((k.setPhys phys).setHist t (c.pushHist (k.cmdHist t)).1).mapProgram env pid =
            ((k.setHist t (c.pushHist (k.cmdHist t)).1).mapProgram env pid).setPhys phys := rfl
        rw [hsame, hstore]
        generalize ((k.setHist t (c.pushHist (k.cmdHist t)).1).mapProgram env pid).storeUser env userProgLocation
          (env.fs.readData d.inode 0 mb4).2 = result
        obtain ⟨k1, ok⟩ := result
        cases ok with
        | true => rfl
        | false => rfl
      · exact ⟨phys, rfl⟩
    · exact ⟨phys, rfl⟩

/-- `execute` does the same whatever memory holds. -/
lemma execute_setPhys (env : Env) (stale : Mem) (cur : Pid) (r : Regs) (command : Option Command) (phys : Mem)
    (k : Kernel) : ∃ phys', (k.setPhys phys).execute env stale cur r command =
      (k.execute env stale cur r command).map (·.setPhys phys') := by
  unfold execute
  cases command with
  | none => exact ⟨phys, rfl⟩
  | some c =>
    have hused : (k.setPhys phys).procIdUsed = k.procIdUsed := rfl
    simp only [hused]
    split
    · exact ⟨phys, rfl⟩
    · next pid _ =>
      split
      · exact ⟨phys, rfl⟩
      · exact startProgram_setPhys (k := (k.setUsed pid true).setPcb pid fun _ => blankPcb pid c.parse.1) phys

/-- Return to the parent does the same whatever memory holds. -/
lemma resumeParent_setPhys (phys : Mem) : (k.setPhys phys).resumeParent cur status =
    (k.resumeParent cur status).map (·.setPhys phys) := by
  unfold resumeParent
  have hpcb : (k.setPhys phys).pcb = k.pcb := rfl
  rw [hpcb, Option.map_bind]
  simp only [Function.comp_def, Option.map_map]
  rfl

/-- The end of a process does the same whatever memory holds. -/
lemma leave_setPhys (env : Env) (stale : Mem) (cur q : Pid) (r : Regs) (status : UInt8) (phys : Mem) (k : Kernel) :
    ∃ phys', (k.setPhys phys).leave env stale cur q r status =
      (k.leave env stale cur q r status).map (·.setPhys phys') := by
  unfold leave
  have hpcb : (k.setPhys phys).pcb = k.pcb := rfl
  rw [hpcb]
  split
  · obtain ⟨phys', hexec⟩ := execute_setPhys env stale cur r (some env.shell) phys k
    refine ⟨phys', ?_⟩
    rw [hexec]
    cases k.execute env stale cur r (some env.shell) with
    | refused m k1 => exact resumeParent_setPhys phys'
    | started eip k1 => rfl
    | faulted k1 => rfl
  · exact ⟨phys, resumeParent_setPhys phys⟩

/-- `halt` behind its `memset`. -/
lemma halt_clear (h : k.clearUser env = some k') : k.halt env stale cur r status =
    (k'.pcb cur).parent.bind fun q => (closeLoop (List.finRange 8) (k'.pcb cur).fd).bind fun fd =>
      (((k'.loadPageDirectory (k'.pcb q).pid).setPcb cur fun pcb => { pcb with fd }).releaseProcess cur q).leave
        env stale cur q r status := by
  unfold halt
  rw [h]
  rfl

/-- Clearing the frame does the same whatever memory holds. -/
lemma clearUser_setPhys (env : Env) (phys : Mem) (k : Kernel) : ∃ phys', (k.setPhys phys).clearUser env =
    (k.clearUser env).map (·.setPhys phys') := by
  have hdir : (k.setPhys phys).directory env = k.directory env := rfl
  unfold clearUser
  rw [hdir]
  by_cases h : (present (k.directory env (userMemLocation / 0x400000)) &&
      large (k.directory env (userMemLocation / 0x400000))) = true
  · simp only [if_pos h, Option.map_some, Option.some.injEq]
    exact exists_setPhys k phys _ _
  · simp only [if_neg h]
    exact ⟨phys, rfl⟩

/-- `halt` does the same whatever memory holds. -/
lemma halt_setPhys (env : Env) (stale : Mem) (cur : Pid) (r : Regs) (status : UInt8) (phys : Mem) (k : Kernel) :
    ∃ phys', (k.setPhys phys).halt env stale cur r status =
      (k.halt env stale cur r status).map (·.setPhys phys') := by
  obtain ⟨phys0, hclear⟩ := clearUser_setPhys env phys k
  cases hk : k.clearUser env with
  | none =>
    rw [hk] at hclear
    exact ⟨phys, by simp only [halt, hclear, hk, Option.map_none, Option.bind_none]⟩
  | some k0 =>
    rw [hk] at hclear
    rw [halt_clear hclear, halt_clear hk]
    have hpcb : (k0.setPhys phys0).pcb = k0.pcb := rfl
    rw [hpcb]
    cases (k0.pcb cur).parent with
    | none => exact ⟨phys, rfl⟩
    | some q =>
      cases closeLoop (List.finRange 8) (k0.pcb cur).fd with
      | none => exact ⟨phys, rfl⟩
      | some fd =>
        exact leave_setPhys env stale cur q r status phys0
          (((k0.loadPageDirectory (k0.pcb q).pid).setPcb cur fun pcb => { pcb with fd }).releaseProcess cur q)

/-- Stores to the screen do not depend on what memory holds. -/
lemma storeLoop_setPhys (addr : Pid → Nat) (val : Pid → UInt8) (ps : List Pid) (phys : Mem) (v : Video) :
    ∃ phys', ps.foldl (fun v p => v.store (addr p) (val p)) { v with phys } =
      { ps.foldl (fun v p => v.store (addr p) (val p)) v with phys := phys' } := by
  induction ps generalizing v phys with
  | nil => exact ⟨phys, rfl⟩
  | cons p ps ih =>
    obtain ⟨phys0, hstore⟩ : ∃ phys0, ({ v with phys } : Video).store (addr p) (val p) =
        { v.store (addr p) (val p) with phys := phys0 } := by
      have hpa : ({ v with phys } : Video).kernelPa (addr p) = v.kernelPa (addr p) := rfl
      unfold Video.store
      rw [hpa]
      cases v.kernelPa (addr p) with
      | none => exact ⟨phys, rfl⟩
      | some pa => exact ⟨_, rfl⟩
    rw [List.foldl_cons, List.foldl_cons, hstore]
    exact ih phys0 _

/-- The status display does not depend on what memory holds. -/
lemma showStatus_setPhys (phys : Mem) (k : Kernel) :
    ∃ phys', (k.setPhys phys).showStatus = k.showStatus.setPhys phys' := by
  unfold showStatus
  have hflags : (k.setPhys phys).procIdUsed = k.procIdUsed ∧ (k.setPhys phys).active = k.active := ⟨rfl, rfl⟩
  rw [hflags.1, hflags.2]
  obtain ⟨phys', hloop⟩ := storeLoop_setPhys (fun p => Boss.video + 2 * (80 - 6 + p.val) + 1)
    (fun p => if k.procIdUsed p then (if k.active p then 0x20 else 0x40) else Terminal.attrib)
    (List.finRange 6) phys k.video
  exact ⟨phys', congrArg (fun v => { k with video := v }) hloop⟩

/-- The change of the process does the same whatever memory holds. -/
lemma switchProcess_setPhys (pid : Pid) (phys : Mem) (k : Kernel) :
    ∃ phys', (k.setPhys phys).switchProcess pid = (k.switchProcess pid).map (·.setPhys phys') := by
  obtain ⟨phys', hshow⟩ := showStatus_setPhys phys k
  refine ⟨phys', ?_⟩
  unfold switchProcess
  have hsame : (k.setPhys phys).active = k.active ∧ (k.setPhys phys).pcb = k.pcb := ⟨rfl, rfl⟩
  rw [hsame.1, hshow]
  cases getNextProc k.active 6 pid with
  | none => rfl
  | some next =>
    simp only [Option.bind_some, setPhys, Option.map_map]
    rfl

/-- `sched` does the same whatever memory holds. -/
lemma sched_setPhys (env : Env) (stale : Mem) (cur : Pid) (r : Regs) (phys : Mem) (k : Kernel) :
    ∃ phys', (k.setPhys phys).sched env stale cur r = (k.sched env stale cur r).map (·.setPhys phys') := by
  unfold sched
  have hsave : (k.setPhys phys).saveContext cur r = (k.saveContext cur r).setPhys phys := rfl
  have hpid : ((k.setPhys phys).pcb cur).pid = (k.pcb cur).pid := rfl
  rw [hsave, hpid]
  generalize k.saveContext cur r = k0
  have hshells : (k0.setPhys phys).shellsStarted = k0.shellsStarted := rfl
  simp only [hshells]
  split
  · obtain ⟨phys', hexec⟩ := execute_setPhys env stale cur r (some env.shell) phys
      { k0 with shellsStarted := k0.shellsStarted + 1 }
    have hsame : ({ k0.setPhys phys with shellsStarted := k0.shellsStarted + 1 } : Kernel) =
        ({ k0 with shellsStarted := k0.shellsStarted + 1 } : Kernel).setPhys phys := rfl
    rw [hsame, hexec]
    cases ({ k0 with shellsStarted := k0.shellsStarted + 1 } : Kernel).execute env stale cur r (some env.shell) with
    | refused m k1 => exact switchProcess_setPhys _ phys' k1
    | started eip k1 => exact ⟨phys', rfl⟩
    | faulted k1 => exact halt_setPhys env stale cur r 0xFF phys' k1
  · exact switchProcess_setPhys _ phys k0

/-- The call of `execute` does the same whatever memory holds. -/
lemma callExecute_setPhys (env : Env) (e : Entry) (cur : Pid) (command : Option Command) (phys : Mem) (k : Kernel) :
    ∃ phys', (k.setPhys phys).callExecute env e cur command =
      (k.callExecute env e cur command).map (·.setPhys phys') := by
  unfold callExecute
  have hregs : (k.setPhys phys).entryRegs e = k.entryRegs e := rfl
  rw [hregs]
  obtain ⟨phys', hexec⟩ := execute_setPhys env e.stale cur (k.entryRegs e) command phys k
  rw [hexec]
  cases k.execute env e.stale cur (k.entryRegs e) command with
  | refused m k1 => exact ⟨phys', rfl⟩
  | started eip k1 => exact ⟨phys', rfl⟩
  | faulted k1 => exact halt_setPhys env e.stale cur (k.entryRegs e) 0xFF phys' k1

/-- A step that has nothing to do with the screens does the same whatever memory holds. -/
lemma step_setPhys (env : Env) (hi : i.Plain) (phys : Mem) (k : Kernel) :
    ∃ phys', (k.setPhys phys).step env i = (k.step env i).map (·.setPhys phys') := by
  have hregs : ∀ e, (k.setPhys phys).entryRegs e = k.entryRegs e := fun _ => rfl
  cases i with
  | execute e command =>
    simp only [step, hregs]
    cases curPcb (k.entryRegs e).esp with
    | none => exact ⟨phys, rfl⟩
    | some cur => exact callExecute_setPhys env e cur command phys k
  | halt e status =>
    simp only [step, hregs]
    cases curPcb (k.entryRegs e).esp with
    | none => exact ⟨phys, rfl⟩
    | some cur => exact halt_setPhys env e.stale cur (k.entryRegs e) status phys k
  | tick e =>
    simp only [step, hregs]
    cases curPcb (k.entryRegs e).esp with
    | none => exact ⟨phys, rfl⟩
    | some cur => exact sched_setPhys env e.stale cur (k.entryRegs e) phys k
  | vidmap e screenStart => exact hi.elim
  | switchTerminals term => exact hi.elim

/-- An entry of the log is the same, but for the memory it shows. -/
lemma newStart_setPhys (phys phys' : Mem) (byUser : Bool) (file : Option Dentry) (k k' : Kernel) :
    ((k.setPhys phys).newStart (k'.setPhys phys') byUser file).map Start.erase =
      (k.newStart k' byUser file).map Start.erase := by
  have hlog : (k.setPhys phys).log = k.log ∧ (k'.setPhys phys').log = k'.log := ⟨rfl, rfl⟩
  simp only [newStart, hlog.1, hlog.2]
  split
  · split <;> rfl
  · rfl

/-- The programs that an input starts are the same, but for the memory they see. -/
lemma startsOf_setPhys (env : Env) (phys phys' : Mem) (k k' : Kernel) (i : Input) :
    ((k.setPhys phys).startsOf env (k'.setPhys phys') i).map Start.erase =
      (k.startsOf env k' i).map Start.erase := by
  cases i with
  | execute e command =>
    have hregs : (k.setPhys phys).entryRegs e = k.entryRegs e := rfl
    simp only [startsOf, hregs]
    cases curPcb (k.entryRegs e).esp with
    | none => exact newStart_setPhys phys phys' true _ k k'
    | some cur =>
      obtain ⟨phys1, hexec⟩ := execute_setPhys env e.stale cur (k.entryRegs e) command phys k
      simp only [Option.map_some, hexec]
      cases k.execute env e.stale cur (k.entryRegs e) command with
      | refused m k1 => exact newStart_setPhys phys phys' true _ k k'
      | started eip k1 => exact newStart_setPhys phys phys' true _ k k'
      | faulted k1 => exact newStart_setPhys phys phys' false _ k k'
  | _ => exact newStart_setPhys phys phys' false _ k k'

end Kernel

end Boss
