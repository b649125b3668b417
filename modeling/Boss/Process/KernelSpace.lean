import Boss.Process.Isolation

/-!
# The kernel's part of an address space

An interrupt or a system call runs in whatever page directory is loaded, so the first 8MB must look the same in all of
them: the page tables of the screens below 4MB, and the kernel itself, in its place, up to 8MB. No function of the kernel
keeps them so in one place. `execute` writes the two entries when it gives a page directory to a program, `vidmap` writes
into a directory in use, and `halt` and `sched` load one that was filled long before.

`kernel_stays_mapped` says that it works out: in every state, the directory that is loaded, those that `sched` can load and
those that `halt` can load have the kernel in them, closed to user code. It also says what the functions that draw on the
screens rely on: below 4MB an address goes where `Video.kernelPa` says.
-/

namespace Boss
open Lib Lib.Paging

namespace Kernel

/-- The first two entries of the page directory of a program. -/
structure SharedEntries (env : Env) (dir : Nat → Nat) : Prop where
  video : dir 0 = env.link.videoPageTable * 4096 ||| flagWriteEnable ||| flagPresent
  kernel : dir 1 = mb4 ||| flag4mbPage ||| flagWriteEnable ||| flagPresent ||| flagGlobal

/-- In the page directory of `p` there is the kernel, which user code cannot touch. -/
def MapsKernel (env : Env) (k : Kernel) (p : Pid) : Prop :=
  ∀ va < 0x800000, walk (k.video.tables env.link) (k.procPageDirectory p) va =
    if va < 0x400000 then (k.video.kernelPa va).map fun pa => ⟨pa, false⟩ else some ⟨va, false⟩

variable {env : Env} {k k' : Kernel} {s s' : ProcStacks} {cur cur' : TermId} {p q : Pid} {i : Input} {lost : Option Pid}
  {dir : Nat → Nat}

/-- `execute` sets both entries. -/
lemma SharedEntries.programDir : SharedEntries env (Kernel.programDir env p dir) := ⟨rfl, rfl⟩

/-- Below 4MB the table of the screens decides. -/
lemma SharedEntries.walk_video {va : Nat} {v : Video} (h : SharedEntries env dir) (hva : va < 0x400000) :
    walk (v.tables env.link) dir va = (v.kernelPa va).map fun pa => ⟨pa, false⟩ := by
  have hword : dir 0 = env.link.videoPageTable <<< 12 ||| (flagWriteEnable ||| flagPresent) := by
    rw [h.video, Nat.or_assoc, Nat.shiftLeft_eq]
  have hpresent : present (dir 0) = true := by
    rw [hword, present, Word.testBit_or_low (by decide)]
    rfl
  have hlarge : large (dir 0) = false := by
    rw [hword, large, Word.testBit_or_low (by decide)]
    rfl
  have huser : userBit (dir 0) = false := by
    rw [hword, userBit, Word.testBit_or_low (by decide)]
    rfl
  have htable : v.tables env.link (frame (dir 0)) = some v.videoPageTable := by
    rw [hword, frame, Word.base_of_or (by decide)]
    exact if_pos rfl
  simp only [walk, Nat.div_eq_of_lt hva, hpresent, hlarge, huser, htable, if_true, Bool.false_eq_true, if_false,
    Option.bind_some, Bool.false_and, Video.kernelPa]
  split
  · rfl
  · rfl

/-- From 4MB to 8MB the kernel is where it is. -/
lemma SharedEntries.walk_kernel {va : Nat} {v : Video} (h : SharedEntries env dir) (hlow : 0x400000 ≤ va)
    (hhigh : va < 0x800000) : walk (v.tables env.link) dir va = some ⟨va, false⟩ := by
  have hindex : va / 0x400000 = 1 := by omega
  have hpresent : present (dir 1) = true := by
    rw [h.kernel]
    rfl
  have hlarge : large (dir 1) = true := by
    rw [h.kernel]
    rfl
  have huser : userBit (dir 1) = false := by
    rw [h.kernel]
    rfl
  have hbase : dir 1 / 0x400000 * 0x400000 = 0x400000 := by
    rw [h.kernel]
    rfl
  have hpa : 0x400000 + va % 0x400000 = va := by omega
  simp only [walk, hindex, hpresent, hlarge, huser, hbase, if_true, hpa]

/-- The entries map the kernel. -/
lemma SharedEntries.mapsKernel (h : SharedEntries env (k.procPageDirectory p)) : MapsKernel env k p := by
  intro va hva
  split
  · next hlow => exact h.walk_video hlow
  · next hlow => exact h.walk_kernel (Nat.not_lt.mp hlow) hva

/-- The page directory of every process on the stacks is in order, and that of every free slot is fit for a new one. -/
structure Directories (used free : (Nat → Nat) → Prop) (k : Kernel) (s : ProcStacks) : Prop where
  used : ∀ p, s.Mem p → used (k.procPageDirectory p)
  free : ∀ p, k.procIdUsed p = false → free (k.procPageDirectory p)

/-- Two notions of order that `execute`, `vidmap` and `halt` keep. -/
structure DirectoryOrder (env : Env) (used free : (Nat → Nat) → Prop) : Prop where
  fill : ∀ p dir, free dir → used (Kernel.programDir env p dir)
  map : ∀ dir w, used dir → used (Function.update dir (userVideo / 0x400000) w)
  leave : ∀ dir, used dir → free dir

/-- A slot that is free after a fault was free before it and is not the one lost. -/
lemma Kept.free_of_free (hk : Kept k k' lost) (hp : k'.procIdUsed p = false) :
    k.procIdUsed p = false ∧ lost ≠ some p := by
  have hused := hk.used p
  rw [hp] at hused
  simp only [Bool.false_eq_true, false_iff, not_or] at hused
  exact ⟨Bool.eq_false_iff.mpr hused.1, hused.2⟩

/-- A move keeps the page directories in order. -/
lemma Move.directories {used free : (Nat → Nat) → Prop} (horder : DirectoryOrder env used free) (h : k.Runs s cur)
    (hd : Directories used free k s) (hm : Move env k s cur i lost k' s' cur') : Directories used free k' s' := by
  cases hm with
  | stay kept =>
    refine ⟨fun p hp => ?_, fun p hp => ?_⟩
    · rw [kept.dirs p nofun]
      exact hd.used p hp
    · rw [kept.dirs p nofun]
      exact hd.free p (kept.free_of_free hp).1
  | display => exact ⟨hd.used, hd.free⟩
  | map mapped =>
    refine ⟨fun p hp => ?_, fun p hp => ?_⟩
    · rw [mapped.dirs, h.1.pid _ h.1.running.mem]
      by_cases hpr : p = k.running
      · rw [hpr, Function.update_self]
        exact horder.map _ _ (hd.used _ h.1.running.mem)
      · rw [Function.update_of_ne hpr]
        exact hd.used p hp
    · rw [mapped.used] at hp
      have hpr : p ≠ k.running := by
        rintro rfl
        rw [h.1.used _ h.1.running.mem] at hp
        cases hp
      rw [mapped.dirs, h.1.pid _ h.1.running.mem, Function.update_of_ne hpr]
      exact hd.free p hp
  | @start e command k' pid r starts free fresh started onStack =>
    refine ⟨fun p hp => ?_, fun p hp => ?_⟩
    · rw [started.dirs]
      by_cases hpp : p = pid
      · rw [hpp, Function.update_self]
        exact horder.fill _ _ (hd.free _ (freePid_eq_some.mp free).1)
      · rw [Function.update_of_ne hpp]
        exact hd.used p ((Stacks.mem_push.mp hp).resolve_left hpp)
    · obtain ⟨hpp, hp⟩ := started.free_of_free hp
      rw [started.dirs, Function.update_of_ne hpp]
      exact hd.free p hp
  | exit ends fits kept stack released cr3 esp0 switched =>
    have hpid := (kept.shells_of h.1).pid _ h.1.running.mem
    refine ⟨fun p hp => ?_, fun p hp => ?_⟩
    · have hmem : s.Mem p := ((Stacks.mem_pop h.1.running).mp hp).1
      rw [switched.dirs, released.dirs, kept.dirs p (kept.ne_lost (h.1.used p hmem))]
      exact hd.used p hmem
    · rw [switched.used, released.used, hpid] at hp
      rw [switched.dirs, released.dirs]
      by_cases hpr : p = k.running
      · rw [hpr, kept.dirs _ (kept.ne_lost (h.1.used _ h.1.running.mem))]
        exact horder.leave _ (hd.used _ h.1.running.mem)
      · rw [Function.update_of_ne hpr] at hp
        obtain ⟨hfree, hlost⟩ := kept.free_of_free hp
        rw [kept.dirs p hlost]
        exact hd.free p hfree
  | restart ends fits kept stack released started =>
    have hpid := (kept.shells_of h.1).pid _ h.1.running.mem
    refine ⟨fun p hp => ?_, fun p hp => ?_⟩
    · rw [started.dirs, released.dirs]
      by_cases hpr : p = k.running
      · rw [hpr, Function.update_self, kept.dirs _ (kept.ne_lost (h.1.used _ h.1.running.mem))]
        exact horder.fill _ _ (horder.leave _ (hd.used _ h.1.running.mem))
      · rw [Function.update_of_ne hpr, kept.dirs p (kept.ne_lost (h.1.used p hp))]
        exact hd.used p hp
    · obtain ⟨hpr, hp⟩ := started.free_of_free hp
      rw [released.used, hpid, Function.update_of_ne hpr] at hp
      obtain ⟨hfree, hlost⟩ := kept.free_of_free hp
      rw [started.dirs, Function.update_of_ne hpr, released.dirs, kept.dirs p hlost]
      exact hd.free p hfree
  | tick onStack top cr3 esp0 switched =>
    refine ⟨fun p hp => ?_, fun p hp => ?_⟩
    · rw [switched.dirs]
      exact hd.used p hp
    · rw [switched.used] at hp
      rw [switched.dirs]
      exact hd.free p hp

/-- The first two entries are there from the start of a program on, whatever the slot had before. -/
lemma sharedEntries_order : DirectoryOrder env (SharedEntries env) fun _ => True where
  fill _ _ _ := .programDir
  map _ _ h := ⟨(Function.update_of_ne (by decide) ..).trans h.video,
    (Function.update_of_ne (by decide) ..).trans h.kernel⟩
  leave _ _ := trivial

/-- The process that an active one goes back to is on the same stack, or it is a root itself. -/
lemma Shells.mem_parent (h : k.Shells s cur) (hp : k.active p = true) (hq : (k.pcb p).parent = some q) : s.Mem q := by
  obtain ⟨t, htop⟩ := (h.active p).mp hp
  obtain ⟨rest, hstack⟩ := List.head?_eq_some_iff.mp htop
  cases rest with
  | nil =>
    have hbase := h.base t
    rw [hstack] at hbase
    have hroot : p = root t := Option.some.inj hbase
    have hparent := h.roots t
    rw [← hroot, hq] at hparent
    cases hparent
    exact htop.mem
  | cons q' rest =>
    have hchain := h.chain t
    rw [hstack] at hchain
    have hparent := (List.isChain_cons_cons.mp hchain).1.parent
    rw [hq] at hparent
    cases hparent
    exact ⟨t, by simp [hstack]⟩

end Kernel

/-- In every run from three root shells the kernel stays mapped, in its place and closed to user code: in the page
directory that is loaded, which is that of the running process, in those of all active processes, and in those of their
parents. -/
theorem kernel_stays_mapped (env : Env) (k : Kernel) (hk : RootShells k) (hpages : RootPages env k) (is : List Input)
    (k' : Kernel) (hrun : (procSystem env).run k is = some k') :
    k'.directory env = k'.procPageDirectory k'.running ∧ k'.active k'.running = true ∧
      ∀ p, k'.active p = true → k'.MapsKernel env p ∧
        ∀ q, (k'.pcb p).parent = some q → k'.MapsKernel env q := by
  obtain ⟨cur, hruns⟩ := hk.runs
  have hstart : Kernel.Directories (Kernel.SharedEntries env) (fun _ => True) k rootStacks := by
    refine ⟨fun p hp => ?_, fun _ _ => trivial⟩
    obtain ⟨t, rfl⟩ : ∃ t, p = root t := ⟨⟨p.val, Nat.lt_succ_of_le (rootStacks_mem.mp hp)⟩, rfl⟩
    rw [hpages.roots t]
    exact .programDir
  have hinv : ∃ s cur, k'.Runs s cur ∧ Kernel.Directories (Kernel.SharedEntries env) (fun _ => True) k' s := by
    refine System.run_invariant (I := fun k => ∃ s cur, k.Runs s cur ∧
      Kernel.Directories (Kernel.SharedEntries env) (fun _ => True) k s) ?_ ⟨rootStacks, cur, hruns, hstart⟩ hrun
    rintro k i k' ⟨s, cur, h, hall⟩ hstep
    obtain ⟨lost, s', cur', hmove, h'⟩ := h.step_inv hstep
    exact ⟨s', cur', h', hmove.directories Kernel.sharedEntries_order h hall⟩
  obtain ⟨s, cur, h, hall⟩ := hinv
  refine ⟨?_, (h.1.active _).mpr ⟨cur, h.1.running⟩, fun p hp => ⟨?_, fun q hq => ?_⟩⟩
  · rw [Kernel.directory, h.2]
  · obtain ⟨t, htop⟩ := (h.1.active p).mp hp
    exact (hall.used p htop.mem).mapsKernel
  · exact (hall.used q (h.1.mem_parent hp hq)).mapsKernel

/-- Shell 0 runs a program, which calls `vidmap` and ends. -/
theorem kernel_stays_mapped_vidmap : ∃ k', (procSystem shellEnv).run threeShells
      [.execute someEntry (some shellEnv.shell), .vidmap someEntry 0x08000000, .halt someEntry 0] = some k' ∧
    k'.directory shellEnv = k'.procPageDirectory k'.running ∧ k'.active k'.running = true ∧
      ∀ p, k'.active p = true → k'.MapsKernel shellEnv p ∧
        ∀ q, (k'.pcb p).parent = some q → k'.MapsKernel shellEnv q := by
  obtain ⟨k', hrun⟩ : ∃ k', (procSystem shellEnv).run threeShells
      [.execute someEntry (some shellEnv.shell), .vidmap someEntry 0x08000000, .halt someEntry 0] = some k' := ⟨_, rfl⟩
  exact ⟨k', hrun, kernel_stays_mapped shellEnv threeShells threeShells_root threeShells_pages _ k' hrun⟩

end Boss
