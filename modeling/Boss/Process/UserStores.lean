import Boss.Process.KernelSpace

/-!
# Stores through user pointers

The system calls that store through a pointer of the caller: `read` with each driver behind it, `getargs` and `vidmap`.
They run in kernel mode in the address space of the process, so a store goes wherever the page directory of the process has
a page, and the first byte that has none ends the call. `StoreCall.writes` is the list of the addresses that are written.

`read` and `vidmap` test their pointer, though not the end of what they store; that is enough, since no process has the end
of the address space mapped and a range cannot come round to address 0. `getargs` tests nothing. It writes into the kernel
exactly when it has a byte to store and its pointer is on a page of the kernel (`stores_stay_out_of_kernel_iff`).
-/

namespace Boss
open Lib Lib.Paging

/-- A call that stores through a pointer, with the state it finds. -/
inductive StoreCall
  | read (fds : Fds) (T : Terminal) (fd : Int) (buf nbytes : UInt32)
  | getargs (args : CString) (buf nbytes : UInt32)
  | vidmap (screenStart : UInt32)

namespace StoreCall

/-- The pointer. -/
def ptr : StoreCall → Nat
  | read _ _ _ buf _ => buf.toNat
  | getargs _ buf _ => buf.toNat
  | vidmap screenStart => screenStart.toNat

/-- The bytes a call has for its pointer; a page fault on what it loads can only cut them short. -/
def stored (fs : Image) : StoreCall → List UInt8
  | read fds T fd buf nbytes =>
    match sysRead fs T fds fd buf.toNat nbytes.toNat with
    | some (r, _) => r.stored
    | none => []
  | getargs args _ nbytes => (Boss.getargs args nbytes).stored
  | vidmap screenStart => (vidmapStore screenStart.toNat).stored

/-- The addresses a call of the running process writes: byte by byte up to a page fault, and for the one word of `vidmap`
all or none. -/
def writes (env : Env) (k : Kernel) (c : StoreCall) : List Nat :=
  let addrs := storedAt (k.video.tables env.link) (k.directory env) c.ptr (c.stored env.fs)
  match c with
  | read _ _ _ _ _ | getargs _ _ _ => addrs
  | vidmap _ => if addrs.length = 4 then addrs else []

/-- `getargs` has a byte to store, and a pointer to one of the pages that the kernel has in every address space. -/
def HitsKernel : StoreCall → Prop
  | read _ _ _ _ _ | vidmap _ => False
  | getargs args buf nbytes => args.length ≤ nbytes.toNat ∧ 0 < nbytes.toInt32.toInt ∧
      isKernelPtr buf.toNat = true ∧ programMapped buf.toNat = true

variable {env : Env} {k : Kernel} {fs : Image} {c : StoreCall} {a : Nat}

/-- Pointers have 32 bits. -/
lemma ptr_lt : c.ptr < 0x100000000 := by
  cases c with
  | read _ _ _ buf _ => exact buf.toNat_lt
  | getargs _ buf _ => exact buf.toNat_lt
  | vidmap screenStart => exact screenStart.toNat_lt

/-- What is written is what the page directory lets through. -/
lemma mem_storedAt (h : a ∈ c.writes env k) :
    a ∈ storedAt (k.video.tables env.link) (k.directory env) c.ptr (c.stored env.fs) := by
  cases c with
  | read | getargs => exact h
  | vidmap screenStart =>
    simp only [writes] at h
    split at h
    · exact h
    · cases h

/-- `read` stores nothing through a kernel pointer. -/
lemma stored_read {fds : Fds} {T : Terminal} {fd : Int} {buf nbytes : UInt32} (hptr : isKernelPtr buf.toNat = true) :
    (read fds T fd buf nbytes).stored fs = [] := by
  simp only [stored, sysRead, hptr, or_true, if_true]
  split
  · next hread =>
    split at hread
    · cases hread
      rfl
    · cases hread
      rfl
  · rfl

/-- Nor does `vidmap`. -/
lemma stored_vidmap {screenStart : UInt32} (hptr : isKernelPtr screenStart.toNat = true) :
    (vidmap screenStart).stored fs = [] := congrArg Result.stored (if_pos (Or.inr hptr))

/-- When `getargs` has a byte to store. -/
lemma stored_getargs {args : CString} {buf nbytes : UInt32} :
    (getargs args buf nbytes).stored fs ≠ [] ↔ args.length ≤ nbytes.toNat ∧ 0 < nbytes.toInt32.toInt := by
  simp only [stored, Boss.getargs]
  split
  · next hlong =>
    refine iff_of_false (fun h => h rfl) fun h => ?_
    omega
  · next hlong =>
    have hfits : args.length ≤ nbytes.toNat := Nat.not_lt.mp hlong
    simp only [hfits, true_and]
    generalize hn : (if nbytes.toInt32.toInt > 128 then 128 else nbytes.toInt32.toInt) = n
    have hpos : 0 < n ↔ 0 < nbytes.toInt32.toInt := by
      subst hn
      split <;> omega
    rw [← hpos]
    cases hfuel : n.toNat with
    | zero => exact iff_of_false (fun h => h rfl) (by omega)
    | succ fuel =>
      refine iff_of_true ?_ (by omega)
      unfold getargsLoop
      split
      · exact List.cons_ne_nil _ _
      · exact List.cons_ne_nil _ _

end StoreCall

namespace Kernel
variable {env : Env} {k k' : Kernel} {s : ProcStacks} {cur : TermId} {dir : Nat → Nat}

/-- A page directory with the kernel's entries, and without any for the last 4MB. -/
structure LowEntries (env : Env) (dir : Nat → Nat) : Prop where
  shared : SharedEntries env dir
  last : dir 1023 = 0

/-- No function maps the last 4MB. -/
lemma lowEntries_order : DirectoryOrder env (LowEntries env) fun dir => dir 1023 = 0 where
  fill _ _ h := ⟨.programDir, (programDir_other (by decide) (by decide) (by decide)).trans h⟩
  map _ _ h := ⟨sharedEntries_order.map _ _ h.shared, (Function.update_of_ne (by decide) ..).trans h.last⟩
  leave _ h := h.last

/-- The last byte of the address space has no page. -/
lemma LowEntries.walk_last {v : Video} (h : LowEntries env dir) : walk (v.tables env.link) dir 0xFFFFFFFF = none := by
  have hindex : 0xFFFFFFFF / 0x400000 = 1023 := rfl
  have habsent : present 0 = false := rfl
  simp only [walk, hindex, h.last, habsent, Bool.false_eq_true, if_false]

/-- Which addresses of the kernel have a page. -/
lemma SharedEntries.walk_isSome {va : Nat} {v : Video} (h : SharedEntries env dir) (hv : v.Mapped)
    (honly : v.OnlyScreens) (hva : isKernelPtr va = true) :
    (walk (v.tables env.link) dir va).isSome = programMapped va := by
  have hlt : va < 0x800000 := of_decide_eq_true hva
  rcases Nat.lt_or_ge va 0x400000 with hlow | hhigh
  · rw [h.walk_video hlow, Option.isSome_map, Video.Maps.kernelPa_isSome hv honly hlow]
  · rw [h.walk_kernel hhigh hlt]
    refine (decide_eq_true (Or.inr (Or.inl ?_))).symm
    omega

/-- The address spaces, in every state of a run. -/
structure Spaces (env : Env) (k : Kernel) (s : ProcStacks) : Prop where
  video : k.video.Mapped
  only : k.video.OnlyScreens
  dirs : Directories (LowEntries env) (fun dir => dir 1023 = 0) k s

/-- The relation is transitive. -/
lemma SameTables.trans {k'' : Kernel} (h : SameTables k k') (h' : SameTables k' k'') : SameTables k k'' :=
  ⟨h'.page.trans h.page, h'.term.trans h.term, h'.cur.trans h.cur⟩

/-- Without a change of the tables the screens stay where they are. -/
lemma SameTables.onlyScreens (ht : SameTables k k') (h : k.video.OnlyScreens) : k'.video.OnlyScreens := by
  intro i hi
  rw [ht.page]
  exact h i hi

/-- A move changes the tables as a switch does, or not at all. -/
lemma Move.tables {s' : ProcStacks} {cur' : TermId} {i : Input} {lost : Option Pid}
    (hm : Move env k s cur i lost k' s' cur') :
    SameTables k k' ∨ ∃ term, k'.video = k.video.switchTerminals term := by
  cases hm with
  | stay kept => exact Or.inl kept.tables
  | display term => exact Or.inr ⟨term, rfl⟩
  | map mapped => exact Or.inl mapped.tables
  | start starts free fresh started => exact Or.inl started.tables
  | exit ends fits kept stack released cr3 esp0 switched =>
    exact Or.inl ((kept.tables.trans released.tables).trans switched.tables)
  | restart ends fits kept stack released started =>
    exact Or.inl ((kept.tables.trans released.tables).trans started.tables)
  | tick onStack top cr3 esp0 switched =>
    exact Or.inl ⟨switched.tables.page, switched.tables.term, switched.tables.cur⟩

/-- A move keeps the address spaces in order. -/
lemma Move.spaces {s' : ProcStacks} {cur' : TermId} {i : Input} {lost : Option Pid} (h : k.Runs s cur)
    (hs : Spaces env k s) (hm : Move env k s cur i lost k' s' cur') : Spaces env k' s' := by
  have hdirs := hm.directories lowEntries_order h hs.dirs
  rcases hm.tables with ht | ⟨term, ht⟩
  · exact ⟨ht.mapped hs.video, ht.onlyScreens hs.only, hdirs⟩
  · refine ⟨?_, ?_, hdirs⟩
    · rw [ht]
      exact Video.Mapped.switch hs.video term
    · rw [ht]
      exact hs.only.switch term

/-- The page directory of the running process, in every state of a run. -/
lemma Spaces.running (h : k.Runs s cur) (hs : Spaces env k s) : LowEntries env (k.directory env) := by
  rw [directory, h.2]
  exact hs.dirs.used _ h.1.running.mem

end Kernel

/-- The address spaces of the three roots. -/
lemma RootPages.spaces {env : Env} {k : Kernel} (h : RootPages env k) (honly : k.video.OnlyScreens) :
    Kernel.Spaces env k rootStacks := by
  refine ⟨h.video, honly, fun p hp => ?_, fun p _ => ?_⟩
  · obtain ⟨t, rfl⟩ : ∃ t, p = root t := ⟨⟨p.val, Nat.lt_succ_of_le (rootStacks_mem.mp hp)⟩, rfl⟩
    rw [h.roots t]
    exact Kernel.lowEntries_order.fill _ _ rfl
  · by_cases hp : p.val ≤ 2
    · obtain ⟨t, rfl⟩ : ∃ t, p = root t := ⟨⟨p.val, Nat.lt_succ_of_le hp⟩, rfl⟩
      rw [h.roots t]
      exact (Kernel.lowEntries_order.fill _ _ rfl).last
    · rw [h.free p (Nat.not_le.mp hp)]

namespace StoreCall
variable {env : Env} {k : Kernel} {c : StoreCall}

/-- A call that does not hit the kernel and has a byte to store has no kernel pointer, or one without a page. -/
lemma quiet_of_not_hits (hdir : Kernel.LowEntries env (k.directory env)) (hv : k.video.Mapped)
    (honly : k.video.OnlyScreens) (hmiss : ¬ c.HitsKernel) (hptr : isKernelPtr c.ptr = true) :
    storedAt (k.video.tables env.link) (k.directory env) c.ptr (c.stored env.fs) = [] := by
  cases c with
  | read fds T fd buf nbytes =>
    rw [stored_read hptr]
    rfl
  | vidmap screenStart =>
    rw [stored_vidmap hptr]
    rfl
  | getargs args buf nbytes =>
    by_cases hstored : (getargs args buf nbytes).stored env.fs = []
    · rw [hstored]
      rfl
    · have hfits := stored_getargs.mp hstored
      have hpage : ¬ programMapped buf.toNat = true := fun hpage => hmiss ⟨hfits.1, hfits.2, hptr, hpage⟩
      refine storedAt_unmapped ptr_lt (Option.not_isSome_iff_eq_none.mp ?_)
      rwa [hdir.shared.walk_isSome hv honly hptr]

end StoreCall

/-- In every run from three root shells, a call of the running process writes no kernel address exactly when it is not a
`getargs` that has a byte to store and a pointer into the kernel's 4MB or the pages of the screens. -/
theorem stores_stay_out_of_kernel_iff (env : Env) (k : Kernel) (hk : RootShells k) (hpages : RootPages env k)
    (honly : k.video.OnlyScreens) (is : List Input) (k' : Kernel) (hrun : (procSystem env).run k is = some k')
    (c : StoreCall) : (∀ a ∈ c.writes env k', ¬ isKernelPtr a) ↔ ¬ c.HitsKernel := by
  obtain ⟨cur, hruns⟩ := hk.runs
  obtain ⟨s, cur, h, hspaces⟩ : ∃ s cur, k'.Runs s cur ∧ Kernel.Spaces env k' s := by
    refine System.run_invariant (I := fun k => ∃ s cur, k.Runs s cur ∧ Kernel.Spaces env k s) ?_
      ⟨rootStacks, cur, hruns, hpages.spaces honly⟩ hrun
    rintro k i k' ⟨s, cur, h, hs⟩ hstep
    obtain ⟨lost, s', cur', hmove, h'⟩ := h.step_inv hstep
    exact ⟨s', cur', h', hmove.spaces h hs⟩
  have hdir := hspaces.running h
  constructor
  · intro hout hhits
    cases c with
    | read | vidmap => exact hhits
    | getargs args buf nbytes =>
      obtain ⟨hfits, hpos, hptr, hpage⟩ := hhits
      have hsome : (StoreCall.getargs args buf nbytes).stored env.fs ≠ [] := StoreCall.stored_getargs.mpr ⟨hfits, hpos⟩
      obtain ⟨b, bs, hstored⟩ := List.exists_cons_of_ne_nil hsome
      rw [← hdir.shared.walk_isSome hspaces.video hspaces.only hptr, Option.isSome_iff_exists] at hpage
      obtain ⟨t, ht⟩ := hpage
      refine hout buf.toNat ?_ hptr
      simp only [StoreCall.writes, hstored]
      exact mem_storedAt_self buf.toNat_lt ht
  · intro hmiss a ha hkernel
    have hmem := StoreCall.mem_storedAt ha
    have hle := le_of_mem_storedAt hdir.walk_last StoreCall.ptr_lt hmem
    have hlt : a < 0x800000 := of_decide_eq_true hkernel
    have hptr : isKernelPtr c.ptr = true := decide_eq_true (by omega)
    rw [StoreCall.quiet_of_not_hits hdir hspaces.video hspaces.only hmiss hptr] at hmem
    cases hmem

/-- The tables map the screens only. -/
lemma threeShells_onlyScreens : threeShells.video.OnlyScreens := Video.initKernelPd_onlyScreens _

/-- After an `execute` a read of many bytes at the end of the address space faults and writes nothing in the kernel. -/
theorem stores_stay_out_of_kernel_iff_wrap : ∃ k', (procSystem shellEnv).run threeShells
      [.execute someEntry (some shellEnv.shell)] = some k' ∧
    ∀ a ∈ (StoreCall.read freshFds .blank 0 0xFFFFFFFE 129).writes shellEnv k', ¬ isKernelPtr a := by
  obtain ⟨k', hrun⟩ : ∃ k', (procSystem shellEnv).run threeShells [.execute someEntry (some shellEnv.shell)] = some k' :=
    ⟨_, rfl⟩
  exact ⟨k', hrun, (stores_stay_out_of_kernel_iff shellEnv threeShells threeShells_root threeShells_pages
    threeShells_onlyScreens _ k' hrun _).mpr id⟩

/-- `getargs` into the kernel's page stores the terminating zero there. -/
theorem getargs_writes_kernel_page : RootShells threeShells ∧ RootPages shellEnv threeShells ∧
    (StoreCall.getargs (.ofList []) 0x400000 128).writes shellEnv threeShells = [0x400000] ∧
    isKernelPtr 0x400000 = true := by
  refine ⟨threeShells_root, threeShells_pages, ?_, rfl⟩
  rfl

end Boss
