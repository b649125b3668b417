import Boss.Process.Kernel

/-!
# What `execute` does

One structure for each outcome of `execute`, with everything that changed, and the lemmas that read an
outcome off a call (`execute_refused`, `execute_started`, `execute_faulted`). All invariants of the process
table are derived from these; nothing below them unfolds `execute`.

A call that returns -1 has changed the history of commands and a PCB nobody uses. A call that faults has
taken a process number and keeps it. `execute_shell` says when the outcome is certain: the literal
`"shell"` is started whenever a process number is free and the image holds a program of that name that fits
the page of a process.
-/

namespace Boss
open Lib Lib.Paging

namespace Kernel

/-- The state that decides who runs is as it was. -/
structure SameControl (k k' : Kernel) : Prop where
  active : k'.active = k.active
  esp0 : k'.esp0 = k.esp0
  running : k'.running = k.running
  shells : k'.shellsStarted = k.shellsStarted
  log : k'.log = k.log

/-- The page tables of the screens are as they were. -/
structure SameTables (k k' : Kernel) : Prop where
  page : k'.video.videoPageTable = k.video.videoPageTable
  term : k'.video.termVideoTables = k.video.termVideoTables
  cur : k'.video.curTerminal = k.video.curTerminal

/-- `execute` has returned -1. -/
structure Refused (k k' : Kernel) : Prop where
  control : SameControl k k'
  tables : SameTables k k'
  used : k'.procIdUsed = k.procIdUsed
  cr3 : k'.cr3 = k.cr3
  dirs : k'.procPageDirectory = k.procPageDirectory
  pcb : ∀ p, k.procIdUsed p = true → k'.pcb p = k.pcb p

/-- `execute` has faulted with the process number `pid` taken. -/
structure Faulted (env : Env) (k k' : Kernel) (pid : Pid) : Prop where
  control : SameControl k k'
  tables : SameTables k k'
  used : k'.procIdUsed = Function.update k.procIdUsed pid true
  paging : (k'.cr3 = k.cr3 ∧ k'.procPageDirectory = k.procPageDirectory) ∨
    (k'.cr3 = some pid ∧ k'.procPageDirectory =
      Function.update k.procPageDirectory pid (programDir env pid (k.procPageDirectory pid)))
  pcb : ∀ p, p ≠ pid → k'.pcb p = k.pcb p

/-- `execute` has started a program as `pid` with the parent `q`. -/
structure Started (env : Env) (k k' : Kernel) (pid q : Pid) (t : TermId) (r : Regs) : Prop where
  tables : SameTables k k'
  used : k'.procIdUsed = Function.update k.procIdUsed pid true
  active : k'.active = Function.update (Function.update k.active (if pid = q then pid else (k.pcb q).pid)
    false) pid true
  dirs : k'.procPageDirectory =
    Function.update k.procPageDirectory pid (programDir env pid (k.procPageDirectory pid))
  cr3 : k'.cr3 = some pid
  esp0 : k'.esp0 = stackTop pid
  running : k'.running = pid
  shells : k'.shellsStarted = k.shellsStarted
  log : k'.log = .executeSaved q pid r :: k.log
  child : (k'.pcb pid).pid = pid ∧ (k'.pcb pid).parent = some q ∧ (k'.pcb pid).terminalId = t ∧
    (k'.pcb pid).fd = freshFds
  parent : q ≠ pid → k'.pcb q = { k.pcb q with esp0 := k.esp0, esp := r.esp, ebp := r.ebp, ss0 := kernelDs }
  others : ∀ p, p ≠ pid → p ≠ q → k'.pcb p = k.pcb p

end Kernel

/-- `execute` takes the least free process number. -/
lemma freePid_eq_some {used : Pid → Bool} {p : Pid} :
    freePid used = some p ↔ used p = false ∧ ∀ q < p, used q = true := by
  unfold freePid
  rw [List.find?_eq_some_iff_getElem]
  simp only [Bool.not_eq_true', List.getElem_finRange, List.length_finRange, Bool.not_not]
  refine and_congr_right fun _ => ⟨?_, ?_⟩
  · rintro ⟨i, hi, rfl, hall⟩ q hq
    exact hall q.val hq
  · intro hall
    exact ⟨p.val, p.isLt, rfl, fun j hj => hall ⟨j, by omega⟩ hj⟩

namespace Kernel
variable {env : Env} {stale : Mem} {k k' : Kernel} {cur pid q p : Pid} {t : TermId} {r : Regs}
  {c : Command} {command : Option Command} {len : Nat} {m : String} {eip : Nat}

/-- A slot that is free after a start was free before it, and the program has not taken it. -/
lemma Started.free_of_free (hs : Started env k k' pid q t r) (hp : k'.procIdUsed p = false) :
    p ≠ pid ∧ k.procIdUsed p = false := by
  rw [hs.used] at hp
  have hne : p ≠ pid := by
    rintro rfl
    rw [Function.update_self] at hp
    cases hp
  rw [Function.update_of_ne hne] at hp
  exact ⟨hne, hp⟩

/-- A store to user addresses changes memory only. -/
lemma storeUser_eq {va : Nat} {bs : List UInt8} : k.storeUser env va bs =
    (k.setPhys (storeBytes (k.video.tables env.link) (k.directory env) k.video.phys va bs).1,
      (storeBytes (k.video.tables env.link) (k.directory env) k.video.phys va bs).2) := rfl

/-- The ways through `startProgram`: refused, faulted at the history or at the load, started. -/
inductive Ways (env : Env) (k : Kernel) (pid q : Pid) (t : TermId) (r : Regs) : Outcome → Prop
  | refused (m : String) (hist : Nat → Mem) : Ways env k pid q t r (.refused m ((k.setHist t hist).setUsed pid false))
  | history (hist : Nat → Mem) : Ways env k pid q t r (.faulted (k.setHist t hist))
  | load (hist : Nat → Mem) (phys : Mem) :
    Ways env k pid q t r (.faulted (((k.setHist t hist).mapProgram env pid).setPhys phys))
  | started (hist : Nat → Mem) (phys : Mem) (eip : Nat) : Ways env k pid q t r
    (.started eip ((((k.setHist t hist).mapProgram env pid).setPhys phys).enterProgram pid q t r))

/-- `execute` behind its first checks, in all ways that it can end. -/
lemma startProgram_ways (k : Kernel) :
    Ways env k pid q t r (k.startProgram env stale pid q t r c len) := by
  unfold startProgram
  split
  · have hsame : k.setUsed pid false = (k.setHist t (k.cmdHist t)).setUsed pid false := by
      simp only [setHist, Function.update_eq_self]
    rw [hsame]
    exact .refused _ _
  · split
    next hist ok _ =>
    extract_lets k2
    split
    · split
      · rw [storeUser_eq]
        simp only
        split
        · exact .started _ _ _
        · exact .load _ _
      · exact .refused _ _
    · exact .history _

/-- The parent and the terminal of a program started as `pid` on the stack of `cur`. -/
def parentOf (cur pid : Pid) : Pid := if pid.val ≤ 2 then pid else cur

/-- The terminal of a program started as `pid` on the stack of `cur`. -/
def terminalOf (k : Kernel) (cur pid : Pid) : TermId :=
  if h : pid.val ≤ 2 then ⟨pid, terminal_lt pid h⟩ else (k.pcb cur).terminalId

/-- The ways through `execute`. -/
lemma execute_ways (env : Env) (stale : Mem) (cur : Pid) (r : Regs) (command : Option Command) (k : Kernel) :
    (∃ m, k.execute env stale cur r command = .refused m k ∧
      (command = none ∨ freePid k.procIdUsed = none)) ∨
    ∃ pid text, freePid k.procIdUsed = some pid ∧
      (k.execute env stale cur r command =
          .faulted ((k.setUsed pid true).setPcb pid fun _ => blankPcb pid text) ∨
        Ways env ((k.setUsed pid true).setPcb pid fun _ => blankPcb pid text) pid (parentOf cur pid)
          (k.terminalOf cur pid) r (k.execute env stale cur r command)) := by
  unfold execute
  cases command with
  | none => exact Or.inl ⟨_, rfl, Or.inl rfl⟩
  | some c =>
    simp only
    split
    · next hfree => exact Or.inl ⟨_, rfl, Or.inr hfree⟩
    · next pid hfree =>
      refine Or.inr ⟨pid, c.parse.1, hfree, ?_⟩
      cases hlen : c.parse.2 with
      | none => exact Or.inl rfl
      | some len => exact Or.inr (startProgram_ways _)

/-- What is done before a name is looked up touches the new process only. -/
lemma setUsed_free (hfree : freePid k.procIdUsed = some pid) :
    Function.update (Function.update k.procIdUsed pid true) pid false = k.procIdUsed := by
  rw [Function.update_idem, ← (freePid_eq_some.mp hfree).1, Function.update_eq_self]

/-- The new number is none of those in use. -/
lemma ne_of_used (hfree : freePid k.procIdUsed = some pid) (hp : k.procIdUsed p = true) : p ≠ pid := by
  rintro rfl
  rw [(freePid_eq_some.mp hfree).1] at hp
  cases hp

/-- What a refused `execute` leaves. -/
lemma execute_refused (h : k.execute env stale cur r command = .refused m k') : Refused k k' := by
  rcases execute_ways env stale cur r command k with ⟨m', hm, _⟩ | ⟨pid, text, hfree, hfault | hways⟩
  · rw [hm] at h
    cases h
    exact ⟨⟨rfl, rfl, rfl, rfl, rfl⟩, ⟨rfl, rfl, rfl⟩, rfl, rfl, rfl, fun _ _ => rfl⟩
  · rw [hfault] at h
    cases h
  · rw [h] at hways
    cases hways
    refine ⟨⟨rfl, rfl, rfl, rfl, rfl⟩, ⟨rfl, rfl, rfl⟩, setUsed_free hfree, rfl, rfl, fun p hp => ?_⟩
    exact Function.update_of_ne (ne_of_used hfree hp) _ _

/-- A command that is refused leaves the PCB it was to have zeroed. -/
lemma execute_refused_blank (hfree : freePid k.procIdUsed = some pid)
    (h : k.execute env stale cur r (some c) = .refused m k') : ∃ text, k'.pcb pid = blankPcb pid text := by
  rcases execute_ways env stale cur r (some c) k with ⟨m', _, hnone⟩ | ⟨pid', text, hfree', hfault | hways⟩
  · rcases hnone with hnone | hnone
    · cases hnone
    · rw [hfree] at hnone
      cases hnone
  · rw [hfault] at h
    cases h
  · rw [hfree] at hfree'
    cases hfree'
    rw [h] at hways
    cases hways
    exact ⟨text, Function.update_self ..⟩

/-- What an `execute` that faults leaves. -/
lemma execute_faulted (h : k.execute env stale cur r command = .faulted k') :
    ∃ pid, freePid k.procIdUsed = some pid ∧ Faulted env k k' pid := by
  rcases execute_ways env stale cur r command k with ⟨m', hm, _⟩ | ⟨pid, text, hfree, hfault | hways⟩
  · rw [hm] at h
    cases h
  · rw [hfault] at h
    cases h
    exact ⟨pid, hfree, ⟨rfl, rfl, rfl, rfl, rfl⟩, ⟨rfl, rfl, rfl⟩, rfl, Or.inl ⟨rfl, rfl⟩,
      fun p hp => Function.update_of_ne hp _ _⟩
  · rw [h] at hways
    cases hways with
    | history hist =>
      exact ⟨pid, hfree, ⟨rfl, rfl, rfl, rfl, rfl⟩, ⟨rfl, rfl, rfl⟩, rfl, Or.inl ⟨rfl, rfl⟩,
        fun p hp => Function.update_of_ne hp _ _⟩
    | load hist phys =>
      exact ⟨pid, hfree, ⟨rfl, rfl, rfl, rfl, rfl⟩, ⟨rfl, rfl, rfl⟩, rfl, Or.inr ⟨rfl, rfl⟩,
        fun p hp => Function.update_of_ne hp _ _⟩

/-- The PCBs after the last part of `execute`. -/
lemma enterProgram_child (k : Kernel) (pid q : Pid) (t : TermId) (r : Regs) :
    ((k.enterProgram pid q t r).pcb pid).pid = (k.pcb pid).pid ∧
    ((k.enterProgram pid q t r).pcb pid).parent = some q ∧
    ((k.enterProgram pid q t r).pcb pid).terminalId = t ∧
    ((k.enterProgram pid q t r).pcb pid).fd = Function.update (Function.update (k.pcb pid).fd 0
      { (k.pcb pid).fd 0 with fOp := some .stdin, flags := 1 }) 1
      { (k.pcb pid).fd 1 with fOp := some .stdout, flags := 1 } := by
  by_cases hq : pid = q
  · subst hq
    simp [enterProgram, setPcb, setActive]
  · simp [enterProgram, setPcb, setActive, Function.update_of_ne hq]

/-- The PCB of the parent gets the registers to return to. -/
lemma enterProgram_parent (hq : q ≠ pid) : (k.enterProgram pid q t r).pcb q =
    { k.pcb q with esp0 := k.esp0, esp := r.esp, ebp := r.ebp, ss0 := kernelDs } := by
  simp [enterProgram, setPcb, setActive, Function.update_of_ne hq]

/-- No other PCB is touched. -/
lemma enterProgram_others (hp : p ≠ pid) (hq : p ≠ q) :
    (k.enterProgram pid q t r).pcb p = k.pcb p := by
  simp [enterProgram, setPcb, setActive, Function.update_of_ne hp, Function.update_of_ne hq]

/-- The new process takes the place of its parent. -/
lemma enterProgram_active : (k.enterProgram pid q t r).active =
    Function.update (Function.update k.active (k.pcb q).pid false) pid true := by
  by_cases hq : q = pid
  · subst hq
    simp [enterProgram, setPcb, setActive]
  · simp [enterProgram, setPcb, setActive, Function.update_of_ne hq]

/-- The descriptor table of a started program. -/
lemma freshFds_eq : Function.update (Function.update (fun _ : Fin 8 => File.zero) 0
    { File.zero with fOp := some .stdin, flags := 1 }) 1
    { File.zero with fOp := some .stdout, flags := 1 } = freshFds := by
  funext i
  simp only [freshFds, Function.update_apply]
  fin_cases i <;> rfl

/-- What an `execute` that starts a program leaves. -/
lemma execute_started (h : k.execute env stale cur r command = .started eip k') :
    ∃ pid, freePid k.procIdUsed = some pid ∧
      Started env k k' pid (parentOf cur pid) (k.terminalOf cur pid) r := by
  rcases execute_ways env stale cur r command k with ⟨m', hm, _⟩ | ⟨pid, text, hfree, hfault | hways⟩
  · rw [hm] at h
    cases h
  · rw [hfault] at h
    cases h
  · rw [h] at hways
    cases hways with
    | started hist phys eip =>
      refine ⟨pid, hfree, ⟨rfl, rfl, rfl⟩, rfl, ?_, rfl, rfl, rfl, rfl, rfl, rfl, ?_, ?_, ?_⟩
      · rw [enterProgram_active]
        simp only [setPhys, mapProgram, setHist, setPcb, setUsed]
        by_cases hq : pid = parentOf cur pid
        · rw [if_pos hq, ← hq, Function.update_self]
          rfl
        · rw [if_neg hq, Function.update_of_ne (Ne.symm hq)]
      · obtain ⟨hpid, hparent, hterm, hfd⟩ := enterProgram_child
          (((((k.setUsed pid true).setPcb pid fun _ => blankPcb pid text).setHist _ hist).mapProgram
            env pid).setPhys phys) pid (parentOf cur pid) (k.terminalOf cur pid) r
        refine ⟨hpid.trans ?_, hparent, hterm, hfd.trans ?_⟩
        · simp [setPhys, mapProgram, setHist, setPcb, blankPcb]
        · simp only [setPhys, mapProgram, setHist, setPcb, blankPcb, Function.update_self]
          exact freshFds_eq
      · intro hq
        rw [enterProgram_parent hq]
        simp only [setPhys, mapProgram, setHist, setPcb, setUsed, Function.update_of_ne hq]
      · intro p hp hq
        rw [enterProgram_others hp hq]
        simp only [setPhys, mapProgram, setHist, setPcb, setUsed, Function.update_of_ne hp]

/-- Where the frame of a process is, and who may use it. -/
lemma frameEntry_spec (p : Pid) : present (frameEntry p) = true ∧ large (frameEntry p) = true ∧
    userBit (frameEntry p) = true ∧ frameEntry p / 0x400000 * 0x400000 = kernelTop + mb4 * p := by
  revert p
  decide

/-- The user page of a new process is its own frame. -/
lemma programDir_frame {dir : Nat → Nat} :
    programDir env pid dir (userMemLocation / 0x400000) = frameEntry pid := by
  simp [programDir]

end Kernel

/-- The bytes a read delivers are bytes of the file. -/
lemma Image.readData_length_le {fs : Image} {inode n : Nat} :
    (fs.readData inode 0 n).2.length ≤ fs.lengthBytes inode := by
  have hlen := fs.readData_length inode 0 n
  omega

/-- The room for a program behind `USER_PROG_LOCATION`. -/
def programRoom : Nat := userMemLocation + mb4 - userProgLocation

/-- An `execute` finds mapped what it touches, when there is a process number for it at all: the command as far as it is
parsed and, if its name is found, as far as it is entered into the history; and the page of the process behind what is
delivered of a file that passes the ELF test. -/
def Fits (env : Env) (stale : Mem) (k : Kernel) (command : Option Command) : Prop :=
  ∀ c pid, command = some c → freePid k.procIdUsed = some pid → ∃ len, c.parse.2 = some len ∧
    ∀ d, env.fs.readDentryByName c.parse.1 len = some d → c.HistMapped ∧
      (Kernel.isElf (Kernel.elfHead env.fs d.inode stale) = true →
        (env.fs.readData d.inode 0 mb4).2.length ≤ programRoom)

/-- A command names a program: it can be parsed, its name is found, and the file passes the ELF test. -/
def Starts (env : Env) (stale : Mem) (command : Option Command) : Prop :=
  ∃ c len d, command = some c ∧ c.parse.2 = some len ∧
    env.fs.readDentryByName c.parse.1 len = some d ∧
    Kernel.isElf (Kernel.elfHead env.fs d.inode stale) = true

/-- The image holds an ELF file named `shell` that fits into the page of a process. -/
def ShellLoads (env : Env) : Prop :=
  ∃ d, env.fs.lookup shellName = some d ∧
    (env.fs.readData d.inode 0 40).2.take 4 = [0x7f, 69, 76, 70] ∧
    env.fs.lengthBytes d.inode ≤ programRoom

namespace Kernel
variable {env : Env} {stale : Mem} {k k' : Kernel} {cur pid q p : Pid} {t : TermId} {r : Regs}
  {c : Command} {command : Option Command} {len : Nat} {m : String} {eip : Nat}

/-- A file that fits is loaded without a page fault. -/
lemma load_mapped {inode : Nat} (hfits : (env.fs.readData inode 0 mb4).2.length ≤ programRoom) :
    ((k.mapProgram env pid).storeUser env userProgLocation (env.fs.readData inode 0 mb4).2).2 = true := by
  rw [storeUser_eq]
  apply storeBytes_mapped
  intro i hi
  have hlen := Nat.lt_of_lt_of_le hi hfits
  have hva : (userProgLocation + i) % 0x100000000 / 0x400000 = userMemLocation / 0x400000 := by
    simp only [programRoom, userProgLocation, userMemLocation, mb4] at hlen ⊢
    omega
  have hdir : (k.mapProgram env pid).directory env (userMemLocation / 0x400000) = frameEntry pid := by
    simp only [directory, mapProgram, Function.update_self, programDir_frame]
  obtain ⟨hp, hl, _⟩ := frameEntry_spec pid
  simp only [walk, hva, hdir, hp, hl, if_true]
  exact ⟨_, rfl⟩

/-- A command that fits does not fault. -/
lemma execute_fits (hfits : Fits env stale k command) :
    k.execute env stale cur r command ≠ .faulted k' := by
  unfold execute
  cases command with
  | none => simp
  | some c =>
    simp only
    split
    · simp
    · next pid hfree =>
      obtain ⟨len, hlen, hfile⟩ := hfits c pid rfl hfree
      rw [show c.parse = (c.parse.1, some len) from Prod.ext rfl hlen]
      simp only [startProgram, setPcb, Function.update_self, blankPcb]
      split
      · simp
      · next d hd =>
        obtain ⟨hmapped, hroom⟩ := hfile d hd
        simp only [Command.pushHist_ok.mpr hmapped, if_true]
        split
        · next helf => simp [load_mapped (hroom helf)]
        · simp

/-- A program is started from a file that passes the ELF test. -/
lemma startProgram_starts (h : k.startProgram env stale pid q t r c len = .started eip k') :
    ∃ d, env.fs.readDentryByName (k.pcb pid).text len = some d ∧
      isElf (elfHead env.fs d.inode stale) = true := by
  unfold startProgram at h
  split at h
  · cases h
  · next d hd =>
    simp only at h
    split at h
    · split at h
      · next helf => exact ⟨d, hd, helf⟩
      · cases h
    · cases h

/-- Only programs are started. -/
lemma execute_starts (h : k.execute env stale cur r command = .started eip k') :
    Starts env stale command := by
  unfold execute at h
  cases command with
  | none => cases h
  | some c =>
    simp only at h
    split at h
    · cases h
    · split at h
      · cases h
      · next len hlen =>
        obtain ⟨d, hd, helf⟩ := startProgram_starts h
        simp only [setPcb, Function.update_self, blankPcb] at hd
        exact ⟨c, len, d, rfl, hlen, hd, helf⟩

/-- A file that begins with the magic number passes the test, whatever the buffer held. -/
lemma isElf_of_take {inode : Nat}
    (h : (env.fs.readData inode 0 40).2.take 4 = [0x7f, 69, 76, 70]) :
    isElf (elfHead env.fs inode stale) = true := by
  unfold elfHead
  generalize (env.fs.readData inode 0 40).2 = bytes at h
  match bytes, h with
  | a :: b :: c :: d :: rest, h =>
    simp only [List.take_succ_cons, List.take_zero, List.cons.injEq, and_true] at h
    obtain ⟨rfl, rfl, rfl, rfl⟩ := h
    rfl

/-- The literal is parsed into its name, whatever follows it in memory. -/
lemma parse_shell : env.shell.parse = (shellName.byte, some 5) := by
  have htext : env.shell.parse.1 = Function.update (Function.update (Function.update (Function.update
      (Function.update (Function.update (fun _ => 0) 0 115) 1 104) 2 101) 3 108) 4 108) 5 0 := rfl
  refine Prod.ext (htext.trans ?_) rfl
  funext i
  match i with
  | 0 | 1 | 2 | 3 | 4 | 5 => rfl
  | i + 6 => rfl

/-- `execute("shell")` starts a shell when a process number is free. -/
lemma execute_shell (stale : Mem) (cur : Pid) (r : Regs) (hshell : ShellLoads env)
    (hfree : freePid k.procIdUsed = some pid) :
    ∃ eip k', k.execute env stale cur r (some env.shell) = .started eip k' := by
  obtain ⟨d, hd, hmagic, hfits⟩ := hshell
  have hmapped : env.shell.HistMapped := Command.ofString_histMapped _
  have hhead : isElf (elfHead env.fs d.inode stale) = true := isElf_of_take hmagic
  simp only [execute, hfree, parse_shell, startProgram, setPcb, Function.update_self, blankPcb,
    Command.pushHist_ok.mpr hmapped, if_true]
  have hlook : env.fs.readDentryByName shellName.byte 5 = some d := hd
  simp only [hlook, hhead, load_mapped (Image.readData_length_le.trans hfits), if_true]
  exact ⟨_, _, rfl⟩

end Kernel

/-- The shell is a program that fits. -/
lemma ShellLoads.fits {env : Env} (h : ShellLoads env) (stale : Mem) (k : Kernel) :
    Fits env stale k (some env.shell) := by
  obtain ⟨d, hd, _, hroom⟩ := h
  rintro c pid hc -
  cases hc
  refine ⟨5, by rw [Kernel.parse_shell], fun d' hd' => ⟨Command.ofString_histMapped _, fun _ => ?_⟩⟩
  rw [Kernel.parse_shell] at hd'
  have hsame : d' = d := Option.some.inj (hd'.symm.trans hd)
  rw [hsame]
  exact Image.readData_length_le.trans hroom

end Boss
