import Boss.Process.Command
import Boss.Syscall.Stores

/-!
# Processes

The process table of `bOSs` and the functions that change it: `execute` and `halt` (`syscall.c`), `sched`
(`scheduler.c`) and `vidmap`, statement by statement on the state they share.

The current process is not a variable of the kernel: `cur_pcb` masks the stack pointer, since a PCB lies at
the bottom of the 8KB stack of its process. `curPcb` does the same, and a function that switches stacks
(`halt`, `sched`) has the process whose stack it switched to continue. That process is `running`; together
with `log`, the history of saved and loaded stack pointers, it is the only part of the state that no C
variable holds.

A page fault inside the kernel runs `pf_handler` on the stack of the process that caused it, which halts
that process with status -1. `execute` therefore has three outcomes: it returns -1, it starts a program, or
it faults and leaves whatever it had done by then.
-/

namespace Boss
open Lib Lib.Paging

/-- `PCB_t`. -/
structure PCB where
  text : Mem
  pid : Pid
  esp0 : Nat
  ss0 : Nat
  esp : Nat
  ebp : Nat
  terminalId : TermId
  fd : Fds
  parent : Option Pid

/-- A zeroed PCB. -/
def PCB.zero : PCB := ⟨fun _ => 0, 0, 0, 0, 0, 0, 0, fun _ => .zero, none⟩

/-- A stack pointer and a frame pointer. -/
structure Regs where
  esp : Nat
  ebp : Nat
  deriving DecidableEq

/-- Saves and loads of stack pointers, and the calls of `vidmap` that succeeded. -/
inductive ContextEvent
  | executeSaved (parent child : Pid) (r : Regs)
  | schedSaved (p : Pid) (r : Regs)
  | schedLoaded (p : Pid) (r : Regs)
  | haltLoaded (child parent : Pid) (r : Regs) (status : UInt8)
  | vidmapped (p : Pid)

/-- What does not change: the image, the addresses of the tables and the bytes behind the literal `"shell"`
that `execute` is called with. -/
structure Env where
  fs : Image
  link : Link
  rodata : Mem

/-- The literal `"shell"`. -/
def Env.shell (env : Env) : Command :=
  .ofString ⟨fun i => if i < 6 then ([115, 104, 101, 108, 108] : List UInt8).getD i 0 else env.rodata i, 5,
    rfl⟩

/-- The kernel. -/
structure Kernel where
  procIdUsed : Pid → Bool
  active : Pid → Bool
  pcb : Pid → PCB
  procPageDirectory : Pid → Nat → Nat
  /-- The page directory in use; `none` is `kernel_page_directory`. -/
  cr3 : Option Pid
  /-- `tss.esp0`. -/
  esp0 : Nat
  /-- `tss.ss0`. -/
  ss0 : Nat
  shellsStarted : Nat
  video : Video
  cmdHist : TermId → Nat → Mem
  running : Pid
  /-- Newest first. -/
  log : List ContextEvent

/-- `KERNEL_DS`. -/
def kernelDs : Nat := 0x18

/-- The PCB of a process: `KERNEL_TOP - KB8 * (pid + 1)`. -/
def pcbAddr (p : Pid) : Nat := kernelTop - kb8 * (p + 1)

/-- The kernel stack of a process, as `tss.esp0` has it. -/
def stackTop (p : Pid) : Nat := kernelTop - kb8 * p - 4

/-- `cur_pcb`: the process whose PCB lies where the stack pointer says. -/
def curPcb (esp : Nat) : Option Pid := (List.finRange 6).find? fun p => pcbAddr p = esp &&& 0xFFFFE000

/-- The search for a free process number. -/
def freePid (used : Pid → Bool) : Option Pid := (List.finRange 6).find? fun p => !used p

namespace Kernel

/-- Change one PCB. -/
def setPcb (k : Kernel) (p : Pid) (f : PCB → PCB) : Kernel :=
  { k with pcb := Function.update k.pcb p (f (k.pcb p)) }

/-- Change one flag of `proc_id_used`. -/
def setUsed (k : Kernel) (p : Pid) (b : Bool) : Kernel :=
  { k with procIdUsed := Function.update k.procIdUsed p b }

/-- Change one flag of `active`. -/
def setActive (k : Kernel) (p : Pid) (b : Bool) : Kernel :=
  { k with active := Function.update k.active p b }

/-- Change the history of one terminal. -/
def setHist (k : Kernel) (t : TermId) (hist : Nat → Mem) : Kernel :=
  { k with cmdHist := Function.update k.cmdHist t hist }

/-- Change physical memory. -/
def setPhys (k : Kernel) (phys : Mem) : Kernel := { k with video := { k.video with phys } }

/-- `loadPageDirectory` of a process. -/
def loadPageDirectory (k : Kernel) (p : Pid) : Kernel := { k with cr3 := some p }

/-- The page directory in use. -/
def directory (env : Env) (k : Kernel) : Nat → Nat :=
  match k.cr3 with
  | some p => k.procPageDirectory p
  | none => fun i =>
    if i = 0 then env.link.videoPageTable * 4096 ||| flagWriteEnable ||| flagPresent
    else if i = 1 then mb4 ||| flag4mbPage ||| flagWriteEnable ||| flagPresent ||| flagGlobal
    else flagWriteEnable

/-- Store through the page directory in use. -/
def storeUser (env : Env) (k : Kernel) (va : Nat) (bs : List UInt8) : Kernel × Bool :=
  let (phys, ok) := storeBytes (k.video.tables env.link) (k.directory env) k.video.phys va bs
  (k.setPhys phys, ok)

/-! ### `execute` -/

/-- The PCB after the first statements of `execute`: zeroed, numbered, with the parsed text. -/
def blankPcb (pid : Pid) (text : Mem) : PCB :=
  { PCB.zero with pid, text, parent := if pid = 0 then some pid else none }

/-- The word for the 4MB frame of a process. -/
def frameEntry (pid : Pid) : Nat :=
  (kernelTop + mb4 * pid) ||| flag4mbPage ||| flagWriteEnable ||| flagPresent ||| flagUser

/-- The page directory of a program: the shared first 8MB and its own frame, over what was there. -/
def programDir (env : Env) (pid : Pid) (dir : Nat → Nat) : Nat → Nat :=
  let dir := Function.update dir 0
    (env.link.videoPageTable * 4096 ||| flagWriteEnable ||| flagPresent)
  let dir := Function.update dir 1
    (mb4 ||| flag4mbPage ||| flagWriteEnable ||| flagPresent ||| flagGlobal)
  Function.update dir (userMemLocation / 0x400000) (frameEntry pid)

/-- The paging part of `execute`. -/
def mapProgram (env : Env) (k : Kernel) (pid : Pid) : Kernel :=
  { k with
    procPageDirectory :=
      Function.update k.procPageDirectory pid (programDir env pid (k.procPageDirectory pid))
    cr3 := some pid }

/-- The last part of `execute`, from the link to the parent to the jump into the program. -/
def enterProgram (k : Kernel) (pid parent : Pid) (terminalId : TermId) (r : Regs) : Kernel :=
  let k := k.setPcb pid fun pcb => { pcb with parent := some parent, terminalId }
  let k := k.setPcb parent fun pcb => { pcb with esp0 := k.esp0 }
  let k := (k.setActive (k.pcb parent).pid false).setActive pid true
  let k := k.setPcb parent fun pcb => { pcb with esp := r.esp, ebp := r.ebp, ss0 := kernelDs }
  let k := k.setPcb pid fun pcb =>
    let fd := Function.update pcb.fd 0 { pcb.fd 0 with fOp := some .stdin, flags := 1 }
    { pcb with fd := Function.update fd 1 { fd 1 with fOp := some .stdout, flags := 1 } }
  { k with
    esp0 := stackTop pid
    ss0 := kernelDs
    running := pid
    log := .executeSaved parent pid r :: k.log }

/-- What a call of `execute` comes to: -1 with the text printed, a program entered at `eip`, or a page
fault. -/
inductive Outcome
  | refused (message : String) (k : Kernel)
  | started (eip : Nat) (k : Kernel)
  | faulted (k : Kernel)

/-- The ELF header, read over what the buffer held. -/
def elfHead (fs : Image) (inode : Nat) (stale : Mem) : Mem := fun i =>
  (fs.readData inode 0 40).2.getD i (stale i)

/-- The test for the ELF magic number. -/
def isElf (head : Mem) : Bool := head 0 == 0x7f && head 1 == 69 && head 2 == 76 && head 3 == 70

/-- `execute` from the lookup of a parsed name on. -/
def startProgram (env : Env) (stale : Mem) (k : Kernel) (pid parent : Pid) (terminalId : TermId) (r : Regs)
    (c : Command) (len : Nat) : Outcome :=
  match env.fs.readDentryByName (k.pcb pid).text len with
  | none => .refused "" (k.setUsed pid false)
  | some d =>
    let (hist, ok) := c.pushHist (k.cmdHist terminalId)
    let k := k.setHist terminalId hist
    if ok then
      let head := elfHead env.fs d.inode stale
      if isElf head then
        let (k, ok) := (k.mapProgram env pid).storeUser env userProgLocation
          (env.fs.readData d.inode 0 mb4).2
        if ok then .started (Mem.le32 head 24) (k.enterProgram pid parent terminalId r) else .faulted k
      else .refused "" (k.setUsed pid false)
    else .faulted k

/-- `execute`, called on the stack of `cur`; `stale` is what the header buffer held. -/
def execute (env : Env) (stale : Mem) (cur : Pid) (r : Regs) (command : Option Command) (k : Kernel) :
    Outcome :=
  match command with
  | none => .refused "" k
  | some c =>
    match freePid k.procIdUsed with
    | none => .refused "Max processes used.\n" k
    | some pid =>
      let parent := if pid.val ≤ 2 then pid else cur
      let terminalId : TermId := if h : pid.val ≤ 2 then ⟨pid, terminal_lt pid h⟩ else (k.pcb cur).terminalId
      let (text, len) := c.parse
      let k := (k.setUsed pid true).setPcb pid fun _ => blankPcb pid text
      match len with
      | none => .faulted k
      | some len => k.startProgram env stale pid parent terminalId r c len

/-! ### `halt` -/

/-- `memset((void *)USER_MEM_LOCATION, 0, MB4)`: the range is one entry of the page directory. -/
def clearUser (env : Env) (k : Kernel) : Option Kernel :=
  let pde := k.directory env (userMemLocation / 0x400000)
  if present pde && large pde then
    let base := pde / 0x400000 * 0x400000
    some (k.setPhys fun a => if base ≤ a ∧ a < base + mb4 then 0 else k.video.phys a)
  else none

/-- The loop `for (i=0;i<8;i++) close(i)`. -/
def closeLoop : List (Fin 8) → Fds → Option Fds
  | [], fds => some fds
  | i :: is, fds => (sysClose fds i.val).bind fun (_, fds) => closeLoop is fds

/-- The end of `halt`: go on where the parent called `execute`. -/
def resumeParent (k : Kernel) (cur : Pid) (status : UInt8) : Option Kernel :=
  (k.pcb cur).parent.bind fun q =>
    (curPcb (k.pcb q).esp).map fun p =>
      { k with running := p, log := .haltLoaded cur q ⟨(k.pcb q).esp, (k.pcb q).ebp⟩ status :: k.log }

/-- The statements of `halt` that give the process up. -/
def releaseProcess (k : Kernel) (cur q : Pid) : Kernel :=
  let k := k.setUsed (k.pcb cur).pid false
  let k := k.setActive (k.pcb cur).pid false
  let k := k.setActive (k.pcb q).pid true
  { k with esp0 := (k.pcb q).esp0, ss0 := (k.pcb q).ss0 }

/-- The end of `halt`, with the process given up in favour of `q`. A fault in it has no result here:
`pf_handler` would call `halt` again. -/
def leave (env : Env) (stale : Mem) (k : Kernel) (cur q : Pid) (r : Regs) (status : UInt8) : Option Kernel :=
  if (k.pcb cur).pid = (k.pcb q).pid then
    match k.execute env stale cur r (some env.shell) with
    | .started _ k => some k
    | .refused _ k => k.resumeParent cur status
    | .faulted _ => none
  else k.resumeParent cur status

/-- `halt` by the process `cur`. -/
def halt (env : Env) (stale : Mem) (cur : Pid) (r : Regs) (status : UInt8) (k : Kernel) : Option Kernel :=
  (k.clearUser env).bind fun k =>
  (k.pcb cur).parent.bind fun q =>
  let k := k.loadPageDirectory (k.pcb q).pid
  (closeLoop (List.finRange 8) (k.pcb cur).fd).bind fun fd =>
  let k := k.setPcb cur fun pcb => { pcb with fd }
  (k.releaseProcess cur q).leave env stale cur q r status

/-! ### `sched` -/

/-- `get_next_proc`, looking at `fuel` processes. -/
def getNextProc (active : Pid → Bool) : (fuel : Nat) → (curr : Pid) → Option Pid
  | 0, _ => none
  | fuel + 1, curr => if active (curr + 1) then some (curr + 1) else getNextProc active fuel (curr + 1)

/-- `show_status`: one attribute byte for each process, at the end of the first row. -/
def showStatus (k : Kernel) : Kernel :=
  { k with video := (List.finRange 6).foldl (fun v p =>
      v.store (Boss.video + 2 * (80 - 6 + p.val) + 1)
        (if k.procIdUsed p then (if k.active p then 0x20 else 0x40) else Terminal.attrib)) k.video }

/-- The end of `sched`: switch to the next active process after `pid`. -/
def switchProcess (k : Kernel) (pid : Pid) : Option Kernel :=
  (getNextProc k.active 6 pid).bind fun next =>
    let k := { k.showStatus with cr3 := some next, ss0 := kernelDs, esp0 := stackTop next }
    (curPcb (k.pcb next).esp).map fun p =>
      { k with running := p, log := .schedLoaded next ⟨(k.pcb next).esp, (k.pcb next).ebp⟩ :: k.log }

/-- The first part of `sched`: mark the process active and save its stack pointer. -/
def saveContext (k : Kernel) (cur : Pid) (r : Regs) : Kernel :=
  let k := k.setActive (k.pcb cur).pid true
  let k := k.setPcb cur fun pcb => { pcb with esp := r.esp, ebp := r.ebp }
  { k with log := .schedSaved cur r :: k.log }

/-- `sched`, called on the stack of `cur`. -/
def sched (env : Env) (stale : Mem) (cur : Pid) (r : Regs) (k : Kernel) : Option Kernel :=
  let pid := (k.pcb cur).pid
  let k := k.saveContext cur r
  if k.shellsStarted < 3 then
    let k := { k with shellsStarted := k.shellsStarted + 1 }
    match k.execute env stale cur r (some env.shell) with
    | .started _ k => some k
    | .refused _ k => k.switchProcess pid
    | .faulted k => k.halt env stale cur r 0xFF
  else k.switchProcess pid

/-! ### `vidmap` -/

/-- `vidmap`; the result is `none` after a page fault. -/
def vidmap (env : Env) (cur : Pid) (screenStart : Nat) (k : Kernel) : Kernel × Option Int :=
  let r := vidmapStore screenStart
  if r.ret = -1 then (k, some r.ret)
  else
    let (k, ok) := k.storeUser env screenStart r.stored
    if ok then
      let pid := (k.pcb cur).pid
      let pde := (env.link.termVideoTables + (k.pcb cur).terminalId) * 4096 + 4 * pid.val
      let dir := Function.update (k.procPageDirectory pid) (userVideo / 0x400000)
        (pde ||| flagWriteEnable ||| flagPresent ||| flagUser)
      ({ k with
          procPageDirectory := Function.update k.procPageDirectory pid dir
          cr3 := some pid
          log := .vidmapped pid :: k.log }, some r.ret)
    else (k, none)

end Kernel

/-! ### The system -/

/-- How the kernel is entered: with how much of the stack in use, below its top and above the PCB
(`sizeof(PCB_t)` is 444), and with what left behind on it. -/
structure Entry where
  depth : Nat
  ebp : Nat
  stale : Mem
  pos : 0 < depth
  fits : depth + 4 + 444 ≤ kb8

/-- What the running process or the hardware asks for. -/
inductive Input
  | execute (e : Entry) (command : Option Command)
  | halt (e : Entry) (status : UInt8)
  | tick (e : Entry)
  | vidmap (e : Entry) (screenStart : UInt32)
  | switchTerminals (term : UInt8)

namespace Kernel

/-- The registers on entry. -/
def entryRegs (k : Kernel) (e : Entry) : Regs := ⟨k.esp0 - e.depth, e.ebp⟩

/-- A system call `execute`. -/
def callExecute (env : Env) (k : Kernel) (e : Entry) (cur : Pid) (command : Option Command) :
    Option Kernel :=
  match k.execute env e.stale cur (k.entryRegs e) command with
  | .refused _ k => some k
  | .started _ k => some k
  | .faulted k' => k'.halt env e.stale cur (k.entryRegs e) 0xFF

/-- A system call `vidmap`. -/
def callVidmap (env : Env) (k : Kernel) (e : Entry) (cur : Pid) (screenStart : UInt32) : Option Kernel :=
  match k.vidmap env cur screenStart.toNat with
  | (k, some _) => some k
  | (k', none) => k'.halt env e.stale cur (k.entryRegs e) 0xFF

/-- One atomic step. -/
def step (env : Env) (k : Kernel) : Input → Option Kernel
  | .execute e command =>
    (curPcb (k.entryRegs e).esp).bind fun cur => k.callExecute env e cur command
  | .halt e status =>
    (curPcb (k.entryRegs e).esp).bind fun cur => k.halt env e.stale cur (k.entryRegs e) status
  | .tick e => (curPcb (k.entryRegs e).esp).bind fun cur => k.sched env e.stale cur (k.entryRegs e)
  | .vidmap e screenStart =>
    (curPcb (k.entryRegs e).esp).bind fun cur => k.callVidmap env e cur screenStart
  | .switchTerminals term => some { k with video := k.video.switchTerminals term }

end Kernel

/-- The processes as a system. -/
def procSystem (env : Env) : System Kernel Input := ⟨Kernel.step env⟩

/-- A stack pointer on the stack of `p`, above its PCB. -/
def OnStack (p : Pid) (esp : Nat) : Prop := pcbAddr p + 444 ≤ esp ∧ esp < pcbAddr p + kb8

/-- The PCBs go down from 8MB. -/
lemma pcbAddr_eq (p : Pid) : pcbAddr p = (1023 - p.val) * 0x2000 := by
  have := p.isLt
  simp only [pcbAddr, kernelTop, kb8]
  omega

/-- The stack of a process begins at the end of its 8KB. -/
lemma stackTop_eq (p : Pid) : stackTop p = pcbAddr p + kb8 - 4 := by
  have := p.isLt
  simp only [pcbAddr, stackTop, kernelTop, kb8]
  omega

/-- `cur_pcb` finds the process from any place on its stack. -/
lemma curPcb_of_onStack {p : Pid} {esp : Nat} (h : OnStack p esp) : curPcb esp = some p := by
  obtain ⟨hlo, hhi⟩ := h
  have hp := p.isLt
  rw [pcbAddr_eq] at hlo hhi
  unfold kb8 at hhi
  have hmask : esp &&& (2 ^ 32 - 2 ^ 13) = esp / 2 ^ 13 * 2 ^ 13 :=
    Word.and_high_mask (by decide) (by omega)
  have hdiv : esp / 2 ^ 13 * 2 ^ 13 = pcbAddr p := by
    rw [pcbAddr_eq]
    omega
  have hfind : ∀ p : Pid, (List.finRange 6).find? (fun q => decide (pcbAddr q = pcbAddr p)) = some p := by
    decide
  have hesp : esp &&& 0xFFFFE000 = pcbAddr p := hmask.trans hdiv
  unfold curPcb
  rw [hesp]
  exact hfind p

/-- The kernel is entered on the stack that the TSS names. -/
lemma entryRegs_onStack {k : Kernel} {e : Entry} {p : Pid} (h : k.esp0 = stackTop p) :
    OnStack p (k.entryRegs e).esp := by
  have hpos := e.pos
  have hfits := e.fits
  rw [stackTop_eq, pcbAddr_eq] at h
  unfold OnStack Kernel.entryRegs
  rw [h, pcbAddr_eq]
  unfold kb8 at *
  refine ⟨?_, ?_⟩
  · simp only
    omega
  · simp only
    omega

end Boss
