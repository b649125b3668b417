import Boss.Process.Fairness
import Boss.Process.Parsing
import Boss.Syscall.Stores

/-!
# A program and its command line

`execute` parses a command into the PCB of the process it starts, and `getargs` reads it there when the program asks,
which may be much later: the program can be interrupted by ticks, start programs of its own and wait for them, and the
other terminals go on. A process number is given to another program only when its process has ended, and nothing that
happens to other processes touches the text in a PCB. So the program finds its own name and its own arguments, at any
time of its life (`program_finds_its_command`).
-/

namespace Boss
open Lib

/-- What `execute` records about a process for as long as it lives. -/
structure PCB.SameRecord (a b : PCB) : Prop where
  text : b.text = a.text
  terminal : b.terminalId = a.terminalId
  parent : b.parent = a.parent

/-- A PCB that is the same has the same record. -/
lemma PCB.SameRecord.of_eq {a b : PCB} (h : b = a) : a.SameRecord b := by
  subst h
  exact ⟨rfl, rfl, rfl⟩

/-- The relation is transitive. -/
lemma PCB.SameRecord.trans {a b c : PCB} (h : a.SameRecord b) (h' : b.SameRecord c) : a.SameRecord c :=
  ⟨h'.text.trans h.text, h'.terminal.trans h.terminal, h'.parent.trans h.parent⟩

namespace Kernel
variable {env : Env} {k k' : Kernel} {s s' : ProcStacks} {cur cur' t : TermId} {p pid q : Pid} {r : Regs} {i : Input}
  {lost : Option Pid}

/-- The process `p` survives the input. -/
def Lives (env : Env) (p : Pid) (k : Kernel) (i : Input) : Prop := k.running = p → ¬ i.Ends env k

/-- A program that is started changes no record but its own. -/
lemma Started.sameRecord (h : Started env k k' pid q t r) (hp : p ≠ pid) : (k.pcb p).SameRecord (k'.pcb p) := by
  by_cases hq : p = q
  · subst hq
    rw [h.parent hp]
    exact ⟨rfl, rfl, rfl⟩
  · exact .of_eq (h.others p hp hq)

/-- `sched` saves registers, which are not part of the record. -/
lemma saveContext_sameRecord : (k.pcb p).SameRecord ((k.saveContext q r).pcb p) := by
  by_cases hq : p = q
  · subst hq
    simp only [saveContext, setPcb, setActive, Function.update_self]
    exact ⟨rfl, rfl, rfl⟩
  · simp only [saveContext, setPcb, setActive, Function.update_of_ne hq]
    exact ⟨rfl, rfl, rfl⟩

/-- A move leaves the record of every process alone that lives through it. -/
lemma Move.sameRecord (h : k.Runs s cur) (hp : s.Mem p) (hlives : Lives env p k i)
    (hm : Move env k s cur i lost k' s' cur') : s'.Mem p ∧ (k.pcb p).SameRecord (k'.pcb p) := by
  have hused := h.1.used p hp
  cases hm with
  | stay kept => exact ⟨hp, .of_eq (kept.pcb p hused)⟩
  | display term => exact ⟨hp, .of_eq rfl⟩
  | map mapped => exact ⟨hp, .of_eq (congrFun mapped.pcb p)⟩
  | @start e command _ pid r starts free fresh started =>
    have hne : p ≠ pid := fun heq => fresh (heq ▸ hp)
    exact ⟨Stacks.mem_push.mpr (Or.inr hp), started.sameRecord hne⟩
  | exit ends fits kept stack released cr3 esp0 switched =>
    have hne : p ≠ k.running := fun heq => hlives heq.symm ends
    refine ⟨(Stacks.mem_pop h.1.running).mpr ⟨hp, hne⟩, ?_⟩
    rw [switched.pcb, released.others p hne]
    exact .of_eq (kept.pcb p hused)
  | restart ends fits kept stack released started =>
    have hne : p ≠ k.running := fun heq => hlives heq.symm ends
    refine ⟨hp, .trans ?_ (started.sameRecord hne)⟩
    rw [released.others p hne]
    exact .of_eq (kept.pcb p hused)
  | tick onStack top cr3 esp0 switched =>
    rw [switched.pcb]
    exact ⟨hp, saveContext_sameRecord⟩

/-- So does a run. -/
lemma Runs.record_kept {is : List Input} (h : k.Runs s cur) (hp : s.Mem p)
    (hlives : (procSystem env).Guarded (Lives env p) k is) (hrun : (procSystem env).run k is = some k') :
    (k.pcb p).SameRecord (k'.pcb p) := by
  have hkeep : ∀ k1 i k2, (∃ s cur, k1.Runs s cur ∧ s.Mem p ∧ (k.pcb p).SameRecord (k1.pcb p)) → Lives env p k1 i →
      (procSystem env).step k1 i = some k2 → ∃ s cur, k2.Runs s cur ∧ s.Mem p ∧ (k.pcb p).SameRecord (k2.pcb p) := by
    rintro k1 i k2 ⟨s1, cur1, h1, hp1, hsame⟩ hl hstep
    obtain ⟨lost, s2, cur2, hm, h2⟩ := h1.step_inv hstep
    obtain ⟨hp2, hsame2⟩ := hm.sameRecord h1 hp1 hl
    exact ⟨s2, cur2, h2, hp2, hsame.trans hsame2⟩
  obtain ⟨_, _, _, _, hsame⟩ := System.guarded_invariant hkeep ⟨s, cur, h, hp, .of_eq rfl⟩ hlives hrun
  exact hsame

end Kernel

/-- The text of a PCB that a short command has been parsed into. -/
lemma Command.Spells.parsed {c : Command} {l : List UInt8} (h : c.Spells l) (hlen : l.length ≤ 127) :
    (∀ i < 128, c.parse.1 i = (commandName l).getD i 0) ∧
      ∀ i, c.parse.1 (128 + i) = (commandArgs l).getD i 0 := by
  have hsum := argStart_add l
  have hname : (commandName l).length ≤ 127 := by
    unfold argStart at hsum
    omega
  have hall : (commandRest l).take (128 - argStart l) = commandRest l := List.take_of_length_le (by omega)
  rw [h.parse_text hname, hall]
  refine ⟨fun i hi => ?_, fun i => ?_⟩
  · have hget : Mem.put (fun _ => 0) 0 (commandName l) (0 + i) = (commandName l).getD i 0 := Mem.put_getD rfl
    rw [Mem.put_apply, if_neg (by omega)]
    rwa [Nat.zero_add] at hget
  · exact Mem.put_getD (namedText_zero (by omega))

/-- The arguments are part of the command. -/
lemma mem_of_mem_commandArgs {l : List UInt8} {b : UInt8} (h : b ∈ commandArgs l) : b ∈ l :=
  (List.dropWhile_suffix _).subset ((List.dropWhile_suffix _).subset ((List.rdropWhile_prefix _ _).subset h))

/-- A process whose PCB has these arguments gets them from `getargs`, if its buffer has room for them and a zero byte. -/
lemma getargs_ofList {l : List UInt8} (hl : 0 ∉ l) (hlen : l.length ≤ 127) (nbytes : Int32) :
    (l.length < nbytes.toInt → getargs (.ofList l) nbytes.toUInt32 = ⟨0, l ++ [0]⟩) ∧
      (0 ≤ nbytes.toInt → nbytes.toInt < l.length → getargs (.ofList l) nbytes.toUInt32 = .fail) := by
  have hlength : (CString.ofList l).length = l.length := Mem.strlen_getD hl (Nat.le_refl _)
  refine ⟨fun hroom => ?_, fun hpos hshort => getargs_short hpos (by rwa [hlength])⟩
  rw [getargs_fits (by rwa [hlength]) (by rwa [hlength])]
  exact congrArg (fun chars => Result.mk 0 (chars ++ [0])) (CString.chars_ofList hl)

/-- A program that `execute` starts with a command of at most 127 bytes finds it at any later time of its life,
whatever the other processes do and whichever programs it starts itself: its name and its arguments, its terminal and
its parent are those of the call. `getargs` with a size above the length of the arguments stores all of them, and with a
size from 0 on below it fails. -/
theorem program_finds_its_command (env : Env) (k0 k k1 k2 : Kernel) (hk0 : RootShells k0) (is0 : List Input)
    (hrun0 : (procSystem env).run k0 is0 = some k) (e : Entry) (c : Command) (l : List UInt8) (hc : c.Spells l)
    (hlen : l.length ≤ 127) (eip : Nat)
    (hexec : k.execute env e.stale k.running (k.entryRegs e) (some c) = .started eip k1) (is : List Input)
    (hrun : (procSystem env).run k1 is = some k2)
    (hlives : (procSystem env).Guarded (Kernel.Lives env k1.running) k1 is) :
    let pcb := k2.pcb k1.running
    (∀ i < 128, pcb.name i = (commandName l).getD i 0) ∧ pcb.terminalId = (k.pcb k.running).terminalId ∧
      pcb.parent = some k.running ∧ ∃ args : CString, args.byte = pcb.args ∧ ∀ nbytes : Int32,
        ((commandArgs l).length < nbytes.toInt → getargs args nbytes.toUInt32 = ⟨0, commandArgs l ++ [0]⟩) ∧
        (0 ≤ nbytes.toInt → nbytes.toInt < (commandArgs l).length → getargs args nbytes.toUInt32 = .fail) := by
  obtain ⟨s, cur, hruns⟩ := hk0.runs_after hrun0
  obtain ⟨pid, hfree, hstart⟩ := Kernel.execute_started hexec
  have hgt : ¬ pid.val ≤ 2 := Nat.not_le.mpr (hruns.1.lt_free hfree)
  rw [Kernel.parentOf, if_neg hgt, Kernel.terminalOf, dif_neg hgt] at hstart
  have hpid : k1.running = pid := hstart.running
  have htext : (k1.pcb pid).text = c.parse.1 := by
    have := @Kernel.execute_text env e.stale k k.running pid (k.entryRegs e) c hfree
    rwa [hexec] at this
  have hcur := hruns.1.terminal cur _ hruns.1.running.mem_stack
  have hruns1 : k1.Runs (s.push cur pid (hruns.1.fresh hfree)) cur :=
    (Kernel.Move.start (Kernel.execute_starts hexec) hfree (hruns.1.fresh hfree) (hcur ▸ hstart)
      (entryRegs_onStack hruns.1.esp0)).runs hruns
  have hsame := hruns1.record_kept (Stacks.mem_push.mpr (Or.inl hpid)) hlives hrun
  obtain ⟨hname, hargs⟩ := hc.parsed hlen
  have hargslen := length_commandArgs_le l
  rw [hpid] at hsame ⊢
  refine ⟨fun i hi => ?_, ?_, ?_, .ofList (commandArgs l), ?_, ?_⟩
  · rw [PCB.name, hsame.text, htext, hname i hi]
  · rw [hsame.terminal, hstart.child.2.2.1]
  · rw [hsame.parent, hstart.child.2.1]
  · funext i
    rw [PCB.args, hsame.text, htext, hargs i]
    rfl
  · have hsum := argStart_add l
    exact getargs_ofList (fun h => hc.chars 0 (mem_of_mem_commandArgs h) rfl) (by omega)

/-- The command `shell a`. -/
def shellA : Command := .ofString (.ofList [115, 104, 101, 108, 108, 32, 97])

/-- The bytes of the command `shell a`. -/
lemma shellA_spells : shellA.Spells [115, 104, 101, 108, 108, 32, 97] :=
  ⟨⟨rfl, rfl, rfl, rfl, rfl, rfl, rfl, rfl, trivial⟩, by simp⟩

/-- A second shell on the first terminal, after a program of its own and a tick. -/
theorem program_finds_its_command_shell : ∃ eip k1 k2,
    threeShells.execute shellEnv (fun _ => 0) 0 (threeShells.entryRegs someEntry) (some shellA) =
      .started eip k1 ∧
    (procSystem shellEnv).run k1 [.execute someEntry (some shellEnv.shell), .tick someEntry] = some k2 ∧
    ∃ args : CString, args.byte = (k2.pcb k1.running).args ∧ getargs args 1024 = ⟨0, [97, 0]⟩ := by
  obtain ⟨eip, k1, hexec⟩ : ∃ eip k1, threeShells.execute shellEnv (fun _ => 0) 0 (threeShells.entryRegs someEntry)
      (some shellA) = .started eip k1 := ⟨_, _, rfl⟩
  have hstep : (procSystem shellEnv).run threeShells [.execute someEntry (some shellA)] = some k1 := by
    have hcur : curPcb (threeShells.entryRegs someEntry).esp = some 0 := rfl
    refine System.run_cons.mpr ⟨k1, ?_, rfl⟩
    simp only [procSystem, Kernel.step, hcur, Option.bind_some, Kernel.callExecute]
    rw [show someEntry.stale = fun _ => 0 from rfl, hexec]
  obtain ⟨s, cur, hruns⟩ := threeShells_root.runs_after hstep
  obtain ⟨k2, hrun⟩ := hruns.run_total shellEnv_loads [.execute someEntry (some shellEnv.shell), .tick someEntry]
  obtain ⟨-, -, -, args, hbyte, hargs⟩ := program_finds_its_command shellEnv threeShells threeShells k1 k2
    threeShells_root [] rfl someEntry shellA [115, 104, 101, 108, 108, 32, 97] shellA_spells (by decide)
    eip hexec [.execute someEntry (some shellEnv.shell), .tick someEntry] hrun
    ⟨fun _ hends => hends (shellEnv_loads.fits _ _), fun _ _ => ⟨fun _ => id, fun _ _ => trivial⟩⟩
  exact ⟨eip, k1, k2, hexec, hrun, args, hbyte, (hargs 1024).1 (by decide)⟩

end Boss
