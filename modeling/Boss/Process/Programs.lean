import Boss.Process.Boot
import Boss.Process.Parsing
import Boss.Filesys.Reads

/-!
# Which files are started

What `execute` does once a name has been found, as one equation (`execute_resolved`): the command is entered
into the history, the header of the file is read and tested, and the file is loaded. Three questions are
settled with it.

The header is read into a buffer that is not cleared, and nobody looks at how much was read. The decision is
therefore the file's own only when the file has a whole header, or when a byte that it does have is wrong
(`decision_of_file_iff`).

The load asks for 4MB from an address that is not at the start of a 4MB page. It stays in the page for the
files of at most `programRoom` bytes, and no file is refused for its length (`load_in_page_iff`).

A refusal takes the process number back. The history has then been shifted already, if it was the header
that was wrong (`refusal_changes_nothing_iff`).
-/

namespace Boss
open Lib Lib.Paging

namespace Kernel
variable {env : Env} {stale : Mem} {k k' : Kernel} {cur pid : Pid} {r : Regs} {c : Command} {d : Dentry}
  {m : String}

/-- The kernel when the name of a command is looked up. -/
def named (k : Kernel) (pid : Pid) (c : Command) : Kernel :=
  (k.setUsed pid true).setPcb pid fun _ => blankPcb pid c.parse.1

/-- The kernel when the header of a file is read. -/
def logged (k : Kernel) (cur pid : Pid) (c : Command) : Kernel :=
  (k.named pid c).setHist (k.terminalOf cur pid) (c.pushHist (k.cmdHist (k.terminalOf cur pid))).1

/-- The load of a program. -/
def load (env : Env) (k : Kernel) (cur pid : Pid) (c : Command) (d : Dentry) : Kernel × Bool :=
  ((k.logged cur pid c).mapProgram env pid).storeUser env userProgLocation (env.fs.readData d.inode 0 mb4).2

/-- `execute` of a command that names a file. -/
lemma execute_resolved (hfree : freePid k.procIdUsed = some pid) (hd : programOf env (some c) = some d) :
    k.execute env stale cur r (some c) =
      if (c.pushHist (k.cmdHist (k.terminalOf cur pid))).2 then
        if isElf (elfHead env.fs d.inode stale) then
          if (k.load env cur pid c d).2 then
            .started (Mem.le32 (elfHead env.fs d.inode stale) 24)
              ((k.load env cur pid c d).1.enterProgram pid (parentOf cur pid) (k.terminalOf cur pid) r)
          else .faulted (k.load env cur pid c d).1
        else .refused "" ((k.logged cur pid c).setUsed pid false)
      else .faulted (k.logged cur pid c) := by
  obtain ⟨len, hlen, hlook⟩ : ∃ len, c.parse.2 = some len ∧ env.fs.readDentryByName c.parse.1 len = some d :=
    Option.bind_eq_some_iff.mp hd
  have hparse : c.parse = (c.parse.1, some len) := Prod.ext rfl hlen
  have htext : (((k.setUsed pid true).setPcb pid fun _ => blankPcb pid c.parse.1).pcb pid).text = c.parse.1 := by
    simp only [setPcb, Function.update_self, blankPcb]
  simp only [execute, hfree]
  rw [hparse]
  simp only [startProgram, htext, hlook]
  rfl

end Kernel

/-! ### The header -/

/-- A file of a valid image; an inode out of range has no bytes. -/
def Image.fileBytes (fs : Image) (inode : Nat) : List UInt8 :=
  if inode < fs.numInodes then fs.content inode else []

/-- From its start on a file is read as far as it goes. -/
lemma Image.FilesValid.readData_take {fs : Image} (h : fs.FilesValid) (inode n : Nat) :
    (fs.readData inode 0 n).2 = (fs.fileBytes inode).take n := by
  unfold fileBytes
  by_cases hin : inode < fs.numInodes
  · have hvalid := h.inodes inode hin
    rw [if_pos hin, readData_spec hvalid (Nat.le_of_lt h.limit), content_eq_slice hvalid.length, Nat.sub_zero,
      slice, slice, ← List.map_take, List.take_range]
  · have hfail : fs.readData inode 0 n = (-1, []) := if_pos (Nat.not_lt.mp hin)
    rw [if_neg hin, hfail, List.take_nil]

/-- The magic number. -/
def elfMagic : List UInt8 := [0x7f, 69, 76, 70]

/-- A file with the part of the header that is looked at, and with the magic number. -/
def IsProgram (file : List UInt8) : Prop := 28 ≤ file.length ∧ elfMagic <+: file

namespace Kernel
variable {env : Env} {stale : Mem} {k k' : Kernel} {cur pid : Pid} {r : Regs} {c : Command} {d : Dentry}
  {m : String}

/-- The test of `execute`. -/
lemma isElf_iff {head : Mem} : isElf head = true ↔ ∀ i < 4, head i = elfMagic.getD i 0 := by
  refine ⟨fun h i hi => ?_, fun h => ?_⟩
  · simp only [isElf, Bool.and_eq_true, beq_iff_eq] at h
    obtain ⟨⟨⟨h0, h1⟩, h2⟩, h3⟩ := h
    match i, hi with
    | 0, _ => exact h0
    | 1, _ => exact h1
    | 2, _ => exact h2
    | 3, _ => exact h3
  · simp only [isElf, h 0 (by decide), h 1 (by decide), h 2 (by decide), h 3 (by decide)]
    rfl

/-- Where the file has a byte, the header has it; behind the end it is what the buffer held. -/
lemma elfHead_apply (hfs : env.fs.FilesValid) {i : Nat} (hi : i < 40) :
    elfHead env.fs d.inode stale i = (env.fs.fileBytes d.inode).getD i (stale i) := by
  rw [elfHead, hfs.readData_take, List.getD_eq_getElem?_getD, List.getD_eq_getElem?_getD, List.getElem?_take,
    if_pos hi]

/-- The magic bytes. -/
lemma elfMagic_getElem? : ∀ i < 4, elfMagic[i]? = some (elfMagic.getD i 0) := by
  decide

/-- Some contents of the buffer pass the test when no byte that the file has is in the way. -/
lemma exists_isElf_iff (hfs : env.fs.FilesValid) :
    (∃ stale, isElf (elfHead env.fs d.inode stale) = true) ↔ (env.fs.fileBytes d.inode).take 4 <+: elfMagic := by
  simp only [isElf_iff, List.prefix_iff_getElem?, List.length_take, List.getElem_take]
  constructor
  · rintro ⟨stale, h⟩ i hi
    have hfile : i < (env.fs.fileBytes d.inode).length := by omega
    rw [elfMagic_getElem? i (by omega), ← h i (by omega), elfHead_apply hfs (by omega),
      List.getD_eq_getElem _ _ hfile]
  · intro h
    refine ⟨fun i => elfMagic.getD i 0, fun i hi => ?_⟩
    rw [elfHead_apply hfs (by omega)]
    by_cases hfile : i < (env.fs.fileBytes d.inode).length
    · have hbyte := h i (by omega)
      rw [elfMagic_getElem? i hi] at hbyte
      rw [List.getD_eq_getElem _ _ hfile]
      exact (Option.some.inj hbyte).symm
    · rw [List.getD_eq_default _ _ (Nat.not_lt.mp hfile)]

/-- A program has a header of its own. -/
lemma elfHead_program (hfs : env.fs.FilesValid) (hp : IsProgram (env.fs.fileBytes d.inode)) {i : Nat}
    (hi : i < 28) : elfHead env.fs d.inode stale i = (env.fs.fileBytes d.inode).getD i 0 := by
  have hlen := hp.1
  rw [elfHead_apply hfs (by omega), List.getD_eq_getElem _ _ (by omega), List.getD_eq_getElem _ _ (by omega)]

/-- The file of a program passes the test. -/
lemma isElf_program (hfs : env.fs.FilesValid) (hp : IsProgram (env.fs.fileBytes d.inode)) :
    isElf (elfHead env.fs d.inode stale) = true := by
  rw [isElf_iff]
  intro i hi
  have hmagic := List.prefix_iff_getElem?.mp hp.2 i hi
  rw [elfHead_program hfs hp (by omega), List.getD_eq_getElem?_getD, hmagic, Option.getD_some,
    List.getD_eq_getElem _ _ hi]

end Kernel

/-- The entry point that a file names: the little-endian word of its bytes 24 to 27. -/
def entryPoint (file : List UInt8) : Nat := Mem.le32 (fun i => file.getD i 0) 24

/-- What `execute` does is decided by the file and not by what the buffer held: only programs are started, at
their entry point, and everything else is refused. -/
structure DecidedByFile (env : Env) (k : Kernel) (cur : Pid) (r : Regs) (c : Command) (file : List UInt8) : Prop where
  same : ∀ stale stale', k.execute env stale cur r (some c) = k.execute env stale' cur r (some c)
  program : ∀ stale eip k', k.execute env stale cur r (some c) = .started eip k' →
    IsProgram file ∧ eip = entryPoint file
  other : ¬ IsProgram file → ∀ stale, ∃ m k', k.execute env stale cur r (some c) = .refused m k'

namespace Kernel
variable {env : Env} {stale : Mem} {k k' : Kernel} {cur pid : Pid} {r : Regs} {c : Command} {d : Dentry}
  {m : String}

/-- The file of a program is started. -/
lemma decided_program (hfs : env.fs.FilesValid) (hd : programOf env (some c) = some d)
    (hfree : freePid k.procIdUsed = some pid) (hp : IsProgram (env.fs.fileBytes d.inode)) :
    DecidedByFile env k cur r c (env.fs.fileBytes d.inode) := by
  have hword : ∀ stale, Mem.le32 (elfHead env.fs d.inode stale) 24 = entryPoint (env.fs.fileBytes d.inode) := by
    intro stale
    simp only [Mem.le32, entryPoint, elfHead_program hfs hp (by decide : 24 < 28),
      elfHead_program hfs hp (by decide : 25 < 28), elfHead_program hfs hp (by decide : 26 < 28),
      elfHead_program hfs hp (by decide : 27 < 28)]
  refine ⟨fun stale stale' => ?_, fun stale eip k' hstart => ⟨hp, ?_⟩, fun hnot => absurd hp hnot⟩
  · simp only [execute_resolved hfree hd, isElf_program hfs hp, hword]
  · rw [execute_resolved hfree hd, hword] at hstart
    split at hstart
    · split at hstart
      · split at hstart
        · cases hstart
          rfl
        · cases hstart
      · cases hstart
    · cases hstart

/-- A file that does not begin like a program is refused. -/
lemma decided_other (hfs : env.fs.FilesValid) (hd : programOf env (some c) = some d)
    (hfree : freePid k.procIdUsed = some pid) (hc : c.HistMapped)
    (hfile : ¬ (env.fs.fileBytes d.inode).take 4 <+: elfMagic) :
    DecidedByFile env k cur r c (env.fs.fileBytes d.inode) := by
  have hrefused : ∀ stale,
      k.execute env stale cur r (some c) = .refused "" ((k.logged cur pid c).setUsed pid false) := by
    intro stale
    have helf : ¬ isElf (elfHead env.fs d.inode stale) = true :=
      fun helf => hfile ((exists_isElf_iff hfs).mp ⟨stale, helf⟩)
    rw [execute_resolved hfree hd, if_pos (Command.pushHist_ok.mpr hc), if_neg helf]
  refine ⟨fun stale stale' => ?_, fun stale eip k' hstart => ?_, fun _ stale => ⟨_, _, hrefused stale⟩⟩
  · rw [hrefused, hrefused]
  · rw [hrefused] at hstart
    cases hstart

/-- Without a free process number every command is refused. -/
lemma execute_full (hfull : freePid k.procIdUsed = none) :
    k.execute env stale cur r (some c) = .refused "Max processes used.\n" k := by
  simp only [execute, hfull]

/-- The header test refuses a file only after the history is written, and when a byte is wrong. -/
lemma execute_refused_header (hfree : freePid k.procIdUsed = some pid) (hd : programOf env (some c) = some d)
    (h : k.execute env stale cur r (some c) = .refused m k') :
    c.HistMapped ∧ ¬ isElf (elfHead env.fs d.inode stale) = true ∧ k' = (k.logged cur pid c).setUsed pid false := by
  rw [execute_resolved hfree hd] at h
  split at h
  · next hok =>
    split at h
    · split at h
      · cases h
      · cases h
    · next helf =>
      cases h
      exact ⟨Command.pushHist_ok.mp hok, helf, rfl⟩
  · cases h

end Kernel

/-- The decision is the file's when it is a program and when a byte of its magic number is wrong, and not for a
file that ends too early. -/
theorem decision_of_file_iff (env : Env) (hfs : env.fs.FilesValid) (k : Kernel) (cur : Pid) (r : Regs) (c : Command)
    (d : Dentry) (hd : programOf env (some c) = some d) :
    DecidedByFile env k cur r c (env.fs.fileBytes d.inode) ↔ freePid k.procIdUsed = none ∨
      IsProgram (env.fs.fileBytes d.inode) ∨
      c.HistMapped ∧ ¬ (env.fs.fileBytes d.inode).take 4 <+: elfMagic := by
  cases hfree : freePid k.procIdUsed with
  | none =>
    refine iff_of_true ⟨fun stale stale' => ?_, fun stale eip k' hstart => ?_, fun _ stale => ?_⟩ (Or.inl rfl)
    · rw [Kernel.execute_full hfree, Kernel.execute_full hfree]
    · rw [Kernel.execute_full hfree] at hstart
      cases hstart
    · exact ⟨_, _, Kernel.execute_full hfree⟩
  | some pid =>
    constructor
    · intro h
      by_cases hp : IsProgram (env.fs.fileBytes d.inode)
      · exact Or.inr (Or.inl hp)
      · -- every content of the buffer is refused, also the best one
        have hrefused := fun stale => h.other hp stale
        have hfile : ¬ (env.fs.fileBytes d.inode).take 4 <+: elfMagic := by
          intro hfile
          obtain ⟨stale, helf⟩ := (Kernel.exists_isElf_iff hfs).mpr hfile
          obtain ⟨m, k', hk⟩ := hrefused stale
          exact (Kernel.execute_refused_header hfree hd hk).2.1 helf
        obtain ⟨m, k', hk⟩ := hrefused fun _ => 0
        exact Or.inr (Or.inr ⟨(Kernel.execute_refused_header hfree hd hk).1, hfile⟩)
    · rintro (hnone | hp | ⟨hc, hfile⟩)
      · cases hnone
      · exact Kernel.decided_program hfs hd hfree hp
      · exact Kernel.decided_other hfs hd hfree hc hfile

/-- The file of the image is within it. -/
lemma shellImage_filesValid : shellImage.FilesValid := by
  have hnum : shellImage.numInodes = 1 := by decide
  refine ⟨by decide, fun inode hin => ?_⟩
  obtain rfl : inode = 0 := by omega
  exact shellImage_wellFormed.inodes 0 (by decide) (by decide)

/-- It is a program. -/
lemma shellImage_isProgram : IsProgram (shellImage.fileBytes 0) := by
  have hfile : shellImage.fileBytes 0 = shellImage.slice 0 0 40 := by
    rw [Image.fileBytes, if_pos (by decide), Image.content_eq_slice (by decide)]
    rfl
  rw [hfile]
  exact ⟨by decide, by decide⟩

/-- The shell is started for what is in its file. -/
theorem decision_of_file_iff_shell :
    DecidedByFile shellEnv threeShells 0 ⟨0, 0⟩ shellEnv.shell (shellImage.fileBytes 0) :=
  (decision_of_file_iff shellEnv shellImage_filesValid threeShells 0 ⟨0, 0⟩ shellEnv.shell ⟨_, 2, 0⟩ rfl).mpr
    (Or.inr (Or.inl shellImage_isProgram))

/-- The image with its file empty. -/
def emptyEnv : Env :=
  { shellEnv with fs := { shellImage with mem := fun a => if a = 4096 then 0 else shellImage.mem a } }

/-- An image without files is valid. -/
lemma emptyEnv_filesValid : emptyEnv.fs.FilesValid := by
  have hnum : emptyEnv.fs.numInodes = 1 := by decide
  have hlen : emptyEnv.fs.lengthBytes 0 = 0 := by decide
  refine ⟨by decide, fun inode hin => ?_⟩
  obtain rfl : inode = 0 := by omega
  exact ⟨by decide, by rw [hlen]; decide, fun j hj => by omega⟩

/-- An empty file is started over a buffer that holds the header of a program, and refused otherwise. -/
theorem empty_file_started : emptyEnv.fs.FilesValid ∧
    (∃ d, programOf emptyEnv (some emptyEnv.shell) = some d ∧ emptyEnv.fs.fileBytes d.inode = [] ∧
      (∃ k, threeShells.execute emptyEnv (fun i => elfMagic.getD i 0) 0 ⟨0, 0⟩ (some emptyEnv.shell) = .started 0 k) ∧
      (∃ k, threeShells.execute emptyEnv (fun _ => 0) 0 ⟨0, 0⟩ (some emptyEnv.shell) = .refused "" k) ∧
      ¬ DecidedByFile emptyEnv threeShells 0 ⟨0, 0⟩ emptyEnv.shell (emptyEnv.fs.fileBytes d.inode)) := by
  have hstarted : ∃ k, threeShells.execute emptyEnv (fun i => elfMagic.getD i 0) 0 ⟨0, 0⟩ (some emptyEnv.shell) =
      .started 0 k := ⟨_, rfl⟩
  have hrefused : ∃ k, threeShells.execute emptyEnv (fun _ => 0) 0 ⟨0, 0⟩ (some emptyEnv.shell) = .refused "" k :=
    ⟨_, rfl⟩
  have hfile : emptyEnv.fs.fileBytes 0 = [] := by
    rw [Image.fileBytes, if_pos (by decide), Image.content_eq_slice (by decide)]
    rfl
  refine ⟨emptyEnv_filesValid, ⟨_, 2, 0⟩, rfl, hfile, hstarted, hrefused, fun h => ?_⟩
  obtain ⟨k, hk⟩ := hstarted
  obtain ⟨k', hk'⟩ := hrefused
  have hsame := h.same (fun i => elfMagic.getD i 0) fun _ => 0
  rw [hk, hk'] at hsame
  cases hsame

/-! ### The load -/

namespace Kernel
variable {env : Env} {stale : Mem} {k : Kernel} {cur pid : Pid} {c : Command} {d : Dentry}

/-- The addresses that the load of a program stores to. -/
def loadAddresses (env : Env) (k : Kernel) (cur pid : Pid) (c : Command) (d : Dentry) : List Nat :=
  let k := (k.logged cur pid c).mapProgram env pid
  storedAt (k.video.tables env.link) (k.directory env) userProgLocation (env.fs.readData d.inode 0 mb4).2

/-- `execute` comes to a file that passes its test. -/
structure PassesTest (env : Env) (stale : Mem) (k : Kernel) (c : Command) (pid : Pid) (d : Dentry) : Prop where
  free : freePid k.procIdUsed = some pid
  file : programOf env (some c) = some d
  mapped : c.HistMapped
  elf : isElf (elfHead env.fs d.inode stale) = true

/-- A file that passes the test is not refused, whatever its length. -/
lemma PassesTest.not_refused (h : k.PassesTest env stale c pid d) (r : Regs) (m : String) (k' : Kernel) :
    k.execute env stale cur r (some c) ≠ .refused m k' :=
  fun hk => (execute_refused_header h.free h.file hk).2.1 h.elf

end Kernel

/-- The load stores to the page of the process behind `USER_PROG_LOCATION` only, and a file that is too long for
that is refused. -/
structure LoadsInPage (env : Env) (stale : Mem) (k : Kernel) (cur pid : Pid) (r : Regs) (c : Command) (d : Dentry) :
    Prop where
  inside : ∀ a ∈ k.loadAddresses env cur pid c d, userProgLocation ≤ a ∧ a < userMemLocation + mb4
  tooLong : programRoom < (env.fs.fileBytes d.inode).length →
    ∃ m k', k.execute env stale cur r (some c) = .refused m k'

/-- A file that passes the test is loaded into the page, or refused, exactly when it has room in the page. -/
theorem load_in_page_iff (env : Env) (hfs : env.fs.FilesValid) (stale : Mem) (k : Kernel) (cur pid : Pid) (r : Regs)
    (c : Command) (d : Dentry) (h : k.PassesTest env stale c pid d) :
    LoadsInPage env stale k cur pid r c d ↔ (env.fs.fileBytes d.inode).length ≤ programRoom := by
  constructor
  · intro hload
    by_contra hlong
    obtain ⟨m, k', hk⟩ := hload.tooLong (Nat.not_le.mp hlong)
    exact h.not_refused r m k' hk
  · intro hroom
    refine ⟨fun a ha => ?_, fun hlong => absurd hroom (Nat.not_le.mpr hlong)⟩
    have hlen : (env.fs.readData d.inode 0 mb4).2.length ≤ programRoom := by
      rw [hfs.readData_take, List.length_take]
      omega
    have hend : userProgLocation + programRoom = userMemLocation + mb4 := rfl
    have hfits : userMemLocation + mb4 ≤ 0x100000000 := by decide
    have hrange := storedAt_range (by omega) ha
    omega

/-- The literal passes the test. -/
lemma shell_passesTest : ∃ d, d.inode = 0 ∧ threeShells.PassesTest shellEnv (fun _ => 0) shellEnv.shell 3 d :=
  ⟨_, rfl, rfl, rfl, fun _ _ => ⟨_, rfl⟩, rfl⟩

/-- The shell is loaded into its page. -/
theorem load_in_page_iff_shell : ∃ d, threeShells.PassesTest shellEnv (fun _ => 0) shellEnv.shell 3 d ∧
    LoadsInPage shellEnv (fun _ => 0) threeShells 0 3 ⟨0, 0⟩ shellEnv.shell d := by
  obtain ⟨d, hinode, hd⟩ := shell_passesTest
  have hlen : (shellImage.fileBytes 0).length = 40 := by
    rw [Image.fileBytes, if_pos (by decide), Image.length_content (by decide)]
    decide
  refine ⟨d, hd, (load_in_page_iff shellEnv shellImage_filesValid _ threeShells 0 3 ⟨0, 0⟩ _ d hd).mpr ?_⟩
  rw [hinode]
  exact hlen.trans_le (by decide)

/-- The image with its file as long as the format allows, all of it in one data block. -/
def longEnv : Env :=
  { shellEnv with fs := { shellImage with mem := fun a =>
      if a = 4096 then 0 else if a = 4097 then 0xf0 else if a = 4098 then 0x3f else shellImage.mem a } }

/-- The table of data blocks is zero. -/
lemma longEnv_dataBlock {j : Nat} (hj : j < 1023) : longEnv.fs.dataBlock 0 j = 0 := by
  have hbyte : ∀ a, 4100 ≤ a → a < 8192 → longEnv.fs.byte a = 0 := by
    intro a hlo hhi
    have hmod : a % 0x100000000 = a := Nat.mod_eq_of_lt (by omega)
    simp only [Image.byte, hmod, longEnv, shellImage]
    rw [if_neg (by omega), if_neg (by omega), if_neg (by omega)]
    split
    all_goals first | omega | rfl
  have hnode : longEnv.fs.inodeAddr 0 = 4096 := rfl
  simp only [Image.dataBlock, Image.word, Mem.le32, hnode]
  rw [hbyte _ (by omega) (by omega), hbyte _ (by omega) (by omega), hbyte _ (by omega) (by omega),
    hbyte _ (by omega) (by omega)]
  rfl

/-- The long file is within its image. -/
lemma longEnv_filesValid : longEnv.fs.FilesValid := by
  have hnum : longEnv.fs.numInodes = 1 := by decide
  have hlen : longEnv.fs.lengthBytes 0 = 1023 * 4096 := by decide
  refine ⟨by decide, fun inode hin => ?_⟩
  obtain rfl : inode = 0 := by omega
  refine ⟨by decide, by rw [hlen], fun j hj => ?_⟩
  rw [longEnv_dataBlock (by omega)]
  decide

/-- A program of 1023 blocks is not refused, and does not fit. -/
theorem long_file_not_refused : longEnv.fs.FilesValid ∧
    ∃ d, threeShells.PassesTest longEnv (fun _ => 0) longEnv.shell 3 d ∧
      (longEnv.fs.fileBytes d.inode).length = 1023 * 4096 ∧
      ¬ LoadsInPage longEnv (fun _ => 0) threeShells 0 3 ⟨0, 0⟩ longEnv.shell d := by
  have htest : ∃ d, d.inode = 0 ∧ threeShells.PassesTest longEnv (fun _ => 0) longEnv.shell 3 d :=
    ⟨_, rfl, rfl, rfl, fun _ _ => ⟨_, rfl⟩, rfl⟩
  obtain ⟨d, hinode, hd⟩ := htest
  have hlen : (longEnv.fs.fileBytes 0).length = 1023 * 4096 := by
    rw [Image.fileBytes, if_pos (by decide), Image.length_content (by decide)]
    decide
  refine ⟨longEnv_filesValid, d, hd, by rw [hinode, hlen], fun hload => ?_⟩
  obtain ⟨m, k', hk⟩ := hload.tooLong (by rw [hinode, hlen]; decide)
  exact hd.not_refused ⟨0, 0⟩ m k' hk

/-! ### Refusals -/

namespace Command
variable {c : Command} {fuel i : Nat} {row : Mem} {hist : Nat → Mem}

/-- The history is what it would be shifted to: the command is in the first row, and every row is the row
before it. -/
def HistSettled (c : Command) (hist : Nat → Mem) : Prop :=
  (∀ i, 1 ≤ i → i ≤ 4 → ∀ j < 128, hist (i - 1) j = hist i j) ∧ ∀ j < maxBufIndex, c.byte j = some (hist 0 j)

/-- What the loop copies into the history. -/
lemma histLoop_apply (hok : (c.histLoop fuel i row).2 = true) (j : Nat) :
    (c.histLoop fuel i row).1 j = if i ≤ j ∧ j < i + fuel then (c.byte j).getD 0 else row j := by
  induction fuel generalizing i row with
  | zero =>
    rw [if_neg (by omega)]
    rfl
  | succ fuel ih =>
    simp only [histLoop] at hok ⊢
    cases hb : c.byte i with
    | none =>
      rw [hb] at hok
      cases hok
    | some b =>
      rw [hb] at hok
      simp only at hok ⊢
      rw [ih hok]
      by_cases hj : j = i
      · rw [hj, if_neg (by omega), if_pos (by omega), Function.update_self, hb, Option.getD_some]
      · rw [Function.update_of_ne hj]
        exact if_ctx_congr (by omega) (fun _ => rfl) fun _ => rfl

/-- Entering a command leaves a settled history as it is, and no other. -/
lemma pushHist_eq_iff (hc : c.HistMapped) : (c.pushHist hist).1 = hist ↔ c.HistSettled hist := by
  have hrow0 : ∀ j, (c.pushHist hist).1 0 j = if j < maxBufIndex then (c.byte j).getD 0 else hist 0 j := by
    intro j
    have hok : (c.histLoop maxBufIndex 0 (hist 0)).2 = true := pushHist_ok.mpr hc
    have happly := histLoop_apply hok j
    simp only [Nat.zero_le, true_and, Nat.zero_add] at happly
    exact happly
  have hrow : ∀ i, 1 ≤ i → ∀ j, (c.pushHist hist).1 i j = if i ≤ 4 ∧ j < 128 then hist (i - 1) j else hist i j := by
    intro i hi j
    have hne : i ≠ 0 := by omega
    simp only [pushHist, Function.update_of_ne hne, hi, true_and]
  constructor
  · intro h
    refine ⟨fun i hlo hhi j hj => ?_, fun j hj => ?_⟩
    · have := hrow i hlo j
      rw [h, if_pos ⟨hhi, hj⟩] at this
      exact this.symm
    · obtain ⟨b, hb⟩ := hc j hj
      have := hrow0 j
      rw [h, if_pos hj, hb, Option.getD_some] at this
      rw [hb, this]
  · rintro ⟨hrows, hfirst⟩
    funext i j
    rcases Nat.eq_zero_or_pos i with rfl | hi
    · rw [hrow0]
      split
      · next hj => rw [hfirst j hj, Option.getD_some]
      · rfl
    · rw [hrow i hi]
      split
      · next hij => exact hrows i hi hij.1 j hij.2
      · rfl

end Command

namespace Kernel
variable {env : Env} {stale : Mem} {k k' : Kernel} {cur pid : Pid} {r : Regs} {c : Command}
  {command : Option Command} {d : Dentry} {m : String}

/-- What processes can tell of the kernel is as it was. -/
structure Same (k k' : Kernel) : Prop where
  used : k'.procIdUsed = k.procIdUsed
  active : k'.active = k.active
  pcb : ∀ p, k.procIdUsed p = true → k'.pcb p = k.pcb p
  dirs : k'.procPageDirectory = k.procPageDirectory
  cr3 : k'.cr3 = k.cr3
  esp0 : k'.esp0 = k.esp0
  ss0 : k'.ss0 = k.ss0
  hist : k'.cmdHist = k.cmdHist

/-- A refused `execute` leaves the stack segment. -/
lemma execute_refused_ss0 (h : k.execute env stale cur r command = .refused m k') : k'.ss0 = k.ss0 := by
  rcases execute_ways env stale cur r command k with ⟨m', hm, _⟩ | ⟨pid, text, hfree, hfault | hways⟩
  · rw [hm] at h
    cases h
    rfl
  · rw [hfault] at h
    cases h
  · rw [h] at hways
    cases hways
    rfl

/-- The command names a file whose header is wrong, and its history is not settled. -/
def ShiftsHistory (env : Env) (stale : Mem) (cur : Pid) (k : Kernel) (command : Option Command) : Prop :=
  ∃ c pid d, command = some c ∧ freePid k.procIdUsed = some pid ∧ programOf env (some c) = some d ∧
    c.HistMapped ∧ isElf (elfHead env.fs d.inode stale) = false ∧
    ¬ c.HistSettled (k.cmdHist (k.terminalOf cur pid))

/-- A command whose name is not found is refused with the history untouched. -/
lemma execute_unresolved (hfree : freePid k.procIdUsed = some pid) (hd : programOf env (some c) = none)
    (h : k.execute env stale cur r (some c) = .refused m k') : k'.cmdHist = k.cmdHist := by
  simp only [execute, hfree] at h
  cases hlen : c.parse.2 with
  | none =>
    rw [show c.parse = (c.parse.1, none) from Prod.ext rfl hlen] at h
    cases h
  | some len =>
    have hlook : env.fs.readDentryByName c.parse.1 len = none := by
      have hbind : (c.parse.2.bind fun len => env.fs.readDentryByName c.parse.1 len) = none := hd
      rwa [hlen] at hbind
    rw [show c.parse = (c.parse.1, some len) from Prod.ext rfl hlen] at h
    simp only [startProgram, setPcb, Function.update_self, blankPcb, hlook] at h
    cases h
    rfl

/-- A refusal leaves the history as it was, or it is the header that was wrong. -/
lemma execute_refused_hist (hkeeps : ¬ ShiftsHistory env stale cur k command)
    (h : k.execute env stale cur r command = .refused m k') : k'.cmdHist = k.cmdHist := by
  cases command with
  | none =>
    cases h
    rfl
  | some c =>
    cases hfree : freePid k.procIdUsed with
    | none =>
      rw [execute_full hfree] at h
      cases h
      rfl
    | some pid =>
      cases hd : programOf env (some c) with
      | none => exact execute_unresolved hfree hd h
      | some d =>
        obtain ⟨hc, helf, rfl⟩ := execute_refused_header hfree hd h
        have hsettled : c.HistSettled (k.cmdHist (k.terminalOf cur pid)) := by
          by_contra hnot
          exact hkeeps ⟨c, pid, d, rfl, hfree, hd, hc, Bool.not_eq_true _ ▸ helf, hnot⟩
        change Function.update k.cmdHist (k.terminalOf cur pid) _ = k.cmdHist
        rw [(Command.pushHist_eq_iff hc).mpr hsettled, Function.update_eq_self]

end Kernel

/-- A refusal changes nothing, unless a header is found to be wrong with the history already shifted. -/
theorem refusal_changes_nothing_iff (env : Env) (stale : Mem) (k : Kernel) (cur : Pid) (r : Regs)
    (command : Option Command) :
    (∀ m k', k.execute env stale cur r command = .refused m k' → k.Same k') ↔
      ¬ Kernel.ShiftsHistory env stale cur k command := by
  constructor
  · rintro hsame ⟨c, pid, d, rfl, hfree, hd, hc, helf, hnot⟩
    have hrefused : k.execute env stale cur r (some c) = .refused "" ((k.logged cur pid c).setUsed pid false) := by
      rw [Kernel.execute_resolved hfree hd, if_pos (Command.pushHist_ok.mpr hc), helf]
      rfl
    have hhist := congrFun (hsame _ _ hrefused).hist (k.terminalOf cur pid)
    have hself : ((k.logged cur pid c).setUsed pid false).cmdHist (k.terminalOf cur pid) =
        (c.pushHist (k.cmdHist (k.terminalOf cur pid))).1 := by
      simp only [Kernel.setUsed, Kernel.logged, Kernel.setHist, Function.update_self]
    exact hnot ((Command.pushHist_eq_iff hc).mp (hself.symm.trans hhist))
  · intro hkeeps m k' h
    obtain ⟨hcontrol, _, hused, hcr3, hdirs, hpcb⟩ := Kernel.execute_refused h
    exact ⟨hused, hcontrol.active, hpcb, hdirs, hcr3, hcontrol.esp0, Kernel.execute_refused_ss0 h,
      Kernel.execute_refused_hist hkeeps h⟩

/-- A file without a header is refused, and its command is in the history. -/
theorem refused_header_in_history : ∃ k, threeShells.execute emptyEnv (fun _ => 0) 0 ⟨0, 0⟩ (some emptyEnv.shell) =
    .refused "" k ∧ (∀ i < 5, k.cmdHist 0 0 i = shellName.byte i) ∧ ¬ threeShells.Same k := by
  have hrefused : ∃ k, threeShells.execute emptyEnv (fun _ => 0) 0 ⟨0, 0⟩ (some emptyEnv.shell) = .refused "" k ∧
      ∀ i < 5, k.cmdHist 0 0 i = shellName.byte i := ⟨_, rfl, by decide⟩
  obtain ⟨k, hk, hhist⟩ := hrefused
  refine ⟨k, hk, hhist, fun h => ?_⟩
  have hfirst := hhist 0 (by decide)
  rw [h.hist] at hfirst
  exact absurd hfirst (by decide)

end Boss
