import Boss.Filesys.Driver

/-!
# Descriptor tables

The system calls `open`, `read` and `close` of `syscall.c` on the descriptor table of one process, and what
they amount to: a map of open files that do not know of each other.

The abstract side keeps for each slot the `Session` of the file open there: the name it was opened under,
its directory entry and the sizes of the reads made since. Opening takes the least free slot, closing frees
one, and a read gives what it would give in the run that has only the calls of that session
(`Session.alone`). `descriptors_refine_open_files` says that the table computes exactly the results of this
map, over every sequence of calls of a fresh process.

A call of a driver through a null table faults, which is `none`; it is shown never to happen on an image
whose entries have one of the three types.
-/

namespace Boss
open Lib

/-- `is_kernel_ptr`. -/
def isKernelPtr (ptr : Nat) : Bool := decide (ptr < 0x00800000)

/-- `PCB.fd`. -/
abbrev Fds := Fin 8 → File

instance neZeroFd : NeZero 8 := ⟨by decide⟩

/-! ### The system calls -/

/-- `read`, with the terminal of the calling process. -/
def sysRead (fs : Image) (T : Terminal) (fds : Fds) (fd : Int) (buf nbytes : Nat) :
    Option (Result × Fds × Terminal) :=
  if h : 0 ≤ fd ∧ fd < 8 then
    let i : Fin 8 := ⟨fd.toNat, by omega⟩
    if (fds i).flags = 0 ∨ isKernelPtr buf then some (.fail, fds, T)
    else
      match (fds i).fOp with
      | none => none
      | some op =>
        let (r, f, T) := op.read fs T (fds i) nbytes
        some (r, Function.update fds i f, T)
  else some (.fail, fds, T)

/-- What `open` stores into a free slot, by the type of the entry. -/
def File.describe (f : File) (d : Dentry) : File :=
  if d.type = 0 then { f with fInode := 0, fPos := 0, flags := 1, fOp := some .rtc }
  else if d.type = 1 then { f with fInode := d.inode, fPos := 0, flags := 1, fOp := some .dir }
  else if d.type = 2 then { f with fInode := d.inode, fPos := 0, flags := 1, fOp := some .file }
  else f

/-- The loop of `open` over the slots. -/
def openLoop (fds : Fds) (d : Dentry) : List (Fin 8) → Option (Int × Fds)
  | [] => some (-1, fds)
  | i :: is =>
    if (fds i).flags = 0 then
      let f := { (fds i).describe d with fdIndex := i }
      match f.fOp with
      | none => none
      | some op =>
        let (ret, f) := op.opened f
        some (if ret = -1 then -1 else (i.val : Int), Function.update fds i f)
    else openLoop fds d is

/-- The slots `open` looks at. -/
def openSlots : List (Fin 8) := [2, 3, 4, 5, 6, 7]

/-- The directory entry of a name. -/
def Image.lookup (fs : Image) (name : CString) : Option Dentry := fs.readDentryByName name.byte name.bound

/-- `open`; a null name is `none`. -/
def sysOpen (fs : Image) (fds : Fds) : (filename : Option CString) → Option (Int × Fds)
  | none => some (-1, fds)
  | some name =>
    match fs.lookup name with
    | none => some (-1, fds)
    | some d => openLoop fds d openSlots

/-- The slots `close` accepts. -/
def slot (fd : Int) : Option (Fin 8) :=
  if h : 2 ≤ fd ∧ fd ≤ 7 then some ⟨fd.toNat, by omega⟩ else none

/-- `close`. -/
def sysClose (fds : Fds) (fd : Int) : Option (Int × Fds) :=
  match slot fd with
  | none => some (-1, fds)
  | some i =>
    if (fds i).flags = 0 then some (-1, fds)
    else
      match (fds i).fOp with
      | none => none
      | some op => some (op.closed, Function.update fds i .zero)

/-- The table of a process that `execute` has just started. -/
def freshFds : Fds := fun i =>
  if i = 0 then { File.zero with fOp := some .stdin, flags := 1 }
  else if i = 1 then { File.zero with fOp := some .stdout, flags := 1 }
  else .zero

/-- A call; a read comes with the state its terminal has when the line is finished. -/
inductive Call
  | openName (filename : Option CString)
  | readFd (fd : Int) (buf nbytes : Nat) (T : Terminal)
  | closeFd (fd : Int)

/-- One call on the table. -/
def callStep (fs : Image) (fds : Fds) : Call → Option (Result × Fds)
  | .openName filename => (sysOpen fs fds filename).map fun (ret, fds) => (⟨ret, []⟩, fds)
  | .readFd fd buf nbytes T => (sysRead fs T fds fd buf nbytes).map fun (r, fds, _) => (r, fds)
  | .closeFd fd => (sysClose fds fd).map fun (ret, fds) => (⟨ret, []⟩, fds)

/-- Results of a sequence of calls, and what they leave. -/
def runCalls {σ : Type} (step : σ → Call → Option (Result × σ)) : σ → List Call →
    Option (List Result × σ)
  | s, [] => some ([], s)
  | s, c :: cs =>
    (step s c).bind fun (r, s) => (runCalls step s cs).map fun (rs, s) => (r :: rs, s)

/-! ### Open files -/

/-- A file from its `open` to its `close`. -/
structure Session where
  name : CString
  entry : Dentry
  reads : List Nat

/-- A read of descriptor 2 into user memory; no driver of an opened file looks at the terminal. -/
def readTwo (nbytes : Nat) : Call := .readFd 2 0x08000000 nbytes .blank

/-- The calls of a session, as the only ones of their process. -/
def Session.alone (s : Session) : List Call := .openName (some s.name) :: s.reads.map readTwo

/-- The result of a further read of a session, in the run that has no other calls. -/
def Session.read (fs : Image) (s : Session) (nbytes : Nat) : Option Result :=
  (runCalls (callStep fs) freshFds (s.alone ++ [readTwo nbytes])).bind fun (rs, _) => rs.getLast?

/-- The open files of a process. -/
abbrev OpenFiles := Fin 8 → Option Session

/-- The least slot with no open file. -/
def OpenFiles.least (m : OpenFiles) : Option (Fin 8) := openSlots.find? fun i => (m i).isNone

/-- One call on the map of open files. -/
def filesStep (fs : Image) (m : OpenFiles) : Call → Option (Result × OpenFiles)
  | .openName none => some (.fail, m)
  | .openName (some name) =>
    match fs.lookup name, m.least with
    | some d, some i => some (⟨(i.val : Int), []⟩, Function.update m i (some ⟨name, d, []⟩))
    | _, _ => some (.fail, m)
  | .readFd fd buf nbytes T =>
    if isKernelPtr buf then some (.fail, m)
    else if fd = 0 then some ((Ops.read fs T .zero nbytes .stdin).1, m)
    else
      match slot fd with
      | none => some (.fail, m)
      | some i =>
        match m i with
        | none => some (.fail, m)
        | some s => (s.read fs nbytes).map fun r =>
            (r, Function.update m i (some { s with reads := s.reads ++ [nbytes] }))
  | .closeFd fd =>
    match slot fd with
    | none => some (.fail, m)
    | some i =>
      if (m i).isSome then some (⟨0, []⟩, Function.update m i none) else some (.fail, m)

/-- The operation table of a file type. -/
def opsOf (type : Nat) : Ops := if type = 0 then .rtc else if type = 1 then .dir else .file

/-! ### The file of a session -/

/-- Operation tables that `open` installs. -/
def Ops.Named : Ops → Prop
  | .rtc | .dir | .file => True
  | .stdin | .stdout => False

/-- Every type has a table of operations with a name. -/
lemma opsOf_named (type : Nat) : (opsOf type).Named := by
  unfold opsOf
  split
  · trivial
  · split
    · trivial
    · trivial

namespace Ops
variable {fs : Image} {T : Terminal} {f : File} {op : Ops} {n j : Nat}

/-- Drivers do not look at the descriptor number. -/
lemma read_fdIndex : op.read fs T { f with fdIndex := j } n =
    ((op.read fs T f n).1, { (op.read fs T f n).2.1 with fdIndex := j }, (op.read fs T f n).2.2) := by
  cases op with
  | stdin => rfl
  | stdout => rfl
  | rtc => rfl
  | dir =>
    simp only [read, dirRead]
    split
    · rfl
    · rfl
  | file =>
    simp only [read, fileRead]
    split
    · rfl
    · rfl

/-- The drivers of named files leave the terminal alone, and the terminal leaves them alone. -/
lemma read_terminal (h : op.Named) :
    op.read fs T f n = ((op.read fs .blank f n).1, (op.read fs .blank f n).2.1, T) := by
  cases op with
  | stdin => exact h.elim
  | stdout => exact h.elim
  | rtc => rfl
  | dir => rfl
  | file => rfl

/-- A read keeps the file open under the same table. -/
lemma read_file (fs : Image) (T : Terminal) (f : File) (n : Nat) (op : Ops) :
    (op.read fs T f n).2.1.fOp = f.fOp ∧ (op.read fs T f n).2.1.flags = f.flags := by
  cases op with
  | stdin => exact ⟨rfl, rfl⟩
  | stdout => exact ⟨rfl, rfl⟩
  | rtc => exact ⟨rfl, rfl⟩
  | dir =>
    simp only [read, dirRead]
    split
    · exact ⟨rfl, rfl⟩
    · exact ⟨rfl, rfl⟩
  | file =>
    simp only [read, fileRead]
    split
    · exact ⟨rfl, rfl⟩
    · exact ⟨rfl, rfl⟩

end Ops

/-- A file just opened. -/
def Dentry.file (d : Dentry) : File := ((opsOf d.type).opened (File.zero.describe d)).2

/-- The file after a list of reads. -/
def readAll (fs : Image) (op : Ops) (f : File) (ns : List Nat) : File :=
  ns.foldl (fun f n => (op.read fs .blank f n).2.1) f

/-- The file of a session, up to its number. -/
def Session.file (fs : Image) (s : Session) : File := readAll fs (opsOf s.entry.type) s.entry.file s.reads

/-- The slot of an entry that was opened. -/
lemma Dentry.file_open {d : Dentry} (h : d.type ≤ 2) :
    d.file.fOp = some (opsOf d.type) ∧ d.file.flags = 1 := by
  have h3 : d.type = 0 ∨ d.type = 1 ∨ d.type = 2 := by omega
  rcases h3 with h | h | h
  all_goals simp [Dentry.file, opsOf, File.describe, Ops.opened, dirOpen, h]

/-- Reading leaves the slot open. -/
lemma readAll_open {fs : Image} {op : Ops} {f : File} {ns : List Nat} :
    (readAll fs op f ns).fOp = f.fOp ∧ (readAll fs op f ns).flags = f.flags := by
  induction ns generalizing f with
  | nil => exact ⟨rfl, rfl⟩
  | cons n ns ih =>
    obtain ⟨hop, hflags⟩ := Ops.read_file fs .blank f n op
    obtain ⟨h1, h2⟩ := ih (f := (op.read fs .blank f n).2.1)
    exact ⟨h1.trans hop, h2.trans hflags⟩

/-- The slot of an open file. -/
lemma Session.file_open (fs : Image) (s : Session) (h : s.entry.type ≤ 2) :
    (s.file fs).fOp = some (opsOf s.entry.type) ∧ (s.file fs).flags = 1 := by
  obtain ⟨h1, h2⟩ := Dentry.file_open h
  exact ⟨readAll_open.1.trans h1, readAll_open.2.trans h2⟩

/-- One more read. -/
lemma Session.file_read {fs : Image} {s : Session} {n : Nat} :
    Session.file fs { s with reads := s.reads ++ [n] } =
      ((opsOf s.entry.type).read fs .blank (s.file fs) n).2.1 := by
  simp [Session.file, readAll, List.foldl_append]

/-! ### A session on its own -/

/-- Calls in two parts. -/
lemma runCalls_append {σ : Type} {step : σ → Call → Option (Result × σ)} {s : σ} {cs ds : List Call} :
    runCalls step s (cs ++ ds) = (runCalls step s cs).bind fun (rs, t) =>
      (runCalls step t ds).map fun (qs, t) => (rs ++ qs, t) := by
  induction cs generalizing s with
  | nil => simp [runCalls]
  | cons c cs ih =>
    simp only [List.cons_append, runCalls]
    cases hst : step s c with
    | none => rfl
    | some r =>
      obtain ⟨r, t⟩ := r
      simp only [Option.bind_some, ih]
      cases runCalls step t cs with
      | none => rfl
      | some p =>
        obtain ⟨rs, u⟩ := p
        simp only [Option.bind_some, Option.map_some]
        cases runCalls step u ds with
        | none => rfl
        | some q => rfl

/-- A read that passes the checks is the driver's. -/
lemma sysRead_eq (fs : Image) (T : Terminal) (n : Nat) (fds : Fds) (i : Fin 8) {op : Ops} {buf : Nat}
    (hflags : (fds i).flags = 1) (hop : (fds i).fOp = some op) (hbuf : isKernelPtr buf = false) :
    sysRead fs T fds i.val buf n = some ((op.read fs T (fds i) n).1,
      Function.update fds i (op.read fs T (fds i) n).2.1, (op.read fs T (fds i) n).2.2) := by
  have hi : (0 : Int) ≤ (i.val : Int) ∧ (i.val : Int) < 8 := by omega
  have hidx : (⟨(i.val : Int).toNat, by omega⟩ : Fin 8) = i := Fin.ext (by simp)
  have hopen : ¬ ((fds i).flags = 0 ∨ isKernelPtr buf = true) := by
    rw [hflags, hbuf]
    simp
  simp only [sysRead, dif_pos hi, hidx, if_neg hopen, hop]

/-- Reading an open file through the table. -/
lemma sysRead_open (fs : Image) (T : Terminal) (n : Nat) {fds : Fds} {i : Fin 8} {f : File} {op : Ops}
    {buf : Nat} (hf : fds i = { f with fdIndex := i }) (hop : f.fOp = some op) (hflags : f.flags = 1)
    (hnamed : op.Named) (hbuf : isKernelPtr buf = false) :
    sysRead fs T fds i.val buf n = some ((op.read fs .blank f n).1,
      Function.update fds i { (op.read fs .blank f n).2.1 with fdIndex := i }, T) := by
  have hread := sysRead_eq fs T n fds i (by rw [hf]; exact hflags)
    (by rw [hf]; exact hop) hbuf
  rw [hf, Ops.read_fdIndex, Ops.read_terminal (T := T) hnamed] at hread
  exact hread

/-- The table of a process whose only open file is `f`, on descriptor 2. -/
def onlyFile (f : File) : Fds := Function.update freshFds 2 { f with fdIndex := 2 }

/-- Opening a name in a fresh process. -/
lemma open_alone {fs : Image} {name : CString} {d : Dentry} (h : fs.lookup name = some d)
    (ht : d.type ≤ 2) :
    callStep fs freshFds (.openName (some name)) = some (⟨2, []⟩, onlyFile d.file) := by
  have h3 : d.type = 0 ∨ d.type = 1 ∨ d.type = 2 := by omega
  simp only [callStep, sysOpen, h]
  rcases h3 with e | e | e
  all_goals
    simp [openSlots, openLoop, freshFds, File.describe, e, File.zero, Ops.opened, dirOpen, onlyFile,
      Dentry.file, opsOf]

/-- Reading the only open file. -/
lemma read_alone (fs : Image) (n : Nat) {op : Ops} {f : File} (hop : f.fOp = some op)
    (hflags : f.flags = 1) (hnamed : op.Named) : callStep fs (onlyFile f) (readTwo n) =
      some ((op.read fs .blank f n).1, onlyFile (op.read fs .blank f n).2.1) := by
  have hfile : onlyFile f 2 = { f with fdIndex := (2 : Fin 8).val } := Function.update_self ..
  have hread := sysRead_open fs .blank n hfile hop hflags hnamed (rfl : isKernelPtr 0x08000000 = false)
  have htwo : (((2 : Fin 8).val : Nat) : Int) = 2 := rfl
  rw [htwo] at hread
  simp only [callStep, readTwo, hread, Option.map_some]
  simp only [onlyFile, Function.update_idem]
  rfl

/-- Reading the only open file, again and again. -/
lemma reads_alone (fs : Image) (ns : List Nat) {op : Ops} {f : File} (hop : f.fOp = some op)
    (hflags : f.flags = 1) (hnamed : op.Named) :
    ∃ rs, runCalls (callStep fs) (onlyFile f) (ns.map readTwo) =
      some (rs, onlyFile (readAll fs op f ns)) := by
  induction ns generalizing f with
  | nil => exact ⟨[], rfl⟩
  | cons n ns ih =>
    obtain ⟨hop', hflags'⟩ := Ops.read_file fs .blank f n op
    obtain ⟨rs, hrs⟩ := ih (hop'.trans hop) (hflags'.trans hflags)
    refine ⟨(op.read fs .blank f n).1 :: rs, ?_⟩
    simp only [List.map_cons, runCalls, read_alone fs n hop hflags hnamed, Option.bind_some, hrs,
      Option.map_some]
    rfl

/-- What a session reads on its own. -/
lemma Session.read_eq {fs : Image} {s : Session} {n : Nat} (h : fs.lookup s.name = some s.entry)
    (ht : s.entry.type ≤ 2) :
    s.read fs n = some ((opsOf s.entry.type).read fs .blank (s.file fs) n).1 := by
  obtain ⟨hop, hflags⟩ := Dentry.file_open ht
  obtain ⟨hop', hflags'⟩ := s.file_open fs ht
  obtain ⟨rs, hrs⟩ := reads_alone fs s.reads hop hflags (opsOf_named _)
  have hlast : runCalls (callStep fs) (onlyFile (s.file fs)) [readTwo n] =
      some ([((opsOf s.entry.type).read fs .blank (s.file fs) n).1],
        onlyFile ((opsOf s.entry.type).read fs .blank (s.file fs) n).2.1) := by
    simp only [runCalls, read_alone fs n hop' hflags' (opsOf_named _), Option.bind_some, Option.map_some]
  have halone : runCalls (callStep fs) freshFds s.alone = some (⟨2, []⟩ :: rs, onlyFile (s.file fs)) := by
    simp only [Session.alone, runCalls, open_alone h ht, Option.bind_some, hrs, Option.map_some]
    rfl
  simp only [Session.read, runCalls_append, halone, hlast, Option.bind_some, Option.map_some,
    List.getLast?_concat]

/-! ### The table refines the map -/

/-- Every entry of an image has one of the three types, and every data file is in order. -/
structure Image.WellFormed (fs : Image) : Prop where
  limit : fs.limit ≤ 0x100000000
  entries : fs.numEntries ≤ 63
  types : ∀ i < fs.numEntries, fs.word (fs.dentryAddr i + 32) ≤ 2
  inodes : ∀ i < fs.numEntries, fs.word (fs.dentryAddr i + 32) = 2 →
    fs.ValidInode (fs.word (fs.dentryAddr i + 36))

/-- A name that is found is the name of an entry. -/
lemma Image.dentryLoop_entry {fs : Image} {fname : Mem} {len fuel i : Nat} {d : Dentry}
    (h : fs.dentryLoop fname len fuel i = some d) :
    ∃ j, j < i + fuel ∧ d.type = fs.word (fs.dentryAddr j + 32) ∧
      d.inode = fs.word (fs.dentryAddr j + 36) := by
  induction fuel generalizing i with
  | zero => cases h
  | succ fuel ih =>
    simp only [Image.dentryLoop] at h
    split at h
    · split at h
      · cases h
      · cases h
        exact ⟨i, by omega, rfl, rfl⟩
    · obtain ⟨j, hj, ht, hn⟩ := ih h
      exact ⟨j, by omega, ht, hn⟩

/-- What is found is an entry of the directory. -/
lemma Image.lookup_entry {fs : Image} {name : CString} {d : Dentry} (h : fs.lookup name = some d) :
    ∃ j, j < fs.numEntries ∧ d.type = fs.word (fs.dentryAddr j + 32) ∧
      d.inode = fs.word (fs.dentryAddr j + 36) := by
  unfold Image.lookup Image.readDentryByName at h
  extract_lets len len' at h
  split at h
  · cases h
  · obtain ⟨j, hj, hd⟩ := Image.dentryLoop_entry h
    exact ⟨j, by omega, hd⟩

/-- In a well-formed image, what is found can be opened. -/
lemma Image.WellFormed.type_le {fs : Image} {name : CString} {d : Dentry} (wf : fs.WellFormed)
    (h : fs.lookup name = some d) : d.type ≤ 2 := by
  obtain ⟨j, hj, ht, _⟩ := Image.lookup_entry h
  rw [ht]
  exact wf.types j hj

/-- The table holds the files of the map: a free slot is zero, an open one holds the file its session
has on its own. -/
structure Describes (fs : Image) (fds : Fds) (m : OpenFiles) : Prop where
  stdin : fds 0 = freshFds 0
  stdout : fds 1 = freshFds 1
  free : ∀ i : Fin 8, 2 ≤ i.val → m i = none → fds i = .zero
  found : ∀ i s, m i = some s → fs.lookup s.name = some s.entry
  file : ∀ (i : Fin 8) s, 2 ≤ i.val → m i = some s → fds i = { s.file fs with fdIndex := i.val }

namespace Describes
variable {fs : Image} {fds : Fds} {m : OpenFiles}

/-- A slot is marked in use exactly while a file is open there. -/
lemma flags (h : Describes fs fds m) (wf : fs.WellFormed) {i : Fin 8} (hi : 2 ≤ i.val) :
    (fds i).flags = if (m i).isSome then 1 else 0 := by
  cases hm : m i with
  | none =>
    rw [h.free i hi hm]
    rfl
  | some s =>
    rw [h.file i s hi hm]
    exact (s.file_open fs (wf.type_le (h.found i s hm))).2

/-- An open slot carries the table of its file's type. -/
lemma fOp (h : Describes fs fds m) (wf : fs.WellFormed) {i : Fin 8} {s : Session} (hi : 2 ≤ i.val)
    (hm : m i = some s) : (fds i).fOp = some (opsOf s.entry.type) := by
  rw [h.file i s hi hm]
  exact (s.file_open fs (wf.type_le (h.found i s hm))).1

/-- A fresh table describes no open files. -/
lemma fresh : Describes fs freshFds (fun _ => none) where
  stdin := rfl
  stdout := rfl
  free := by
    intro i hi _
    have h0 : i ≠ 0 := by
      rintro rfl
      exact absurd hi (by decide)
    have h1 : i ≠ 1 := by
      rintro rfl
      exact absurd hi (by decide)
    simp only [freshFds, if_neg h0, if_neg h1]
  found := by
    intro i s h
    cases h
  file := by
    intro i s _ h
    cases h

/-- One slot changes on both sides. -/
lemma update (h : Describes fs fds m) {i : Fin 8} {f : File} {o : Option Session} (hi : 2 ≤ i.val)
    (hfree : o = none → f = .zero)
    (hopen : ∀ s, o = some s → fs.lookup s.name = some s.entry ∧ f = { s.file fs with fdIndex := i.val }) :
    Describes fs (Function.update fds i f) (Function.update m i o) where
  stdin := by
    rw [Function.update_of_ne (by rintro rfl; exact absurd hi (by decide))]
    exact h.stdin
  stdout := by
    rw [Function.update_of_ne (by rintro rfl; exact absurd hi (by decide))]
    exact h.stdout
  free := by
    intro j hj hm
    by_cases e : j = i
    · subst e
      rw [Function.update_self] at hm ⊢
      exact hfree hm
    · rw [Function.update_of_ne e] at hm ⊢
      exact h.free j hj hm
  found := by
    intro j s hm
    by_cases e : j = i
    · subst e
      rw [Function.update_self] at hm
      exact (hopen s hm).1
    · rw [Function.update_of_ne e] at hm
      exact h.found j s hm
  file := by
    intro j s hj hm
    by_cases e : j = i
    · subst e
      rw [Function.update_self] at hm ⊢
      exact (hopen s hm).2
    · rw [Function.update_of_ne e] at hm ⊢
      exact h.file j s hj hm

/-- The loop of `open` finds the least slot with no open file and opens the entry there. -/
lemma openLoop_eq (h : Describes fs fds m) (wf : fs.WellFormed) {d : Dentry} (hd : d.type ≤ 2) :
    ∀ is : List (Fin 8), (∀ i ∈ is, 2 ≤ i.val) → openLoop fds d is =
      match is.find? fun i => (m i).isNone with
      | none => some (-1, fds)
      | some i => some ((i.val : Int), Function.update fds i { d.file with fdIndex := i.val }) := by
  intro is his
  induction is with
  | nil => rfl
  | cons i is ih =>
    have hi := his i (List.mem_cons_self ..)
    have hflags := h.flags wf hi
    cases hm : m i with
    | none =>
      have hzero := h.free i hi hm
      have h3 : d.type = 0 ∨ d.type = 1 ∨ d.type = 2 := by omega
      rcases h3 with e | e | e
      all_goals
        simp [openLoop, hm, hzero, File.zero, File.describe, e, Ops.opened, dirOpen, Dentry.file, opsOf]
    | some s =>
      rw [hm] at hflags
      have hne : (fds i).flags ≠ 0 := by
        rw [hflags]
        exact Nat.one_ne_zero
      simp only [openLoop, if_neg hne, List.find?_cons, hm, Option.isNone_some]
      exact ih fun j hj => his j (List.mem_cons_of_mem _ hj)

/-- The table and the map give one result for a call and go on in step. -/
def Agree (fs : Image) (fds : Fds) (m : OpenFiles) (c : Call) : Prop :=
  ∃ r fds' m', callStep fs fds c = some (r, fds') ∧ filesStep fs m c = some (r, m') ∧
    Describes fs fds' m'

/-- An open with any name. -/
lemma open_step (h : Describes fs fds m) (wf : fs.WellFormed) (filename : Option CString) :
    Agree fs fds m (.openName filename) := by
  cases filename with
  | none => exact ⟨.fail, fds, m, rfl, rfl, h⟩
  | some name =>
    cases hl : fs.lookup name with
    | none =>
      refine ⟨.fail, fds, m, ?_, ?_, h⟩
      · simp only [callStep, sysOpen, hl]
        rfl
      · simp only [filesStep, hl]
    | some d =>
      have hd := wf.type_le hl
      have hslots : ∀ i ∈ openSlots, 2 ≤ i.val := by decide
      have hloop := h.openLoop_eq wf hd openSlots hslots
      cases hi : m.least with
      | none =>
        refine ⟨.fail, fds, m, ?_, ?_, h⟩
        · simp only [OpenFiles.least] at hi
          simp only [callStep, sysOpen, hl, hloop, hi]
          rfl
        · simp only [filesStep, hl, hi]
      | some i =>
        refine ⟨⟨i.val, []⟩, _, _, ?_, ?_, h.update (i := i)
          (f := { d.file with fdIndex := i.val }) (o := some ⟨name, d, []⟩) ?_ ?_ ?_⟩
        · simp only [OpenFiles.least] at hi
          simp only [callStep, sysOpen, hl, hloop, hi]
          rfl
        · simp only [filesStep, hl, hi]
        · exact hslots i (List.mem_of_find?_eq_some hi)
        · intro hnone
          cases hnone
        · intro s hs
          cases hs
          exact ⟨hl, rfl⟩

/-- A slot that can be opened and closed. -/
lemma slot_eq {fd : Int} {i : Fin 8} (h : slot fd = some i) : 2 ≤ i.val ∧ (i.val : Int) = fd := by
  unfold slot at h
  split at h
  · cases h
    simp only
    omega
  · cases h

/-- Numbers without such a slot. -/
lemma slot_none {fd : Int} (h : slot fd = none) : (fd < 0 ∨ 8 ≤ fd) ∨ fd = 0 ∨ fd = 1 := by
  unfold slot at h
  split at h
  · cases h
  · omega

/-- A close of any descriptor. -/
lemma close_step (h : Describes fs fds m) (wf : fs.WellFormed) (fd : Int) :
    Agree fs fds m (.closeFd fd) := by
  cases hs : slot fd with
  | none =>
    refine ⟨.fail, fds, m, ?_, ?_, h⟩
    · simp only [callStep, sysClose, hs]
      rfl
    · simp only [filesStep, hs]
  | some i =>
    obtain ⟨hi, _⟩ := slot_eq hs
    have hflags := h.flags wf hi
    cases hm : m i with
    | none =>
      rw [hm] at hflags
      refine ⟨.fail, fds, m, ?_, ?_, h⟩
      · simp only [callStep, sysClose, hs, hflags]
        rfl
      · simp only [filesStep, hs, hm]
        rfl
    | some s =>
      rw [hm] at hflags
      have hop := h.fOp wf hi hm
      have hclosed : (opsOf s.entry.type).closed = 0 := by
        have := opsOf_named s.entry.type
        cases hops : opsOf s.entry.type <;> simp [hops, Ops.Named, Ops.closed] at this ⊢
      refine ⟨⟨0, []⟩, _, _, ?_, ?_, h.update (f := .zero) (o := none) hi (fun _ => rfl) ?_⟩
      · simp only [callStep, sysClose, hs, hflags, hop, hclosed]
        rfl
      · simp only [filesStep, hs, hm]
        rfl
      · intro s hs
        cases hs

/-- A read that is refused. -/
lemma read_refused {T : Terminal} {fd : Int} {buf nbytes : Nat}
    (hbad : isKernelPtr buf = true ∨ ∀ i : Fin 8, (i.val : Int) = fd → (fds i).flags = 0) :
    sysRead fs T fds fd buf nbytes = some (.fail, fds, T) := by
  unfold sysRead
  split
  · next hfd =>
    have hrefuse : (fds ⟨fd.toNat, by omega⟩).flags = 0 ∨ isKernelPtr buf = true := by
      rcases hbad with hk | hflags
      · exact Or.inr hk
      · exact Or.inl (hflags _ (by simp only; omega))
    simp only [if_pos hrefuse]
  · rfl

/-- A read by a driver that keeps the file as it is. -/
lemma read_kept {T : Terminal} {i : Fin 8} {op : Ops} {buf n : Nat} {r : Result}
    (hflags : (fds i).flags = 1) (hop : (fds i).fOp = some op) (hbuf : isKernelPtr buf = false)
    (hkeep : (op.read fs T (fds i) n).2.1 = fds i) (hr : (op.read fs T (fds i) n).1 = r) :
    callStep fs fds (.readFd i.val buf n T) = some (r, fds) := by
  simp only [callStep, sysRead_eq fs T n fds i hflags hop hbuf, Option.map_some, hkeep, hr,
    Function.update_eq_self]

/-- A read of any descriptor. -/
lemma read_step (h : Describes fs fds m) (wf : fs.WellFormed) (fd : Int) (buf nbytes : Nat)
    (T : Terminal) : Agree fs fds m (.readFd fd buf nbytes T) := by
  cases hbuf : isKernelPtr buf with
  | true =>
    refine ⟨.fail, fds, m, ?_, ?_, h⟩
    · simp only [callStep, read_refused (Or.inl hbuf), Option.map_some]
    · simp only [filesStep, hbuf, if_true]
  | false =>
    have hkernel : ¬ isKernelPtr buf = true := by
      rw [hbuf]
      exact Bool.false_ne_true
    by_cases hzero : fd = 0
    · -- standard input: the file stays as it is
      subst hzero
      refine ⟨(Ops.read fs T .zero nbytes .stdin).1, fds, m, ?_, ?_, h⟩
      · have hflags : (fds 0).flags = 1 := by
          rw [h.stdin]
          rfl
        have hop : (fds 0).fOp = some .stdin := by
          rw [h.stdin]
          rfl
        exact read_kept (i := 0) hflags hop hbuf rfl rfl
      · simp only [filesStep, if_neg hkernel, if_true]
    · cases hs : slot fd with
      | none =>
        refine ⟨.fail, fds, m, ?_, ?_, h⟩
        · rcases slot_none hs with hout | rfl | rfl
          · have hfree : ∀ j : Fin 8, (j.val : Int) = fd → (fds j).flags = 0 := by
              intro j hj
              omega
            simp only [callStep, read_refused (Or.inr hfree), Option.map_some]
          · exact absurd rfl hzero
          · have hflags : (fds 1).flags = 1 := by
              rw [h.stdout]
              rfl
            have hop : (fds 1).fOp = some .stdout := by
              rw [h.stdout]
              rfl
            exact read_kept (i := 1) hflags hop hbuf rfl rfl
        · simp only [filesStep, if_neg hkernel, if_neg hzero, hs]
      | some i =>
        obtain ⟨hi, rfl⟩ := slot_eq hs
        have hflags := h.flags wf hi
        cases hm : m i with
        | none =>
          refine ⟨.fail, fds, m, ?_, ?_, h⟩
          · have hfree : ∀ j : Fin 8, (j.val : Int) = (i.val : Int) → (fds j).flags = 0 := by
              intro j hj
              have hji : j = i := Fin.ext (by omega)
              rw [hji, hflags, hm]
              rfl
            simp only [callStep, read_refused (Or.inr hfree), Option.map_some]
          · simp only [filesStep, if_neg hkernel, if_neg hzero, hs, hm]
        | some s =>
          have hfound := h.found i s hm
          have htype := wf.type_le hfound
          obtain ⟨hop, hflags⟩ := s.file_open fs htype
          have hread := sysRead_open fs T nbytes (h.file i s hi hm) hop hflags (opsOf_named _) hbuf
          refine ⟨((opsOf s.entry.type).read fs .blank (s.file fs) nbytes).1, _, _, ?_, ?_,
            h.update (i := i)
              (f := { ((opsOf s.entry.type).read fs .blank (s.file fs) nbytes).2.1 with fdIndex := i.val })
              (o := some { s with reads := s.reads ++ [nbytes] }) hi ?_ ?_⟩
          · simp only [callStep, hread, Option.map_some]
          · simp only [filesStep, if_neg hkernel, if_neg hzero, hs, hm, Session.read_eq hfound htype,
              Option.map_some]
          · intro hnone
            cases hnone
          · intro t ht
            cases ht
            refine ⟨hfound, ?_⟩
            rw [Session.file_read]

/-- Any call. -/
lemma step (h : Describes fs fds m) (wf : fs.WellFormed) (c : Call) : Agree fs fds m c := by
  cases c with
  | openName filename => exact h.open_step wf filename
  | readFd fd buf nbytes T => exact h.read_step wf fd buf nbytes T
  | closeFd fd => exact h.close_step wf fd

/-- Any sequence of calls. -/
lemma run (h : Describes fs fds m) (wf : fs.WellFormed) (cs : List Call) :
    ∃ rs fds' m', runCalls (callStep fs) fds cs = some (rs, fds') ∧
      runCalls (filesStep fs) m cs = some (rs, m') ∧ Describes fs fds' m' := by
  induction cs generalizing fds m with
  | nil => exact ⟨[], fds, m, rfl, rfl, h⟩
  | cons c cs ih =>
    obtain ⟨r, fds1, m1, hc, hm, h1⟩ := h.step wf c
    obtain ⟨rs, fds2, m2, hcs, hms, h2⟩ := ih h1
    refine ⟨r :: rs, fds2, m2, ?_, ?_, h2⟩
    · simp only [runCalls, hc, Option.bind_some, hcs, Option.map_some]
    · simp only [runCalls, hm, Option.bind_some, hms, Option.map_some]

end Describes

/-! ### Successive reads of a data file -/

/-- A read of a valid data file takes the next slice and moves on behind it. -/
lemma fileRead_valid {fs : Image} {f : File} {n : Nat} (h : fs.ValidInode f.fInode)
    (hl : fs.limit ≤ 0x100000000) (hp : f.fPos ≤ fs.lengthBytes f.fInode) :
    fileRead fs f n =
      (⟨(min n (fs.lengthBytes f.fInode - f.fPos) : Nat),
        fs.slice f.fInode f.fPos (min n (fs.lengthBytes f.fInode - f.fPos))⟩,
        { f with fPos := min (fs.lengthBytes f.fInode) (f.fPos + n) }) := by
  have hlen := h.length
  have hread : (((min n (fs.lengthBytes f.fInode - f.fPos) : Nat) : Int) % 0x100000000).toNat =
      min n (fs.lengthBytes f.fInode - f.fPos) := by omega
  simp only [fileRead, Image.readData_spec h hl, hread]
  congr 1
  split
  · congr 1
    omega
  · have hstay : min (fs.lengthBytes f.fInode) (f.fPos + n) = f.fPos := by omega
    rw [hstay]

/-- The position after a list of reads. -/
lemma readAll_pos {fs : Image} {f : File} (ns : List Nat) (h : fs.ValidInode f.fInode)
    (hl : fs.limit ≤ 0x100000000) (hp : f.fPos ≤ fs.lengthBytes f.fInode) :
    readAll fs .file f ns = { f with fPos := min (fs.lengthBytes f.fInode) (f.fPos + ns.sum) } := by
  induction ns generalizing f with
  | nil =>
    have hstay : min (fs.lengthBytes f.fInode) (f.fPos + List.sum []) = f.fPos := by simp [hp]
    rw [hstay]
    rfl
  | cons n ns ih =>
    have hstep : readAll fs .file f (n :: ns) = readAll fs .file (fileRead fs f n).2 ns := rfl
    rw [hstep, fileRead_valid h hl hp]
    refine (ih (f := { f with fPos := min (fs.lengthBytes f.fInode) (f.fPos + n) }) h
      (Nat.min_le_left _ _)).trans ?_
    simp only [List.sum_cons]
    congr 1
    omega

/-- Successive reads of a data file are consecutive slices of it, then nothing. -/
lemma Session.read_slice {fs : Image} {s : Session} {n : Nat} (wf : fs.WellFormed)
    (h : fs.lookup s.name = some s.entry) (ht : s.entry.type = 2) :
    s.read fs n =
      let len := fs.lengthBytes s.entry.inode
      let pos := min len s.reads.sum
      some ⟨(min n (len - pos) : Nat), fs.slice s.entry.inode pos (min n (len - pos))⟩ := by
  obtain ⟨j, hj, hjt, hjn⟩ := Image.lookup_entry h
  have hvalid : fs.ValidInode s.entry.inode := by
    rw [hjn]
    exact wf.inodes j hj (by rw [← hjt, ht])
  have hfile : s.entry.file = ⟨some .file, s.entry.inode, 0, 1, 0⟩ := by
    simp [Dentry.file, opsOf, File.describe, Ops.opened, ht, File.zero]
  have hpos := readAll_pos s.reads (f := ⟨some .file, s.entry.inode, 0, 1, 0⟩) hvalid wf.limit
    (Nat.zero_le _)
  have hop : opsOf s.entry.type = .file := by
    rw [ht]
    rfl
  rw [Session.read_eq h (by omega), Session.file, hop, hfile, hpos]
  simp only [Ops.read, Nat.zero_add]
  rw [fileRead_valid hvalid wf.limit (Nat.min_le_left _ _)]

/-- Over any sequence of calls of a fresh process the descriptor table gives the results of a map of
independent open files, keeps its first two descriptors, and marks and dispatches exactly the open ones; a
data file is read in consecutive slices. -/
theorem descriptors_refine_open_files (fs : Image) (wf : fs.WellFormed) (calls : List Call) :
    ∃ results fds files,
      runCalls (callStep fs) freshFds calls = some (results, fds) ∧
      runCalls (filesStep fs) (fun _ => none) calls = some (results, files) ∧
      ((fds 0).fOp = some .stdin ∧ (fds 0).flags = 1 ∧ (fds 1).fOp = some .stdout ∧ (fds 1).flags = 1) ∧
      (∀ i : Fin 8, 2 ≤ i.val → (fds i).flags = if (files i).isSome then 1 else 0) ∧
      (∀ (i : Fin 8) s, 2 ≤ i.val → files i = some s → (fds i).fOp = some (opsOf s.entry.type)) ∧
      (∀ (i : Fin 8) s n, files i = some s → s.entry.type = 2 →
        s.read fs n =
          let len := fs.lengthBytes s.entry.inode
          let pos := min len s.reads.sum
          some ⟨(min n (len - pos) : Nat), fs.slice s.entry.inode pos (min n (len - pos))⟩) := by
  obtain ⟨results, fds, files, hc, hm, h⟩ := Describes.fresh.run wf calls
  refine ⟨results, fds, files, hc, hm, ?_, ?_, ?_, ?_⟩
  · rw [h.stdin, h.stdout]
    exact ⟨rfl, rfl, rfl, rfl⟩
  · intro i hi
    exact h.flags wf hi
  · intro i s hi hs
    exact h.fOp wf hi hs
  · intro i s n hs ht
    exact Session.read_slice wf (h.found i s hs) ht

/-- An image with one file: the program `shell`, 40 bytes long, with entry point `0x08048000`. -/
def shellImage : Image where
  mem a :=
    match a with
    | 0 => 1 | 4 => 1
    | 64 => 115 | 65 => 104 | 66 => 101 | 67 => 108 | 68 => 108 | 96 => 2
    | 4096 => 40
    | 8192 => 0x7f | 8193 => 69 | 8194 => 76 | 8195 => 70
    | 8217 => 0x80 | 8218 => 0x04 | 8219 => 0x08
    | _ => 0
  base := 0
  limit := 3 * 4096

/-- The image of the shell is well-formed. -/
lemma shellImage_wellFormed : shellImage.WellFormed where
  limit := by decide
  entries := by decide
  types := by decide
  inodes := by
    have hvalid : shellImage.ValidInode 0 := by
      refine ⟨by decide, by decide, ?_⟩
      intro j hj
      have hlen : shellImage.lengthBytes 0 = 40 := by decide
      have hj0 : j = 0 := by omega
      subst hj0
      decide
    intro i hi _
    have hone : shellImage.numEntries = 1 := by decide
    have hi0 : i = 0 := by omega
    subst hi0
    exact hvalid

/-- The name `shell`. -/
def shellName : CString where
  byte i := ([115, 104, 101, 108, 108] : List UInt8).getD i 0
  bound := 5
  nul := by decide

/-- The file `shell` is opened and read twice. -/
theorem descriptors_refine_open_files_shell :
    ∃ results fds files,
      runCalls (callStep shellImage) freshFds [.openName (some shellName), readTwo 30, readTwo 30] =
        some (results, fds) ∧
      runCalls (filesStep shellImage) (fun _ => none)
        [.openName (some shellName), readTwo 30, readTwo 30] = some (results, files) := by
  obtain ⟨results, fds, files, hc, hm, _⟩ := descriptors_refine_open_files shellImage
    shellImage_wellFormed [.openName (some shellName), readTwo 30, readTwo 30]
  exact ⟨results, fds, files, hc, hm⟩

end Boss
