import Boss.Syscall.Descriptors

/-!
# Checks on descriptors

How `read`, `write` and `close` check a descriptor, and what `open` leaves when it does not succeed.

The tests of `read` and `write` are one expression, and `pcb->fd[fd].flags` is the first of them: it is
loaded before the number is known to be one of the table. A traced call (`FdTrace`) therefore says at which indices it
uses `pcb->fd`. Behind the ends of the table is memory that the table does not own (`outside`), which may not
be mapped. `close` looks at the number first, and it is the only one of the three that stays in the table for
every number (`descriptor_checks_iff`).

`open` fills a free slot by the type of the entry and calls the `open` of the table it has just stored. An
entry of another type than the three has no table: the slot of a closed file holds a null pointer, and the
call through it faults with the slot half filled. For the three types `open` does all or nothing
(`open_atomic_iff`).
-/

namespace Boss
open Lib

/-! ### Traced calls -/

/-- What `f_op->write` returns. No driver changes its `struct file` there, and only `terminal_write` takes
the data. -/
def Ops.written (data : Mem) (nbytes : Nat) : Ops → Int
  | stdin | dir | file => -1
  | stdout => ((data.bytes 0 nbytes).takeWhile (· ≠ 0)).length
  | rtc => if nbytes = 4 then 0 else -1

/-- A call on a descriptor: the indices at which it uses `pcb->fd`, in their order, and what it returns and
leaves, unless it faults. -/
structure FdTrace where
  indices : List Int
  outcome : Option (Int × Fds)

/-- A number of the table is an index. -/
lemma fd_toNat_lt {fd : Int} (h : 0 ≤ fd ∧ fd < 8) : fd.toNat < 8 := by
  omega

/-- The slot behind an index of the array. -/
def entry (fd : Int) : Option (Fin 8) := if h : 0 ≤ fd ∧ fd < 8 then some ⟨fd.toNat, fd_toNat_lt h⟩ else none

/-- The load of `pcb->fd[fd].flags`. -/
def loadFlags (outside : Int → Option Nat) (fds : Fds) (fd : Int) : Option Nat :=
  match entry fd with
  | some i => some (fds i).flags
  | none => outside fd

/-- What is left behind the test of `read` is a number of the table. -/
lemma readable_range {flags buf : Nat} {fd : Int} (h : ¬ (flags = 0 ∨ fd ≥ 8 ∨ fd < 0 ∨ isKernelPtr buf)) :
    0 ≤ fd ∧ fd < 8 := by
  omega

/-- `read`; the table `f_op` is loaded for the test of `f_op->read` and for the call. -/
def tracedRead (outside : Int → Option Nat) (fs : Image) (T : Terminal) (fds : Fds) (fd : Int) (buf nbytes : Nat) :
    FdTrace :=
  match loadFlags outside fds fd with
  | none => ⟨[fd], none⟩
  | some flags =>
    if h : flags = 0 ∨ fd ≥ 8 ∨ fd < 0 ∨ isKernelPtr buf then ⟨[fd], some (-1, fds)⟩
    else
      let i : Fin 8 := ⟨fd.toNat, fd_toNat_lt (readable_range h)⟩
      match (fds i).fOp with
      | none => ⟨[fd, fd], none⟩
      | some op =>
        let (r, f, _) := op.read fs T (fds i) nbytes
        ⟨[fd, fd, fd, fd], some (r.ret, Function.update fds i f)⟩

/-- What is left behind the test of `write` is a number of the table. -/
lemma writable_range {flags buf : Nat} {fd : Int} (h : ¬ (flags = 0 ∨ buf = 0 ∨ fd > 7 ∨ fd < 0)) :
    0 ≤ fd ∧ fd < 8 := by
  omega

/-- `write`, with the bytes behind its pointer. -/
def tracedWrite (outside : Int → Option Nat) (data : Mem) (fds : Fds) (fd : Int) (buf nbytes : Nat) : FdTrace :=
  match loadFlags outside fds fd with
  | none => ⟨[fd], none⟩
  | some flags =>
    if h : flags = 0 ∨ buf = 0 ∨ fd > 7 ∨ fd < 0 then ⟨[fd], some (-1, fds)⟩
    else if isKernelPtr buf then ⟨[fd], some (-1, fds)⟩
    else
      let i : Fin 8 := ⟨fd.toNat, fd_toNat_lt (writable_range h)⟩
      match (fds i).fOp with
      | none => ⟨[fd, fd], none⟩
      | some op => ⟨[fd, fd, fd], some (op.written data nbytes, fds)⟩

/-- What is left behind the test of `close` is a number of the table. -/
lemma closable_range {fd : Int} (h : ¬ (fd > 7 ∨ fd < 2)) : 0 ≤ fd ∧ fd < 8 := by
  omega

/-- `close`; five fields are cleared at the end. -/
def tracedClose (fds : Fds) (fd : Int) : FdTrace :=
  if h : fd > 7 ∨ fd < 2 then ⟨[], some (-1, fds)⟩
  else
    let i : Fin 8 := ⟨fd.toNat, fd_toNat_lt (closable_range h)⟩
    if (fds i).flags = 0 then ⟨[fd], some (-1, fds)⟩
    else
      match (fds i).fOp with
      | none => ⟨[fd, fd], none⟩
      | some op => ⟨List.replicate 8 fd, some (op.closed, Function.update fds i .zero)⟩

/-- The three calls. A read comes with the state its terminal has when the line is finished. -/
inductive FdCall
  | read (T : Terminal) (buf nbytes : Nat)
  | write (data : Mem) (buf nbytes : Nat)
  | close

/-- A call on the descriptor `fd`. -/
def FdCall.traced (outside : Int → Option Nat) (fs : Image) (fds : Fds) (fd : Int) : FdCall → FdTrace
  | read T buf nbytes => tracedRead outside fs T fds fd buf nbytes
  | write data buf nbytes => tracedWrite outside data fds fd buf nbytes
  | close => tracedClose fds fd

/-- The numbers that a call is to accept. -/
def FdCall.Accepts (fd : Int) : FdCall → Prop
  | read _ _ _ | write _ _ _ => 0 ≤ fd ∧ fd ≤ 7
  | close => 2 ≤ fd ∧ fd ≤ 7

/-! ### The calls on the table -/

variable {outside : Int → Option Nat} {fs : Image} {fds fds' : Fds} {fd ret : Int} {i : Fin 8} {c : FdCall}

/-- A number of the table belongs to a slot. -/
lemma exists_slot (h : 0 ≤ fd ∧ fd < 8) : ∃ i : Fin 8, fd = (i.val : Int) :=
  ⟨⟨fd.toNat, fd_toNat_lt h⟩, (Int.toNat_of_nonneg h.1).symm⟩

/-- The slot of its own number. -/
lemma slot_toNat (i : Fin 8) (h : (i.val : Int).toNat < 8) : (⟨(i.val : Int).toNat, h⟩ : Fin 8) = i :=
  Fin.ext (Int.toNat_natCast _)

/-- The flags of a slot. -/
lemma loadFlags_slot (i : Fin 8) : loadFlags outside fds i.val = some (fds i).flags := by
  have h : (0 : Int) ≤ (i.val : Int) ∧ (i.val : Int) < 8 := by omega
  simp only [loadFlags, entry, dif_pos h, slot_toNat]

/-- What is loaded for a number outside of the table. -/
lemma loadFlags_outside (h : ¬ (0 ≤ fd ∧ fd < 8)) : loadFlags outside fds fd = outside fd := by
  simp only [loadFlags, entry, dif_neg h]

/-- `read` of a slot. -/
lemma tracedRead_slot (i : Fin 8) (T : Terminal) (buf nbytes : Nat) :
    tracedRead outside fs T fds i.val buf nbytes =
      if (fds i).flags = 0 ∨ isKernelPtr buf then ⟨[(i.val : Int)], some (-1, fds)⟩
      else
        match (fds i).fOp with
        | none => ⟨[(i.val : Int), i.val], none⟩
        | some op => ⟨[(i.val : Int), i.val, i.val, i.val],
            some ((op.read fs T (fds i) nbytes).1.ret, Function.update fds i (op.read fs T (fds i) nbytes).2.1)⟩ := by
  have htests : ((fds i).flags = 0 ∨ (i.val : Int) ≥ 8 ∨ (i.val : Int) < 0 ∨ isKernelPtr buf) ↔
      (fds i).flags = 0 ∨ isKernelPtr buf := by
    have hhigh : ¬ (i.val : Int) ≥ 8 := by omega
    have hlow : ¬ (i.val : Int) < 0 := by omega
    simp only [hhigh, hlow, false_or]
  simp only [tracedRead, loadFlags_slot, slot_toNat, dite_eq_ite, htests]

/-- `write` of a slot. -/
lemma tracedWrite_slot (i : Fin 8) (data : Mem) (buf nbytes : Nat) :
    tracedWrite outside data fds i.val buf nbytes =
      if (fds i).flags = 0 ∨ buf = 0 ∨ isKernelPtr buf then ⟨[(i.val : Int)], some (-1, fds)⟩
      else
        match (fds i).fOp with
        | none => ⟨[(i.val : Int), i.val], none⟩
        | some op => ⟨[(i.val : Int), i.val, i.val], some (op.written data nbytes, fds)⟩ := by
  have htests : ((fds i).flags = 0 ∨ buf = 0 ∨ (i.val : Int) > 7 ∨ (i.val : Int) < 0) ↔
      (fds i).flags = 0 ∨ buf = 0 := by
    have := i.isLt
    omega
  simp only [tracedWrite, loadFlags_slot, slot_toNat, dite_eq_ite, htests]
  by_cases hbad : (fds i).flags = 0 ∨ buf = 0
  · rw [if_pos hbad, if_pos (hbad.imp_right Or.inl)]
  · simp only [← or_assoc, hbad, if_false, false_or]

/-- `close` of a slot. -/
lemma tracedClose_slot (i : Fin 8) (hi : 2 ≤ i.val) : tracedClose fds i.val =
    if (fds i).flags = 0 then ⟨[(i.val : Int)], some (-1, fds)⟩
    else
      match (fds i).fOp with
      | none => ⟨[(i.val : Int), i.val], none⟩
      | some op => ⟨List.replicate 8 (i.val : Int), some (op.closed, Function.update fds i .zero)⟩ := by
  simp only [tracedClose, slot_toNat]
  rw [dif_neg (by omega)]

/-- `read` with a number outside of the table. -/
lemma tracedRead_outside (h : ¬ (0 ≤ fd ∧ fd < 8)) (T : Terminal) (buf nbytes : Nat) :
    tracedRead outside fs T fds fd buf nbytes = ⟨[fd], (outside fd).map fun _ => (-1, fds)⟩ := by
  simp only [tracedRead, loadFlags_outside h]
  cases outside fd with
  | none => rfl
  | some flags =>
    simp only
    rw [dif_pos (by omega)]
    rfl

/-- `write` with a number outside of the table. -/
lemma tracedWrite_outside (h : ¬ (0 ≤ fd ∧ fd < 8)) (data : Mem) (buf nbytes : Nat) :
    tracedWrite outside data fds fd buf nbytes = ⟨[fd], (outside fd).map fun _ => (-1, fds)⟩ := by
  simp only [tracedWrite, loadFlags_outside h]
  cases outside fd with
  | none => rfl
  | some flags =>
    simp only
    rw [dif_pos (by omega)]
    rfl

/-- A number that is no slot is refused by `close` and loaded from by the others, whatever is there. -/
lemma FdCall.traced_outside (h : ¬ (0 ≤ fd ∧ fd < 8)) (c : FdCall) :
    c = .close ∧ c.traced outside fs fds fd = ⟨[], some (-1, fds)⟩ ∨
      c ≠ .close ∧ c.traced outside fs fds fd = ⟨[fd], (outside fd).map fun _ => (-1, fds)⟩ := by
  cases c with
  | read T buf nbytes => exact Or.inr ⟨nofun, tracedRead_outside h T buf nbytes⟩
  | write data buf nbytes => exact Or.inr ⟨nofun, tracedWrite_outside h data buf nbytes⟩
  | close => exact Or.inl ⟨rfl, dif_pos (by omega)⟩

/-- Where all memory is mapped, the traced `read` is the one of the table. -/
lemma tracedRead_outcome (hmapped : ∀ fd, (outside fd).isSome) (T : Terminal) (buf nbytes : Nat) :
    (tracedRead outside fs T fds fd buf nbytes).outcome =
      (sysRead fs T fds fd buf nbytes).map fun p => (p.1.ret, p.2.1) := by
  by_cases hfd : 0 ≤ fd ∧ fd < 8
  · obtain ⟨i, rfl⟩ := exists_slot hfd
    simp only [tracedRead_slot, sysRead, dif_pos hfd, slot_toNat]
    split
    · rfl
    · cases (fds i).fOp with
      | none => rfl
      | some op => rfl
  · obtain ⟨flags, hflags⟩ := Option.isSome_iff_exists.mp (hmapped fd)
    rw [tracedRead_outside hfd, hflags, sysRead, dif_neg hfd]
    rfl

/-- The call uses slots of the table only, and refuses a number it is not to accept and a slot that is not
open, with the table as it was. -/
structure FdCall.Validates (outside : Int → Option Nat) (fs : Image) (fds : Fds) (fd : Int) (c : FdCall) : Prop where
  inside : ∀ i ∈ (c.traced outside fs fds fd).indices, 0 ≤ i ∧ i ≤ 7
  refuses : ¬ c.Accepts fd ∨ (∃ i : Fin 8, (i.val : Int) = fd ∧ (fds i).flags = 0) →
    (c.traced outside fs fds fd).outcome = some (-1, fds)

/-- What is refused in a slot, and at which indices a call uses it. -/
lemma FdCall.traced_slot (i : Fin 8) (c : FdCall) :
    (∀ j ∈ (c.traced outside fs fds i.val).indices, j = i.val) ∧
      (¬ c.Accepts i.val ∨ (fds i).flags = 0 → (c.traced outside fs fds i.val).outcome = some (-1, fds)) := by
  have hi := i.isLt
  cases c with
  | read T buf nbytes =>
    simp only [traced, tracedRead_slot, Accepts]
    split
    · exact ⟨by simp, fun _ => rfl⟩
    · next hbad =>
      refine ⟨?_, fun h => absurd h (by omega)⟩
      cases (fds i).fOp with
      | none => simp
      | some op => simp
  | write data buf nbytes =>
    simp only [traced, tracedWrite_slot, Accepts]
    split
    · exact ⟨by simp, fun _ => rfl⟩
    · next hbad =>
      refine ⟨?_, fun h => absurd h (by omega)⟩
      cases (fds i).fOp with
      | none => simp
      | some op => simp
  | close =>
    simp only [traced, Accepts]
    by_cases hlow : 2 ≤ i.val
    · rw [tracedClose_slot i hlow]
      split
      · exact ⟨by simp, fun _ => rfl⟩
      · next hbad =>
        refine ⟨?_, fun h => absurd h (by omega)⟩
        cases (fds i).fOp with
        | none => simp
        | some op => exact fun j hj => List.eq_of_mem_replicate hj
    · rw [tracedClose, dif_pos (by omega)]
      exact ⟨by simp, fun _ => rfl⟩

/-- `close` stays in the table for every number; `read` and `write` for the numbers of the table only. -/
theorem descriptor_checks_iff (outside : Int → Option Nat) (fs : Image) (fds : Fds) (fd : Int32) (c : FdCall) :
    c.Validates outside fs fds fd.toInt ↔ c = .close ∨ 0 ≤ fd.toInt ∧ fd.toInt ≤ 7 := by
  by_cases hfd : 0 ≤ fd.toInt ∧ fd.toInt < 8
  · refine iff_of_true ?_ (Or.inr (by omega))
    obtain ⟨i, hi⟩ := exists_slot hfd
    rw [hi]
    obtain ⟨hinside, hrefuses⟩ := @FdCall.traced_slot outside fs fds i c
    refine ⟨fun j hj => ?_, fun h => hrefuses (h.imp_right ?_)⟩
    · rw [hinside j hj]
      omega
    · rintro ⟨j, hj, hflags⟩
      rwa [Fin.ext (Int.ofNat_inj.mp hj)] at hflags
  · have hrange : ¬ (0 ≤ fd.toInt ∧ fd.toInt ≤ 7) := by omega
    rcases @FdCall.traced_outside outside fs fds _ hfd c with
      ⟨hclose, htraced⟩ | ⟨hother, htraced⟩
    · refine iff_of_true ⟨fun j hj => ?_, fun _ => ?_⟩ (Or.inl hclose)
      · rw [htraced] at hj
        cases hj
      · rw [htraced]
    · refine iff_of_false (fun h => ?_) (not_or.mpr ⟨hother, hrange⟩)
      have hload := h.inside fd.toInt (by rw [htraced]; exact List.mem_singleton_self _)
      exact hrange hload

/-- A read of descriptor 1000000 loads flags that are 20MB behind the table, and faults where nothing is
mapped. -/
theorem read_outside_faults :
    (FdCall.read .blank 0x08000000 1).traced (fun _ => none) shellImage freshFds (1000000 : Int32).toInt =
        ⟨[1000000], none⟩ ∧
      ¬ (FdCall.read .blank 0x08000000 1).Validates (fun _ => none) shellImage freshFds (1000000 : Int32).toInt := by
  have htraced : (FdCall.read .blank 0x08000000 1).traced (fun _ => none) shellImage freshFds
      (1000000 : Int32).toInt = ⟨[1000000], none⟩ := rfl
  refine ⟨htraced, fun h => ?_⟩
  have hinside := h.inside 1000000
  rw [htraced] at hinside
  exact absurd (hinside (List.mem_singleton_self _)) (by decide)

/-! ### `open` -/

/-- The first free slot. -/
def freeSlot (fds : Fds) : Option (Fin 8) := openSlots.find? fun i => (fds i).flags == 0

/-- `open` tries all slots but the two of the terminal. -/
lemma mem_openSlots : ∀ i : Fin 8, i ∈ openSlots ↔ 2 ≤ i.val := by
  decide

/-- No slot is free. -/
lemma freeSlot_eq_none : freeSlot fds = none ↔ ∀ i : Fin 8, 2 ≤ i.val → (fds i).flags ≠ 0 := by
  simp only [freeSlot, List.find?_eq_none, mem_openSlots, beq_iff_eq]

/-- The slots are looked at from the lowest one on. -/
lemma freeSlot_least (h : freeSlot fds = some i) :
    2 ≤ i.val ∧ (fds i).flags = 0 ∧ ∀ j : Fin 8, 2 ≤ j.val → j < i → (fds j).flags ≠ 0 := by
  have hsorted : openSlots.Pairwise (· < ·) := by decide
  obtain ⟨hfree, before, after, hsplit, hbefore⟩ := List.find?_eq_some_iff_append.mp h
  refine ⟨(mem_openSlots i).mp (by rw [hsplit]; simp), beq_iff_eq.mp hfree, fun j hj hlt => ?_⟩
  have hmem : j ∈ before ++ i :: after := hsplit ▸ (mem_openSlots j).mpr hj
  rw [hsplit, List.pairwise_append] at hsorted
  rcases List.mem_append.mp hmem with hin | hin
  · simpa using hbefore j hin
  · -- what follows the slot is above it
    rcases List.mem_cons.mp hin with rfl | hin
    · exact absurd hlt (lt_irrefl j)
    · exact absurd ((List.pairwise_cons.mp hsorted.2.1).1 j hin) (lt_asymm hlt)

/-- `open` on the slot it has found. -/
def openAt (fds : Fds) (d : Dentry) (i : Fin 8) : Option (Int × Fds) :=
  let f := { (fds i).describe d with fdIndex := i }
  match f.fOp with
  | none => none
  | some op =>
    let (ret, f) := op.opened f
    some (if ret = -1 then -1 else (i.val : Int), Function.update fds i f)

/-- The loop of `open` takes the first free slot. -/
lemma openLoop_eq (d : Dentry) (is : List (Fin 8)) : openLoop fds d is =
    match is.find? fun i => (fds i).flags == 0 with
    | none => some (-1, fds)
    | some i => openAt fds d i := by
  induction is with
  | nil => rfl
  | cons i is ih =>
    simp only [openLoop, List.find?_cons]
    by_cases hi : (fds i).flags = 0
    · have hflag : ((fds i).flags == 0) = true := beq_iff_eq.mpr hi
      rw [if_pos hi, hflag]
      rfl
    · have hflag : ((fds i).flags == 0) = false := beq_eq_false_iff_ne.mpr hi
      rw [if_neg hi, hflag, ih]

/-- `open` of a name that is found. -/
lemma sysOpen_found {name : CString} {d : Dentry} (hd : fs.lookup name = some d) :
    sysOpen fs fds (some name) =
      match freeSlot fds with
      | none => some (-1, fds)
      | some i => openAt fds d i := by
  simp only [sysOpen, hd, openLoop_eq]
  rfl

/-- The three types are opened in the slot. -/
lemma openAt_typed {d : Dentry} (ht : d.type ≤ 2) :
    ∃ f : File, openAt fds d i = some ((i.val : Int), Function.update fds i f) ∧
    f.flags = 1 ∧ f.fOp = some (opsOf d.type) ∧ ((fds i).describe d).fOp = some (opsOf d.type) := by
  have h3 : d.type = 0 ∨ d.type = 1 ∨ d.type = 2 := by omega
  rcases h3 with h | h | h
  all_goals
    simp only [openAt, File.describe, opsOf, h, if_true, Ops.opened, dirOpen]
    exact ⟨_, rfl, by simp⟩

/-- Another type is not, when the slot is cleared. -/
lemma openAt_untyped {d : Dentry} (ht : 2 < d.type) (hzero : fds i = .zero) : openAt fds d i = none := by
  have h0 : d.type ≠ 0 := by omega
  have h1 : d.type ≠ 1 := by omega
  have h2 : d.type ≠ 2 := by omega
  simp only [openAt, File.describe, h0, h1, h2, if_false, hzero, File.zero]

/-- The slot of a file that is not open is cleared. -/
def Tidy (fds : Fds) : Prop := ∀ i : Fin 8, 2 ≤ i.val → (fds i).flags = 0 → fds i = .zero

/-- A slot is written, and tidy if it is free. -/
lemma Tidy.update {f : File} (h : Tidy fds) (hf : f.flags = 0 → f = .zero) : Tidy (Function.update fds i f) := by
  intro j hj hflags
  by_cases hji : j = i
  · subst hji
    rw [Function.update_self] at hflags ⊢
    exact hf hflags
  · rw [Function.update_of_ne hji] at hflags ⊢
    exact h j hj hflags

/-- `open` keeps the table tidy. -/
lemma Tidy.opened {filename : Option CString} (h : Tidy fds) (hopen : sysOpen fs fds filename = some (ret, fds')) :
    Tidy fds' := by
  cases filename with
  | none =>
    cases hopen
    exact h
  | some name =>
    cases hd : fs.lookup name with
    | none =>
      simp only [sysOpen, hd] at hopen
      cases hopen
      exact h
    | some d =>
      rw [sysOpen_found hd] at hopen
      cases hfree : freeSlot fds with
      | none =>
        rw [hfree] at hopen
        cases hopen
        exact h
      | some i =>
        rw [hfree] at hopen
        simp only at hopen
        by_cases ht : d.type ≤ 2
        · obtain ⟨f, hat, hflags, _⟩ := @openAt_typed fds i d ht
          rw [hat] at hopen
          cases hopen
          exact h.update fun hzero => absurd hzero (by rw [hflags]; decide)
        · obtain ⟨hi, hflags, _⟩ := freeSlot_least hfree
          rw [openAt_untyped (Nat.not_le.mp ht) (h i hi hflags)] at hopen
          cases hopen

end Boss
