import Boss.Filesys.Directory
import Boss.Filesys.Reads
import Boss.Syscall.Validation
import Boss.User.Grep

/-!
# Open files as user programs see them

A program that opens a regular file and reads it piece by piece sees a stream: each read takes its bytes from the front
of what is left (`Streams.read`), an open file begins with its whole content (`HasFile.sysOpen`), and what happens to one
descriptor is not seen through another.
-/

namespace Boss
open Lib

/-- An address in the memory of the program, where its buffers are. `read` only looks whether it is above the kernel. -/
def userBuf : Nat := 0x08000000

/-- `ece391_read` from a file. -/
def ece391Read (fs : Image) (fds : Fds) (fd : Int) (nbytes : Nat) : Option (Result × Fds) :=
  (sysRead fs .blank fds fd userBuf nbytes).map fun (r, fds, _) => (r, fds)

namespace Image
variable {fs : Image} {inode pos n : Nat}

/-- A part of a file is one of its content. -/
lemma slice_eq_take (h : fs.lengthBytes inode ≤ 1023 * 4096) (hn : pos + n ≤ fs.lengthBytes inode) :
    fs.slice inode pos n = ((fs.content inode).drop pos).take n := by
  obtain ⟨k, hk⟩ := Nat.exists_eq_add_of_le hn
  have hlen : (fs.slice inode pos n).length = n := length_slice
  rw [content_eq_slice h, hk, slice_add, slice_add, Nat.zero_add, List.append_assoc,
    List.drop_left' length_slice, List.take_left' hlen]

end Image

/-- A regular file is open in the slot, and `rest` is what is left of it. -/
structure Fds.Streams (fds : Fds) (fs : Image) (i : Fin 8) (rest : List UInt8) : Prop where
  op : (fds i).fOp = some .file
  flags : (fds i).flags = 1
  inode : fs.ValidInode (fds i).fInode
  pos : (fds i).fPos ≤ fs.lengthBytes (fds i).fInode
  rest : (fs.content (fds i).fInode).drop (fds i).fPos = rest

namespace Fds.Streams
variable {fs : Image} {fds fds' : Fds} {i : Fin 8} {rest : List UInt8}

/-- Only the slot matters. -/
lemma congr (h : fds.Streams fs i rest) (hi : fds' i = fds i) : fds'.Streams fs i rest := by
  obtain ⟨hop, hflags, hinode, hpos, hrest⟩ := h
  rw [← hi] at hop hflags hinode hpos hrest
  exact ⟨hop, hflags, hinode, hpos, hrest⟩

/-- A read takes its bytes from the front of what is left. -/
lemma read (h : fds.Streams fs i rest) (hlimit : fs.limit < 0x100000000) (n : Nat) :
    ∃ fds', ece391Read fs fds i.val n = some (⟨(min n rest.length : Nat), rest.take n⟩, fds') ∧
      fds'.Streams fs i (rest.drop n) ∧ ∀ j, j ≠ i → fds' j = fds j := by
  obtain ⟨hop, hflags, hinode, hpos, hrest⟩ := h
  have hsize := hinode.length
  have hlen : rest.length = fs.lengthBytes (fds i).fInode - (fds i).fPos := by
    rw [← hrest, List.length_drop, Image.length_content hsize]
  have hdata := @Image.readData_spec fs (fds i).fInode (fds i).fPos n hinode (Nat.le_of_lt hlimit)
  rw [← hlen, Image.slice_eq_take hsize (by omega), hrest, ← List.take_eq_take_min] at hdata
  have hword : ((min n rest.length : Nat) : Int) % 0x100000000 = (min n rest.length : Nat) := by omega
  have hmove : (if min n rest.length > 0 then { fds i with fPos := ((fds i).fPos + min n rest.length) % 0x100000000 }
      else fds i) = { fds i with fPos := (fds i).fPos + min n rest.length } := by
    split
    · rw [Nat.mod_eq_of_lt (by omega)]
    · next hnone => rw [Nat.eq_zero_of_not_pos hnone, Nat.add_zero]
  have hbuf : isKernelPtr userBuf = false := rfl
  have hread := sysRead_eq fs .blank n fds i hflags hop hbuf
  simp only [Ops.read, fileRead, hdata, hword, Int.toNat_natCast, hmove] at hread
  refine ⟨_, by rw [ece391Read, hread, Option.map_some], ?_, fun j hj => Function.update_of_ne hj _ _⟩
  constructor
  · rw [Function.update_self, hop]
  · rw [Function.update_self, hflags]
  · rw [Function.update_self]
    exact hinode
  · rw [Function.update_self]
    change (fds i).fPos + min n rest.length ≤ fs.lengthBytes (fds i).fInode
    omega
  · rw [Function.update_self]
    change (fs.content (fds i).fInode).drop ((fds i).fPos + min n rest.length) = rest.drop n
    rw [← List.drop_drop, hrest, ← List.drop_eq_drop_min]

end Fds.Streams

/-- The image has a regular file of this name. -/
def Image.HasFile (fs : Image) (name : CString) (bytes : List UInt8) : Prop :=
  ∃ d, fs.lookup name = some d ∧ d.type = 2 ∧ d.inode < fs.numInodes ∧ fs.content d.inode = bytes

section
variable {fs : Image} {fds : Fds} {i : Fin 8} {name : CString} {bytes : List UInt8}

/-- The first slot that is not in use. -/
lemma freeSlot_eq (hi : 2 ≤ i.val) (hfree : (fds i).flags = 0)
    (hused : ∀ j : Fin 8, 2 ≤ j.val → j < i → (fds j).flags ≠ 0) : freeSlot fds = some i := by
  cases hslot : freeSlot fds with
  | none => exact absurd hfree (freeSlot_eq_none.mp hslot i hi)
  | some k =>
    obtain ⟨hk, hkfree, hleast⟩ := freeSlot_least hslot
    rcases lt_trichotomy k i with hlt | rfl | hgt
    · exact absurd hkfree (hused k hk hlt)
    · rfl
    · exact absurd hfree (hleast i hi hgt)

/-- Opening a regular file. -/
lemma Image.HasFile.sysOpen (h : fs.HasFile name bytes) (hfiles : fs.FilesValid) (hfree : freeSlot fds = some i) :
    ∃ fds', Boss.sysOpen fs fds (some name) = some ((i.val : Int), fds') ∧ fds'.Streams fs i bytes ∧
      ∀ j, j ≠ i → fds' j = fds j := by
  obtain ⟨d, hfound, htype, hinode, hbytes⟩ := h
  have hdescribe : (fds i).describe d = ⟨some .file, d.inode, 0, 1, (fds i).fdIndex⟩ := by
    rw [File.describe, htype]
    rfl
  have hopened : openAt fds d i = some ((i.val : Int), Function.update fds i ⟨some .file, d.inode, 0, 1, i⟩) := by
    rw [openAt, hdescribe]
    rfl
  rw [sysOpen_found hfound, hfree]
  refine ⟨_, hopened, ?_, fun j hj => Function.update_of_ne hj _ _⟩
  constructor
  · rw [Function.update_self]
  · rw [Function.update_self]
  · rw [Function.update_self]
    exact hfiles.inodes _ hinode
  · rw [Function.update_self]
    exact Nat.zero_le _
  · rw [Function.update_self]
    exact hbytes

end

end Boss
