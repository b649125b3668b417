import Boss.Filesys.Loads
import Boss.Syscall.Stores
import Mathlib.Data.List.GetD

/-!
# What a read delivers

Three things a caller relies on. `read_data` delivers the slice of the file that was asked for, whatever the
alignment of offset, length and end of file, unless it page-faults on the block number of a far offset
(`read_data_is_slice_iff`). `file_read` advances the position by what it delivered, but its test `read > 0` is
made on an unsigned variable, so that a failed read takes the position back by one (`file_read_position_iff`).
And the drivers store into `buf[0..nbytes)` and return how much they stored, except for `terminal_read`: it
stores a terminating zero byte behind what it copied, which is `buf[nbytes]` when the line is not shorter than
the buffer, and it returns the length of a string, which ends at the first zero byte of the line
(`reads_honour_nbytes_iff`).
-/

namespace Boss
open Lib

/-- The caller's buffer after bytes have been stored to it. -/
def storeBuf (buf : Mem) (stored : List UInt8) : Mem := fun i => stored.getD i (buf i)

/-! ### `read_data` -/

namespace Image

/-- The data block that the table of an inode has at `j`. -/
def block (fs : Image) (inode j : Nat) : List UInt8 :=
  (List.range 4096).map fun i => fs.byte (fs.base + 4096 * (1 + fs.numInodes + fs.dataBlock inode j) + i)

/-- A file: its data blocks in table order, cut to its length. -/
def content (fs : Image) (inode : Nat) : List UInt8 :=
  ((List.range 1023).flatMap (fs.block inode)).take (fs.lengthBytes inode)

/-- Every inode has a length the format allows, and the blocks it needs are inside the image. -/
structure FilesValid (fs : Image) : Prop where
  limit : fs.limit < 0x100000000
  inodes : ∀ inode < fs.numInodes, fs.ValidInode inode

variable {fs : Image} {inode n : Nat}

/-- A block is a part of the file. -/
lemma block_eq_slice {j : Nat} : fs.block inode j = fs.slice inode (4096 * j) 4096 := by
  refine List.map_congr_left fun i hi => ?_
  rw [List.mem_range] at hi
  have hdiv : (4096 * j + i) / 4096 = j := by omega
  have hmod : (4096 * j + i) % 4096 = i := by omega
  rw [fileByte, hdiv, hmod]
  simp only [byte, blockAddr]
  congr 1
  omega

/-- The first blocks are the beginning of the file. -/
lemma blocks_eq_slice : (List.range n).flatMap (fs.block inode) = fs.slice inode 0 (4096 * n) := by
  induction n with
  | zero => rfl
  | succ n ih =>
    rw [List.range_succ, List.flatMap_append, ih, Nat.mul_succ, slice_add, Nat.zero_add]
    simp only [List.flatMap_cons, List.flatMap_nil, List.append_nil, block_eq_slice]

/-- A file of a length the format allows is one slice. -/
lemma content_eq_slice (h : fs.lengthBytes inode ≤ 1023 * 4096) :
    fs.content inode = fs.slice inode 0 (fs.lengthBytes inode) := by
  have hmin : min (fs.lengthBytes inode) (4096 * 1023) = fs.lengthBytes inode := by omega
  rw [content, blocks_eq_slice, slice, ← List.map_take, List.take_range, hmin]
  rfl

/-- The content is as long as the inode says. -/
lemma length_content (h : fs.lengthBytes inode ≤ 1023 * 4096) :
    (fs.content inode).length = fs.lengthBytes inode := by
  rw [content_eq_slice h, length_slice]

/-- A byte of a part of the file. -/
lemma getD_slice {pos i : Nat} {d : UInt8} (hi : i < n) :
    (fs.slice inode pos n).getD i d = fs.fileByte inode (pos + i) := by
  rw [List.getD_eq_getElem _ _ (by rwa [length_slice])]
  simp only [slice, List.getElem_map, List.getElem_range]

end Image

/-- `read_data` delivers the slice of the file and touches nothing else; for an inode out of range it fails and touches
nothing. -/
def ReadsSlice (fs : Image) (mapped : Nat → Bool) (inode offset length : Nat) (buf : Mem) : Prop :=
  (inode < fs.numInodes →
    (fs.readDataOn mapped inode offset length).1 = some (min length ((fs.content inode).length - offset) : Nat) ∧
      ∀ i, storeBuf buf (fs.readDataOn mapped inode offset length).2 i =
        if i < min length ((fs.content inode).length - offset) then (fs.content inode).getD (offset + i) 0 else buf i) ∧
  (fs.numInodes ≤ inode →
    (fs.readDataOn mapped inode offset length).1 = some (-1) ∧
      storeBuf buf (fs.readDataOn mapped inode offset length).2 = buf)

/-- Where it does not page-fault on the first block number, it delivers the slice. -/
lemma readsSlice_of_mapped {fs : Image} (h : fs.FilesValid) {mapped : Nat → Bool} (hloaded : fs.Loaded mapped)
    {inode offset length : Nat} {buf : Mem}
    (htable : inode < fs.numInodes → Image.wordMapped mapped (fs.tableAddr inode (offset / 4096)) = true) :
    ReadsSlice fs mapped inode offset length buf := by
  refine ⟨fun hin => ?_, fun hout => ?_⟩
  · have hvalid := h.inodes _ hin
    rw [hloaded.readDataOn hvalid (htable hin), Image.length_content hvalid.length,
      Image.readData_spec hvalid (Nat.le_of_lt h.limit)]
    refine ⟨rfl, fun i => ?_⟩
    by_cases hi : i < min length (fs.lengthBytes inode - offset)
    · rw [if_pos hi, storeBuf, Image.getD_slice hi, Image.content_eq_slice hvalid.length,
        Image.getD_slice (by omega), Nat.zero_add]
    · rw [if_neg hi, storeBuf, List.getD_eq_default]
      rw [Image.length_slice]
      omega
  · rw [hloaded.readDataOn_range hout]
    exact ⟨rfl, rfl⟩

/-- On a valid image `read_data` delivers the slice of the file exactly when the entry of the inode's table for the first
block is mapped, be it needed or not; it is for every offset that a file can have. -/
theorem read_data_is_slice_iff (fs : Image) (h : fs.FilesValid) (mapped : Nat → Bool) (hloaded : fs.Loaded mapped)
    (inode offset length : UInt32) (buf : Mem) :
    (ReadsSlice fs mapped inode.toNat offset.toNat length.toNat buf ↔ (inode.toNat < fs.numInodes →
      Image.wordMapped mapped (fs.tableAddr inode.toNat (offset.toNat / 4096)) = true)) ∧
    (offset.toNat < 1023 * 4096 → ReadsSlice fs mapped inode.toNat offset.toNat length.toNat buf) := by
  refine ⟨⟨fun hslice hin => ?_, readsSlice_of_mapped h hloaded⟩, fun hoffset => ?_⟩
  · by_contra hfault
    have hnone := @Image.readDataOn_fault fs inode.toNat mapped offset.toNat length.toNat hin
      (Bool.eq_false_iff.mpr hfault)
    have hret := (hslice.1 hin).1
    rw [hnone] at hret
    cases hret
  · exact readsSlice_of_mapped h hloaded fun hin => hloaded.table hin (by omega)

/-- An image with one inode, whose 4098 bytes are in data block 1 and then in data block 0. -/
def twoBlocks : Image where
  mem := fun a =>
    if a = 0x400004 then 1 else if a = 0x401000 then 2 else if a = 0x401001 then 0x10 else if a = 0x401004 then 1
    else 0
  base := 0x400000
  limit := 0x404000

/-- The image of two blocks is valid. -/
lemma twoBlocks_valid : twoBlocks.FilesValid := by
  have hnum : twoBlocks.numInodes = 1 := rfl
  have hlen : twoBlocks.lengthBytes 0 = 4098 := rfl
  have hblocks : ∀ j < 2, twoBlocks.dataBlock 0 j ≤ 1 := by decide
  refine ⟨by decide, fun inode hin => ?_⟩
  obtain rfl : inode = 0 := by omega
  refine ⟨by decide, by omega, fun j hj => ?_⟩
  have hj2 : j < 2 := by omega
  have hblock := hblocks j hj2
  rw [hnum]
  simp only [twoBlocks] at hblock ⊢
  omega

/-- It is mapped as a whole. -/
lemma twoBlocks_loaded : twoBlocks.Loaded programMapped where
  inodes := by decide
  limit := by decide
  image := by
    intro a hlow hhigh
    simp only [twoBlocks] at hlow hhigh
    refine decide_eq_true (Or.inr (Or.inl ?_))
    omega

/-- A read over the end of the first block and of the file delivers the four bytes there are. -/
theorem read_data_is_slice_iff_four : (twoBlocks.readDataOn programMapped 0 4094 10).1 = some 4 := by
  have hslice := (read_data_is_slice_iff twoBlocks twoBlocks_valid programMapped twoBlocks_loaded 0 4094 10
    fun _ => 0).2 (by decide)
  have hlen : (twoBlocks.content 0).length = 4098 := Image.length_content (by decide)
  refine (hslice.1 (by decide)).1.trans ?_
  rw [UInt32.toNat_zero, hlen]
  rfl

/-- At the last offset, where there is nothing to read, `read_data` page-faults on the block number. -/
theorem far_offset_faults : twoBlocks.FilesValid ∧ twoBlocks.Loaded programMapped ∧
    twoBlocks.readDataOn programMapped 0 0xFFFFFFFF 1 = (none, []) ∧
    ¬ ReadsSlice twoBlocks programMapped 0 0xFFFFFFFF 1 fun _ => 0 := by
  have hfault : twoBlocks.readDataOn programMapped 0 0xFFFFFFFF 1 = (none, []) := by decide +kernel
  refine ⟨twoBlocks_valid, twoBlocks_loaded, hfault, fun hslice => ?_⟩
  have hret := (hslice.1 (by decide)).1
  rw [hfault] at hret
  cases hret

/-! ### `file_read` -/

/-- A read moves the position by what it returned, and a failed read leaves it alone. -/
def KeepsPosition (fs : Image) (f : File) (bytes : Nat) : Prop :=
  ((fileRead fs f bytes).1.ret = -1 → (fileRead fs f bytes).2.fPos = f.fPos) ∧
    (0 ≤ (fileRead fs f bytes).1.ret → ((fileRead fs f bytes).2.fPos : Int) = f.fPos + (fileRead fs f bytes).1.ret)

/-- The position is right exactly when the read does not fail. -/
theorem file_read_position_iff (fs : Image) (f : File) (hpos : f.fPos < 0x100000000) (bytes : UInt32) :
    KeepsPosition fs f bytes.toNat ↔ f.fInode < fs.numInodes ∧
      ¬ fs.Blocked f.fInode (f.fPos / 4096) (min (f.fPos + bytes.toNat) (fs.lengthBytes f.fInode)) := by
  have hret : (fileRead fs f bytes.toNat).1.ret = (fs.readData f.fInode f.fPos bytes.toNat).1 := rfl
  have hnext : (fileRead fs f bytes.toNat).2.fPos =
      if ((fs.readData f.fInode f.fPos bytes.toNat).1 % 0x100000000).toNat > 0
      then (f.fPos + ((fs.readData f.fInode f.fPos bytes.toNat).1 % 0x100000000).toNat) % 0x100000000
      else f.fPos := apply_ite File.fPos _ _ _
  have hlen : fs.lengthBytes f.fInode < 0x100000000 := Mem.le32_lt
  have hspec := @Image.readData_ret fs f.fInode f.fPos bytes.toNat
  rw [KeepsPosition, hret, hnext]
  constructor
  · rintro ⟨hfail, _⟩
    by_contra hbad
    have hminus := hspec.1 (by
      by_contra hgood
      obtain ⟨hin, hfree⟩ := not_or.mp hgood
      exact hbad ⟨Nat.not_le.mp hin, hfree⟩)
    -- -1 is 2^32 - 1 in the unsigned variable, which is positive
    have hback := hfail hminus
    rw [hminus, if_pos (by decide)] at hback
    have hread : ((-1 : Int) % 0x100000000).toNat = 0xFFFFFFFF := rfl
    omega
  · rintro ⟨hin, hfree⟩
    rw [hspec.2 (not_or.mpr ⟨Nat.not_le.mpr hin, hfree⟩)]
    refine ⟨fun hc => absurd hc (by omega), fun _ => ?_⟩
    split
    · omega
    · omega

/-- The position moves with a read over the end of the first block. -/
theorem file_read_position_iff_four : KeepsPosition twoBlocks ⟨some .file, 0, 4094, 1, 2⟩ 10 := by
  refine (file_read_position_iff twoBlocks ⟨some .file, 0, 4094, 1, 2⟩ (by decide) 10).mpr ⟨by decide, ?_⟩
  rintro ⟨j, hj, hje, habove⟩
  have hlen : twoBlocks.lengthBytes 0 = 4098 := rfl
  obtain rfl : j = 1 := by
    simp only [hlen] at hje
    omega
  exact absurd habove (by decide)

/-- A descriptor with an inode number that the image does not have. -/
def badInode : File := ⟨some .file, 1, 100, 1, 2⟩

/-- A failed read takes the position from 100 to 99. -/
theorem failed_read_moves_back :
    (fileRead twoBlocks badInode 10).1.ret = -1 ∧ (fileRead twoBlocks badInode 10).2.fPos = 99 ∧
      ¬ KeepsPosition twoBlocks badInode 10 := by
  have hret : (fileRead twoBlocks badInode 10).1.ret = -1 := rfl
  have hpos : (fileRead twoBlocks badInode 10).2.fPos = 99 := rfl
  refine ⟨hret, hpos, fun hkeeps => ?_⟩
  have hsame := hkeeps.1 hret
  rw [hpos] at hsame
  exact absurd hsame (by decide)

/-! ### The number of bytes -/

/-- A call of one of the read drivers. `terminal_read` finds a finished line, and its buffer may be null. -/
inductive ReadCall
  | file (fs : Image) (f : File)
  | dir (fs : Image) (f : File)
  | terminal (T : Terminal) (null : Bool)

namespace ReadCall

/-- What the call returns and stores. -/
def result (nbytes : Nat) : ReadCall → Result
  | file fs f => (fileRead fs f nbytes).1
  | dir fs f => (dirRead fs f nbytes).1
  | terminal T null =>
    if null then .fail
    else ⟨((T.terminalRead nbytes).1.takeWhile (· ≠ 0)).length, (T.terminalRead nbytes).1⟩

/-- The data bytes among the stored ones: the last byte `terminal_read` stores is the terminator. -/
def data (nbytes : Nat) : ReadCall → List UInt8
  | file fs f => (fileRead fs f nbytes).1.stored
  | dir fs f => (dirRead fs f nbytes).1.stored
  | terminal T null => if null then [] else (T.terminalRead nbytes).1.dropLast

/-- The call stores into `buf[0..nbytes)` only and returns the number of data bytes it stored. -/
def Honours (nbytes : Nat) (c : ReadCall) : Prop :=
  (c.result nbytes).stored.length ≤ nbytes ∧
    (0 ≤ (c.result nbytes).ret →
      (c.result nbytes).ret ≤ nbytes ∧ (c.result nbytes).ret = (c.data nbytes).length)

/-- The buffer is longer than the line, and the line has no zero byte. -/
def Fits (nbytes : Nat) : ReadCall → Prop
  | file _ _ | dir _ _ => True
  | terminal T null => null = true ∨
    inc32 T.lineBufferIndex < nbytes ∧ ∀ i < inc32 T.lineBufferIndex, T.lineBuffer i ≠ 0

end ReadCall

/-- A count that the walk returns is the number of stored bytes. -/
lemma Image.readLoop_count (fs : Image) (inode fuel : Nat) (s : ReadState)
    (hret : 0 ≤ (fs.readLoop inode fuel s).1) :
    (fs.readLoop inode fuel s).1 = (fs.readLoop inode fuel s).2.length := by
  induction fuel generalizing s with
  | zero => rfl
  | succ fuel ih =>
    unfold readLoop at hret ⊢
    split
    · rfl
    · next hend =>
      rw [if_neg hend] at hret
      split
      · next hblock =>
        rw [if_pos hblock] at hret
        simp only at hret ⊢
        split
        · next hout =>
          rw [if_pos hout] at hret
          exact absurd hret (Int.negSucc_not_nonneg 0).mp
        · next hin =>
          rw [if_neg hin] at hret
          exact ih _ hret
      · next hblock =>
        rw [if_neg hblock] at hret
        exact ih _ hret

/-- What `read_data` returns is the number of bytes it has copied. -/
lemma Image.readData_count (fs : Image) (inode offset length : Nat) (hret : 0 ≤ (fs.readData inode offset length).1) :
    (fs.readData inode offset length).1 = (fs.readData inode offset length).2.length := by
  unfold readData at hret ⊢
  split
  · next hbad =>
    rw [if_pos hbad] at hret
    exact absurd hret (by decide)
  · next hin =>
    rw [if_neg hin] at hret
    exact readLoop_count fs inode length _ hret

/-- The name loop stores at most the bytes asked for. -/
lemma dirLoop_length_le {name : Mem} {n i : Nat} : (dirLoop name n i).length ≤ n := by
  induction n generalizing i with
  | zero => exact Nat.le_refl 0
  | succ n ih =>
    unfold dirLoop
    split
    · exact Nat.zero_le _
    · exact Nat.succ_le_succ ih

/-- The string in a buffer of `n` bytes and a terminator has length `n` when no byte is zero. -/
lemma takeWhile_terminated {bs : List UInt8} :
    ((bs ++ [0]).takeWhile (· ≠ 0)).length = bs.length ↔ ∀ b ∈ bs, b ≠ 0 := by
  induction bs with
  | nil => simp
  | cons b bs ih =>
    rw [List.forall_mem_cons, ← ih, List.cons_append, List.takeWhile_cons]
    by_cases hb : b = 0
    · simp [hb]
    · simp [hb]

/-- `terminal_read` copies at most the bytes asked for and stores a terminator behind them. -/
lemma Terminal.honours_iff (T : Terminal) (nbytes : Nat) :
    (ReadCall.terminal T false).Honours nbytes ↔ (ReadCall.terminal T false).Fits nbytes := by
  have hret := @takeWhile_terminated (Mem.bytes T.lineBuffer 0 (T.readCount nbytes))
  have hall : (∀ b ∈ Mem.bytes T.lineBuffer 0 (T.readCount nbytes), b ≠ 0) ↔
      ∀ i < T.readCount nbytes, T.lineBuffer i ≠ 0 := by
    simp [Mem.bytes]
  rw [hall, Mem.length_bytes] at hret
  simp only [ReadCall.Honours, ReadCall.Fits, ReadCall.result, ReadCall.data, Terminal.terminalRead,
    Bool.false_eq_true, if_false, false_or, List.dropLast_concat, List.length_append, Mem.length_bytes,
    List.length_singleton, Int.natCast_nonneg, true_imp_iff, Int.ofNat_inj, hret]
  constructor
  · rintro ⟨hroom, _, hnz⟩
    have hline : nbytes > inc32 T.lineBufferIndex := by
      by_contra hfull
      rw [Terminal.readCount, if_neg hfull] at hroom
      omega
    have hcount : T.readCount nbytes = inc32 T.lineBufferIndex := if_pos hline
    rw [hcount] at hroom hnz
    exact ⟨hroom, hnz⟩
  · rintro ⟨hroom, hnz⟩
    have hcount : T.readCount nbytes = inc32 T.lineBufferIndex := if_pos hroom
    rw [← hcount] at hroom hnz
    refine ⟨hroom, ?_, hnz⟩
    rw [hret.mpr hnz]
    exact Int.ofNat_le.mpr (Nat.le_of_lt hroom)

/-- `file_read` and `dir_read` honour every byte count; `terminal_read` does when the line fits. -/
theorem reads_honour_nbytes_iff (c : ReadCall) (nbytes : UInt32) :
    c.Honours nbytes.toNat ↔ c.Fits nbytes.toNat := by
  cases c with
  | file fs f =>
    have hlen := (fs.readData_length f.fInode f.fPos nbytes.toNat).trans (Nat.min_le_left _ _)
    refine iff_of_true ⟨hlen, fun hpos => ?_⟩ trivial
    have hcount := fs.readData_count f.fInode f.fPos nbytes.toNat hpos
    exact ⟨hcount.trans_le (Int.ofNat_le.mpr hlen), hcount⟩
  | dir fs f =>
    refine iff_of_true ?_ trivial
    simp only [ReadCall.Honours, ReadCall.result, ReadCall.data, dirRead]
    split
    · exact ⟨Nat.zero_le _, fun _ => ⟨Int.natCast_nonneg _, rfl⟩⟩
    · have hlen := @dirLoop_length_le (fun i => fs.byte (fs.base + f.fPos + i))
        (if nbytes.toNat > 32 then 32 else nbytes.toNat) 0
      have hmin : (if nbytes.toNat > 32 then 32 else nbytes.toNat) ≤ nbytes.toNat := by
        split
        · omega
        · exact Nat.le_refl _
      exact ⟨hlen.trans hmin, fun _ => ⟨Int.ofNat_le.mpr (hlen.trans hmin), rfl⟩⟩
  | terminal T null =>
    cases null with
    | true =>
      exact iff_of_true ⟨Nat.zero_le _, fun hneg => absurd hneg (Int.negSucc_not_nonneg 0).mp⟩ (Or.inl rfl)
    | false => exact T.honours_iff nbytes.toNat

/-- The line `a`, ended by Enter. -/
def lineA : Terminal :=
  { Terminal.blank with
    lineBuffer := fun i => if i = 0 then 97 else if i = 1 then 10 else 0
    lineBufferIndex := 1
    typingLine := false }

/-- A read of one byte stores the character and a zero byte behind the buffer. -/
theorem read_of_one_byte_stores_two :
    ((ReadCall.terminal lineA false).result 1).stored = [97, 0] ∧ ¬ (ReadCall.terminal lineA false).Honours 1 := by
  have hstored : ((ReadCall.terminal lineA false).result 1).stored = [97, 0] := rfl
  refine ⟨hstored, fun hhonours => ?_⟩
  have hlen := hhonours.1
  rw [hstored] at hlen
  exact absurd hlen (by decide)

end Boss
