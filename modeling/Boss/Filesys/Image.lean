import Boss.Lib.Memory

/-!
# The file system image

The read-only image of `filesystem.c`: a boot block with the directory, one block for each inode, then
the data blocks, 4096 bytes each. The image is the machine's memory seen from `fs_base`; every address
is 32 bits wide, so a load wraps (`byte`) and nothing here assumes that the metadata is sane.

`readDentryByName` is the lookup by name with the string functions of `lib.c` it calls, and `readData`
the block walk of `read_data`. `readData_spec` says what the walk computes on an inode whose blocks are
inside the image: the slice of the file, however the offset and the length fall on block boundaries.
The walk switches blocks lazily, on the byte after a boundary, so its position inside a block ranges
over `0..4096` inclusive.
-/

namespace Boss
open Lib

/-! ### Strings -/

/-- `strncmp`: the first difference of two strings, as signed characters. -/
def strncmp (s1 s2 : Mem) : (n : Nat) → Int
  | 0 => 0
  | n + 1 =>
    if s1 0 ≠ s2 0 ∨ s1 0 = 0 then (s1 0).toInt8.toInt - (s2 0).toInt8.toInt
    else strncmp (fun i => s1 (i + 1)) (fun i => s2 (i + 1)) n

/-- The first loop of `strncpy`: copy up to a zero byte. -/
def strncpyCopy (src : Mem) (n : Nat) : (fuel i : Nat) → Mem → Nat × Mem
  | 0, i, dest => (i, dest)
  | fuel + 1, i, dest =>
    if src i ≠ 0 ∧ i < n then strncpyCopy src n fuel (i + 1) (Function.update dest i (src i))
    else (i, dest)

/-- The second loop of `strncpy`: pad with zeros. -/
def strncpyPad : (fuel i : Nat) → Mem → Mem
  | 0, _, dest => dest
  | fuel + 1, i, dest => strncpyPad fuel (i + 1) (Function.update dest i 0)

/-- `strncpy`. -/
def strncpy (dest src : Mem) (n : Nat) : Mem :=
  let (i, dest) := strncpyCopy src n n 0 dest
  strncpyPad (n - i) i dest

/-! ### The image -/

/-- The image: memory, `fs_base` and `fs_end`. -/
structure Image where
  mem : Mem
  base : Nat
  limit : Nat

/-- `dentry_t`. -/
structure Dentry where
  name : Mem
  type : Nat
  inode : Nat

namespace Image

/-- A load from a 32-bit address. -/
def byte (fs : Image) (a : Nat) : UInt8 := fs.mem (a % 0x100000000)

/-- A load of a `uint32_t`. -/
def word (fs : Image) (a : Nat) : Nat := Mem.le32 fs.byte a

/-- The number of directory entries, in the boot block. -/
def numEntries (fs : Image) : Nat := fs.word fs.base

/-- The number of inodes, in the boot block. -/
def numInodes (fs : Image) : Nat := fs.word (fs.base + 4)

/-- `&fs_base->dentries[i]`: 64 bytes of header, 64 bytes an entry. -/
def dentryAddr (fs : Image) (i : Nat) : Nat := fs.base + 64 + 64 * i

/-- `&fs_base[inode + 1]`. -/
def inodeAddr (fs : Image) (inode : Nat) : Nat := fs.base + 4096 * (inode + 1)

/-- The length of a file, in its inode. -/
def lengthBytes (fs : Image) (inode : Nat) : Nat := fs.word (fs.inodeAddr inode)

/-- The number of a data block, in the table of its inode. -/
def dataBlock (fs : Image) (inode j : Nat) : Nat := fs.word (fs.inodeAddr inode + 4 + 4 * j)

/-- `&fs_base[1 + fs_base->num_inodes + node->data_blocks[j]]`. -/
def blockAddr (fs : Image) (inode j : Nat) : Nat :=
  (fs.base + 4096 * (1 + fs.numInodes + fs.dataBlock inode j)) % 0x100000000

/-- The loop of `read_dentry_by_name` from entry `i` on. -/
def dentryLoop (fs : Image) (fname : Mem) (len : Nat) : (fuel i : Nat) → Option Dentry
  | 0, _ => none
  | fuel + 1, i =>
    let name : Mem := fun j => fs.byte (fs.dentryAddr i + j)
    if strncmp fname name len = 0 then
      if len < 32 ∧ name len ≠ 0 then none
      else
        some ⟨Function.update (strncpy (fun _ => 0) name 32) 32 0,
          fs.word (fs.dentryAddr i + 32), fs.word (fs.dentryAddr i + 36)⟩
    else fs.dentryLoop fname len fuel (i + 1)

/-- `read_dentry_by_name`; `none` is -1. `bound` is a zero byte of the name. -/
def readDentryByName (fs : Image) (fname : Mem) (bound : Nat) : Option Dentry :=
  let len := fname.strlen bound
  let len := if len = 32 + 1 ∧ fname 32 = 0 then len - 1 else len
  if len > 32 then none else fs.dentryLoop fname len fs.numEntries 0

/-- The variables of the loop of `read_data`; `read` is the number of bytes stored. -/
structure ReadState where
  fPos : Nat
  bPos : Nat
  bNum : Nat
  addr : Nat
  stored : List UInt8

/-- The loop of `read_data`: the return value and the bytes stored to `buf[0..]`. -/
def readLoop (fs : Image) (inode : Nat) : (fuel : Nat) → ReadState → Int × List UInt8
  | 0, s => (s.stored.length, s.stored)
  | fuel + 1, s =>
    if s.fPos ≥ fs.lengthBytes inode then (s.stored.length, s.stored)
    else if s.bPos ≥ 4096 then
      -- a finished block: find the next one
      let addr := fs.blockAddr inode (s.bNum + 1)
      if addr ≥ fs.limit then (-1, s.stored)
      else
        fs.readLoop inode fuel
          ⟨s.fPos + 1, 0 + 1, s.bNum + 1, addr + 1, s.stored ++ [fs.byte addr]⟩
    else
      fs.readLoop inode fuel
        ⟨s.fPos + 1, s.bPos + 1, s.bNum, s.addr + 1, s.stored ++ [fs.byte s.addr]⟩

/-- `read_data` with every load mapped; `readDataOn` has its page faults. -/
def readData (fs : Image) (inode offset length : Nat) : Int × List UInt8 :=
  if inode ≥ fs.numInodes then (-1, [])
  else
    let bPos := offset % 4096
    let bNum := offset / 4096
    fs.readLoop inode length ⟨offset, bPos, bNum, fs.blockAddr inode bNum + bPos, []⟩

/-- The name field of the directory entry `i`. -/
def entryName (fs : Image) (i : Nat) : Mem := fun j => fs.byte (fs.dentryAddr i + j)

/-- The test for 33 characters changes nothing: a string of that length has no zero byte at 32. -/
lemma strlen_test (fname : CString) : (if fname.byte.strlen fname.bound = 32 + 1 ∧ fname.byte 32 = 0
    then fname.byte.strlen fname.bound - 1 else fname.byte.strlen fname.bound) = fname.length := by
  refine if_neg ?_
  rintro ⟨h33, h32⟩
  have hlt : 32 < fname.byte.strlen fname.bound := by omega
  exact Mem.ne_zero_of_lt_strlen hlt h32

/-- `read_dentry_by_name` of a string. -/
lemma readDentryByName_eq (fs : Image) (fname : CString) : fs.readDentryByName fname.byte fname.bound =
    if fname.length > 32 then none else fs.dentryLoop fname.byte fname.length fs.numEntries 0 := by
  simp only [readDentryByName, strlen_test]

/-! ### What the walk computes -/

/-- A byte of a file: its data blocks in table order. -/
def fileByte (fs : Image) (inode pos : Nat) : UInt8 :=
  fs.byte (fs.blockAddr inode (pos / 4096) + pos % 4096)

/-- The `n` bytes of a file from `pos` on. -/
def slice (fs : Image) (inode pos n : Nat) : List UInt8 :=
  (List.range n).map fun i => fs.fileByte inode (pos + i)

/-- An inode in range whose length the format allows and whose blocks are inside the image. -/
structure ValidInode (fs : Image) (inode : Nat) : Prop where
  inRange : inode < fs.numInodes
  length : fs.lengthBytes inode ≤ 1023 * 4096
  blocks : ∀ j, 4096 * j < fs.lengthBytes inode →
    fs.base + 4096 * (1 + fs.numInodes + fs.dataBlock inode j) + 4096 ≤ fs.limit

variable {fs : Image} {inode pos n offset length : Nat}

@[simp] lemma length_slice : (fs.slice inode pos n).length = n := by
  simp [slice]

/-- A slice grows at its front. -/
lemma slice_succ :
    fs.slice inode pos (n + 1) = fs.fileByte inode pos :: fs.slice inode (pos + 1) n := by
  simp only [slice, List.range_succ_eq_map, List.map_cons, List.map_map, Nat.add_zero]
  congr 1
  apply List.map_congr_left
  intro i _
  simp only [Function.comp, Nat.succ_eq_add_one]
  congr 1
  omega

/-- Two slices next to each other are one. -/
lemma slice_add {m : Nat} :
    fs.slice inode pos (n + m) = fs.slice inode pos n ++ fs.slice inode (pos + n) m := by
  induction n generalizing pos with
  | zero => simp [slice]
  | succ n ih =>
    rw [show n + 1 + m = (n + m) + 1 by omega, slice_succ, slice_succ, ih, List.cons_append,
      show pos + 1 + n = pos + (n + 1) by omega]

/-- The blocks a valid inode needs pass the range check of the walk. -/
lemma ValidInode.blockAddr_lt (h : fs.ValidInode inode) (hl : fs.limit ≤ 0x100000000) {j : Nat}
    (hj : 4096 * j < fs.lengthBytes inode) : fs.blockAddr inode j < fs.limit := by
  have hb := h.blocks j hj
  unfold blockAddr
  rw [Nat.mod_eq_of_lt (by omega)]
  omega

/-- The walk from a consistent position appends the rest of the slice. -/
lemma readLoop_spec (hb : ∀ j, 4096 * j < fs.lengthBytes inode → fs.blockAddr inode j < fs.limit)
    (fuel : Nat) (s : ReadState) (hf : s.fPos = 4096 * s.bNum + s.bPos) (hp : s.bPos ≤ 4096)
    (ha : s.addr = fs.blockAddr inode s.bNum + s.bPos) :
    fs.readLoop inode fuel s =
      (((s.stored.length + min fuel (fs.lengthBytes inode - s.fPos) : Nat) : Int),
        s.stored ++ fs.slice inode s.fPos (min fuel (fs.lengthBytes inode - s.fPos))) := by
  induction fuel generalizing s with
  | zero => simp [readLoop, slice]
  | succ fuel ih =>
    unfold readLoop
    split
    · next he =>
      -- end of file
      have hz : fs.lengthBytes inode - s.fPos = 0 := by omega
      simp [hz, slice]
    · next he =>
      have hmin : min (fuel + 1) (fs.lengthBytes inode - s.fPos)
          = min fuel (fs.lengthBytes inode - (s.fPos + 1)) + 1 := by omega
      split
      · next hend =>
        -- the byte after a block boundary
        have hbp : s.bPos = 4096 := by omega
        have hlt := hb (s.bNum + 1) (by omega)
        have hbyte : fs.fileByte inode s.fPos = fs.byte (fs.blockAddr inode (s.bNum + 1)) := by
          have h1 : s.fPos / 4096 = s.bNum + 1 := by omega
          have h2 : s.fPos % 4096 = 0 := by omega
          rw [fileByte, h1, h2, Nat.add_zero]
        rw [if_neg (by omega), ih _ (by simp only; omega) (by simp only; omega) rfl]
        simp only [List.length_append, List.length_cons, List.length_nil, hmin, slice_succ, hbyte,
          List.append_assoc, List.singleton_append]
        congr 2
        omega
      · next hin =>
        have hbyte : fs.fileByte inode s.fPos = fs.byte s.addr := by
          have h1 : s.fPos / 4096 = s.bNum := by omega
          have h2 : s.fPos % 4096 = s.bPos := by omega
          rw [fileByte, h1, h2, ha]
        rw [ih _ (by simp only; omega) (by simp only; omega) (by simp only [ha]; omega)]
        simp only [List.length_append, List.length_cons, List.length_nil, hmin, slice_succ, hbyte,
          List.append_assoc, List.singleton_append]
        congr 2
        omega

/-- The walk stores no more than it was asked for, and no more than the file has. -/
lemma readLoop_length (fs : Image) (inode fuel : Nat) (s : ReadState) :
    (fs.readLoop inode fuel s).2.length ≤ s.stored.length + min fuel (fs.lengthBytes inode - s.fPos) := by
  induction fuel generalizing s with
  | zero => exact Nat.le_add_right _ _
  | succ fuel ih =>
    unfold readLoop
    split
    · exact Nat.le_add_right _ _
    · next hend =>
      split
      · extract_lets addr
        split
        · exact Nat.le_add_right _ _
        · have hlen := ih ⟨s.fPos + 1, 0 + 1, s.bNum + 1, addr + 1, s.stored ++ [fs.byte addr]⟩
          simp only [List.length_append, List.length_singleton] at hlen
          omega
      · have hlen := ih ⟨s.fPos + 1, s.bPos + 1, s.bNum, s.addr + 1, s.stored ++ [fs.byte s.addr]⟩
        simp only [List.length_append, List.length_singleton] at hlen
        omega

/-- No more bytes than were asked for, and no more than the file has left. -/
lemma readData_length (fs : Image) (inode offset length : Nat) :
    (fs.readData inode offset length).2.length ≤ min length (fs.lengthBytes inode - offset) := by
  unfold readData
  split
  · exact Nat.zero_le _
  · have hlen := readLoop_length fs inode length
      ⟨offset, offset % 4096, offset / 4096, fs.blockAddr inode (offset / 4096) + offset % 4096, []⟩
    rwa [List.length_nil, Nat.zero_add] at hlen

/-- `read_data` on a valid inode returns the slice of the file. -/
theorem readData_spec (h : fs.ValidInode inode) (hl : fs.limit ≤ 0x100000000) :
    fs.readData inode offset length =
      (((min length (fs.lengthBytes inode - offset) : Nat) : Int),
        fs.slice inode offset (min length (fs.lengthBytes inode - offset))) := by
  unfold readData
  rw [if_neg (by have := h.inRange; omega),
    readLoop_spec (fun j hj => h.blockAddr_lt hl hj) length _ (by simp only; omega)
      (by simp only; omega) rfl]
  simp

/-! ### When the walk fails -/

/-- A block that starts after block `b` and before position `e` of the file begins at or above `fs_end`. -/
def Blocked (fs : Image) (inode b e : Nat) : Prop :=
  ∃ j, b < j ∧ 4096 * j < e ∧ fs.limit ≤ fs.blockAddr inode j

/-- The walk returns -1 when it comes to a block above the image, and otherwise the number of bytes. -/
lemma readLoop_ret (fs : Image) (inode fuel : Nat) (s : ReadState) (hf : s.fPos = 4096 * s.bNum + s.bPos)
    (hp : s.bPos ≤ 4096) :
    (fs.Blocked inode s.bNum (min (s.fPos + fuel) (fs.lengthBytes inode)) →
        (fs.readLoop inode fuel s).1 = -1) ∧
      (¬ fs.Blocked inode s.bNum (min (s.fPos + fuel) (fs.lengthBytes inode)) →
        (fs.readLoop inode fuel s).1 = (s.stored.length + min fuel (fs.lengthBytes inode - s.fPos) : Nat)) := by
  induction fuel generalizing s with
  | zero =>
    refine ⟨?_, fun _ => by simp [readLoop]⟩
    rintro ⟨j, hj, hje, _⟩
    omega
  | succ fuel ih =>
    unfold readLoop
    split
    · next he =>
      refine ⟨?_, fun _ => by simp only; omega⟩
      rintro ⟨j, hj, hje, _⟩
      omega
    · next he =>
      have hend : s.fPos + 1 + fuel = s.fPos + (fuel + 1) := by omega
      split
      · next hblock =>
        extract_lets addr
        have hhere : s.bNum < s.bNum + 1 ∧ 4096 * (s.bNum + 1) < min (s.fPos + (fuel + 1)) (fs.lengthBytes inode) := by
          omega
        split
        · next hout => exact ⟨fun _ => rfl, fun h => absurd ⟨_, hhere.1, hhere.2, hout⟩ h⟩
        · next hin =>
          have hsame : fs.Blocked inode s.bNum (min (s.fPos + (fuel + 1)) (fs.lengthBytes inode)) ↔
              fs.Blocked inode (s.bNum + 1) (min (s.fPos + 1 + fuel) (fs.lengthBytes inode)) := by
            rw [hend]
            constructor
            · rintro ⟨j, hj, hje, hja⟩
              refine ⟨j, ?_, hje, hja⟩
              rcases Nat.lt_or_ge (s.bNum + 1) j with hlt | hge
              · exact hlt
              · have hjb : j = s.bNum + 1 := by omega
                subst hjb
                exact absurd hja hin
            · rintro ⟨j, hj, hje, hja⟩
              exact ⟨j, by omega, hje, hja⟩
          obtain ⟨hyes, hno⟩ := ih ⟨s.fPos + 1, 0 + 1, s.bNum + 1, addr + 1, s.stored ++ [fs.byte addr]⟩
            (by simp only; omega) (by simp only; omega)
          rw [hsame]
          refine ⟨hyes, fun h => (hno h).trans ?_⟩
          simp only [List.length_append, List.length_singleton]
          omega
      · next hblock =>
        obtain ⟨hyes, hno⟩ := ih ⟨s.fPos + 1, s.bPos + 1, s.bNum, s.addr + 1, s.stored ++ [fs.byte s.addr]⟩
          (by simp only; omega) (by simp only; omega)
        rw [← hend]
        refine ⟨hyes, fun h => (hno h).trans ?_⟩
        simp only [List.length_append, List.length_singleton]
        omega

/-- What `read_data` returns: -1 for a bad inode or a block above the image, and otherwise the number of
bytes there are. -/
theorem readData_ret :
    (inode ≥ fs.numInodes ∨ fs.Blocked inode (offset / 4096) (min (offset + length) (fs.lengthBytes inode)) →
        (fs.readData inode offset length).1 = -1) ∧
      (¬ (inode ≥ fs.numInodes ∨
          fs.Blocked inode (offset / 4096) (min (offset + length) (fs.lengthBytes inode))) →
        (fs.readData inode offset length).1 = (min length (fs.lengthBytes inode - offset) : Nat)) := by
  obtain ⟨hyes, hno⟩ := readLoop_ret fs inode length ⟨offset, offset % 4096, offset / 4096,
    fs.blockAddr inode (offset / 4096) + offset % 4096, []⟩ (by simp only; omega) (by simp only; omega)
  unfold readData
  split
  · next hbad => exact ⟨fun _ => rfl, fun h => absurd (Or.inl hbad) h⟩
  · next hin =>
    refine ⟨fun h => hyes (h.resolve_left hin), fun h => ?_⟩
    refine (hno fun hb => h (Or.inr hb)).trans ?_
    simp only [List.length_nil, Nat.zero_add]

end Image

end Boss
