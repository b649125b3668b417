import Boss.Filesys.Driver

/-!
# Loads from the image

Which bytes of memory `read_data`, `read_dentry_by_name` and `dir_read` load when the metadata of the image
is arbitrary. The only check of the block walk is made when it enters a further block, and it is one-sided:
the start of the block must be below `fs_end`. The inode itself, the place of a block number in the table,
the first block, the number of directory entries and the end of a name are not checked, and block addresses
wrap around and can come out below `fs_base`.

`loads` follows the functions statement by statement. `loads_inside_iff` says for which metadata all loads are
inside the image.

A load outside the image need not go well. `readDataOn` is `read_data` in an address space of which only a part is
mapped: it ends without a result at the first load that page-faults. On a valid inode that is the load of the first block
number, which `read_data` makes before it looks at the length of the file (`Loaded.readDataOn`, `readDataOn_fault`).
-/

namespace Boss
open Lib

namespace Image

/-- An image of `n` blocks; `fs_end` is a 32-bit pointer. -/
structure Blocks (fs : Image) (n : Nat) : Prop where
  size : fs.limit = fs.base + 4096 * n
  pos : 1 ≤ n
  lt : fs.limit < 0x100000000

/-- An address in `[fs_base, fs_end)`. -/
def Inside (fs : Image) (a : Nat) : Prop :=
  fs.base ≤ a % 0x100000000 ∧ a % 0x100000000 < fs.limit

/-- `&node->data_blocks[j]`. -/
def tableAddr (fs : Image) (inode j : Nat) : Nat := fs.inodeAddr inode + 4 + 4 * j

/-! ### The loads of each function -/

/-- The loads of a `uint32_t`. -/
def wordLoads (a : Nat) : List Nat := [a, a + 1, a + 2, a + 3]

/-- The loads of the loop of `read_data`. -/
def readLoads (fs : Image) (inode : Nat) : (fuel : Nat) → ReadState → List Nat
  | 0, _ => []
  | fuel + 1, s =>
    wordLoads (fs.inodeAddr inode) ++
    if s.fPos ≥ fs.lengthBytes inode then []
    else if s.bPos ≥ 4096 then
      let addr := fs.blockAddr inode (s.bNum + 1)
      wordLoads (fs.base + 4) ++ wordLoads (fs.tableAddr inode (s.bNum + 1)) ++
      if addr ≥ fs.limit then []
      else
        addr :: fs.readLoads inode fuel
          ⟨s.fPos + 1, 0 + 1, s.bNum + 1, addr + 1, s.stored ++ [fs.byte addr]⟩
    else
      s.addr :: fs.readLoads inode fuel
        ⟨s.fPos + 1, s.bPos + 1, s.bNum, s.addr + 1, s.stored ++ [fs.byte s.addr]⟩

/-- The loads of `read_data`. -/
def readDataLoads (fs : Image) (inode offset length : Nat) : List Nat :=
  wordLoads (fs.base + 4) ++
  if inode ≥ fs.numInodes then []
  else
    let bPos := offset % 4096
    let bNum := offset / 4096
    wordLoads (fs.base + 4) ++ wordLoads (fs.tableAddr inode bNum) ++
    fs.readLoads inode length ⟨offset, bPos, bNum, fs.blockAddr inode bNum + bPos, []⟩

/-- The indices of the second string that `strncmp` looks at. -/
def strncmpLoads (s1 s2 : Mem) : (n : Nat) → List Nat
  | 0 => []
  | n + 1 =>
    0 :: if s1 0 ≠ s2 0 ∨ s1 0 = 0 then []
      else (strncmpLoads (fun i => s1 (i + 1)) (fun i => s2 (i + 1)) n).map (· + 1)

/-- The indices of the source that `strncpy` looks at. -/
def strncpyLoads (src : Mem) (n : Nat) : (fuel i : Nat) → List Nat
  | 0, i => [i]
  | fuel + 1, i => i :: if src i ≠ 0 ∧ i < n then strncpyLoads src n fuel (i + 1) else []

/-- The loads of the loop of `read_dentry_by_name` from entry `i` on. -/
def dentryLoads (fs : Image) (fname : Mem) (len : Nat) : (fuel i : Nat) → List Nat
  | 0, _ => wordLoads fs.base
  | fuel + 1, i =>
    let name := fs.entryName i
    wordLoads fs.base ++ (strncmpLoads fname name len).map (fs.dentryAddr i + ·) ++
    if strncmp fname name len = 0 then
      (if len < 32 then [fs.dentryAddr i + len] else []) ++
      if len < 32 ∧ name len ≠ 0 then []
      else
        (strncpyLoads name 32 32 0).map (fs.dentryAddr i + ·) ++ wordLoads (fs.dentryAddr i + 32) ++
          wordLoads (fs.dentryAddr i + 36)
    else fs.dentryLoads fname len fuel (i + 1)

/-- The loads of `read_dentry_by_name`. -/
def readDentryByNameLoads (fs : Image) (fname : Mem) (bound : Nat) : List Nat :=
  let len := fname.strlen bound
  let len := if len = 32 + 1 ∧ fname 32 = 0 then len - 1 else len
  if len > 32 then [] else fs.dentryLoads fname len fs.numEntries 0

/-- The loads of the loop of `dir_read`, for a name at `a`. -/
def dirLoopLoads (fs : Image) (a : Nat) : (fuel i : Nat) → List Nat
  | 0, _ => []
  | fuel + 1, i => (a + i) :: if fs.byte (a + i) = 0 then [] else fs.dirLoopLoads a fuel (i + 1)

/-- The loads of `dir_read`. -/
def dirReadLoads (fs : Image) (fPos bytes : Nat) : List Nat :=
  let bytes := if bytes > 32 then 32 else bytes
  wordLoads fs.base ++
  if fPos / 64 > fs.numEntries then [] else fs.dirLoopLoads (fs.base + fPos) bytes 0

/-! ### Page faults -/

/-- All bytes of a `uint32_t` are mapped. -/
def wordMapped (mapped : Nat → Bool) (a : Nat) : Bool := (wordLoads a).all fun b => mapped (b % 0x100000000)

/-- The loop of `read_data` where only some addresses are mapped: the return value, which a page fault leaves out, and the
bytes stored by then. -/
def readLoopOn (fs : Image) (mapped : Nat → Bool) (inode : Nat) : (fuel : Nat) → ReadState → Option Int × List UInt8
  | 0, s => (some s.stored.length, s.stored)
  | fuel + 1, s =>
    if wordMapped mapped (fs.inodeAddr inode) = false then (none, s.stored)
    else if s.fPos ≥ fs.lengthBytes inode then (some s.stored.length, s.stored)
    else if s.bPos ≥ 4096 then
      if (wordMapped mapped (fs.base + 4) && wordMapped mapped (fs.tableAddr inode (s.bNum + 1))) = false then
        (none, s.stored)
      else
        let addr := fs.blockAddr inode (s.bNum + 1)
        if addr ≥ fs.limit then (some (-1), s.stored)
        else if mapped (addr % 0x100000000) = false then (none, s.stored)
        else
          fs.readLoopOn mapped inode fuel
            ⟨s.fPos + 1, 0 + 1, s.bNum + 1, addr + 1, s.stored ++ [fs.byte addr]⟩
    else if mapped (s.addr % 0x100000000) = false then (none, s.stored)
    else
      fs.readLoopOn mapped inode fuel
        ⟨s.fPos + 1, s.bPos + 1, s.bNum, s.addr + 1, s.stored ++ [fs.byte s.addr]⟩

/-- `read_data` where only some addresses are mapped. -/
def readDataOn (fs : Image) (mapped : Nat → Bool) (inode offset length : Nat) : Option Int × List UInt8 :=
  if wordMapped mapped (fs.base + 4) = false then (none, [])
  else if inode ≥ fs.numInodes then (some (-1), [])
  else
    let bPos := offset % 4096
    let bNum := offset / 4096
    -- the entry of the table is loaded before the length of the file is looked at
    if wordMapped mapped (fs.tableAddr inode bNum) = false then (none, [])
    else fs.readLoopOn mapped inode length ⟨offset, bPos, bNum, fs.blockAddr inode bNum + bPos, []⟩

end Image

/-- A call that reads the image. -/
inductive FsCall
  | readData (inode offset length : UInt32)
  | lookup (fname : CString)
  | dirRead (f : File) (fPos bytes : UInt32)

namespace FsCall

/-- The loads of a call. -/
def loads (fs : Image) : FsCall → List Nat
  | .readData inode offset length => fs.readDataLoads inode.toNat offset.toNat length.toNat
  | .lookup fname => fs.readDentryByNameLoads fname.byte fname.bound
  | .dirRead _ fPos bytes => fs.dirReadLoads fPos.toNat bytes.toNat

/-- The value a call returns. -/
def ret (fs : Image) : FsCall → Int
  | .readData inode offset length => (fs.readData inode.toNat offset.toNat length.toNat).1
  | .lookup fname => if (fs.readDentryByName fname.byte fname.bound).isSome then 0 else -1
  | .dirRead f fPos bytes => (Boss.dirRead fs { f with fPos := fPos.toNat } bytes.toNat).1.ret

end FsCall

namespace Image
variable {fs : Image} {n inode : Nat}

/-! ### Addresses inside the image -/

/-- Addresses are counted from `fs_base`. -/
lemma Blocks.inside_iff (h : fs.Blocks n) {x : Nat} : fs.Inside (fs.base + x) ↔ x % 0x100000000 < 4096 * n := by
  obtain ⟨hsize, _, hlt⟩ := h
  unfold Inside
  omega

/-- The addresses of a word. -/
lemma mem_wordLoads {a x : Nat} (ha : a ∈ wordLoads x) : ∃ b < 4, a = x + b := by
  simp only [wordLoads, List.mem_cons, List.not_mem_nil, or_false] at ha
  rcases ha with rfl | rfl | rfl | rfl
  · exact ⟨0, by decide, rfl⟩
  · exact ⟨1, by decide, rfl⟩
  · exact ⟨2, by decide, rfl⟩
  · exact ⟨3, by decide, rfl⟩

/-- A word at a multiple of four from `fs_base` is inside or outside as a whole. -/
lemma Blocks.wordLoads_inside (h : fs.Blocks n) {x : Nat} (hx : x % 4 = 0) :
    (∀ a ∈ wordLoads (fs.base + x), fs.Inside a) ↔ fs.Inside (fs.base + x) := by
  constructor
  · intro hall
    exact hall _ List.mem_cons_self
  · intro hin a ha
    obtain ⟨b, hb, rfl⟩ := mem_wordLoads ha
    rw [Nat.add_assoc]
    rw [h.inside_iff] at hin ⊢
    omega

/-- A data block is inside or outside as a whole. -/
lemma Blocks.block_inside (h : fs.Blocks n) {j r : Nat} (hr : r < 4096) :
    fs.Inside (fs.blockAddr inode j + r) ↔ fs.Inside (fs.blockAddr inode j) := by
  obtain ⟨hsize, _, hlt⟩ := h
  unfold Inside blockAddr
  generalize 1 + fs.numInodes + fs.dataBlock inode j = x
  omega

/-- The header is inside. -/
lemma Blocks.header_inside (h : fs.Blocks n) {x : Nat} (hx : x < 4096) : fs.Inside (fs.base + x) := by
  have hpos := h.pos
  rw [h.inside_iff]
  omega

/-- The two numbers in the boot block are inside. -/
lemma Blocks.header_loads (h : fs.Blocks n) : (∀ a ∈ wordLoads fs.base, fs.Inside a) ∧
    ∀ a ∈ wordLoads (fs.base + 4), fs.Inside a := by
  refine ⟨(h.wordLoads_inside (x := 0) rfl).mpr (h.header_inside (by decide)), ?_⟩
  exact (h.wordLoads_inside (by decide)).mpr (h.header_inside (by decide))

/-- A length is inside if its first byte is. -/
lemma Blocks.inode_loads (h : fs.Blocks n) :
    (∀ a ∈ wordLoads (fs.inodeAddr inode), fs.Inside a) ↔ fs.Inside (fs.inodeAddr inode) :=
  h.wordLoads_inside (by omega)

/-- An entry of a block table is inside if its first byte is. -/
lemma Blocks.table_loads (h : fs.Blocks n) {j : Nat} :
    (∀ a ∈ wordLoads (fs.tableAddr inode j), fs.Inside a) ↔ fs.Inside (fs.tableAddr inode j) := by
  have haddr : fs.tableAddr inode j = fs.base + (4096 * (inode + 1) + 4 + 4 * j) := by
    unfold tableAddr inodeAddr
    omega
  rw [haddr]
  exact h.wordLoads_inside (by omega)

/-! ### `read_data` -/

/-- The blocks after `b` that start before position `e`, up to the first one above the image: each has its
place in the table inside the image, and none starts below `fs_base`. -/
def WalkSound (fs : Image) (inode b e : Nat) : Prop :=
  ∀ j, b < j → 4096 * j < e → (∀ i, b < i → i < j → fs.blockAddr inode i < fs.limit) →
    fs.Inside (fs.tableAddr inode j) ∧
      (fs.blockAddr inode j < fs.limit → fs.Inside (fs.blockAddr inode j))

/-- Nothing is asked of a walk that enters no further block. -/
lemma walkSound_of_le {b e : Nat} (he : e ≤ 4096 * (b + 1)) : fs.WalkSound inode b e := by
  intro j hj hje
  omega

/-- A walk that enters the next block. -/
lemma walkSound_succ {b e : Nat} (he : 4096 * (b + 1) < e) (hin : fs.blockAddr inode (b + 1) < fs.limit) :
    fs.WalkSound inode b e ↔ fs.Inside (fs.tableAddr inode (b + 1)) ∧
      fs.Inside (fs.blockAddr inode (b + 1)) ∧ fs.WalkSound inode (b + 1) e := by
  constructor
  · intro hw
    obtain ⟨htable, hblock⟩ := hw (b + 1) (by omega) he (by omega)
    refine ⟨htable, hblock hin, fun j hj hje hpass => hw j (by omega) hje fun i hi hij => ?_⟩
    rcases Nat.lt_or_ge (b + 1) i with hlt | hge
    · exact hpass i hlt hij
    · have hib : i = b + 1 := by omega
      rwa [hib]
  · rintro ⟨htable, hblock, hw⟩ j hj hje hpass
    rcases Nat.lt_or_ge (b + 1) j with hlt | hge
    · exact hw j hlt hje fun i hi hij => hpass i (by omega) hij
    · have hjb : j = b + 1 := by omega
      subst hjb
      exact ⟨htable, fun _ => hblock⟩

/-- A walk that stops at the next block. -/
lemma walkSound_stop {b e : Nat} (he : 4096 * (b + 1) < e) (hout : fs.limit ≤ fs.blockAddr inode (b + 1)) :
    fs.WalkSound inode b e ↔ fs.Inside (fs.tableAddr inode (b + 1)) := by
  constructor
  · intro hw
    exact (hw (b + 1) (by omega) he (by omega)).1
  · intro htable j hj hje hpass
    rcases Nat.lt_or_ge (b + 1) j with hlt | hge
    · exact absurd (hpass (b + 1) (by omega) hlt) (Nat.not_lt.mpr hout)
    · have hjb : j = b + 1 := by omega
      subst hjb
      exact ⟨htable, fun hlt => absurd hlt (Nat.not_lt.mpr hout)⟩

/-- The loads of the walk from a consistent position. -/
lemma Blocks.readLoads_inside (h : fs.Blocks n) (fuel : Nat) (s : ReadState)
    (hf : s.fPos = 4096 * s.bNum + s.bPos) (hp : s.bPos ≤ 4096)
    (ha : s.addr = fs.blockAddr inode s.bNum + s.bPos) :
    (∀ a ∈ fs.readLoads inode fuel s, fs.Inside a) ↔
      (0 < fuel → fs.Inside (fs.inodeAddr inode) ∧ (s.fPos < fs.lengthBytes inode →
        (s.bPos < 4096 → fs.Inside (fs.blockAddr inode s.bNum)) ∧
        fs.WalkSound inode s.bNum (min (s.fPos + fuel) (fs.lengthBytes inode)))) := by
  induction fuel generalizing s with
  | zero => simp [readLoads]
  | succ fuel ih =>
    simp only [readLoads, List.forall_mem_append, h.inode_loads, Nat.zero_lt_succ, forall_const]
    refine and_congr_right fun hinode => ?_
    split
    · next he =>
      refine ⟨fun _ hlt => absurd hlt (Nat.not_lt.mpr he), fun _ a ha => ?_⟩
      cases ha
    · next he =>
      have hlt : s.fPos < fs.lengthBytes inode := Nat.not_le.mp he
      have hend : s.fPos + 1 + fuel = s.fPos + (fuel + 1) := by omega
      simp only [hlt, forall_const]
      split
      · next hblock =>
        have hnext : 4096 * (s.bNum + 1) < min (s.fPos + (fuel + 1)) (fs.lengthBytes inode) := by omega
        simp only [List.forall_mem_append, h.table_loads]
        rw [and_iff_right h.header_loads.2, and_iff_right fun hc => absurd hc (Nat.not_lt.mpr hblock)]
        split
        · next hout =>
          rw [walkSound_stop hnext hout]
          exact and_iff_left fun a ha => by cases ha
        · next hin =>
          rw [walkSound_succ hnext (Nat.not_le.mp hin), List.forall_mem_cons,
            ih _ (by simp only; omega) (by simp only; omega) rfl]
          simp only [hinode, true_and, hend]
          refine and_congr_right fun _ => and_congr_right fun haddr => ⟨fun hrest => ?_, fun hw _ _ => ?_⟩
          · by_cases hmore : 0 < fuel ∧ s.fPos + 1 < fs.lengthBytes inode
            · exact (hrest hmore.1 hmore.2).2
            · exact walkSound_of_le (by omega)
          · exact ⟨fun _ => haddr, hw⟩
      · next hblock =>
        have hbound : s.bPos < 4096 := Nat.not_le.mp hblock
        rw [List.forall_mem_cons, ha, h.block_inside hbound,
          ih _ (by simp only; omega) (by simp only; omega) (by simp only; omega)]
        simp only [hinode, true_and, hend, hbound, forall_const]
        refine and_congr_right fun haddr => ⟨fun hrest => ?_, fun hw _ _ => ?_⟩
        · by_cases hmore : 0 < fuel ∧ s.fPos + 1 < fs.lengthBytes inode
          · exact (hrest hmore.1 hmore.2).2
          · exact walkSound_of_le (by omega)
        · exact ⟨fun _ => haddr, hw⟩

/-- The metadata `read_data` needs is inside the image, as far as it is not checked. -/
def ReadSound (fs : Image) (inode offset length : Nat) : Prop :=
  fs.numInodes ≤ inode ∨ fs.Inside (fs.tableAddr inode (offset / 4096)) ∧
    (0 < length → fs.Inside (fs.inodeAddr inode) ∧ (offset < fs.lengthBytes inode →
      fs.Inside (fs.blockAddr inode (offset / 4096)) ∧
        fs.WalkSound inode (offset / 4096) (min (offset + length) (fs.lengthBytes inode))))

/-- When `read_data` stays inside. -/
lemma Blocks.readDataLoads_inside (h : fs.Blocks n) {offset length : Nat} :
    (∀ a ∈ fs.readDataLoads inode offset length, fs.Inside a) ↔ fs.ReadSound inode offset length := by
  have hmod : offset % 4096 < 4096 := Nat.mod_lt _ (by decide)
  simp only [readDataLoads, ReadSound, List.forall_mem_append]
  rw [and_iff_right h.header_loads.2]
  split
  · next hbad => exact ⟨fun _ => Or.inl hbad, fun _ a ha => by cases ha⟩
  · next hin =>
    rw [or_iff_right hin]
    simp only [List.forall_mem_append, h.table_loads]
    rw [and_iff_right h.header_loads.2,
      h.readLoads_inside length _ (by simp only; omega) (by simp only; omega) rfl]
    simp only [hmod, forall_const]

/-! ### `read_data` in an address space -/

/-- The boot block, the inodes and the data blocks of the image are mapped. -/
structure Loaded (fs : Image) (mapped : Nat → Bool) : Prop where
  inodes : fs.base + 4096 * (1 + fs.numInodes) ≤ fs.limit
  limit : fs.limit < 0x100000000
  image : ∀ a, fs.base ≤ a → a < fs.limit → mapped a = true

variable {mapped : Nat → Bool} {offset length : Nat}

/-- A word inside the image is mapped. -/
lemma Loaded.word (h : fs.Loaded mapped) {a : Nat} (hlow : fs.base ≤ a) (hhigh : a + 4 ≤ fs.limit) :
    wordMapped mapped a = true := by
  refine List.all_eq_true.mpr fun b hb => ?_
  obtain ⟨j, hj, rfl⟩ := mem_wordLoads hb
  have hlimit := h.limit
  rw [Nat.mod_eq_of_lt (by omega)]
  exact h.image _ (by omega) (by omega)

/-- The number of inodes is mapped. -/
lemma Loaded.header (h : fs.Loaded mapped) : wordMapped mapped (fs.base + 4) = true := by
  have := h.inodes
  exact h.word (by omega) (by omega)

/-- The length of a file is mapped. -/
lemma Loaded.size (h : fs.Loaded mapped) (hin : inode < fs.numInodes) :
    wordMapped mapped (fs.inodeAddr inode) = true := by
  have := h.inodes
  unfold inodeAddr
  exact h.word (by omega) (by omega)

/-- An entry of the table is mapped, if the table has it. -/
lemma Loaded.table (h : fs.Loaded mapped) (hin : inode < fs.numInodes) {j : Nat} (hj : j < 1023) :
    wordMapped mapped (fs.tableAddr inode j) = true := by
  have := h.inodes
  unfold tableAddr inodeAddr
  exact h.word (by omega) (by omega)

/-- The blocks of a file are mapped. -/
lemma Loaded.block (h : fs.Loaded mapped) (hvalid : fs.ValidInode inode) {j r : Nat}
    (hj : 4096 * j < fs.lengthBytes inode) (hr : r < 4096) :
    mapped ((fs.blockAddr inode j + r) % 0x100000000) = true := by
  have hblocks := hvalid.blocks j hj
  have hlimit := h.limit
  unfold blockAddr
  rw [Nat.mod_eq_of_lt (a := fs.base + _) (by omega), Nat.mod_eq_of_lt (by omega)]
  exact h.image _ (by omega) (by omega)

/-- On a valid inode no load of the walk page-faults. -/
lemma Loaded.readLoopOn (h : fs.Loaded mapped) (hvalid : fs.ValidInode inode) (fuel : Nat) (s : ReadState)
    (hf : s.fPos = 4096 * s.bNum + s.bPos) (hp : s.bPos ≤ 4096)
    (ha : s.addr = fs.blockAddr inode s.bNum + s.bPos) :
    fs.readLoopOn mapped inode fuel s = (some (fs.readLoop inode fuel s).1, (fs.readLoop inode fuel s).2) := by
  have hinode := h.size hvalid.inRange
  have hlength := hvalid.length
  induction fuel generalizing s with
  | zero => rfl
  | succ fuel ih =>
    simp only [Image.readLoopOn, readLoop, hinode, Bool.true_eq_false, if_false]
    split
    · rfl
    · next hend =>
      split
      · next hblock =>
        -- the next block, whose number is in the table
        have htable := h.table hvalid.inRange (show s.bNum + 1 < 1023 by omega)
        have hbyte := h.block hvalid (show 4096 * (s.bNum + 1) < fs.lengthBytes inode by omega) (Nat.zero_lt_succ 4095)
        rw [Nat.add_zero] at hbyte
        simp only [h.header, htable, hbyte, Bool.and_self, Bool.true_eq_false, if_false]
        split
        · rfl
        · exact ih _ (by simp only; omega) (by simp only; omega) rfl
      · next hblock =>
        have hbyte := h.block hvalid (show 4096 * s.bNum < fs.lengthBytes inode by omega) (Nat.not_le.mp hblock)
        rw [← ha] at hbyte
        simp only [hbyte, Bool.true_eq_false, if_false]
        exact ih _ (by simp only; omega) (by simp only; omega) (by simp only [ha]; omega)

/-- With the first entry of the table mapped, `read_data` of a valid inode comes to its end. -/
lemma Loaded.readDataOn (h : fs.Loaded mapped) (hvalid : fs.ValidInode inode)
    (htable : wordMapped mapped (fs.tableAddr inode (offset / 4096)) = true) :
    fs.readDataOn mapped inode offset length =
      (some (fs.readData inode offset length).1, (fs.readData inode offset length).2) := by
  have hin : ¬ inode ≥ fs.numInodes := Nat.not_le.mpr hvalid.inRange
  simp only [Image.readDataOn, readData, h.header, htable, hin, Bool.true_eq_false, if_false]
  exact h.readLoopOn hvalid length _ (by simp only; omega) (by simp only; omega) rfl

/-- Without it, `read_data` does not return. -/
lemma readDataOn_fault (hin : inode < fs.numInodes)
    (htable : wordMapped mapped (fs.tableAddr inode (offset / 4096)) = false) :
    (fs.readDataOn mapped inode offset length).1 = none := by
  simp only [Image.readDataOn, htable, Nat.not_le.mpr hin, if_true, if_false]
  split
  · rfl
  · rfl

/-- An inode out of range is refused. -/
lemma Loaded.readDataOn_range (h : fs.Loaded mapped) (hout : fs.numInodes ≤ inode) :
    fs.readDataOn mapped inode offset length = (some (-1), []) := by
  simp only [Image.readDataOn, h.header, Bool.true_eq_false, if_false]
  exact if_pos hout

/-! ### `read_dentry_by_name` -/

/-- The directory ends before the image does, or an entry before the end of the image begins with the name
looked for. -/
def LookupSound (fs : Image) (n : Nat) (fname : CString) : Prop :=
  32 < fname.length ∨ fs.numEntries ≤ 64 * n - 1 ∨
    ∃ k < 64 * n - 1, strncmp fname.byte (fs.entryName k) fname.length = 0

/-- `strncmp` looks at as many bytes as it is told to. -/
lemma lt_of_mem_strncmpLoads {s1 s2 : Mem} {len j : Nat} (hj : j ∈ strncmpLoads s1 s2 len) : j < len := by
  induction len generalizing s1 s2 j with
  | zero => cases hj
  | succ len ih =>
    rcases List.mem_cons.mp hj with rfl | hj
    · exact Nat.succ_pos len
    · split at hj
      · cases hj
      · obtain ⟨i, hi, rfl⟩ := List.mem_map.mp hj
        exact Nat.succ_lt_succ (ih hi)

/-- `strncpy` looks one byte behind its bound at most. -/
lemma le_of_mem_strncpyLoads {src : Mem} {m fuel i j : Nat} (hj : j ∈ strncpyLoads src m fuel i) :
    j ≤ i + fuel := by
  induction fuel generalizing i with
  | zero => exact Nat.le_of_eq (List.mem_singleton.mp hj)
  | succ fuel ih =>
    rcases List.mem_cons.mp hj with rfl | hj
    · omega
    · split at hj
      · have := ih hj
        omega
      · cases hj

/-- A directory entry before the end of the image is inside, up to its inode number. -/
lemma Blocks.entry_inside (h : fs.Blocks n) {i j : Nat} (hi : i < 64 * n - 1) (hj : j < 64) :
    fs.Inside (fs.dentryAddr i + j) := by
  have haddr : fs.dentryAddr i + j = fs.base + (64 + 64 * i + j) := by
    unfold dentryAddr
    omega
  rw [haddr, h.inside_iff]
  have := h.size
  have := h.lt
  omega

/-- All an entry is asked for once it has matched is inside. -/
lemma Blocks.entry_loads (h : fs.Blocks n) {i len : Nat} {name : Mem} (hi : i < 64 * n - 1) :
    (∀ a ∈ if len < 32 then [fs.dentryAddr i + len] else [], fs.Inside a) ∧
      ∀ a ∈ if len < 32 ∧ name len ≠ 0 then []
        else (strncpyLoads name 32 32 0).map (fs.dentryAddr i + ·) ++ wordLoads (fs.dentryAddr i + 32) ++
          wordLoads (fs.dentryAddr i + 36), fs.Inside a := by
  refine ⟨?_, ?_⟩
  · split
    · next hlen =>
      intro a ha
      rw [List.mem_singleton.mp ha]
      exact h.entry_inside hi (by omega)
    · intro a ha
      cases ha
  · split
    · intro a ha
      cases ha
    · simp only [List.forall_mem_append]
      refine ⟨⟨fun a ha => ?_, fun a ha => ?_⟩, fun a ha => ?_⟩
      · obtain ⟨j, hj, rfl⟩ := List.mem_map.mp ha
        exact h.entry_inside hi (by have := le_of_mem_strncpyLoads hj; omega)
      · obtain ⟨b, hb, rfl⟩ := mem_wordLoads ha
        rw [Nat.add_assoc]
        exact h.entry_inside hi (by omega)
      · obtain ⟨b, hb, rfl⟩ := mem_wordLoads ha
        rw [Nat.add_assoc]
        exact h.entry_inside hi (by omega)

/-- The scan of the directory stays inside when it ends, or finds its prefix, before the image does. -/
lemma Blocks.dentryLoads_inside (h : fs.Blocks n) {fname : Mem} {len : Nat} (hlen : len ≤ 32) (fuel i : Nat)
    (hi : i ≤ 64 * n - 1) : (∀ a ∈ fs.dentryLoads fname len fuel i, fs.Inside a) ↔
      i + fuel ≤ 64 * n - 1 ∨ ∃ k, i ≤ k ∧ k < 64 * n - 1 ∧ strncmp fname (fs.entryName k) len = 0 := by
  induction fuel generalizing i with
  | zero => exact ⟨fun _ => Or.inl hi, fun _ => h.header_loads.1⟩
  | succ fuel ih =>
    simp only [dentryLoads, List.forall_mem_append]
    rw [and_iff_right h.header_loads.1]
    rcases Nat.lt_or_ge i (64 * n - 1) with hlt | hge
    · have hcmp : ∀ a ∈ (strncmpLoads fname (fs.entryName i) len).map (fs.dentryAddr i + ·), fs.Inside a := by
        intro a ha
        obtain ⟨j, hj, rfl⟩ := List.mem_map.mp ha
        exact h.entry_inside hlt (by have := lt_of_mem_strncmpLoads hj; omega)
      rw [and_iff_right hcmp]
      split
      · next hmatch =>
        exact ⟨fun _ => Or.inr ⟨i, Nat.le_refl i, hlt, hmatch⟩,
          fun _ => List.forall_mem_append.mpr (h.entry_loads hlt)⟩
      · next hno =>
        rw [ih (i + 1) hlt]
        constructor
        · rintro (hle | ⟨k, hik, hk, hmatch⟩)
          · exact Or.inl (by omega)
          · exact Or.inr ⟨k, by omega, hk, hmatch⟩
        · rintro (hle | ⟨k, hik, hk, hmatch⟩)
          · exact Or.inl (by omega)
          · refine Or.inr ⟨k, ?_, hk, hmatch⟩
            rcases Nat.lt_or_ge i k with hlt' | hge
            · exact hlt'
            · have hki : k = i := by omega
              subst hki
              exact absurd hmatch hno
    · -- the first byte of this entry is the first one after the image
      have hout : ¬ fs.Inside (fs.dentryAddr i + 0) := by
        have haddr : fs.dentryAddr i + 0 = fs.base + 4096 * n := by
          have := h.pos
          unfold dentryAddr
          omega
        rw [haddr, h.inside_iff]
        have := h.size
        have := h.lt
        omega
      refine ⟨fun hall => absurd ?_ hout, ?_⟩
      · cases len with
        | zero => exact hall.2 _ (by simp [strncmp])
        | succ len => exact hall.1 _ (List.mem_map_of_mem List.mem_cons_self)
      · rintro (hle | ⟨k, hik, hk, _⟩)
        · omega
        · omega

/-- When `read_dentry_by_name` stays inside. -/
lemma Blocks.readDentryByNameLoads_inside (h : fs.Blocks n) (fname : CString) :
    (∀ a ∈ fs.readDentryByNameLoads fname.byte fname.bound, fs.Inside a) ↔ fs.LookupSound n fname := by
  simp only [readDentryByNameLoads, strlen_test]
  unfold LookupSound
  split
  · next hlong => exact ⟨fun _ => Or.inl hlong, fun _ a ha => by cases ha⟩
  · next hshort =>
    rw [h.dentryLoads_inside (Nat.not_lt.mp hshort) _ 0 (Nat.zero_le _), or_iff_right hshort]
    simp only [Nat.zero_add, Nat.zero_le, true_and]

/-! ### `dir_read` -/

/-- The name ends before the image does, or the image goes on for as long as was asked for. -/
lemma Blocks.dirLoopLoads_inside (h : fs.Blocks n) {fPos : Nat} (fuel i : Nat) (hi : fPos + i < 0x100000000) :
    (∀ a ∈ fs.dirLoopLoads (fs.base + fPos) fuel i, fs.Inside a) ↔
      fuel = 0 ∨ fPos + i + fuel ≤ 4096 * n ∨
        ∃ k, i ≤ k ∧ k < i + fuel ∧ fs.byte (fs.base + fPos + k) = 0 ∧ fPos + k < 4096 * n := by
  have hsize := h.size
  have hlt := h.lt
  induction fuel generalizing i with
  | zero => simp [dirLoopLoads]
  | succ fuel ih =>
    have hhere : fs.Inside (fs.base + fPos + i) ↔ fPos + i < 4096 * n := by
      rw [Nat.add_assoc, h.inside_iff]
      omega
    rw [dirLoopLoads, List.forall_mem_cons, hhere]
    constructor
    · rintro ⟨hin, hrest⟩
      split at hrest
      · next hz => exact Or.inr (Or.inr ⟨i, Nat.le_refl i, by omega, hz, hin⟩)
      · next hz =>
        rcases (ih (i + 1) (by omega)).mp hrest with h0 | hle | ⟨k, hik, hk, hkz, hkin⟩
        · exact Or.inr (Or.inl (by omega))
        · exact Or.inr (Or.inl (by omega))
        · exact Or.inr (Or.inr ⟨k, by omega, by omega, hkz, hkin⟩)
    · rintro (h0 | hcase)
      · cases h0
      · have hin : fPos + i < 4096 * n := by
          rcases hcase with hle | ⟨k, hik, _, _, hkin⟩ <;> omega
        refine ⟨hin, ?_⟩
        split
        · intro a ha
          cases ha
        · next hz =>
          refine (ih (i + 1) (by omega)).mpr (Or.inr ?_)
          rcases hcase with hle | ⟨k, hik, hk, hkz, hkin⟩
          · exact Or.inl (by omega)
          · refine Or.inr ⟨k, ?_, by omega, hkz, hkin⟩
            rcases Nat.lt_or_ge i k with hlt' | hge
            · exact hlt'
            · have hki : k = i := by omega
              subst hki
              exact absurd hkz hz

/-- The position is beyond the directory, or the name there ends before the image does, or the image goes on
for as long as was asked for. -/
def DirSound (fs : Image) (n fPos bytes : Nat) : Prop :=
  fs.numEntries < fPos / 64 ∨ bytes = 0 ∨ fPos + min bytes 32 ≤ 4096 * n ∨
    ∃ k < min bytes 32, fs.byte (fs.base + fPos + k) = 0 ∧ fPos + k < 4096 * n

/-- When `dir_read` stays inside. -/
lemma Blocks.dirReadLoads_inside (h : fs.Blocks n) {fPos bytes : Nat} (hpos : fPos < 0x100000000) :
    (∀ a ∈ fs.dirReadLoads fPos bytes, fs.Inside a) ↔ fs.DirSound n fPos bytes := by
  have hmin : (if bytes > 32 then 32 else bytes) = min bytes 32 := by
    split <;> omega
  have hzero : min bytes 32 = 0 ↔ bytes = 0 := by omega
  simp only [dirReadLoads, DirSound, List.forall_mem_append, hmin]
  rw [and_iff_right h.header_loads.1]
  split
  · next hbeyond => exact ⟨fun _ => Or.inl hbeyond, fun _ a ha => by cases ha⟩
  · next hin =>
    rw [h.dirLoopLoads_inside _ 0 hpos, or_iff_right hin, hzero]
    simp only [Nat.zero_add, Nat.zero_le, true_and, Nat.add_zero]

end Image

namespace FsCall
variable {fs : Image} {n : Nat}

/-- The metadata leads the call to a byte outside the image. -/
def Strays (fs : Image) : FsCall → Prop
  | .readData inode offset length => inode.toNat < fs.numInodes ∧
    ∃ pos, offset.toNat ≤ pos ∧ pos < min (offset.toNat + length.toNat) (fs.lengthBytes inode.toNat) ∧
      ¬ fs.Inside (fs.blockAddr inode.toNat (pos / 4096) + pos % 4096)
  | .lookup fname => fname.length ≤ 32 ∧ ∃ i < fs.numEntries,
    (∀ k < i, strncmp fname.byte (fs.entryName k) fname.length ≠ 0) ∧ ¬ fs.Inside (fs.dentryAddr i)
  | .dirRead _ fPos bytes => fPos.toNat / 64 ≤ fs.numEntries ∧ ∃ i < min bytes.toNat 32,
    (∀ k < i, fs.byte (fs.base + fPos.toNat + k) ≠ 0) ∧ ¬ fs.Inside (fs.base + fPos.toNat + i)

/-- The call loads from the image only, and returns -1 or 0 where the metadata leads outside. -/
def Contained (fs : Image) (c : FsCall) : Prop :=
  (∀ a ∈ c.loads fs, fs.Inside a) ∧ (c.Strays fs → c.ret fs = -1 ∨ c.ret fs = 0)

/-- The metadata the call relies on. -/
def Sound (fs : Image) (n : Nat) : FsCall → Prop
  | .readData inode offset length => fs.ReadSound inode.toNat offset.toNat length.toNat
  | .lookup fname => fs.LookupSound n fname
  | .dirRead _ fPos bytes => fs.DirSound n fPos.toNat bytes.toNat

/-- When a call stays inside. -/
lemma loads_iff (h : fs.Blocks n) (c : FsCall) : (∀ a ∈ c.loads fs, fs.Inside a) ↔ c.Sound fs n := by
  cases c with
  | readData inode offset length => exact h.readDataLoads_inside
  | lookup fname => exact h.readDentryByNameLoads_inside fname
  | dirRead f fPos bytes => exact h.dirReadLoads_inside fPos.toNat_lt

/-- A walk over sound metadata that comes to a byte outside the image has met a block above it. -/
lemma blocked_of_strays (h : fs.Blocks n) {inode offset length : UInt32}
    (hsound : Sound fs n (.readData inode offset length)) (hstrays : Strays fs (.readData inode offset length)) :
    fs.Blocked inode.toNat (offset.toNat / 4096)
      (min (offset.toNat + length.toNat) (fs.lengthBytes inode.toNat)) := by
  obtain ⟨hin, pos, hle, hlt, hout⟩ := hstrays
  rw [h.block_inside (Nat.mod_lt _ (by decide))] at hout
  obtain ⟨_, hrest⟩ := hsound.resolve_left (Nat.not_le.mpr hin)
  obtain ⟨hfirst, hwalk⟩ := (hrest (by omega)).2 (by omega)
  by_contra hfree
  have hpass : ∀ j, offset.toNat / 4096 < j → j ≤ pos / 4096 → fs.blockAddr inode.toNat j < fs.limit := by
    intro j hj hjp
    by_contra hge
    exact hfree ⟨j, hj, by omega, Nat.not_lt.mp hge⟩
  rcases Nat.lt_or_ge (offset.toNat / 4096) (pos / 4096) with hnext | hsame
  · have hblock := hwalk (pos / 4096) hnext (by omega) fun i hi hij => hpass i hi (by omega)
    exact hout (hblock.2 (hpass _ hnext (Nat.le_refl _)))
  · have heq : pos / 4096 = offset.toNat / 4096 := by omega
    rw [heq] at hout
    exact hout hfirst

end FsCall

/-- A call loads from the image only exactly when the metadata it relies on without a check is sound. -/
theorem loads_inside_iff (fs : Image) (n : Nat) (h : fs.Blocks n) (c : FsCall) :
    c.Contained fs ↔ c.Sound fs n := by
  refine ⟨fun hc => (FsCall.loads_iff h c).mp hc.1, fun hsound => ⟨(FsCall.loads_iff h c).mpr hsound, ?_⟩⟩
  intro hstrays
  cases c with
  | readData inode offset length =>
    exact Or.inl (Image.readData_ret.1 (Or.inr (FsCall.blocked_of_strays h hsound hstrays)))
  | lookup fname =>
    obtain ⟨hshort, i, hi, hno, hout⟩ := hstrays
    refine absurd (h.entry_inside (j := 0) ?_ (by decide)) hout
    rcases hsound with hlong | hend | ⟨k, hk, hmatch⟩
    · omega
    · omega
    · have hik : ¬ k < i := fun hlt => hno k hlt hmatch
      omega
  | dirRead f fPos bytes =>
    obtain ⟨hdir, i, hi, hno, hout⟩ := hstrays
    have hlt := h.lt
    have hsize := h.size
    refine absurd ?_ hout
    rw [Nat.add_assoc, h.inside_iff]
    rcases hsound with hbeyond | hzero | hend | ⟨k, hk, hnul, hin⟩
    · omega
    · omega
    · omega
    · have hik : ¬ k < i := fun hlt => hno k hlt hnul
      omega

/-- An image of one block that claims to have an inode. -/
def loneBlock : Image := ⟨fun a => if a = 0x100004 then 1 else 0, 0x100000, 0x101000⟩

/-- The image is one block. -/
lemma loneBlock_blocks : loneBlock.Blocks 1 := ⟨rfl, by decide, by decide⟩

/-- Reading the directory of this image. -/
theorem loads_inside_iff_dir : (FsCall.dirRead .zero 64 32).Contained loneBlock :=
  (loads_inside_iff loneBlock 1 loneBlock_blocks _).mpr (Or.inr (Or.inr (Or.inl (by decide))))

/-- The inode of an image of one block lies behind its end, and is read all the same. -/
theorem read_data_loads_outside : loneBlock.Blocks 1 ∧ ¬ (FsCall.readData 0 0 1).Contained loneBlock := by
  refine ⟨loneBlock_blocks, fun h => ?_⟩
  have hin := h.1 0x101000 (by decide)
  exact absurd hin.2 (by decide)

end Boss
