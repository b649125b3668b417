import Boss.Filesys.Lookup
import Boss.Syscall.Descriptors

/-!
# The directory

Reading the directory, and the two lookups. The position of an open directory counts bytes from the start of the
boot block, whose header is as long as an entry: `dir_open` sets it to 64, and the `k`-th entry is at `64 * k`, counted
from 1. A read delivers one name, or nothing when the position is behind the last entry
(`dir_enumerates`).
-/

namespace Boss
open Lib

/-! ### Reading the directory -/

/-- The loop of `dir_read` delivers the string at its place, up to the size asked for. -/
lemma dirLoop_eq {name : Mem} {fuel i : Nat} :
    dirLoop name fuel i = name.bytes i (Mem.strlen (fun j => name (i + j)) fuel) := by
  induction fuel generalizing i with
  | zero => rfl
  | succ fuel ih =>
    have htail : (fun j => name (i + (j + 1))) = fun j => name (i + 1 + j) := by
      funext j
      rw [Nat.add_assoc, Nat.add_comm 1]
    simp only [dirLoop, Mem.strlen, Nat.add_zero, htail]
    split
    · rfl
    · rw [ih, Mem.bytes_succ]

namespace Image
variable {fs : Image} {f : File} {k n : Nat}

/-- What the read of number `k`, counted from 0, is to return and store. -/
def nthRead (fs : Image) (k n : Nat) : Result :=
  if k < fs.numEntries then ⟨(min n (min 32 (fs.nameOf k).length) : Nat), (fs.nameOf k).take n⟩ else ⟨0, []⟩

/-- The position of a directory after `k` reads: reads behind the last entry do not move it. -/
def dirPos (fs : Image) (k : Nat) : Nat := 64 * (min k fs.numEntries + 1)

/-- A name has at most 32 bytes. -/
lemma length_nameOf : (fs.nameOf k).length ≤ 32 := by
  rw [nameOf, Mem.length_bytes]
  exact Mem.strlen_le

/-- One read. -/
lemma dirRead_nth (hentries : fs.numEntries ≤ 63) (hpos : f.fPos = fs.dirPos k) :
    dirRead fs f n = (fs.nthRead k n, { f with fPos := fs.dirPos (k + 1) }) := by
  unfold dirPos at hpos
  have hcap : (if n > 32 then 32 else n) ≤ 32 := by
    split
    · exact Nat.le_refl 32
    · omega
  simp only [dirRead, nthRead, dirPos]
  by_cases hk : k < fs.numEntries
  · have hmove : (f.fPos + 64) % 0x100000000 = 64 * (min (k + 1) fs.numEntries + 1) := by omega
    have hname : (fun i => fs.byte (fs.base + f.fPos + i)) = fs.entryName k := by
      funext i
      rw [entryName, dentryAddr, hpos]
      congr 1
      omega
    have htake : (fs.nameOf k).take (if n > 32 then 32 else n) = (fs.nameOf k).take n := by
      split
      · rw [List.take_of_length_le length_nameOf, List.take_of_length_le (by have := @length_nameOf fs k; omega)]
      · rfl
    have hstored : dirLoop (fs.entryName k) (if n > 32 then 32 else n) 0 = (fs.nameOf k).take n := by
      rw [dirLoop_eq]
      simp only [Nat.zero_add]
      rw [Mem.strlen_of_le hcap, Mem.bytes_min]
      exact htake
    have hlen : ((fs.nameOf k).take n).length = min n (min 32 (fs.nameOf k).length) := by
      have := @length_nameOf fs k
      rw [List.length_take]
      omega
    rw [if_neg (by omega), if_pos hk, hname, hstored, hlen, hmove]
  · have hstay : f.fPos = 64 * (min (k + 1) fs.numEntries + 1) := by omega
    rw [if_pos (by omega), if_neg hk, ← hstay]

end Image

/-- The descriptor of a directory. -/
structure File.IsDir (f : File) : Prop where
  op : f.fOp = some .dir
  flags : f.flags = 1

/-- A directory that is opened. -/
lemma openLoop_dir {fds fds' : Fds} {d : Dentry} {slots : List (Fin 8)} {fd : Int} (hdir : d.type = 1) (hfd : 0 ≤ fd)
    (h : openLoop fds d slots = some (fd, fds')) :
    ∃ i ∈ slots, fd = i.val ∧ (fds' i).IsDir ∧ (fds' i).fPos = 64 := by
  induction slots with
  | nil =>
    cases h
    exact absurd hfd (by decide)
  | cons i slots ih =>
    by_cases hfree : (fds i).flags = 0
    · rw [openLoop, if_pos hfree] at h
      simp only [File.describe, hdir, Ops.opened, dirOpen] at h
      cases h
      refine ⟨i, List.mem_cons_self, rfl, ?_⟩
      rw [Function.update_self]
      exact ⟨⟨rfl, rfl⟩, rfl⟩
    · rw [openLoop, if_neg hfree] at h
      obtain ⟨j, hj, hopened⟩ := ih h
      exact ⟨j, List.mem_cons_of_mem _ hj, hopened⟩

/-- A slot that `open` can take. -/
lemma slot_of_openSlots {i : Fin 8} (hi : i ∈ openSlots) : slot (i.val : Int) = some i := by
  revert i
  decide

/-- One read through the descriptor. -/
lemma sysRead_dir {fs : Image} {T : Terminal} {fds : Fds} {i : Fin 8} {buf k n : Nat} (hentries : fs.numEntries ≤ 63)
    (hopen : (fds i).IsDir) (hpos : (fds i).fPos = fs.dirPos k) (hbuf : isKernelPtr buf = false) :
    sysRead fs T fds i.val buf n =
      some (fs.nthRead k n, Function.update fds i { fds i with fPos := fs.dirPos (k + 1) }, T) := by
  have hslot : 0 ≤ (i.val : Int) ∧ (i.val : Int) < 8 := by
    have := i.isLt
    omega
  have hi : (⟨(i.val : Int).toNat, by omega⟩ : Fin 8) = i := Fin.ext (Int.toNat_natCast _)
  have hflags : ¬ ((fds i).flags = 0 ∨ isKernelPtr buf = true) := by
    rw [hopen.flags, hbuf]
    decide
  rw [sysRead, dif_pos hslot]
  simp only [hi, if_neg hflags, hopen.op, Ops.read, Image.dirRead_nth hentries hpos]

/-- Reads through the descriptor from the `k`-th on. -/
lemma runCalls_dir {fs : Image} {T : Terminal} {fds : Fds} {i : Fin 8} {k : Nat} {reads : List (Nat × Nat)}
    (hentries : fs.numEntries ≤ 63) (hopen : (fds i).IsDir) (hpos : (fds i).fPos = fs.dirPos k)
    (hbuf : ∀ r ∈ reads, isKernelPtr r.1 = false) :
    ∃ fds', runCalls (callStep fs) fds (reads.map fun r => .readFd i.val r.1 r.2 T) =
      some (reads.mapIdx fun j r => fs.nthRead (k + j) r.2, fds') ∧
        (fds' i).fPos = fs.dirPos (k + reads.length) := by
  induction reads generalizing fds k with
  | nil => exact ⟨fds, rfl, hpos⟩
  | cons r reads ih =>
    obtain ⟨hr, hrest⟩ := List.forall_mem_cons.mp hbuf
    have hread := @sysRead_dir fs T fds i r.1 k r.2 hentries hopen hpos hr
    have hnext : (Function.update fds i { fds i with fPos := fs.dirPos (k + 1) } i).IsDir := by
      rw [Function.update_self]
      exact ⟨hopen.op, hopen.flags⟩
    obtain ⟨fds', hrun, hlast⟩ := @ih _ (k + 1) hnext (by rw [Function.update_self]) hrest
    have hshift : (fun j (r : Nat × Nat) => fs.nthRead (k + 1 + j) r.2) = fun j r => fs.nthRead (k + (j + 1)) r.2 := by
      funext j r
      rw [Nat.add_assoc, Nat.add_comm 1]
    rw [hshift] at hrun
    refine ⟨fds', ?_, ?_⟩
    · simp only [List.map_cons, runCalls, callStep, hread, Option.map_some, Option.bind_some, hrun, List.mapIdx_cons,
        Nat.add_zero]
    · rw [hlast, List.length_cons, Nat.add_assoc, Nat.add_comm 1]

/-- A directory of at most 63 entries that is opened and then read any number of times, in pieces of any size, delivers
the names of its entries in order, one at a read, and then nothing, at a position that stays. -/
theorem dir_enumerates (fs : Image) (hentries : fs.numEntries ≤ 63) (fds fds1 : Fds) (name : CString) (d : Dentry)
    (hfound : fs.lookup name = some d) (hdir : d.type = 1) (fd : Int)
    (hopen : sysOpen fs fds (some name) = some (fd, fds1)) (hfd : 0 ≤ fd) (T : Terminal) (reads : List (Nat × Nat))
    (hbuf : ∀ r ∈ reads, isKernelPtr r.1 = false) :
    ∃ i fds2, slot fd = some i ∧
      runCalls (callStep fs) fds1 (reads.map fun r => .readFd fd r.1 r.2 T) =
        some (reads.mapIdx fun k r => fs.nthRead k r.2, fds2) ∧
      (fds2 i).fPos = fs.dirPos reads.length := by
  rw [sysOpen, hfound] at hopen
  obtain ⟨i, hi, rfl, hisDir, hpos⟩ := openLoop_dir hdir hfd hopen
  have hstart : (fds1 i).fPos = fs.dirPos 0 := by
    rw [hpos, Image.dirPos, Nat.zero_min]
  obtain ⟨fds2, hrun, hlast⟩ := runCalls_dir (T := T) hentries hisDir hstart hbuf
  simp only [Nat.zero_add] at hrun hlast
  exact ⟨i, fds2, slot_of_openSlots hi, hrun, hlast⟩

/-- The boot block of a directory with one entry, `"a"`, which is a directory. -/
def oneName : Image :=
  ⟨fun a => if a = 0x100000 then 1 else if a = 0x100040 then 97 else if a = 0x100060 then 1 else 0, 0x100000, 0x101000⟩

/-- The name `"a"`. -/
def nameA : CString := ⟨fun i => if i = 0 then 97 else 0, 1, rfl⟩

/-- It is opened and read twice, five bytes each time. -/
theorem dir_enumerates_a : ∃ fds1, sysOpen oneName freshFds (some nameA) = some (2, fds1) ∧
    ∃ i fds2, slot 2 = some i ∧
      runCalls (callStep oneName) fds1 [.readFd 2 0x08000000 5 .blank, .readFd 2 0x08000000 5 .blank] =
        some ([⟨1, [97]⟩, ⟨0, []⟩], fds2) ∧ (fds2 i).fPos = 128 := by
  obtain ⟨fds1, hopen⟩ : ∃ fds1, sysOpen oneName freshFds (some nameA) = some (2, fds1) := ⟨_, rfl⟩
  exact ⟨fds1, hopen, dir_enumerates oneName (by decide) freshFds fds1 nameA _ rfl rfl 2 hopen (by decide) .blank
    [(0x08000000, 5), (0x08000000, 5)] (by decide)⟩

/-! ### The two lookups

Both lookups fill in a `dentry_t` of the caller: 33 bytes of name, three bytes of padding, type and inode. They copy the
name with `strncpy` and store a zero byte behind what they copied, `read_dentry_by_name` 32 bytes and
`read_dentry_by_index` 33. -/

/-- A `dentry_t` in memory. -/
def Dentry.ofMem (m : Mem) : Dentry := ⟨fun j => if j < 33 then m j else 0, m.le32 36, m.le32 40⟩

/-- An offset that belongs to a field of `dentry_t`. -/
def Dentry.Field (off : Nat) : Prop := off < 33 ∨ 36 ≤ off ∧ off < 44

namespace Image
variable {fs : Image} {q : CString} {i k n len fuel : Nat} {m m' : Mem}

/-- The stores of `strncpy(dentry->name, d->name, n)`, `dentry->name[n] = 0` and the copies of type and inode. -/
def fillStores (fs : Image) (n i : Nat) : List (Nat × UInt8) :=
  Mem.run 0 (strncpy (fun _ => 0) (fs.entryName i) n) n ++ ([(n, 0)] ++
    (Mem.run 36 (fun j => fs.byte (fs.dentryAddr i + 32 + j)) 4 ++
      Mem.run 40 (fun j => fs.byte (fs.dentryAddr i + 36 + j)) 4))

/-- The search of `read_dentry_by_name`, with the number of the entry. -/
def dentryIndex (fs : Image) (fname : Mem) (len : Nat) : (fuel i : Nat) → Option Nat
  | 0, _ => none
  | fuel + 1, i =>
    if strncmp fname (fs.entryName i) len = 0 then
      if len < 32 ∧ fs.entryName i len ≠ 0 then none else some i
    else fs.dentryIndex fname len fuel (i + 1)

/-- The stores of `read_dentry_by_name`; `none` is -1. -/
def readDentryByNameStores (fs : Image) (fname : Mem) (bound : Nat) : Option (List (Nat × UInt8)) :=
  let len := fname.strlen bound
  let len := if len = 32 + 1 ∧ fname 32 = 0 then len - 1 else len
  if len > 32 then none else (fs.dentryIndex fname len fs.numEntries 0).map (fs.fillStores 32)

/-- The stores of `read_dentry_by_index`; `none` is -1. -/
def readDentryByIndexStores (fs : Image) (index : Nat) : Option (List (Nat × UInt8)) :=
  if index ≥ fs.numEntries then none else some (fs.fillStores 33 index)

/-- What is in the `dentry_t` afterwards. -/
lemma fillStores_apply (hn : n < 36) {j : Nat} : Mem.replay (fs.fillStores n i) m j =
    if j < n then strncpy (fun _ => 0) (fs.entryName i) n j
    else if j = n then 0
    else if 36 ≤ j ∧ j < 40 then fs.byte (fs.dentryAddr i + 32 + (j - 36))
    else if 40 ≤ j ∧ j < 44 then fs.byte (fs.dentryAddr i + 36 + (j - 40))
    else m j := by
  have hzero : ∀ m : Mem, Mem.replay [(n, 0)] m j = if j = n then 0 else m j := fun m => Function.update_apply ..
  rw [fillStores, Mem.replay_append, Mem.replay_append, Mem.replay_append, Mem.replay_run, Mem.replay_run, hzero,
    Mem.replay_run]
  by_cases h4 : 40 ≤ j ∧ j < 40 + 4
  · rw [if_pos h4, if_neg (by omega), if_neg (by omega), if_neg (by omega), if_pos (by omega)]
  rw [if_neg h4]
  by_cases h3 : 36 ≤ j ∧ j < 36 + 4
  · rw [if_pos h3, if_neg (by omega), if_neg (by omega), if_pos (by omega)]
  rw [if_neg h3]
  by_cases h2 : j = n
  · rw [if_pos h2, if_neg (by omega), if_pos h2]
  rw [if_neg h2]
  by_cases h1 : j < n
  · rw [if_pos (by omega), if_pos h1, Nat.sub_zero]
  · rw [if_neg (by omega), if_neg h1, if_neg h2, if_neg (by omega), if_neg (by omega)]

/-- Type and inode are copied by both. -/
lemma fillStores_words (hn : n < 36) : Mem.le32 (Mem.replay (fs.fillStores n i) m) 36 = fs.word (fs.dentryAddr i + 32) ∧
    Mem.le32 (Mem.replay (fs.fillStores n i) m) 40 = fs.word (fs.dentryAddr i + 36) := by
  have htype : ∀ j < 4, Mem.replay (fs.fillStores n i) m (36 + j) = fs.byte (fs.dentryAddr i + 32 + j) := by
    intro j hj
    rw [fillStores_apply hn, if_neg (by omega), if_neg (by omega), if_pos (by omega), Nat.add_sub_cancel_left]
  have hinode : ∀ j < 4, Mem.replay (fs.fillStores n i) m (40 + j) = fs.byte (fs.dentryAddr i + 36 + j) := by
    intro j hj
    rw [fillStores_apply hn, if_neg (by omega), if_neg (by omega), if_neg (by omega), if_pos (by omega),
      Nat.add_sub_cancel_left]
  constructor
  · simp only [Mem.le32, word, ← htype 0 (by omega), ← htype 1 (by omega), ← htype 2 (by omega), ← htype 3 (by omega),
      Nat.add_zero]
  · simp only [Mem.le32, word, ← hinode 0 (by omega), ← hinode 1 (by omega), ← hinode 2 (by omega),
      ← hinode 3 (by omega), Nat.add_zero]

/-- The lookup by name leaves the entry in the `dentry_t`, whatever was there. -/
lemma ofMem_byName : Dentry.ofMem (Mem.replay (fs.fillStores 32 i) m) = fs.entry i := by
  obtain ⟨htype, hinode⟩ := @fillStores_words fs i 32 m (by omega)
  rw [Dentry.ofMem, htype, hinode, ← filled_entry]
  congr 1
  funext j
  by_cases hj : j = 32
  · rw [if_pos (by omega), fillStores_apply (by omega), if_neg (by omega), if_pos hj, hj, Function.update_self]
  rw [Function.update_of_ne hj]
  by_cases hlt : j < 32
  · rw [if_pos (by omega), fillStores_apply (by omega), if_pos hlt]
  · rw [if_neg (by omega), strncpy_apply, if_neg hlt]

/-- The entry that is found, by its index. -/
lemma dentryLoop_index {fname : Mem} :
    fs.dentryLoop fname len fuel i = (fs.dentryIndex fname len fuel i).map fs.entry := by
  induction fuel generalizing i with
  | zero => rfl
  | succ fuel ih =>
    rw [dentryIndex]
    change (if strncmp fname (fs.entryName i) len = 0 then if len < 32 ∧ fs.entryName i len ≠ 0 then none else _
      else fs.dentryLoop fname len fuel (i + 1)) = _
    rw [ih]
    split
    · split
      · rfl
      · exact congrArg some filled_entry
    · rfl

/-- The stores of the lookup by name are those of the entry that it yields. -/
theorem readDentryByName_stores (fs : Image) (fname : Mem) (bound : Nat) (m : Mem) : fs.readDentryByName fname bound =
    (fs.readDentryByNameStores fname bound).map fun stores => Dentry.ofMem (Mem.replay stores m) := by
  unfold readDentryByName readDentryByNameStores
  extract_lets len len'
  by_cases hlong : len' > 32
  · rw [if_pos hlong, if_pos hlong]
    rfl
  · rw [if_neg hlong, if_neg hlong, dentryLoop_index, Option.map_map]
    congr 1
    funext k
    exact ofMem_byName.symm

/-- The entry that is found has the name. -/
lemma dentryIndex_name (hq : q.length ≤ 32) (h : fs.dentryIndex q.byte q.length fuel i = some k) :
    k < i + fuel ∧ fs.nameOf k = q.chars := by
  induction fuel generalizing i with
  | zero => cases h
  | succ fuel ih =>
    rw [dentryIndex] at h
    by_cases hcmp : strncmp q.byte (fs.entryName i) q.length = 0
    · rw [if_pos hcmp] at h
      split at h
      · cases h
      · next hend =>
        cases h
        exact ⟨by omega, (nameOf_eq_iff hq ((strncmp_entry hq).mp hcmp)).mpr hend⟩
    · rw [if_neg hcmp] at h
      obtain ⟨hk, hname⟩ := ih h
      exact ⟨by omega, hname⟩

/-- The name of an entry, as a string. -/
def nameStr (fs : Image) (i : Nat) : CString where
  byte := fun j => (fs.nameOf i).getD j 0
  bound := 32
  nul := List.getD_eq_default _ _ length_nameOf

/-- A name has no zero byte. -/
lemma zero_notMem_nameOf : 0 ∉ fs.nameOf i := by
  intro hmem
  obtain ⟨j, hj, hz⟩ := List.mem_map.mp hmem
  rw [Nat.zero_add] at hz
  exact Mem.ne_zero_of_lt_strlen (List.mem_range.mp hj) hz

/-- The length of a name as a string. -/
lemma length_nameStr : (fs.nameStr i).length = (fs.nameOf i).length :=
  Mem.strlen_getD zero_notMem_nameOf length_nameOf

/-- The characters of a name as a string. -/
lemma chars_nameStr : (fs.nameStr i).chars = fs.nameOf i := by
  rw [CString.chars, length_nameStr]
  exact Mem.bytes_getD

/-- In a directory of distinct names, the entry that is found under the name of an entry is this one. -/
lemma readDentryByNameStores_nameStr {stores : List (Nat × UInt8)}
    (hdistinct : ∀ i < fs.numEntries, ∀ k < fs.numEntries, fs.nameOf i = fs.nameOf k → i = k) (hi : i < fs.numEntries)
    (h : fs.readDentryByNameStores (fs.nameStr i).byte (fs.nameStr i).bound = some stores) :
    stores = fs.fillStores 32 i := by
  have hlen : (fs.nameStr i).length ≤ 32 := length_nameStr.trans_le length_nameOf
  have hlen' : Mem.strlen (fs.nameStr i).byte (fs.nameStr i).bound = (fs.nameStr i).length := rfl
  have hlong : ¬ ((fs.nameStr i).length = 32 + 1 ∧ (fs.nameStr i).byte 32 = 0) := by omega
  rw [readDentryByNameStores] at h
  simp only [hlen', if_neg hlong] at h
  rw [if_neg (by omega)] at h
  obtain ⟨k, hk, rfl⟩ := Option.map_eq_some_iff.mp h
  obtain ⟨hlt, hname⟩ := dentryIndex_name hlen hk
  rw [chars_nameStr] at hname
  rw [hdistinct k (by omega) i hi hname]

/-- The lookup by number gives the `dentry_t` that the lookup under the entry's name gives, with a zero byte at its
end. -/
def SameDentry (fs : Image) (i : Nat) (m m' : Mem) : Prop :=
  ∃ byName byIndex, fs.readDentryByNameStores (fs.nameStr i).byte (fs.nameStr i).bound = some byName ∧
    fs.readDentryByIndexStores i = some byIndex ∧
    Dentry.ofMem (Mem.replay byIndex m') = Dentry.ofMem (Mem.replay byName m) ∧ Mem.replay byIndex m' 32 = 0

/-- Both lookups store to fields of the `dentry_t` only. -/
def StoresFields (fs : Image) (i : Nat) : Prop :=
  ∀ stores, fs.readDentryByNameStores (fs.nameStr i).byte (fs.nameStr i).bound = some stores ∨
    fs.readDentryByIndexStores i = some stores → ∀ st ∈ stores, Dentry.Field st.1

/-- The two lookups agree on entry `i`, for whatever is in the `dentry_t` of the caller before. -/
def LookupsAgree (fs : Image) (i : Nat) (m m' : Mem) : Prop := fs.SameDentry i m m' ∧ fs.StoresFields i

/-- The last byte of the name that the lookup by number leaves: the byte behind the name field if the name fills it. -/
lemma byIndex_last : Mem.replay (fs.fillStores 33 i) m 32 = 0 ↔
    (fs.nameOf i).length < 32 ∨ fs.word (fs.dentryAddr i + 32) % 256 = 0 := by
  have hmin : (fs.entryName i).strlen 32 = min 32 ((fs.entryName i).strlen 33) := Mem.strlen_of_le (by omega)
  have hle : (fs.entryName i).strlen 33 ≤ 33 := Mem.strlen_le
  have hlen : (fs.nameOf i).length = (fs.entryName i).strlen 32 := Mem.length_bytes
  have hlow : fs.word (fs.dentryAddr i + 32) % 256 = (fs.entryName i 32).toNat := by
    have := (fs.byte (fs.dentryAddr i + 32)).toNat_lt
    simp only [word, Mem.le32, entryName]
    omega
  rw [fillStores_apply (by omega), if_pos (by omega), strncpy_apply, if_pos (by omega), hlow, hlen]
  constructor
  · intro h
    by_cases hfull : 32 < (fs.entryName i).strlen 33
    · rw [if_pos hfull] at h
      exact absurd h (Mem.ne_zero_of_lt_strlen hfull)
    · by_cases hshort : (fs.entryName i).strlen 32 < 32
      · exact Or.inl hshort
      · have hend : (fs.entryName i).strlen 33 = 32 := by omega
        have hz : fs.entryName i ((fs.entryName i).strlen 33) = 0 := Mem.strlen_lt_zero (by omega)
        rw [hend] at hz
        rw [hz]
        exact Or.inr rfl
  · intro h
    split
    · next hfull =>
      have hz := h.resolve_left (by omega)
      exact UInt8.toNat_inj.mp hz
    · rfl

/-- All else is the same. -/
lemma ofMem_byIndex (hlast : Mem.replay (fs.fillStores 33 i) m' 32 = 0) :
    Dentry.ofMem (Mem.replay (fs.fillStores 33 i) m') = Dentry.ofMem (Mem.replay (fs.fillStores 32 i) m) := by
  obtain ⟨htype, hinode⟩ := @fillStores_words fs i 33 m' (by omega)
  obtain ⟨htype', hinode'⟩ := @fillStores_words fs i 32 m (by omega)
  have hmin : (fs.entryName i).strlen 32 = min 32 ((fs.entryName i).strlen 33) := Mem.strlen_of_le (by omega)
  have hname : ∀ j < 33, Mem.replay (fs.fillStores 33 i) m' j = Mem.replay (fs.fillStores 32 i) m j := by
    intro j hj
    by_cases h32 : j = 32
    · rw [h32, hlast, fillStores_apply (by omega), if_neg (by omega), if_pos rfl]
    · have hj' : j < 32 := by omega
      rw [fillStores_apply (by omega), fillStores_apply (by omega), if_pos hj, if_pos hj', strncpy_apply, strncpy_apply,
        if_pos hj, if_pos hj']
      exact if_congr (by omega) rfl rfl
  have hall : (fun j => if j < 33 then Mem.replay (fs.fillStores 33 i) m' j else 0) =
      fun j => if j < 33 then Mem.replay (fs.fillStores 32 i) m j else 0 := by
    funext j
    split
    · next hj => exact hname j hj
    · rfl
  rw [Dentry.ofMem, Dentry.ofMem, htype, hinode, htype', hinode', hall]

end Image

open Image in
/-- The lookup by number always stores a byte between the name and the type, where there is no field. What it leaves in
the fields is what the lookup by name leaves there, unless the name fills all 32 bytes of its field and the type
behind it does not begin with a zero byte. -/
theorem lookups_never_agree (fs : Image) (i : Nat) (hi : i < fs.numEntries)
    (hdistinct : ∀ i < fs.numEntries, ∀ k < fs.numEntries, fs.nameOf i = fs.nameOf k → i = k)
    (hfound : (fs.readDentryByName (fs.nameStr i).byte (fs.nameStr i).bound).isSome) (m m' : Mem) :
    ¬ fs.LookupsAgree i m m' ∧
      (fs.SameDentry i m m' ↔ (fs.nameOf i).length < 32 ∨ fs.word (fs.dentryAddr i + 32) % 256 = 0) := by
  have hindex : fs.readDentryByIndexStores i = some (fs.fillStores 33 i) := if_neg (by omega)
  refine ⟨fun hagree => ?_, ?_⟩
  · have hpad : (33, 0) ∈ fs.fillStores 33 i := List.mem_append_right _ (List.mem_append_left _ List.mem_cons_self)
    have hfield := hagree.2 _ (Or.inr hindex) _ hpad
    unfold Dentry.Field at hfield
    omega
  · rw [readDentryByName_stores fs _ _ m, Option.isSome_map] at hfound
    obtain ⟨stores, hstores⟩ := Option.isSome_iff_exists.mp hfound
    have hname := readDentryByNameStores_nameStr hdistinct hi hstores
    subst hname
    rw [← @byIndex_last fs i m']
    constructor
    · rintro ⟨byName, byIndex, _, hbyIndex, _, hlast⟩
      rw [hindex] at hbyIndex
      cases hbyIndex
      exact hlast
    · exact fun hlast => ⟨_, _, hstores, hindex, ofMem_byIndex hlast, hlast⟩

/-- The directory entry `a` of `oneName`. -/
theorem lookups_never_agree_a : ¬ oneName.LookupsAgree 0 (fun _ => 0) (fun _ => 0) ∧
    (oneName.SameDentry 0 (fun _ => 0) (fun _ => 0) ↔
      (oneName.nameOf 0).length < 32 ∨ oneName.word (oneName.dentryAddr 0 + 32) % 256 = 0) :=
  lookups_never_agree oneName 0 (by decide) (by decide) (by decide) _ _

/-- Entry `a` again: byte 33 of the `dentry_t` is stored to, which is no field of it. -/
theorem byIndex_stores_padding : oneName.readDentryByIndexStores 0 = some (oneName.fillStores 33 0) ∧
    (33, 0) ∈ oneName.fillStores 33 0 ∧ ¬ oneName.LookupsAgree 0 (fun _ => 0) (fun _ => 0) := by
  have hpad : (33, 0) ∈ oneName.fillStores 33 0 := List.mem_append_right _ (List.mem_append_left _ List.mem_cons_self)
  refine ⟨rfl, hpad, fun hagree => ?_⟩
  have hfield := hagree.2 _ (Or.inr rfl) _ hpad
  unfold Dentry.Field at hfield
  omega

end Boss
