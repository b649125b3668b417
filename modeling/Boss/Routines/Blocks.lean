import Boss.Lib.Assembly

/-!
# Blocks of memory

`memset`, `memcpy` and `memmove` of `lib.c` are inline assembly. The routines are given instruction by instruction, each
cut at its labels, and the registers are set as the operand lists of the `asm` statements say.

`memset` and `memcpy` go byte by byte up to an address that is a multiple of 4, then by words with a string
instruction, and byte by byte through the rest. Each part has a lemma that says what is in memory when the routine ends,
if it goes on from there: `memsetBottom_ends`, `memsetAligned_ends`, `memset_ends`, and the same for `memcpy`.

`memmove` chooses its direction from the order of the addresses. The bytes are always moved right (`memmove_ends`), but
the direction flag is left set by a move to a higher address.
-/

namespace Boss.Routines
open Lib Lib.Asm

/-! ### The routines -/

/-- The labels of `memset`. -/
inductive MemsetLabel
  | top | aligned | bottom | done
deriving DecidableEq

/-- `memset` from `.memset_bottom` on. -/
def memsetBottom : List (Instr MemsetLabel) :=
  [ .label .bottom,
    .op (.test .edx .edx),
    .jump .zero .done,
    .op (.storeb .edi),
    .op (.addImm 1 .edi),
    .op (.subImm 1 .edx),
    .jump .always .bottom,
    .label .done ]

/-- `memset` from `.memset_aligned` on. -/
def memsetAligned : List (Instr MemsetLabel) :=
  [ .label .aligned,
    .op (.movFromSeg .ds .edx),
    .op (.movToSeg .edx .es),
    .op (.mov .ecx .edx),
    .op (.shrImm 2 .ecx),
    .op (.andImm 0x3 .edx),
    .op .cld,
    .op (.rep (.stos 4)) ] ++ memsetBottom

/-- The assembly of `memset`. -/
def memset : List (Instr MemsetLabel) :=
  [ .label .top,
    .op (.test .ecx .ecx),
    .jump .zero .done,
    .op (.testImm 0x3 .edi),
    .jump .zero .aligned,
    .op (.storeb .edi),
    .op (.addImm 1 .edi),
    .op (.subImm 1 .ecx),
    .jump .always .top ] ++ memsetAligned

/-- The operand `c << 24 | c << 16 | c << 8 | c`, after `c &= 0xFF`. -/
def memsetWord (c : Int32) : UInt32 :=
  let c := c &&& 0xFF
  (c <<< 24 ||| c <<< 16 ||| c <<< 8 ||| c).toUInt32

/-- The operands of `memset(s, c, n)`. -/
def memsetCall (cpu : Cpu) (s : UInt32) (c : Int32) (n : UInt32) : Cpu :=
  { cpu with eax := memsetWord c, edi := s, ecx := n }

/-- The labels of `memcpy`. -/
inductive MemcpyLabel
  | top | aligned | bottom | done
deriving DecidableEq

/-- `memcpy` from `.memcpy_bottom` on. -/
def memcpyBottom : List (Instr MemcpyLabel) :=
  [ .label .bottom,
    .op (.test .edx .edx),
    .jump .zero .done,
    .op (.loadb .esi),
    .op (.storeb .edi),
    .op (.addImm 1 .edi),
    .op (.addImm 1 .esi),
    .op (.subImm 1 .edx),
    .jump .always .bottom,
    .label .done ]

/-- `memcpy` from `.memcpy_aligned` on. -/
def memcpyAligned : List (Instr MemcpyLabel) :=
  [ .label .aligned,
    .op (.movFromSeg .ds .edx),
    .op (.movToSeg .edx .es),
    .op (.mov .ecx .edx),
    .op (.shrImm 2 .ecx),
    .op (.andImm 0x3 .edx),
    .op .cld,
    .op (.rep (.movs 4)) ] ++ memcpyBottom

/-- The assembly of `memcpy`. -/
def memcpy : List (Instr MemcpyLabel) :=
  [ .label .top,
    .op (.test .ecx .ecx),
    .jump .zero .done,
    .op (.testImm 0x3 .edi),
    .jump .zero .aligned,
    .op (.loadb .esi),
    .op (.storeb .edi),
    .op (.addImm 1 .edi),
    .op (.addImm 1 .esi),
    .op (.subImm 1 .ecx),
    .jump .always .top ] ++ memcpyAligned

/-- The operands of `memcpy(dest, src, n)` and of `memmove(dest, src, n)`. -/
def copyCall (cpu : Cpu) (dest src n : UInt32) : Cpu := { cpu with edi := dest, esi := src, ecx := n }

/-- The label of `memmove`. -/
inductive MemmoveLabel
  | go
deriving DecidableEq

/-- The assembly of `memmove`. -/
def memmove : List (Instr MemmoveLabel) :=
  [ .op (.movFromSeg .ds .edx),
    .op (.movToSeg .edx .es),
    .op .cld,
    .op (.cmp .edi .esi),
    .jump .aboveEqual .go,
    .op (.lea (-1) .esi .ecx .esi),
    .op (.lea (-1) .edi .ecx .edi),
    .op .std,
    .label .go,
    .op (.rep (.movs 1)) ]

/-! ### Words and bytes of a block -/

section
variable {cpu : Cpu} {k : Nat}

/-- Counting a register down. -/
lemma toNat_sub_one {v : UInt32} (h : v.toNat = k + 1) : v ≠ 0 ∧ (v - 1).toNat = k := by
  have hne : v ≠ 0 := by
    rintro rfl
    exact absurd h (Nat.succ_ne_zero k).symm
  have hle : 1 ≤ v := UInt32.le_iff_toNat_le.mpr (by rw [h]; exact Nat.le_add_left 1 k)
  refine ⟨hne, ?_⟩
  rw [UInt32.toNat_sub_of_le _ _ hle, h]
  rfl

/-- An address inside of memory. -/
lemma toNat_ofNat {a : Nat} (h : a + (k + 1) ≤ 2 ^ 32) : (UInt32.ofNat a).toNat = a :=
  UInt32.toNat_ofNat_of_lt' (Nat.lt_of_lt_of_le (by omega) h)

/-- What the string instruction of `memset` and `memcpy` finds: the words of the block are counted in `ecx`, the bytes
behind them in `edx`. -/
structure WordPart (cpu c : Cpu) (k : Nat) : Prop where
  ecx : c.ecx.toNat = k / 4
  edx : c.edx.toNat = k % 4
  df : c.df = false
  eax : c.eax = cpu.eax
  esi : c.esi = cpu.esi
  edi : c.edi = cpu.edi
  mem : c.mem = cpu.mem

/-- `memset` and `memcpy` prepare their string instructions in the same way. -/
lemma aligned_ends {L : Type} [DecidableEq L] {P is : List (Instr L)} {Q : Cpu → Prop} {l : L} {i : StringOp}
    (hecx : cpu.ecx.toNat = k) (h : ∀ c, WordPart cpu c k → Ends P is Q (i.once^[k / 4] c)) :
    Ends P (.label l :: .op (.movFromSeg .ds .edx) :: .op (.movToSeg .edx .es) :: .op (.mov .ecx .edx) ::
      .op (.shrImm 2 .ecx) :: .op (.andImm 0x3 .edx) :: .op .cld :: .op (.rep i) :: is) Q cpu := by
  have hwords : (cpu.ecx >>> 2).toNat = k / 4 := by
    rw [UInt32.toNat_shiftRight, hecx]
    exact Nat.shiftRight_eq_div_pow k 2
  have hbytes : (cpu.ecx &&& 0x3).toNat = k % 4 := by
    rw [UInt32.toNat_and, hecx]
    exact Nat.and_two_pow_sub_one_eq_mod k 2
  refine .label (.op (.op (.op (.op (.op (.op (.op ?_)))))))
  dsimp only [Op.exec, Cpu.get, Cpu.set, Cpu.getSeg, Cpu.setSeg, Cpu.flags]
  rw [hwords]
  refine h _ ⟨?_, ?_, rfl, rfl, rfl, rfl, rfl⟩
  · exact hwords
  · exact hbytes

end

/-! ### memset -/

section
variable {cpu : Cpu} {a k : Nat} {b : UInt8} {v : UInt32} {c : Int32}

/-- The loop over the last bytes of `memset`. -/
lemma memsetBottom_ends (hedx : cpu.edx.toNat = k) (hedi : cpu.edi = UInt32.ofNat a) (hfit : a + k ≤ 2 ^ 32)
    (hal : cpu.eax.toUInt8 = b) :
    Ends memset memsetBottom (fun t => t.mem = cpu.mem.put a (List.replicate k b)) cpu := by
  induction k generalizing cpu a with
  | zero => exact .label (.jz (UInt32.toNat_inj.mp hedx) rfl (.label (.nil rfl)))
  | succ k ih =>
    obtain ⟨hne, hnext⟩ := toNat_sub_one hedx
    refine .label (.jz_fall hne (.op (.op (.op (.jump rfl rfl ?_)))))
    dsimp only [Op.exec, Cpu.get, Cpu.set, Cpu.flags]
    refine (ih (a := a + 1) ?_ ?_ (by omega) ?_).imp fun t ht => ht.trans ?_
    · exact hnext
    · exact (congrArg (· + 1) hedi).trans (UInt32.ofNat_add a 1).symm
    · exact hal
    · change Mem.put (Function.update cpu.mem cpu.edi.toNat cpu.eax.toUInt8) (a + 1) (List.replicate k b) = _
      rw [hedi, toNat_ofNat hfit, hal]
      rfl

/-- The lowest byte of a word of equal bytes. -/
lemma toUInt8_of_bytesOf {v : UInt32} (h : bytesOf v 4 = List.replicate 4 b) : v.toUInt8 = b :=
  (List.cons.inj h).1

/-- `memset` from an aligned address on. -/
lemma memsetAligned_ends (hecx : cpu.ecx.toNat = k) (hedi : cpu.edi = UInt32.ofNat a) (hfit : a + k ≤ 2 ^ 32)
    (heax : cpu.eax = v) (hword : bytesOf v 4 = List.replicate 4 b) :
    Ends memset memsetAligned (fun t => t.mem = cpu.mem.put a (List.replicate k b)) cpu := by
  have hsplit : 4 * (k / 4) + k % 4 = k := Nat.div_add_mod k 4
  refine aligned_ends hecx fun c hc => ?_
  have hunit : bytesOf c.eax 4 = List.replicate 4 b := by rw [hc.eax, heax, hword]
  have hfit' : a + 4 * (k / 4) ≤ 2 ^ 32 := by omega
  rw [once_stos hc.df (hc.edi.trans hedi) hfit' hunit]
  have hfit'' : a + 4 * (k / 4) + k % 4 ≤ 2 ^ 32 := by omega
  refine (memsetBottom_ends (b := b) ?_ rfl hfit'' ?_).imp fun t ht => ht.trans ?_
  · exact hc.edx
  · exact toUInt8_of_bytesOf hunit
  · dsimp only
    rw [hc.mem, Mem.put_replicate, hsplit]

/-- From any place of its first loop on, `memset` fills what is left of the block. -/
lemma memset_ends (hecx : cpu.ecx.toNat = k) (hedi : cpu.edi = UInt32.ofNat a) (hfit : a + k ≤ 2 ^ 32)
    (heax : cpu.eax = v) (hword : bytesOf v 4 = List.replicate 4 b) :
    Ends memset memset (fun t => t.mem = cpu.mem.put a (List.replicate k b)) cpu := by
  induction k generalizing cpu a with
  | zero => exact .label (.jz (UInt32.toNat_inj.mp hecx) rfl (.label (.nil rfl)))
  | succ k ih =>
    obtain ⟨hne, hnext⟩ := toNat_sub_one hecx
    refine .label (.jz_fall hne (.op ?_))
    by_cases halign : 0x3 &&& cpu.edi = 0
    · refine .jump (decide_eq_true halign) rfl ?_
      exact memsetAligned_ends hecx hedi hfit heax hword
    · refine .fall (decide_eq_false halign) (.op (.op (.op (.jump rfl rfl ?_))))
      dsimp only [Op.exec, Cpu.get, Cpu.set, Cpu.flags]
      refine (ih (a := a + 1) ?_ ?_ (by omega) ?_).imp fun t ht => ht.trans ?_
      · exact hnext
      · exact (congrArg (· + 1) hedi).trans (UInt32.ofNat_add a 1).symm
      · exact heax
      · change Mem.put (Function.update cpu.mem cpu.edi.toNat cpu.eax.toUInt8) (a + 1) (List.replicate k b) = _
        rw [hedi, toNat_ofNat hfit, heax, toUInt8_of_bytesOf hword]
        rfl

/-- The low byte of an `int`. -/
lemma and_low_byte : c &&& 0xFF = Int32.ofNat (c.toInt % 256).toNat &&& 0xFF := by
  have hmod : (c.toInt % 256).toNat = c.toBitVec.toNat % 256 := by
    have hcond := BitVec.toInt_eq_toNat_cond c.toBitVec
    change (c.toBitVec.toInt % 256).toNat = _
    split at hcond
    · omega
    · omega
  rw [hmod, ← Int32.toBitVec_inj, Int32.toBitVec_and, Int32.toBitVec_and, ← BitVec.toNat_inj, BitVec.toNat_and,
    BitVec.toNat_and]
  change c.toBitVec.toNat &&& (2 ^ 8 - 1) = c.toBitVec.toNat % 256 % 2 ^ 32 &&& (2 ^ 8 - 1)
  rw [Nat.and_two_pow_sub_one_eq_mod, Nat.and_two_pow_sub_one_eq_mod]
  omega

/-- The four bytes of the word are the value modulo 256. -/
lemma bytesOf_memsetWord : bytesOf (memsetWord c) 4 = List.replicate 4 (UInt8.ofInt c.toInt) := by
  have hall : ∀ n : Fin 256, bytesOf (memsetWord (Int32.ofNat n)) 4 = List.replicate 4 (UInt8.ofNat n) := by
    decide +kernel
  have hword : memsetWord c = memsetWord (Int32.ofNat (c.toInt % 256).toNat) := by
    rw [memsetWord, and_low_byte, memsetWord]
  have hlt : (c.toInt % 256).toNat < 256 := by omega
  rw [hword]
  exact hall ⟨(c.toInt % 256).toNat, hlt⟩

end

/-! ### memcpy -/

section
variable {cpu : Cpu} {d s k : Nat}

/-- The byte that `movb` brings into `al`. -/
lemma toUInt8_loadb (v : UInt32) (b : UInt8) : (v &&& 0xFFFFFF00 ||| b.toUInt32).toUInt8 = b := by
  rw [← UInt8.toNat_inj, UInt32.toNat_toUInt8, UInt32.toNat_or, UInt32.toNat_and, UInt8.toNat_toUInt32,
    Nat.or_mod_two_pow, Nat.and_mod_two_pow, Nat.mod_eq_of_lt b.toNat_lt]
  change v.toNat % 2 ^ 8 &&& 0 ||| b.toNat = b.toNat
  rw [Nat.and_zero, Nat.zero_or]

/-- A byte is copied before the rest of the block. -/
lemma put_byte {m : Mem} (hdir : d ≤ s ∨ s + (k + 1) ≤ d) :
    Mem.put (Function.update m d (m s)) (d + 1) (Mem.bytes (Function.update m d (m s)) (s + 1) k) =
      m.put d (m.bytes s (k + 1)) := by
  rw [Nat.add_comm k] at hdir ⊢
  exact Mem.put_bytes hdir

/-- The loop over the last bytes of `memcpy`. -/
lemma memcpyBottom_ends (hedx : cpu.edx.toNat = k) (hedi : cpu.edi = UInt32.ofNat d) (hesi : cpu.esi = UInt32.ofNat s)
    (hd : d + k ≤ 2 ^ 32) (hs : s + k ≤ 2 ^ 32) (hdir : d + k ≤ s ∨ s + k ≤ d) :
    Ends memcpy memcpyBottom (fun t => t.mem = cpu.mem.put d (cpu.mem.bytes s k)) cpu := by
  induction k generalizing cpu d s with
  | zero => exact .label (.jz (UInt32.toNat_inj.mp hedx) rfl (.label (.nil rfl)))
  | succ k ih =>
    obtain ⟨hne, hnext⟩ := toNat_sub_one hedx
    refine .label (.jz_fall hne (.op (.op (.op (.op (.op (.jump rfl rfl ?_)))))))
    dsimp only [Op.exec, Cpu.get, Cpu.set, Cpu.flags]
    rw [toUInt8_loadb, hedi, hesi, toNat_ofNat hd, toNat_ofNat hs]
    refine (ih (d := d + 1) (s := s + 1) ?_ ?_ ?_ (by omega) (by omega) (by omega)).imp fun t ht => ht.trans ?_
    · exact hnext
    · exact (UInt32.ofNat_add d 1).symm
    · exact (UInt32.ofNat_add s 1).symm
    · exact put_byte (by omega)

/-- `memcpy` from an aligned address on. -/
lemma memcpyAligned_ends (hecx : cpu.ecx.toNat = k) (hedi : cpu.edi = UInt32.ofNat d) (hesi : cpu.esi = UInt32.ofNat s)
    (hd : d + k ≤ 2 ^ 32) (hs : s + k ≤ 2 ^ 32) (hdir : d + k ≤ s ∨ s + k ≤ d) :
    Ends memcpy memcpyAligned (fun t => t.mem = cpu.mem.put d (cpu.mem.bytes s k)) cpu := by
  have hsplit : 4 * (k / 4) + k % 4 = k := Nat.div_add_mod k 4
  refine aligned_ends hecx fun c hc => ?_
  have hwords : d ≤ s ∨ s + 4 * (k / 4) ≤ d := by omega
  rw [once_movs_forward hc.df (hc.edi.trans hedi) (hc.esi.trans hesi) (by omega) (by omega) hwords]
  refine (memcpyBottom_ends (d := d + 4 * (k / 4)) (s := s + 4 * (k / 4)) (k := k % 4) ?_ rfl rfl (by omega) (by omega)
    (by omega)).imp fun t ht => ht.trans ?_
  · exact hc.edx
  · dsimp only
    rw [hc.mem, Mem.put_bytes (by omega), hsplit]

/-- From any place of its first loop on, `memcpy` copies what is left of the block. -/
lemma memcpy_ends (hecx : cpu.ecx.toNat = k) (hedi : cpu.edi = UInt32.ofNat d) (hesi : cpu.esi = UInt32.ofNat s)
    (hd : d + k ≤ 2 ^ 32) (hs : s + k ≤ 2 ^ 32) (hdir : d + k ≤ s ∨ s + k ≤ d) :
    Ends memcpy memcpy (fun t => t.mem = cpu.mem.put d (cpu.mem.bytes s k)) cpu := by
  induction k generalizing cpu d s with
  | zero => exact .label (.jz (UInt32.toNat_inj.mp hecx) rfl (.label (.nil rfl)))
  | succ k ih =>
    obtain ⟨hne, hnext⟩ := toNat_sub_one hecx
    refine .label (.jz_fall hne (.op ?_))
    by_cases halign : 0x3 &&& cpu.edi = 0
    · refine .jump (decide_eq_true halign) rfl ?_
      exact memcpyAligned_ends hecx hedi hesi hd hs hdir
    · refine .fall (decide_eq_false halign) (.op (.op (.op (.op (.op (.jump rfl rfl ?_))))))
      dsimp only [Op.exec, Cpu.get, Cpu.set, Cpu.flags]
      rw [toUInt8_loadb, hedi, hesi, toNat_ofNat hd, toNat_ofNat hs]
      refine (ih (d := d + 1) (s := s + 1) ?_ ?_ ?_ (by omega) (by omega) (by omega)).imp fun t ht => ht.trans ?_
      · exact hnext
      · exact (UInt32.ofNat_add d 1).symm
      · exact (UInt32.ofNat_add s 1).symm
      · exact put_byte (by omega)

end

/-! ### memmove -/

section
variable {cpu c : Cpu} {n : Nat}

/-- `rep movsb` upwards, to a lower address. -/
lemma movsb_up (hdf : c.df = false) (hecx : c.ecx.toNat = n) (hd : c.edi.toNat + n ≤ 2 ^ 32)
    (hs : c.esi.toNat + n ≤ 2 ^ 32) (hle : c.edi.toNat ≤ c.esi.toNat) :
    ((Op.rep (.movs 1)).exec c).mem = c.mem.put c.edi.toNat (c.mem.bytes c.esi.toNat n) ∧
      ((Op.rep (.movs 1)).exec c).df = false := by
  have hrep := once_movs_forward (w := 1) (n := n) hdf UInt32.ofNat_toNat.symm UInt32.ofNat_toNat.symm (by omega)
    (by omega) (Or.inl hle)
  rw [Op.exec, hecx, hrep, Nat.one_mul]
  exact ⟨rfl, hdf⟩

/-- `rep movsb` downwards from the last bytes on, to a higher address. -/
lemma movsb_down {d s : UInt32} (hdf : c.df = true) (hecx : c.ecx.toNat = n) (hedi : c.edi = -1 + d + c.ecx)
    (hesi : c.esi = -1 + s + c.ecx) (hd : d.toNat + n ≤ 2 ^ 32) (hs : s.toNat + n ≤ 2 ^ 32) (hle : s.toNat ≤ d.toNat) :
    ((Op.rep (.movs 1)).exec c).mem = c.mem.put d.toNat (c.mem.bytes s.toNat n) ∧
      ((Op.rep (.movs 1)).exec c).df = true := by
  have hlast : ∀ r : UInt32, -1 + r + c.ecx + UInt32.ofNat 1 = UInt32.ofNat (r.toNat + 1 * n) := by
    intro r
    rw [Nat.one_mul, UInt32.ofNat_add, ← hecx, UInt32.ofNat_toNat, UInt32.ofNat_toNat]
    calc -1 + r + c.ecx + 1
      _ = -1 + (r + c.ecx + 1) := by rw [add_assoc, add_assoc, add_assoc]
      _ = r + c.ecx := by rw [add_comm (r + c.ecx), neg_add_cancel_left]
  obtain ⟨edi, esi, ecx, hrep⟩ := once_movs_backward (w := 1) (n := n) hdf (by rw [hedi]; exact hlast d)
    (by rw [hesi]; exact hlast s) (by omega) (by omega) hle
  rw [Op.exec, hecx, hrep, Nat.one_mul]
  exact ⟨rfl, hdf⟩

/-- The bytes are moved right in both directions; a move to a higher address leaves the direction flag set. -/
lemma memmove_ends (hd : cpu.edi.toNat + cpu.ecx.toNat ≤ 2 ^ 32) (hs : cpu.esi.toNat + cpu.ecx.toNat ≤ 2 ^ 32) :
    Ends memmove memmove (fun t => t.mem = cpu.mem.put cpu.edi.toNat (cpu.mem.bytes cpu.esi.toNat cpu.ecx.toNat) ∧
      t.df = decide (cpu.esi < cpu.edi)) cpu := by
  refine .op (.op (.op (.op ?_)))
  by_cases hlt : cpu.esi < cpu.edi
  · refine .fall (congrArg not (decide_eq_true hlt)) (.op (.op (.op (.label ?_))))
    dsimp only [Op.exec, Cpu.get, Cpu.set, Cpu.getSeg, Cpu.setSeg, Cpu.flags]
    refine .op (.nil ?_)
    rw [decide_eq_true hlt]
    exact movsb_down rfl rfl rfl rfl hd hs (UInt32.lt_iff_toNat_lt.mp hlt).le
  · refine .jump (congrArg not (decide_eq_false hlt)) rfl (.label ?_)
    dsimp only [Op.exec, Cpu.get, Cpu.set, Cpu.getSeg, Cpu.setSeg, Cpu.flags]
    refine .op (.nil ?_)
    rw [decide_eq_false hlt]
    exact movsb_up rfl rfl hd hs (UInt32.le_iff_toNat_le.mp (UInt32.not_lt.mp hlt))

end

/-! ### The calls -/

/-- The `n` bytes from `a` on are those of `f`, and all others are as they were. -/
def Sets (m m' : Mem) (a n : Nat) (f : Nat → UInt8) : Prop :=
  ∀ i, m' i = if a ≤ i ∧ i < a + n then f (i - a) else m i

/-- The stores of `memset` as a statement about every address. -/
lemma sets_replicate {m : Mem} {a n : Nat} {b : UInt8} : Sets m (m.put a (List.replicate n b)) a n fun _ => b := by
  intro i
  rw [Mem.put_apply, List.length_replicate]
  refine if_ctx_congr Iff.rfl (fun hi => ?_) fun _ => rfl
  rw [List.getD_eq_getElem _ _ (by rw [List.length_replicate]; omega), List.getElem_replicate]

/-- The stores of a copy as a statement about every address. -/
lemma sets_bytes {m : Mem} {d s n : Nat} : Sets m (m.put d (m.bytes s n)) d n fun j => m (s + j) := by
  intro i
  rw [Mem.put_apply, Mem.length_bytes]
  refine if_ctx_congr Iff.rfl (fun hi => ?_) fun _ => rfl
  rw [List.getD_eq_getElem _ _ (by rw [Mem.length_bytes]; omega), Mem.getElem_bytes]

/-- The statement about every address leaves no choice. -/
lemma Sets.unique {m m' m'' : Mem} {a n : Nat} {f : Nat → UInt8} (h : Sets m m' a n f) (h' : Sets m m'' a n f) :
    m' = m'' := funext fun i => (h i).trans (h' i).symm

section
variable {cpu : Cpu} {dest src n : UInt32}

/-- `memset` stores its byte everywhere in the block. -/
lemma memset_puts {s : UInt32} {c : Int32} (hfit : s.toNat + n.toNat ≤ 2 ^ 32) :
    Ends memset memset (fun t => t.mem = cpu.mem.put s.toNat (List.replicate n.toNat (UInt8.ofInt c.toInt)))
      (memsetCall cpu s c n) :=
  @memset_ends (memsetCall cpu s c n) s.toNat n.toNat _ (memsetWord c) rfl UInt32.ofNat_toNat.symm hfit rfl
    bytesOf_memsetWord

/-- `memcpy` copies a block onto one beside it. -/
lemma memcpy_puts (hd : dest.toNat + n.toNat ≤ 2 ^ 32) (hs : src.toNat + n.toNat ≤ 2 ^ 32)
    (hdir : dest.toNat + n.toNat ≤ src.toNat ∨ src.toNat + n.toNat ≤ dest.toNat) :
    Ends memcpy memcpy (fun t => t.mem = cpu.mem.put dest.toNat (cpu.mem.bytes src.toNat n.toNat))
      (copyCall cpu dest src n) :=
  @memcpy_ends (copyCall cpu dest src n) dest.toNat src.toNat n.toNat rfl UInt32.ofNat_toNat.symm
    UInt32.ofNat_toNat.symm hd hs hdir

/-- `memcpy` does what the loop over bytes does with which the rest of the kernel is modelled. -/
theorem memcpy_eq_copy (hd : dest.toNat + n.toNat ≤ 2 ^ 32) (hs : src.toNat + n.toNat ≤ 2 ^ 32)
    (hdir : dest.toNat + n.toNat ≤ src.toNat ∨ src.toNat + n.toNat ≤ dest.toNat) :
    Ends memcpy memcpy (fun t => t.mem = cpu.mem.copy dest.toNat src.toNat n.toNat) (copyCall cpu dest src n) := by
  refine (memcpy_puts hd hs hdir).imp fun t ht => ht.trans ?_
  exact sets_bytes.unique fun i => Mem.copy_apply hdir

end

/-- `memset` and `memcpy` end and do what the loops over bytes do, for every alignment and length: blocks that do not
wrap are filled, and copied if they do not overlap. -/
theorem blocks_by_words (cpu : Cpu) :
    (∀ (s : UInt32) (c : Int32) (n : UInt32), s.toNat + n.toNat ≤ 2 ^ 32 →
      Ends memset memset (fun t => Sets cpu.mem t.mem s.toNat n.toNat fun _ => UInt8.ofInt c.toInt)
        (memsetCall cpu s c n)) ∧
    ∀ dest src n : UInt32, dest.toNat + n.toNat ≤ 2 ^ 32 → src.toNat + n.toNat ≤ 2 ^ 32 →
      (dest.toNat + n.toNat ≤ src.toNat ∨ src.toNat + n.toNat ≤ dest.toNat) →
      Ends memcpy memcpy (fun t => Sets cpu.mem t.mem dest.toNat n.toNat fun j => cpu.mem (src.toNat + j))
        (copyCall cpu dest src n) := by
  constructor
  · intro s c n hfit
    refine (memset_puts hfit).imp fun t ht => ?_
    rw [ht]
    exact sets_replicate
  · intro dest src n hd hs hdir
    refine (memcpy_puts hd hs hdir).imp fun t ht => ?_
    rw [ht]
    exact sets_bytes

/-- A processor in the kernel, with all memory zero. -/
def idleCpu : Cpu := ⟨0, 0, 0, 0, 0, 0x18, 0x18, false, false, false, fun _ => 0⟩

/-- A block of 10 bytes from an odd address on. -/
theorem blocks_by_words_ten :
    Ends memset memset (fun t => Sets idleCpu.mem t.mem 3 10 fun _ => UInt8.ofInt (-1)) (memsetCall idleCpu 3 (-1) 10) ∧
    Ends memcpy memcpy (fun t => Sets idleCpu.mem t.mem 3 10 fun j => idleCpu.mem (101 + j))
      (copyCall idleCpu 3 101 10) :=
  ⟨(blocks_by_words idleCpu).1 3 (-1) 10 (by decide),
    (blocks_by_words idleCpu).2 3 101 10 (by decide) (by decide) (by decide)⟩

/-- The bytes are moved, and the direction flag is clear on return. -/
def MovesClean (cpu : Cpu) (dest src n : UInt32) : Prop :=
  Ends memmove memmove
    (fun t => Sets cpu.mem t.mem dest.toNat n.toNat (fun j => cpu.mem (src.toNat + j)) ∧ t.df = false)
    (copyCall cpu dest src n)

/-- `memmove` is right, with the direction flag, exactly when it moves to a lower address or to the same. -/
theorem memmove_clean_iff (cpu : Cpu) (dest src n : UInt32) (hd : dest.toNat + n.toNat ≤ 2 ^ 32)
    (hs : src.toNat + n.toNat ≤ 2 ^ 32) : MovesClean cpu dest src n ↔ dest ≤ src := by
  have hends := @memmove_ends (copyCall cpu dest src n) hd hs
  constructor
  · intro h
    obtain ⟨t, ⟨-, hclear⟩, -, hdf⟩ := (h.and hends).exists_of
    rw [hclear] at hdf
    exact UInt32.not_lt.mp (of_decide_eq_false hdf.symm)
  · intro hle
    refine hends.imp fun t ht => ⟨?_, ?_⟩
    · rw [ht.1]
      exact sets_bytes
    · rw [ht.2]
      exact decide_eq_false (UInt32.not_lt.mpr hle)

/-- A move downwards over an overlap. -/
theorem memmove_clean_iff_down : MovesClean idleCpu 1 2 5 :=
  (memmove_clean_iff idleCpu 1 2 5 (by decide) (by decide)).mpr (by decide)

/-- One byte is moved up by one: the direction flag is set on return. -/
theorem memmove_leaves_flag :
    (run memmove 10 memmove (copyCall idleCpu 1 0 1)).map (·.df) = some true ∧ ¬ MovesClean idleCpu 1 0 1 := by
  refine ⟨rfl, fun h => ?_⟩
  have hset : Ends memmove memmove (fun t => t.df = true) (copyCall idleCpu 1 0 1) := ⟨10, _, rfl, rfl⟩
  obtain ⟨t, ⟨-, hclear⟩, hdf⟩ := (h.and hset).exists_of
  rw [hclear] at hdf
  cases hdf

end Boss.Routines
