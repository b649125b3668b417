import Boss.Lib.Fields
import Mathlib.Data.UInt
import Mathlib.Logic.Function.Basic

/-!
# Descriptor tables

The processor finds segments and interrupt handlers through descriptors of eight bytes, in which base addresses, limits
and offsets are cut into pieces. `x86_desc.h` lays them out as bit fields; `SET_LDT_PARAMS`, `SET_TSS_PARAMS` and
`SET_IDT_ENTRY` cut the values up, and the processor puts them together again.

* `system_descriptors_decode`: the descriptors of the TSS and of the LDT give back the base and the limit that `entry`
  put into them.
* `gates_decode`: after `initialize_idt` every vector has the gate it should have: exceptions and system calls leave the
  interrupt flag alone, interrupts turn it off, and a program can enter the kernel by `int` through vector 128 only.
-/

namespace Boss
open Lib.Fields

/-! ### Segments -/

/-- `seg_desc_t` -/
structure SegDesc where
  segLim15_00 : Nat
  base15_00 : Nat
  base23_16 : Nat
  type : Nat
  sys : Nat
  dpl : Nat
  present : Nat
  segLim19_16 : Nat
  avail : Nat
  reserved : Nat
  opsize : Nat
  granularity : Nat
  base31_24 : Nat

/-- The descriptor as a number of 64 bits. -/
def SegDesc.val (d : SegDesc) : Nat :=
  pack [(16, d.segLim15_00), (16, d.base15_00), (8, d.base23_16), (4, d.type), (1, d.sys), (2, d.dpl), (1, d.present),
    (4, d.segLim19_16), (1, d.avail), (1, d.reserved), (1, d.opsize), (1, d.granularity), (8, d.base31_24)]

/-- A segment as the processor sees it. -/
structure Segment where
  base : Nat
  limit : Nat
  type : Nat
  /-- 0 for the descriptors of the system, 1 for code and data. -/
  s : Nat
  dpl : Nat
  present : Nat
  /-- 32-bit code or stack. -/
  db : Nat
  /-- The limit counts pages. -/
  granularity : Nat
  deriving DecidableEq

/-- What the processor reads out of a descriptor. -/
def Segment.decode (x : Nat) : Segment where
  base := bits x 16 24 + 2 ^ 24 * bits x 56 8
  limit := bits x 0 16 + 2 ^ 16 * bits x 48 4
  type := bits x 40 4
  s := bits x 44 1
  dpl := bits x 45 2
  present := bits x 47 1
  db := bits x 54 1
  granularity := bits x 55 1

/-- `SET_LDT_PARAMS` and `SET_TSS_PARAMS`, which are the same. -/
def SegDesc.setParams (str : SegDesc) (addr lim : UInt32) : SegDesc :=
  { str with
    base31_24 := ((addr &&& 0xFF000000) >>> 24).toNat
    base23_16 := ((addr &&& 0x00FF0000) >>> 16).toNat
    base15_00 := (addr &&& 0x0000FFFF).toNat
    segLim19_16 := ((lim &&& 0x000F0000) >>> 16).toNat
    segLim15_00 := (lim &&& 0x0000FFFF).toNat }

/-- A piece of a word, taken out with a mask and a shift. -/
lemma toNat_piece {a mask amount : UInt32} {lo w : Nat} (hmask : mask.toNat = (2 ^ w - 1) <<< lo)
    (hlo : amount.toNat % 32 = lo) : ((a &&& mask) >>> amount).toNat = bits a.toNat lo w := by
  rw [UInt32.toNat_shiftRight, UInt32.toNat_and, hmask, hlo, bits_of_mask]

/-- Masking the lowest bits. -/
lemma toNat_low {a mask : UInt32} {w : Nat} (hmask : mask.toNat = 2 ^ w - 1) :
    (a &&& mask).toNat = bits a.toNat 0 w := by
  rw [UInt32.toNat_and, hmask, Nat.and_two_pow_sub_one_eq_mod, bits, Nat.pow_zero, Nat.div_one]

/-- The processor finds every field of the descriptor. -/
lemma SegDesc.decode_val (d : SegDesc) : Segment.decode d.val =
    { base := d.base15_00 % 2 ^ 16 + 2 ^ 16 * (d.base23_16 % 2 ^ 8) + 2 ^ 24 * (d.base31_24 % 2 ^ 8)
      limit := d.segLim15_00 % 2 ^ 16 + 2 ^ 16 * (d.segLim19_16 % 2 ^ 4)
      type := d.type % 2 ^ 4, s := d.sys % 2 ^ 1, dpl := d.dpl % 2 ^ 2, present := d.present % 2 ^ 1
      db := d.opsize % 2 ^ 1, granularity := d.granularity % 2 ^ 1 } := by
  have hbase : bits d.val 16 24 = bits d.val 16 16 + 2 ^ 16 * bits d.val 32 8 := bits_add _ 16 16 8
  rw [Segment.decode, hbase]
  simp only [SegDesc.val, Nat.reduceLeDiff, Nat.reduceSub, bits_pack_tail, bits_pack_head]

/-- A segment descriptor gives back the base and the limit that were put into it, and the rest as it was. -/
lemma setParams_decode (str : SegDesc) (addr lim : UInt32) (hlim : lim.toNat < 2 ^ 20) :
    Segment.decode (str.setParams addr lim).val =
      { Segment.decode str.val with base := addr.toNat, limit := lim.toNat } := by
  have hbase : addr.toNat = bits addr.toNat 0 16 + 2 ^ 16 * bits addr.toNat 16 8 + 2 ^ 24 * bits addr.toNat 24 8 := by
    have h24 : bits addr.toNat 0 24 = bits addr.toNat 0 16 + 2 ^ 16 * bits addr.toNat 16 8 := bits_add _ 0 16 8
    have h32 : bits addr.toNat 0 32 = bits addr.toNat 0 24 + 2 ^ 24 * bits addr.toNat 24 8 := bits_add _ 0 24 8
    rw [← h24, ← h32, bits_zero addr.toNat_lt]
  have hlimit : lim.toNat = bits lim.toNat 0 16 + 2 ^ 16 * bits lim.toNat 16 4 := by
    have h20 : bits lim.toNat 0 20 = bits lim.toNat 0 16 + 2 ^ 16 * bits lim.toNat 16 4 := bits_add _ 0 16 4
    rw [← h20, bits_zero hlim]
  have h1 : ((addr &&& 0xFF000000) >>> 24).toNat = bits addr.toNat 24 8 := toNat_piece rfl rfl
  have h2 : ((addr &&& 0x00FF0000) >>> 16).toNat = bits addr.toNat 16 8 := toNat_piece rfl rfl
  have h3 : (addr &&& 0x0000FFFF).toNat = bits addr.toNat 0 16 := toNat_low rfl
  have h4 : ((lim &&& 0x000F0000) >>> 16).toNat = bits lim.toNat 16 4 := toNat_piece rfl rfl
  have h5 : (lim &&& 0x0000FFFF).toNat = bits lim.toNat 0 16 := toNat_low rfl
  rw [SegDesc.decode_val, SegDesc.decode_val]
  simp only [SegDesc.setParams, h1, h2, h3, h4, h5, Nat.mod_eq_of_lt bits_lt, ← hbase, ← hlimit]

/-- The descriptor of the TSS in `entry`, before `SET_TSS_PARAMS`. It is a local variable that is not initialised. -/
def theTssDesc (stale : SegDesc) : SegDesc :=
  { stale with
    granularity := 0, opsize := 0, reserved := 0, avail := 0, segLim19_16 := 104 &&& 0x000F0000, present := 1, dpl := 0
    sys := 0, type := 9, segLim15_00 := 104 &&& 0x0000FFFF }

/-- The descriptor of the LDT in `entry`, before `SET_LDT_PARAMS`. -/
def theLdtDesc (stale : SegDesc) : SegDesc :=
  { stale with granularity := 0, opsize := 1, reserved := 0, avail := 0, present := 1, dpl := 0, sys := 0, type := 2 }

/-- Wherever the TSS and the LDT are and however large, the processor finds them there: present, of the types 9 and 2
and for the kernel, whatever was on the stack of `entry`. -/
theorem system_descriptors_decode (stale : SegDesc) (addr lim : UInt32) (hlim : lim.toNat < 2 ^ 20) :
    Segment.decode ((theTssDesc stale).setParams addr lim).val = ⟨addr.toNat, lim.toNat, 9, 0, 0, 1, 0, 0⟩ ∧
      Segment.decode ((theLdtDesc stale).setParams addr lim).val = ⟨addr.toNat, lim.toNat, 2, 0, 0, 1, 1, 0⟩ := by
  rw [setParams_decode _ _ _ hlim, setParams_decode _ _ _ hlim, SegDesc.decode_val, SegDesc.decode_val]
  exact ⟨rfl, rfl⟩

/-- A TSS of 104 bytes. -/
theorem system_descriptors_decode_tss :
    Segment.decode ((theTssDesc ⟨1, 2, 3, 4, 5, 6, 7, 8, 9, 10, 11, 12, 13⟩).setParams 0x0040A020 103).val =
      ⟨0x0040A020, 103, 9, 0, 0, 1, 0, 0⟩ :=
  (system_descriptors_decode _ _ _ (by decide)).1

/-! ### Gates -/

/-- `idt_desc_t` -/
structure IdtDesc where
  offset15_00 : Nat
  segSelector : Nat
  reserved4 : Nat
  reserved3 : Nat
  reserved2 : Nat
  reserved1 : Nat
  size : Nat
  reserved0 : Nat
  dpl : Nat
  present : Nat
  offset31_16 : Nat

/-- The descriptor as a number of 64 bits. -/
def IdtDesc.val (d : IdtDesc) : Nat :=
  pack [(16, d.offset15_00), (16, d.segSelector), (8, d.reserved4), (1, d.reserved3), (1, d.reserved2),
    (1, d.reserved1), (1, d.size), (1, d.reserved0), (2, d.dpl), (1, d.present), (16, d.offset31_16)]

/-- The entries of the table before `initialize_idt`, `.quad 0`. -/
def IdtDesc.zero : IdtDesc := ⟨0, 0, 0, 0, 0, 0, 0, 0, 0, 0, 0⟩

/-- A gate as the processor sees it. -/
structure Gate where
  offset : Nat
  selector : Nat
  /-- 14 for interrupt gates, which turn the interrupt flag off, and 15 for trap gates. -/
  type : Nat
  s : Nat
  dpl : Nat
  present : Nat
  deriving DecidableEq

/-- What the processor reads out of a descriptor. -/
def Gate.decode (x : Nat) : Gate where
  offset := bits x 0 16 + 2 ^ 16 * bits x 48 16
  selector := bits x 16 16
  type := bits x 40 4
  s := bits x 44 1
  dpl := bits x 45 2
  present := bits x 47 1

/-- What the processor reads out of a gate, field by field. -/
lemma IdtDesc.decode_val (d : IdtDesc) : Gate.decode d.val =
    { offset := d.offset15_00 % 2 ^ 16 + 2 ^ 16 * (d.offset31_16 % 2 ^ 16), selector := d.segSelector % 2 ^ 16
      type := d.reserved3 % 2 + 2 * (d.reserved2 % 2) + 4 * (d.reserved1 % 2) + 8 * (d.size % 2)
      s := d.reserved0 % 2, dpl := d.dpl % 4, present := d.present % 2 } := by
  have h2 : bits d.val 40 2 = bits d.val 40 1 + 2 ^ 1 * bits d.val 41 1 := bits_add _ 40 1 1
  have h3 : bits d.val 40 3 = bits d.val 40 2 + 2 ^ 2 * bits d.val 42 1 := bits_add _ 40 2 1
  have h4 : bits d.val 40 4 = bits d.val 40 3 + 2 ^ 3 * bits d.val 43 1 := bits_add _ 40 3 1
  rw [Gate.decode, h4, h3, h2]
  simp only [IdtDesc.val, Nat.reduceLeDiff, Nat.reduceSub, bits_pack_tail, bits_pack_head, Nat.reducePow]

/-- The functions that the gates lead to. -/
inductive EntryPoint
  | deHandler | dbHandler | nmiHandler | bpHandler | ofHandler | brHandler | udHandler | nmHandler | dfHandler
  | coSegmentOverrunHandler | tsHandler | npHandler | ssHandler | gpHandler | pfHandler | mfHandler | acHandler
  | mcHandler | xfHandler | genericHandler | pitIrqHandler | keyIrqHandler | rtcIrqHandler | systemcallLinkage

/-- `SET_IDT_ENTRY` -/
def IdtDesc.setEntry (str : IdtDesc) (handler : UInt32) : IdtDesc :=
  { str with
    offset31_16 := ((handler &&& 0xFFFF0000) >>> 16).toNat
    offset15_00 := (handler &&& 0xFFFF).toNat }

/-- The entries that are set one by one. -/
def idtEntries : List (Nat × EntryPoint) :=
  [(0, .deHandler), (1, .dbHandler), (2, .nmiHandler), (3, .bpHandler), (4, .ofHandler), (5, .brHandler),
    (6, .udHandler), (7, .nmHandler), (8, .dfHandler), (9, .coSegmentOverrunHandler), (10, .tsHandler),
    (11, .npHandler), (12, .ssHandler), (13, .gpHandler), (14, .pfHandler), (16, .mfHandler), (17, .acHandler),
    (18, .mcHandler), (19, .xfHandler), (32, .pitIrqHandler), (33, .keyIrqHandler), (40, .rtcIrqHandler),
    (128, .systemcallLinkage)]

/-- The bits of a gate, as `initialize_idt` sets them: `trap` for `reserved3`. -/
def IdtDesc.setBits (str : IdtDesc) (trap dpl : Nat) : IdtDesc :=
  { str with
    present := 1, segSelector := 0x10, dpl, reserved4 := 0, reserved3 := trap, reserved2 := 1, reserved1 := 1
    size := 1, reserved0 := 0 }

/-- The two loops of `initialize_idt`: exceptions, and interrupts. -/
def idtLoops (addr : EntryPoint → UInt32) (idt : Nat → IdtDesc) : Nat → IdtDesc :=
  let idt := (List.range' 0 32).foldl
    (fun idt i => Function.update idt i (((idt i).setBits 1 0).setEntry (addr .genericHandler))) idt
  (List.range' 32 224).foldl (fun idt i => Function.update idt i ((idt i).setBits 0 0)) idt

/-- `initialize_idt`, with the functions at the addresses `addr`. -/
def initializeIdt (addr : EntryPoint → UInt32) (idt : Nat → IdtDesc) : Nat → IdtDesc :=
  let idt := idtLoops addr idt
  let idt := idtEntries.foldl (fun idt e => Function.update idt e.1 ((idt e.1).setEntry (addr e.2))) idt
  Function.update idt 128 ((idt 128).setBits 1 3)

/-- The handler of a vector: exceptions that are not named have the generic one, the others none. -/
def handlerOf (v : Nat) : Option EntryPoint :=
  match idtEntries.lookup v with
  | some handler => some handler
  | none => if v < 32 then some .genericHandler else none

/-- The gate of a vector as it should be. -/
def gateOf (addr : EntryPoint → UInt32) (v : Nat) : Gate where
  offset := match handlerOf v with
    | some handler => (addr handler).toNat
    | none => 0
  selector := 0x10
  type := if v < 32 ∨ v = 128 then 15 else 14
  s := 0
  dpl := if v = 128 then 3 else 0
  present := 1

/-- `int v` at privilege level `cpl`: where the processor goes on, and whether the interrupt flag stays as it is. A gate
that the level may not use is a general protection fault. -/
def softInt (idt : Nat → IdtDesc) (cpl v : Nat) : Option (Nat × Bool) :=
  let gate := Gate.decode (idt v).val
  if gate.present = 1 ∧ cpl ≤ gate.dpl then some (gate.offset, gate.type = 15) else none

section
variable {α β : Type} {f : Nat → α} {g : Nat → α → α} {v : Nat}

/-- A loop that changes one entry after the other. -/
lemma foldl_update_range (a n : Nat) :
    (List.range' a n).foldl (fun f i => Function.update f i (g i (f i))) f v =
      if a ≤ v ∧ v < a + n then g v (f v) else f v := by
  induction n generalizing f a with
  | zero => rw [if_neg (by omega)]; rfl
  | succ n ih =>
    rw [List.range'_succ, List.foldl_cons, ih]
    by_cases hv : v = a
    · subst hv
      rw [if_neg (by omega), if_pos (by omega), Function.update_self]
    · rw [Function.update_of_ne hv]
      exact if_congr (by omega) rfl rfl

/-- A list of changes to different entries. -/
lemma foldl_update_entries {l : List (Nat × β)} {h : β → α → α} (hl : (l.map Prod.fst).Nodup) :
    l.foldl (fun f e => Function.update f e.1 (h e.2 (f e.1))) f v =
      match l.lookup v with
      | some b => h b (f v)
      | none => f v := by
  induction l generalizing f with
  | nil => rfl
  | cons e l ih =>
    obtain ⟨i, b⟩ := e
    rw [List.map_cons, List.nodup_cons] at hl
    rw [List.foldl_cons, ih hl.2]
    by_cases hv : v = i
    · subst hv
      have hnone : l.lookup v = none := by
        refine List.lookup_eq_none_iff.mpr fun e he => ?_
        rw [bne_iff_ne]
        rintro rfl
        exact hl.1 (show e.1 ∈ l.map Prod.fst from List.mem_map_of_mem he)
      rw [hnone, List.lookup_cons_self]
      exact Function.update_self ..
    · rw [List.lookup_cons, beq_false_of_ne hv, Function.update_of_ne hv]

end

/-- An entry point is made of the pieces that `SET_IDT_ENTRY` cuts it into. -/
lemma setEntry_decode (str : IdtDesc) (handler : UInt32) :
    Gate.decode (str.setEntry handler).val = { Gate.decode str.val with offset := handler.toNat } := by
  have hoffset : handler.toNat = bits handler.toNat 0 16 + 2 ^ 16 * bits handler.toNat 16 16 := by
    have h32 : bits handler.toNat 0 32 = bits handler.toNat 0 16 + 2 ^ 16 * bits handler.toNat 16 16 :=
      bits_add _ 0 16 16
    rw [← h32, bits_zero handler.toNat_lt]
  have hhigh : ((handler &&& 0xFFFF0000) >>> 16).toNat = bits handler.toNat 16 16 := toNat_piece rfl rfl
  have hlow : (handler &&& 0xFFFF).toNat = bits handler.toNat 0 16 := toNat_low rfl
  rw [IdtDesc.decode_val, IdtDesc.decode_val]
  simp only [IdtDesc.setEntry, hhigh, hlow, Nat.mod_eq_of_lt bits_lt, ← hoffset]

/-- What the assignments to the bit fields change. -/
lemma setBits_decode (str : IdtDesc) (trap dpl : Nat) : Gate.decode (str.setBits trap dpl).val =
    { Gate.decode str.val with selector := 0x10, type := trap % 2 + 14, s := 0, dpl := dpl % 4, present := 1 } := by
  rw [IdtDesc.decode_val, IdtDesc.decode_val]
  rfl

/-- The gates behind the loops of `initialize_idt`. -/
lemma idtLoops_decode (addr : EntryPoint → UInt32) {v : Nat} (hv : v < 256) :
    Gate.decode (idtLoops addr (fun _ => .zero) v).val =
      if v < 32 then ⟨(addr .genericHandler).toNat, 0x10, 15, 0, 0, 1⟩ else ⟨0, 0x10, 14, 0, 0, 1⟩ := by
  have hexceptions : ∀ f : Nat → IdtDesc, (List.range' 0 32).foldl
      (fun idt i => Function.update idt i (((idt i).setBits 1 0).setEntry (addr .genericHandler))) f v =
      if 0 ≤ v ∧ v < 0 + 32 then ((f v).setBits 1 0).setEntry (addr .genericHandler) else f v :=
    fun f => @foldl_update_range _ f (fun _ d => (d.setBits 1 0).setEntry (addr .genericHandler)) v 0 32
  have hinterrupts : ∀ f : Nat → IdtDesc, (List.range' 32 224).foldl
      (fun idt i => Function.update idt i ((idt i).setBits 0 0)) f v =
      if 32 ≤ v ∧ v < 32 + 224 then (f v).setBits 0 0 else f v :=
    fun f => @foldl_update_range _ f (fun _ d => d.setBits 0 0) v 32 224
  rw [idtLoops, hinterrupts, hexceptions]
  by_cases h32 : v < 32
  · rw [if_neg (by omega), if_pos (by omega), if_pos h32, setEntry_decode, setBits_decode]
  · rw [if_pos (by omega), if_neg (by omega), if_neg h32, setBits_decode]
    rfl

/-- The gate of every vector. -/
lemma gate_eq (addr : EntryPoint → UInt32) {v : Nat} (hv : v < 256) :
    Gate.decode (initializeIdt addr (fun _ => .zero) v).val = gateOf addr v := by
  have hnodup : (idtEntries.map Prod.fst).Nodup := by decide
  have hentries : ∀ v < 256, Gate.decode (idtEntries.foldl (fun idt e => Function.update idt e.1
      ((idt e.1).setEntry (addr e.2))) (idtLoops addr fun _ => .zero) v).val =
      { gateOf addr v with type := if v < 32 then 15 else 14, dpl := 0 } := by
    intro v hv
    rw [@foldl_update_entries _ _ _ v _ (fun handler (d : IdtDesc) => d.setEntry (addr handler)) hnodup, gateOf,
      handlerOf]
    cases idtEntries.lookup v with
    | none =>
      change Gate.decode (idtLoops addr _ v).val = _
      rw [idtLoops_decode addr hv]
      by_cases h32 : v < 32
      · rw [if_pos h32, if_pos h32, if_pos h32]
      · rw [if_neg h32, if_neg h32, if_neg h32]
    | some handler =>
      change Gate.decode ((idtLoops addr _ v).setEntry _).val = _
      rw [setEntry_decode, idtLoops_decode addr hv]
      by_cases h32 : v < 32
      · simp only [h32, if_true]
      · simp only [h32, if_false]
  rw [initializeIdt]
  by_cases h128 : v = 128
  · subst h128
    rw [Function.update_self, setBits_decode]
    exact congrArg (fun g : Gate => { g with selector := 0x10, type := 15, s := 0, dpl := 3, present := 1 })
      (hentries 128 hv)
  · rw [Function.update_of_ne h128]
    refine (hentries v hv).trans ?_
    rw [gateOf, if_neg h128]
    simp only [h128, or_false]

/-- After `initialize_idt`, wherever its functions are: every vector has its gate, and `int` in a program enters the
kernel for vector 128 only, at `systemcall_linkage` and with the interrupt flag as it was. -/
theorem gates_decode (addr : EntryPoint → UInt32) (v : Nat) (hv : v < 256) :
    Gate.decode (initializeIdt addr (fun _ => .zero) v).val = gateOf addr v ∧
      softInt (initializeIdt addr fun _ => .zero) 3 v =
        if v = 128 then some ((addr .systemcallLinkage).toNat, true) else none := by
  refine ⟨gate_eq addr hv, ?_⟩
  rw [softInt, gate_eq addr hv]
  by_cases h128 : v = 128
  · subst h128
    rfl
  · rw [if_neg h128]
    exact if_neg fun h => by simp [gateOf, h128] at h

/-- The system call gate. -/
theorem gates_decode_linkage : Gate.decode (initializeIdt (fun _ => 0x00401234) (fun _ => .zero) 128).val =
    ⟨0x00401234, 0x10, 15, 0, 3, 1⟩ :=
  (gates_decode (fun _ => 0x00401234) 128 (by decide)).1

end Boss
