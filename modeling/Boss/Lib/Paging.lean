import Boss.Lib.Word
import Boss.Lib.Memory

/-!
# Two-level paging

The translation of the 32-bit x86 with 4MB pages: a directory of 1024 words, each absent, a 4MB page or
the frame of a table of 1024 words. Tables are found by frame number through `tables`, so the same walk
serves any memory the tables may live in. An address is open to user code when the user bit is set at
every level of its walk.
-/

namespace Boss.Lib.Paging

/-- Bit 0: the entry is present. -/
def present (w : Nat) : Bool := w.testBit 0

/-- Bit 2: user code may use the entry. -/
def userBit (w : Nat) : Bool := w.testBit 2

/-- Bit 7 of a directory entry: a 4MB page and not a table. -/
def large (w : Nat) : Bool := w.testBit 7

/-- The frame number of an entry. -/
def frame (w : Nat) : Nat := w >>> 12

/-- What a virtual address resolves to. -/
structure Target where
  /-- The physical address. -/
  pa : Nat
  /-- Whether user code may access it. -/
  user : Bool
  deriving DecidableEq, Repr

/-- The translation of one virtual address; `none` is a page fault. -/
def walk (tables : Nat → Option (Nat → Nat)) (dir : Nat → Nat) (va : Nat) : Option Target :=
  let pde := dir (va / 0x400000)
  if present pde then
    if large pde then
      some ⟨pde / 0x400000 * 0x400000 + va % 0x400000, userBit pde⟩
    else
      (tables (frame pde)).bind fun table =>
        let pte := table (va / 0x1000 % 1024)
        if present pte then
          some ⟨frame pte * 0x1000 + va % 0x1000, userBit pde && userBit pte⟩
        else none
  else none

variable {tables : Nat → Option (Nat → Nat)} {dir : Nat → Nat} {table : Nat → Nat} {va i : Nat}

/-- Store consecutive bytes at a virtual address, up to the first that has no mapping; `true` when there is
none such. -/
def storeBytes (tables : Nat → Option (Nat → Nat)) (dir : Nat → Nat) : Mem → Nat → List UInt8 → Mem × Bool
  | phys, _, [] => (phys, true)
  | phys, va, b :: bs =>
    match walk tables dir (va % 0x100000000) with
    | none => (phys, false)
    | some t => storeBytes tables dir (Function.update phys t.pa b) (va + 1) bs

/-- A range without page faults is stored to its end. -/
lemma storeBytes_mapped {phys : Mem} {bs : List UInt8}
    (h : ∀ i < bs.length, ∃ t, walk tables dir ((va + i) % 0x100000000) = some t) :
    (storeBytes tables dir phys va bs).2 = true := by
  induction bs generalizing phys va with
  | nil => rfl
  | cons b bs ih =>
    obtain ⟨t, ht⟩ := h 0 (Nat.zero_lt_succ _)
    rw [Nat.add_zero] at ht
    simp only [storeBytes, ht]
    apply ih
    intro i hi
    rw [Nat.add_assoc, Nat.add_comm 1 i]
    exact h (i + 1) (Nat.succ_lt_succ hi)

/-- Whether a store succeeds does not depend on what memory holds. -/
lemma storeBytes_snd {phys phys' : Mem} {bs : List UInt8} :
    (storeBytes tables dir phys va bs).2 = (storeBytes tables dir phys' va bs).2 := by
  induction bs generalizing phys phys' va with
  | nil => rfl
  | cons b bs ih =>
    simp only [storeBytes]
    cases walk tables dir (va % 0x100000000) with
    | none => rfl
    | some t => exact ih

/-- A range that is mapped in one piece is stored there, and nothing else changes. -/
lemma storeBytes_apply {phys : Mem} {bs : List UInt8} (pa : Nat)
    (h : ∀ i < bs.length, ∃ t, walk tables dir ((va + i) % 0x100000000) = some t ∧ t.pa = pa + i) (a : Nat) :
    (storeBytes tables dir phys va bs).1 a =
      if pa ≤ a ∧ a < pa + bs.length then bs.getD (a - pa) 0 else phys a := by
  induction bs generalizing phys va pa with
  | nil =>
    rw [List.length_nil, if_neg (by omega)]
    rfl
  | cons b bs ih =>
    obtain ⟨t, ht, hpa⟩ := h 0 (Nat.zero_lt_succ _)
    rw [Nat.add_zero] at ht hpa
    simp only [storeBytes, ht]
    rw [ih (pa + 1) fun i hi => ?_, hpa, List.length_cons]
    · by_cases ha : a = pa
      · rw [if_neg (by omega), if_pos (by omega), ha, Function.update_self, Nat.sub_self]
        rfl
      · rw [Function.update_of_ne ha]
        refine if_ctx_congr (by omega) (fun hin => ?_) fun _ => rfl
        obtain ⟨j, hj⟩ : ∃ j, a - pa = j + 1 := ⟨a - pa - 1, by omega⟩
        have hj' : a - (pa + 1) = j := by omega
        rw [hj, hj', List.getD_cons_succ]
    · rw [Nat.add_assoc, Nat.add_assoc, Nat.add_comm 1 i]
      exact h (i + 1) (Nat.succ_lt_succ hi)

/-- The addresses that `storeBytes` stores to, in their order. -/
def storedAt (tables : Nat → Option (Nat → Nat)) (dir : Nat → Nat) : Nat → List UInt8 → List Nat
  | _, [] => []
  | va, _ :: bs =>
    match walk tables dir (va % 0x100000000) with
    | none => []
    | some _ => va % 0x100000000 :: storedAt tables dir (va + 1) bs

/-- The first byte of a range is stored when its address is mapped. -/
lemma mem_storedAt_self {b : UInt8} {bs : List UInt8} (hva : va < 0x100000000) {t : Target}
    (h : walk tables dir va = some t) : va ∈ storedAt tables dir va (b :: bs) := by
  simp only [storedAt, Nat.mod_eq_of_lt hva, h]
  exact List.mem_cons_self

/-- Otherwise nothing is stored. -/
lemma storedAt_unmapped {bs : List UInt8} (hva : va < 0x100000000) (h : walk tables dir va = none) :
    storedAt tables dir va bs = [] := by
  cases bs with
  | nil => rfl
  | cons b bs => simp only [storedAt, Nat.mod_eq_of_lt hva, h]

/-- Where the last byte of the address space is not mapped, no range comes round to its start. -/
lemma le_of_mem_storedAt {bs : List UInt8} {a : Nat} (hlast : walk tables dir 0xFFFFFFFF = none)
    (hva : va < 0x100000000) (h : a ∈ storedAt tables dir va bs) : va ≤ a := by
  induction bs generalizing va with
  | nil => cases h
  | cons b bs ih =>
    simp only [storedAt, Nat.mod_eq_of_lt hva] at h
    cases hwalk : walk tables dir va with
    | none =>
      rw [hwalk] at h
      cases h
    | some t =>
      rw [hwalk] at h
      have hne : va ≠ 0xFFFFFFFF := by
        rintro rfl
        rw [hlast] at hwalk
        cases hwalk
      rcases List.mem_cons.mp h with rfl | h
      · exact Nat.le_refl a
      · have hle := ih (by omega) h
        omega

/-- The addresses run from the first one on. -/
lemma storedAt_range {bs : List UInt8} (hend : va + bs.length ≤ 0x100000000) {a : Nat}
    (h : a ∈ storedAt tables dir va bs) : va ≤ a ∧ a < va + bs.length := by
  induction bs generalizing va with
  | nil => cases h
  | cons b bs ih =>
    rw [List.length_cons] at hend ⊢
    simp only [storedAt] at h
    split at h
    · cases h
    · cases h with
      | head => omega
      | tail _ h =>
        have := ih (by omega) h
        omega

end Boss.Lib.Paging
