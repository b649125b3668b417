import Mathlib.Data.List.GetD
import Mathlib.Data.List.TakeWhile
import Mathlib.Logic.Function.Basic
import Mathlib.Tactic.Common

/-!
# Byte memories

A memory is a function from addresses to bytes. `copy` is the forward byte loop of a copy, `put` the store
of consecutive bytes and `le32` the little-endian word at an address. `strlen` scans for the
first zero byte; the bound is a place where the caller knows a zero byte to be, so that the scan ends.
-/

namespace Boss.Lib

/-- A property of bytes can be checked on the 256 of them. -/
lemma byte_cases {P : UInt8 → Prop} (h : ∀ n : Fin 256, P (UInt8.ofNat n)) (b : UInt8) : P b := by
  have hb := h ⟨b.toNat, b.toNat_lt⟩
  rwa [UInt8.ofNat_toNat] at hb

/-- A memory, or any array of bytes. -/
abbrev Mem := Nat → UInt8

namespace Mem
variable {m : Mem} {dst src a n i : Nat} {b : UInt8} {bs : List UInt8}

/-- The forward byte loop: `n` bytes from `src` to `dst`. -/
def copy (m : Mem) (dst src : Nat) : Nat → Mem
  | 0 => m
  | n + 1 =>
    let m' := copy m dst src n
    Function.update m' (dst + n) (m' (src + n))

/-- Copying between disjoint ranges moves the old source bytes and touches nothing else. -/
lemma copy_apply (h : dst + n ≤ src ∨ src + n ≤ dst) :
    copy m dst src n a = if dst ≤ a ∧ a < dst + n then m (src + (a - dst)) else m a := by
  induction n generalizing a with
  | zero =>
    have : ¬ (dst ≤ a ∧ a < dst + 0) := by omega
    rw [if_neg this]
    rfl
  | succ n ih =>
    have ih' := fun a => ih (a := a) (by omega)
    simp only [copy, Function.update_apply, ih']
    by_cases ha : a = dst + n
    · subst ha
      have h1 : ¬ (dst ≤ src + n ∧ src + n < dst + n) := by omega
      rw [if_pos rfl, if_neg h1, if_pos (by omega), Nat.add_sub_cancel_left]
    · rw [if_neg ha]
      by_cases hr : dst ≤ a ∧ a < dst + n
      · rw [if_pos hr, if_pos (by omega)]
      · rw [if_neg hr, if_neg (by omega)]

/-- Make stores one after another. -/
def replay (stores : List (Nat × UInt8)) (m : Mem) : Mem :=
  stores.foldl (fun m s => Function.update m s.1 s.2) m

/-- Stores one after another. -/
lemma replay_append {l l' : List (Nat × UInt8)} : replay (l ++ l') m = replay l' (replay l m) :=
  List.foldl_append

/-- Stores to consecutive addresses. -/
def run (a : Nat) (f : Nat → UInt8) (n : Nat) : List (Nat × UInt8) := (List.range n).map fun j => (a + j, f j)

/-- What a run of stores leaves. -/
lemma replay_run {f : Nat → UInt8} :
    replay (run a f n) m i = if a ≤ i ∧ i < a + n then f (i - a) else m i := by
  induction n with
  | zero =>
    rw [if_neg (by omega)]
    rfl
  | succ n ih =>
    have hsplit : run a f (n + 1) = run a f n ++ [(a + n, f n)] := by
      rw [run, run, List.range_succ, List.map_append, List.map_singleton]
    rw [hsplit, replay_append]
    by_cases hi : i = a + n
    · subst hi
      rw [if_pos (by omega), Nat.add_sub_cancel_left]
      exact Function.update_self ..
    · refine (Function.update_of_ne hi _ _).trans (ih.trans ?_)
      exact if_congr (by omega) rfl rfl

/-- Store consecutive bytes at `a`. -/
def put (m : Mem) (a : Nat) : List UInt8 → Mem
  | [] => m
  | b :: bs => put (Function.update m a b) (a + 1) bs

/-- Stored bytes are found where they were stored, the others are as they were. -/
lemma put_apply : put m a bs i = if a ≤ i ∧ i < a + bs.length then bs.getD (i - a) 0 else m i := by
  induction bs generalizing m a with
  | nil =>
    rw [List.length_nil, if_neg (by omega)]
    rfl
  | cons b bs ih =>
    rw [put, ih, List.length_cons]
    by_cases hi : i = a
    · rw [if_neg (by omega), if_pos (by omega), hi, Function.update_self, Nat.sub_self]
      rfl
    · rw [Function.update_of_ne hi]
      refine if_ctx_congr (by omega) (fun hin => ?_) fun _ => rfl
      obtain ⟨j, hj⟩ : ∃ j, i - a = j + 1 := ⟨i - a - 1, by omega⟩
      have hj' : i - (a + 1) = j := by omega
      rw [hj, hj', List.getD_cons_succ]

/-- Over zero bytes the stored list is read back with zero bytes behind it. -/
lemma put_getD (h : m (a + i) = 0) : put m a bs (a + i) = bs.getD i 0 := by
  rw [put_apply, Nat.add_sub_cancel_left]
  split
  · rfl
  · have hlen : bs.length ≤ i := by omega
    rw [h, List.getD_eq_getElem?_getD, List.getElem?_eq_none hlen, Option.getD_none]

/-- Bytes are stored one behind the other. -/
lemma put_append {bs' : List UInt8} : put m a (bs ++ bs') = put (put m a bs) (a + bs.length) bs' := by
  induction bs generalizing m a with
  | nil => rfl
  | cons b bs ih => rw [List.cons_append, put, ih, put, List.length_cons, Nat.add_assoc, Nat.add_comm 1]

/-- Two neighbouring blocks of one byte. -/
lemma put_replicate {k : Nat} :
    put (put m a (List.replicate n b)) (a + n) (List.replicate k b) = put m a (List.replicate (n + k) b) := by
  rw [← List.replicate_append_replicate, put_append, List.length_replicate]

/-- Bytes that are stored right before others. -/
lemma put_put {bs' : List UInt8} (h : i + bs'.length = a) : put (put m a bs) i bs' = put m i (bs' ++ bs) := by
  funext j
  rw [put_apply, put_apply, put_apply, List.length_append]
  by_cases hfirst : i ≤ j ∧ j < i + bs'.length
  · rw [if_pos hfirst, if_pos (by omega), List.getD_append _ _ _ _ (by omega)]
  · rw [if_neg hfirst]
    by_cases hsecond : a ≤ j ∧ j < a + bs.length
    · have hj : j - i - bs'.length = j - a := by omega
      rw [if_pos hsecond, if_pos (by omega), List.getD_append_right _ _ _ _ (by omega), hj]
    · rw [if_neg hsecond, if_neg (by omega)]

/-- The little-endian word at `a`. -/
def le32 (m : Mem) (a : Nat) : Nat :=
  (m a).toNat + 256 * (m (a + 1)).toNat + 65536 * (m (a + 2)).toNat + 16777216 * (m (a + 3)).toNat

/-- A word of four bytes is below `2 ^ 32`. -/
lemma le32_lt : le32 m a < 0x100000000 := by
  have h0 := (m a).toNat_lt
  have h1 := (m (a + 1)).toNat_lt
  have h2 := (m (a + 2)).toNat_lt
  have h3 := (m (a + 3)).toNat_lt
  simp only [le32]
  omega

/-- The number of bytes before the first zero, looking at `bound` bytes at most. -/
def strlen (m : Mem) : (bound : Nat) → Nat
  | 0 => 0
  | bound + 1 => if m 0 = 0 then 0 else strlen (fun i => m (i + 1)) bound + 1

/-- The scan stays inside its bound. -/
lemma strlen_le {bound : Nat} : strlen m bound ≤ bound := by
  induction bound generalizing m with
  | zero => exact Nat.le_refl 0
  | succ bound ih =>
    simp only [strlen]
    split
    · omega
    · have := ih (m := fun i => m (i + 1))
      omega

/-- No byte before the length is zero. -/
lemma ne_zero_of_lt_strlen {bound : Nat} (h : i < strlen m bound) : m i ≠ 0 := by
  induction bound generalizing m i with
  | zero => exact absurd h (by simp [strlen])
  | succ bound ih =>
    simp only [strlen] at h
    split at h
    · omega
    · next h0 =>
      cases i with
      | zero => exact h0
      | succ i => exact ih (m := fun i => m (i + 1)) (by omega)

/-- With a zero byte inside the bound, the scan stops at a zero byte. -/
lemma strlen_zero {bound : Nat} (h : m bound = 0) : m (strlen m bound) = 0 := by
  induction bound generalizing m with
  | zero => exact h
  | succ bound ih =>
    simp only [strlen]
    split
    · assumption
    · exact ih (m := fun i => m (i + 1)) h

/-- A scan that ends before its bound has met a zero byte. -/
lemma strlen_lt_zero {bound : Nat} (h : strlen m bound < bound) : m (strlen m bound) = 0 := by
  induction bound generalizing m with
  | zero => cases h
  | succ bound ih =>
    simp only [strlen] at h ⊢
    by_cases h0 : m 0 = 0
    · rw [if_pos h0]
      exact h0
    · rw [if_neg h0] at h ⊢
      exact ih (m := fun i => m (i + 1)) (by omega)

/-- A shorter scan counts the same bytes, as far as it goes. -/
lemma strlen_of_le {bound : Nat} (h : n ≤ bound) : strlen m n = min n (strlen m bound) := by
  induction n generalizing m bound with
  | zero => rw [Nat.zero_min, strlen]
  | succ n ih =>
    obtain ⟨b, rfl⟩ : ∃ b, bound = b + 1 := ⟨bound - 1, by omega⟩
    have htail := @ih (fun i => m (i + 1)) b (by omega)
    simp only [strlen]
    split
    · omega
    · omega

/-- Bytes that are not zero are counted. -/
lemma le_strlen {bound : Nat} (hb : n ≤ bound) (h : ∀ i < n, m i ≠ 0) : n ≤ strlen m bound := by
  by_contra hlt
  exact h _ (Nat.not_le.mp hlt) (strlen_lt_zero (by omega))

/-- The first `n` bytes as a list. -/
def bytes (m : Mem) (a n : Nat) : List UInt8 :=
  (List.range n).map fun i => m (a + i)

@[simp] lemma length_bytes : (bytes m a n).length = n := by
  simp [bytes]

/-- Indexing the list of bytes reads the memory. -/
lemma getElem_bytes (h : i < (bytes m a n).length) : (bytes m a n)[i] = m (a + i) := by
  simp [bytes]

/-- The first byte and the others. -/
lemma bytes_succ : bytes m a (n + 1) = m a :: bytes m (a + 1) n := by
  simp only [bytes, List.range_succ_eq_map, List.map_cons, List.map_map, Function.comp_def, Nat.add_zero,
    Nat.succ_eq_add_one, Nat.add_assoc, Nat.add_comm 1]

/-- Two neighbouring blocks. -/
lemma bytes_add {k : Nat} : bytes m a (n + k) = bytes m a n ++ bytes m (a + n) k := by
  induction n generalizing a with
  | zero => rw [Nat.zero_add, Nat.add_zero]; rfl
  | succ n ih => rw [Nat.add_right_comm, bytes_succ, ih, bytes_succ, List.cons_append, Nat.add_assoc, Nat.add_comm 1]

/-- Only the bytes themselves matter. -/
lemma bytes_congr {m' : Mem} (h : ∀ i < n, m (a + i) = m' (a + i)) : bytes m a n = bytes m' a n :=
  List.map_congr_left fun i hi => h i (List.mem_range.mp hi)

/-- A block is copied in two parts, unless the first overwrites what is read for the second. -/
lemma put_bytes {k : Nat} (h : dst ≤ src ∨ src + (n + k) ≤ dst) :
    put (put m dst (bytes m src n)) (dst + n) (bytes (put m dst (bytes m src n)) (src + n) k) =
      put m dst (bytes m src (n + k)) := by
  have hread : bytes (put m dst (bytes m src n)) (src + n) k = bytes m (src + n) k := by
    refine bytes_congr fun i hi => ?_
    rw [put_apply, length_bytes, if_neg (by omega)]
  rw [hread, bytes_add, put_append, length_bytes]

/-- What was stored is read. -/
lemma bytes_put : bytes (put m a bs) a bs.length = bs := by
  refine List.ext_getElem length_bytes fun i hi hi' => ?_
  rw [getElem_bytes, put_apply, if_pos (by omega), Nat.add_sub_cancel_left, List.getD_eq_getElem _ _ hi']

/-- A shorter block. -/
lemma bytes_min {k : Nat} : bytes m a (min k n) = (bytes m a n).take k := by
  rw [bytes, bytes, ← List.map_take, List.take_range]

/-- A list is read back from the memory that it fills. -/
lemma bytes_getD {l : List UInt8} : bytes (fun i => l.getD i 0) 0 l.length = l := by
  refine List.ext_getElem length_bytes fun i hi hi' => ?_
  rw [getElem_bytes, Nat.zero_add, List.getD_eq_getElem _ _ hi']

/-- A list without zero bytes is a string of its length. -/
lemma strlen_getD {l : List UInt8} {bound : Nat} (hl : 0 ∉ l) (hb : l.length ≤ bound) :
    strlen (fun i => l.getD i 0) bound = l.length := by
  refine Nat.le_antisymm ?_ (le_strlen hb fun i hi hz => ?_)
  · by_contra hlt
    exact ne_zero_of_lt_strlen (Nat.not_le.mp hlt) (List.getD_eq_default _ _ (Nat.le_refl _))
  · rw [List.getD_eq_getElem _ _ hi] at hz
    exact hl (hz ▸ List.getElem_mem hi)

/-- The string at `a`: the bytes of the list, none of them zero, and a zero byte. -/
def IsStr (m : Mem) : (a : Nat) → List UInt8 → Prop
  | a, [] => m a = 0
  | a, b :: bs => m a = b ∧ b ≠ 0 ∧ IsStr m (a + 1) bs

/-- Bytes with a zero behind them are a string. -/
lemma isStr_put (h : 0 ∉ bs) : IsStr (put m a (bs ++ [0])) a bs := by
  induction bs generalizing m a with
  | nil => exact Function.update_self ..
  | cons b bs ih =>
    obtain ⟨hb, hbs⟩ := List.ne_and_not_mem_of_not_mem_cons h
    refine ⟨?_, hb.symm, ih hbs⟩
    rw [put_apply, if_pos ⟨Nat.le_refl a, by rw [List.length_append]; simp⟩, Nat.sub_self]
    rfl

/-- Stores before a string do not touch it. -/
lemma IsStr.update (h : IsStr m a bs) (hi : i < a) : IsStr (Function.update m i b) a bs := by
  induction bs generalizing a with
  | nil => exact (Function.update_of_ne (by omega) _ _).trans h
  | cons c bs ih => exact ⟨(Function.update_of_ne (by omega) _ _).trans h.1, h.2.1, ih h.2.2 (by omega)⟩

/-- A zero byte behind bytes that are not zero makes a string of them. -/
lemma isStr_of_bytes (h : Mem.bytes m a bs.length = bs) (hz : 0 ∉ bs) : IsStr (Function.update m (a + bs.length) 0) a bs := by
  induction bs generalizing a with
  | nil => exact Function.update_self ..
  | cons c bs ih =>
    obtain ⟨hc, hbs⟩ := List.ne_and_not_mem_of_not_mem_cons hz
    rw [List.length_cons, bytes_succ, List.cons.injEq] at h
    have htail := ih h.2 hbs
    rw [List.length_cons, Nat.add_comm bs.length, ← Nat.add_assoc]
    exact ⟨(Function.update_of_ne (by omega) _ _).trans h.1, hc.symm, htail⟩

/-- The rest of a string is at the next address. -/
lemma tail_eq : (fun i => m (a + (i + 1))) = fun i => m (a + 1 + i) := by
  funext i
  rw [Nat.add_right_comm, Nat.add_assoc]

/-- The length of a string. -/
lemma IsStr.strlen {bound : Nat} (h : IsStr m a bs) (hb : bs.length ≤ bound) :
    strlen (fun i => m (a + i)) bound = bs.length := by
  induction bs generalizing a bound with
  | nil =>
    cases bound with
    | zero => rfl
    | succ bound => exact if_pos h
  | cons b bs ih =>
    obtain ⟨hm, hne, htail⟩ := h
    cases bound with
    | zero => exact absurd hb (Nat.not_succ_le_zero _)
    | succ bound =>
      rw [Mem.strlen, if_neg (hm ▸ hne), tail_eq, ih htail (Nat.le_of_succ_le_succ hb), List.length_cons]

/-- The bytes of a string. -/
lemma IsStr.bytes (h : IsStr m a bs) : bytes m a bs.length = bs := by
  induction bs generalizing a with
  | nil => rfl
  | cons b bs ih => rw [List.length_cons, bytes_succ, ih h.2.2, h.1]

/-- The bytes up to the first zero byte are a string. -/
lemma isStr_bytes {bound : Nat} (h : m (a + bound) = 0) :
    IsStr m a (Mem.bytes m a (Mem.strlen (fun i => m (a + i)) bound)) := by
  induction bound generalizing a with
  | zero => exact h
  | succ bound ih =>
    rw [Mem.strlen]
    split
    · assumption
    · next hne =>
      rw [bytes_succ, tail_eq]
      exact ⟨rfl, hne, ih (by rw [Nat.add_right_comm, Nat.add_assoc]; exact h)⟩

/-- When one block begins with another. -/
lemma bytes_prefix_iff {m' : Mem} {n' : Nat} :
    bytes m 0 n <+: bytes m' 0 n' ↔ n ≤ n' ∧ ∀ i < n, m i = m' i := by
  rw [List.prefix_iff_getElem]
  simp only [length_bytes, getElem_bytes, Nat.zero_add, exists_prop]

/-- When two blocks are equal. -/
lemma bytes_eq_iff {m' : Mem} {n' : Nat} : bytes m 0 n = bytes m' 0 n' ↔ n = n' ∧ ∀ i < n, m i = m' i := by
  rw [List.ext_getElem_iff]
  simp only [length_bytes, getElem_bytes, Nat.zero_add]
  refine and_congr_right ?_
  rintro rfl
  exact ⟨fun h i hi => h i hi hi, fun h i hi _ => h i hi⟩

end Mem

/-- A string in memory: some byte of it is zero. -/
structure CString where
  byte : Mem
  bound : Nat
  nul : byte bound = 0

/-- The length of a string. -/
def CString.length (s : CString) : Nat := s.byte.strlen s.bound

/-- The characters of a string. -/
def CString.chars (s : CString) : List UInt8 := s.byte.bytes 0 s.length

/-- The string with these characters, if none of them is zero. -/
def CString.ofList (l : List UInt8) : CString where
  byte := fun i => l.getD i 0
  bound := l.length
  nul := List.getD_eq_default _ _ (Nat.le_refl _)

/-- The characters that a string is made of. -/
lemma CString.chars_ofList {l : List UInt8} (h : 0 ∉ l) : (CString.ofList l).chars = l := by
  have hlen : (CString.ofList l).length = l.length := Mem.strlen_getD h (Nat.le_refl _)
  rw [CString.chars, hlen]
  exact Mem.bytes_getD

/-- A string has no zero byte inside. -/
lemma CString.zero_notMem_chars (s : CString) : 0 ∉ s.chars := by
  intro h
  obtain ⟨i, hi, hz⟩ := List.mem_map.mp h
  rw [Nat.zero_add] at hz
  exact Mem.ne_zero_of_lt_strlen (List.mem_range.mp hi) hz

/-- Bytes that are not zero are read as they are. -/
lemma takeWhile_text {l : List UInt8} (h : 0 ∉ l) : l.takeWhile (· ≠ 0) = l :=
  List.takeWhile_eq_self_iff.mpr fun _ hb => decide_eq_true fun hz => h (hz ▸ hb)

/-- The string before a zero byte. -/
lemma takeWhile_string {l : List UInt8} (h : 0 ∉ l) : (l ++ [0]).takeWhile (· ≠ 0) = l := by
  have hne : ∀ b ∈ l, decide (b ≠ 0) = true := fun b hb => decide_eq_true fun hz => h (hz ▸ hb)
  rw [List.takeWhile_append_of_pos hne, List.takeWhile_cons_of_neg (by decide), List.append_nil]

/-- A string is one in memory. -/
lemma CString.isStr (s : CString) : s.byte.IsStr 0 s.chars := by
  have h := @Mem.isStr_bytes s.byte 0 s.bound (by rw [Nat.zero_add]; exact s.nul)
  simp only [Nat.zero_add] at h
  exact h

end Boss.Lib
