import Boss.Filesys.Image
import Mathlib.Data.List.GetD
import Mathlib.Data.Nat.Find

/-!
# Lookup by name

`read_dentry_by_name` compares the name it looks for with each entry, over the length of the name it looks
for, and only then looks whether the entry goes on. An entry that does go on ends the search: the name is a
proper prefix of that entry, and the entry that has exactly this name may still come.

`lookup_exact_iff` says that this is the only thing wrong with the lookup: it is exact, names of all 32
characters and filling of the result included, unless an entry before the right one goes on after the name.
-/

namespace Boss
open Lib

/-! ### The string functions -/

/-- `strncmp` over the length of its first string tells whether the second one begins with it. -/
lemma strncmp_eq_zero {s1 s2 : Mem} {n : Nat} (h : ∀ i < n, s1 i ≠ 0) :
    strncmp s1 s2 n = 0 ↔ ∀ i < n, s1 i = s2 i := by
  induction n generalizing s1 s2 with
  | zero => simp [strncmp]
  | succ n ih =>
    have h0 := h 0 (Nat.succ_pos n)
    have htail : strncmp (fun i => s1 (i + 1)) (fun i => s2 (i + 1)) n = 0 ↔ ∀ i < n, s1 (i + 1) = s2 (i + 1) :=
      ih fun i hi => h (i + 1) (Nat.succ_lt_succ hi)
    simp only [strncmp, h0, or_false]
    by_cases hne : s1 0 = s2 0
    · rw [if_neg (not_not_intro hne), htail]
      constructor
      · intro hall i hi
        cases i with
        | zero => exact hne
        | succ i => exact hall i (Nat.lt_of_succ_lt_succ hi)
      · intro hall i hi
        exact hall (i + 1) (Nat.succ_lt_succ hi)
    · rw [if_pos hne]
      constructor
      · intro hsub
        have heq := Int8.toInt_inj.mp (Int.sub_eq_zero.mp hsub)
        exact absurd (congrArg Int8.toUInt8 heq) hne
      · intro hall
        exact absurd (hall 0 (Nat.succ_pos n)) hne

/-- The copying loop stops at the end of the source. -/
lemma strncpyCopy_eq {src dest : Mem} {n fuel i : Nat} (hn : i + fuel = n) (hi : i ≤ src.strlen n) :
    strncpyCopy src n fuel i dest =
      (src.strlen n, fun j => if i ≤ j ∧ j < src.strlen n then src j else dest j) := by
  have hle : src.strlen n ≤ n := Mem.strlen_le
  induction fuel generalizing i dest with
  | zero =>
    have hend : src.strlen n = i := by omega
    simp only [strncpyCopy, hend]
    congr 1
    funext j
    rw [if_neg (by omega)]
  | succ fuel ih =>
    rw [strncpyCopy]
    by_cases hz : src i = 0
    · have hend : src.strlen n = i := by
        by_contra hne
        have hlt : i < src.strlen n := by omega
        exact Mem.ne_zero_of_lt_strlen hlt hz
      rw [if_neg (fun hc => hc.1 hz), hend]
      congr 1
      funext j
      rw [if_neg (by omega)]
    · have hlt : i < src.strlen n := by
        by_contra hge
        have hend : src.strlen n = i := by omega
        exact hz (hend ▸ Mem.strlen_lt_zero (by omega))
      rw [if_pos ⟨hz, by omega⟩, ih (by omega) hlt]
      congr 1
      funext j
      by_cases hj : j = i
      · subst hj
        rw [if_neg (by omega), Function.update_self, if_pos ⟨Nat.le_refl j, hlt⟩]
      · rw [Function.update_of_ne hj]
        exact if_congr (by omega) rfl rfl

/-- The rest of the buffer is filled with zeros. -/
lemma strncpyPad_apply {dest : Mem} {fuel i j : Nat} :
    strncpyPad fuel i dest j = if i ≤ j ∧ j < i + fuel then 0 else dest j := by
  induction fuel generalizing i dest with
  | zero => rw [strncpyPad, if_neg (by omega)]
  | succ fuel ih =>
    rw [strncpyPad, ih]
    by_cases hj : j = i
    · subst hj
      rw [if_neg (by omega), Function.update_self, if_pos (by omega)]
    · rw [Function.update_of_ne hj]
      exact if_congr (by omega) rfl rfl

/-- `strncpy` copies the string and pads it with zeros. -/
lemma strncpy_apply {dest src : Mem} {n j : Nat} :
    strncpy dest src n j = if j < n then (if j < src.strlen n then src j else 0) else dest j := by
  have hle : src.strlen n ≤ n := Mem.strlen_le
  have hpad : src.strlen n + (n - src.strlen n) = n := by omega
  rw [strncpy, strncpyCopy_eq (Nat.zero_add n) (Nat.zero_le _)]
  simp only [strncpyPad_apply, hpad, Nat.zero_le, true_and]
  by_cases hj : j < n
  · rw [if_pos hj]
    by_cases hl : j < src.strlen n
    · rw [if_neg (by omega), if_pos hl, if_pos hl]
    · rw [if_pos (by omega), if_neg hl]
  · rw [if_neg (by omega), if_neg hj, if_neg (by omega)]

/-! ### The search -/

namespace Image

/-- The name of the directory entry `i`: its field, cut at the first zero byte. -/
def nameOf (fs : Image) (i : Nat) : List UInt8 := (fs.entryName i).bytes 0 ((fs.entryName i).strlen 32)

/-- The directory entry `i`, as a `dentry_t`. -/
def entry (fs : Image) (i : Nat) : Dentry :=
  ⟨fun j => (fs.nameOf i).getD j 0, fs.word (fs.dentryAddr i + 32), fs.word (fs.dentryAddr i + 36)⟩

variable {fs : Image} {q : CString} {i k fuel : Nat}

/-- The comparison finds the entries that begin with the name. -/
lemma strncmp_entry (hq : q.length ≤ 32) :
    strncmp q.byte (fs.entryName k) q.length = 0 ↔ q.chars <+: fs.nameOf k := by
  have hne : ∀ j < q.length, q.byte j ≠ 0 := fun j => Mem.ne_zero_of_lt_strlen
  rw [strncmp_eq_zero hne, CString.chars, nameOf, Mem.bytes_prefix_iff]
  refine ⟨fun hall => ⟨Mem.le_strlen hq fun j hj => ?_, hall⟩, fun h => h.2⟩
  rw [← hall j hj]
  exact hne j hj

/-- Of those, the entry that does not go on has exactly the name. -/
lemma nameOf_eq_iff (hq : q.length ≤ 32) (hk : q.chars <+: fs.nameOf k) :
    fs.nameOf k = q.chars ↔ ¬ (q.length < 32 ∧ fs.entryName k q.length ≠ 0) := by
  obtain ⟨hle, hall⟩ := Mem.bytes_prefix_iff.mp hk
  have hbound : (fs.entryName k).strlen 32 ≤ 32 := Mem.strlen_le
  rw [nameOf, CString.chars, Mem.bytes_eq_iff]
  constructor
  · rintro ⟨hlen, _⟩ ⟨hlt, hne⟩
    exact hne (hlen ▸ Mem.strlen_lt_zero (hlen ▸ hlt))
  · intro hend
    have hlen : (fs.entryName k).strlen 32 = q.length := by
      by_contra hne
      have hlt : q.length < (fs.entryName k).strlen 32 := by omega
      exact hend ⟨by omega, Mem.ne_zero_of_lt_strlen hlt⟩
    exact ⟨hlen, fun j hj => (hall j (hlen ▸ hj)).symm⟩

/-- What is filled in is the entry. -/
lemma filled_entry : (⟨Function.update (strncpy (fun _ => 0) (fs.entryName k) 32) 32 0,
    fs.word (fs.dentryAddr k + 32), fs.word (fs.dentryAddr k + 36)⟩ : Dentry) = fs.entry k := by
  have hle : (fs.entryName k).strlen 32 ≤ 32 := Mem.strlen_le
  unfold entry
  congr 1
  funext j
  have hget : (fs.nameOf k).getD j 0 = if j < (fs.entryName k).strlen 32 then fs.entryName k j else 0 := by
    by_cases hj : j < (fs.entryName k).strlen 32
    · rw [if_pos hj, nameOf, List.getD_eq_getElem _ _ (by rwa [Mem.length_bytes]), Mem.getElem_bytes, Nat.zero_add]
    · rw [if_neg hj, nameOf, List.getD_eq_default]
      rw [Mem.length_bytes]
      omega
  rw [hget]
  by_cases hj : j = 32
  · subst hj
    rw [Function.update_self, if_neg (by omega)]
  · rw [Function.update_of_ne hj, strncpy_apply]
    by_cases hlt : j < 32
    · rw [if_pos hlt]
    · rw [if_neg hlt, if_neg (by omega)]

/-- The search goes past the entries that do not begin with the name. -/
lemma dentryLoop_none (hq : q.length ≤ 32) (h : ∀ k, i ≤ k → k < i + fuel → ¬ q.chars <+: fs.nameOf k) :
    fs.dentryLoop q.byte q.length fuel i = none := by
  induction fuel generalizing i with
  | zero => rfl
  | succ fuel ih =>
    have hno : strncmp q.byte (fs.entryName i) q.length ≠ 0 :=
      fun hc => h i (Nat.le_refl i) (by omega) ((strncmp_entry hq).mp hc)
    rw [dentryLoop]
    refine (if_neg hno).trans (ih fun k hik hk => h k (by omega) (by omega))

/-- The search ends at the first entry that begins with the name. -/
lemma dentryLoop_first (hq : q.length ≤ 32) (hik : i ≤ k) (hk : k < i + fuel) (hmatch : q.chars <+: fs.nameOf k)
    (hfirst : ∀ j, i ≤ j → j < k → ¬ q.chars <+: fs.nameOf j) :
    fs.dentryLoop q.byte q.length fuel i = if fs.nameOf k = q.chars then some (fs.entry k) else none := by
  induction fuel generalizing i with
  | zero => omega
  | succ fuel ih =>
    rw [dentryLoop]
    rcases Nat.lt_or_ge i k with hlt | hge
    · have hno : strncmp q.byte (fs.entryName i) q.length ≠ 0 :=
        fun hc => hfirst i (Nat.le_refl i) hlt ((strncmp_entry hq).mp hc)
      exact (if_neg hno).trans (ih hlt (by omega) fun j hij hjk => hfirst j (by omega) hjk)
    · have hki : i = k := by omega
      subst hki
      refine (if_pos ((strncmp_entry hq).mpr hmatch)).trans ?_
      change (if q.length < 32 ∧ fs.entryName i q.length ≠ 0 then none else _) = _
      by_cases hname : fs.nameOf i = q.chars
      · rw [if_pos hname, if_neg ((nameOf_eq_iff hq hmatch).mp hname)]
        exact congrArg some filled_entry
      · rw [if_neg hname, if_pos]
        by_contra hend
        exact hname ((nameOf_eq_iff hq hmatch).mpr hend)

/-- The lookup of `q` is exact: it finds and fills in the entry of that name, and fails without one. -/
def LookupExact (fs : Image) (q : CString) : Prop :=
  (∀ i < fs.numEntries, fs.nameOf i = q.chars → fs.readDentryByName q.byte q.bound = some (fs.entry i)) ∧
    ((∀ i < fs.numEntries, fs.nameOf i ≠ q.chars) → fs.readDentryByName q.byte q.bound = none)

/-- A longer name than any in the directory. -/
lemma not_name_of_long (hq : 32 < q.length) : fs.nameOf i ≠ q.chars := by
  intro hname
  have hle : (fs.entryName i).strlen 32 ≤ 32 := Mem.strlen_le
  have hlen := (Mem.bytes_eq_iff.mp hname).1
  omega

end Image

open Image in
/-- In a directory of distinct names the lookup is exact unless an entry before the one of this name goes on
after it. -/
theorem lookup_exact_iff (fs : Image) (q : CString)
    (hdistinct : ∀ i < fs.numEntries, ∀ k < fs.numEntries, fs.nameOf i = fs.nameOf k → i = k) :
    fs.LookupExact q ↔
      ∀ i < fs.numEntries, fs.nameOf i = q.chars → ∀ k < i, ¬ q.chars <+: fs.nameOf k := by
  rw [LookupExact, readDentryByName_eq]
  by_cases hlong : q.length > 32
  · rw [if_pos hlong]
    constructor
    · intro _ i _ hname
      exact absurd hname (not_name_of_long hlong)
    · intro _
      exact ⟨fun i _ hname => absurd hname (not_name_of_long hlong), fun _ => rfl⟩
  · have hq : q.length ≤ 32 := Nat.not_lt.mp hlong
    rw [if_neg hlong]
    constructor
    · rintro ⟨hfound, _⟩ i hi hname k hk hstarts
      -- the first entry that begins with the name is not the one that has it, and ends the search
      classical
      have hex : ∃ k, q.chars <+: fs.nameOf k := ⟨k, hstarts⟩
      have hfirst := Nat.find_spec hex
      have hle : Nat.find hex ≤ k := Nat.find_min' hex hstarts
      have hother : fs.nameOf (Nat.find hex) ≠ q.chars := by
        intro hc
        have := hdistinct _ (by omega) i hi (hc.trans hname.symm)
        omega
      have hnone : fs.dentryLoop q.byte q.length fs.numEntries 0 = _ :=
        dentryLoop_first hq (Nat.zero_le _) (by omega) hfirst fun j _ hj => Nat.find_min hex hj
      rw [if_neg hother, hfound i hi hname] at hnone
      cases hnone
    · intro hno
      refine ⟨fun i hi hname => ?_, fun habsent => ?_⟩
      · have hstarts : q.chars <+: fs.nameOf i := ⟨[], by rw [List.append_nil, hname]⟩
        rw [dentryLoop_first hq (Nat.zero_le i) (by omega) hstarts fun j _ hj => hno i hi hname j hj, if_pos hname]
      · by_cases hex : ∃ k, k < fs.numEntries ∧ q.chars <+: fs.nameOf k
        · classical
          have hfirst := Nat.find_spec hex
          rw [dentryLoop_first hq (Nat.zero_le _) (by omega) hfirst.2 fun j _ hj hc =>
            Nat.find_min hex hj ⟨by omega, hc⟩, if_neg (habsent _ hfirst.1)]
        · exact dentryLoop_none hq fun k _ hk hc => hex ⟨k, by omega, hc⟩

/-- A directory with the entries `ab` and `a`, in this order. -/
def twoNames : Image :=
  ⟨fun a => if a = 0x100000 then 2 else if a = 0x100040 ∨ a = 0x100080 then 97 else if a = 0x100041 then 98 else 0,
    0x100000, 0x101000⟩

/-- No name comes twice. -/
lemma twoNames_distinct : ∀ i < twoNames.numEntries, ∀ k < twoNames.numEntries,
    twoNames.nameOf i = twoNames.nameOf k → i = k := by
  decide

/-- The name `ab`. -/
theorem lookup_exact_iff_ab :
    twoNames.LookupExact ⟨fun i => if i = 0 then 97 else if i = 1 then 98 else 0, 2, rfl⟩ :=
  (lookup_exact_iff twoNames _ twoNames_distinct).mpr (by decide)

/-- The entry `a` is not found behind the entry `ab`. -/
theorem lookup_misses_name : ¬ twoNames.LookupExact ⟨fun i => if i = 0 then 97 else 0, 1, rfl⟩ := by
  intro h
  have hfound := h.1 1 (by decide) (by decide)
  have hnone : twoNames.readDentryByName (fun i => if i = 0 then 97 else 0) 1 = none := rfl
  rw [hnone] at hfound
  cases hfound

end Boss
