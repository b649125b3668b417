import Boss.Terminal.Numerals

/-!
# Number formatting

`itoa` and `strrev` of `lib.c` with their loops as they stand: none of them has a bound, so each has fuel here and gives
nothing when it runs out. Beside the memory, the addresses of all stores are kept.

`itoa_eq_put` says that the loops end and what they leave in the buffer, the `numeral` of `Boss.Terminal.Numerals`. The
rest is about the string itself: a reader that looks up each character in the table of `itoa` gets the number back.

`itoaAt` and `itoaText` are the memory and the string behind a call, for the models of `printf`.
-/

namespace Boss.Routines
open Lib

/-- Memory, with the addresses that have been stored to. -/
structure Trace where
  mem : Mem
  stores : List Nat

/-- A store. -/
def Trace.store (t : Trace) (a : Nat) (b : UInt8) : Trace := ⟨Function.update t.mem a b, t.stores ++ [a]⟩

/-- The digits of `itoa`, stored from `newbuf` on; with the value of `newbuf` behind them. -/
def itoaLoop (radix : Int32) : (fuel : Nat) → (newval : UInt32) → (newbuf : Nat) → Trace → Option (Nat × Trace)
  | 0, _, _, _ => none
  | fuel + 1, newval, newbuf, t =>
    if newval > 0 then
      -- `newval` is unsigned, and so `radix` is converted; a radix of 0 is a divide error
      if radix.toUInt32 = 0 then none
      else
        let i := newval % radix.toUInt32
        itoaLoop radix fuel (newval / radix.toUInt32) (newbuf + 1) (t.store newbuf (lookup i.toNat))
    else some (newbuf, t)

/-- `strlen`, from `len` on. -/
def strlenLoop (m : Mem) (s : Nat) : (fuel len : Nat) → Option Nat
  | 0, _ => none
  | fuel + 1, len => if m (s + len) ≠ 0 then strlenLoop m s fuel (len + 1) else some len

/-- The swaps of `strrev`. -/
def strrevLoop (s : Nat) : (fuel : Nat) → (beg fin : Int) → Trace → Option Trace
  | 0, _, _, _ => none
  | fuel + 1, beg, fin, t =>
    if beg < fin then
      let tmp := t.mem (s + fin).toNat
      let t := t.store (s + fin).toNat (t.mem (s + beg).toNat)
      let t := t.store (s + beg).toNat tmp
      strrevLoop s fuel (beg + 1) (fin - 1) t
    else some t

/-- `strrev`. Of an empty string, the last index is -1. -/
def strrev (fuel s : Nat) (t : Trace) : Option (Nat × Trace) := do
  let len ← strlenLoop t.mem s fuel 0
  let t ← strrevLoop s fuel 0 (len - 1) t
  return (s, t)

/-- `itoa`. -/
def itoa (fuel : Nat) (value : UInt32) (buf : Nat) (radix : Int32) (t : Trace) : Option (Nat × Trace) :=
  if value = 0 then some (buf, (t.store buf 48).store (buf + 1) 0)
  else do
    let (newbuf, t) ← itoaLoop radix fuel value buf t
    strrev fuel buf (t.store newbuf 0)

/-- The memory behind a call of `itoa`. For a radix of the table, 33 rounds are enough for each loop (`itoaAt_eq`). -/
def itoaAt (m : Mem) (value : UInt32) (buf : Nat) (radix : Int32) : Mem :=
  match itoa 33 value buf radix ⟨m, []⟩ with
  | some (_, t) => t.mem
  | none => m

/-- The string that a call of `itoa` leaves in its buffer. -/
def itoaText (value : UInt32) (radix : Int32) : List UInt8 :=
  let m := itoaAt (fun _ => 0) value 0 radix
  m.bytes 0 (strlenAt m 0)

/-- All stores are to addresses from `lo` up to `hi`. -/
def Trace.Within (lo hi : Nat) (t : Trace) : Prop := ∀ a ∈ t.stores, lo ≤ a ∧ a < hi

/-! ### The loops -/

section
variable {lo hi s fuel a r : Nat} {b : UInt8} {bs : List UInt8} {m : Mem} {t : Trace}

/-- One more store. -/
lemma Trace.Within.store (h : t.Within lo hi) (ha : lo ≤ a ∧ a < hi) : (t.store a b).Within lo hi := by
  intro i hi
  obtain hi | hi := List.mem_append.mp hi
  · exact h i hi
  · rwa [List.mem_singleton.mp hi]

/-- The digits of `itoa` are those of the number. -/
lemma itoaLoop_eq {radix : Int32} {newval : UInt32} {newbuf : Nat} (hr : radix.toUInt32.toNat = r) (h2 : 2 ≤ r)
    (hfuel : (Nat.digits r newval.toNat).length < fuel) (hw : t.Within lo hi) (hlo : lo ≤ newbuf)
    (hhi : newbuf + (Nat.digits r newval.toNat).length ≤ hi) :
    ∃ t', itoaLoop radix fuel newval newbuf t = some (newbuf + (Nat.digits r newval.toNat).length, t') ∧
      t'.mem = t.mem.put newbuf ((Nat.digits r newval.toNat).map lookup) ∧ t'.Within lo hi := by
  induction fuel generalizing newval newbuf t with
  | zero => omega
  | succ fuel ih =>
    rw [itoaLoop]
    by_cases hpos : newval > 0
    · have hpos' : 0 < newval.toNat := UInt32.lt_iff_toNat_lt.mp hpos
      have hnz : radix.toUInt32 ≠ 0 := by
        intro hz
        rw [hz, UInt32.toNat_zero] at hr
        omega
      have hdiv : (newval / radix.toUInt32).toNat = newval.toNat / r := by rw [UInt32.toNat_div, hr]
      have hmod : (newval % radix.toUInt32).toNat = newval.toNat % r := by rw [UInt32.toNat_mod, hr]
      rw [Nat.digits_def' (by omega) hpos', List.length_cons] at hfuel hhi ⊢
      rw [← hdiv] at hfuel hhi ⊢
      obtain ⟨t', hloop, hmem, hw'⟩ := ih (Nat.lt_of_succ_lt_succ hfuel) (hw.store ⟨hlo, by omega⟩)
        (by omega : lo ≤ newbuf + 1) (by omega)
      refine ⟨t', ?_, ?_, hw'⟩
      · rw [if_pos hpos, if_neg hnz, hloop, Nat.add_assoc, Nat.add_comm 1]
      · rw [hmem, List.map_cons, Mem.put, hmod]
        rfl
    · have hz : newval.toNat = 0 := Nat.eq_zero_of_not_pos fun h => hpos (UInt32.lt_iff_toNat_lt.mpr h)
      rw [if_neg hpos, hz, Nat.digits_zero]
      exact ⟨t, rfl, rfl, hw⟩

/-- The length of a string. -/
lemma strlenLoop_eq {len : Nat} (h : m.IsStr (s + len) bs) (hfuel : bs.length < fuel) :
    strlenLoop m s fuel len = some (len + bs.length) := by
  induction bs generalizing fuel len with
  | nil =>
    obtain ⟨fuel, rfl⟩ := Nat.exists_eq_add_of_lt hfuel
    exact if_neg (not_not_intro h)
  | cons b bs ih =>
    obtain ⟨hb, hne, htail⟩ := h
    cases fuel with
    | zero => exact absurd hfuel (Nat.not_lt_zero _)
    | succ fuel =>
      rw [strlenLoop, if_pos (hb ▸ hne), ih htail (Nat.lt_of_succ_lt_succ hfuel), List.length_cons, Nat.add_assoc,
        Nat.add_comm 1]

/-- The swaps turn the range from `beg` to `fin` round. -/
lemma strrevLoop_eq {beg fin : Nat} (hfuel : fin - beg < fuel) (hw : t.Within lo hi) (hlo : lo ≤ s + beg)
    (hhi : s + fin < hi) : ∃ t', strrevLoop s fuel beg fin t = some t' ∧ t'.Within lo hi ∧ ∀ i, t'.mem i =
      if s + beg ≤ i ∧ i ≤ s + fin then t.mem (s + beg + (s + fin) - i) else t.mem i := by
  induction fuel generalizing beg fin t with
  | zero => exact absurd hfuel (Nat.not_lt_zero _)
  | succ fuel ih =>
    rw [strrevLoop]
    by_cases hlt : beg < fin
    · have hpred : (fin : Int) - 1 = (fin - 1 : Nat) := by omega
      have hbeg : ((s : Int) + beg).toNat = s + beg := by omega
      have hfin : ((s : Int) + fin).toNat = s + fin := by omega
      rw [if_pos (by omega), hpred, hbeg, hfin]
      obtain ⟨t', hloop, hw', hmem⟩ := @ih ((t.store (s + fin) (t.mem (s + beg))).store (s + beg) (t.mem (s + fin)))
        (beg + 1) (fin - 1) (by omega) ((hw.store ⟨by omega, by omega⟩).store ⟨by omega, by omega⟩) (by omega) (by omega)
      refine ⟨t', hloop, hw', fun i => ?_⟩
      rw [hmem]
      change (if _ then Function.update (Function.update t.mem _ _) _ _ _ else
        Function.update (Function.update t.mem _ _) _ _ _) = _
      by_cases hb : i = s + beg
      · rw [if_neg (by omega), hb, Function.update_self, if_pos (by omega), Nat.add_sub_cancel_left]
      by_cases hf : i = s + fin
      · rw [if_neg (by omega), if_pos (by omega), Function.update_of_ne hb, hf, Function.update_self,
          Nat.add_sub_cancel]
      rw [Function.update_of_ne hb, Function.update_of_ne hf]
      refine if_ctx_congr (by omega) (fun hi => ?_) fun _ => rfl
      have hsub : s + (beg + 1) + (s + (fin - 1)) - i = s + beg + (s + fin) - i := by omega
      rw [hsub, Function.update_of_ne (by omega), Function.update_of_ne (by omega)]
    · rw [if_neg (by omega)]
      refine ⟨t, rfl, hw, fun i => ?_⟩
      split
      · next hi =>
        congr 1
        omega
      · rfl

/-- A string turned round in its place is the reversed string. -/
lemma put_reverse (hne : bs ≠ []) {m' : Mem} (h : ∀ i, m' i = if s + 0 ≤ i ∧ i ≤ s + (bs.length - 1) then
      m.put s (bs ++ [0]) (s + 0 + (s + (bs.length - 1)) - i) else m.put s (bs ++ [0]) i) :
    m' = m.put s (bs.reverse ++ [0]) := by
  have hpos := List.length_pos_of_ne_nil hne
  funext i
  rw [h, Mem.put_apply, Mem.put_apply, Mem.put_apply, List.length_append, List.length_append, List.length_reverse,
    List.length_singleton]
  by_cases hin : s ≤ i ∧ i < s + bs.length
  · have hrev : s + 0 + (s + (bs.length - 1)) - i - s = bs.length - 1 - (i - s) := by omega
    rw [if_pos (by omega), if_pos (by omega), if_pos (by omega), hrev, List.getD_append _ _ _ _ (by omega),
      List.getD_append _ _ _ _ (by rw [List.length_reverse]; omega), List.getD_reverse _ (by omega)]
  · rw [if_neg (by omega)]
    by_cases hend : i = s + bs.length
    · have hrev : i - s = bs.length := by omega
      rw [if_pos (by omega), if_pos (by omega), hrev, List.getD_append_right _ _ _ _ (by omega),
        List.getD_append_right _ _ _ _ (by rw [List.length_reverse]), List.length_reverse]
    · rw [if_neg (by omega), if_neg (by omega)]

/-- `strrev` of a string that is not empty. -/
lemma strrev_eq_put (hz : 0 ∉ bs) (hne : bs ≠ []) (hfuel : bs.length < fuel) (hmem : t.mem = m.put s (bs ++ [0]))
    (hw : t.Within s hi) (hhi : s + bs.length ≤ hi) :
    ∃ t', strrev fuel s t = some (s, t') ∧ t'.mem = m.put s (bs.reverse ++ [0]) ∧ t'.Within s hi := by
  have hpos := List.length_pos_of_ne_nil hne
  have hstr : t.mem.IsStr s bs := hmem ▸ Mem.isStr_put hz
  have hlast : ((0 + bs.length : Nat) : Int) - 1 = (bs.length - 1 : Nat) := by omega
  obtain ⟨t', hloop, hw', hmem'⟩ := @strrevLoop_eq s hi s fuel t 0 (bs.length - 1) (by omega) hw (by omega) (by omega)
  rw [hmem] at hmem'
  refine ⟨t', ?_, put_reverse hne hmem', hw'⟩
  rw [strrev, strlenLoop_eq hstr hfuel, Option.bind_eq_bind, Option.bind_some, hlast]
  rw [Nat.cast_zero] at hloop
  rw [hloop]
  rfl

end

/-! ### The call -/

section
variable {fuel buf : Nat} {value : UInt32} {radix : Int32} {t : Trace}

/-- A radix of the table, as a number. -/
lemma toNat_radix (h2 : 2 ≤ radix) (h36 : radix ≤ 36) :
    2 ≤ radix.toUInt32.toNat ∧ radix.toUInt32.toNat ≤ 36 := by
  have hval : radix.toInt = _ := @toInt_toInt32 radix.toUInt32
  have hlo : 2 ≤ radix.toInt := Int32.le_iff_toInt_le.mp h2
  have hhi : radix.toInt ≤ 36 := Int32.le_iff_toInt_le.mp h36
  split at hval
  · omega
  · have := radix.toUInt32.toNat_lt
    omega

/-- `itoa` ends and leaves the number in its buffer, as a string; all stores are to the buffer. -/
lemma itoa_eq_put (h2 : 2 ≤ radix) (h36 : radix ≤ 36) (hfuel : 33 ≤ fuel) (hw : t.Within buf (buf + 33)) :
    ∃ t', itoa fuel value buf radix t = some (buf, t') ∧
      t'.mem = t.mem.put buf (numeral radix.toUInt32.toNat value.toNat ++ [0]) ∧ t'.Within buf (buf + 33) := by
  obtain ⟨hlo, hhi⟩ := toNat_radix h2 h36
  rw [itoa]
  by_cases hz : value = 0
  · rw [if_pos hz, hz]
    exact ⟨_, rfl, rfl, (hw.store (by omega)).store (by omega)⟩
  · have hnz : value.toNat ≠ 0 := fun h => hz (UInt32.toNat_inj.mp h)
    have hlen := length_numeral hlo value.toNat_lt
    have hnul := @zero_notMem_numeral _ value.toNat ⟨hlo, hhi⟩
    rw [numeral, if_neg hnz] at hlen hnul ⊢
    rw [List.mem_reverse] at hnul
    rw [List.length_reverse] at hlen
    have hdigits := (List.length_map digit).symm.trans_le hlen
    obtain ⟨t', hloop, hmem, hw'⟩ := @itoaLoop_eq buf (buf + 33) fuel _ t radix value buf rfl hlo (by omega) hw le_rfl
      (by omega)
    rw [map_lookup ⟨hlo, hhi⟩] at hmem
    rw [if_neg hz, hloop]
    refine strrev_eq_put hnul ?_ (by omega) ?_ (hw'.store (by omega)) (by omega)
    · rw [ne_eq, List.map_eq_nil_iff]
      exact Nat.digits_ne_nil_iff_ne_zero.mpr hnz
    · rw [Mem.put_append, ← hmem, List.length_map]
      rfl

/-- `itoa` leaves the number in its buffer and touches nothing else. -/
lemma itoaAt_eq {m : Mem} (h2 : 2 ≤ radix) (h36 : radix ≤ 36) :
    itoaAt m value buf radix = m.put buf (numeral radix.toUInt32.toNat value.toNat ++ [0]) := by
  obtain ⟨t, hcall, hmem, -⟩ := @itoa_eq_put 33 buf value radix ⟨m, []⟩ h2 h36 le_rfl (List.forall_mem_nil _)
  rw [itoaAt, hcall]
  exact hmem

/-- The string is the numeral. -/
lemma itoaText_eq (h2 : 2 ≤ radix) (h36 : radix ≤ 36) :
    itoaText value radix = numeral radix.toUInt32.toNat value.toNat := by
  have hr := toNat_radix h2 h36
  have hlen := length_numeral hr.1 value.toNat_lt
  have hstr := @Mem.isStr_put (fun _ => 0) 0 _ (@zero_notMem_numeral _ value.toNat hr)
  rw [itoaText, itoaAt_eq h2 h36, strlenAt, hstr.strlen (by omega), hstr.bytes]

end

/-! ### The string -/

/-- The table of `itoa`. -/
def table : List UInt8 := (List.range 36).map lookup

/-- The number that a string of characters of the table stands for. -/
def readNumber (radix : Nat) (s : List UInt8) : Nat := s.foldl (fun v c => v * radix + table.idxOf c) 0

/-- The string at `buf` is `s`, the notation of `value` in the radix. -/
structure Formatted (m : Mem) (buf radix value : Nat) (s : List UInt8) : Prop where
  isStr : m.IsStr buf s
  digits : ∀ c ∈ s, c ∈ table.take radix
  reads : readNumber radix s = value
  ne_nil : s ≠ []
  leading : s.head? = some 48 → value = 0 ∧ s = [48]

section
variable {radix n d : Nat} {c : UInt8}

/-- The table up to a radix. -/
lemma table_take (h : radix ≤ 36) : table.take radix = (List.range radix).map digit := by
  rw [table, ← List.map_take, List.take_range, Nat.min_eq_left h]
  exact List.map_congr_left fun d hd => lookup_eq ((List.mem_range.mp hd).trans_le h)

/-- The digits are different. -/
lemma digit_inj {e : Nat} (hd : d < 36) (he : e < 36) (h : digit d = digit e) : d = e := by
  rw [digit, digit, ← UInt8.toNat_inj, UInt8.toNat_ofNat', UInt8.toNat_ofNat'] at h
  split_ifs at h <;> omega

/-- Where a digit stands in the table. -/
lemma idxOf_digit (hd : d < 36) : table.idxOf (digit d) = d := by
  have htable : table = (List.range 36).map digit := table_take le_rfl
  have hnodup : ((List.range 36).map digit).Nodup := List.nodup_range.map_on fun d hd e he h =>
    digit_inj (List.mem_range.mp hd) (List.mem_range.mp he) h
  have hget := hnodup.idxOf_getElem d (by rwa [List.length_map, List.length_range])
  rwa [List.getElem_map, List.getElem_range, ← htable] at hget

/-- The digits of a number have a place in the table. -/
lemma digits_lt (h : 2 ≤ radix ∧ radix ≤ 36) (hd : d ∈ Nat.digits radix n) : d < 36 :=
  (Nat.digits_lt_base h.1 hd).trans_le h.2

/-- A numeral has digits of its radix only. -/
lemma mem_numeral (h : 2 ≤ radix ∧ radix ≤ 36) (hc : c ∈ numeral radix n) : c ∈ table.take radix := by
  rw [table_take h.2]
  rw [numeral] at hc
  split at hc
  · exact List.mem_map.mpr ⟨0, List.mem_range.mpr (by omega), (List.mem_singleton.mp hc).symm⟩
  · obtain ⟨d, hd, rfl⟩ := List.mem_map.mp (List.mem_reverse.mp hc)
    exact List.mem_map.mpr ⟨d, List.mem_range.mpr (Nat.digits_lt_base h.1 hd), rfl⟩

/-- Read from the highest digit on, the characters give the number of the digits. -/
lemma readNumber_reverse {ds : List Nat} (h : ∀ d ∈ ds, d < 36) :
    readNumber radix (ds.map digit).reverse = Nat.ofDigits radix ds := by
  rw [readNumber, List.foldl_reverse]
  induction ds with
  | nil => rfl
  | cons d ds ih =>
    obtain ⟨hd, htail⟩ := List.forall_mem_cons.mp h
    rw [List.map_cons, List.foldr_cons, ih htail, idxOf_digit hd, Nat.ofDigits_cons, Nat.mul_comm, Nat.add_comm]

/-- A numeral is read back as its number. -/
lemma readNumber_numeral (h : 2 ≤ radix ∧ radix ≤ 36) : readNumber radix (numeral radix n) = n := by
  rw [numeral]
  split
  · next hz =>
    rw [hz]
    exact @readNumber_reverse radix [0] (by decide)
  · rw [readNumber_reverse fun d => digits_lt h, Nat.ofDigits_digits]

/-- A numeral has a digit. -/
lemma numeral_ne_nil : numeral radix n ≠ [] := by
  rw [numeral]
  split
  · exact List.cons_ne_nil _ _
  · next hnz => simpa using Nat.digits_ne_nil_iff_ne_zero.mpr hnz

/-- Only zero begins with a zero. -/
lemma head_numeral (h : 2 ≤ radix ∧ radix ≤ 36) (hhead : (numeral radix n).head? = some 48) :
    n = 0 ∧ numeral radix n = [48] := by
  by_cases hz : n = 0
  · rw [hz]
    exact ⟨rfl, rfl⟩
  · have hne := Nat.digits_ne_nil_iff_ne_zero (b := radix).mpr hz
    rw [numeral, if_neg hz, List.head?_reverse, List.getLast?_map, List.getLast?_eq_getLast_of_ne_nil hne,
      Option.map_some] at hhead
    have hlast : (Nat.digits radix n).getLast hne = 0 :=
      digit_inj (digits_lt h (List.getLast_mem hne)) (by decide) (Option.some_inj.mp hhead)
    exact absurd hlast (Nat.getLast_digit_ne_zero radix hz)

end

/-- `itoa` writes a number of 32 bits in any radix of its table, with 33 bytes at most. -/
theorem itoa_formats (value : UInt32) (radix : Int32) (h2 : 2 ≤ radix) (h36 : radix ≤ 36) (buf : Nat) (m : Mem)
    (fuel : Nat) (hfuel : 33 ≤ fuel) :
    ∃ t s, itoa fuel value buf radix ⟨m, []⟩ = some (buf, t) ∧
      Formatted t.mem buf radix.toUInt32.toNat value.toNat s ∧ t.Within buf (buf + 33) := by
  have hr := toNat_radix h2 h36
  obtain ⟨t, hcall, hmem, hw⟩ := @itoa_eq_put fuel buf value radix ⟨m, []⟩ h2 h36 hfuel (List.forall_mem_nil _)
  refine ⟨t, numeral radix.toUInt32.toNat value.toNat, hcall, ?_, hw⟩
  exact {
    isStr := hmem ▸ Mem.isStr_put (zero_notMem_numeral hr)
    digits := fun c => mem_numeral hr
    reads := readNumber_numeral hr
    ne_nil := numeral_ne_nil
    leading := head_numeral hr }

/-- The longest number: 32 binary digits. -/
theorem itoa_formats_binary : ∃ t s, itoa 33 0xFFFFFFFF 100 2 ⟨fun _ => 7, []⟩ = some (100, t) ∧
    Formatted t.mem 100 2 0xFFFFFFFF s ∧ t.Within 100 133 :=
  itoa_formats 0xFFFFFFFF 2 (by decide) (by decide) 100 (fun _ => 7) 33 le_rfl

end Boss.Routines
