import Boss.Lib.Lines
import Boss.Lib.Memory
import Mathlib.Data.List.Infix

/-!
# The user program `grep`

`do_one_file` of `ece391grep.c` reads a file into a buffer of 1024 bytes, searches the lines that are in it and moves the
beginning of the last line down, so that the next `read` fills in the rest of it. One byte more belongs to the buffer,
where the zero byte behind a full buffer goes.

`grep_iff` says when it prints the lines with the string, as it should. Two things go wrong:
* Whether what was read ends with a line is decided by the byte behind it, and for the first full buffer that is a byte
  nobody has written. If it happens to be a line break, the line across the end of the buffer is taken for two lines.
* The first character of the string, a signed `char`, is compared with an unsigned byte of the buffer. They are never
  equal if the character is above 127.

The lines in a buffer are followed with `line_induction` (`lineLoop_searched`), the file by induction on the reads
(`readLoop_shows`, and `readLoop_strays` with a stray line break behind the buffer).
-/

namespace Boss
open Lib Lib.Lines

/-! ### The string functions of the user programs -/

/-- `ece391_strncmp`. -/
def ece391Strncmp (m1 m2 : Mem) : (n s1 s2 : Nat) → Int
  | 0, _, _ => 0
  | n + 1, s1, s2 =>
    if m1 s1 = m2 s2 then if m1 s1 = 0 ∨ n = 0 then 0 else ece391Strncmp m1 m2 n (s1 + 1) (s2 + 1)
    else (m1 s1).toNat - (m2 s2).toNat

/-- `ece391_strcpy`, up to `fuel` bytes. -/
def ece391Strcpy (m : Mem) : (fuel dst src : Nat) → Mem
  | 0, _, _ => m
  | fuel + 1, dst, src =>
    let m' := Function.update m dst (m src)
    if m src = 0 then m' else ece391Strcpy m' fuel (dst + 1) (src + 1)

/-- Forward copying moves a string down, over its own beginning. -/
lemma ece391Strcpy_eq {m : Mem} {fuel dst src : Nat} {bs : List UInt8} (h : m.IsStr src bs) (hlt : dst < src)
    (hfuel : bs.length < fuel) : ece391Strcpy m fuel dst src = m.put dst (bs ++ [0]) := by
  induction bs generalizing m fuel dst src with
  | nil =>
    obtain ⟨k, rfl⟩ : ∃ k, fuel = k + 1 := ⟨fuel - 1, by omega⟩
    have hz : m src = 0 := h
    rw [ece391Strcpy, if_pos hz, hz]
    rfl
  | cons b bs ih =>
    obtain ⟨k, rfl⟩ : ∃ k, fuel = k + 1 := ⟨fuel - 1, by omega⟩
    obtain ⟨hb, hne, htail⟩ := h
    rw [List.length_cons] at hfuel
    rw [ece391Strcpy, if_neg (hb ▸ hne), hb, List.cons_append, Mem.put]
    exact ih (htail.update (by omega)) (by omega) (by omega)

/-- Comparing over the length of the second string tells whether the first one begins with it. -/
lemma ece391Strncmp_eq_zero {m1 m2 : Mem} {s1 s2 : Nat} {l s : List UInt8} (h1 : m1.IsStr s1 l) (h2 : m2.IsStr s2 s) :
    ece391Strncmp m1 m2 s.length s1 s2 = 0 ↔ s <+: l := by
  induction s generalizing l s1 s2 with
  | nil => exact ⟨fun _ => List.nil_prefix, fun _ => rfl⟩
  | cons c s ih =>
    obtain ⟨hc, hne, htail⟩ := h2
    rw [List.length_cons, ece391Strncmp, hc]
    cases l with
    | nil =>
      have hz : m1 s1 = 0 := h1
      rw [hz, if_neg hne.symm, List.prefix_nil]
      refine iff_of_false (fun h => hne (UInt8.toNat_inj.mp ?_)) (List.cons_ne_nil _ _)
      change (0 : Int) - c.toNat = 0 at h
      change c.toNat = 0
      omega
    | cons d l =>
      obtain ⟨hd, hdne, hdtail⟩ := h1
      rw [hd, List.cons_prefix_cons]
      by_cases hdc : d = c
      · rw [if_pos hdc]
        split
        · next hstop =>
          have hnil : s = [] := List.length_eq_zero_iff.mp (hstop.resolve_left hdne)
          exact iff_of_true rfl ⟨hdc.symm, hnil ▸ List.nil_prefix⟩
        · exact (ih hdtail htail).trans (and_iff_right hdc.symm).symm
      · rw [if_neg hdc]
        refine iff_of_false (fun h => hdc (UInt8.toNat_inj.mp ?_)) fun h => hdc h.1.symm
        omega

/-! ### The program -/

/-- A message. -/
def ascii (s : String) : List UInt8 := s.toList.map Char.toUInt8

/-- What the system calls return: whether the file can be opened and closed, and whether read number `n` succeeds. -/
structure FileOps where
  opens : Bool
  reads : Nat → Bool
  closes : Bool

/-- The variables of `do_one_file`, what is left of the file to read, and what was printed. -/
structure Grep where
  data : Mem
  last : Nat
  rest : List UInt8
  out : List UInt8

namespace Grep

/-- `ece391_fdputs(1, s)`. -/
def fdputs (g : Grep) (s : List UInt8) : Grep := { g with out := g.out ++ s }

/-- `read` into the buffer behind what is there, if it succeeds. -/
def read (g : Grep) : Grep × Nat :=
  let cnt := min (1024 - g.last) g.rest.length
  (⟨g.data.put g.last (g.rest.take cnt), g.last + cnt, g.rest.drop cnt, g.out⟩, cnt)

/-- The end of the line. -/
def lineEnd (g : Grep) : (fuel lineEnd : Nat) → Nat
  | 0, lineEnd => lineEnd
  | fuel + 1, lineEnd =>
    if lineEnd < g.last ∧ g.data lineEnd ≠ 10 then g.lineEnd fuel (lineEnd + 1) else lineEnd

/-- The `for` loop over the line: it stops where the string is found. The characters of `s` are signed and those of
`data` are not. -/
def search (data s : Mem) (sLen : Nat) : (fuel check : Nat) → Bool
  | 0, _ => false
  | fuel + 1, check =>
    if (s 0).toInt8.toInt = (data check).toNat ∧ ece391Strncmp data s sLen check 0 = 0 then true
    else search data s sLen fuel (check + 1)

/-- Copy from `lineStart` to `last` down to 0 and fix `last`. -/
def slide (g : Grep) (lineStart lineEnd : Nat) : Grep :=
  let g := { g with data := Function.update g.data lineEnd 0 }
  { g with data := ece391Strcpy g.data 1025 0 lineStart, last := g.last - lineStart }

/-- Search the line, and print it if the string is found. -/
def searchLine (g : Grep) (s fname : CString) (lineStart lineEnd : Nat) : Grep :=
  let g := { g with data := Function.update g.data lineEnd 0 }
  if search g.data s.byte s.length (lineEnd - lineStart) lineStart then
    (((g.fdputs fname.chars).fdputs [58]).fdputs
      (g.data.bytes lineStart (Mem.strlen (fun i => g.data (lineStart + i)) 1024))).fdputs [10]
  else g

/-- The inner loop. -/
def lineLoop (s fname : CString) (cnt : Nat) : (fuel lineStart : Nat) → Grep → Option Grep
  | 0, _, _ => none
  | fuel + 1, lineStart, g =>
    let lineEnd := g.lineEnd 1024 lineStart
    if g.data lineEnd ≠ 10 ∧ cnt ≠ 0 ∧ lineStart ≠ 0 then some (g.slide lineStart lineEnd)
    else
      let g := g.searchLine s fname lineStart lineEnd
      let lineStart := lineEnd + 1
      if lineStart ≥ g.last then some { g with last := 0 } else lineLoop s fname cnt fuel lineStart g

/-- The outer loop, with the number of the next read; its result is that of `do_one_file`, but for `close`. -/
def readLoop (ops : FileOps) (s fname : CString) : (fuel n : Nat) → Grep → Option (Grep × Int)
  | 0, _, _ => none
  | fuel + 1, n, g =>
    if ops.reads n = false then some (g.fdputs (ascii "file read failed\n"), -1)
    else
      let (g, cnt) := g.read
      (lineLoop s fname cnt 1025 0 g).bind fun g => if cnt = 0 then some (g, 0) else readLoop ops s fname fuel (n + 1) g

/-- `do_one_file`, with what it prints and returns. `data` is what is in the buffer before; `none` if the loops do not
end. -/
def doOneFile (ops : FileOps) (s fname : CString) (file : List UInt8) (data : Mem) : Option (List UInt8 × Int) :=
  if ops.opens = false then some (ascii "file open failed\n", -1)
  else
    (readLoop ops s fname (file.length + 1) 0 ⟨data, 0, file, []⟩).map fun (g, ret) =>
      if ret = -1 then (g.out, -1)
      else if ops.closes = false then (g.out ++ ascii "file close failed\n", -1)
      else (g.out, 0)

/-! ### What it should print -/

/-- The output for one line. -/
def printed (s fname : CString) (l : List UInt8) : List UInt8 :=
  if s.chars <:+: l then fname.chars ++ [58] ++ l ++ [10] else []

/-- The output for a file: each line that contains the string, behind the name of the file. -/
def grepped (s fname : CString) (file : List UInt8) : List UInt8 := eachLine 10 (printed s fname) file

/-- `do_one_file` prints this and returns 0. -/
def Greps (ops : FileOps) (s fname : CString) (file : List UInt8) (data : Mem) : Prop :=
  doOneFile ops s fname file data = some (grepped s fname file, 0)

/-- The end of the first full buffer that does not end with a line. All buffers before it do, so that it is at a
multiple of 1024. -/
def FirstCut (file : List UInt8) (c : Nat) : Prop :=
  ∃ k, c = 1024 * (k + 1) ∧ c ≤ file.length ∧ file.getD (c - 1) 0 ≠ 10 ∧ ∀ j < k, file.getD (1024 * (j + 1) - 1) 0 = 10

/-- The line that goes on at `c`. -/
def lineAt (file : List UInt8) (c : Nat) : List UInt8 := lastLine 10 (file.take c) ++ firstLine 10 (file.drop c)

/-! ### One line -/

/-- What is printed for a line: nothing, if the string begins with a character above 127. -/
def shown (s fname : CString) (l : List UInt8) : List UInt8 :=
  if s.byte 0 < 128 ∧ s.chars <:+: l then fname.chars ++ [58] ++ l ++ [10] else []

/-- What is printed for lines. -/
def shownAll (s fname : CString) (t : List UInt8) : List UInt8 := eachLine 10 (shown s fname) t

section
variable {g : Grep} {s fname : CString} {cnt fuel a : Nat} {u l : List UInt8} {data pat : Mem}

/-- The bytes from `a` to the end of what was read are `u`. -/
structure Buffered (g : Grep) (a : Nat) (u : List UInt8) : Prop where
  bytes : g.data.bytes a u.length = u
  last : a + u.length = g.last
  small : g.last ≤ 1024
  nul : 0 ∉ u

/-- The scan finds the end of the line. -/
lemma lineEnd_eq (h : g.data.bytes a u.length = u) (hlast : a + u.length = g.last) (hfuel : u.length ≤ fuel) :
    g.lineEnd fuel a = a + (firstLine 10 u).length := by
  induction u generalizing a fuel with
  | nil =>
    cases fuel with
    | zero => rfl
    | succ fuel => exact if_neg fun hlt => absurd hlt.1 (by rw [← hlast]; exact Nat.lt_irrefl _)
  | cons c u ih =>
    obtain ⟨k, rfl⟩ : ∃ k, fuel = k + 1 := ⟨fuel - 1, by rw [List.length_cons] at hfuel; omega⟩
    rw [List.length_cons, Mem.bytes_succ, List.cons.injEq] at h
    rw [List.length_cons] at hlast hfuel
    rw [lineEnd, h.1, firstLine]
    by_cases hc : c = 10
    · rw [if_neg fun hlt => hlt.2 hc, List.takeWhile_cons_of_neg (by simp [hc])]
      rfl
    · rw [if_pos ⟨by omega, hc⟩, List.takeWhile_cons_of_pos (by simp [hc]), ih h.2 (by omega) (by omega), firstLine,
        List.length_cons]
      omega

/-- A signed character compared with a byte. -/
lemma toInt_toInt8 {b d : UInt8} : b.toInt8.toInt = d.toNat ↔ b < 128 ∧ b = d := by
  have hcond : b.toInt8.toInt = _ := BitVec.toInt_eq_toNat_cond b.toBitVec
  have hb := b.toNat_lt
  have hd := d.toNat_lt
  rw [hcond, UInt8.toNat_toBitVec, UInt8.lt_iff_toNat_lt, ← UInt8.toNat_inj]
  change _ ↔ b.toNat < 128 ∧ _
  split
  · omega
  · omega

/-- The search finds the string if and only if it is in the line and its first character is not negative. -/
lemma search_eq {t : List UInt8} (h : data.IsStr a l) (hpat : pat.IsStr 0 t) (ht : t ≠ []) :
    search data pat t.length l.length a = decide (pat 0 < 128 ∧ t <:+: l) := by
  induction l generalizing a with
  | nil =>
    rw [List.length_nil, search]
    exact (decide_eq_false fun hin => ht (List.infix_nil.mp hin.2)).symm
  | cons d l ih =>
    have hcmp := ece391Strncmp_eq_zero h hpat
    have hhead : t <+: d :: l → pat 0 = data a := by
      intro hstarts
      cases t with
      | nil => exact absurd rfl ht
      | cons c t => rw [hpat.1, h.1, (List.cons_prefix_cons.mp hstarts).1]
    rw [List.length_cons, search, ih h.2.2]
    by_cases hstarts : pat 0 < 128 ∧ t <+: d :: l
    · rw [if_pos ⟨toInt_toInt8.mpr ⟨hstarts.1, hhead hstarts.2⟩, hcmp.mpr hstarts.2⟩]
      exact (decide_eq_true ⟨hstarts.1, List.infix_cons_iff.mpr (Or.inl hstarts.2)⟩).symm
    · rw [if_neg fun hc => hstarts ⟨(toInt_toInt8.mp hc.1).1, hcmp.mp hc.2⟩]
      refine decide_eq_decide.mpr (and_congr_right fun hlow => ?_)
      exact ⟨fun hin => List.infix_cons_iff.mpr (Or.inr hin),
        fun hin => (List.infix_cons_iff.mp hin).resolve_left fun hp => hstarts ⟨hlow, hp⟩⟩

/-- The state when the line `l` at `a` has been searched. -/
def past (g : Grep) (s fname : CString) (a : Nat) (l : List UInt8) : Grep :=
  { g with data := Function.update g.data (a + l.length) 0, out := g.out ++ shown s fname l }

/-- The zero byte behind the line is all that changes in the buffer. -/
lemma past_data {i : Nat} (hi : i ≠ a + l.length) : (g.past s fname a l).data i = g.data i :=
  Function.update_of_ne hi _ _

/-- The search in one line shows it if it holds the string. -/
lemma searchLine_eq (h : g.data.bytes a l.length = l) (hz : 0 ∉ l) (hlen : l.length ≤ 1024) (hs : s.chars ≠ []) :
    g.searchLine s fname a (a + l.length) = g.past s fname a l := by
  have hline := Mem.isStr_of_bytes h hz
  have hlength : s.length = s.chars.length := Mem.length_bytes.symm
  rw [searchLine, Nat.add_sub_cancel_left, hlength, search_eq hline s.isStr hs, hline.strlen hlen, hline.bytes, past,
    shown]
  by_cases hin : s.byte 0 < 128 ∧ s.chars <:+: l
  · rw [if_pos (decide_eq_true hin), if_pos hin]
    simp only [fdputs, List.append_assoc]
  · rw [if_neg (mt of_decide_eq_true hin), if_neg hin, List.append_nil]

/-- An empty line shows nothing. -/
lemma shown_nil (hs : s.chars ≠ []) : shown s fname [] = [] := if_neg fun hin => hs (List.infix_nil.mp hin.2)

/-! ### The lines of a buffer -/

/-- A line that ends in the buffer. -/
lemma lineLoop_line (h : Buffered g a (l ++ 10 :: u)) (hl : 10 ∉ l) (hs : s.chars ≠ []) :
    lineLoop s fname cnt (fuel + 1) a g = if u = [] then some { g.past s fname a l with last := 0 }
      else lineLoop s fname cnt fuel (a + l.length + 1) (g.past s fname a l) := by
  have hlen : (l ++ 10 :: u).length = l.length + (u.length + 1) := by rw [List.length_append, List.length_cons]
  have hlast := h.last
  have hsmall := h.small
  have hbytes := h.bytes
  rw [hlen, Mem.bytes_add, Mem.bytes_succ] at hbytes
  obtain ⟨hbytes, htail⟩ := List.append_inj hbytes Mem.length_bytes
  have hend : g.lineEnd 1024 a = a + l.length := by
    rw [lineEnd_eq h.bytes h.last (by omega), firstLine_line hl]
  have hnl : g.data (a + l.length) = 10 := (List.cons.inj htail).1
  have hz : 0 ∉ l := fun hmem => h.nul (List.mem_append_left _ hmem)
  have hnil : a + l.length + 1 ≥ g.last ↔ u = [] := by
    rw [← List.length_eq_zero_iff]
    omega
  rw [lineLoop]
  simp only [hend]
  rw [if_neg fun hc => hc.1 hnl, searchLine_eq hbytes hz (by omega) hs]
  exact if_congr hnil rfl rfl

/-- What is behind the last line break is moved down if there is more to read. -/
lemma lineLoop_slide (h : Buffered g a u) (hu : 10 ∉ u) (hc : g.data g.last ≠ 10 ∧ cnt ≠ 0 ∧ a ≠ 0) :
    lineLoop s fname cnt (fuel + 1) a g = some { g with
      data := Mem.put (Function.update g.data g.last 0) 0 (u ++ [0]), last := u.length } := by
  have hlast := h.last
  have hsmall := h.small
  have hend : g.lineEnd 1024 a = g.last := by
    rw [lineEnd_eq h.bytes h.last (by omega), firstLine_last hu, h.last]
  have hstr := Mem.isStr_of_bytes h.bytes h.nul
  rw [h.last] at hstr
  have hsub : g.last - a = u.length := by omega
  rw [lineLoop]
  simp only [hend]
  rw [if_pos hc, slide]
  simp only [hsub]
  rw [ece391Strcpy_eq hstr (by omega) (by omega)]

/-- Else it is searched. -/
lemma lineLoop_last (h : Buffered g a u) (hu : 10 ∉ u) (hc : ¬ (g.data g.last ≠ 10 ∧ cnt ≠ 0 ∧ a ≠ 0))
    (hs : s.chars ≠ []) : lineLoop s fname cnt (fuel + 1) a g = some { g.past s fname a u with last := 0 } := by
  have hlast := h.last
  have hsmall := h.small
  have hend : g.lineEnd 1024 a = a + u.length := by
    rw [lineEnd_eq h.bytes h.last (by omega), firstLine_last hu]
  rw [lineLoop]
  simp only [hend]
  rw [h.last, if_neg hc, ← h.last, searchLine_eq h.bytes h.nul (by omega) hs]
  exact if_pos (by change g.last ≤ _; omega)

/-- What the inner loop leaves: the lines of `u` are shown, and what is behind the last line break is either printed
too or moved down. -/
structure Searched (s fname : CString) (cnt a : Nat) (u : List UInt8) (g g' : Grep) : Prop where
  rest : g'.rest = g.rest
  stale : g'.data 1024 = if g.last = 1024 ∧ lastLine 10 u ≠ [] then 0 else g.data 1024
  lines : (g'.last = 0 ∧ g'.out = g.out ++ shownAll s fname u ∧
      (lastLine 10 u = [] ∨ g.data g.last = 10 ∨ cnt = 0 ∨ a = 0 ∧ 10 ∉ u)) ∨
    (g.data g.last ≠ 10 ∧ cnt ≠ 0 ∧ lastLine 10 u ≠ [] ∧ g'.last = (lastLine 10 u).length ∧ g'.last < 1024 ∧
      g'.data.bytes 0 g'.last = lastLine 10 u ∧
      ∀ r, g'.out ++ shownAll s fname (lastLine 10 u ++ r) = g.out ++ shownAll s fname (u ++ r))

/-- The byte behind a full buffer, when a zero byte is stored behind what was read. -/
lemma update_last (hne : u ≠ []) : Function.update g.data g.last 0 1024 =
    if g.last = 1024 ∧ u ≠ [] then 0 else g.data 1024 := by
  rw [Function.update_apply]
  exact if_congr ⟨fun he => ⟨he.symm, hne⟩, fun hc => hc.1.symm⟩ rfl rfl

/-- The last line in the buffer. -/
lemma Searched.last (h : Buffered g a u) (hu : 10 ∉ u) (hne : u ≠ [] ∨ a = 0) (hs : s.chars ≠ []) :
    ∃ g', lineLoop s fname cnt (fuel + 1) a g = some g' ∧ Searched s fname cnt a u g g' := by
  have hlast := h.last
  have hsmall := h.small
  by_cases hc : g.data g.last ≠ 10 ∧ cnt ≠ 0 ∧ a ≠ 0
  · have hne' : u ≠ [] := hne.resolve_right hc.2.2
    have hlen : u.length < 1024 := by omega
    refine ⟨_, lineLoop_slide h hu hc, rfl, ?_, Or.inr ⟨hc.1, hc.2.1, ?_, ?_, hlen, ?_, fun r => ?_⟩⟩
    · have hput := @Mem.put_apply (Function.update g.data g.last 0) 0 1024 (u ++ [0])
      rw [List.length_append, List.length_singleton, if_neg (by omega)] at hput
      rw [lastLine_last hu]
      exact hput.trans (update_last hne')
    · rw [lastLine_last hu]
      exact hne'
    · rw [lastLine_last hu]
    · rw [lastLine_last hu]
      exact (Mem.isStr_put h.nul).bytes
    · rw [lastLine_last hu]
  · refine ⟨_, lineLoop_last h hu hc hs, rfl, ?_, Or.inl ⟨rfl, ?_, ?_⟩⟩
    · rw [lastLine_last hu]
      by_cases hnil : u = []
      · have hz : a = 0 := hne.resolve_left fun hn => hn hnil
        have hlen : u.length = 0 := List.length_eq_zero_iff.mpr hnil
        rw [if_neg fun hfull => hfull.2 hnil]
        exact @past_data g s fname a u _ (by omega)
      · rw [← update_last hnil, ← h.last]
        rfl
    · rw [shownAll, eachLine_last hu]
      rfl
    · by_cases hten : g.data g.last = 10
      · exact Or.inr (Or.inl hten)
      by_cases hcnt : cnt = 0
      · exact Or.inr (Or.inr (Or.inl hcnt))
      · exact Or.inr (Or.inr (Or.inr ⟨by_contra fun ha => hc ⟨hten, hcnt, ha⟩, hu⟩))

/-- The buffer behind a line. -/
lemma Buffered.tail (h : Buffered g a (l ++ 10 :: u)) : Buffered (g.past s fname a l) (a + l.length + 1) u := by
  have hlen : (l ++ 10 :: u).length = l.length + (u.length + 1) := by rw [List.length_append, List.length_cons]
  have hlast := h.last
  have hbytes := h.bytes
  rw [hlen, Mem.bytes_add, Mem.bytes_succ] at hbytes
  obtain ⟨_, htail⟩ := List.append_inj hbytes Mem.length_bytes
  refine ⟨?_, by rw [hlen] at hlast; exact Eq.trans (by omega) hlast, h.small, fun hmem => ?_⟩
  · rw [Mem.bytes_congr fun i _ => past_data (by omega)]
    exact (List.cons.inj htail).2
  · exact h.nul (List.mem_append_right _ (List.mem_cons_of_mem _ hmem))

/-- A line that ends in the buffer, and what comes behind it. -/
lemma Searched.line {g' : Grep} (h : Buffered g a (l ++ 10 :: u)) (hl : 10 ∉ l)
    (hrest : Searched s fname cnt (a + l.length + 1) u (g.past s fname a l) g') :
    Searched s fname cnt a (l ++ 10 :: u) g g' := by
  have hlast := h.last
  have hsmall := h.small
  rw [List.length_append, List.length_cons] at hlast
  have hgrepped : ∀ t, (g.past s fname a l).out ++ shownAll s fname t = g.out ++ shownAll s fname (l ++ 10 :: t) := by
    intro t
    rw [shownAll, shownAll, eachLine_line hl, ← List.append_assoc]
    rfl
  have hten : (g.past s fname a l).data (g.past s fname a l).last = g.data g.last := past_data (by change g.last ≠ _; omega)
  have hstale : (g.past s fname a l).data 1024 = g.data 1024 := past_data (by omega)
  refine ⟨hrest.rest, ?_, ?_⟩
  · rw [hrest.stale, hstale, lastLine_line]
    rfl
  · rw [lastLine_line]
    rcases hrest.lines with ⟨hzero, hout, hwhy⟩ | ⟨hnl, hcnt, hne, hlen, hlt, hbytes, hout⟩
    · refine Or.inl ⟨hzero, hout.trans (hgrepped u), ?_⟩
      rw [hten] at hwhy
      rcases hwhy with hwhy | hwhy | hwhy | ⟨hz, _⟩
      · exact Or.inl hwhy
      · exact Or.inr (Or.inl hwhy)
      · exact Or.inr (Or.inr (Or.inl hwhy))
      · cases hz
    · rw [hten] at hnl
      refine Or.inr ⟨hnl, hcnt, hne, hlen, hlt, hbytes, fun r => ?_⟩
      rw [hout, hgrepped, List.append_assoc, List.cons_append]

/-- All lines in the buffer, one after another. -/
lemma lineLoop_searched (h : Buffered g a u) (hne : u ≠ [] ∨ a = 0) (hs : s.chars ≠ []) (hfuel : u.length < fuel) :
    ∃ g', lineLoop s fname cnt fuel a g = some g' ∧ Searched s fname cnt a u g g' := by
  obtain ⟨k, rfl⟩ : ∃ k, fuel = k + 1 := ⟨fuel - 1, by omega⟩
  induction u using @line_induction _ _ (10 : UInt8) generalizing g a k with
  | last u hu => exact Searched.last h hu hne hs
  | line l u hl ih =>
    rw [List.length_append, List.length_cons] at hfuel
    rw [lineLoop_line h hl hs]
    by_cases hu : u = []
    · subst hu
      have hlast := h.last
      have hsmall := h.small
      rw [List.length_append, List.length_singleton] at hlast
      refine ⟨_, if_pos rfl, rfl, ?_, Or.inl ⟨rfl, ?_, Or.inl ?_⟩⟩
      · rw [lastLine_line, if_neg fun hfull => hfull.2 rfl]
        exact @past_data g s fname a l _ (by omega)
      · rw [shownAll, eachLine_line hl, eachLine_nil (shown_nil hs), List.append_nil]
        rfl
      · rw [lastLine_line]
        rfl
    · obtain ⟨j, rfl⟩ : ∃ j, k = j + 1 := ⟨k - 1, by omega⟩
      obtain ⟨g', hg', hsearched⟩ := ih h.tail (Or.inl hu) j (by omega)
      exact ⟨g', (if_neg hu).trans hg', .line h hl hsearched⟩

/-! ### The file -/

variable {ops : FileOps} {p : List UInt8} {n : Nat}

/-- What is behind the last line break of what was read is at the beginning of the buffer, and the lines that are left
are short and have no zero bytes. -/
structure Ready (g : Grep) (p : List UInt8) : Prop where
  bytes : g.data.bytes 0 p.length = p
  last : g.last = p.length
  small : p.length < 1024
  nul : 0 ∉ p ++ g.rest
  bounded : Bounded 10 1024 (p ++ g.rest)

/-- The bytes that `read` gets. -/
def got (g : Grep) : List UInt8 := g.rest.take g.read.2

/-- As many bytes as the read has returned. -/
lemma length_got : g.got.length = g.read.2 := List.length_take_of_le (Nat.min_le_right ..)

/-- What was read, and what is left of the file. -/
lemma got_append : g.got ++ g.read.1.rest = g.rest := List.take_append_drop ..

/-- A `read` that does not fill the buffer gets the rest of the file. -/
lemma read_full (h : g.last < 1024) : g.read.1.rest = [] ∨ g.read.1.last = 1024 := by
  by_cases hle : g.rest.length ≤ 1024 - g.last
  · exact Or.inl (List.drop_eq_nil_of_le (Nat.le_min.mpr ⟨hle, Nat.le_refl _⟩))
  · have hcnt : g.read.2 = 1024 - g.last := Nat.min_eq_left (by omega)
    refine Or.inr ?_
    change g.last + g.read.2 = 1024
    omega

/-- What is in the buffer behind a read. -/
lemma Ready.buffered (h : Ready g p) : Buffered g.read.1 0 (p ++ g.got) where
  bytes := by
    have hput : Mem.bytes (g.data.put p.length g.got) 0 p.length = g.data.bytes 0 p.length := by
      refine Mem.bytes_congr fun i hi => ?_
      rw [Mem.put_apply, if_neg (by omega)]
    have hdata : g.read.1.data = g.data.put p.length g.got := by
      rw [← h.last]
      rfl
    rw [List.length_append, Mem.bytes_add, hdata, hput, h.bytes, Nat.zero_add, Mem.bytes_put]
  last := by
    rw [List.length_append, length_got, ← h.last, Nat.zero_add]
    rfl
  small := by
    have hsmall := h.small
    have hlast := h.last
    have hcnt : g.read.2 ≤ 1024 - g.last := Nat.min_le_left ..
    change g.last + g.read.2 ≤ 1024
    omega
  nul := fun hmem => h.nul (by
    rw [← @got_append g, ← List.append_assoc]
    exact List.mem_append_left _ hmem)

/-- The byte behind a full buffer is not read into. -/
lemma Ready.stale (h : Ready g p) : g.read.1.data 1024 = g.data 1024 := by
  have hsmall := h.buffered.small
  have hput : g.read.1.data 1024 = _ := @Mem.put_apply g.data g.last 1024 g.got
  rw [hput, length_got, if_neg]
  change ¬ (g.last ≤ 1024 ∧ 1024 < g.read.1.last)
  omega

/-- What is left when the lines of the buffer are searched. -/
lemma Ready.right {g' : Grep} {w q : List UInt8} (h : Ready g p) (hu : p ++ g.got = w ++ q) (hrest : g'.rest = g.read.1.rest)
    (hbytes : g'.data.bytes 0 q.length = q) (hlast : g'.last = q.length) (hsmall : q.length < 1024) : Ready g' q := by
  have hall : p ++ g.rest = w ++ (q ++ g'.rest) := by
    rw [← @got_append g, ← List.append_assoc, hu, hrest, List.append_assoc]
  have hnul := h.nul
  have hbounded := h.bounded
  rw [hall] at hnul hbounded
  exact ⟨hbytes, hlast, hsmall, fun hmem => hnul (List.mem_append_right _ hmem), hbounded.right⟩

/-- One round of the loop. -/
lemma readLoop_succ {g' : Grep} (hreads : ops.reads n = true) (hg' : lineLoop s fname g.read.2 1025 0 g.read.1 = some g') :
    readLoop ops s fname (fuel + 1) n g = if g.read.2 = 0 then some (g', 0) else readLoop ops s fname fuel (n + 1) g' := by
  rw [readLoop, if_neg (by rw [hreads]; exact Bool.noConfusion)]
  change (lineLoop s fname g.read.2 1025 0 g.read.1).bind _ = _
  rw [hg']
  rfl

/-- Where nothing is behind the last line break, or all is read, the output for the buffer is the output for this part of
the file. -/
lemma shownAll_append {t : List UInt8} (hs : s.chars ≠ []) (h : lastLine 10 u = [] ∨ t = []) :
    shownAll s fname (u ++ t) = shownAll s fname u ++ shownAll s fname t := by
  rcases h with hlast | rfl
  · obtain ⟨w, hw, hwhole⟩ := exists_whole 10 u
    rw [hlast, List.append_nil] at hw
    rw [← hw] at hwhole
    exact eachLine_append (shown_nil hs) hwhole
  · rw [List.append_nil, shownAll, shownAll, eachLine_nil (shown_nil hs), List.append_nil]

/-- The text is what is in the buffer and what is left of the file. -/
lemma Ready.split (h : Ready g p) : p ++ g.rest = (p ++ g.got) ++ g.read.1.rest ∧
    g.rest.length = g.read.2 + g.read.1.rest.length ∧ p.length + g.read.2 = g.read.1.last := by
  refine ⟨by rw [List.append_assoc, got_append], ?_, by rw [← h.last]; rfl⟩
  rw [← @got_append g, List.length_append, length_got]

/-- No stray line break is behind a full buffer, or there is not enough to fill one. -/
def Tidy (g : Grep) (p : List UInt8) : Prop := g.data 1024 ≠ 10 ∨ p.length + g.rest.length < 1024

/-- A buffer of which nothing is moved down ends with a line or with the file. -/
lemma Ready.done (h : Ready g p) (htidy : Tidy g p)
    (hwhy : lastLine 10 (p ++ g.got) = [] ∨ g.read.1.data g.read.1.last = 10 ∨ g.read.2 = 0 ∨ 0 = 0 ∧ 10 ∉ p ++ g.got) :
    lastLine 10 (p ++ g.got) = [] ∨ g.read.1.rest = [] := by
  obtain ⟨hsplit, hrest, hlast⟩ := h.split
  have hsmall := h.small
  have hbounded := h.bounded
  rcases @read_full g (by rw [h.last]; exact hsmall) with hnil | hfull
  · exact Or.inr hnil
  rcases hwhy with hwhole | hten | hcnt | ⟨_, hlong⟩
  · exact Or.inl hwhole
  · rw [hfull, h.stale] at hten
    rcases htidy with hne | hshort
    · exact absurd hten hne
    · omega
  · omega
  · rw [hsplit] at hbounded
    exact Or.inr (hbounded.eq_nil hlong (by rw [List.length_append, length_got]; omega))

/-- One iteration of the outer loop. -/
lemma Ready.step (hreads : ∀ n, ops.reads n = true) (hs : s.chars ≠ []) (h : Ready g p) (htidy : Tidy g p) :
    ∃ g' q, (∀ fuel n, readLoop ops s fname (fuel + 1) n g =
        if g.read.2 = 0 then some (g', 0) else readLoop ops s fname fuel (n + 1) g') ∧
      Ready g' q ∧ Tidy g' q ∧ g'.rest = g.read.1.rest ∧ (g.read.2 = 0 → q = []) ∧
      g'.out ++ shownAll s fname (q ++ g'.rest) = g.out ++ shownAll s fname (p ++ g.rest) := by
  obtain ⟨hsplit, hrest, hlast⟩ := h.split
  have hsmall := h.buffered.small
  have hlen : (p ++ g.got).length = g.read.1.last := by rw [List.length_append, length_got, hlast]
  obtain ⟨g', hg', hsearched⟩ := @lineLoop_searched g.read.1 s fname g.read.2 1025 0 (p ++ g.got) h.buffered (Or.inr rfl)
    hs (by omega)
  have hnext := fun fuel n => @readLoop_succ g s fname fuel ops n g' (hreads n) hg'
  -- the byte behind a full buffer stays as it is or becomes zero
  have htidy' : ∀ q, q.length ≤ (p ++ g.got).length → Tidy g' q := by
    intro q hq
    rcases htidy with hne | hshort
    · refine Or.inl ?_
      rw [hsearched.stale, h.stale]
      split
      · decide
      · exact hne
    · refine Or.inr ?_
      rw [hsearched.rest]
      omega
  rcases hsearched.lines with ⟨hzero, hout, hwhy⟩ | ⟨_, hcnt, _, hq, hlt, hbytes, hout⟩
  · refine ⟨g', [], hnext, h.right (List.append_nil _).symm hsearched.rest rfl hzero (by decide),
      htidy' [] (Nat.zero_le _), hsearched.rest, fun _ => rfl, ?_⟩
    rw [List.nil_append, hsearched.rest, hout, hsplit, shownAll_append hs (h.done htidy hwhy), List.append_assoc]
    rfl
  · obtain ⟨w, hw, _⟩ := exists_whole 10 (p ++ g.got)
    refine ⟨g', lastLine 10 (p ++ g.got), hnext, h.right hw hsearched.rest (hq ▸ hbytes) hq (hq ▸ hlt),
      htidy' _ (List.rtakeWhile_suffix _ _).length_le, hsearched.rest, fun h0 => absurd h0 hcnt, ?_⟩
    rw [hsearched.rest, hout, ← hsplit]
    rfl

/-- With no stray line break behind a full buffer, the lines are printed as they should be. -/
lemma readLoop_shows (hreads : ∀ n, ops.reads n = true) (hs : s.chars ≠ []) (h : Ready g p)
    (htidy : Tidy g p) (hfuel : g.rest.length < fuel) :
    ∃ g', readLoop ops s fname fuel n g = some (g', 0) ∧ g'.out = g.out ++ shownAll s fname (p ++ g.rest) := by
  induction fuel generalizing g p n with
  | zero => exact absurd hfuel (Nat.not_lt_zero _)
  | succ fuel ih =>
    obtain ⟨_, hrest, hlast⟩ := h.split
    obtain ⟨g', q, hnext, hready, htidy', hrest', hend, hout⟩ := @Ready.step g s fname ops p hreads hs h htidy
    rw [hnext, ← hout]
    by_cases hcnt : g.read.2 = 0
    · have hsmall := h.small
      have hnil := (@read_full g (by rw [h.last]; exact hsmall)).resolve_right (by omega)
      rw [if_pos hcnt, hend hcnt, hrest', hnil]
      refine ⟨g', rfl, ?_⟩
      rw [List.nil_append, shownAll, eachLine_nil (shown_nil hs), List.append_nil]
    · rw [if_neg hcnt]
      exact ih hready htidy' (by rw [hrest']; omega)

/-! ### A stray line break -/

section
variable {file : List UInt8} {c : Nat}

/-- Behind the first piece of the file. -/
lemma getD_drop {i : Nat} : (file.drop 1024).getD i 0 = file.getD (1024 + i) 0 := by
  rw [List.getD_eq_getElem?_getD, List.getElem?_drop, List.getD_eq_getElem?_getD]

/-- Where the first buffer ends with a line, the first cut is that of the rest of the file. -/
lemma firstCut_drop (hnl : file.getD 1023 0 = 10) : FirstCut file (1024 + c) ↔ FirstCut (file.drop 1024) c := by
  constructor
  · rintro ⟨k, hc, hle, hcut, hbefore⟩
    cases k with
    | zero =>
      have hz : c = 0 := by omega
      rw [hz] at hcut
      exact absurd hnl hcut
    | succ k =>
      refine ⟨k, by omega, by rw [List.length_drop]; omega, ?_, fun j hj => ?_⟩
      · have hpos : 1024 + c - 1 = 1024 + (c - 1) := by omega
        rw [getD_drop, ← hpos]
        exact hcut
      · have hpos : 1024 * (j + 1 + 1) - 1 = 1024 + (1024 * (j + 1) - 1) := by omega
        rw [getD_drop, ← hpos]
        exact hbefore (j + 1) (by omega)
  · rintro ⟨k, hc, hle, hcut, hbefore⟩
    rw [List.length_drop] at hle
    rw [getD_drop] at hcut
    refine ⟨k + 1, by omega, by omega, ?_, fun j hj => ?_⟩
    · have hpos : 1024 + c - 1 = 1024 + (c - 1) := by omega
      rw [hpos]
      exact hcut
    · cases j with
      | zero => exact hnl
      | succ j =>
        have hpos : 1024 * (j + 1 + 1) - 1 = 1024 + (1024 * (j + 1) - 1) := by omega
        rw [hpos, ← getD_drop]
        exact hbefore j (by omega)

/-- There is one first cut at most. -/
lemma FirstCut.unique {c' : Nat} (h : FirstCut file c) (h' : FirstCut file c') : c = c' := by
  obtain ⟨k, rfl, _, hcut, hbefore⟩ := h
  obtain ⟨k', rfl, _, hcut', hbefore'⟩ := h'
  rcases Nat.lt_trichotomy k k' with hlt | rfl | hlt
  · exact absurd (hbefore' k hlt) hcut
  · rfl
  · exact absurd (hbefore k' hlt) hcut'

/-- The first cut is not before the end of the buffer. -/
lemma FirstCut.le (h : FirstCut file c) : 1024 ≤ c ∧ c ≤ file.length := by
  obtain ⟨k, hc, hle, _⟩ := h
  exact ⟨by omega, hle⟩

/-- A list ends with a line if its last byte is a line break. -/
lemma lastLine_take (hpos : 0 < c) (hlen : c ≤ file.length) :
    lastLine 10 (file.take c) = [] ↔ file.getD (c - 1) 0 = 10 := by
  have hne : file.take c ≠ [] := List.ne_nil_of_length_pos (by rw [List.length_take]; omega)
  have hlast : (file.take c).getLast hne = file.getD (c - 1) 0 := by
    rw [List.getLast_eq_getElem, List.getElem_take, List.getD_eq_getElem _ _ (by omega)]
    congr 1
    rw [List.length_take]
    omega
  rw [lastLine, List.rtakeWhile_eq_nil_iff]
  constructor
  · intro h
    rw [← hlast]
    simpa using h hne
  · intro h hl
    rw [hlast, h]
    decide

end

/-- What is printed where there is a line break behind a full buffer: at the first cut, the parts of a line are searched
like two lines. -/
def Strays (s fname : CString) (file out : List UInt8) : Prop :=
  (∃ c, FirstCut file c ∧ out = shownAll s fname (file.take c) ++ shownAll s fname (file.drop c)) ∨
    (∀ c, ¬ FirstCut file c) ∧ out = shownAll s fname file

/-- A first buffer that ends with a line does not matter for the cut. -/
lemma Strays.of_drop {file out : List UInt8} (hs : s.chars ≠ []) (hlen : 1024 ≤ file.length)
    (hwhole : lastLine 10 (file.take 1024) = []) (h : Strays s fname (file.drop 1024) out) :
    Strays s fname file (shownAll s fname (file.take 1024) ++ out) := by
  have hnl := (lastLine_take (by decide) hlen).mp hwhole
  rcases h with ⟨c, hc, rfl⟩ | ⟨hno, rfl⟩
  · refine Or.inl ⟨1024 + c, (firstCut_drop hnl).mpr hc, ?_⟩
    rw [List.take_add, shownAll_append hs (Or.inl hwhole), List.append_assoc, List.drop_drop]
  · refine Or.inr ⟨fun c hc => ?_, ?_⟩
    · obtain ⟨d, rfl⟩ : ∃ d, c = 1024 + d := ⟨c - 1024, by have := hc.le; omega⟩
      exact hno d ((firstCut_drop hnl).mp hc)
    · rw [← shownAll_append hs (Or.inl hwhole), List.take_append_drop]

/-- An iteration with a full buffer and a line break behind it: all of the buffer is searched, and the line break stays
if the buffer ends with a line. -/
lemma Ready.strayStep (hreads : ∀ n, ops.reads n = true) (hs : s.chars ≠ []) (h : Ready g []) (hten : g.data 1024 = 10)
    (hfull : 1024 ≤ g.rest.length) :
    ∃ g', (∀ fuel n, readLoop ops s fname (fuel + 1) n g = readLoop ops s fname fuel (n + 1) g') ∧ Ready g' [] ∧
      g'.rest = g.rest.drop 1024 ∧ g'.out = g.out ++ shownAll s fname (g.rest.take 1024) ∧
      (g'.data 1024 = 10 ↔ lastLine 10 (g.rest.take 1024) = []) := by
  have hzero : g.last = 0 := h.last
  have hcnt : g.read.2 = 1024 := by
    change min (1024 - g.last) g.rest.length = 1024
    omega
  have hgot : g.got = g.rest.take 1024 := by rw [got, hcnt]
  have hrest : g.read.1.rest = g.rest.drop 1024 := by
    rw [← hcnt]
    rfl
  have hlast : g.read.1.last = 1024 := by
    rw [← h.split.2.2, hcnt]
    rfl
  obtain ⟨g', hg', hsearched⟩ := @lineLoop_searched g.read.1 s fname g.read.2 1025 0 g.got h.buffered (Or.inr rfl) hs
    (by rw [length_got]; omega)
  have hnext := fun fuel n => (@readLoop_succ g s fname fuel ops n g' (hreads n) hg').trans (if_neg (by omega))
  have hall : g'.last = 0 ∧ g'.out = g.out ++ shownAll s fname (g.rest.take 1024) := by
    rcases hsearched.lines with ⟨hzero, hout, _⟩ | ⟨hne, _⟩
    · rw [hgot] at hout
      exact ⟨hzero, hout⟩
    · rw [hlast, h.stale] at hne
      exact absurd hten hne
  refine ⟨g', hnext, h.right (List.append_nil _).symm hsearched.rest rfl hall.1 (by decide),
    hsearched.rest.trans hrest, hall.2, ?_⟩
  rw [hsearched.stale, hgot, hlast, h.stale]
  by_cases hwhole : lastLine 10 (g.rest.take 1024) = []
  · rw [if_neg fun hc => hc.2 hwhole]
    exact iff_of_true hten hwhole
  · rw [if_pos ⟨rfl, hwhole⟩]
    exact iff_of_false (by decide) hwhole

/-- What the loop prints where there is a stray line break behind the buffer. -/
lemma readLoop_strays (hreads : ∀ n, ops.reads n = true) (hs : s.chars ≠ []) (h : Ready g []) (hten : g.data 1024 = 10)
    (hfuel : g.rest.length < fuel) :
    ∃ g' out, readLoop ops s fname fuel n g = some (g', 0) ∧ g'.out = g.out ++ out ∧ Strays s fname g.rest out := by
  induction fuel generalizing g n with
  | zero => exact absurd hfuel (Nat.not_lt_zero _)
  | succ fuel ih =>
    by_cases hshort : g.rest.length < 1024
    · have htidy : Tidy g [] := Or.inr (by rw [List.length_nil, Nat.zero_add]; exact hshort)
      obtain ⟨g', hg', hout⟩ := @readLoop_shows g s fname (fuel + 1) ops [] n hreads hs h htidy hfuel
      refine ⟨g', _, hg', hout, Or.inr ⟨fun c hc => ?_, rfl⟩⟩
      have := hc.le
      omega
    have hfull : 1024 ≤ g.rest.length := Nat.le_of_not_lt hshort
    obtain ⟨g', hnext, hready, hrest, hout, hstale⟩ := @Ready.strayStep g s fname ops hreads hs h hten hfull
    have hlen : g'.rest.length < fuel := by
      rw [hrest, List.length_drop]
      omega
    by_cases hwhole : lastLine 10 (g.rest.take 1024) = []
    · obtain ⟨g'', out, hg'', hout', hstrays⟩ := @ih g' (n + 1) hready (hstale.mpr hwhole) hlen
      rw [hrest] at hstrays
      refine ⟨g'', _, (hnext fuel n).trans hg'', ?_, hstrays.of_drop hs hfull hwhole⟩
      rw [hout', hout, List.append_assoc]
    · -- the buffer ends inside a line, and the line break behind it is gone
      have htidy : Tidy g' [] := Or.inl (mt hstale.mp hwhole)
      obtain ⟨g'', hg'', hout'⟩ := @readLoop_shows g' s fname fuel ops [] (n + 1) hreads hs hready htidy hlen
      refine ⟨g'', _, (hnext fuel n).trans hg'', ?_, Or.inl ⟨1024, ?_, rfl⟩⟩
      · rw [hout', hout, hrest, List.append_assoc]
        rfl
      · exact ⟨0, rfl, hfull, mt (lastLine_take (by decide) hfull).mpr hwhole, fun j hj => absurd hj (Nat.not_lt_zero _)⟩

/-! ### Is it what should be printed? -/

/-- A line is printed as it should be if the string begins with a character up to 127. -/
lemma shownAll_eq (hlow : s.byte 0 < 128) : shownAll s fname = grepped s fname := by
  have hshown : shown s fname = printed s fname := funext fun l => if_congr (and_iff_right hlow) rfl rfl
  funext t
  rw [shownAll, hshown, grepped]

/-- Else nothing is printed. -/
lemma shownAll_nil (hhigh : ¬ s.byte 0 < 128) : shownAll s fname u = [] :=
  List.flatMap_eq_nil_iff.mpr fun _ _ => if_neg fun hc => hhigh hc.1

/-- Nothing is shown if no line holds the string. -/
lemma grepped_eq_nil_iff : grepped s fname u = [] ↔ ∀ l ∈ u.splitOn 10, ¬ s.chars <:+: l := by
  rw [grepped, eachLine, List.flatMap_eq_nil_iff]
  refine forall₂_congr fun l _ => ?_
  rw [printed]
  split
  · next hin => exact iff_of_false (by simp) (not_not.mpr hin)
  · next hin => exact iff_of_true rfl hin

/-- Two parts of a line are never printed like the line, not even by the length of the output. -/
lemma printed_append_iff {l' : List UInt8} (hs : s.chars ≠ []) (hl : l ≠ []) :
    printed s fname (l ++ l') = printed s fname l ++ printed s fname l' ↔ l' = [] ∨ ¬ s.chars <:+: l ++ l' := by
  have hlen : 0 < l.length := List.length_pos_iff.mpr hl
  constructor
  · intro h
    by_contra hno
    obtain ⟨hne, hin⟩ := not_or.mp hno
    have hlen' : 0 < l'.length := List.length_pos_iff.mpr hne
    have hlengths := congrArg List.length h
    rw [printed, if_pos (not_not.mp hin), printed, printed] at hlengths
    split at hlengths
    all_goals
      split at hlengths
      all_goals
        simp only [List.length_append, List.length_singleton, List.length_nil] at hlengths
        omega
  · rintro (rfl | hno)
    · have hnil : printed s fname [] = [] := if_neg fun hin => hs (List.infix_nil.mp hin)
      rw [List.append_nil, hnil, List.append_nil]
    · have hleft : ¬ s.chars <:+: l := fun hin => hno (hin.trans (List.prefix_append l l').isInfix)
      have hright : ¬ s.chars <:+: l' := fun hin => hno (hin.trans (List.suffix_append l l').isInfix)
      rw [printed, if_neg hno, printed, if_neg hleft, printed, if_neg hright]
      rfl

/-- No line goes on behind a place if there is a line break or the end of the file. -/
lemma firstLine_drop {file : List UInt8} {c : Nat} : firstLine 10 (file.drop c) = [] ↔ file.getD c 10 = 10 := by
  rw [List.getD_eq_getElem?_getD, ← List.head?_drop]
  cases file.drop c with
  | nil => exact iff_of_true rfl rfl
  | cons x t =>
    rw [firstLine, List.takeWhile_eq_nil_iff]
    simp

/-- A cut matters if there is something on both sides of it and the string is in the line. -/
lemma grepped_cut_iff {file : List UInt8} {c : Nat} (hs : s.chars ≠ []) (h : FirstCut file c) :
    grepped s fname file = grepped s fname (file.take c) ++ grepped s fname (file.drop c) ↔
      file.getD c 10 = 10 ∨ ¬ s.chars <:+: lineAt file c := by
  have hle := h.le
  have hleft : lastLine 10 (file.take c) ≠ [] := by
    obtain ⟨k, _, _, hcut, _⟩ := h
    exact mt (lastLine_take (by omega) hle.2).mp hcut
  have hnil : printed s fname [] = [] := if_neg fun hin => hs (List.infix_nil.mp hin)
  have hcut := @eachLine_append_iff _ _ _ 10 (printed s fname) (file.take c) (file.drop c) hnil
  rw [List.take_append_drop] at hcut
  rw [grepped, grepped, grepped, hcut, printed_append_iff hs hleft, firstLine_drop]
  rfl

/-- What `do_one_file` prints, for every buffer. -/
lemma doOneFile_prints {file : List UInt8} {data : Mem} (hopens : ops.opens = true) (hreads : ∀ n, ops.reads n = true)
    (hcloses : ops.closes = true) (hs : s.chars ≠ []) (hnul : 0 ∉ file) (hlines : Bounded 10 1024 file) :
    ∃ out, doOneFile ops s fname file data = some (out, 0) ∧
      (data 1024 ≠ 10 ∧ out = shownAll s fname file ∨ data 1024 = 10 ∧ Strays s fname file out) := by
  have hready : Ready ⟨data, 0, file, []⟩ [] := ⟨rfl, rfl, by decide, hnul, hlines⟩
  by_cases hten : data 1024 = 10
  · obtain ⟨g, out, hg, hout, hstrays⟩ := @readLoop_strays ⟨data, 0, file, []⟩ s fname _ ops 0 hreads hs hready hten
      (Nat.lt_succ_self _)
    refine ⟨out, ?_, Or.inr ⟨hten, hstrays⟩⟩
    rw [doOneFile, hopens, hg, hcloses]
    exact congrArg (fun o => some (o, (0 : Int))) hout
  · obtain ⟨g, hg, hout⟩ := @readLoop_shows ⟨data, 0, file, []⟩ s fname _ ops [] 0 hreads hs hready (Or.inl hten)
      (Nat.lt_succ_self _)
    refine ⟨shownAll s fname file, ?_, Or.inl ⟨hten, rfl⟩⟩
    rw [doOneFile, hopens, hg, hcloses]
    exact congrArg (fun o => some (o, (0 : Int))) hout

end
end Grep

open Grep in
/-- `do_one_file` prints the lines with the string and nothing else, whatever is in its buffer, with two exceptions. If
the string begins with a character above 127, nothing is found. And a line is printed wrong if the string is in it, the
first buffer that does not end with a line ends inside it, and the byte behind this buffer happens to be a line break. -/
theorem grep_iff (ops : FileOps) (hopens : ops.opens = true) (hreads : ∀ n, ops.reads n = true)
    (hcloses : ops.closes = true) (s fname : CString) (hs : s.chars ≠ []) (file : List UInt8) (hnul : 0 ∉ file)
    (hlines : Bounded 10 1024 file) (data : Mem) :
    Greps ops s fname file data ↔
      if s.byte 0 < 128 then
        data 1024 ≠ 10 ∨ ∀ c, FirstCut file c → file.getD c 10 = 10 ∨ ¬ s.chars <:+: lineAt file c
      else ∀ l ∈ file.splitOn 10, ¬ s.chars <:+: l := by
  obtain ⟨out, hprints, hcases⟩ := @doOneFile_prints s fname ops file data hopens hreads hcloses hs hnul hlines
  have hgreps : Greps ops s fname file data ↔ out = grepped s fname file := by
    rw [Greps, hprints, Option.some.injEq, Prod.mk.injEq, and_iff_left rfl]
  rw [hgreps]
  split
  · next hlow =>
    rcases hcases with ⟨hten, rfl⟩ | ⟨hten, ⟨c, hc, rfl⟩ | ⟨hno, rfl⟩⟩
    · exact iff_of_true (congrFun (shownAll_eq hlow) file) (Or.inl hten)
    · rw [shownAll_eq hlow, eq_comm, grepped_cut_iff hs hc, or_iff_right (not_not.mpr hten)]
      refine ⟨fun h c' hc' => ?_, fun h => h c hc⟩
      rw [hc'.unique hc]
      exact h
    · exact iff_of_true (congrFun (shownAll_eq hlow) file) (Or.inr fun c hc => absurd hc (hno c))
  · next hhigh =>
    have hout : out = [] := by
      rcases hcases with ⟨_, rfl⟩ | ⟨_, ⟨c, hc, rfl⟩ | ⟨_, rfl⟩⟩
      · exact shownAll_nil hhigh
      · rw [shownAll_nil hhigh, shownAll_nil hhigh, List.append_nil]
      · exact shownAll_nil hhigh
    rw [hout, eq_comm, grepped_eq_nil_iff]

/-- System calls that succeed. -/
def goodOps : FileOps := ⟨true, fun _ => true, true⟩

/-- The string `a`. -/
def stringA : CString := ⟨Mem.put (fun _ => 0) 0 [97], 1, rfl⟩

/-- A file of one line with an `a`, read into a buffer of zeros. -/
theorem grep_iff_line : Grep.Greps goodOps stringA stringA [97, 98, 10] fun _ => 0 :=
  (grep_iff goodOps rfl (fun _ => rfl) rfl stringA stringA (by decide) [97, 98, 10] (by decide)
    ((@bounded_line _ _ 10 [97, 98] [] 1024 (by decide)).mpr ⟨by decide, (bounded_last List.not_mem_nil).mpr (by decide)⟩)
    fun _ => 0).mpr (Or.inl (by decide))

/-- A line of 1000 characters and one with 30 times the letter `a`, of which 23 are in the first buffer. -/
def cutFile : List UInt8 := List.replicate 1000 120 ++ 10 :: List.replicate 30 97

/-- Another byte. -/
lemma notMem_replicate {n : Nat} {x y : UInt8} (h : x ≠ y) : x ∉ List.replicate n y :=
  fun hmem => h (List.eq_of_mem_replicate hmem)

/-- The file, cut at the size of the buffer. -/
lemma cutFile_split : cutFile = (List.replicate 1000 120 ++ 10 :: List.replicate 23 97) ++ List.replicate 7 97 := by
  rw [List.append_assoc, List.cons_append, ← List.replicate_add]
  rfl

/-- The first part fills the buffer. -/
lemma cutFile_length : (List.replicate 1000 (120 : UInt8) ++ 10 :: List.replicate 23 97).length = 1024 := by
  rw [List.length_append, List.length_cons, List.length_replicate, List.length_replicate]

/-- What is read first. -/
lemma cutFile_take : cutFile.take 1024 = List.replicate 1000 120 ++ 10 :: List.replicate 23 97 := by
  rw [cutFile_split, List.take_left' cutFile_length]

/-- What is read next. -/
lemma cutFile_drop : cutFile.drop 1024 = List.replicate 7 97 := by rw [cutFile_split, List.drop_left' cutFile_length]

/-- The line that is cut, before the cut. -/
lemma cutFile_left : lastLine 10 (cutFile.take 1024) = List.replicate 23 97 := by
  rw [cutFile_take, lastLine_line, lastLine_last (notMem_replicate (by decide))]

/-- The line that is cut, behind the cut. -/
lemma cutFile_right : firstLine 10 (cutFile.drop 1024) = List.replicate 7 97 := by
  rw [cutFile_drop, firstLine_last (notMem_replicate (by decide))]

/-- The lines of the file are short enough. -/
lemma cutFile_bounded : Bounded 10 1024 cutFile := by
  refine (bounded_line (notMem_replicate (by decide))).mpr ⟨?_, (bounded_last (notMem_replicate (by decide))).mpr ?_⟩
  · rw [List.length_replicate]
    decide
  · rw [List.length_replicate]
    decide

/-- The file is a text. -/
lemma zero_notMem_cutFile : 0 ∉ cutFile := by
  intro h
  rcases List.mem_append.mp h with h | h
  · exact notMem_replicate (by decide) h
  rcases List.mem_cons.mp h with h | h
  · exact absurd h (by decide)
  · exact notMem_replicate (by decide) h

open Grep in
/-- The cut is where the buffer ends. -/
lemma cutFile_firstCut : FirstCut cutFile 1024 := by
  have hle : 1024 ≤ cutFile.length := by
    rw [cutFile_split, List.length_append, cutFile_length]
    exact Nat.le_add_right ..
  refine ⟨0, rfl, hle, fun h => ?_, fun j hj => absurd hj (Nat.not_lt_zero _)⟩
  have hnil := (lastLine_take (by decide) hle).mpr h
  rw [cutFile_left] at hnil
  cases hnil

open Grep in
/-- With line breaks in the buffer, the second line of `cutFile` is printed as two lines, of 23 and of 7 letters. -/
theorem grep_cuts_line : (∃ out, doOneFile goodOps stringA stringA cutFile (fun _ => 10) = some (out, 0) ∧
      out = grepped stringA stringA (List.replicate 1000 120 ++ 10 :: List.replicate 23 97) ++
        grepped stringA stringA (List.replicate 7 97)) ∧
    ¬ Greps goodOps stringA stringA cutFile fun _ => 10 := by
  obtain ⟨out, hprints, hcases⟩ := @doOneFile_prints stringA stringA goodOps cutFile (fun _ => 10) rfl (fun _ => rfl) rfl
    (by decide) zero_notMem_cutFile cutFile_bounded
  have hparts : out = grepped stringA stringA (cutFile.take 1024) ++ grepped stringA stringA (cutFile.drop 1024) := by
    rcases hcases with ⟨hne, _⟩ | ⟨_, ⟨c, hc, hparts⟩ | ⟨hno, _⟩⟩
    · exact absurd rfl hne
    · rw [hparts, hc.unique cutFile_firstCut, shownAll_eq (by decide)]
    · exact absurd cutFile_firstCut (hno 1024)
  refine ⟨⟨out, hprints, by rw [hparts, cutFile_take, cutFile_drop]⟩, fun h => ?_⟩
  rw [Greps, hprints] at h
  obtain ⟨hwhole, _⟩ := Prod.mk.inj (Option.some.inj h)
  rw [hparts] at hwhole
  rcases (grepped_cut_iff (by decide) cutFile_firstCut).mp hwhole.symm with hnl | hno
  · have hnil := firstLine_drop.mpr hnl
    rw [cutFile_right] at hnil
    cases hnil
  · rw [lineAt, cutFile_left, cutFile_right] at hno
    exact hno (by decide)

end Boss
