import Boss.Lib.Paging
import Mathlib.Data.Fintype.Basic
import Mathlib.Tactic.FinCases

/-!
# Video page tables

The two tables that decide where a terminal's screen lives (`paging.c`, `paging.h`): `video_page_table`,
which every page directory uses for the first 4MB and which holds the kernel alias
`terminals[t].video_mem` of each screen, and `term_video_tables[t]`, whose first entry is the user alias
handed out by `vidmap`. A screen is the displayed page `VIDEO` or the backing page of its terminal, one
page further on for each terminal.

`Video` holds the tables, the physical memory and `cur_terminal`; `initKernelPd` is the table part of
`init_kernel_pd` and `switchTerminals` the body of `switch_terminals` (`keyboard.c`), statement by
statement. Reloading CR3 after a table write flushes the translations, so every access walks the tables
as they are; `move_csr` at the end of a switch writes the cursor back to where it was.
-/

namespace Boss
open Lib Lib.Paging

/-- Process numbers: `MAX_USER_PROG` is 6. -/
abbrev Pid := Fin 6

/-- Terminal numbers. -/
abbrev TermId := Fin 3

instance neZeroPid : NeZero 6 := ⟨by decide⟩

instance neZeroTerm : NeZero 3 := ⟨by decide⟩

/-- The first three processes number the terminals. -/
lemma terminal_lt (p : Pid) (h : p.val ≤ 2) : p.val < 3 := Nat.lt_succ_of_le h

/-- `KERNEL_TOP`: end of the kernel's 4MB page, start of the user frames. -/
def kernelTop : Nat := 0x00800000

/-- `MB4`. -/
def mb4 : Nat := 0x00400000

/-- `KB8`: one kernel stack together with its PCB. -/
def kb8 : Nat := 0x2000

/-- `USER_MEM_LOCATION`: 128MB. -/
def userMemLocation : Nat := 128 * 0x00100000

/-- `USER_PROG_LOCATION`. -/
def userProgLocation : Nat := 128 * 0x00100000 + 0x048000

/-- `VIDEO`: the displayed page. -/
def video : Nat := 0xB8000

/-- `USER_VIDEO`: the address `vidmap` hands out. -/
def userVideo : Nat := 0x08400000

/-- `FLAG_PRESENT`. -/
def flagPresent : Nat := 0x01

/-- `FLAG_WRITE_ENABLE`. -/
def flagWriteEnable : Nat := 0x02

/-- `FLAG_USER`. -/
def flagUser : Nat := 0x04

/-- `FLAG_4MB_PAGE`. -/
def flag4mbPage : Nat := 0x80

/-- `FLAG_GLOBAL`. -/
def flagGlobal : Nat := 0x100

/-- What is mapped while a program runs that has not called `vidmap`: the four pages of the screens, the kernel's 4MB and
the program's own. -/
def programMapped (a : Nat) : Bool :=
  decide (video ≤ a ∧ a < video + 4 * 4096 ∨ a / 0x400000 = 1 ∨ a / 0x400000 = 32)

/-- Where the linker put the tables, as frame numbers: both arrays are `aligned(4096)`, and the three rows
of `term_video_tables` are one frame each. -/
structure Link where
  /-- The frame of `video_page_table`. -/
  videoPageTable : Nat
  /-- The frame of `term_video_tables[0]`. -/
  termVideoTables : Nat
  /-- The two arrays do not overlap. -/
  apart : videoPageTable < termVideoTables ∨ termVideoTables + 3 ≤ videoPageTable

/-- The page tables of the screens, physical memory and the displayed terminal. -/
structure Video where
  /-- `video_page_table`. -/
  videoPageTable : Nat → Nat
  /-- `term_video_tables`. -/
  termVideoTables : TermId → Nat → Nat
  /-- Physical memory. -/
  phys : Mem
  /-- `cur_terminal`. -/
  curTerminal : TermId

/-- `terminals[t].video_mem`, set once by `keyboard_install`. -/
def videoMem (t : TermId) : Nat := video + 4096 * (t + 1)

namespace Video

/-- The tables a page directory can point to, by frame. -/
def tables (link : Link) (v : Video) (f : Nat) : Option (Nat → Nat) :=
  if f = link.videoPageTable then some v.videoPageTable
  else if h : link.termVideoTables ≤ f ∧ f < link.termVideoTables + 3 then
    some (v.termVideoTables ⟨f - link.termVideoTables, by omega⟩)
  else none

/-- Translation of a kernel address below 4MB: directory entry 0 is `video_page_table` in every page
directory of the kernel. -/
def kernelPa (v : Video) (va : Nat) : Option Nat :=
  let pte := v.videoPageTable (va / 0x1000 % 1024)
  if present pte then some (frame pte * 0x1000 + va % 0x1000) else none

/-- Translation of `USER_VIDEO + off` for a process of terminal `t` that has called `vidmap`. -/
def userPa (v : Video) (t : TermId) (off : Nat) : Option Nat :=
  let pte := v.termVideoTables t 0
  if present pte && userBit pte then some (frame pte * 0x1000 + off % 0x1000) else none

/-- A kernel load below 4MB. -/
def load (v : Video) (va : Nat) : UInt8 :=
  match v.kernelPa va with
  | some pa => v.phys pa
  | none => 0

/-- A kernel store below 4MB. -/
def store (v : Video) (va : Nat) (b : UInt8) : Video :=
  match v.kernelPa va with
  | some pa => { v with phys := Function.update v.phys pa b }
  | none => v

/-- A user store at `USER_VIDEO + off` by a process of terminal `t`. -/
def userStore (v : Video) (t : TermId) (off : Nat) (b : UInt8) : Video :=
  match v.userPa t off with
  | some pa => { v with phys := Function.update v.phys pa b }
  | none => v

/-- `memcpy` between kernel addresses below 4MB. -/
def memcpy (v : Video) (dst src : Nat) : Nat → Video
  | 0 => v
  | n + 1 =>
    let w := memcpy v dst src n
    w.store (dst + n) (w.load (src + n))

/-- Replace one entry of `video_page_table`. -/
def setPage (v : Video) (i w : Nat) : Video :=
  { v with videoPageTable := Function.update v.videoPageTable i w }

/-- Replace the first entry of `term_video_tables[t]`. -/
def setTermPage (v : Video) (t : TermId) (w : Nat) : Video :=
  { v with termVideoTables :=
      Function.update v.termVideoTables t (Function.update (v.termVideoTables t) 0 w) }

/-- The table part of `init_kernel_pd`, on zeroed tables, after `keyboard_install` chose terminal 0. -/
def initKernelPd (phys : Mem) : Video :=
  let we := flagWriteEnable
  let p := flagPresent
  let u := flagUser
  let v : Video := ⟨fun _ => we, fun _ _ => 0, phys, 0⟩
  let v := (v.setTermPage 0 ((video + 4096 * 1) ||| we ||| p ||| u)).setPage (video / 4096 + 0 + 1)
    ((video + 4096 * 1) ||| we ||| p)
  let v := (v.setTermPage 1 ((video + 4096 * 2) ||| we ||| p ||| u)).setPage (video / 4096 + 1 + 1)
    ((video + 4096 * 2) ||| we ||| p)
  let v := (v.setTermPage 2 ((video + 4096 * 3) ||| we ||| p ||| u)).setPage (video / 4096 + 2 + 1)
    ((video + 4096 * 3) ||| we ||| p)
  let v := v.setTermPage 0 (video ||| we ||| p ||| u)
  let v := v.setPage (video / 4096) (video ||| u ||| we ||| p)
  v.setPage (video / 4096 + 1) (video ||| we ||| p)

/-- `switch_terminals`. -/
def switchTerminals (v : Video) (term : UInt8) : Video :=
  if h : term.toNat < 3 ∧ v.curTerminal.val ≠ term.toNat then
    let cur := v.curTerminal
    let new : TermId := ⟨term.toNat, h.1⟩
    -- save contents of the old terminal
    let v := v.setPage (video / 4096 + cur + 1) (videoMem cur ||| flagWriteEnable ||| flagPresent)
    let v := v.setTermPage cur (videoMem cur ||| flagWriteEnable ||| flagPresent ||| flagUser)
    let v := v.memcpy (videoMem cur) video 4096
    -- get contents of the new terminal
    let v := v.memcpy video (videoMem new) 4096
    let v := v.setTermPage new (video ||| flagWriteEnable ||| flagPresent ||| flagUser)
    let v := v.setPage (video / 4096 + new + 1) (video ||| flagWriteEnable ||| flagPresent)
    { v with curTerminal := new }
  else v

/-- The page a terminal's screen is on: `VIDEO` when displayed, its backing page otherwise. -/
def home (v : Video) (t : TermId) : Nat := if t = v.curTerminal then video else videoMem t

/-- The tables put the screen of each terminal `t` on the page `page t`, under both aliases. -/
structure Maps (v : Video) (page : TermId → Nat) : Prop where
  isPage : ∀ t, page t = video ∨ page t = videoMem t
  display : v.videoPageTable (video / 4096) = video ||| flagUser ||| flagWriteEnable ||| flagPresent
  kernel : ∀ t : TermId,
    v.videoPageTable (video / 4096 + t + 1) = page t ||| flagWriteEnable ||| flagPresent
  user : ∀ t, v.termVideoTables t 0 = page t ||| flagWriteEnable ||| flagPresent ||| flagUser
  rest : ∀ t i, v.termVideoTables t (i + 1) = 0

/-- The tables agree with `cur_terminal`. -/
def Mapped (v : Video) : Prop := v.Maps v.home

/-- Below 4MB only the displayed page and the three backing pages are mapped. -/
def OnlyScreens (v : Video) : Prop :=
  ∀ i, ¬ (video / 4096 ≤ i ∧ i < video / 4096 + 4) → present (v.videoPageTable i) = false

variable {v : Video} {page : TermId → Nat} {t : TermId} {off w : Nat}

/-- The tables of `init_kernel_pd` are in order. -/
lemma initKernelPd_mapped (phys : Mem) : (initKernelPd phys).Mapped where
  isPage := by
    intro t
    fin_cases t
    · exact Or.inl rfl
    · exact Or.inr rfl
    · exact Or.inr rfl
  display := rfl
  kernel := by
    intro t
    fin_cases t <;> rfl
  user := by
    intro t
    fin_cases t <;> rfl
  rest := by
    intro t i
    fin_cases t <;> rfl

/-- `init_kernel_pd` maps the four pages of the screens and no other. -/
lemma initKernelPd_onlyScreens (phys : Mem) : (initKernelPd phys).OnlyScreens := by
  intro i hi
  simp only [video] at hi
  have hentry : (initKernelPd phys).videoPageTable i = flagWriteEnable := by
    simp only [initKernelPd, setPage, setTermPage, video, Nat.reduceDiv, Nat.add_zero, Nat.reduceAdd]
    rw [Function.update_of_ne (by omega), Function.update_of_ne (by omega), Function.update_of_ne (by omega),
      Function.update_of_ne (by omega), Function.update_of_ne (by omega)]
  rw [hentry]
  rfl

/-- Whether the screens are mapped depends on the two tables only. -/
lemma Maps.of_tables {w : Video} (h : v.Maps page) (h1 : w.videoPageTable = v.videoPageTable)
    (h2 : w.termVideoTables = v.termVideoTables) : w.Maps page where
  isPage := h.isPage
  display := by rw [h1, h.display]
  kernel := fun t => by rw [h1, h.kernel t]
  user := fun t => by rw [h2, h.user t]
  rest := fun t i => by rw [h2, h.rest t i]

/-- Pointing both aliases of one terminal to another of its pages keeps the tables in order. -/
lemma Maps.remap (h : v.Maps page) (hw : w = video ∨ w = videoMem t) :
    ((v.setPage (video / 4096 + t + 1) (w ||| flagWriteEnable ||| flagPresent)).setTermPage t
      (w ||| flagWriteEnable ||| flagPresent ||| flagUser)).Maps (Function.update page t w) where
  isPage := by
    intro u
    by_cases hu : u = t
    · subst hu
      rwa [Function.update_self]
    · rw [Function.update_of_ne hu]
      exact h.isPage u
  display := by
    have hne : video / 4096 ≠ video / 4096 + t + 1 := by omega
    simp only [setTermPage, setPage, Function.update_of_ne hne]
    exact h.display
  kernel := by
    intro u
    by_cases hu : u = t
    · subst hu
      simp only [setTermPage, setPage, Function.update_self]
    · have hne : video / 4096 + u.val + 1 ≠ video / 4096 + t + 1 := by
        intro e
        exact hu (Fin.ext (by omega))
      simp only [setTermPage, setPage, Function.update_of_ne hne, Function.update_of_ne hu]
      exact h.kernel u
  user := by
    intro u
    by_cases hu : u = t
    · subst hu
      simp only [setTermPage, setPage, Function.update_self]
    · simp only [setTermPage, setPage, Function.update_of_ne hu]
      exact h.user u
  rest := by
    intro u i
    by_cases hu : u = t
    · subst hu
      simp only [setTermPage, setPage, Function.update_self]
      rw [Function.update_of_ne (Nat.succ_ne_zero i)]
      exact h.rest u i
    · simp only [setTermPage, setPage, Function.update_of_ne hu]
      exact h.rest u i

/-- The entries of backing pages are present and have their page as frame. -/
lemma entry_words : ∀ t : TermId,
    (present (videoMem t ||| flagWriteEnable ||| flagPresent) = true ∧
      frame (videoMem t ||| flagWriteEnable ||| flagPresent) * 0x1000 = videoMem t) ∧
    (present (videoMem t ||| flagWriteEnable ||| flagPresent ||| flagUser) = true ∧
      userBit (videoMem t ||| flagWriteEnable ||| flagPresent ||| flagUser) = true ∧
      frame (videoMem t ||| flagWriteEnable ||| flagPresent ||| flagUser) * 0x1000 = videoMem t) := by
  decide

/-- The entries of both aliases of a mapped screen. -/
lemma Maps.entry (h : v.Maps page) :
    (present (page t ||| flagWriteEnable ||| flagPresent) = true ∧
      frame (page t ||| flagWriteEnable ||| flagPresent) * 0x1000 = page t) ∧
    (present (page t ||| flagWriteEnable ||| flagPresent ||| flagUser) = true ∧
      userBit (page t ||| flagWriteEnable ||| flagPresent ||| flagUser) = true ∧
      frame (page t ||| flagWriteEnable ||| flagPresent ||| flagUser) * 0x1000 = page t) := by
  rcases h.isPage t with e | e
  · rw [e]
    decide
  · rw [e]
    exact entry_words t

/-- The kernel alias of a screen resolves to its page. -/
lemma Maps.kernelPa (h : v.Maps page) (hoff : off < 4096) :
    v.kernelPa (videoMem t + off) = some (page t + off) := by
  obtain ⟨⟨hp, hf⟩, _⟩ := h.entry (t := t)
  have hidx : (videoMem t + off) / 0x1000 % 1024 = video / 4096 + t + 1 := by
    have := t.isLt
    simp only [videoMem, video]
    omega
  have hmod : (videoMem t + off) % 0x1000 = off := by
    simp only [videoMem, video]
    omega
  simp only [Video.kernelPa, hidx, hmod, h.kernel t, hp, hf, if_true]

/-- The displayed page resolves to itself. -/
lemma Maps.displayPa (h : v.Maps page) (hoff : off < 4096) :
    v.kernelPa (video + off) = some (video + off) := by
  have hidx : (video + off) / 0x1000 % 1024 = video / 4096 := by
    simp only [video]
    omega
  have hmod : (video + off) % 0x1000 = off := by
    simp only [video]
    omega
  have hp : present (video ||| flagUser ||| flagWriteEnable ||| flagPresent) = true := by decide
  have hf : frame (video ||| flagUser ||| flagWriteEnable ||| flagPresent) * 0x1000 = video := by
    decide
  simp only [Video.kernelPa, hidx, hmod, h.display, hp, hf, if_true]

/-- The user alias of a screen resolves to its page. -/
lemma Maps.userPa (h : v.Maps page) (hoff : off < 4096) :
    v.userPa t off = some (page t + off) := by
  obtain ⟨_, hp, hu, hf⟩ := h.entry (t := t)
  have hmod : off % 0x1000 = off := by omega
  simp only [Video.userPa, hmod, h.user t, hp, hu, hf, Bool.and_self, if_true]

/-- A kernel address below 4MB is mapped if it is on one of the pages of the screens. -/
lemma Maps.kernelPa_isSome (h : v.Maps page) (honly : v.OnlyScreens) {va : Nat} (hva : va < 0x400000) :
    (v.kernelPa va).isSome = programMapped va := by
  by_cases hscreen : video ≤ va ∧ va < video + 4 * 4096
  · have hmapped : programMapped va = true := decide_eq_true (Or.inl hscreen)
    rw [hmapped]
    simp only [video] at hscreen
    by_cases hdisplay : va < video + 4096
    · simp only [video] at hdisplay
      obtain ⟨off, rfl⟩ : ∃ off, va = video + off := Nat.exists_eq_add_of_le hscreen.1
      rw [h.displayPa (by simp only [video] at hdisplay ⊢; omega)]
      rfl
    · simp only [video] at hdisplay
      have ht : (va - video) / 4096 - 1 < 3 := by
        simp only [video]
        omega
      have hva' : va = videoMem ⟨(va - video) / 4096 - 1, ht⟩ + va % 4096 := by
        simp only [videoMem, video]
        omega
      rw [hva', h.kernelPa (Nat.mod_lt _ (by decide))]
      rfl
  · have hmapped : programMapped va = false := by
      refine decide_eq_false ?_
      omega
    have habsent : present (v.videoPageTable (va / 0x1000 % 1024)) = false := by
      refine honly _ ?_
      simp only [video] at hscreen ⊢
      omega
    rw [hmapped, Video.kernelPa, habsent]
    rfl

namespace OnlyScreens

/-- An entry of the screens may be replaced. -/
lemma setPage (h : v.OnlyScreens) {n : Nat} (hn : video / 4096 ≤ n ∧ n < video / 4096 + 4) (w : Nat) :
    (v.setPage n w).OnlyScreens := by
  intro i hi
  refine (congrArg present (Function.update_of_ne ?_ _ _)).trans (h i hi)
  rintro rfl
  exact hi hn

/-- The user alias does not matter. -/
lemma setTermPage (h : v.OnlyScreens) (t : TermId) (w : Nat) : (v.setTermPage t w).OnlyScreens := h

/-- Nor does the displayed terminal. -/
lemma display (h : v.OnlyScreens) (t : TermId) : ({ v with curTerminal := t } : Video).OnlyScreens := h

/-- A store does not touch the tables. -/
lemma store (h : v.OnlyScreens) (a : Nat) (b : UInt8) : (v.store a b).OnlyScreens := by
  unfold Video.store
  split
  · exact h
  · exact h

/-- Nor does a copy. -/
lemma memcpy (h : v.OnlyScreens) (dst src n : Nat) : (v.memcpy dst src n).OnlyScreens := by
  induction n with
  | zero => exact h
  | succ n ih => exact ih.store _ _

/-- A switch maps no further page. -/
lemma switch (h : v.OnlyScreens) (term : UInt8) : (v.switchTerminals term).OnlyScreens := by
  have hcur := v.curTerminal.isLt
  unfold switchTerminals
  split
  · next hterm =>
    have hsave := (h.setPage (n := video / 4096 + v.curTerminal + 1) (by omega)
      (videoMem v.curTerminal ||| flagWriteEnable ||| flagPresent)).setTermPage v.curTerminal
      (videoMem v.curTerminal ||| flagWriteEnable ||| flagPresent ||| flagUser)
    have hcopy := (hsave.memcpy (videoMem v.curTerminal) video 4096).memcpy video (videoMem ⟨term.toNat, hterm.1⟩) 4096
    have hshow := (hcopy.setTermPage ⟨term.toNat, hterm.1⟩ (video ||| flagWriteEnable ||| flagPresent ||| flagUser)).setPage
      (n := video / 4096 + term.toNat + 1) (by omega) (video ||| flagWriteEnable ||| flagPresent)
    exact hshow.display ⟨term.toNat, hterm.1⟩
  · exact h

end OnlyScreens

/-- `memcpy` between mapped pages is a copy of physical memory and leaves the tables alone. -/
lemma memcpy_eq {dst src pd ps n : Nat} (hd : ∀ i < n, v.kernelPa (dst + i) = some (pd + i))
    (hs : ∀ i < n, v.kernelPa (src + i) = some (ps + i)) :
    v.memcpy dst src n = { v with phys := Mem.copy v.phys pd ps n } := by
  induction n with
  | zero => rfl
  | succ n ih =>
    have ih := ih (fun i hi => hd i (by omega)) (fun i hi => hs i (by omega))
    have hdn : ({ v with phys := Mem.copy v.phys pd ps n } : Video).kernelPa (dst + n)
        = some (pd + n) := hd n (by omega)
    have hsn : ({ v with phys := Mem.copy v.phys pd ps n } : Video).kernelPa (src + n)
        = some (ps + n) := hs n (by omega)
    simp only [memcpy, ih, store, load, hdn, hsn, Mem.copy]

end Video

end Boss
