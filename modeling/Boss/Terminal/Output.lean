import Boss.Routines.Itoa
import Boss.Video.Screens

/-!
# Kernel output

`putc`, `puts` and `printf` of `lib.c` and `terminal_write` of `keyboard.c`, on the page tables of
`Video` and not on private screens: a character is stored at `terminals[t].video_mem` through the kernel's
page table, and where it lands depends on the cursor. `t` is the terminal of the process that runs, which these
functions take from the PCB.

`move_csr` takes no terminal. It stores its coordinates into the cursor of the displayed one, and
`puts` calls it with the cursor of the process's own. A process in the background that prints a string, or a
number with `printf` (as the page fault handler does), moves the cursor under the user's hands. Output without
a `puts` stays on its terminal, and so does all output of the displayed one, as long as the cursor is on the
screen (`output_stays_on_terminal`).
-/

namespace Boss
open Lib Routines

/-- `terminal_t`, but for `video_mem`, which never changes. -/
structure TermVars where
  cmdHist : Nat → Mem
  lineBuffer : Mem
  lineBufferIndex : Nat
  typingLine : Bool
  cX : Nat
  cY : Nat
  cmdCount : Nat

/-- The screens and the terminals. -/
structure Monitor where
  video : Video
  terminals : TermId → TermVars

/-- The words above the format on the stack, and the strings that pointers among them point to. -/
structure VarArgs where
  word : Nat → UInt32
  str : UInt32 → List UInt8

/-! ### Characters and the cursor -/

namespace Monitor

/-- Change the variables of one terminal. -/
def setTerm (m : Monitor) (t : TermId) (f : TermVars → TermVars) : Monitor :=
  { m with terminals := Function.update m.terminals t (f (m.terminals t)) }

/-- The two stores of cell `i` on the screen of `t`. -/
def putCell (m : Monitor) (t : TermId) (i : Nat) (c : UInt8) : Monitor :=
  let v := m.video.store ((videoMem t + 2 * i) % 0x100000000) c
  { m with video := v.store ((videoMem t + 2 * i + 1) % 0x100000000) Terminal.attrib }

/-- The loops over cells: `f i` is the character of cell `i`, read from the screen as it then is. -/
def putCells (t : TermId) (f : Monitor → Nat → UInt8) (start : Nat) : Nat → Monitor → Monitor
  | 0, m => m
  | n + 1, m =>
    let m := putCells t f start n m
    m.putCell t (start + n) (f m (start + n))

/-- `term_scroll`. -/
def termScroll (m : Monitor) (term : TermId) : Monitor :=
  let m := putCells term (fun m i => m.video.load (videoMem term + 2 * (i + 80))) 0 (24 * 80) m
  putCells term (fun _ _ => 32) (24 * 80) 80 m

/-- `scroll`, for a process of terminal `t`. -/
def scroll (m : Monitor) (t : TermId) : Monitor := m.termScroll t

/-- `term_putc`. -/
def termPutc (m : Monitor) (c : UInt8) (term : TermId) : Monitor :=
  let m :=
    if c = 10 ∨ c = 13 then m.setTerm term fun T => { T with cY := inc32 T.cY, cX := 0 }
    else
      let T := m.terminals term
      (m.putCell term ((80 * T.cY + T.cX) % 0x100000000) c).setTerm term fun T =>
        { T with cY := (T.cY + inc32 T.cX / 80) % 0x100000000, cX := inc32 T.cX % 80 }
  if (m.terminals term).cY = 25 then
    (m.setTerm term fun T => { T with cY := dec32 T.cY }).termScroll term
  else m

/-- `putc`, for a process of terminal `t`. -/
def putc (m : Monitor) (t : TermId) (c : UInt8) : Monitor := m.termPutc c t

/-- `move_csr`, but for the ports. -/
def moveCsr (m : Monitor) (x y : Nat) : Monitor :=
  m.setTerm m.video.curTerminal fun T => { T with cX := x, cY := y }

/-- `puts`, with the number of characters it returns. -/
def puts (m : Monitor) (t : TermId) (s : List UInt8) : Monitor × Nat :=
  let m := s.foldl (fun m c => m.putc t c) m
  (m.moveCsr (m.terminals t).cX (m.terminals t).cY, s.length)

/-! ### `terminal_write` -/

/-- The loop of `terminal_write`, with the number of bytes written. -/
def writeLoop (t : TermId) (buf : Mem) : (fuel i : Nat) → Monitor → Monitor × Nat
  | 0, i, m => (m, i)
  | fuel + 1, i, m =>
    if buf i = 0 then (m, i)
    else if t = m.video.curTerminal then writeLoop t buf fuel (i + 1) (m.termPutc (buf i) m.video.curTerminal)
    else writeLoop t buf fuel (i + 1) (m.putc t (buf i))

/-- `terminal_write`; a null buffer is `none`. -/
def terminalWrite (m : Monitor) (t : TermId) (buf : Option Mem) (nbytes : Nat) : Monitor × Int :=
  match buf with
  | none => (m, -1)
  | some buf =>
    let (m, bytesWritten) := writeLoop t buf nbytes 0 m
    (if t = m.video.curTerminal then m.moveCsr (m.terminals t).cX (m.terminals t).cY else m, bytesWritten)

/-! ### `printf` -/

/-- What a conversion specifier prints, and the number of the next argument. -/
def convert (m : Monitor) (t : TermId) (args : VarArgs) (alternate : Bool) (arg : Nat) (c : UInt8) :
    Monitor × Nat :=
  let word := args.word arg
  if c = 37 then (m.putc t 37, arg)
  else if c = 120 then
    let digits := itoaText word 16
    ((m.puts t (if alternate then List.replicate (8 - digits.length) 48 ++ digits else digits)).1, arg + 1)
  else if c = 117 then ((m.puts t (itoaText word 10)).1, arg + 1)
  else if c = 100 then
    ((m.puts t (if 0x80000000 ≤ word.toNat then 45 :: itoaText (0 - word) 10 else itoaText word 10)).1, arg + 1)
  else if c = 99 then (m.putc t word.toUInt8, arg + 1)
  else if c = 115 then ((m.puts t (args.str word)).1, arg + 1)
  else (m, arg)

/-- The loop of `printf` over `fuel` characters of the format from `i` on; `spec` is the value of `alternate` at
a conversion specifier. A zero byte behind a `%` does not end the loop. The number is `buf - format`. -/
def printfLoop (t : TermId) (fmt : Mem) (args : VarArgs) :
    (fuel : Nat) → (spec : Option Bool) → (i arg : Nat) → Monitor → Monitor × Nat
  | 0, _, i, _, m => (m, i)
  | fuel + 1, none, i, arg, m =>
    if fmt i = 0 then (m, i)
    else if fmt i = 37 then printfLoop t fmt args fuel (some false) (i + 1) arg m
    else printfLoop t fmt args fuel none (i + 1) arg (m.putc t (fmt i))
  | fuel + 1, some alternate, i, arg, m =>
    if fmt i = 35 then printfLoop t fmt args fuel (some true) (i + 1) arg m
    else
      let (m, arg) := m.convert t args alternate arg (fmt i)
      printfLoop t fmt args fuel none (i + 1) arg m

/-- `printf`, up to character number `n` of its format. -/
def printf (m : Monitor) (t : TermId) (fmt : Mem) (args : VarArgs) (n : Nat) : Monitor × Nat :=
  printfLoop t fmt args n none 0 0 m

end Monitor

/-- The output operations of a process. -/
inductive OutputOp
  | terminalWrite (buf : Option Mem) (nbytes : UInt32)
  | putc (c : UInt8)
  | puts (s : List UInt8)
  | printf (fmt : Mem) (args : VarArgs) (n : Nat)

/-- The output of a process of terminal `t`. -/
def outputSystem (t : TermId) : System Monitor OutputOp where
  step m
    | .terminalWrite buf nbytes => some (m.terminalWrite t buf nbytes.toNat).1
    | .putc c => some (m.putc t c)
    | .puts s => some (m.puts t s).1
    | .printf fmt args n => some (m.printf t fmt args n).1

/-- No other terminal is changed, neither its variables nor its screen. -/
def OnlyOn (t : TermId) (m m' : Monitor) : Prop :=
  ∀ u, u ≠ t → m'.terminals u = m.terminals u ∧ ∀ off < 4096, m'.video.screen u off = m.video.screen u off

/-- The format has no conversion that prints a string: `%x`, `%u`, `%d` or `%s`. -/
def plainFormat (fmt : Mem) : (fuel : Nat) → (spec : Option Bool) → (i : Nat) → Prop
  | 0, _, _ => True
  | fuel + 1, none, i =>
    fmt i ≠ 0 → if fmt i = 37 then plainFormat fmt fuel (some false) (i + 1) else plainFormat fmt fuel none (i + 1)
  | fuel + 1, some _, i =>
    if fmt i = 35 then plainFormat fmt fuel (some true) (i + 1)
    else fmt i ∉ ([120, 117, 100, 115] : List UInt8) ∧ plainFormat fmt fuel none (i + 1)

/-- The operation does not call `puts`. -/
def OutputOp.Plain : OutputOp → Prop
  | .terminalWrite _ _ | .putc _ => True
  | .puts _ => False
  | .printf fmt _ n => plainFormat fmt n none 0

/-- The cursor is on the screen. -/
def TermVars.OnScreen (T : TermVars) : Prop := T.cX < 80 ∧ T.cY < 25

/-! ### What output keeps -/

/-- The machine `m'` is `m` but for what belongs to terminal `t`. -/
structure Monitor.Kept (t : TermId) (m m' : Monitor) : Prop where
  page : m'.video.videoPageTable = m.video.videoPageTable
  term : m'.video.termVideoTables = m.video.termVideoTables
  cur : m'.video.curTerminal = m.video.curTerminal
  vars : ∀ u, u ≠ t → m'.terminals u = m.terminals u
  phys : ∀ u, u ≠ t → ∀ off < 4096, m'.video.phys (m.video.home u + off) = m.video.phys (m.video.home u + off)

namespace Monitor
variable {t : TermId} {m m' m'' : Monitor} {c : UInt8} {i n : Nat}

/-- Nothing has been printed. -/
lemma Kept.refl (m : Monitor) : Kept t m m := ⟨rfl, rfl, rfl, fun _ _ => rfl, fun _ _ _ _ => rfl⟩

/-- The displayed terminal is mapped where it was. -/
lemma Kept.home (h : Kept t m m') : m'.video.home = m.video.home := by
  funext u
  rw [Video.home, Video.home, h.cur]

/-- The relation is transitive. -/
lemma Kept.trans (h : Kept t m m') (h' : Kept t m' m'') : Kept t m m'' where
  page := h'.page.trans h.page
  term := h'.term.trans h.term
  cur := h'.cur.trans h.cur
  vars u hu := (h'.vars u hu).trans (h.vars u hu)
  phys u hu off hoff := by
    have hnext := h'.phys u hu off hoff
    rw [h.home] at hnext
    exact hnext.trans (h.phys u hu off hoff)

/-- The page tables are not touched. -/
lemma Kept.mapped (h : Kept t m m') (hm : m.video.Mapped) : m'.video.Mapped := by
  rw [Video.Mapped, h.home]
  exact Video.Maps.of_tables hm h.page h.term

/-- The screens of the other terminals are as they were. -/
lemma Kept.onlyOn (h : Kept t m m') (hm : m.video.Mapped) : OnlyOn t m m' := by
  intro u hu
  refine ⟨h.vars u hu, fun off hoff => ?_⟩
  rw [hm.screen hoff, (h.mapped hm).screen hoff, h.home, h.phys u hu off hoff]

/-- Variables of the terminal itself may change. -/
lemma Kept.setTerm (h : Kept t m m') (f : TermVars → TermVars) : Kept t m (m'.setTerm t f) where
  page := h.page
  term := h.term
  cur := h.cur
  vars u hu := by
    rw [← h.vars u hu]
    exact Function.update_of_ne hu _ _
  phys := h.phys

/-- A store on the page of `t`. -/
lemma Kept.store (h : Kept t m m') (hm : m.video.Mapped) (off : Nat) (hoff : off < 4096) (b : UInt8) :
    Kept t m { m' with video := m'.video.store (videoMem t + off) b } := by
  have hpa : m'.video.kernelPa (videoMem t + off) = some (m.video.home t + off) := by
    rw [Video.Maps.kernelPa (h.mapped hm) hoff, h.home]
  have hstore : m'.video.store (videoMem t + off) b =
      { m'.video with phys := Function.update m'.video.phys (m.video.home t + off) b } := by
    rw [Video.store, hpa]
  rw [hstore]
  refine ⟨h.page, h.term, h.cur, h.vars, fun u hu o ho => ?_⟩
  have hne : m.video.home u + o ≠ m.video.home t + off := by
    have := m.video.home_apart hu
    omega
  rw [← h.phys u hu o ho]
  exact Function.update_of_ne hne _ _

/-- A cell of the terminal's own screen. -/
lemma Kept.putCell (h : Kept t m m') (hm : m.video.Mapped) (hi : i < 2000) (c : UInt8) :
    Kept t m (m'.putCell t i c) := by
  have haddr : ∀ k < 4096, (videoMem t + k) % 0x100000000 = videoMem t + k := by
    have := t.isLt
    intro k hk
    refine Nat.mod_eq_of_lt ?_
    simp only [videoMem, Boss.video]
    omega
  have hstore := (h.store hm (2 * i) (by omega) c).store hm (2 * i + 1) (by omega) Terminal.attrib
  rw [Monitor.putCell, haddr (2 * i) (by omega), Nat.add_assoc, haddr (2 * i + 1) (by omega)]
  exact hstore

/-- Cells of the terminal's own screen. -/
lemma Kept.putCells (h : Kept t m m') (hm : m.video.Mapped) {f : Monitor → Nat → UInt8} {start : Nat}
    (hn : start + n ≤ 2000) : Kept t m (Monitor.putCells t f start n m') := by
  induction n with
  | zero => exact h
  | succ n ih => exact (ih (by omega)).putCell hm (by omega) _

/-- Cells have no variables. -/
lemma putCells_terminals {f : Monitor → Nat → UInt8} {start : Nat} :
    (Monitor.putCells t f start n m).terminals = m.terminals := by
  induction n with
  | zero => rfl
  | succ n ih => exact ih

/-- Scrolling the terminal's own screen. -/
lemma Kept.termScroll (h : Kept t m m') (hm : m.video.Mapped) : Kept t m (m'.termScroll t) :=
  (h.putCells hm (by decide)).putCells hm (by decide)

/-- Scrolling changes no variables. -/
lemma termScroll_terminals : (m.termScroll t).terminals = m.terminals :=
  putCells_terminals.trans putCells_terminals

/-- Nothing but terminal `t` has changed, and its cursor is on the screen. -/
structure Stays (t : TermId) (m m' : Monitor) : Prop where
  kept : Kept t m m'
  onScreen : (m'.terminals t).OnScreen

/-- A character on the screen. -/
lemma Stays.termPutc (h : Stays t m m') (hm : m.video.Mapped) (c : UInt8) : Stays t m (m'.termPutc c t) := by
  obtain ⟨hkept, hx, hy⟩ := h
  -- before the scroll the cursor may be one row below the screen
  have hmoved : ∃ m1, Kept t m m1 ∧ (m1.terminals t).cX < 80 ∧ (m1.terminals t).cY ≤ 25 ∧
      m'.termPutc c t = if (m1.terminals t).cY = 25 then
        (m1.setTerm t fun T => { T with cY := dec32 T.cY }).termScroll t else m1 := by
    by_cases hc : c = 10 ∨ c = 13
    · refine ⟨m'.setTerm t fun T => { T with cY := inc32 T.cY, cX := 0 }, hkept.setTerm _, ?_, ?_, ?_⟩
      · simp [setTerm]
      · simp only [setTerm, Function.update_self, inc32]
        omega
      · simp only [Monitor.termPutc, if_pos hc]
    · have hcell : (80 * (m'.terminals t).cY + (m'.terminals t).cX) % 0x100000000 < 2000 := by
        rw [Nat.mod_eq_of_lt (by omega)]
        omega
      have hinc : inc32 (m'.terminals t).cX = (m'.terminals t).cX + 1 := inc32_of_lt (by omega)
      refine ⟨_, (hkept.putCell hm hcell c).setTerm fun T =>
        { T with cY := (T.cY + inc32 T.cX / 80) % 0x100000000, cX := inc32 T.cX % 80 }, ?_, ?_, ?_⟩
      · simp only [setTerm, Function.update_self]
        omega
      · simp only [setTerm, Function.update_self, Monitor.putCell, hinc]
        rw [Nat.mod_eq_of_lt (by omega)]
        omega
      · simp only [Monitor.termPutc, if_neg hc]
  obtain ⟨m1, hkept1, hx1, hy1, heq⟩ := hmoved
  rw [heq]
  split
  · next hbelow =>
    refine ⟨(hkept1.setTerm _).termScroll hm, ?_⟩
    rw [TermVars.OnScreen, termScroll_terminals]
    simp only [setTerm, Function.update_self, hbelow]
    exact ⟨hx1, by decide⟩
  · next hrow => exact ⟨hkept1, hx1, by omega⟩

/-- `putc` stays on its terminal. -/
lemma Stays.putc (h : Stays t m m') (hm : m.video.Mapped) (c : UInt8) : Stays t m (m'.putc t c) :=
  h.termPutc hm c

/-- On the displayed terminal `move_csr` moves the right cursor. -/
lemma Stays.moveCsr (h : Stays t m m') (ht : t = m.video.curTerminal) :
    Stays t m (m'.moveCsr (m'.terminals t).cX (m'.terminals t).cY) := by
  have hcur : m'.video.curTerminal = t := by rw [h.kept.cur, ht]
  rw [Monitor.moveCsr, hcur]
  refine ⟨h.kept.setTerm _, ?_⟩
  simp only [setTerm, Function.update_self]
  exact h.onScreen

/-- `puts` stays on the displayed terminal. -/
lemma Stays.puts (h : Stays t m m') (hm : m.video.Mapped) (ht : t = m.video.curTerminal) (s : List UInt8) :
    Stays t m (m'.puts t s).1 := by
  have hall : Stays t m (s.foldl (fun m c => m.putc t c) m') := by
    induction s generalizing m' with
    | nil => exact h
    | cons c s ih => exact ih (h.putc hm c)
  exact hall.moveCsr ht

/-- The loop of `terminal_write` stays on its terminal. -/
lemma Stays.writeLoop (h : Stays t m m') (hm : m.video.Mapped) {buf : Mem} :
    Stays t m (Monitor.writeLoop t buf n i m').1 := by
  induction n generalizing i m' with
  | zero => exact h
  | succ n ih =>
    unfold Monitor.writeLoop
    split
    · exact h
    · split
      · next ht =>
        rw [← ht]
        exact ih (h.termPutc hm _)
      · exact ih (h.putc hm _)

/-- `terminal_write` stays on its terminal. -/
lemma Stays.terminalWrite (h : Stays t m m') (hm : m.video.Mapped) {buf : Option Mem} :
    Stays t m (m'.terminalWrite t buf n).1 := by
  cases buf with
  | none => exact h
  | some buf =>
    have hloop : Stays t m (Monitor.writeLoop t buf n 0 m').1 := h.writeLoop hm
    simp only [Monitor.terminalWrite]
    split
    · next ht =>
      refine hloop.moveCsr ?_
      rw [ht, hloop.kept.cur]
    · exact hloop

/-- A conversion stays on a terminal that is displayed, or prints one character at most. -/
lemma Stays.convert (h : Stays t m m') (hm : m.video.Mapped) {args : VarArgs} {alternate : Bool}
    (hplain : t = m.video.curTerminal ∨ c ∉ ([120, 117, 100, 115] : List UInt8)) :
    Stays t m (m'.convert t args alternate i c).1 := by
  have hputs : ∀ s, c ∈ ([120, 117, 100, 115] : List UInt8) → Stays t m (m'.puts t s).1 :=
    fun s hc => h.puts hm (hplain.resolve_right (not_not_intro hc)) s
  unfold Monitor.convert
  extract_lets word digits
  split
  · exact h.putc hm 37
  split
  · next hc => exact hputs _ (by simp [hc])
  split
  · next hc => exact hputs _ (by simp [hc])
  split
  · next hc => exact hputs _ (by simp [hc])
  split
  · exact h.putc hm _
  split
  · next hc => exact hputs _ (by simp [hc])
  · exact h

/-- `printf` stays on its terminal, if that is displayed or the format needs no `puts`. -/
lemma Stays.printfLoop (h : Stays t m m') (hm : m.video.Mapped) {fmt : Mem} {args : VarArgs}
    {spec : Option Bool} {arg : Nat} (hplain : t = m.video.curTerminal ∨ plainFormat fmt n spec i) :
    Stays t m (Monitor.printfLoop t fmt args n spec i arg m').1 := by
  induction n generalizing spec i arg m' with
  | zero => exact h
  | succ n ih =>
    cases spec with
    | none =>
      unfold Monitor.printfLoop
      split
      · exact h
      next hend =>
      have hnext := hplain.imp_right fun hplain => hplain hend
      split
      · next hspec => exact ih h (by rwa [if_pos hspec] at hnext)
      · next hspec => exact ih (h.putc hm _) (by rwa [if_neg hspec] at hnext)
    | some alternate =>
      unfold Monitor.printfLoop
      unfold plainFormat at hplain
      split
      · next hsharp => exact ih h (by rwa [if_pos hsharp] at hplain)
      · next hsharp =>
        rw [if_neg hsharp] at hplain
        exact ih (h.convert hm (hplain.imp_right And.left)) (hplain.imp_right And.right)

/-- One operation. -/
lemma Stays.step (h : Stays t m m') (hm : m.video.Mapped) {op : OutputOp}
    (hop : t = m.video.curTerminal ∨ op.Plain) (hstep : (outputSystem t).step m' op = some m'') :
    Stays t m m'' := by
  cases op with
  | terminalWrite buf nbytes =>
    cases hstep
    exact h.terminalWrite hm
  | putc c =>
    cases hstep
    exact h.putc hm c
  | puts s =>
    cases hstep
    exact h.puts hm (hop.resolve_right id) s
  | printf fmt args n =>
    cases hstep
    exact h.printfLoop hm hop

end Monitor

/-- From a cursor on the screen, the output of a process changes nothing of another terminal, as long as its
own is displayed or it prints without `puts`. -/
theorem output_stays_on_terminal (m : Monitor) (hm : m.video.Mapped) (t : TermId)
    (hcursor : (m.terminals t).OnScreen) (ops : List OutputOp)
    (hops : (outputSystem t).Guarded (fun m' op => t = m'.video.curTerminal ∨ op.Plain) m ops) :
    (outputSystem t).Always (OnlyOn t m) m ops := by
  refine System.always_of_guarded (I := Monitor.Stays t m) ?_ (fun m' h => h.kept.onlyOn hm) ⟨.refl m, hcursor⟩ hops
  intro m' op m'' h hop hstep
  rw [h.kept.cur] at hop
  exact h.step hm hop hstep

/-- Blank terminals, the first of them displayed. -/
def blankMonitor : Monitor := ⟨.initKernelPd fun _ => 0, fun _ => ⟨fun _ _ => 0, fun _ => 0, 0, true, 0, 0, 0⟩⟩

/-- The format `"%x"`. -/
def formatX : Mem := fun i => ([37, 120] : List UInt8).getD i 0

/-- A character and a line of text from the background. -/
theorem output_stays_on_terminal_write : (outputSystem 1).Always (OnlyOn 1 blankMonitor) blankMonitor
    [.putc 97, .terminalWrite (some fun i => ([104, 105, 10] : List UInt8).getD i 0) 3] :=
  output_stays_on_terminal blankMonitor (Video.initKernelPd_mapped _) 1 ⟨by decide, by decide⟩ _
    ⟨Or.inr trivial, fun _ _ => ⟨Or.inr trivial, fun _ _ => trivial⟩⟩

/-- A number printed from the background moves the cursor of the displayed terminal. -/
theorem background_number_moves_cursor :
    ((blankMonitor.printf 1 formatX ⟨fun _ => 0, fun _ => []⟩ 3).1.terminals 0).cX = 1 ∧
      ¬ OnlyOn 1 blankMonitor (blankMonitor.printf 1 formatX ⟨fun _ => 0, fun _ => []⟩ 3).1 := by
  have hmoved : ((blankMonitor.printf 1 formatX ⟨fun _ => 0, fun _ => []⟩ 3).1.terminals 0).cX = 1 := rfl
  refine ⟨hmoved, fun honly => ?_⟩
  have hsame := congrArg TermVars.cX (honly 0 (by decide)).1
  rw [hmoved] at hsame
  exact absurd hsame (by decide)

end Boss
