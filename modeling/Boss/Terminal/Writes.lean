import Boss.Terminal.Cursor
import Boss.Terminal.Output

/-!
# Writing on private screens

`terminal_write` has been modelled twice: `Monitor.terminalWrite` stores through the page tables of the kernel, and
`Tty.terminalWrite` to a screen that each terminal has for itself. While the cursor is on the screen the first does
what the second says, on the variables, on every screen and in its result (`Monitor.Holds.terminalWrite`), and so
does a run of output and switches (`monitor_run_refines`). The cursor is on the screen in every run of the
display, so what holds of private screens there holds of the pages.
-/

namespace Boss
open Lib

/-- A terminal without its screen. -/
def Terminal.vars (T : Terminal) : TermVars :=
  ⟨T.cmdHist, T.lineBuffer, T.lineBufferIndex, T.typingLine, T.cX, T.cY, T.cmdCount⟩

/-- The private screens of the driver. -/
def Tty.screens (s : Tty) : Screens := ⟨fun t => (s.terminals t).screen, s.curTerminal⟩

/-- The terminals of the machine `m`, screens and variables, are those of the driver `s`. -/
structure Monitor.Holds (m : Monitor) (s : Tty) : Prop where
  video : Refines m.video s.screens
  vars : ∀ t, m.terminals t = (s.terminals t).vars

/-- The terminals behind an update. -/
lemma Tty.setTerminal_terminals {s : Tty} {t : TermId} {T : Terminal} :
    (s.setTerminal t T).terminals = Function.update s.terminals t T := rfl

/-- The variables behind an update. -/
lemma Monitor.setTerm_terminals {m : Monitor} {t : TermId} {f : TermVars → TermVars} :
    (m.setTerm t f).terminals = Function.update m.terminals t (f (m.terminals t)) := rfl

/-- The screens behind an update of a terminal. -/
lemma Tty.setTerminal_screens {s : Tty} {t : TermId} {T : Terminal} :
    (s.setTerminal t T).screens = ⟨Function.update s.screens.page t T.screen, s.curTerminal⟩ := by
  unfold screens setTerminal
  congr 1
  funext u
  simp only [Function.update_apply]
  split
  · rfl
  · rfl

/-- The pages behind an update of a terminal. -/
lemma Tty.setTerminal_page {s : Tty} {t : TermId} {T : Terminal} :
    (s.setTerminal t T).screens.page = Function.update s.screens.page t T.screen := by
  rw [setTerminal_screens]

/-- A terminal replaced by itself. -/
lemma Tty.setTerminal_self {s : Tty} {t : TermId} : s.setTerminal t (s.terminals t) = s := by
  rw [setTerminal, Function.update_eq_self]

namespace Monitor.Holds
variable {m : Monitor} {s : Tty} {t : TermId} {T T' : Terminal} {off i n start : Nat} {b c : UInt8}

/-- The terminal that is changed, in the machine. -/
lemma vars_self (h : m.Holds (s.setTerminal t T)) : m.terminals t = T.vars := by
  rw [h.vars t, Tty.setTerminal_terminals, Function.update_self]

/-- Variables may change together, where the screen stays. -/
lemma setTerm (h : m.Holds (s.setTerminal t T)) {f : TermVars → TermVars} (hvars : f T.vars = T'.vars)
    (hscreen : T'.screen = T.screen) : (m.setTerm t f).Holds (s.setTerminal t T') where
  video := by
    rw [Tty.setTerminal_screens, hscreen, ← Tty.setTerminal_screens]
    exact h.video
  vars u := by
    by_cases hu : u = t
    · subst hu
      rw [setTerm_terminals, Tty.setTerminal_terminals, h.vars_self, Function.update_self, Function.update_self, hvars]
    · have hother := h.vars u
      rw [Tty.setTerminal_terminals, Function.update_of_ne hu] at hother
      rw [setTerm_terminals, Tty.setTerminal_terminals, Function.update_of_ne hu, Function.update_of_ne hu, hother]

/-- A store on the page of `t`. -/
lemma store (h : m.Holds (s.setTerminal t T)) (hoff : off < 4096) :
    Holds { m with video := m.video.store (videoMem t + off) b }
      (s.setTerminal t { T with screen := Function.update T.screen off b }) where
  video := by
    have hpa := Video.Maps.kernelPa h.video.mapped (t := t) hoff
    have hstore := @Refines.store _ _ t _ b h.video hoff
    rw [Tty.setTerminal_page, Function.update_self, Function.update_idem] at hstore
    rw [Tty.setTerminal_screens, Video.store, hpa]
    exact hstore
  vars u := by
    simp only [h.vars u, Tty.setTerminal_terminals, Function.update_apply]
    split
    · rfl
    · rfl

/-- A cell read through the page tables. -/
lemma load (h : m.Holds (s.setTerminal t T)) (hoff : off < 4096) :
    m.video.load (videoMem t + off) = T.screen off := by
  have hpa := Video.Maps.kernelPa h.video.mapped (t := t) hoff
  have hpage := h.video.page t off hoff
  rw [Tty.setTerminal_page, Function.update_self] at hpage
  rw [Video.load, hpa]
  exact hpage

/-- The two stores of a cell of the screen. -/
lemma putCell (h : m.Holds (s.setTerminal t T)) (hi : i < 2000) (c : UInt8) :
    (m.putCell t i c).Holds (s.setTerminal t { T with screen := Terminal.cell T.screen i c }) := by
  have haddr : ∀ k < 4096, (videoMem t + k) % 0x100000000 = videoMem t + k := by
    have := t.isLt
    intro k hk
    refine Nat.mod_eq_of_lt ?_
    simp only [videoMem, Boss.video]
    omega
  have hstore : Holds { m with video := m.video.store (videoMem t + 2 * i) c } _ := h.store (by omega)
  have h0 : 2 * i % 0x100000000 = 2 * i := by omega
  have h1 : (2 * i + 1) % 0x100000000 = 2 * i + 1 := by omega
  rw [Monitor.putCell, haddr (2 * i) (by omega), Nat.add_assoc, haddr (2 * i + 1) (by omega), Terminal.cell, h0, h1]
  exact hstore.store (by omega)

/-- The loops over cells, for characters that are read from the screen in the same way. -/
lemma putCells {f : Monitor → Nat → UInt8} {g : Mem → Nat → UInt8} (h : m.Holds (s.setTerminal t T))
    (hn : start + n ≤ 2000)
    (hfg : ∀ m T, Monitor.Holds m (s.setTerminal t T) → ∀ i < start + n, f m i = g T.screen i) :
    (Monitor.putCells t f start n m).Holds
      (s.setTerminal t { T with screen := Terminal.cells g start n T.screen }) := by
  induction n with
  | zero => exact h
  | succ n ih =>
    have hcells := ih (by omega) fun m T hm i hi => hfg m T hm i (by omega)
    have hchar := hfg _ _ hcells (start + n) (by omega)
    have hcell := hcells.putCell (i := start + n) (by omega) (f (Monitor.putCells t f start n m) (start + n))
    rw [hchar] at hcell
    rw [Monitor.putCells, hchar]
    exact hcell

/-- Scrolling through the page tables scrolls the private screen. -/
lemma termScroll (h : m.Holds (s.setTerminal t T)) : (m.termScroll t).Holds (s.setTerminal t T.termScroll) := by
  have hrows : (Monitor.putCells t (fun m i => m.video.load (videoMem t + 2 * (i + 80))) 0 (24 * 80) m).Holds
      (s.setTerminal t { T with screen := Terminal.cells (fun m i => m (2 * (i + 80))) 0 (24 * 80) T.screen }) :=
    h.putCells (by omega) fun m T hm i hi => hm.load (by omega)
  exact hrows.putCells (by omega) fun _ _ _ _ _ => rfl

/-- A character on the screen. -/
lemma termPutc (h : m.Holds (s.setTerminal t T)) (hT : T.OnScreen) (c : UInt8) :
    (m.termPutc c t).Holds (s.setTerminal t (T.termPutc c)) := by
  obtain ⟨hx, hy⟩ := hT
  -- before the scroll the cursor may be one row below the screen
  have hmoved : ∃ m1, m1.Holds (s.setTerminal t (T.putcMoved c)) ∧ m.termPutc c t =
      if (m1.terminals t).cY = 25 then (m1.setTerm t fun T => { T with cY := dec32 T.cY }).termScroll t else m1 := by
    by_cases hc : c = 10 ∨ c = 13
    · refine ⟨m.setTerm t fun T => { T with cY := inc32 T.cY, cX := 0 }, ?_, ?_⟩
      · rw [Terminal.putcMoved, if_pos hc]
        exact h.setTerm rfl rfl
      · simp only [Monitor.termPutc, if_pos hc]
    · have hcell : (80 * T.cY + T.cX) % 0x100000000 < 2000 := by
        rw [Nat.mod_eq_of_lt (by omega)]
        omega
      refine ⟨(m.putCell t ((80 * T.cY + T.cX) % 0x100000000) c).setTerm t fun T =>
        { T with cY := (T.cY + inc32 T.cX / 80) % 0x100000000, cX := inc32 T.cX % 80 }, ?_, ?_⟩
      · rw [Terminal.putcMoved, if_neg hc]
        exact (h.putCell hcell c).setTerm rfl rfl
      · simp only [Monitor.termPutc, if_neg hc, h.vars_self]
        rfl
  obtain ⟨m1, hm1, heq⟩ := hmoved
  have hrow : (m1.terminals t).cY = (T.putcMoved c).cY := by
    rw [hm1.vars_self]
    rfl
  rw [heq, hrow, Terminal.termPutc_eq]
  split
  · have hup : (m1.setTerm t fun T => { T with cY := dec32 T.cY }).Holds
        (s.setTerminal t { T.putcMoved c with cY := dec32 (T.putcMoved c).cY }) := hm1.setTerm rfl rfl
    exact hup.termScroll
  · exact hm1

/-- The loop of `terminal_write` does the same on both. -/
lemma writeLoop {buf : Mem} (h : m.Holds (s.setTerminal t T)) (hT : T.OnScreen) :
    (Monitor.writeLoop t buf n i m).1.Holds (s.setTerminal t (T.writeLoop buf n i).1) ∧
      (Monitor.writeLoop t buf n i m).2 = (T.writeLoop buf n i).2 := by
  induction n generalizing i m T with
  | zero => exact ⟨h, rfl⟩
  | succ n ih =>
    have hputc := h.termPutc hT (buf i)
    have hnext := ih (i := i + 1) hputc (Terminal.termPutc_cursor hT).1
    unfold Monitor.writeLoop Terminal.writeLoop
    split
    · exact ⟨h, rfl⟩
    · split
      · next ht =>
        rw [← ht]
        exact hnext
      · exact hnext

end Monitor.Holds

/-- `terminal_write` through the page tables does what it does on private screens. -/
theorem Monitor.Holds.terminalWrite {m : Monitor} {s : Tty} {t : TermId} {buf : Option Mem} {n : Nat}
    (h : m.Holds s) (hT : (s.terminals t).OnScreen) :
    (m.terminalWrite t buf n).1.Holds (s.terminalWrite t buf n).1 ∧
      (m.terminalWrite t buf n).2 = (s.terminalWrite t buf n).2 := by
  cases buf with
  | none => exact ⟨h, rfl⟩
  | some buf =>
    rw [← @Tty.setTerminal_self s t] at h
    obtain ⟨hloop, hcount⟩ := @Monitor.Holds.writeLoop m s t _ 0 n buf h hT
    simp only [Monitor.terminalWrite, Tty.terminalWrite, hcount, and_true]
    generalize (Monitor.writeLoop t buf n 0 m).1 = m1 at *
    have hcur : m1.video.curTerminal = s.curTerminal := hloop.video.cur
    rw [Monitor.moveCsr, hcur]
    split
    · next ht =>
      rw [← ht]
      refine hloop.setTerm ?_ rfl
      rw [hloop.vars_self]
      rfl
    · exact hloop

/-! ### Runs -/

/-- Output and switches. -/
inductive ScreenInput
  | write (t : TermId) (buf : Option Mem) (nbytes : Nat)
  | switch (term : UInt8)

/-- The machine: page tables, pages and variables. The cursor stays where it is in a switch. -/
def monitorSystem : System Monitor ScreenInput where
  step m
    | .write t buf nbytes => some (m.terminalWrite t buf nbytes).1
    | .switch term => some { m with video := m.video.switchTerminals term }

/-- The driver on private screens. -/
def ttySystem : System Tty ScreenInput where
  step s
    | .write t buf nbytes => some (s.terminalWrite t buf nbytes).1
    | .switch term => some (if h : term.toNat < 3 then s.switchTerminals ⟨term.toNat, h⟩ else s)

/-- The machine holds terminals whose cursors are on the screen. -/
def HoldsOnScreen (m : Monitor) (s : Tty) : Prop := m.Holds s ∧ ∀ t, (s.terminals t).OnScreen

/-- `terminal_write` keeps the cursor on the screen. -/
lemma Terminal.writeLoop_onScreen {T : Terminal} {buf : Mem} {n i : Nat} (hT : T.OnScreen) :
    (T.writeLoop buf n i).1.OnScreen := by
  induction n generalizing i T with
  | zero => exact hT
  | succ n ih =>
    unfold writeLoop
    split
    · exact hT
    · exact ih (termPutc_cursor hT).1

/-- `terminal_write` keeps all cursors on their screens. -/
lemma Tty.terminalWrite_onScreen {s : Tty} {t : TermId} {buf : Option Mem} {n : Nat}
    (hs : ∀ u, (s.terminals u).OnScreen) : ∀ u, ((s.terminalWrite t buf n).1.terminals u).OnScreen := by
  cases buf with
  | none => exact hs
  | some buf =>
    have hloop : ((s.terminals t).writeLoop buf n 0).1.OnScreen := Terminal.writeLoop_onScreen (hs t)
    intro u
    simp only [terminalWrite, setTerminal_terminals, Function.update_apply]
    split
    · split
      · exact hloop
      · exact hloop
    · exact hs u

/-- One operation on both. -/
lemma HoldsOnScreen.step {m m' : Monitor} {s : Tty} {i : ScreenInput} (h : HoldsOnScreen m s)
    (hst : monitorSystem.step m i = some m') : ∃ s', ttySystem.step s i = some s' ∧ HoldsOnScreen m' s' := by
  cases i with
  | write t buf nbytes =>
    cases hst
    exact ⟨_, rfl, (h.1.terminalWrite (h.2 t)).1, Tty.terminalWrite_onScreen h.2⟩
  | switch term =>
    cases hst
    refine ⟨_, rfl, ?_⟩
    obtain ⟨_, hstep, hvideo⟩ := step_refines (i := .switchTerminals term) h.1.video rfl
    cases hstep
    split
    · next hterm =>
      rw [dif_pos hterm] at hvideo
      exact ⟨⟨hvideo, h.1.vars⟩, h.2⟩
    · next hterm =>
      rw [dif_neg hterm] at hvideo
      exact ⟨⟨hvideo, h.1.vars⟩, h.2⟩

/-- Any output on any terminals and any switches through the page tables are the same output and switches on private
screens. -/
theorem monitor_run_refines {m m' : Monitor} {s : Tty} {is : List ScreenInput} (h : m.Holds s)
    (hs : ∀ t, (s.terminals t).OnScreen) (hr : monitorSystem.run m is = some m') :
    ∃ s', ttySystem.run s is = some s' ∧ m'.Holds s' := by
  obtain ⟨s', hrun, hholds⟩ := System.run_simulation (fun _ _ _ _ h hst => h.step hst) (R := HoldsOnScreen) ⟨h, hs⟩ hr
  exact ⟨s', hrun, hholds.1⟩

end Boss
