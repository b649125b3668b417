import Boss.Terminal.Room

/-!
# The blinking cursor

The screen shows a cursor of its own, at a cell that the CRT controller has in two registers. `move_csr` stores there
through an index port and a data port, one half of the number after the other. The screen functions move `c_x` and `c_y`
without it, so the blinking cursor is where the next character goes only because whoever calls them ends with
`move_csr`. The key handler and `terminal_write` do, each in its own way and not in every branch.

`blinking_cursor_follows`: from the first write of a process on the displayed terminal on, the two agree, whatever keys are
pressed, whichever processes write and read, and whichever terminal is displayed. UP and DOWN have to be pressed where they
have room: `c_x` and `c_y` lie behind `line_buffer`, and a read that clears a line which has left the buffer clears them
too.
-/

namespace Boss
open Lib

/-! ### The ports -/

/-- The registers of the CRT controller, behind the ports 0x3D4 and 0x3D5. -/
structure Crtc where
  index : UInt8
  reg : UInt8 → UInt8

namespace Crtc
variable {c : Crtc} {x y : Nat}

/-- `outb` to one of the two ports. -/
def outb (c : Crtc) (data port : Nat) : Crtc :=
  if port = 0x3D4 then { c with index := UInt8.ofNat data }
  else if port = 0x3D5 then { c with reg := Function.update c.reg c.index (UInt8.ofNat data) }
  else c

/-- The port operations of `move_csr`. -/
def moveCsr (c : Crtc) (x y : Nat) : Crtc :=
  let temp := (y * 80 + x) % 0x100000000
  let c := c.outb 14 0x3D4
  let c := c.outb (temp >>> 8) 0x3D5
  let c := c.outb 15 0x3D4
  c.outb temp 0x3D5

/-- The cell of the blinking cursor. -/
def location (c : Crtc) : Nat := 256 * (c.reg 14).toNat + (c.reg 15).toNat

/-- `move_csr` puts the blinking cursor on its cell. -/
lemma moveCsr_location : (c.moveCsr x y).location = (80 * y + x) % 65536 := by
  have hreg : (c.moveCsr x y).reg = Function.update (Function.update c.reg 14
      (UInt8.ofNat (((y * 80 + x) % 0x100000000) >>> 8))) 15 (UInt8.ofNat ((y * 80 + x) % 0x100000000)) := rfl
  rw [location, hreg, Function.update_self, Function.update_of_ne (by decide), Function.update_self, UInt8.toNat_ofNat',
    UInt8.toNat_ofNat', Nat.shiftRight_eq_div_pow]
  omega

/-- The calls of `move_csr` one after another. -/
def moveAll (c : Crtc) (moves : List (Nat × Nat)) : Crtc := moves.foldl (fun c m => c.moveCsr m.1 m.2) c

/-- The last call counts. -/
lemma moveAll_location {moves : List (Nat × Nat)} {m : Nat × Nat} (h : moves.getLast? = some m) :
    (c.moveAll moves).location = (80 * m.2 + m.1) % 65536 := by
  obtain ⟨before, rfl⟩ := List.getLast?_eq_some_iff.mp h
  rw [moveAll, List.foldl_append]
  exact moveCsr_location

end Crtc

/-! ### The calls of `move_csr` -/

/-- `c_x` and `c_y`. -/
def Terminal.cursor (T : Terminal) : Nat × Nat := (T.cX, T.cY)

namespace Handler

/-- The calls in the loop that takes a recalled command off the line, one by each `term_delete_char`. -/
def eraseMoves (row : Mem) (r : Int) : (fuel i : Nat) → Handler → List (Nat × Nat)
  | 0, _, _ => []
  | fuel + 1, i, h =>
    let h := h.readHist r [i, i + 1]
    if rowGoesOn row i then (eraseBody i h).term.cursor :: eraseMoves row r fuel (i + 1) (eraseBody i h) else []

/-- One call for the new row. -/
def enterMoves (h : Handler) : List (Nat × Nat) :=
  if h.term.cY = 24 then [(0, h.term.cY)] else [(0, inc32 h.term.cY)]

/-- One call by `term_delete_char`. -/
def backspaceMoves (h : Handler) : List (Nat × Nat) :=
  if h.term.lineBufferIndex > 0 then [h.term.termDeleteChar.cursor] else []

/-- The calls while a row is taken off, one for the blank, and the one at the end of UP. -/
def upMoves (below : Mem) (h : Handler) : List (Nat × Nat) :=
  let h1 := h.draw (.termPutc 32)
  let r := (h1.term.cmdCount : Int) - 1
  eraseMoves (h1.histRow below r) r 127 0 h1 ++ [(h1.eraseRow below r).term.cursor, (h.keyUp below).term.cursor]

/-- The same for DOWN. -/
def downMoves (below : Mem) (h : Handler) : List (Nat × Nat) :=
  let h1 := h.draw (.termPutc 32)
  let h1 := if h1.term.cmdCount = 0 then h1.setCount 1 else h1
  let r := (h1.term.cmdCount : Int) - 1
  eraseMoves (h1.histRow below r) r 127 0 h1 ++ [(h1.eraseRow below r).term.cursor, (h.keyDown below).term.cursor]

/-- One call by `term_clear`, one by the handler. -/
def resetMoves (_ : Handler) : List (Nat × Nat) := [(0, 0), (0, 0)]

/-- One call behind `term_putc`. -/
def charMoves (c : UInt8) (h : Handler) : List (Nat × Nat) :=
  if h.term.lineBufferIndex < maxBufIndex then [(h.term.termPutc c).cursor] else []

end Handler

namespace Tty

/-- The call in `switch_terminals`. -/
def switchMoves (s : Tty) (t : TermId) : List (Nat × Nat) :=
  if s.curTerminal ≠ t then [(s.terminals t).cursor] else []

/-- The calls of a key press. -/
def pressMoves (below : TermId → Mem) (s : Tty) (scancode : UInt8) : List (Nat × Nat) :=
  let h : Handler := ⟨s.displayed, []⟩
  if scancode = 0x2a then []
  else if scancode = 0x36 then []
  else if scancode = 0x38 then []
  else if scancode = 0x1D then []
  else if scancode = 0x3a then []
  else if scancode = 0x45 then []
  else if scancode = 0x46 then []
  else if scancode = 0x1C then h.enterMoves
  else if scancode = 0x0E then h.backspaceMoves
  else if scancode = 0x48 then h.upMoves (below s.curTerminal)
  else if scancode = 0x50 then h.downMoves (below s.curTerminal)
  else if s.ctrl ∧ keyboardChars.getD scancode.toNat 0 = 108 then h.resetMoves
  else if s.alt ∧ scancode = 0x3B then s.switchMoves 0
  else if s.alt ∧ scancode = 0x3C then s.switchMoves 1
  else if s.alt ∧ scancode = 0x3D then s.switchMoves 2
  else h.charMoves (s.keyboardCharacter scancode)

/-- The calls of `key_irq_handler`. -/
def keyMoves (below : TermId → Mem) (s : Tty) (data : UInt8) : List (Nat × Nat) :=
  if data &&& 0x80 = 0 then s.pressMoves below (data &&& 0x7F) else []

/-- The call in `terminal_write`. -/
def writeMoves (s : Tty) (t : TermId) (buf : Option Mem) (nbytes : Nat) : List (Nat × Nat) :=
  match buf with
  | none => []
  | some _ => if t = s.curTerminal then [((s.terminalWrite t buf nbytes).1.terminals t).cursor] else []

end Tty

/-! ### The machine -/

/-- The driver, the reads of the processes and the CRT controller. -/
structure Panel where
  tty : Tty
  readers : Pid → TermId × Reader
  crtc : Crtc

/-- What happens to the panel. -/
inductive PanelInput
  | key (k : Press)
  | write (t : TermId) (buf : Option Mem) (nbytes : Nat)
  | call (p : Pid) (t : TermId) (nbytes : Nat)
  | read (p : Pid)
  | history (t : TermId) (rows : Nat → Mem)

/-- The panel as a machine. `terminal_write` and the handler run without interrupts, a call of `terminal_read` goes on step
by step; `history` is `execute` storing commands. -/
def panelSystem : System Panel PanelInput where
  step m
    | .key k => some { m with tty := m.tty.press k, crtc := m.crtc.moveAll (m.tty.keyMoves k.below k.data) }
    | .write t buf nbytes =>
      some { m with
        tty := (m.tty.terminalWrite t buf nbytes).1, crtc := m.crtc.moveAll (m.tty.writeMoves t buf nbytes) }
    | .call p t nbytes =>
      match (m.readers p).2 with
      | .idle => some { m with readers := Function.update m.readers p (t, .waiting nbytes) }
      | _ => none
    | .read p =>
      let t := (m.readers p).1
      let (R, h) := (m.readers p).2.step (m.tty.terminals t)
      some { m with tty := m.tty.setTerminal t h.term, readers := Function.update m.readers p (t, R) }
    | .history t rows => some { m with tty := m.tty.setTerminal t { m.tty.terminals t with cmdHist := rows } }

namespace Panel

/-- The blinking cursor is where the next character of the displayed terminal goes. -/
def Agrees (m : Panel) : Prop := m.crtc.location = m.tty.displayed.pos % 65536

/-- Every line is in its buffer, every cursor on its screen, and no read goes beyond the line. -/
def InOrder (m : Panel) : Prop := m.tty.Sound ∧ ∀ p, (m.readers p).2.Ok

/-- UP and DOWN are pressed where they have room. -/
def Room (m : Panel) : PanelInput → Prop
  | .key k => m.tty.Room k
  | _ => True

instance {m : Panel} {i : PanelInput} : Decidable (m.Room i) := by
  cases i <;> unfold Room <;> infer_instance

end Panel

/-! ### What the calls leave -/

/-- The last call was for the cursor of `T'`; without a call, that is the one of `T`. -/
def LeavesCursor (T T' : Terminal) (moves : List (Nat × Nat)) : Prop := moves.getLast?.getD T.cursor = T'.cursor

/-- After such calls the blinking cursor is where it should be. -/
lemma LeavesCursor.agrees {T T' : Terminal} {moves : List (Nat × Nat)} {c : Crtc} (h : LeavesCursor T T' moves)
    (hc : c.location = T.pos % 65536) : (c.moveAll moves).location = T'.pos % 65536 := by
  unfold LeavesCursor at h
  cases hlast : moves.getLast? with
  | none =>
    rw [hlast] at h
    rw [List.getLast?_eq_none_iff.mp hlast]
    obtain ⟨hx, hy⟩ := Prod.mk.inj h
    rw [Terminal.pos, ← hx, ← hy]
    exact hc
  | some m =>
    rw [hlast] at h
    obtain rfl : m = T'.cursor := h
    exact Crtc.moveAll_location hlast

namespace Terminal
variable {T U : Terminal} {c : UInt8}

/-- Where Enter puts the cursor. -/
lemma newRow_cursor_eq : T.newRow.cursor = if T.cY = 24 then (0, T.cY) else (0, inc32 T.cY) := by
  unfold newRow
  split
  · rfl
  · rfl

/-- The scroll in the last cell leaves the cursor there. -/
lemma scrollCorner_cursor_eq : T.scrollCorner.cursor = T.cursor := by
  unfold scrollCorner
  split
  · rfl
  · rfl

/-- Where a character puts the cursor depends on where it was only. -/
lemma termPutc_cursor_congr (h : U.cursor = T.cursor) : (U.termPutc c).cursor = (T.termPutc c).cursor := by
  obtain ⟨hx, hy⟩ : U.cX = T.cX ∧ U.cY = T.cY := Prod.mk.inj h
  by_cases hc : c = 10 ∨ c = 13
  · simp only [termPutc, if_pos hc, hy]
    split
    · rfl
    · rfl
  · simp only [termPutc, if_neg hc, hx, hy]
    split
    · rfl
    · rfl

end Terminal

namespace Handler
variable {h : Handler} {below : Mem} {c : UInt8} {fuel v : Nat}

/-- The index of the line is not part of the cursor. -/
lemma setIndex_cursor : (h.setIndex v).term.cursor = h.term.cursor := rfl

/-- Enter calls `move_csr` for the new row. -/
lemma keyEnter_leaves : LeavesCursor h.term h.keyEnter.term h.enterMoves := by
  have hrow := @Terminal.newRow_cursor_eq (((h.setCount 0).putLine (h.setCount 0).term.lineBufferIndex 10).setTyping
    false).term
  refine Eq.trans ?_ hrow.symm
  unfold enterMoves
  change _ = if h.term.cY = 24 then (0, h.term.cY) else (0, inc32 h.term.cY)
  split
  · rfl
  · rfl

/-- Backspace leaves the call to `term_delete_char`. -/
lemma keyBackspace_leaves : LeavesCursor h.term h.keyBackspace.term h.backspaceMoves := by
  unfold LeavesCursor backspaceMoves keyBackspace
  split
  · rw [decIndex, setIndex_cursor]
    rfl
  · rfl

/-- UP ends with a call. -/
lemma keyUp_leaves : LeavesCursor h.term (h.keyUp below).term (h.upMoves below) := by
  simp only [LeavesCursor, upMoves, List.getLast?_append]
  rfl

/-- DOWN ends with a call. -/
lemma keyDown_leaves : LeavesCursor h.term (h.keyDown below).term (h.downMoves below) := by
  simp only [LeavesCursor, downMoves, List.getLast?_append]
  rfl

/-- Zeroing the line moves nothing. -/
lemma clearLine_cursor : (clearLine fuel h).term.cursor = h.term.cursor := by
  induction fuel generalizing h with
  | zero => rfl
  | succ fuel ih =>
    rw [clearLine]
    split
    · rw [ih, decIndex, setIndex_cursor]
      rfl
    · rfl

/-- Control-L is back in the first cell. -/
lemma keyReset_leaves : LeavesCursor h.term h.keyReset.term h.resetMoves := by
  change ((0, 0) : Nat × Nat) = _
  exact (@clearLine_cursor (h.draw .termClear) _).symm

/-- A character calls it behind the echo; the scroll that can follow does not move the cursor. -/
lemma keyChar_leaves : LeavesCursor h.term (h.keyChar c).term (h.charMoves c) := by
  unfold LeavesCursor charMoves keyChar
  split
  · rw [incIndex, setIndex_cursor]
    have hput : ((h.putLine h.term.lineBufferIndex c).term.termPutc c).cursor = (h.term.termPutc c).cursor :=
      Terminal.termPutc_cursor_congr rfl
    exact (Terminal.scrollCorner_cursor_eq.trans hput).symm
  · rfl

end Handler

namespace Tty
variable {s : Tty} {below : TermId → Mem} {data scancode : UInt8}

/-- A test of the handler decides about the calls in the same way. -/
lemma leaves_ite {T : Terminal} {c : Prop} [Decidable c] {r r' : Tty × List Event} {moves moves' : List (Nat × Nat)}
    (h : LeavesCursor T r.1.displayed moves) (h' : LeavesCursor T r'.1.displayed moves') :
    LeavesCursor T (if c then r else r').1.displayed (if c then moves else moves') := by
  split
  · exact h
  · exact h'

/-- A branch on the displayed terminal. -/
lemma leaves_onCur {f : Handler → Handler} {moves : List (Nat × Nat)}
    (hf : LeavesCursor s.displayed (f ⟨s.displayed, []⟩).term moves) :
    LeavesCursor s.displayed (s.onCur f).1.displayed moves := by
  have hterm : (s.onCur f).1.displayed = (f ⟨s.displayed, []⟩).term := Function.update_self ..
  rwa [hterm]

/-- A switch calls it for the terminal that comes, unless that is displayed already. -/
lemma leaves_switch {t : TermId} : LeavesCursor s.displayed { s with curTerminal := t }.displayed (s.switchMoves t) := by
  unfold switchMoves
  split
  · rfl
  · next hsame =>
    rw [← not_not.mp hsame]
    rfl

/-- The calls of a key press are for the cursor of the terminal that is displayed afterwards. -/
lemma keyPressed_leaves :
    LeavesCursor s.displayed (s.keyPressed below scancode).1.displayed (s.pressMoves below scancode) := by
  unfold keyPressed pressMoves
  -- the modifier and lock keys
  refine leaves_ite rfl (leaves_ite rfl (leaves_ite rfl (leaves_ite rfl (leaves_ite rfl (leaves_ite rfl
    (leaves_ite rfl ?_))))))
  refine leaves_ite (leaves_onCur Handler.keyEnter_leaves) (leaves_ite (leaves_onCur Handler.keyBackspace_leaves) ?_)
  refine leaves_ite (leaves_onCur Handler.keyUp_leaves) (leaves_ite (leaves_onCur Handler.keyDown_leaves) ?_)
  refine leaves_ite (leaves_onCur Handler.keyReset_leaves) ?_
  refine leaves_ite leaves_switch (leaves_ite leaves_switch (leaves_ite leaves_switch ?_))
  exact leaves_onCur Handler.keyChar_leaves

/-- The same for any byte: a release calls nothing. -/
lemma keyIrqHandler_leaves :
    LeavesCursor s.displayed (s.keyIrqHandler below data).1.displayed (s.keyMoves below data) := by
  unfold keyIrqHandler keyMoves
  refine leaves_ite keyPressed_leaves ?_
  obtain ⟨hterminals, hcur⟩ := @keyReleased_frame s (data &&& 0x7F)
  change s.displayed.cursor = (s.keyReleased (data &&& 0x7F)).displayed.cursor
  rw [displayed, displayed, hterminals, hcur]

/-- A write moves the cursor of its own terminal, and the blinking one if that is displayed. -/
lemma terminalWrite_leaves {t : TermId} {buf : Option Mem} {nbytes : Nat} :
    LeavesCursor s.displayed (s.terminalWrite t buf nbytes).1.displayed (s.writeMoves t buf nbytes) := by
  cases buf with
  | none => rfl
  | some buf =>
    simp only [writeMoves]
    split
    · next ht =>
      rw [ht]
      rfl
    · next ht =>
      have hother : (s.terminalWrite t (some buf) nbytes).1.displayed = s.displayed :=
        Function.update_of_ne (Ne.symm ht) ..
      rw [hother]
      rfl

/-- Nothing is to be done for a change that leaves the cursor alone. -/
lemma setTerminal_leaves {t : TermId} {T : Terminal} (h : T.cursor = (s.terminals t).cursor) :
    LeavesCursor s.displayed (s.setTerminal t T).displayed [] := by
  change (s.terminals s.curTerminal).cursor = (Function.update s.terminals t T s.curTerminal).cursor
  rw [Function.update_apply]
  split
  · next hcur => rw [h, hcur]
  · rfl

end Tty

/-- A read does not move the cursor. -/
lemma Reader.step_cursor {T : Terminal} {R : Reader} : (R.step T).2.term.cursor = T.cursor := by
  cases R with
  | copying n buf =>
    simp only [step]
    split
    · rfl
    · rfl
  | clearing n i buf =>
    simp only [step]
    split
    · rfl
    · rfl
  | _ => rfl

namespace Panel
variable {m m' : Panel} {i : PanelInput}

/-- Every step leaves the blinking cursor where the next character goes. -/
lemma Agrees.step (h : m.Agrees) (hstep : panelSystem.step m i = some m') : m'.Agrees := by
  cases i with
  | key k =>
    cases hstep
    exact Tty.keyIrqHandler_leaves.agrees h
  | write t buf nbytes =>
    cases hstep
    exact Tty.terminalWrite_leaves.agrees h
  | call p t nbytes =>
    simp only [panelSystem] at hstep
    split at hstep
    · cases hstep
      exact h
    · cases hstep
  | read p =>
    obtain rfl := Option.some.inj hstep
    exact (Tty.setTerminal_leaves Reader.step_cursor).agrees h
  | history t rows =>
    obtain rfl := Option.some.inj hstep
    have hcursor : Terminal.cursor { m.tty.terminals t with cmdHist := rows } = (m.tty.terminals t).cursor := rfl
    exact (Tty.setTerminal_leaves hcursor).agrees h

/-- A write on the displayed terminal puts the blinking cursor in its place, wherever it was. -/
lemma agrees_of_write {buf : Mem} {nbytes : Nat}
    (hstep : panelSystem.step m (.write m.tty.curTerminal (some buf) nbytes) = some m') : m'.Agrees := by
  cases hstep
  have hmoves : m.tty.writeMoves m.tty.curTerminal (some buf) nbytes =
      [((m.tty.terminalWrite m.tty.curTerminal (some buf) nbytes).1.terminals m.tty.curTerminal).cursor] := if_pos rfl
  rw [Agrees, hmoves]
  exact Crtc.moveAll_location List.getLast?_singleton

/-- The reads of the processes, with one of them changed. -/
lemma readers_ok {p : Pid} {t : TermId} {R : Reader} (h : ∀ p, (m.readers p).2.Ok) (hR : R.Ok) :
    ∀ q, (Function.update m.readers p (t, R) q).2.Ok := by
  intro q
  rw [Function.update_apply]
  split
  · exact hR
  · exact h q

/-- A step where it has room keeps the panel in order. -/
lemma InOrder.step (h : m.InOrder) (hroom : m.Room i) (hstep : panelSystem.step m i = some m') : m'.InOrder := by
  obtain ⟨hsound, hreaders⟩ := h
  cases i with
  | key k =>
    cases hstep
    exact ⟨hsound.press hroom, hreaders⟩
  | write t buf nbytes =>
    cases hstep
    exact ⟨hsound.terminalWrite, hreaders⟩
  | call p t nbytes =>
    simp only [panelSystem] at hstep
    split at hstep
    · cases hstep
      exact ⟨hsound, readers_ok hreaders trivial⟩
    · cases hstep
  | read p =>
    cases hstep
    have hT := hsound (m.readers p).1
    obtain ⟨hR, hsafe⟩ := Reader.step_safe hT.ok (hreaders p)
    exact ⟨hsound.setTerminal ⟨(Reader.step_placed hT.toPlaced).1, hsafe.2.2⟩, readers_ok hreaders hR⟩
  | history t rows =>
    cases hstep
    have hT := hsound t
    exact ⟨hsound.setTerminal ⟨⟨hT.cursor, hT.line, hT.behind⟩, hT.count⟩, hreaders⟩

end Panel

/-- From the first write on the displayed terminal on, the blinking cursor is where the next character of the displayed
terminal goes: after any keys, writes and steps of reads, in any order, on whichever terminal is displayed, with UP and
DOWN pressed where they have room. The lines then stay in their buffers, away from the cursors behind them. -/
theorem blinking_cursor_follows (m m' : Panel) (hm : m.InOrder) (buf : Mem) (nbytes : Nat) (is : List PanelInput)
    (hroom : panelSystem.Guarded Panel.Room m (.write m.tty.curTerminal (some buf) nbytes :: is))
    (hrun : panelSystem.run m (.write m.tty.curTerminal (some buf) nbytes :: is) = some m') :
    m'.crtc.location = (80 * m'.tty.displayed.cY + m'.tty.displayed.cX) % 65536 ∧ m'.InOrder := by
  refine ⟨?_, System.guarded_invariant (fun _ _ _ h hroom hstep => h.step hroom hstep) hm hroom hrun⟩
  obtain ⟨m1, hwrite, hrest⟩ := System.run_cons.mp hrun
  exact System.run_invariant (I := Panel.Agrees) (fun _ _ _ h hstep => h.step hstep) (Panel.agrees_of_write hwrite) hrest

/-- A terminal with a blinking cursor that nobody has moved. -/
def firstPanel : Panel := ⟨.keyboardInstall fun _ => .blank, fun _ => (0, .idle), ⟨0, fun _ => 0⟩⟩

/-- The key `a`, DOWN, which takes an `a` of the history off the line, Enter on the second terminal, and back. -/
def backKeys : List PanelInput :=
  .history 0 (fun _ => Function.update (fun _ => 0) 0 97) ::
    [0x1E, 0x50, 0x38, 0x3C, 0x1C, 0x3B].map fun data => .key ⟨data, fun _ _ => 0⟩

/-- A switch to another terminal and back. -/
theorem blinking_cursor_follows_back : ∃ m', panelSystem.run firstPanel
      (.write firstPanel.tty.curTerminal (some fun _ => 62) 2 :: backKeys) = some m' ∧
    m'.crtc.location = (80 * m'.tty.displayed.cY + m'.tty.displayed.cX) % 65536 ∧ m'.InOrder := by
  obtain ⟨m', hrun⟩ : ∃ m', panelSystem.run firstPanel
      (.write firstPanel.tty.curTerminal (some fun _ => 62) 2 :: backKeys) = some m' := ⟨_, rfl⟩
  exact ⟨m', hrun, blinking_cursor_follows firstPanel m' ⟨Tty.keyboardInstall_sound _, fun _ => trivial⟩
    (fun _ => 62) 2 backKeys (by decide +kernel) hrun⟩

end Boss
