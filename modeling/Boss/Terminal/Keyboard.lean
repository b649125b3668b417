import Boss.Lib.Memory
import Boss.Video.Tables

/-!
# The keyboard driver

`key_irq_handler` of `keyboard.c` and the screen functions of `lib.c` it calls, on the three terminals of
the machine. A `Terminal` is `terminal_t` with the 4KB screen behind `video_mem`; unsigned fields wrap at
`2 ^ 32` as `uint32_t` does (`inc32`, `dec32`).

The handler indexes three things with numbers it computes: `line_buffer`, `cmd_hist`, and it stores into
`line_buffer_index`. A `Handler` is a terminal together with the trace of these uses, so that a bound on
all of them can be stated. The UP key reads row `cmdCount - 1` of the history also when `cmdCount` is 0:
that row is whatever lies before the array, the parameter `below`. On the second and the third terminal this
is the line and the cursor of the one before and changes with them, so a `Press` brings it along.

The model follows a store as long as its index is inside the array; behind `line_buffer` there are other fields
of the terminal, which are kept apart from it here.
-/

namespace Boss
open Lib

/-- `MAX_BUF_INDEX`. -/
def maxBufIndex : Nat := 127

/-- `++` on a `uint32_t`. -/
def inc32 (n : Nat) : Nat := (n + 1) % 0x100000000

/-- `--` on a `uint32_t`. -/
def dec32 (n : Nat) : Nat := (n + 0xFFFFFFFF) % 0x100000000

/-- Counting up without a wrap. -/
lemma inc32_of_lt {n : Nat} (h : n < 0xFFFFFFFF) : inc32 n = n + 1 := by
  unfold inc32
  omega

/-- Counting down without a wrap. -/
lemma dec32_succ {n : Nat} (h : n < 0xFFFFFFFF) : dec32 (n + 1) = n := by
  unfold dec32
  omega

/-- `terminal_t`. -/
structure Terminal where
  cmdHist : Nat → Mem
  lineBuffer : Mem
  lineBufferIndex : Nat
  typingLine : Bool
  cX : Nat
  cY : Nat
  cmdCount : Nat
  screen : Mem

/-- A terminal whose arrays are zero. -/
def Terminal.blank : Terminal := ⟨fun _ _ => 0, fun _ => 0, 0, true, 0, 0, 0, fun _ => 0⟩

/-! ### The screen -/

namespace Terminal

/-- `ATTRIB`. -/
def attrib : UInt8 := 0x7

/-- The two stores of one character cell. -/
def cell (screen : Mem) (i : Nat) (c : UInt8) : Mem :=
  Function.update (Function.update screen (2 * i % 0x100000000) c)
    ((2 * i + 1) % 0x100000000) attrib

/-- The loops over cells: `f i` is the character of cell `i`, read from the screen as it then is. -/
def cells (f : Mem → Nat → UInt8) (start : Nat) : Nat → Mem → Mem
  | 0, screen => screen
  | n + 1, screen =>
    let screen := cells f start n screen
    cell screen (start + n) (f screen (start + n))

/-- `term_scroll`. -/
def termScroll (T : Terminal) : Terminal :=
  let screen := cells (fun m i => m (2 * (i + 80))) 0 (24 * 80) T.screen
  { T with screen := cells (fun _ _ => 32) (24 * 80) 80 screen }

/-- `term_clear`. -/
def termClear (T : Terminal) : Terminal :=
  { T with screen := cells (fun _ _ => 32) 0 (25 * 80) T.screen, cX := 0, cY := 0 }

/-- `term_delete_char`. -/
def termDeleteChar (T : Terminal) : Terminal :=
  let screen := cell T.screen ((80 * T.cY + T.cX + 0xFFFFFFFF) % 0x100000000) 32
  let x := dec32 T.cX
  if x = 0xFFFFFFFF then
    { T with screen, cX := (x + 80) % 0x100000000, cY := dec32 T.cY }
  else { T with screen, cX := x }

/-- `term_putc`. -/
def termPutc (c : UInt8) (T : Terminal) : Terminal :=
  let T :=
    if c = 10 ∨ c = 13 then { T with cY := inc32 T.cY, cX := 0 }
    else
      let x := inc32 T.cX
      { T with
        screen := cell T.screen ((80 * T.cY + T.cX) % 0x100000000) c
        cY := (T.cY + x / 80) % 0x100000000
        cX := x % 80 }
  if T.cY = 25 then termScroll { T with cY := dec32 T.cY } else T

/-- `move_csr` on the terminal it moves. -/
def moveCsr (x y : Nat) (T : Terminal) : Terminal := { T with cX := x, cY := y }

/-- The cursor after Enter: the next row, or the last row of a scrolled screen. -/
def newRow (T : Terminal) : Terminal :=
  if T.cY = 24 then (T.termScroll).moveCsr 0 T.cY else T.moveCsr 0 (inc32 T.cY)

/-- The scroll behind a character typed at the end of the last row. -/
def scrollCorner (T : Terminal) : Terminal := if T.cX = 79 ∧ T.cY = 24 then T.termScroll else T

end Terminal

/-! ### The handler's branches -/

/-- A use of a computed index: an access to `line_buffer` or `cmd_hist`, or a value stored into
`line_buffer_index`. -/
inductive Event
  | lineBuffer (i : Nat)
  | cmdHist (row : Int) (col : Nat)
  | index (v : Nat)

/-- Inside the declared bounds: `line_buffer[128]`, `cmd_hist[5][128]`, and at most `MAX_BUF_INDEX`. -/
def Event.InBounds : Event → Prop
  | .lineBuffer i => i ≤ 127
  | .cmdHist row col => 0 ≤ row ∧ row ≤ 4 ∧ col ≤ 127
  | .index v => v ≤ maxBufIndex

instance (e : Event) : Decidable e.InBounds := by
  cases e <;> unfold Event.InBounds <;> infer_instance

/-- A terminal and the indices used on it so far, oldest first. -/
structure Handler where
  term : Terminal
  trace : List Event

namespace Handler

/-- `line_buffer[i] = c`. With an index behind the array the code would change another field instead; the trace
tells. -/
def putLine (h : Handler) (i : Nat) (c : UInt8) : Handler :=
  ⟨{ h.term with lineBuffer := Function.update h.term.lineBuffer i c }, h.trace ++ [.lineBuffer i]⟩

/-- `line_buffer_index = v`. -/
def setIndex (h : Handler) (v : Nat) : Handler :=
  ⟨{ h.term with lineBufferIndex := v }, h.trace ++ [.index v]⟩

/-- `line_buffer_index++`. -/
def incIndex (h : Handler) : Handler := h.setIndex (inc32 h.term.lineBufferIndex)

/-- `line_buffer_index--`. -/
def decIndex (h : Handler) : Handler := h.setIndex (dec32 h.term.lineBufferIndex)

/-- Accesses to columns of a history row. -/
def readHist (h : Handler) (row : Int) (cols : List Nat) : Handler :=
  { h with trace := h.trace ++ cols.map (.cmdHist row) }

/-- A change of the screen and the cursor. -/
def draw (h : Handler) (f : Terminal → Terminal) : Handler := { h with term := f h.term }

/-- `typingLine = b`. -/
def setTyping (h : Handler) (b : Bool) : Handler := { h with term := { h.term with typingLine := b } }

/-- `cmdCount = v`. -/
def setCount (h : Handler) (v : Nat) : Handler := { h with term := { h.term with cmdCount := v } }

/-- `cmd_hist[row]`; there is memory, but no row, below row 0. -/
def histRow (below : Mem) (h : Handler) (row : Int) : Mem :=
  if row < 0 then below else h.term.cmdHist row.toNat

/-- The test of the history loops at column `i`: not two blanks, not two zeros, not the last column. -/
def rowGoesOn (row : Mem) (i : Nat) : Bool :=
  !(row i == 32 && row (i + 1) == 32) && !(row i == 0 && row (i + 1) == 0) &&
    decide (i + 1 < maxBufIndex)

/-- A history loop over row number `r`: where it stops, and the state then. -/
def historyLoop (row : Mem) (r : Int) (body : Nat → Handler → Handler) :
    (fuel i : Nat) → Handler → Nat × Handler
  | 0, i, h => (i, h)
  | fuel + 1, i, h =>
    let h := h.readHist r [i, i + 1]
    if rowGoesOn row i then historyLoop row r body fuel (i + 1) (body i h) else (i, h)

/-- The body of the loops that take a recalled command off the line. -/
def eraseBody (i : Nat) (h : Handler) : Handler :=
  ((h.putLine i 32).decIndex).draw .termDeleteChar

/-- The body of the loops that put a recalled command on the line. -/
def showBody (row : Mem) (r : Int) (i : Nat) (h : Handler) : Handler :=
  (((h.readHist r [i]).putLine i (row i)).incIndex).draw (.termPutc (row i))

/-- Take the command of row `r` off the line, and the blank before it. -/
def eraseRow (below : Mem) (r : Int) (h : Handler) : Handler :=
  let (i, h) := historyLoop (h.histRow below r) r eraseBody 127 0 h
  ((h.putLine i 32).incIndex).draw .termDeleteChar

/-- Put the command of row `r` on the line. -/
def showRow (r : Nat) (h : Handler) : Handler :=
  (historyLoop (h.term.cmdHist r) r (showBody (h.term.cmdHist r) r) 127 0 h).2

/-- The Enter key. -/
def keyEnter (h : Handler) : Handler :=
  let h := h.setCount 0
  let h := h.putLine h.term.lineBufferIndex 10
  (h.setTyping false).draw .newRow

/-- The Backspace key. -/
def keyBackspace (h : Handler) : Handler :=
  if h.term.lineBufferIndex > 0 then (h.draw .termDeleteChar).decIndex else h

/-- The UP key: the previous command. -/
def keyUp (below : Mem) (h : Handler) : Handler :=
  let h := h.draw (.termPutc 32)
  let h := h.eraseRow below ((h.term.cmdCount : Int) - 1)
  let h := h.showRow h.term.cmdCount
  if h.term.cmdCount < 4 then h.setCount (h.term.cmdCount + 1) else h

/-- The DOWN key: the next command. -/
def keyDown (below : Mem) (h : Handler) : Handler :=
  let h := h.draw (.termPutc 32)
  let h := if h.term.cmdCount = 0 then h.setCount 1 else h
  let h := h.eraseRow below ((h.term.cmdCount : Int) - 1)
  let h := h.setCount (h.term.cmdCount - 1)
  if h.term.cmdCount ≠ 0 ∧ h.term.cmdCount < 4 then h.showRow h.term.cmdCount else h

/-- The loop of control-L that zeroes the line from its end. -/
def clearLine : (fuel : Nat) → Handler → Handler
  | 0, h => h
  | fuel + 1, h =>
    if h.term.lineBufferIndex > 0 then
      clearLine fuel ((h.putLine h.term.lineBufferIndex 0).decIndex)
    else h

/-- Control-L: an empty screen and an empty line. -/
def keyReset (h : Handler) : Handler :=
  let h := h.draw .termClear
  (h.clearLine h.term.lineBufferIndex).setIndex 0

/-- A key that is none of the others: store the character and echo it. -/
def keyChar (c : UInt8) (h : Handler) : Handler :=
  if h.term.lineBufferIndex < maxBufIndex then
    let h := (h.putLine h.term.lineBufferIndex c).draw (.termPutc c)
    (h.draw .scrollCorner).incIndex
  else h

end Handler

/-! ### Key codes -/

/-- Row of a key table. -/
def keyRow (s : String) : List UInt8 := s.toList.map Char.toUInt8

/-- `keyboard_chars`; the rest of its 128 entries is 0. -/
def keyboardChars : List UInt8 :=
  [0, 0] ++ keyRow "1234567890-=" ++ [0, 0] ++ keyRow "qwertyuiop[]" ++ [0, 0] ++
    keyRow "asdfghjkl;'\x60" ++ [0] ++ keyRow "\\zxcvbnm,./" ++ [0, 42, 0, 32] ++
    List.replicate 16 0 ++ [45, 0, 0, 0, 43]

/-- `shift_keyboard_chars`. -/
def shiftKeyboardChars : List UInt8 :=
  [0, 0] ++ keyRow "!@#$%^&*()_+" ++ [0, 0] ++ keyRow "QWERTYUIOP\x7b\x7d" ++ [0, 0] ++
    keyRow "ASDFGHJKL:\"~" ++ [0] ++ keyRow "|ZXCVBNM<>?" ++ [0, 42, 0, 32] ++
    List.replicate 16 0 ++ [45, 0, 0, 0, 43]

/-- `caps_lock_chars`. -/
def capsLockChars : List UInt8 :=
  [0, 0] ++ keyRow "1234567890-=" ++ [0, 0] ++ keyRow "QWERTYUIOP[]" ++ [0, 0] ++
    keyRow "ASDFGHJKL;'\x60" ++ [0] ++ keyRow "\\ZXCVBNM,./" ++ [0, 42, 0, 32] ++
    List.replicate 16 0 ++ [45, 0, 0, 0, 43]

/-- `caps_lock_and_shift`. -/
def capsLockAndShift : List UInt8 :=
  [0, 0] ++ keyRow "!@#$%^&*()_+" ++ [0, 0] ++ keyRow "qwertyuiop\x7b\x7d" ++ [0, 0] ++
    keyRow "asdfghjkl:\"~" ++ [0] ++ keyRow "|zxcvbnm<>?" ++ [0, 42, 0, 32] ++
    List.replicate 16 0 ++ [45, 0, 0, 0, 43]

/-- The driver's variables: the modifier keys, the terminals and the displayed one. -/
structure Tty where
  numlock : Bool
  scrolllock : Bool
  capslock : Bool
  leftShift : Bool
  rightShift : Bool
  alt : Bool
  ctrl : Bool
  curTerminal : TermId
  terminals : TermId → Terminal

namespace Tty

/-- `keyboard_install`, on whatever the arrays hold. -/
def keyboardInstall (terminals : TermId → Terminal) : Tty where
  numlock := false
  scrolllock := false
  capslock := false
  leftShift := false
  rightShift := false
  alt := false
  ctrl := false
  curTerminal := 0
  terminals := fun t =>
    { terminals t with typingLine := true, lineBufferIndex := 0, cX := 0, cY := 0, cmdCount := 0 }

/-- Replace one terminal. -/
def setTerminal (s : Tty) (t : TermId) (T : Terminal) : Tty :=
  { s with terminals := Function.update s.terminals t T }

/-- Run a branch on the displayed terminal. -/
def onCur (s : Tty) (f : Handler → Handler) : Tty × List Event :=
  let h := f ⟨s.terminals s.curTerminal, []⟩
  (s.setTerminal s.curTerminal h.term, h.trace)

/-- The character of a make code under the modifier keys. -/
def keyboardCharacter (s : Tty) (scancode : UInt8) : UInt8 :=
  let table :=
    if s.capslock && (s.leftShift || s.rightShift) then capsLockAndShift
    else if s.leftShift || s.rightShift then shiftKeyboardChars
    else if s.capslock then capsLockChars
    else keyboardChars
  table.getD scancode.toNat 0

/-- A key press. -/
def keyPressed (below : TermId → Mem) (s : Tty) (scancode : UInt8) : Tty × List Event :=
  if scancode = 0x2a then ({ s with leftShift := true }, [])
  else if scancode = 0x36 then ({ s with rightShift := true }, [])
  else if scancode = 0x38 then ({ s with alt := true }, [])
  else if scancode = 0x1D then ({ s with ctrl := true }, [])
  else if scancode = 0x3a then ({ s with capslock := !s.capslock }, [])
  else if scancode = 0x45 then ({ s with numlock := !s.numlock }, [])
  else if scancode = 0x46 then ({ s with scrolllock := !s.scrolllock }, [])
  else if scancode = 0x1C then s.onCur .keyEnter
  else if scancode = 0x0E then s.onCur .keyBackspace
  else if scancode = 0x48 then s.onCur (.keyUp (below s.curTerminal))
  else if scancode = 0x50 then s.onCur (.keyDown (below s.curTerminal))
  else if s.ctrl ∧ keyboardChars.getD scancode.toNat 0 = 108 then s.onCur .keyReset
  -- the screens follow by `switch_terminals`; the cursor is moved to where it was
  else if s.alt ∧ scancode = 0x3B then ({ s with curTerminal := 0 }, [])
  else if s.alt ∧ scancode = 0x3C then ({ s with curTerminal := 1 }, [])
  else if s.alt ∧ scancode = 0x3D then ({ s with curTerminal := 2 }, [])
  else s.onCur (.keyChar (s.keyboardCharacter scancode))

/-- A key release. -/
def keyReleased (s : Tty) (scancode : UInt8) : Tty :=
  if scancode = 0x2a then { s with leftShift := false }
  else if scancode = 0x36 then { s with rightShift := false }
  else if scancode = 0x38 then { s with alt := false }
  else if scancode = 0x1D then { s with ctrl := false }
  else s

/-- `key_irq_handler` on the byte the keyboard sent, with the trace of the indices it used. -/
def keyIrqHandler (below : TermId → Mem) (s : Tty) (data : UInt8) : Tty × List Event :=
  let scancode := data &&& 0x7F
  if data &&& 0x80 = 0 then s.keyPressed below scancode else (s.keyReleased scancode, [])

end Tty

/-- A byte from the keyboard, and what lies before the history of each terminal when it arrives. -/
structure Press where
  data : UInt8
  below : TermId → Mem

/-- The driver after a byte. -/
def Tty.press (s : Tty) (k : Press) : Tty := (s.keyIrqHandler k.below k.data).1

/-! ### Frame -/

/-- A release changes modifier keys only. -/
lemma Tty.keyReleased_frame {s : Tty} {scancode : UInt8} : (s.keyReleased scancode).terminals = s.terminals ∧
    (s.keyReleased scancode).curTerminal = s.curTerminal := by
  unfold keyReleased
  repeat' split
  all_goals exact ⟨rfl, rfl⟩

namespace Terminal
variable {T U V : Terminal} {c : UInt8}

/-- The input side of a terminal, which the screen functions leave alone. -/
structure SameInput (T U : Terminal) : Prop where
  hist : U.cmdHist = T.cmdHist
  buffer : U.lineBuffer = T.lineBuffer
  index : U.lineBufferIndex = T.lineBufferIndex
  typing : U.typingLine = T.typingLine
  count : U.cmdCount = T.cmdCount

/-- The relation is transitive. -/
lemma SameInput.trans (a : SameInput T U) (b : SameInput U V) : SameInput T V :=
  ⟨b.hist.trans a.hist, b.buffer.trans a.buffer, b.index.trans a.index, b.typing.trans a.typing, b.count.trans a.count⟩

/-- Scrolling leaves the line alone. -/
lemma termScroll_input : SameInput T T.termScroll := ⟨rfl, rfl, rfl, rfl, rfl⟩

/-- Deleting on the screen leaves the line alone. -/
lemma termDeleteChar_input : SameInput T T.termDeleteChar := by
  unfold termDeleteChar
  simp only
  split
  · exact ⟨rfl, rfl, rfl, rfl, rfl⟩
  · exact ⟨rfl, rfl, rfl, rfl, rfl⟩

/-- Drawing a character leaves the line alone. -/
lemma termPutc_input : SameInput T (T.termPutc c) := by
  unfold termPutc termScroll
  simp only
  split
  · split
    · exact ⟨rfl, rfl, rfl, rfl, rfl⟩
    · exact ⟨rfl, rfl, rfl, rfl, rfl⟩
  · split
    · exact ⟨rfl, rfl, rfl, rfl, rfl⟩
    · exact ⟨rfl, rfl, rfl, rfl, rfl⟩

/-- A new row leaves the line alone. -/
lemma newRow_input : SameInput T T.newRow := by
  unfold newRow
  split
  · exact ⟨rfl, rfl, rfl, rfl, rfl⟩
  · exact ⟨rfl, rfl, rfl, rfl, rfl⟩

/-- The extra scrolling leaves the line alone. -/
lemma scrollCorner_input : SameInput T T.scrollCorner := by
  unfold scrollCorner
  split
  · exact termScroll_input
  · exact ⟨rfl, rfl, rfl, rfl, rfl⟩

end Terminal

namespace Handler
variable {h : Handler} {f : Terminal → Terminal} {i v : Nat} {c : UInt8} {b : Bool} {r : Int}
variable {cols : List Nat}

@[simp] lemma putLine_buffer :
    (h.putLine i c).term.lineBuffer = Function.update h.term.lineBuffer i c := rfl
@[simp] lemma putLine_index : (h.putLine i c).term.lineBufferIndex = h.term.lineBufferIndex := rfl
@[simp] lemma putLine_typing : (h.putLine i c).term.typingLine = h.term.typingLine := rfl
@[simp] lemma putLine_count : (h.putLine i c).term.cmdCount = h.term.cmdCount := rfl

@[simp] lemma setIndex_buffer : (h.setIndex v).term.lineBuffer = h.term.lineBuffer := rfl
@[simp] lemma setIndex_index : (h.setIndex v).term.lineBufferIndex = v := rfl
@[simp] lemma setIndex_typing : (h.setIndex v).term.typingLine = h.term.typingLine := rfl
@[simp] lemma setIndex_count : (h.setIndex v).term.cmdCount = h.term.cmdCount := rfl

@[simp] lemma setCount_buffer : (h.setCount v).term.lineBuffer = h.term.lineBuffer := rfl
@[simp] lemma setCount_index : (h.setCount v).term.lineBufferIndex = h.term.lineBufferIndex := rfl
@[simp] lemma setCount_count : (h.setCount v).term.cmdCount = v := rfl

@[simp] lemma setTyping_buffer : (h.setTyping b).term.lineBuffer = h.term.lineBuffer := rfl
@[simp] lemma setTyping_index : (h.setTyping b).term.lineBufferIndex = h.term.lineBufferIndex := rfl
@[simp] lemma setTyping_typing : (h.setTyping b).term.typingLine = b := rfl
@[simp] lemma setTyping_count : (h.setTyping b).term.cmdCount = h.term.cmdCount := rfl

@[simp] lemma readHist_term : (h.readHist r cols).term = h.term := rfl

/-- What is drawn. -/
lemma draw_term : (h.draw f).term = f h.term := rfl

/-- Drawing leaves the line alone. -/
lemma draw_input (hf : h.term.SameInput (f h.term)) : h.term.SameInput (h.draw f).term := hf

end Handler

end Boss
