import Boss.Lib.Text
import Boss.Terminal.Writes
import Mathlib.Algebra.Ring.Int.Defs

/-!
# Written text on the screen

What a process writes to a cleared terminal is on its screen row by row, each row broken at `\n`, at `\r` and
after 80 characters (`Lib.Text.layout`); of more than 25 rows the last 25 are left. `term_putc` keeps no text: it has
a cursor and moves rows up when the cursor falls off the screen. `Terminal.Displays` is what holds between
two characters, and a character takes it from one text to the next (`ShowsText.termPutc`), so the text may
come in any number of writes. By `Monitor.Holds` the same is so on the pages of the machine, for a terminal that
is displayed and for one in the background (`written_text_shown`).
-/

namespace Boss
open Lib

/-! ### The characters of the screen -/

namespace Terminal
variable {T : Terminal} {screen : Mem} {c : UInt8} {start n i j x y : Nat} {text : List UInt8}
  {init rows : List (List UInt8)} {last : List UInt8}

/-- The character in row `y` and column `x`. -/
def charAt (T : Terminal) (y x : Nat) : UInt8 := T.screen (2 * (80 * y + x))

/-- The attribute of a cell is at an odd offset. -/
lemma cell_char : cell screen i c (2 * j) = if 2 * i % 0x100000000 = 2 * j then c else screen (2 * j) := by
  have hodd : 2 * j ≠ (2 * i + 1) % 0x100000000 := by omega
  rw [cell, Function.update_of_ne hodd, Function.update_apply]
  exact if_congr eq_comm rfl rfl

/-- The loop that moves the rows up reads each cell before it is overwritten. -/
lemma cells_up (hn : n ≤ 1920) : cells (fun m i => m (2 * (i + 80))) 0 n screen (2 * j) =
    if j < n then screen (2 * (j + 80)) else screen (2 * j) := by
  induction n generalizing j with
  | zero => rfl
  | succ n ih =>
    have hcell : 2 * (0 + n) % 0x100000000 = 2 * n := by omega
    rw [cells, cell_char, hcell, Nat.zero_add]
    by_cases hj : j = n
    · rw [if_pos (by omega), ih (by omega), if_neg (by omega), if_pos (by omega), hj]
    · rw [if_neg (by omega), ih (by omega)]
      exact if_congr (by omega) rfl rfl

/-- Blank cells, and what is around them. -/
lemma cells_blank (hn : start + n ≤ 2000) : cells (fun _ _ => 32) start n screen (2 * j) =
    if start ≤ j ∧ j < start + n then 32 else screen (2 * j) := by
  induction n with
  | zero => rw [if_neg (by omega), cells]
  | succ n ih =>
    have hcell : 2 * (start + n) % 0x100000000 = 2 * (start + n) := by omega
    rw [cells, cell_char, hcell, ih (by omega)]
    by_cases hj : j = start + n
    · rw [if_pos (by omega), if_pos (by omega)]
    · rw [if_neg (by omega)]
      exact if_congr (by omega) rfl rfl

/-- Scrolling moves the rows up and leaves the last one blank. -/
lemma termScroll_char (hj : j < 2000) :
    T.termScroll.screen (2 * j) = if j < 1920 then T.screen (2 * (j + 80)) else 32 := by
  have hblank : T.termScroll.screen (2 * j) = _ := @cells_blank _ (24 * 80) 80 _ (by omega)
  rw [hblank, cells_up (by omega)]
  by_cases hrow : j < 1920
  · rw [if_neg (by omega), if_pos hrow, if_pos hrow]
  · rw [if_pos (by omega), if_neg hrow]

/-- Scrolling, by rows and columns. -/
lemma termScroll_charAt (hy : y < 25) (hx : x < 80) :
    T.termScroll.charAt y x = if y + 1 < 25 then T.charAt (y + 1) x else 32 := by
  have hnext : 80 * y + x + 80 = 80 * (y + 1) + x := by omega
  rw [charAt, termScroll_char (by omega), hnext, charAt]
  exact if_congr (by omega) rfl rfl

/-- The character that is stored at the cursor. -/
lemma cell_charAt (hT : T.OnScreen) (hx : x < 80) :
    charAt { T with screen := cell T.screen ((80 * T.cY + T.cX) % 0x100000000) c } y x =
      if y = T.cY ∧ x = T.cX then c else T.charAt y x := by
  obtain ⟨hcx, hcy⟩ := hT
  have hcell : 2 * ((80 * T.cY + T.cX) % 0x100000000) % 0x100000000 = 2 * (80 * T.cY + T.cX) := by omega
  simp only [charAt, cell_char, hcell]
  exact if_congr (by omega) rfl rfl

/-! ### Rows -/

/-- A line break. -/
def breaks (c : UInt8) : Bool := decide (c = 10 ∨ c = 13)

/-- The rows of a text on a screen of 80 columns. -/
def layout (text : List UInt8) : List (List UInt8) := Text.layout 80 breaks text

/-- The screen shows the last 25 of the rows, and the cursor is in the last one. -/
structure Displays (T : Terminal) (rows : List (List UInt8)) : Prop where
  chars : ∀ y < 25, ∀ x < 80, T.charAt y x = Text.shown 25 32 rows y x
  row : T.cY + 1 = min rows.length 25

/-- The screen shows a text, and the cursor is behind it. -/
structure ShowsText (T : Terminal) (text : List UInt8) : Prop where
  displays : T.Displays (layout text)
  col : (layout text).getLast?.map List.length = some T.cX

/-- A new row below the others, or below a scrolled screen. -/
lemma Displays.newRow (h : T.Displays rows) : T.newRow.Displays (rows ++ [[]]) := by
  have hrow := h.row
  have hlen : (rows ++ [[]]).length = rows.length + 1 := by rw [List.length_append, List.length_singleton]
  unfold Terminal.newRow
  split
  · next hlast =>
    refine ⟨fun y hy x hx => ?_, ?_⟩
    · have hscroll : (T.termScroll.moveCsr 0 T.cY).charAt y x = _ := termScroll_charAt hy hx
      rw [hscroll, Text.shown_newRow_of_le (by omega) hy]
      split
      · next hy' => exact h.chars (y + 1) hy' x hx
      · rfl
    · simp only [hlen, moveCsr]
      omega
  · next hnext =>
    have hinc : inc32 T.cY = T.cY + 1 := inc32_of_lt (by omega)
    refine ⟨fun y hy x hx => ?_, ?_⟩
    · rw [Text.shown_newRow_of_lt (by omega)]
      exact h.chars y hy x hx
    · simp only [hlen, hinc, moveCsr]
      omega

/-- A character at the end of the last row. -/
lemma Displays.put (h : T.Displays (init ++ [last])) (hcol : T.cX = last.length) (hlast : last.length < 80) :
    Displays { T with screen := cell T.screen ((80 * T.cY + T.cX) % 0x100000000) c } (init ++ [last ++ [c]]) := by
  have hrow := h.row
  have hlen : (init ++ [last]).length = init.length + 1 := by rw [List.length_append, List.length_singleton]
  have hlen' : (init ++ [last ++ [c]]).length = init.length + 1 := by rw [List.length_append, List.length_singleton]
  rw [hlen] at hrow
  refine ⟨fun y hy x hx => ?_, ?_⟩
  · rw [cell_charAt ⟨by omega, by omega⟩ hx, Text.shown_put hy, h.chars y hy x hx]
    exact if_congr (by omega) rfl rfl
  · rw [hlen']
    exact hrow

/-- The cursor does not matter to what is displayed, but for its row. -/
lemma Displays.moveCol (h : T.Displays rows) (x : Nat) : Displays { T with cX := x } rows := ⟨h.chars, h.row⟩

/-- A new row begins at its left end. -/
lemma newRow_col : T.newRow.cX = 0 := by
  unfold Terminal.newRow
  split
  · rfl
  · rfl

/-- Scrolling does not look at the cursor. -/
lemma termScroll_moveCsr : termScroll { T with cX := x, cY := y } = T.termScroll.moveCsr x y := rfl

/-- A line break is what Enter does. -/
lemma termPutc_newRow (hy : T.cY < 0x100000000) (hc : c = 10 ∨ c = 13) : T.termPutc c = T.newRow := by
  rw [termPutc_eq, putcMoved, if_pos hc]
  unfold Terminal.newRow
  by_cases hlast : T.cY = 24
  · have hinc : inc32 24 = 25 := rfl
    have hdec : dec32 25 = 24 := rfl
    simp only [hlast, hinc, hdec, if_true]
    exact termScroll_moveCsr
  · have hinc : inc32 T.cY ≠ 25 := by
      unfold inc32
      omega
    simp only [if_neg hlast, if_neg hinc]
    rfl

/-- Any other character is stored, and begins a new row if it was the last one of its own. -/
lemma termPutc_put (hT : T.OnScreen) (hc : ¬ (c = 10 ∨ c = 13)) :
    T.termPutc c =
      let T' := { T with screen := cell T.screen ((80 * T.cY + T.cX) % 0x100000000) c }
      if T.cX + 1 = 80 then T'.newRow else { T' with cX := T.cX + 1 } := by
  obtain ⟨hx, hy⟩ := hT
  have hinc : inc32 T.cX = T.cX + 1 := inc32_of_lt (by omega)
  have hinc' : inc32 T.cY = T.cY + 1 := inc32_of_lt (by omega)
  rw [termPutc_eq, putcMoved, if_neg hc]
  simp only [hinc, Terminal.newRow, hinc', moveCsr]
  by_cases hcol : T.cX + 1 = 80
  · rw [if_pos hcol, hcol]
    by_cases hlast : T.cY = 24
    · rw [if_pos (by omega), if_pos hlast, hlast]
      rfl
    · have hrow : (T.cY + 80 / 80) % 0x100000000 = T.cY + 1 := by omega
      rw [if_neg (by omega), if_neg hlast, hrow]
  · have hrow : (T.cY + (T.cX + 1) / 80) % 0x100000000 = T.cY := by omega
    have hmod : (T.cX + 1) % 80 = T.cX + 1 := by omega
    rw [if_neg hcol, hrow, hmod, if_neg (by omega)]

/-- Without text, every cell shows a blank. -/
lemma layout_nil_shown : Text.shown 25 32 (layout []) y x = 32 := by
  rw [Text.shown_eq]
  cases y with
  | zero => rfl
  | succ y => rfl

/-- The rows of a text that goes on: only its last row may still change. -/
lemma layout_append (text : List UInt8) : ∃ init last, last.length < 80 ∧
    ∀ cs, layout (text ++ cs) = init ++ Text.rowsFrom 80 breaks last cs :=
  Text.rowsFrom_append text (Nat.zero_lt_succ 79)

/-- The cursor is behind the text. -/
lemma ShowsText.onScreen (h : T.ShowsText text) : T.OnScreen := by
  obtain ⟨init, last, hlast, hall⟩ := layout_append text
  have htext := hall []
  have hrow := h.displays.row
  have hcol := h.col
  rw [List.append_nil, Text.rowsFrom] at htext
  rw [htext, List.getLast?_concat, Option.map_some, Option.some.injEq] at hcol
  exact ⟨hcol ▸ hlast, by omega⟩

/-- The text goes on in a new row. -/
lemma Displays.newRow_showsText (h : T.Displays rows) (htext : layout text = rows ++ [[]]) :
    T.newRow.ShowsText text := by
  refine ⟨?_, ?_⟩
  · rw [htext]
    exact h.newRow
  · rw [htext, List.getLast?_concat, newRow_col]
    rfl

/-- A character is the next one of the text. -/
lemma ShowsText.termPutc (h : T.ShowsText text) (c : UInt8) : (T.termPutc c).ShowsText (text ++ [c]) := by
  have hT := h.onScreen
  obtain ⟨init, last, hlast, hall⟩ := layout_append text
  have htext := hall []
  have hnext := hall [c]
  have hshown := h.displays
  have hcol := h.col
  rw [List.append_nil, Text.rowsFrom] at htext
  rw [htext] at hshown hcol
  rw [List.getLast?_concat, Option.map_some, Option.some.injEq] at hcol
  rw [Text.rowsFrom] at hnext
  by_cases hc : c = 10 ∨ c = 13
  · have hbreak : breaks c = true := decide_eq_true hc
    rw [if_pos hbreak, Text.rowsFrom, List.append_cons init] at hnext
    rw [termPutc_newRow (by have := hT.2; omega) hc]
    exact hshown.newRow_showsText hnext
  have hbreak : ¬ breaks c = true := fun hb => hc (of_decide_eq_true hb)
  have hput := hshown.put (c := c) hcol.symm hlast
  rw [if_neg hbreak, hcol] at hnext
  rw [termPutc_put hT hc]
  by_cases hfull : T.cX + 1 = 80
  · rw [if_pos hfull, Text.rowsFrom, List.append_cons init] at hnext
    rw [if_pos hfull]
    exact hput.newRow_showsText hnext
  · rw [if_neg hfull, Text.rowsFrom] at hnext
    rw [if_neg hfull]
    refine ⟨?_, ?_⟩
    · rw [hnext]
      exact hput.moveCol _
    · rw [hnext, List.getLast?_concat, Option.map_some, List.length_append, List.length_singleton, hcol]

/-- Characters one after the other. -/
def putText (text : List UInt8) (T : Terminal) : Terminal := text.foldl (fun T c => T.termPutc c) T

/-- More text behind the text. -/
lemma ShowsText.putText {cs : List UInt8} (h : T.ShowsText text) : (T.putText cs).ShowsText (text ++ cs) := by
  induction cs generalizing T text with
  | nil =>
    rw [List.append_nil]
    exact h
  | cons c cs ih =>
    rw [List.append_cons]
    exact ih (h.termPutc c)

/-- The loop of `terminal_write` over bytes that are not zero. -/
lemma writeLoop_eq {buf : Mem} (hnul : 0 ∉ buf.bytes i n) : T.writeLoop buf n i = (T.putText (buf.bytes i n), i + n) := by
  induction n generalizing i T with
  | zero => rfl
  | succ n ih =>
    rw [Mem.bytes_succ] at hnul ⊢
    obtain ⟨hfirst, hrest⟩ := not_or.mp (mt List.mem_cons.mpr hnul)
    rw [writeLoop, if_neg (Ne.symm hfirst), ih hrest, Nat.add_assoc, Nat.add_comm 1]
    rfl

end Terminal

/-! ### On the pages of the machine -/

namespace Monitor
variable {m : Monitor} {s : Tty} {t : TermId} {text : List UInt8} {calls : List (Mem × Nat)}

/-- The bytes of the calls of `terminal_write`, each with a buffer and a number of bytes. -/
def written (calls : List (Mem × Nat)) : List UInt8 := calls.flatMap fun call => call.1.bytes 0 call.2

/-- Calls of `terminal_write` by processes of terminal `t`, with the values returned. -/
def writeCalls (t : TermId) : List (Mem × Nat) → Monitor → Monitor × List Int
  | [], m => (m, [])
  | (buf, nbytes) :: calls, m =>
    let (m, ret) := m.terminalWrite t (some buf) nbytes
    let (m, rets) := writeCalls t calls m
    (m, ret :: rets)

/-- The screen of terminal `t` is the grid of the text, and its cursor is at the end of the last row. -/
structure ShowsText (m : Monitor) (t : TermId) (text : List UInt8) : Prop where
  chars : ∀ y < 25, ∀ x < 80,
    m.video.screen t (2 * (80 * y + x)) = some (Text.shown 25 32 (Terminal.layout text) y x)
  row : (m.terminals t).cY + 1 = min (Terminal.layout text).length 25
  col : (Terminal.layout text).getLast?.map List.length = some (m.terminals t).cX

/-- The screen of terminal `t` is blank and its cursor in the first cell. -/
structure Cleared (m : Monitor) (t : TermId) : Prop where
  chars : ∀ i < 2000, m.video.screen t (2 * i) = some 32
  cursor : (m.terminals t).cX = 0 ∧ (m.terminals t).cY = 0

/-- The driver with the screens that are on the pages, and no modifier key pressed. -/
def tty (m : Monitor) : Tty :=
  { Tty.keyboardInstall fun _ => .blank with
    curTerminal := m.video.curTerminal
    terminals := fun t =>
      let T := m.terminals t
      ⟨T.cmdHist, T.lineBuffer, T.lineBufferIndex, T.typingLine, T.cX, T.cY, T.cmdCount,
        fun off => m.video.phys (m.video.home t + off)⟩ }

/-- Private screens that hold what is displayed. -/
lemma holds_tty (hm : m.video.Mapped) : m.Holds m.tty := ⟨⟨hm, rfl, fun _ _ _ => rfl⟩, fun _ => rfl⟩

/-- What is shown, through the page tables. -/
lemma Holds.screen {off : Nat} (h : m.Holds s) (hoff : off < 4096) :
    m.video.screen t off = some ((s.terminals t).screen off) := by
  rw [h.video.mapped.screen hoff, h.video.page t off hoff]
  rfl

/-- What the driver shows is on the pages. -/
lemma Holds.showsText (h : m.Holds s) : m.ShowsText t text ↔ (s.terminals t).ShowsText text := by
  have hx : (m.terminals t).cX = (s.terminals t).cX := congrArg TermVars.cX (h.vars t)
  have hy : (m.terminals t).cY = (s.terminals t).cY := congrArg TermVars.cY (h.vars t)
  have hchar : ∀ y < 25, ∀ x < 80, ∀ c,
      m.video.screen t (2 * (80 * y + x)) = some c ↔ (s.terminals t).charAt y x = c := by
    intro y hy x hx c
    rw [h.screen (by omega), Option.some.injEq, Terminal.charAt]
  constructor
  · rintro ⟨hchars, hrow, hcol⟩
    exact ⟨⟨fun y hy x hx => (hchar y hy x hx _).mp (hchars y hy x hx), hy ▸ hrow⟩, hx ▸ hcol⟩
  · rintro ⟨⟨hchars, hrow⟩, hcol⟩
    exact ⟨fun y hy x hx => (hchar y hy x hx _).mpr (hchars y hy x hx), hy ▸ hrow, hx ▸ hcol⟩

/-- A cleared terminal shows the empty text. -/
lemma Cleared.showsText (h : m.Cleared t) : m.ShowsText t [] where
  chars y hy x hx := by
    rw [h.chars _ (by omega), Terminal.layout_nil_shown]
  row := by
    rw [h.cursor.2]
    rfl
  col := by
    rw [h.cursor.1]
    rfl

end Monitor

/-- One call, of bytes that are not zero. -/
lemma Tty.terminalWrite_eq {s : Tty} {t : TermId} {buf : Mem} {n : Nat} (hnul : 0 ∉ buf.bytes 0 n) :
    s.terminalWrite t (some buf) n = (s.setTerminal t ((s.terminals t).putText (buf.bytes 0 n)), (n : Int)) := by
  simp only [Tty.terminalWrite, Terminal.writeLoop_eq hnul, Nat.zero_add]
  split
  · rfl
  · rfl

/-- Calls of `terminal_write` one after another show their texts one after another. -/
lemma Monitor.Holds.writeCalls {m : Monitor} {s : Tty} {t : TermId} {text : List UInt8} {calls : List (Mem × Nat)}
    (h : m.Holds s) (hs : (s.terminals t).ShowsText text) (hnul : 0 ∉ written calls) :
    (m.writeCalls t calls).1.ShowsText t (text ++ written calls) ∧
      (m.writeCalls t calls).2.sum = (written calls).length := by
  induction calls generalizing m s text with
  | nil =>
    rw [written, List.flatMap_nil, List.append_nil]
    exact ⟨h.showsText.mpr hs, rfl⟩
  | cons call calls ih =>
    obtain ⟨buf, n⟩ := call
    rw [written, List.flatMap_cons] at hnul ⊢
    obtain ⟨hbuf, hrest⟩ := not_or.mp (mt List.mem_append.mpr hnul)
    obtain ⟨hholds, hret⟩ := @Holds.terminalWrite _ _ _ (some buf) n h hs.onScreen
    rw [Tty.terminalWrite_eq hbuf] at hholds hret
    have hshows : ((s.setTerminal t ((s.terminals t).putText (buf.bytes 0 n))).terminals t).ShowsText
        (text ++ buf.bytes 0 n) := by
      rw [Tty.setTerminal_terminals, Function.update_self]
      exact hs.putText
    obtain ⟨hall, hsum⟩ := ih hholds hshows hrest
    simp only [Monitor.writeCalls, List.sum_cons, hsum, hret, List.length_append, Mem.length_bytes]
    rw [← List.append_assoc]
    exact ⟨hall, by push_cast; rfl⟩

/-- Text without zero bytes, written to a cleared terminal in any number of calls, is on its screen row by row, and
the calls return its length. -/
theorem written_text_shown (m : Monitor) (hm : m.video.Mapped) (t : TermId) (hclear : m.Cleared t)
    (calls : List (Mem × Nat)) (hnul : 0 ∉ Monitor.written calls) :
    (m.writeCalls t calls).1.ShowsText t (Monitor.written calls) ∧
      (m.writeCalls t calls).2.sum = (Monitor.written calls).length := by
  have hholds := Monitor.holds_tty hm
  exact hholds.writeCalls (hholds.showsText.mp hclear.showsText) hnul

/-- Terminals with blank screens, the first of them displayed. -/
def clearMonitor : Monitor := ⟨.initKernelPd fun _ => 32, blankMonitor.terminals⟩

/-- All terminals of this machine are clear. -/
lemma clearMonitor_cleared (t : TermId) : clearMonitor.Cleared t where
  chars i hi := (Video.initKernelPd_mapped _).screen (by omega)
  cursor := ⟨rfl, rfl⟩

/-- `"h"` and `"i\n"`. -/
def hiCalls : List (Mem × Nat) := [(fun _ => 104, 1), (fun i => if i = 0 then 105 else 10, 2)]

/-- Two writes from the background. -/
theorem written_text_shown_hi : Monitor.written hiCalls = [104, 105, 10] ∧
    (clearMonitor.writeCalls 1 hiCalls).1.ShowsText 1 (Monitor.written hiCalls) ∧
      (clearMonitor.writeCalls 1 hiCalls).2.sum = 3 :=
  ⟨rfl, written_text_shown clearMonitor (Video.initKernelPd_mapped _) 1 (clearMonitor_cleared 1) hiCalls (by decide)⟩

end Boss
