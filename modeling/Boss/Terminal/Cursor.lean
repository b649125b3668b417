import Boss.Terminal.Bounds

/-!
# The cursor and the screen

Where the cursor of a terminal can be, and where characters are stored. The screen functions of `lib.c` compute
an offset into the 4KB page of the terminal from its cursor, and test nothing: the cursor has to be on the screen,
and behind its first cell when a character is deleted. `Draws` gives the stores of a piece of the driver with
their offsets and bytes; that the screen afterwards is the replay of the stores says that there are no others.

Backspace deletes where the line is not empty. It never deletes the first cell of the screen since the cursor
is always at least as far from it as the line is long (`Placed.behind`): a character typed moves the cursor
on by one cell, or to the last row, which is further down than the longest line. Output and Enter move it
on as well, and what takes it back takes the line back.
-/

namespace Boss
open Lib

namespace Terminal
variable {T T' T1 T2 : Terminal} {screen : Mem} {c : UInt8} {start n i : Nat} {f : Mem → Nat → UInt8}
  {stores stores1 stores2 : List (Nat × UInt8)}

/-! ### Stores -/

/-- The two stores of `cell`, offset and byte. -/
def cellStores (i : Nat) (c : UInt8) : List (Nat × UInt8) :=
  [(2 * i % 0x100000000, c), ((2 * i + 1) % 0x100000000, attrib)]

/-- The stores of `cells`. -/
def cellsStores (f : Mem → Nat → UInt8) (start : Nat) : Nat → Mem → List (Nat × UInt8)
  | 0, _ => []
  | n + 1, screen =>
    cellsStores f start n screen ++ cellStores (start + n) (f (cells f start n screen) (start + n))

/-- The stores of `term_scroll`. -/
def termScrollStores (T : Terminal) : List (Nat × UInt8) :=
  let rows := fun (m : Mem) i => m (2 * (i + 80))
  cellsStores rows 0 (24 * 80) T.screen ++
    cellsStores (fun _ _ => 32) (24 * 80) 80 (cells rows 0 (24 * 80) T.screen)

/-- The stores of `term_clear`. -/
def termClearStores (T : Terminal) : List (Nat × UInt8) := cellsStores (fun _ _ => 32) 0 (25 * 80) T.screen

/-- The stores of `term_delete_char`. -/
def termDeleteCharStores (T : Terminal) : List (Nat × UInt8) :=
  cellStores ((80 * T.cY + T.cX + 0xFFFFFFFF) % 0x100000000) 32

/-- `term_putc` before its last test. -/
def putcMoved (c : UInt8) (T : Terminal) : Terminal :=
  if c = 10 ∨ c = 13 then { T with cY := inc32 T.cY, cX := 0 }
  else
    let x := inc32 T.cX
    { T with
      screen := cell T.screen ((80 * T.cY + T.cX) % 0x100000000) c
      cY := (T.cY + x / 80) % 0x100000000
      cX := x % 80 }

/-- `term_putc`, with the scrolling apart. -/
lemma termPutc_eq : T.termPutc c =
    if (T.putcMoved c).cY = 25 then termScroll { T.putcMoved c with cY := dec32 (T.putcMoved c).cY }
    else T.putcMoved c := rfl

/-- The stores of `term_putc`. -/
def termPutcStores (c : UInt8) (T : Terminal) : List (Nat × UInt8) :=
  (if c = 10 ∨ c = 13 then [] else cellStores ((80 * T.cY + T.cX) % 0x100000000) c) ++
    if (T.putcMoved c).cY = 25 then (T.putcMoved c).termScrollStores else []

/-- The stores of Enter. -/
def newRowStores (T : Terminal) : List (Nat × UInt8) := if T.cY = 24 then T.termScrollStores else []

/-- The stores of the scroll behind the last cell. -/
def scrollCornerStores (T : Terminal) : List (Nat × UInt8) :=
  if T.cX = 79 ∧ T.cY = 24 then T.termScrollStores else []

/-- From `T` to `T'` the screen is changed by the stores, and by them only, and all are in the part of the page
that has a cell. -/
structure Draws (T T' : Terminal) (stores : List (Nat × UInt8)) : Prop where
  screen : T'.screen = Mem.replay stores T.screen
  page : ∀ s ∈ stores, s.1 < 4000

namespace Draws

/-- Nothing is stored. -/
lemma none (h : T'.screen = T.screen) : Draws T T' [] := ⟨h, fun _ hs => nomatch hs⟩

/-- First the stores of one part, then those of the other. -/
lemma trans (a : Draws T T1 stores1) (b : Draws T1 T2 stores2) : Draws T T2 (stores1 ++ stores2) where
  screen := by rw [b.screen, a.screen, Mem.replay_append]
  page := by
    intro s hs
    rcases List.mem_append.mp hs with hs | hs
    · exact a.page s hs
    · exact b.page s hs

/-- Only the screens count. -/
lemma congr (a : Draws T1 T2 stores) (h : T.screen = T1.screen) (h' : T'.screen = T2.screen) :
    Draws T T' stores := ⟨by rw [h, h', a.screen], a.page⟩

end Draws

/-- A cell is drawn by two stores. -/
lemma cell_replay : cell screen i c = Mem.replay (cellStores i c) screen := rfl

/-- The stores of a cell are on the screen. -/
lemma cellStores_page (h : i < 2000) : ∀ s ∈ cellStores i c, s.1 < 4000 := by
  intro s hs
  simp only [cellStores, List.mem_cons, List.not_mem_nil, or_false] at hs
  rcases hs with rfl | rfl
  · simp only
    omega
  · simp only
    omega

/-- The stores of a row of cells are on the screen. -/
lemma cellsStores_page (h : start + n ≤ 2000) : ∀ s ∈ cellsStores f start n screen, s.1 < 4000 := by
  induction n with
  | zero => exact fun _ hs => nomatch hs
  | succ n ih =>
    intro s hs
    rcases List.mem_append.mp hs with hs | hs
    · exact ih (by omega) s hs
    · exact cellStores_page (by omega) s hs

/-- Cells are drawn by their stores. -/
lemma cells_replay : cells f start n screen = Mem.replay (cellsStores f start n screen) screen := by
  induction n with
  | zero => rfl
  | succ n ih =>
    rw [cellsStores, Mem.replay_append, ← ih]
    rfl

/-- Scrolling does not look at the cursor. -/
lemma termScroll_screen {y : Nat} : (termScroll { T with cY := y }).screen = T.termScroll.screen := rfl

/-- The stores of `term_scroll`. -/
lemma termScroll_draws : Draws T T.termScroll T.termScrollStores where
  screen := by
    rw [termScrollStores, Mem.replay_append, ← cells_replay, ← cells_replay]
    rfl
  page := by
    intro s hs
    rcases List.mem_append.mp hs with hs | hs
    · exact cellsStores_page (by omega) s hs
    · exact cellsStores_page (by omega) s hs

/-- The stores of `term_clear`. -/
lemma termClear_draws : Draws T T.termClear T.termClearStores where
  screen := cells_replay
  page := cellsStores_page (by omega)

/-! ### The cursor -/

/-- The cursor is on the screen. -/
def OnScreen (T : Terminal) : Prop := T.cX < 80 ∧ T.cY < 25

/-- The number of cells before the cursor. -/
def pos (T : Terminal) : Nat := 80 * T.cY + T.cX

/-- A character moves the cursor on, if only below the screen. -/
lemma putcMoved_cursor (hT : T.OnScreen) :
    (T.putcMoved c).cX < 80 ∧ (T.putcMoved c).cY ≤ 25 ∧ T.pos + 1 ≤ (T.putcMoved c).pos := by
  obtain ⟨hx, hy⟩ := hT
  have hxinc : inc32 T.cX = T.cX + 1 := inc32_of_lt (by omega)
  have hyinc : inc32 T.cY = T.cY + 1 := inc32_of_lt (by omega)
  by_cases hc : c = 10 ∨ c = 13
  · simp only [putcMoved, pos, if_pos hc, hyinc]
    omega
  · simp only [putcMoved, pos, if_neg hc, hxinc]
    omega

/-- The stores of `term_putc` before the scrolling. -/
lemma putcMoved_draws (hT : T.OnScreen) : Draws T (T.putcMoved c)
    (if c = 10 ∨ c = 13 then [] else cellStores ((80 * T.cY + T.cX) % 0x100000000) c) := by
  obtain ⟨hx, hy⟩ := hT
  by_cases hc : c = 10 ∨ c = 13
  · rw [putcMoved, if_pos hc, if_pos hc]
    exact .none rfl
  · rw [putcMoved, if_neg hc, if_neg hc]
    have hcell := Nat.mod_le (80 * T.cY + T.cX) 0x100000000
    exact ⟨cell_replay, cellStores_page (by omega)⟩

/-- After a character the cursor is on the screen, further on or in the last row. -/
lemma termPutc_cursor (hT : T.OnScreen) :
    (T.termPutc c).OnScreen ∧ (T.pos + 1 ≤ (T.termPutc c).pos ∨ 1920 ≤ (T.termPutc c).pos) := by
  obtain ⟨hx, hy, hpos⟩ := @putcMoved_cursor T c hT
  rw [termPutc_eq]
  split
  · next hbelow =>
    -- the cursor goes back into the last row of the scrolled screen
    have hrow : dec32 (T.putcMoved c).cY = 24 := by
      rw [hbelow]
      rfl
    rw [hrow]
    exact ⟨⟨hx, (by decide : 24 < 25)⟩, Or.inr (Nat.le_add_right _ _)⟩
  · next hrow => exact ⟨⟨hx, by omega⟩, Or.inl hpos⟩

/-- The stores of `term_putc`. -/
lemma termPutc_draws (hT : T.OnScreen) : Draws T (T.termPutc c) (T.termPutcStores c) := by
  refine (putcMoved_draws hT).trans ?_
  rw [termPutc_eq]
  split
  · exact termScroll_draws.congr rfl termScroll_screen
  · exact .none rfl

/-- A new row is below the old one, or the last one. -/
lemma newRow_cursor (hT : T.OnScreen) : T.newRow.OnScreen ∧ (T.pos ≤ T.newRow.pos ∨ 1920 ≤ T.newRow.pos) := by
  obtain ⟨hx, hy⟩ := hT
  unfold newRow
  split
  · next hlast =>
    refine ⟨⟨Nat.zero_lt_succ _, hy⟩, Or.inr ?_⟩
    simp only [pos, moveCsr, hlast]
    omega
  · next hrow =>
    have hyinc : inc32 T.cY = T.cY + 1 := inc32_of_lt (by omega)
    rw [hyinc]
    refine ⟨⟨Nat.zero_lt_succ _, ?_⟩, Or.inl ?_⟩
    · simp only [moveCsr]
      omega
    · simp only [pos, moveCsr]
      omega

/-- The stores of a new row. -/
lemma newRow_draws : Draws T T.newRow T.newRowStores := by
  unfold newRow newRowStores
  split
  · exact termScroll_draws.congr rfl rfl
  · exact .none rfl

/-- The extra scrolling leaves the cursor. -/
lemma scrollCorner_cursor : T.scrollCorner.cX = T.cX ∧ T.scrollCorner.cY = T.cY := by
  unfold scrollCorner
  split
  · exact ⟨rfl, rfl⟩
  · exact ⟨rfl, rfl⟩

/-- The stores of the extra scrolling. -/
lemma scrollCorner_draws : Draws T T.scrollCorner T.scrollCornerStores := by
  unfold scrollCorner scrollCornerStores
  split
  · exact termScroll_draws
  · exact .none rfl

/-- A character deleted behind the first cell moves the cursor back by one. -/
lemma termDeleteChar_cursor (hT : T.OnScreen) (hpos : 0 < T.pos) :
    T.termDeleteChar.OnScreen ∧ T.termDeleteChar.pos + 1 = T.pos := by
  obtain ⟨hx, hy⟩ := hT
  unfold pos at hpos
  cases hcol : T.cX with
  | zero =>
    have hdec : dec32 0 = 0xFFFFFFFF := rfl
    obtain ⟨y, hrow⟩ : ∃ y, T.cY = y + 1 := ⟨T.cY - 1, by omega⟩
    have hyd : dec32 (y + 1) = y := dec32_succ (by omega)
    simp only [OnScreen, pos, termDeleteChar, hcol, hdec, hrow, hyd, if_true]
    omega
  | succ x =>
    have hdec : dec32 (x + 1) = x := dec32_succ (by omega)
    have hne : ¬ x = 0xFFFFFFFF := by omega
    simp only [OnScreen, pos, termDeleteChar, hcol, hdec, if_neg hne]
    omega

/-- The screen behind `term_delete_char`. -/
lemma termDeleteChar_screen : T.termDeleteChar.screen = Mem.replay T.termDeleteCharStores T.screen := by
  rw [termDeleteCharStores, ← cell_replay, termDeleteChar]
  split
  · rfl
  · rfl

/-- The stores of `term_delete_char`. -/
lemma termDeleteChar_draws (hT : T.OnScreen) (hpos : 0 < T.pos) :
    Draws T T.termDeleteChar T.termDeleteCharStores := by
  obtain ⟨hx, hy⟩ := hT
  have hcell : (80 * T.cY + T.cX + 0xFFFFFFFF) % 0x100000000 = 80 * T.cY + T.cX - 1 := by
    unfold pos at hpos
    omega
  refine ⟨termDeleteChar_screen, ?_⟩
  rw [termDeleteCharStores, hcell]
  exact cellStores_page (by omega)

/-- The cursor is on the screen and has at least as many cells before it as the line has characters. -/
structure Placed (T : Terminal) : Prop where
  cursor : T.OnScreen
  line : T.lineBufferIndex ≤ maxBufIndex
  behind : T.lineBufferIndex ≤ T.pos

/-- The last row is far enough down for any line. -/
lemma Placed.of_moved (h : T'.OnScreen) (hline : T'.lineBufferIndex ≤ maxBufIndex)
    (hpos : T'.lineBufferIndex ≤ T'.pos ∨ 1920 ≤ T'.pos) : T'.Placed := by
  refine ⟨h, hline, ?_⟩
  -- 1920 cells before the last row, 127 characters in the longest line
  unfold maxBufIndex at hline
  omega

/-- `term_putc` keeps the cursor behind the line. -/
lemma Placed.termPutc (hT : T.Placed) : (T.termPutc c).Placed := by
  obtain ⟨hcursor, hpos⟩ := @termPutc_cursor T c hT.cursor
  have hindex : (T.termPutc c).lineBufferIndex = T.lineBufferIndex := termPutc_input.index
  have hbehind := hT.behind
  exact .of_moved hcursor (hindex.trans_le hT.line) (by omega)

/-- A new row keeps the cursor behind the line. -/
lemma Placed.newRow (hT : T.Placed) : T.newRow.Placed := by
  obtain ⟨hcursor, hpos⟩ := newRow_cursor hT.cursor
  have hindex : T.newRow.lineBufferIndex = T.lineBufferIndex := newRow_input.index
  have hbehind := hT.behind
  exact .of_moved hcursor (hindex.trans_le hT.line) (by omega)

/-! ### Writing -/

/-- The loop of `terminal_write` on its terminal, with the number of bytes written. -/
def writeLoop (buf : Mem) : (fuel i : Nat) → Terminal → Terminal × Nat
  | 0, i, T => (T, i)
  | fuel + 1, i, T => if buf i = 0 then (T, i) else writeLoop buf fuel (i + 1) (T.termPutc (buf i))

/-- The stores of `terminal_write`. -/
def writeStores (buf : Mem) : (fuel i : Nat) → Terminal → List (Nat × UInt8)
  | 0, _, _ => []
  | fuel + 1, i, T =>
    if buf i = 0 then [] else T.termPutcStores (buf i) ++ writeStores buf fuel (i + 1) (T.termPutc (buf i))

/-- `terminal_write` keeps the cursor behind the line and stores on the screen. -/
lemma writeLoop_placed {buf : Mem} {fuel : Nat} (hT : T.Placed) : (T.writeLoop buf fuel i).1.Placed ∧
    Draws T (T.writeLoop buf fuel i).1 (T.writeStores buf fuel i) := by
  induction fuel generalizing i T with
  | zero => exact ⟨hT, .none rfl⟩
  | succ fuel ih =>
    simp only [writeLoop, writeStores]
    split
    · exact ⟨hT, .none rfl⟩
    · obtain ⟨hplaced, hdraws⟩ := @ih (T.termPutc (buf i)) (i + 1) hT.termPutc
      exact ⟨hplaced, (termPutc_draws hT.cursor).trans hdraws⟩

end Terminal

/-! ### Keys -/

/-- What a key event other than a press of UP or DOWN does on the displayed terminal: nothing (a modifier, a release,
a switch), or one of the branches of the handler. -/
inductive KeyBranch
  | quiet
  | enter
  | backspace
  | reset
  | char (c : UInt8)

namespace KeyBranch
variable {h : Handler}

/-- The code of the branch. -/
def handler : KeyBranch → Handler → Handler
  | quiet, h => h
  | enter, h => h.keyEnter
  | backspace, h => h.keyBackspace
  | reset, h => h.keyReset
  | char c, h => h.keyChar c

/-- The stores to the screen. -/
def stores : KeyBranch → Handler → List (Nat × UInt8)
  | quiet, _ => []
  | enter, h => h.term.newRowStores
  | backspace, h => if h.term.lineBufferIndex > 0 then h.term.termDeleteCharStores else []
  | reset, h => h.term.termClearStores
  | char c, h =>
    if h.term.lineBufferIndex < maxBufIndex then
      let h := h.putLine h.term.lineBufferIndex c
      h.term.termPutcStores c ++ (h.draw (.termPutc c)).term.scrollCornerStores
    else []

/-- The cursor where Backspace deletes a character. -/
def deleted : KeyBranch → Handler → List (Nat × Nat)
  | backspace, h => if h.term.lineBufferIndex > 0 then [(h.term.cX, h.term.cY)] else []
  | _, _ => []

end KeyBranch

namespace Handler
variable {h : Handler} {fuel : Nat} {c : UInt8}
open Terminal

/-- What a branch does: the terminal is placed afterwards, and the stores are in the page. -/
structure Keeps (h h' : Handler) (stores : List (Nat × UInt8)) : Prop where
  placed : h'.term.Placed
  draws : Draws h.term h'.term stores

/-- The stores of ENTER. -/
lemma keyEnter_keeps (hT : h.term.Placed) : Keeps h (keyEnter h) h.term.newRowStores := by
  have hplaced : (((h.setCount 0).putLine h.term.lineBufferIndex 10).setTyping false).term.Placed :=
    ⟨hT.cursor, hT.line, hT.behind⟩
  have hscreen : (((h.setCount 0).putLine h.term.lineBufferIndex 10).setTyping false).term.newRowStores =
      h.term.newRowStores := rfl
  refine ⟨hplaced.newRow, ?_⟩
  rw [← hscreen]
  exact newRow_draws.congr rfl rfl

/-- The index of the line is stored behind a change of the screen. -/
lemma setIndex_keeps {h' : Handler} {v : Nat} {stores : List (Nat × UInt8)} (hcursor : h'.term.OnScreen)
    (hdraws : Draws h.term h'.term stores) (hline : v ≤ maxBufIndex) (hpos : v ≤ h'.term.pos ∨ 1920 ≤ h'.term.pos) :
    Keeps h (h'.setIndex v) stores :=
  ⟨.of_moved hcursor hline hpos, hdraws.screen, hdraws.page⟩

/-- The stores of BACKSPACE. -/
lemma keyBackspace_keeps (hT : h.term.Placed) : Keeps h (keyBackspace h)
    (if h.term.lineBufferIndex > 0 then h.term.termDeleteCharStores else []) := by
  have hbehind := hT.behind
  have hline := hT.line
  unfold keyBackspace
  split
  · next hsome =>
    -- the last character of the line has a cell before the cursor
    have hpos : 0 < h.term.pos := by omega
    obtain ⟨hcursor, hback⟩ := termDeleteChar_cursor hT.cursor hpos
    obtain ⟨n, hn⟩ : ∃ n, h.term.lineBufferIndex = n + 1 := ⟨h.term.lineBufferIndex - 1, by omega⟩
    have hindex : (h.draw .termDeleteChar).term.lineBufferIndex = n + 1 :=
      (draw_input termDeleteChar_input).index.trans hn
    have hdec : dec32 (n + 1) = n := dec32_succ (by unfold maxBufIndex at hline; omega)
    rw [decIndex, hindex, hdec]
    refine setIndex_keeps ?_ ?_ (by omega) (Or.inl ?_)
    · rw [draw_term]
      exact hcursor
    · rw [draw_term]
      exact termDeleteChar_draws hT.cursor hpos
    · rw [draw_term]
      omega
  · exact ⟨hT, .none rfl⟩

/-- Clearing the line does not draw. -/
lemma clearLine_frame : (clearLine fuel h).term.cX = h.term.cX ∧ (clearLine fuel h).term.cY = h.term.cY ∧
    (clearLine fuel h).term.screen = h.term.screen := by
  induction fuel generalizing h with
  | zero => exact ⟨rfl, rfl, rfl⟩
  | succ fuel ih =>
    unfold clearLine
    split
    · exact ih
    · exact ⟨rfl, rfl, rfl⟩

/-- The stores of CTRL-L. -/
lemma keyReset_keeps : Keeps h (keyReset h) h.term.termClearStores := by
  obtain ⟨hx, hy, hscreen⟩ := @clearLine_frame (h.draw .termClear) (h.draw .termClear).term.lineBufferIndex
  refine setIndex_keeps ⟨?_, ?_⟩ (termClear_draws.congr rfl hscreen) (Nat.zero_le _) (Or.inl (Nat.zero_le _))
  · rw [hx]
    exact Nat.zero_lt_succ _
  · rw [hy]
    exact Nat.zero_lt_succ _

/-- The stores of a character. -/
lemma keyChar_keeps (hT : h.term.Placed) : Keeps h (keyChar c h) ((KeyBranch.char c).stores h) := by
  simp only [keyChar, KeyBranch.stores]
  split
  · next hroom =>
    have hline : (h.putLine h.term.lineBufferIndex c).term.Placed := ⟨hT.cursor, hT.line, hT.behind⟩
    have hscreen : h.term.screen = (h.putLine h.term.lineBufferIndex c).term.screen := rfl
    have hindex : h.term.lineBufferIndex = (h.putLine h.term.lineBufferIndex c).term.lineBufferIndex := rfl
    have hbehind := hline.behind
    rw [hindex] at hroom
    generalize h.putLine h.term.lineBufferIndex c = h1 at *
    -- the line is one character longer, and the cursor one cell further on or in the last row
    obtain ⟨hcursor, hpos⟩ := @termPutc_cursor h1.term c hline.cursor
    obtain ⟨hx, hy⟩ := @scrollCorner_cursor (h1.term.termPutc c)
    have hcorner : (h1.term.termPutc c).scrollCorner.pos = (h1.term.termPutc c).pos := by rw [pos, hx, hy, pos]
    have hidx : ((h1.draw (.termPutc c)).draw .scrollCorner).term.lineBufferIndex = h1.term.lineBufferIndex :=
      (draw_input scrollCorner_input).index.trans (draw_input termPutc_input).index
    have hinc : inc32 h1.term.lineBufferIndex = h1.term.lineBufferIndex + 1 :=
      inc32_of_lt (by unfold maxBufIndex at hroom; omega)
    rw [incIndex, hidx, hinc]
    refine setIndex_keeps ?_ ?_ hroom ?_
    · rw [draw_term, draw_term, OnScreen, hx, hy]
      exact hcursor
    · rw [draw_term, draw_term]
      exact ((termPutc_draws hline.cursor).trans scrollCorner_draws).congr hscreen rfl
    · rw [draw_term, draw_term, hcorner]
      omega
  · exact ⟨hT, .none rfl⟩

end Handler

namespace KeyBranch
variable {h : Handler} {b : KeyBranch}

/-- The stores of a branch of the handler. -/
lemma keeps (hT : h.term.Placed) : Handler.Keeps h (b.handler h) (b.stores h) := by
  cases b with
  | quiet => exact ⟨hT, .none rfl⟩
  | enter => exact Handler.keyEnter_keeps hT
  | backspace => exact Handler.keyBackspace_keeps hT
  | reset => exact Handler.keyReset_keeps
  | char c => exact Handler.keyChar_keeps hT

/-- Backspace has a cell before it. -/
lemma deleted_ne (hT : h.term.Placed) : ∀ p ∈ b.deleted h, p ≠ (0, 0) := by
  cases b with
  | backspace =>
    have hbehind := hT.behind
    intro p hp
    simp only [deleted] at hp
    split at hp
    · cases List.mem_singleton.mp hp
      intro h00
      obtain ⟨hx, hy⟩ := Prod.mk.inj h00
      rw [Terminal.pos, hx, hy] at hbehind
      omega
    · cases hp
  | quiet => exact fun _ hp => nomatch hp
  | enter => exact fun _ hp => nomatch hp
  | reset => exact fun _ hp => nomatch hp
  | char c => exact fun _ hp => nomatch hp

end KeyBranch

namespace Tty
variable {s : Tty} {below : TermId → Mem} {data scancode : UInt8}

/-- The branch of a key press. -/
def pressBranch (s : Tty) (scancode : UInt8) : KeyBranch :=
  if scancode = 0x2a then .quiet
  else if scancode = 0x36 then .quiet
  else if scancode = 0x38 then .quiet
  else if scancode = 0x1D then .quiet
  else if scancode = 0x3a then .quiet
  else if scancode = 0x45 then .quiet
  else if scancode = 0x46 then .quiet
  else if scancode = 0x1C then .enter
  else if scancode = 0x0E then .backspace
  else if s.ctrl ∧ keyboardChars.getD scancode.toNat 0 = 108 then .reset
  else if s.alt ∧ scancode = 0x3B then .quiet
  else if s.alt ∧ scancode = 0x3C then .quiet
  else if s.alt ∧ scancode = 0x3D then .quiet
  else .char (s.keyboardCharacter scancode)

/-- The branch of a byte from the keyboard. -/
def branch (s : Tty) (data : UInt8) : KeyBranch :=
  if data &&& 0x80 = 0 then s.pressBranch (data &&& 0x7F) else .quiet

/-- A result of the handler is that of a branch on the displayed terminal. -/
def Takes (s : Tty) (r : Tty × List Event) (b : KeyBranch) : Prop :=
  r.1.terminals = Function.update s.terminals s.curTerminal (b.handler ⟨s.terminals s.curTerminal, []⟩).term

/-- Both ways of a test. -/
lemma Takes.ite {c : Prop} [Decidable c] {r r' : Tty × List Event} {b b' : KeyBranch} (h : s.Takes r b)
    (h' : ¬ c → s.Takes r' b') : s.Takes (if c then r else r') (if c then b else b') := by
  split
  · exact h
  · next hc => exact h' hc

/-- A branch that leaves the terminals alone. -/
lemma Takes.quiet {r : Tty × List Event} (h : r.1.terminals = s.terminals) : s.Takes r .quiet :=
  h.trans (Function.update_eq_self _ _).symm

/-- The branch that a pressed key takes. -/
lemma keyPressed_branch (hup : scancode ≠ 0x48) (hdown : scancode ≠ 0x50) :
    s.Takes (s.keyPressed below scancode) (s.pressBranch scancode) := by
  unfold keyPressed pressBranch
  -- the modifier and lock keys, then Enter and Backspace
  refine .ite (.quiet rfl) fun _ => .ite (.quiet rfl) fun _ => .ite (.quiet rfl) fun _ => .ite (.quiet rfl) fun _ =>
    .ite (.quiet rfl) fun _ => .ite (.quiet rfl) fun _ => .ite (.quiet rfl) fun _ => ?_
  refine .ite rfl fun _ => .ite rfl fun _ => ?_
  rw [if_neg hup, if_neg hdown]
  -- control-L, and the switches, which leave all terminals as they are
  refine .ite rfl fun _ => .ite (.quiet rfl) fun _ => .ite (.quiet rfl) fun _ => .ite (.quiet rfl) fun _ => ?_
  rfl

/-- A key event that is no press of UP or DOWN runs its branch on the displayed terminal. -/
lemma keyIrqHandler_branch (hup : data ≠ 0x48) (hdown : data ≠ 0x50) :
    s.Takes (s.keyIrqHandler below data) (s.branch data) := by
  unfold keyIrqHandler branch
  split
  · next hmake =>
    rw [scancode_of_make hmake]
    exact keyPressed_branch hup hdown
  · exact Takes.quiet keyReleased_frame.1

/-- `switch_terminals`, but for the screens. -/
def switchTerminals (s : Tty) (t : TermId) : Tty := { s with curTerminal := t }

/-- `terminal_write` by a process of terminal `t`; a null buffer is `none`. -/
def terminalWrite (s : Tty) (t : TermId) (buf : Option Mem) (nbytes : Nat) : Tty × Int :=
  match buf with
  | none => (s, -1)
  | some buf =>
    let (T, bytesWritten) := (s.terminals t).writeLoop buf nbytes 0
    (s.setTerminal t (if t = s.curTerminal then T.moveCsr T.cX T.cY else T), bytesWritten)

/-- The stores of `terminal_write`. -/
def terminalWriteStores (s : Tty) (t : TermId) (buf : Option Mem) (nbytes : Nat) : List (Nat × UInt8) :=
  match buf with
  | none => []
  | some buf => (s.terminals t).writeStores buf nbytes 0

end Tty

/-! ### The display -/

/-- Key events other than presses of UP and DOWN. -/
def Key : Type := { data : UInt8 // data ≠ 0x48 ∧ data ≠ 0x50 }

/-- The driver and the reads of the processes, each on a terminal. Of the last step: the screens before it, the
stores to each page, and the cursor where Backspace deleted. -/
structure Display where
  tty : Tty
  readers : Pid → TermId × Reader
  before : TermId → Mem
  stores : TermId → List (Nat × UInt8)
  deleted : List (Nat × Nat)

/-- What happens to the display. -/
inductive DisplayInput
  | key (key : Key)
  | write (t : TermId) (buf : Option Mem) (nbytes : Nat)
  | call (p : Pid) (t : TermId) (nbytes : Nat)
  | read (p : Pid)
  | switch (t : TermId)

namespace Display

/-- After `keyboard_install`, whatever the arrays hold. -/
def install (terminals : TermId → Terminal) : Display where
  tty := .keyboardInstall terminals
  readers := fun _ => (0, .idle)
  before := fun t => (terminals t).screen
  stores := fun _ => []
  deleted := []

/-- A step that stores to the page of `t` only. -/
def moved (d : Display) (tty : Tty) (t : TermId) (stores : List (Nat × UInt8)) : Display :=
  { d with
    tty
    before := fun t => (d.tty.terminals t).screen
    stores := Function.update (fun _ => []) t stores
    deleted := [] }

end Display

/-- The display as a machine. A process calls `terminal_read` when it has no call pending, and the call goes on
step by step. -/
def displaySystem (below : TermId → Mem) : System Display DisplayInput where
  step d
    | .key key =>
      let h : Handler := ⟨d.tty.terminals d.tty.curTerminal, []⟩
      let b := d.tty.branch key.1
      some { d.moved (d.tty.keyIrqHandler below key.1).1 d.tty.curTerminal (b.stores h) with deleted := b.deleted h }
    | .write t buf nbytes =>
      some (d.moved (d.tty.terminalWrite t buf nbytes).1 t (d.tty.terminalWriteStores t buf nbytes))
    | .call p t nbytes =>
      match (d.readers p).2 with
      | .idle => some { d.moved d.tty t [] with readers := Function.update d.readers p (t, .waiting nbytes) }
      | _ => none
    | .read p =>
      let t := (d.readers p).1
      let (R, h) := (d.readers p).2.step (d.tty.terminals t)
      some { d.moved (d.tty.setTerminal t h.term) t [] with readers := Function.update d.readers p (t, R) }
    | .switch t => some (d.moved (d.tty.switchTerminals t) t [])

namespace Display

/-- Every cursor is on the screen; the last step made its stores and no others, all of them to cells of the page;
and Backspace has not deleted at the start of the screen. -/
structure InBounds (d : Display) : Prop where
  cursor : ∀ t, (d.tty.terminals t).cX < 80 ∧ (d.tty.terminals t).cY < 25
  replay : ∀ t, (d.tty.terminals t).screen = Mem.replay (d.stores t) (d.before t)
  page : ∀ t, ∀ s ∈ d.stores t, s.1 < 4000
  deleted : ∀ p ∈ d.deleted, p ≠ (0, 0)

variable {d d' : Display} {tty : Tty} {t : TermId} {T : Terminal} {stores : List (Nat × UInt8)} {i : DisplayInput}
  {below : TermId → Mem}

/-- What a run keeps. -/
def Inv (d : Display) : Prop := (∀ t, (d.tty.terminals t).Placed) ∧ d.InBounds

/-- The reads do not matter. -/
lemma Inv.readers {readers : Pid → TermId × Reader} (h : d.Inv) : Inv { d with readers } :=
  ⟨h.1, h.2.cursor, h.2.replay, h.2.page, h.2.deleted⟩

/-- A step that leaves one terminal placed and draws on it within its page. -/
lemma moved_inv (hd : ∀ t, (d.tty.terminals t).Placed) (htty : tty.terminals = Function.update d.tty.terminals t T)
    (hT : T.Placed) (hdraws : Terminal.Draws (d.tty.terminals t) T stores) : (d.moved tty t stores).Inv := by
  have hplaced : ∀ u, (tty.terminals u).Placed := by
    intro u
    rw [htty, Function.update_apply]
    split
    · exact hT
    · exact hd u
  refine ⟨hplaced, fun u => (hplaced u).cursor, fun u => ?_, fun u => ?_, fun _ hp => nomatch hp⟩
  · by_cases hu : u = t
    · subst hu
      simp only [moved, htty, Function.update_self]
      exact hdraws.screen
    · simp only [moved, htty, Function.update_of_ne hu]
      rfl
  · by_cases hu : u = t
    · subst hu
      simp only [moved, Function.update_self]
      exact hdraws.page
    · simp only [moved, Function.update_of_ne hu]
      exact fun _ hs => nomatch hs

/-- A step that draws nothing. -/
lemma moved_inv_still (hd : ∀ t, (d.tty.terminals t).Placed) (htty : tty.terminals = d.tty.terminals) :
    (d.moved tty t []).Inv :=
  moved_inv hd (htty.trans (Function.update_eq_self t _).symm) (hd t) (.none rfl)

end Display

/-- A step of a read leaves the cursor and the screen alone, and the index of the line unless it sets it to 0. -/
lemma Reader.step_placed {T : Terminal} {R : Reader} (hT : T.Placed) :
    (R.step T).2.term.Placed ∧ Terminal.Draws T (R.step T).2.term [] := by
  cases R with
  | idle => exact ⟨hT, .none rfl⟩
  | waiting n => exact ⟨hT, .none rfl⟩
  | typing n => exact ⟨⟨hT.cursor, hT.line, hT.behind⟩, .none rfl⟩
  | testing n => exact ⟨hT, .none rfl⟩
  | clamping => exact ⟨hT, .none rfl⟩
  | copying n buf =>
    simp only [step]
    split
    · exact ⟨hT, .none rfl⟩
    · exact ⟨hT, .none rfl⟩
  | clearing n i buf =>
    simp only [step]
    split
    · exact ⟨⟨hT.cursor, hT.line, hT.behind⟩, .none rfl⟩
    · exact ⟨hT, .none rfl⟩
  | resetting buf => exact ⟨⟨hT.cursor, Nat.zero_le _, Nat.zero_le _⟩, .none rfl⟩
  | returning buf => exact ⟨hT, .none rfl⟩

/-- What a write leaves on its terminal. -/
lemma Tty.terminalWrite_placed {s : Tty} {t : TermId} {buf : Option Mem} {nbytes : Nat} (hT : (s.terminals t).Placed) :
    ∃ T, (s.terminalWrite t buf nbytes).1.terminals = Function.update s.terminals t T ∧ T.Placed ∧
      Terminal.Draws (s.terminals t) T (s.terminalWriteStores t buf nbytes) := by
  cases buf with
  | none => exact ⟨_, (Function.update_eq_self t _).symm, hT, .none rfl⟩
  | some buf =>
    obtain ⟨hplaced, hdraws⟩ := @Terminal.writeLoop_placed (s.terminals t) 0 buf nbytes hT
    refine ⟨_, rfl, ?_⟩
    split
    · exact ⟨⟨hplaced.cursor, hplaced.line, hplaced.behind⟩, hdraws.congr rfl rfl⟩
    · exact ⟨hplaced, hdraws⟩

namespace Display
variable {d d' : Display} {i : DisplayInput} {below : TermId → Mem}

/-- One input. -/
lemma step_inv (hd : d.Inv) (hst : (displaySystem below).step d i = some d') : d'.Inv := by
  cases i with
  | key key =>
    obtain ⟨hplaced, hdraws⟩ := @KeyBranch.keeps ⟨d.tty.terminals d.tty.curTerminal, []⟩ (d.tty.branch key.1) (hd.1 _)
    have hmoved := moved_inv hd.1 (@Tty.keyIrqHandler_branch d.tty below key.1 key.2.1 key.2.2) hplaced hdraws
    cases hst
    exact ⟨hmoved.1, hmoved.2.cursor, hmoved.2.replay, hmoved.2.page, KeyBranch.deleted_ne (hd.1 _)⟩
  | write t buf nbytes =>
    obtain ⟨T, htty, hT, hdraws⟩ := @Tty.terminalWrite_placed d.tty t buf nbytes (hd.1 t)
    cases hst
    exact moved_inv hd.1 htty hT hdraws
  | call p t nbytes =>
    simp only [displaySystem] at hst
    split at hst
    · cases hst
      exact (moved_inv_still hd.1 rfl).readers
    · cases hst
  | read p =>
    obtain ⟨hT, hdraws⟩ := @Reader.step_placed (d.tty.terminals (d.readers p).1) (d.readers p).2 (hd.1 _)
    have hmoved := @moved_inv d (d.tty.setTerminal (d.readers p).1 _) (d.readers p).1 _ _ hd.1 rfl hT hdraws
    cases hst
    exact hmoved.readers
  | switch t =>
    cases hst
    exact moved_inv_still hd.1 rfl

/-- Installed terminals. -/
lemma install_inv (terminals : TermId → Terminal) : (install terminals).Inv := by
  have hcursor : ∀ t, ((install terminals).tty.terminals t).OnScreen :=
    fun _ => ⟨Nat.zero_lt_succ _, Nat.zero_lt_succ _⟩
  refine ⟨fun t => ⟨hcursor t, Nat.zero_le _, Nat.zero_le _⟩, hcursor, fun _ => rfl, ?_, ?_⟩
  · exact fun _ _ hs => nomatch hs
  · exact fun _ hp => nomatch hp

end Display

/-- Over any keys but UP and DOWN, any output, any reads and any switches, the cursors stay on the screen and every
store goes to a cell of its page. -/
theorem display_inBounds (below : TermId → Mem) (terminals : TermId → Terminal) (is : List DisplayInput) :
    (displaySystem below).Always Display.InBounds (.install terminals) is :=
  System.always_of_invariant (fun _ _ _ hd hst => Display.step_inv hd hst) (fun _ hd => hd.2)
    (Display.install_inv terminals)

end Boss
