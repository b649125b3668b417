import Boss.Terminal.Cursor
import Boss.Terminal.Recall

/-!
# Room for the history keys

UP and DOWN take one command off the line and put another one on it, whatever the line holds. Where it is shorter than the
command that goes, the index of the line is counted below zero; where it is too long for the one that comes, the index
leaves the buffer, and the next Enter stores behind it. Each of the two keys also counts one character more than the
cursor moves, so that Backspace can come to the first cell of the screen with a line that is not empty, and then stores
before the screen.

`upRoom` and `downRoom` say when none of this happens. A terminal is `Sound` when its line is in the buffer and its cursor
on the screen, with a cell for every character of the line. Keys that are pressed where they have room keep every terminal
sound (`Tty.Sound.press`): no store of theirs leaves the buffer or the screen.
-/

namespace Boss
open Lib

namespace Terminal
variable {T U : Terminal} {c : UInt8} {n : Nat}

/-- The row that UP takes off the line; with no command recalled, that is what lies before the first row. -/
def upRow (below : Mem) (T : Terminal) : Mem := if T.cmdCount = 0 then below else T.cmdHist (T.cmdCount - 1)

/-- UP has room: in the line for what it takes off, in the buffer for what it puts on, and on the screen for one character
more than it shows. -/
def upRoom (below : Mem) (T : Terminal) : Prop :=
  recallFits (Handler.rowLen (T.upRow below)) (Handler.rowLen (T.cmdHist T.cmdCount)) T.lineBufferIndex ∧
    T.lineBufferIndex < T.pos

/-- DOWN has room. -/
def downRoom (T : Terminal) : Prop := T.downFits ∧ T.lineBufferIndex < T.pos

instance (below : Mem) (T : Terminal) : Decidable (T.upRoom below) := instDecidableAnd

instance (T : Terminal) : Decidable T.downRoom := instDecidableAnd

/-- The line is in its buffer, the cursor on the screen behind the line, and the recalled command in the history. -/
structure Sound (T : Terminal) : Prop extends Placed T where
  count : T.cmdCount ≤ 4

/-- A sound terminal is in order. -/
lemma Sound.ok (h : T.Sound) : T.Ok := ⟨h.line, h.count⟩

/-- The cursor is on the screen and at least `n` cells are before it. -/
def Behind (T : Terminal) (n : Nat) : Prop := T.OnScreen ∧ n ≤ T.pos

/-- A character moves the cursor on or into the last row. -/
lemma Behind.termPutc (h : T.Behind n) (hn : n < 1920) : (T.termPutc c).Behind (n + 1) := by
  obtain ⟨hcursor, hpos⟩ := @termPutc_cursor T c h.1
  have hle := h.2
  exact ⟨hcursor, by omega⟩

/-- Deleting takes one cell from before the cursor. -/
lemma Behind.termDeleteChar (h : T.Behind (n + 1)) : T.termDeleteChar.Behind n := by
  have hle := h.2
  obtain ⟨hcursor, hback⟩ := termDeleteChar_cursor h.1 (by omega)
  exact ⟨hcursor, by omega⟩

end Terminal

/-! ### The history loops -/

namespace Handler
variable {h : Handler} {row below : Mem} {r : Int} {fuel i n : Nat}

/-- Taking off a character takes one cell from before the cursor. -/
lemma eraseBody_behind (hn : h.term.Behind (n + 1)) : (eraseBody i h).term.Behind n := by
  have hline : ((h.putLine i 32).decIndex).term.Behind (n + 1) := hn
  rw [eraseBody, draw_term]
  exact hline.termDeleteChar

/-- Showing a character adds one cell before the cursor, except at the bottom. -/
lemma showBody_behind (hn : h.term.Behind n) (hlt : n < 1920) : (showBody row r i h).term.Behind (n + 1) := by
  have hline : (((h.readHist r [i]).putLine i (row i)).incIndex).term.Behind n := hn
  rw [showBody, draw_term]
  exact hline.termPutc hlt

/-- The loop that takes a row off goes back by the columns that it passes. -/
lemma eraseLoop_behind (hn : h.term.Behind (n + (rowScan row fuel i - i))) :
    (historyLoop row r eraseBody fuel i h).2.term.Behind n := by
  induction fuel generalizing i h with
  | zero =>
    rw [rowScan, Nat.sub_self] at hn
    exact hn
  | succ fuel ih =>
    rw [rowScan] at hn
    rw [historyLoop]
    split
    · next hgo =>
      rw [if_pos hgo] at hn
      have hle : i + 1 ≤ rowScan row fuel (i + 1) := le_rowScan
      have hlen : n + (rowScan row fuel (i + 1) - i) = n + (rowScan row fuel (i + 1) - (i + 1)) + 1 := by omega
      rw [hlen] at hn
      exact ih (eraseBody_behind hn)
    · next hstop =>
      rw [if_neg hstop, Nat.sub_self] at hn
      exact hn

/-- The loop that puts a row on goes forward by them. -/
lemma showLoop_behind {row' : Mem} (hn : h.term.Behind n) (hlt : n + (rowScan row fuel i - i) ≤ 1920) :
    (historyLoop row r (showBody row' r) fuel i h).2.term.Behind (n + (rowScan row fuel i - i)) := by
  induction fuel generalizing i h n with
  | zero =>
    rw [rowScan, Nat.sub_self]
    exact hn
  | succ fuel ih =>
    rw [rowScan] at hlt ⊢
    rw [historyLoop]
    split
    · next hgo =>
      rw [if_pos hgo] at hlt
      have hle : i + 1 ≤ rowScan row fuel (i + 1) := le_rowScan
      have hlen : n + (rowScan row fuel (i + 1) - i) = n + 1 + (rowScan row fuel (i + 1) - (i + 1)) := by omega
      rw [hlen] at hlt ⊢
      have hread : (h.readHist r [i, i + 1]).term.Behind n := hn
      exact ih (showBody_behind hread (by omega)) hlt
    · rw [Nat.sub_self]
      exact hn

/-- Taking a row off goes back by one cell more than the row is long. -/
lemma eraseRow_behind (hn : h.term.Behind (n + 1 + rowLen (h.histRow below r))) :
    (eraseRow below r h).term.Behind n := by
  have hloop : (historyLoop (h.histRow below r) r eraseBody 127 0 h).2.term.Behind (n + 1) := by
    apply eraseLoop_behind
    rw [Nat.sub_zero]
    exact hn
  rw [eraseRow]
  generalize historyLoop (h.histRow below r) r eraseBody 127 0 h = l at hloop ⊢
  have hline : ((l.2.putLine l.1 32).incIndex).term.Behind (n + 1) := hloop
  rw [draw_term]
  exact hline.termDeleteChar

/-- Putting a row on goes forward by its length. -/
lemma showRow_behind {r : Nat} (hn : h.term.Behind n) (hlt : n + rowLen (h.term.cmdHist r) ≤ 1920) :
    (showRow r h).term.Behind (n + rowLen (h.term.cmdHist r)) := by
  rw [rowLen, ← Nat.sub_zero (rowScan _ _ _)] at hlt ⊢
  exact showLoop_behind hn hlt

/-- The history is not changed while a row is taken off. -/
lemma eraseRow_hist : (eraseRow below r h).term.cmdHist = h.term.cmdHist := by
  have hbody : ∀ i (h : Handler), (eraseBody i h).term.cmdHist = h.term.cmdHist := by
    intro i h
    rw [eraseBody, (draw_input Terminal.termDeleteChar_input).hist]
    rfl
  have hloop : (historyLoop (h.histRow below r) r eraseBody 127 0 h).2.term.cmdHist = h.term.cmdHist :=
    historyLoop_frame hbody
  rw [eraseRow, (draw_input Terminal.termDeleteChar_input).hist]
  exact hloop

/-- The index stays a number of 32 bits. -/
lemma eraseRow_index_lt : (eraseRow below r h).term.lineBufferIndex < 0x100000000 := by
  rw [eraseRow, (draw_input Terminal.termDeleteChar_input).index]
  exact Nat.mod_lt _ (by decide)

/-- A row taken off a line that is long enough for it and has a cell to spare. -/
lemma eraseRow_placed (hline : h.term.lineBufferIndex ≤ maxBufIndex) (hcell : h.term.Behind (h.term.lineBufferIndex + 2))
    (hoff : rowLen (h.histRow below r) ≤ h.term.lineBufferIndex)
    (hfit : h.term.lineBufferIndex - rowLen (h.histRow below r) + 1 ≤ maxBufIndex) :
    (eraseRow below r h).term.Placed ∧ (eraseRow below r h).term.lineBufferIndex =
      h.term.lineBufferIndex - rowLen (h.histRow below r) + 1 := by
  obtain ⟨-, -, hcounts⟩ := @eraseRow_counts h r below hcell.1.1
  have hlt := @eraseRow_index_lt h below r
  have hindex : (eraseRow below r h).term.lineBufferIndex =
      h.term.lineBufferIndex - rowLen (h.histRow below r) + 1 := by
    unfold maxBufIndex at hline
    omega
  -- two cells more than the line is long, for the blank and for the character that is counted too much
  have hcells : h.term.lineBufferIndex + 2 =
      h.term.lineBufferIndex - rowLen (h.histRow below r) + 1 + 1 + rowLen (h.histRow below r) := by omega
  rw [hcells] at hcell
  obtain ⟨hcursor, hpos⟩ := eraseRow_behind hcell
  exact ⟨⟨hcursor, hindex.trans_le hfit, hindex.trans_le hpos⟩, hindex⟩

/-- A row put on a line that has room for it. -/
lemma showRow_placed {r : Nat} (hT : h.term.Placed) (h4 : r ≤ 4)
    (hfit : h.term.lineBufferIndex + rowLen (h.term.cmdHist r) ≤ maxBufIndex) : (showRow r h).term.Placed := by
  have hshow : Effect h (showRow r h) _ _ := .showRow h4
  have hindex := hshow.index hT.line hfit
  obtain ⟨hcursor, hpos⟩ := showRow_behind ⟨hT.cursor, hT.behind⟩ (hfit.trans (by decide))
  exact ⟨hcursor, hindex.trans_le hfit, hindex.trans_le hpos⟩

/-! ### The two keys -/

/-- The blank that both keys put first. -/
lemma blank_behind (hT : h.term.Placed) (hpos : h.term.lineBufferIndex < h.term.pos) :
    (h.draw (.termPutc 32)).term.Behind (h.term.lineBufferIndex + 2) := by
  have hline := hT.line
  unfold maxBufIndex at hline
  exact Terminal.Behind.termPutc ⟨hT.cursor, hpos⟩ (by omega)

/-- The count is not part of the history. -/
lemma setCount_hist {v : Nat} : (h.setCount v).term.cmdHist = h.term.cmdHist := rfl

/-- The count of recalled commands is a number of a row. -/
lemma setCount_sound {v : Nat} (hT : h.term.Placed) (hv : v ≤ 4) : (h.setCount v).term.Sound :=
  ⟨⟨hT.cursor, hT.line, hT.behind⟩, hv⟩

/-- UP where it has room. -/
lemma keyUp_sound (hT : h.term.Sound) (hroom : h.term.upRoom below) : (keyUp below h).term.Sound := by
  obtain ⟨⟨hoff, hon⟩, hpos⟩ := hroom
  have hecho := @draw_input h (.termPutc 32) Terminal.termPutc_input
  have hcell := blank_behind hT.toPlaced hpos
  have hrow : (h.draw (.termPutc 32)).histRow below ((h.term.cmdCount : Int) - 1) = h.term.upRow below := by
    unfold histRow Terminal.upRow
    by_cases hzero : h.term.cmdCount = 0
    · rw [if_pos (by omega), if_pos hzero]
    · rw [if_neg (by omega), if_neg hzero, hecho.hist, show ((h.term.cmdCount : Int) - 1).toNat = h.term.cmdCount - 1 by omega]
  have hcount := hT.count
  unfold keyUp
  generalize h.draw (.termPutc 32) = h0 at hecho hrow hcell ⊢
  simp only [eraseRow_count, showRow_count, hecho.count]
  rw [← hecho.index, ← hrow] at hoff hon
  rw [← hecho.index] at hcell
  obtain ⟨herased, hindex⟩ := eraseRow_placed (hecho.index.trans_le hT.line) hcell hoff (by omega)
  have hcount1 : (eraseRow below ((h.term.cmdCount : Int) - 1) h0).term.cmdCount ≤ 4 := by
    rwa [eraseRow_count, hecho.count]
  rw [← hecho.hist, ← @eraseRow_hist h0 below, ← hindex] at hon
  generalize eraseRow below ((h.term.cmdCount : Int) - 1) h0 = h1 at herased hcount1 hon ⊢
  have hshown := showRow_placed herased hcount hon
  split
  · next hlt => exact setCount_sound hshown hlt
  · exact ⟨hshown, showRow_count.trans_le hcount1⟩

/-- DOWN where it has room. -/
lemma keyDown_sound (hT : h.term.Sound) (hroom : h.term.downRoom) : (keyDown below h).term.Sound := by
  obtain ⟨⟨hoff, hon⟩, hpos⟩ := hroom
  have hecho := @draw_input h (.termPutc 32) Terminal.termPutc_input
  have hcell := blank_behind hT.toPlaced hpos
  have hcount := hT.count
  have hdown : h.term.downRow = max h.term.cmdCount 1 - 1 := rfl
  unfold keyDown
  generalize h.draw (.termPutc 32) = h0 at hecho hcell ⊢
  -- from here on `cmdCount` is at least 1
  obtain ⟨h1, hh1, hinput, hcell1, hmax⟩ : ∃ h1, h1 = (if h0.term.cmdCount = 0 then h0.setCount 1 else h0) ∧
      (h1.term.cmdHist = h.term.cmdHist ∧ h1.term.lineBufferIndex = h.term.lineBufferIndex) ∧
      h1.term.Behind (h.term.lineBufferIndex + 2) ∧ h1.term.cmdCount = max h.term.cmdCount 1 := by
    refine ⟨_, rfl, ?_⟩
    have hc := hecho.count
    split
    · exact ⟨⟨hecho.hist, hecho.index⟩, hcell, by simp only [setCount_count]; omega⟩
    · exact ⟨⟨hecho.hist, hecho.index⟩, hcell, by omega⟩
  simp only [← hh1, eraseRow_count, setCount_count, hmax, ← hdown]
  have hrow : h1.histRow below ((max h.term.cmdCount 1 : Nat) - 1 : Int) = h.term.cmdHist h.term.downRow := by
    rw [histRow, if_neg (by omega), hinput.1, hdown]
    congr 1
    omega
  rw [← hinput.2, ← hrow] at hoff hon
  rw [← hinput.2] at hcell1
  obtain ⟨herased, hindex⟩ := eraseRow_placed (hinput.2.trans_le hT.line) hcell1 hoff (by omega)
  have hhist := (@eraseRow_hist h1 below ((max h.term.cmdCount 1 : Nat) - 1)).trans hinput.1
  rw [← hindex] at hon
  generalize eraseRow below ((max h.term.cmdCount 1 : Nat) - 1) h1 = h2 at herased hhist hon ⊢
  have hrest := setCount_sound herased (show h.term.downRow ≤ 4 by omega)
  split
  · next hshow =>
    rw [Terminal.downShown, if_pos hshow, ← hhist, ← @setCount_hist h2 h.term.downRow,
      ← @setCount_index h2 h.term.downRow] at hon
    exact ⟨showRow_placed hrest.toPlaced (by omega) hon, showRow_count.trans_le hrest.count⟩
  · exact hrest

end Handler

/-! ### Any key -/

namespace Tty
variable {s : Tty} {k : Press}

/-- A key is pressed where it has room. -/
def Room (s : Tty) (k : Press) : Prop :=
  (k.data = 0x48 → s.displayed.upRoom (k.below s.curTerminal)) ∧ (k.data = 0x50 → s.displayed.downRoom)

instance : Decidable (s.Room k) := instDecidableAnd

/-- Every terminal is sound. -/
def Sound (s : Tty) : Prop := ∀ t, (s.terminals t).Sound

/-- A terminal is exchanged for another one. -/
lemma Sound.setTerminal {t : TermId} {T : Terminal} (hs : s.Sound) (hT : T.Sound) : (s.setTerminal t T).Sound := by
  intro u
  simp only [Tty.setTerminal, Function.update_apply]
  split
  · exact hT
  · exact hs u

/-- Installed terminals are sound. -/
lemma keyboardInstall_sound (terminals : TermId → Terminal) : (keyboardInstall terminals).Sound :=
  fun _ => ⟨⟨⟨Nat.zero_lt_succ _, Nat.zero_lt_succ _⟩, Nat.zero_le _, Nat.zero_le _⟩, Nat.zero_le _⟩

/-- Output leaves the input side of its terminal alone. -/
lemma writeLoop_input {T : Terminal} {buf : Mem} {fuel i : Nat} : T.SameInput (T.writeLoop buf fuel i).1 := by
  induction fuel generalizing i T with
  | zero => exact ⟨rfl, rfl, rfl, rfl, rfl⟩
  | succ fuel ih =>
    rw [Terminal.writeLoop]
    split
    · exact ⟨rfl, rfl, rfl, rfl, rfl⟩
    · exact Terminal.termPutc_input.trans ih

/-- Output keeps the terminals sound. -/
lemma Sound.terminalWrite {t : TermId} {buf : Option Mem} {nbytes : Nat} (hs : s.Sound) :
    (s.terminalWrite t buf nbytes).1.Sound := by
  cases buf with
  | none => exact hs
  | some buf =>
    have hplaced := (@Terminal.writeLoop_placed (s.terminals t) 0 buf nbytes (hs t).toPlaced).1
    have hcount := (@writeLoop_input (s.terminals t) buf nbytes 0).count.trans_le (hs t).count
    refine hs.setTerminal ?_
    split
    · exact ⟨⟨hplaced.cursor, hplaced.line, hplaced.behind⟩, hcount⟩
    · exact ⟨hplaced, hcount⟩

/-- Keys with room keep the terminals sound. -/
lemma Sound.press (hs : s.Sound) (hroom : s.Room k) : (s.press k).Sound := by
  have hcur := hs s.curTerminal
  by_cases hup : k.data = 0x48
  · rw [Tty.press, hup, keyIrqHandler_up]
    exact hs.setTerminal (@Handler.keyUp_sound ⟨s.displayed, []⟩ _ hcur (hroom.1 hup))
  by_cases hdown : k.data = 0x50
  · rw [Tty.press, hdown, keyIrqHandler_down]
    exact hs.setTerminal (@Handler.keyDown_sound ⟨s.displayed, []⟩ _ hcur (hroom.2 hdown))
  -- the other keys, by what is known of the index and of the cursor
  have hok : Safe (s.keyIrqHandler k.below k.data) :=
    keyIrqHandler_safe (fun t => (hs t).ok) (fun h => absurd h hup) fun h => absurd h hdown
  have hbranch := @keyIrqHandler_branch s k.below k.data hup hdown
  have hplaced := (@KeyBranch.keeps ⟨s.terminals s.curTerminal, []⟩ (s.branch k.data) hcur.toPlaced).placed
  intro t
  refine ⟨?_, (hok.1 t).2⟩
  rw [Tty.press, hbranch, Function.update_apply]
  split
  · exact hplaced
  · exact (hs t).toPlaced

/-- The driver on one byte after another. -/
def receive (s : Tty) (ks : List Press) : Tty := ks.foldl press s

/-- Bytes in two parts. -/
lemma receive_append {ks ks' : List Press} : s.receive (ks ++ ks') = (s.receive ks).receive ks' := List.foldl_append

end Tty

/-- The driver as a machine. -/
def keyboardSystem : System Tty Press where
  step s k := some (s.press k)

/-- It takes every byte. -/
lemma keyboardSystem_run {s : Tty} {ks : List Press} : keyboardSystem.run s ks = some (s.receive ks) := by
  induction ks generalizing s with
  | nil => rfl
  | cons k ks ih => exact ih

/-- Keys that are pressed where they have room. -/
lemma Tty.Sound.receive {s : Tty} {ks : List Press} (hs : s.Sound) (hroom : keyboardSystem.Guarded Tty.Room s ks) :
    (s.receive ks).Sound := by
  refine System.guarded_invariant (S := keyboardSystem) (I := Tty.Sound) ?_ hs hroom keyboardSystem_run
  rintro s k s' hs hk hstep
  cases hstep
  exact hs.press hk

end Boss
