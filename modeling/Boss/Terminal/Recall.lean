import Boss.Process.Programs
import Boss.Terminal.Bounds

/-!
# Recalling commands

What the UP and DOWN keys are for: with commands recorded in the history of a terminal, UP puts the previous
one on the line and DOWN the next one, behind the prompt. `Shows` says what the user and the next
`terminal_read` should find, and `RecallWorks` that they find it after every UP and every DOWN that follows.

The keys take the last command off by the row of the history it came from, character by character, and put a
blank before they begin. Taking the blank off again counts the index of the line up where the cursor
goes back, so index and cursor part by one with every key. `eraseRow_counts` says so for any row, whatever it
holds, and one UP and one DOWN cannot both be right (`recall_works_iff`).
-/

namespace Boss
open Lib

namespace Tty

/-- The displayed terminal. -/
def displayed (s : Tty) : Terminal := s.terminals s.curTerminal

/-- The UP key is pressed. -/
def pressUp (below : TermId → Mem) (s : Tty) : Tty := (s.keyIrqHandler below 0x48).1

/-- The DOWN key is pressed. -/
def pressDown (below : TermId → Mem) (s : Tty) : Tty := (s.keyIrqHandler below 0x50).1

/-- The key is for the displayed terminal. -/
lemma onCur_displayed {f : Handler → Handler} {s : Tty} :
    (s.onCur f).1.displayed = (f ⟨s.displayed, []⟩).term := Function.update_self ..

/-- What UP leaves on the displayed terminal. -/
lemma pressUp_displayed {below : TermId → Mem} {s : Tty} : (s.pressUp below).displayed =
    (Handler.keyUp (below s.curTerminal) ⟨s.displayed, []⟩).term := by
  rw [pressUp, keyIrqHandler_up, onCur_displayed]

/-- What DOWN leaves on the displayed terminal. -/
lemma pressDown_displayed {below : TermId → Mem} {s : Tty} : (s.pressDown below).displayed =
    (Handler.keyDown (below s.curTerminal) ⟨s.displayed, []⟩).term := by
  rw [pressDown, keyIrqHandler_down, onCur_displayed]

end Tty

/-- Commands, oldest first, have been recorded on a terminal by `execute`; its line is empty, no command is
recalled, and the cursor is somewhere on the screen, behind the prompt. -/
structure Recorded (T : Terminal) (cs : List (Command × List UInt8)) : Prop where
  spells : ∀ c ∈ cs, c.1.Spells c.2 ∧ c.1.HistMapped
  printable : ∀ c ∈ cs, 1 ≤ c.2.length ∧ c.2.length ≤ 126 ∧ ∀ b ∈ c.2, 32 ≤ b ∧ b ≤ 126
  hist : ∃ before, T.cmdHist = cs.foldl (fun hist c => (c.1.pushHist hist).1) before
  line : T.lineBufferIndex = 0
  count : T.cmdCount = 0
  cursor : T.cX < 80 ∧ T.cY < 25

/-- The terminal `T'` has a text on its line where `T` had none: the text is in the buffer, and on the screen behind
what was before the cursor, up to rows that have gone off; the cursor is behind the text. -/
structure Shows (T : Terminal) (text : List UInt8) (T' : Terminal) : Prop where
  index : T'.lineBufferIndex = text.length
  buffer : ∀ i (h : i < text.length), T'.lineBuffer i = text[i]
  cursor : T'.cX < 80 ∧ T'.cY < 25
  screen : ∃ rows, 80 * T'.cY + T'.cX + 80 * rows = 80 * T.cY + T.cX + text.length ∧
    (∀ p < 80 * T.cY + T.cX, 80 * rows ≤ p → T'.screen (2 * (p - 80 * rows)) = T.screen (2 * p)) ∧
    ∀ i (h : i < text.length), 80 * rows ≤ 80 * T.cY + T.cX + i →
      T'.screen (2 * (80 * T.cY + T.cX + i - 80 * rows)) = text[i]

/-- After `j` UP keys the `j`-th last command is on the line, after further DOWN keys the commands after it, and
at last the empty line. -/
def RecallWorks (below : TermId → Mem) (s : Tty) (cs : List (List UInt8)) : Prop :=
  ∀ j, 1 ≤ j → j ≤ min cs.length 5 → ∀ i ≤ j,
    Shows s.displayed (if i < j then cs.reverse.getD (j - i - 1) [] else [])
      ((Tty.pressDown below)^[i] ((Tty.pressUp below)^[j] s)).displayed

/-! ### Counting -/

/-- A character is deleted to the left, around the edge of the screen. -/
lemma Terminal.termDeleteChar_column {T : Terminal} (h : T.cX < 80) :
    T.termDeleteChar.cX < 80 ∧ (T.termDeleteChar.cX + 1) % 80 = T.cX := by
  cases hx : T.cX with
  | zero =>
    have hcol : T.termDeleteChar.cX = 79 := by simp [termDeleteChar, hx, dec32]
    rw [hcol]
    decide
  | succ x =>
    have hdec : dec32 (x + 1) = x := dec32_succ (by omega)
    have hcol : T.termDeleteChar.cX = x := by
      simp only [termDeleteChar, hx, hdec]
      rw [if_neg (by omega)]
    rw [hcol]
    omega

/-- A blank moves the cursor on by a column. -/
lemma Terminal.termPutc_column {T : Terminal} (h : T.cX < 80) : (T.termPutc 32).cX = (T.cX + 1) % 80 := by
  have hx : inc32 T.cX = T.cX + 1 := inc32_of_lt (by omega)
  have hc : ¬ ((32 : UInt8) = 10 ∨ (32 : UInt8) = 13) := by decide
  simp only [termPutc, if_neg hc, hx]
  split
  · rfl
  · rfl

namespace Handler
variable {h : Handler} {row : Mem} {r : Int} {fuel i : Nat}

/-- The count is not seen. -/
lemma setCount_column {v : Nat} : (h.setCount v).term.cX = h.term.cX := rfl

/-- Deleting moves the cursor back by a column. -/
lemma draw_deleteChar_column (hx : h.term.cX < 80) : (h.draw .termDeleteChar).term.cX < 80 ∧
    ((h.draw .termDeleteChar).term.cX + 1) % 80 = h.term.cX := by
  rw [draw_term]
  exact Terminal.termDeleteChar_column hx

/-- Taking off a character moves the cursor back and makes the line shorter, below 0 too. -/
lemma eraseBody_counts (hx : h.term.cX < 80) : (eraseBody i h).term.cX < 80 ∧
    ((eraseBody i h).term.cX + 1) % 80 = h.term.cX ∧
    (eraseBody i h).term.lineBufferIndex = dec32 h.term.lineBufferIndex := by
  obtain ⟨hlt, hback⟩ := @draw_deleteChar_column ((h.putLine i 32).decIndex) hx
  exact ⟨hlt, hback, (draw_input Terminal.termDeleteChar_input).index⟩

/-- The loop goes back by as many columns as it counts the index down. -/
lemma historyLoop_erase (hx : h.term.cX < 80) :
    (historyLoop row r eraseBody fuel i h).2.term.cX < 80 ∧
    ((historyLoop row r eraseBody fuel i h).2.term.cX + ((historyLoop row r eraseBody fuel i h).1 - i)) % 80 =
      h.term.cX ∧
    ((historyLoop row r eraseBody fuel i h).2.term.lineBufferIndex +
      ((historyLoop row r eraseBody fuel i h).1 - i)) % 0x100000000 = h.term.lineBufferIndex % 0x100000000 := by
  induction fuel generalizing i h with
  | zero =>
    rw [historyLoop, Nat.sub_self, Nat.add_zero, Nat.add_zero]
    exact ⟨hx, Nat.mod_eq_of_lt hx, rfl⟩
  | succ fuel ih =>
    simp only [historyLoop]
    split
    · obtain ⟨hlt, hcol, hidx⟩ := @eraseBody_counts (h.readHist r [i, i + 1]) i hx
      obtain ⟨hlt', hcol', hidx'⟩ := @ih (eraseBody i (h.readHist r [i, i + 1])) (i + 1) hlt
      have hle : i + 1 ≤ (historyLoop row r eraseBody fuel (i + 1) (eraseBody i (h.readHist r [i, i + 1]))).1 := by
        rw [historyLoop_fst]
        exact le_rowScan
      -- one column and one count on top of the rest of the loop
      rw [hidx, dec32] at hidx'
      rw [readHist_term] at hcol hidx'
      refine ⟨hlt', ?_, ?_⟩
      · omega
      · omega
    · simp only [Nat.sub_self, Nat.add_zero, readHist_term]
      exact ⟨hx, Nat.mod_eq_of_lt hx, trivial⟩

/-- Taking a row off goes back by one column more than the row is long, and counts the index down by one
less. -/
lemma eraseRow_counts {below : Mem} (hx : h.term.cX < 80) :
    (eraseRow below r h).term.cX < 80 ∧
    ((eraseRow below r h).term.cX + rowLen (h.histRow below r) + 1) % 80 = h.term.cX ∧
    ((eraseRow below r h).term.lineBufferIndex + rowLen (h.histRow below r)) % 0x100000000 =
      (h.term.lineBufferIndex + 1) % 0x100000000 := by
  obtain ⟨hlt, hcol, hidx⟩ := @historyLoop_erase h (h.histRow below r) r 127 0 hx
  rw [historyLoop_fst, Nat.sub_zero] at hcol hidx
  have hlen : rowLen (h.histRow below r) = rowScan (h.histRow below r) 127 0 := rfl
  rw [eraseRow, hlen]
  generalize historyLoop (h.histRow below r) r eraseBody 127 0 h = l at hlt hcol hidx ⊢
  obtain ⟨i, h1⟩ := l
  obtain ⟨hlt', hback⟩ := @draw_deleteChar_column ((h1.putLine i 32).incIndex) hlt
  have hcol' : ((h1.putLine i 32).incIndex).term.cX = h1.term.cX := rfl
  have hidx' : (((h1.putLine i 32).incIndex).draw .termDeleteChar).term.lineBufferIndex =
      inc32 h1.term.lineBufferIndex := (draw_input Terminal.termDeleteChar_input).index
  rw [hcol'] at hback
  simp only at hcol hidx ⊢
  refine ⟨hlt', ?_, ?_⟩
  · omega
  · rw [hidx', inc32]
    omega

/-- DOWN with one command recalled takes row 0 off and shows nothing. -/
lemma keyDown_one {below : Mem} (hc : h.term.cmdCount = 1) :
    keyDown below h = ((h.draw (.termPutc 32)).eraseRow below 0).setCount 0 := by
  have hcount : (h.draw (.termPutc 32)).term.cmdCount = 1 := (draw_input Terminal.termPutc_input).count.trans hc
  have hr : ((1 : Nat) : Int) - 1 = 0 := rfl
  unfold keyDown
  generalize h.draw (.termPutc 32) = h0 at *
  simp only [hcount, one_ne_zero, if_false, hr, eraseRow_count, Nat.sub_self, setCount_count, ne_eq,
    not_true_eq_false, false_and]

/-- The column and the index then move by what taking row 0 off moves them, after the blank. -/
lemma keyDown_counts {below : Mem} (hx : h.term.cX < 80) (hc : h.term.cmdCount = 1) :
    ((keyDown below h).term.cX + rowLen (h.term.cmdHist 0)) % 80 = h.term.cX ∧
    ((keyDown below h).term.lineBufferIndex + rowLen (h.term.cmdHist 0)) % 0x100000000 =
      (h.term.lineBufferIndex + 1) % 0x100000000 := by
  have hecho := @draw_input h (.termPutc 32) Terminal.termPutc_input
  have hcol : (h.draw (.termPutc 32)).term.cX = (h.term.cX + 1) % 80 := by
    rw [draw_term, Terminal.termPutc_column hx]
  have hrow : (h.draw (.termPutc 32)).histRow below 0 = h.term.cmdHist 0 := by
    rw [histRow, if_neg (Int.lt_irrefl 0), hecho.hist, Int.toNat_zero]
  rw [keyDown_one hc, setCount_index, setCount_column]
  generalize h.draw (.termPutc 32) = h0 at *
  obtain ⟨_, hcol', hidx'⟩ := @eraseRow_counts h0 0 below (by omega)
  rw [hrow] at hcol' hidx'
  rw [hecho.index] at hidx'
  refine ⟨?_, hidx'⟩
  omega

/-- UP counts the recalled commands. -/
lemma keyUp_count {below : Mem} (hc : h.term.cmdCount = 0) : (keyUp below h).term.cmdCount = 1 := by
  have hecho := @draw_input h (.termPutc 32) Terminal.termPutc_input
  unfold keyUp
  simp only [showRow_count, eraseRow_count, hecho.count, hc]
  rfl

end Handler

/-- With a command recorded, recall never works: after UP the line and the cursor are not both right, or they
are not after the DOWN that follows. -/
theorem recall_works_iff (below : TermId → Mem) (s : Tty) (cs : List (Command × List UInt8))
    (h : Recorded s.displayed cs) : RecallWorks below s (cs.map Prod.snd) ↔ cs = [] := by
  constructor
  · intro hworks
    by_contra hne
    obtain ⟨init, c, rfl⟩ := (List.eq_nil_or_concat cs).resolve_left hne
    have hup := hworks 1 le_rfl (by simp) 0 (by omega)
    have hdown := hworks 1 le_rfl (by simp) 1 le_rfl
    simp only [Function.iterate_zero, Function.iterate_one, id] at hup hdown
    have hlast : (if 0 < 1 then ((init.concat c).map Prod.snd).reverse.getD (1 - 0 - 1) [] else []) = c.2 := by
      simp
    rw [hlast] at hup
    rw [if_neg (lt_irrefl 1)] at hdown
    have hc : c.2.length ≤ 126 := (h.printable c (by simp)).2.1
    have hcount : (s.pressUp below).displayed.cmdCount = 1 := by
      rw [Tty.pressUp_displayed]
      exact Handler.keyUp_count h.count
    -- what DOWN does to the cursor and the index of the line that UP left
    obtain ⟨hcol, hidx⟩ := @Handler.keyDown_counts ⟨(s.pressUp below).displayed, []⟩
      (below (s.pressUp below).curTerminal) hup.cursor.1 hcount
    have hrow := @Handler.rowScan_le ((s.pressUp below).displayed.cmdHist 0) 127 0
    rw [← Tty.pressDown_displayed] at hcol hidx
    simp only at hcol hidx
    rw [hdown.index, hup.index, List.length_nil] at hidx
    obtain ⟨rows, hpos, _⟩ := hup.screen
    obtain ⟨rows', hpos', _⟩ := hdown.screen
    rw [List.length_nil] at hpos'
    rw [Handler.rowLen] at hcol hidx
    -- by the index row 0 is one longer than the command, by the column it is as long
    omega
  · rintro rfl j hj1 hj
    simp at hj
    omega

/-- The command `ls` recorded on terminals that are otherwise blank. -/
def lsTty : Tty := .keyboardInstall fun _ => { Terminal.blank with cmdHist := (lsCommand.pushHist fun _ _ => 0).1 }

/-- The terminal after `ls`. -/
lemma lsTty_recorded : Recorded lsTty.displayed [(lsCommand, [108, 115])] where
  spells := by
    intro c hc
    cases List.mem_singleton.mp hc
    exact ⟨lsCommand_spells, fun i _ => ⟨_, rfl⟩⟩
  printable := by
    intro c hc
    cases List.mem_singleton.mp hc
    simp
  hist := ⟨fun _ _ => 0, rfl⟩
  line := rfl
  count := rfl
  cursor := by decide

/-- After one command, recall does not work. -/
theorem recall_works_iff_ls : RecallWorks (fun _ _ => 0) lsTty [[108, 115]] ↔
    [(lsCommand, ([108, 115] : List UInt8))] = [] :=
  recall_works_iff _ lsTty [(lsCommand, [108, 115])] lsTty_recorded

/-- One UP puts `ls` into the line and counts three characters. -/
theorem recall_ls_counts_three : Recorded lsTty.displayed [(lsCommand, [108, 115])] ∧
    (lsTty.pressUp fun _ _ => 0).displayed.lineBufferIndex = 3 ∧
    ¬ RecallWorks (fun _ _ => 0) lsTty [[108, 115]] := by
  have hindex : (lsTty.pressUp fun _ _ => 0).displayed.lineBufferIndex = 3 := by decide +kernel
  refine ⟨lsTty_recorded, hindex, fun hworks => ?_⟩
  have hup := (hworks 1 le_rfl (by decide) 0 (by decide)).index
  have hlen : ([108, 115] : List UInt8).length = 3 := hup.symm.trans hindex
  exact absurd hlen (by decide)

end Boss
