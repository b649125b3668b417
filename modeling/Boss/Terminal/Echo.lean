import Boss.Terminal.Layout
import Boss.Terminal.Recall

/-!
# Echo and output

A typed character goes to the screen twice over: `key_irq_handler` echoes it with `term_putc` and a line break by code
of its own, and a program that writes the same text uses `terminal_write`. The two agree on line breaks wherever the
cursor is. They do not agree on characters: when the echo has brought the cursor into the last cell
of the screen, the handler scrolls once more, and the row that is being typed moves up with the rest while the cursor
stays. `KeepsBlank` is the case in which nobody sees it, for want of anything on the screen.

The cursor is any pair of 32-bit words here, since UP and DOWN can take it off the screen (`keepsBlank_iff` says what
the condition is where it is on the screen).
-/

namespace Boss
open Lib

namespace Terminal
variable {T U V : Terminal} {c : UInt8} {j : Nat}

/-! ### Screens -/

/-- The same characters on the screen and the cursor in the same place. -/
structure SameScreen (T U : Terminal) : Prop where
  chars : ∀ j < 2000, T.screen (2 * j) = U.screen (2 * j)
  col : T.cX = U.cX
  row : T.cY = U.cY

namespace SameScreen

/-- A screen is the same as itself. -/
lemma refl (T : Terminal) : SameScreen T T := ⟨fun _ _ => rfl, rfl, rfl⟩

/-- The relation has no direction. -/
lemma symm (h : SameScreen T U) : SameScreen U T := ⟨fun j hj => (h.chars j hj).symm, h.col.symm, h.row.symm⟩

/-- The relation is transitive. -/
lemma trans (h : SameScreen T U) (h' : SameScreen U V) : SameScreen T V :=
  ⟨fun j hj => (h.chars j hj).trans (h'.chars j hj), h.col.trans h'.col, h.row.trans h'.row⟩

/-- Scrolled, they are still the same. -/
lemma termScroll (h : SameScreen T U) : SameScreen T.termScroll U.termScroll where
  chars j hj := by
    rw [termScroll_char hj, termScroll_char hj]
    split
    · exact h.chars _ (by omega)
    · rfl
  col := h.col
  row := h.row

/-- Up to the scrolling, `term_putc` does the same. -/
lemma putcMoved (h : SameScreen T U) : SameScreen (T.putcMoved c) (U.putcMoved c) := by
  unfold Terminal.putcMoved
  split
  · exact ⟨h.chars, rfl, congrArg inc32 h.row⟩
  · simp only [h.col, h.row]
    refine ⟨fun j hj => ?_, rfl, rfl⟩
    simp only [cell_char, h.chars j hj]

/-- `term_putc` does the same. -/
lemma termPutc (h : SameScreen T U) : SameScreen (T.termPutc c) (U.termPutc c) := by
  have hmoved := h.putcMoved (c := c)
  rw [termPutc_eq, termPutc_eq, hmoved.row]
  split
  · exact SameScreen.termScroll ⟨hmoved.chars, hmoved.col, rfl⟩
  · exact hmoved

/-- A new row does the same. -/
lemma newRow (h : SameScreen T U) : SameScreen T.newRow U.newRow := by
  unfold Terminal.newRow
  rw [h.row]
  split
  · exact ⟨h.termScroll.chars, rfl, rfl⟩
  · exact ⟨h.chars, rfl, rfl⟩

/-- The extra scrolling does the same. -/
lemma scrollCorner (h : SameScreen T U) : SameScreen T.scrollCorner U.scrollCorner := by
  unfold Terminal.scrollCorner
  rw [h.col, h.row]
  split
  · exact h.termScroll
  · exact h

end SameScreen

/-! ### The last cell -/

/-- The column after one more character. -/
def nextCol (T : Terminal) : Nat := inc32 T.cX % 80

/-- The row after one more character; 25 is below the screen. -/
def nextRow (T : Terminal) : Nat := (T.cY + inc32 T.cX / 80) % 0x100000000

/-- The screen with a character at the cursor. -/
def withChar (c : UInt8) (T : Terminal) : Mem := cell T.screen ((80 * T.cY + T.cX) % 0x100000000) c

/-- If the character brings the cursor into the last cell, the screen is blank with it. -/
def KeepsBlank (c : UInt8) (T : Terminal) : Prop :=
  T.nextCol = 79 → (T.nextRow = 24 → ∀ j < 2000, T.withChar c (2 * j) = 32) ∧
    (T.nextRow = 25 → ∀ j < 1920, T.withChar c (2 * (j + 80)) = 32)

/-- `KeepsBlank` for a cursor on the screen. -/
lemma keepsBlank_iff (hT : T.OnScreen) : T.KeepsBlank c ↔
    (T.cX = 78 ∧ T.cY = 24 → c = 32 ∧ ∀ j < 2000, j ≠ 1998 → T.screen (2 * j) = 32) := by
  obtain ⟨hx, hy⟩ := hT
  have hinc : inc32 T.cX = T.cX + 1 := inc32_of_lt (by omega)
  have hcell : T.cX = 78 ∧ T.cY = 24 → (80 * T.cY + T.cX) % 0x100000000 = 1998 := by omega
  simp only [KeepsBlank, nextCol, nextRow, withChar, hinc, cell_char]
  constructor
  · rintro h ⟨hcol, hrow⟩
    have hblank := (h (by omega)).1 (by omega)
    simp only [hcell ⟨hcol, hrow⟩] at hblank
    refine ⟨hblank 1998 (by omega), fun j hj hne => ?_⟩
    have hj' := hblank j hj
    rwa [if_neg (by omega)] at hj'
  · intro h hcol
    refine ⟨fun hrow j hj => ?_, fun hrow => by omega⟩
    have hcorner : T.cX = 78 ∧ T.cY = 24 := by omega
    obtain ⟨hc, hblank⟩ := h hcorner
    rw [hcell hcorner]
    split
    · exact hc
    · exact hblank j hj (by omega)

/-- A scroll changes nothing on a blank screen, and on no other. -/
lemma termScroll_same_iff : SameScreen T.termScroll T ↔ ∀ j < 2000, T.screen (2 * j) = 32 := by
  constructor
  · intro h
    -- the last row is blank, and every row is the one below it
    have hrows : ∀ r ≤ 24, ∀ x < 80, T.screen (2 * (80 * (24 - r) + x)) = 32 := by
      intro r
      induction r with
      | zero =>
        intro _ x hx
        rw [← h.chars _ (by omega), termScroll_char (by omega), if_neg (by omega)]
      | succ r ih =>
        intro hr x hx
        have hbelow : 80 * (24 - (r + 1)) + x + 80 = 80 * (24 - r) + x := by omega
        rw [← h.chars _ (by omega), termScroll_char (by omega), if_pos (by omega), hbelow]
        exact ih (by omega) x hx
    intro j hj
    have hcell : 80 * (24 - (24 - j / 80)) + j % 80 = j := by omega
    have hj' := hrows (24 - j / 80) (by omega) (j % 80) (by omega)
    rwa [hcell] at hj'
  · intro h
    refine ⟨fun j hj => ?_, rfl, rfl⟩
    rw [termScroll_char hj, h j hj]
    split
    · exact h _ (by omega)
    · rfl

/-- The extra scrolling is seen, unless the screen is blank or the cursor is not in the corner. -/
lemma scrollCorner_same_iff :
    SameScreen T.scrollCorner T ↔ (T.cX = 79 ∧ T.cY = 24 → ∀ j < 2000, T.screen (2 * j) = 32) := by
  unfold scrollCorner
  split
  · next hcorner => rw [termScroll_same_iff, forall_prop_of_true hcorner]
  · next hcorner => exact ⟨fun _ h => absurd h hcorner, fun _ => .refl T⟩

/-- What an echoed character leaves where the handler looks for the last cell. -/
lemma scrollCorner_termPutc_iff (hc : ¬ (c = 10 ∨ c = 13)) :
    SameScreen (T.termPutc c).scrollCorner (T.termPutc c) ↔ T.KeepsBlank c := by
  have hmoved : T.putcMoved c = { T with screen := T.withChar c, cY := T.nextRow, cX := T.nextCol } := by
    rw [putcMoved, if_neg hc]
    rfl
  have hdec : dec32 25 = 24 := rfl
  rw [scrollCorner_same_iff, termPutc_eq, hmoved, KeepsBlank]
  by_cases hbelow : T.nextRow = 25
  · simp only [hbelow, if_true, hdec]
    have hchars : (∀ j < 2000,
        (termScroll { T with screen := T.withChar c, cY := 24, cX := T.nextCol }).screen (2 * j) = 32) ↔
          ∀ j < 1920, T.withChar c (2 * (j + 80)) = 32 := by
      constructor
      · intro h j hj
        have hj' := h j (by omega)
        rwa [termScroll_char (by omega), if_pos hj] at hj'
      · intro h j hj
        rw [termScroll_char hj]
        split
        · next hj' => exact h j hj'
        · rfl
    constructor
    · intro h hcol
      exact ⟨fun hrow => absurd hrow (by decide), fun _ => hchars.mp (h ⟨hcol, rfl⟩)⟩
    · intro h hcorner
      exact hchars.mpr ((h hcorner.1).2 trivial)
  · simp only [if_neg hbelow]
    constructor
    · intro h hcol
      exact ⟨fun hrow => h ⟨hcol, hrow⟩, fun hrow => absurd hrow hbelow⟩
    · intro h hcorner
      exact (h hcorner.1).1 hcorner.2

end Terminal

/-! ### Typing -/

/-- The driver, and what has been typed so far. -/
structure Echo where
  tty : Tty
  text : List UInt8

namespace Tty
variable {s : Tty} {below : TermId → Mem} {data : UInt8}

/-- The characters that a byte from the keyboard types; Enter is a line feed. -/
def typed (s : Tty) (data : UInt8) : List UInt8 :=
  match s.branch data with
  | .enter => [10]
  | .char c => [c]
  | _ => []

/-- Enter, a key with a printable character while there is room on the line, or a modifier key, pressed or
released. -/
def Types (s : Tty) (data : UInt8) : Prop :=
  data ∉ ([0x48, 0x50] : List UInt8) ∧ ¬ (s.alt = true ∧ data ∈ ([0x3B, 0x3C, 0x3D] : List UInt8)) ∧
    match s.branch data with
    | .enter | .quiet => True
    | .char c => 32 ≤ c ∧ c < 127 ∧ s.displayed.lineBufferIndex < maxBufIndex
    | .backspace | .reset => False

/-- The displayed terminal after a text has been written to it. -/
def afterWrite (s : Tty) (text : List UInt8) : Terminal :=
  (s.terminalWrite s.curTerminal (some fun i => text.getD i 0) text.length).1.displayed

/-- `terminal_write` of a text without a zero byte shows all of it. -/
lemma afterWrite_eq {text : List UInt8} (hnul : 0 ∉ text) : s.afterWrite text = s.displayed.putText text := by
  rw [afterWrite, terminalWrite_eq (by rwa [Mem.bytes_getD]), Mem.bytes_getD]
  exact Function.update_self ..

/-- Both ways of a test keep the displayed terminal. -/
lemma cur_ite {p : Prop} [Decidable p] {r r' : Tty × List Event} (h : p → r.1.curTerminal = s.curTerminal)
    (h' : r'.1.curTerminal = s.curTerminal) : (if p then r else r').1.curTerminal = s.curTerminal := by
  split
  · next hp => exact h hp
  · exact h'

/-- Without alt and a function key the same terminal stays displayed. -/
lemma keyPressed_cur (h : ¬ (s.alt = true ∧ data ∈ ([0x3B, 0x3C, 0x3D] : List UInt8))) :
    (s.keyPressed below data).1.curTerminal = s.curTerminal := by
  have hswitch : ∀ k ∈ ([0x3B, 0x3C, 0x3D] : List UInt8), ¬ (s.alt = true ∧ data = k) := by
    rintro k hk ⟨halt, rfl⟩
    exact h ⟨halt, hk⟩
  unfold keyPressed
  -- the modifier and lock keys, then the keys that change the terminal, then the switches
  refine cur_ite (fun _ => rfl) (cur_ite (fun _ => rfl) (cur_ite (fun _ => rfl) (cur_ite (fun _ => rfl) ?_)))
  refine cur_ite (fun _ => rfl) (cur_ite (fun _ => rfl) (cur_ite (fun _ => rfl) ?_))
  refine cur_ite (fun _ => rfl) (cur_ite (fun _ => rfl) (cur_ite (fun _ => rfl) (cur_ite (fun _ => rfl) ?_)))
  refine cur_ite (fun _ => rfl) (cur_ite (fun hp => absurd hp (hswitch 0x3B (by simp))) ?_)
  refine cur_ite (fun hp => absurd hp (hswitch 0x3C (by simp))) ?_
  exact cur_ite (fun hp => absurd hp (hswitch 0x3D (by simp))) rfl

/-- Only ALT and a function key change the displayed terminal. -/
lemma keyIrqHandler_cur (h : ¬ (s.alt = true ∧ data ∈ ([0x3B, 0x3C, 0x3D] : List UInt8))) :
    (s.keyIrqHandler below data).1.curTerminal = s.curTerminal := by
  unfold keyIrqHandler
  split
  · next hmake =>
    rw [scancode_of_make hmake]
    exact keyPressed_cur h
  · exact keyReleased_frame.2

/-- The displayed terminal after a key that types. -/
lemma keyIrqHandler_displayed (h : s.Types data) :
    (s.keyIrqHandler below data).1.displayed = ((s.branch data).handler ⟨s.displayed, []⟩).term := by
  have htakes := @keyIrqHandler_branch s below data (fun e => h.1 (by simp [e])) fun e => h.1 (by simp [e])
  rw [displayed, keyIrqHandler_cur h.2.1, htakes, Function.update_self]
  rfl

end Tty

namespace Handler
variable {T : Terminal} {c : UInt8}

/-- What ENTER does to the screen. -/
lemma keyEnter_screen : (keyEnter ⟨T, []⟩).term.SameScreen T.newRow := by
  have hline : (((setCount ⟨T, []⟩ 0).putLine T.lineBufferIndex 10).setTyping false).term.SameScreen T :=
    ⟨fun _ _ => rfl, rfl, rfl⟩
  exact hline.newRow

/-- The index of the line is not seen. -/
lemma setIndex_screen {h : Handler} {v : Nat} : (h.setIndex v).term.SameScreen h.term := ⟨fun _ _ => rfl, rfl, rfl⟩

/-- What a character does to the screen. -/
lemma keyChar_screen (hroom : T.lineBufferIndex < maxBufIndex) :
    (keyChar c ⟨T, []⟩).term.SameScreen (T.termPutc c).scrollCorner := by
  have hline : (putLine ⟨T, []⟩ T.lineBufferIndex c).term.SameScreen T := ⟨fun _ _ => rfl, rfl, rfl⟩
  rw [keyChar, if_pos hroom]
  exact setIndex_screen.trans hline.termPutc.scrollCorner

end Handler

/-- Keys, one after another. -/
def echoSystem (below : TermId → Mem) : System Echo UInt8 where
  step e data := some ⟨(e.tty.keyIrqHandler below data).1, e.text ++ e.tty.typed data⟩

/-- The screen and the cursor are as if the text had been written, from `s` on, and not typed. -/
def EchoAgrees (s : Tty) (e : Echo) : Prop := e.tty.displayed.SameScreen (s.afterWrite e.text)

/-- No character is echoed into the last cell but one of the last row, unless the screen is blank with it. -/
def Echo.OffCorner (e : Echo) (data : UInt8) : Prop :=
  match e.tty.branch data with
  | .char c => e.tty.displayed.KeepsBlank c
  | _ => True

/-- What typing keeps. -/
structure Echo.Inv (s : Tty) (e : Echo) : Prop where
  cur : e.tty.curTerminal = s.curTerminal
  nul : 0 ∉ e.text
  row : e.tty.displayed.cY < 0x100000000

/-- The row stays a number of 32 bits. -/
lemma Terminal.termPutc_row {T : Terminal} {c : UInt8} : (T.termPutc c).cY < 0x100000000 := by
  have hmoved : (T.putcMoved c).cY < 0x100000000 := by
    unfold putcMoved inc32
    split
    · exact Nat.mod_lt _ (by decide)
    · exact Nat.mod_lt _ (by decide)
  rw [termPutc_eq]
  split
  · exact Nat.mod_lt _ (by decide)
  · exact hmoved

/-- A new row stays a number of 32 bits. -/
lemma Terminal.newRow_row {T : Terminal} (hT : T.cY < 0x100000000) : T.newRow.cY < 0x100000000 := by
  rw [← termPutc_newRow (c := 10) hT (Or.inl rfl)]
  exact termPutc_row

/-- One more character of a text. -/
lemma Terminal.putText_snoc {T : Terminal} {text : List UInt8} {c : UInt8} :
    T.putText (text ++ [c]) = (T.putText text).termPutc c := List.foldl_append

/-- One key: the echo agrees after it if and only if it stays off the corner. -/
lemma Echo.Inv.step {s : Tty} {e e' : Echo} {below : TermId → Mem} {data : UInt8} (h : e.Inv s) (hP : EchoAgrees s e)
    (hdata : e.tty.Types data) (hst : (echoSystem below).step e data = some e') :
    e'.Inv s ∧ (EchoAgrees s e' ↔ e.OffCorner data) := by
  have hcur : (e.tty.keyIrqHandler below data).1.curTerminal = s.curTerminal :=
    (Tty.keyIrqHandler_cur hdata.2.1).trans h.cur
  have hshown := @Tty.keyIrqHandler_displayed _ below _ hdata
  have htypes := hdata.2.2
  have hrow := h.row
  cases hst
  rw [EchoAgrees, Tty.afterWrite_eq h.nul] at hP
  unfold EchoAgrees Echo.OffCorner Tty.typed
  cases hb : e.tty.branch data with
  | quiet =>
    rw [hb] at hshown
    simp only [List.append_nil, iff_true, hshown]
    rw [Tty.afterWrite_eq h.nul]
    exact ⟨⟨hcur, h.nul, by rwa [hshown]⟩, hP⟩
  | enter =>
    have hnul : 0 ∉ e.text ++ [10] := by simp [h.nul]
    have hecho := Handler.keyEnter_screen (T := e.tty.displayed)
    rw [hb] at hshown
    simp only [iff_true, hshown]
    rw [Tty.afterWrite_eq hnul, Terminal.putText_snoc]
    refine ⟨⟨hcur, hnul, ?_⟩, hecho.trans ?_⟩
    · rw [hshown]
      exact hecho.row.trans_lt (Terminal.newRow_row hrow)
    · rw [← Terminal.termPutc_newRow (c := 10) hrow (Or.inl rfl)]
      exact hP.termPutc
  | char c =>
    rw [hb] at hshown htypes
    obtain ⟨hlow, hhigh, hroom⟩ := htypes
    have hnl : ¬ (c = 10 ∨ c = 13) := by
      rintro (rfl | rfl)
      · exact absurd hlow (by decide)
      · exact absurd hlow (by decide)
    have hnul : 0 ∉ e.text ++ [c] := by
      rintro hmem
      rcases List.mem_append.mp hmem with hmem | hmem
      · exact h.nul hmem
      · cases List.mem_singleton.mp hmem
        exact absurd hlow (by decide)
    have hecho := Handler.keyChar_screen (c := c) hroom
    simp only [hshown]
    rw [Tty.afterWrite_eq hnul, Terminal.putText_snoc, ← Terminal.scrollCorner_termPutc_iff hnl]
    refine ⟨⟨hcur, hnul, ?_⟩, fun hagree => ?_, fun hcorner => ?_⟩
    · rw [hshown]
      exact hecho.row.trans_lt (Terminal.scrollCorner_cursor.2.trans_lt Terminal.termPutc_row)
    · exact hecho.symm.trans (hagree.trans hP.termPutc.symm)
    · exact hecho.trans (hcorner.trans hP.termPutc)
  | backspace =>
    rw [hb] at htypes
    exact htypes.elim
  | reset =>
    rw [hb] at htypes
    exact htypes.elim

/-- However printable keys, Enter and modifier keys are pressed, from any screen and any cursor: the screen and
the cursor are after every key what they would be had the text been written, if and only if no character is echoed
into the corner of a screen that is not blank. -/
theorem echo_agrees_iff (below : TermId → Mem) (s : Tty) (hcursor : s.displayed.cY < 0x100000000)
    (keys : List UInt8) (hkeys : (echoSystem below).Guarded (fun e data => e.tty.Types data) ⟨s, []⟩ keys) :
    (echoSystem below).Always (EchoAgrees s) ⟨s, []⟩ keys ↔
      (echoSystem below).Guarded Echo.OffCorner ⟨s, []⟩ keys := by
  have hinv : Echo.Inv s ⟨s, []⟩ := ⟨rfl, List.not_mem_nil, hcursor⟩
  have hstart : EchoAgrees s ⟨s, []⟩ := by
    rw [EchoAgrees, Tty.afterWrite_eq List.not_mem_nil]
    exact .refl _
  obtain ⟨t, hrun, _⟩ := System.guarded_total (S := echoSystem below) (I := fun _ => True) (G := fun _ _ => True)
    (fun _ _ _ _ => ⟨_, rfl, trivial⟩) trivial (@System.guarded_true _ _ _ ⟨s, []⟩ keys)
  refine System.always_iff_guarded_on (I := Echo.Inv s) ?_ ?_ hinv hstart hkeys hrun
  · intro e data e' he hP hdata hoff hst
    obtain ⟨hinv', hiff⟩ := he.step hP hdata hst
    exact ⟨hinv', hiff.mpr hoff⟩
  · intro e data e' he hP hdata hoff hst hagree
    exact hoff ((he.step hP hdata hst).2.mp hagree)

/-- After `keyboard_install`, with blank screens. -/
def clearTty : Tty := .keyboardInstall fun _ => { Terminal.blank with screen := fun _ => 32 }

/-- The key of `a`. -/
lemma branch_a {s : Tty} (hctrl : s.ctrl = false) (halt : s.alt = false)
    (hchar : s.keyboardCharacter 0x1E = 97) : s.branch 0x1E = .char 97 := by
  have hcode : (0x1E : UInt8) &&& 0x7F = 0x1E := by decide
  rw [Tty.branch, if_pos (by decide), Tty.pressBranch, hcode, hchar]
  simp [hctrl, halt]

/-- The key of `a`, where there is room in the line. -/
lemma types_a {s : Tty} (halt : s.alt = false) (hb : s.branch 0x1E = .char 97)
    (hroom : s.displayed.lineBufferIndex < maxBufIndex) : s.Types 0x1E := by
  refine ⟨by decide, fun h => ?_, ?_⟩
  · rw [halt] at h
    exact Bool.false_ne_true h.1
  · rw [hb]
    exact ⟨by decide, by decide, hroom⟩

/-- An `a` on a blank screen. -/
theorem echo_agrees_iff_a :
    (echoSystem fun _ _ => 0).Always (EchoAgrees clearTty) ⟨clearTty, []⟩ [0x1E] := by
  have hb : clearTty.branch 0x1E = .char 97 := branch_a rfl rfl rfl
  refine (echo_agrees_iff (fun _ _ => 0) clearTty (by decide) [0x1E] ⟨types_a rfl hb (by decide), ?_⟩).mpr ⟨?_, ?_⟩
  · exact fun _ _ => trivial
  · rw [Echo.OffCorner, hb]
    exact (Terminal.keepsBlank_iff ⟨by decide, by decide⟩).mpr fun h => absurd h.1 (by decide)
  · exact fun _ _ => trivial

/-- Twenty-four line breaks and 78 letters. -/
def cornerText : List UInt8 := List.replicate 24 10 ++ List.replicate 78 120

/-- The driver after a program has written them. -/
def cornerTty : Tty := (clearTty.terminalWrite 0 (some fun i => cornerText.getD i 0) cornerText.length).1

/-- Output leaves the line alone. -/
lemma Terminal.putText_index {T : Terminal} {text : List UInt8} :
    (T.putText text).lineBufferIndex = T.lineBufferIndex := by
  induction text generalizing T with
  | nil => rfl
  | cons c text ih => exact (ih (T := T.termPutc c)).trans termPutc_input.index

/-- The screen that the text leaves. -/
lemma cornerTty_displayed : cornerTty.displayed = clearTty.displayed.putText cornerText :=
  clearTty.afterWrite_eq (by decide)

/-- The text is on the screen, with the cursor in the corner. -/
lemma cornerTty_shows : cornerTty.displayed.ShowsText cornerText := by
  have hclear : clearTty.displayed.ShowsText [] := by
    refine ⟨⟨fun y hy x hx => ?_, rfl⟩, rfl⟩
    rw [Terminal.layout_nil_shown]
    rfl
  rw [cornerTty_displayed]
  exact hclear.putText

/-- A letter typed behind them scrolls the screen. -/
theorem echo_scrolls_corner : (cornerTty.displayed.cX = 78 ∧ cornerTty.displayed.cY = 24) ∧
    cornerTty.Types 0x1E ∧
      ¬ (echoSystem fun _ _ => 0).Always (EchoAgrees cornerTty) ⟨cornerTty, []⟩ [0x1E] := by
  obtain ⟨⟨_, hrow⟩, hcol⟩ := cornerTty_shows
  have hlen : (Terminal.layout cornerText).length = 25 := by decide
  have hlast : (Terminal.layout cornerText).getLast?.map List.length = some 78 := by decide
  rw [hlen] at hrow
  rw [hlast, Option.some.injEq] at hcol
  have hcursor : cornerTty.displayed.cX = 78 ∧ cornerTty.displayed.cY = 24 := by omega
  have hb : cornerTty.branch 0x1E = .char 97 := branch_a rfl rfl rfl
  have hindex : cornerTty.displayed.lineBufferIndex < maxBufIndex := by
    rw [cornerTty_displayed, Terminal.putText_index]
    decide
  have htypes := types_a (s := cornerTty) rfl hb hindex
  refine ⟨hcursor, htypes, fun halways => ?_⟩
  have hagree := (halways.2 _ rfl).head
  have hscreen : cornerTty.displayed.OnScreen := ⟨by omega, by omega⟩
  have hinv : Echo.Inv cornerTty ⟨cornerTty, []⟩ := ⟨rfl, List.not_mem_nil, hscreen.2.trans (by decide)⟩
  have hoff := (hinv.step halways.1 htypes rfl).2.mp hagree
  rw [Echo.OffCorner, hb] at hoff
  have hblank := (Terminal.keepsBlank_iff hscreen).mp hoff hcursor
  exact absurd hblank.1 (by decide)

end Boss
