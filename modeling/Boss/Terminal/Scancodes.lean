import Boss.Terminal.Editing
import Boss.Terminal.Room

/-!
# Scan codes

The keyboard sends one byte when a key goes down and another one when it comes up again. `key_irq_handler` keeps what it
needs of the past in flags, and it has four tables for the characters, one for each state of the shift and caps lock keys.

This module reads the bytes without flags and tables. Which keys are held and whether caps lock is on is said by the bytes
so far, and the characters are those printed on the keys of a US keyboard.

* `keyboard_decodes`: after any bytes with UP and DOWN only where they have room, the terminals and the choice of the
  displayed one are what these strokes make of them.
* `typed_text_read`: the way back. There are bytes for every text of printable characters, and a process that reads the
  line gets the text.
-/

namespace Boss
open Lib

/-! ### The keys that modify others -/

/-- A key is held if the last byte that it sent is that of the press. -/
def held (key : UInt8) (bytes : List UInt8) : Bool :=
  (bytes.filter fun b => b = key ∨ b = key + 0x80).getLast? = some key

/-- The states that change what another key means. -/
@[ext] structure Modifiers where
  leftShift : Bool
  rightShift : Bool
  alt : Bool
  ctrl : Bool
  caps : Bool

namespace Modifiers

/-- One of the shift keys is held. -/
def shift (m : Modifiers) : Bool := m.leftShift || m.rightShift

/-- The states after some bytes. -/
def after (bytes : List UInt8) : Modifiers where
  leftShift := held 0x2a bytes
  rightShift := held 0x36 bytes
  alt := held 0x38 bytes
  ctrl := held 0x1D bytes
  caps := bytes.count 0x3a % 2 = 1

end Modifiers

/-! ### The layout -/

/-- What is printed on a key. -/
inductive KeyCap
  /-- A letter, here the small one. -/
  | letter (c : UInt8)
  /-- A character and the one with shift. -/
  | pair (c shifted : UInt8)
  | fixed (c : UInt8)
  | blank
  deriving DecidableEq

/-- The character of a key; caps lock is for letters only, where shift takes it back. -/
def KeyCap.char (shift caps : Bool) : KeyCap → UInt8
  | letter c => if shift != caps then c - 32 else c
  | pair c shifted => if shift then shifted else c
  | fixed c => c
  | blank => 0

/-- Letter keys. -/
def letterCaps (cs : List UInt8) : List KeyCap := cs.map .letter

/-- Keys with the characters of a string on them, two on each key. -/
def pairCaps : List UInt8 → List KeyCap
  | c :: shifted :: cs => .pair c shifted :: pairCaps cs
  | _ => []

/-- Keys without a character. -/
def blankCaps (n : Nat) : List KeyCap := List.replicate n .blank

/-- The US layout, in the order of the make codes. -/
def usLayout : List KeyCap :=
  [blankCaps 2, pairCaps (keyRow "1!2@3#4$5%6^7&8*9(0)-_=+"),
    blankCaps 2, letterCaps (keyRow "qwertyuiop"), pairCaps (keyRow "[\x7b]\x7d"),
    blankCaps 2, letterCaps (keyRow "asdfghjkl"), pairCaps (keyRow ";:'\"\x60~"),
    blankCaps 1, pairCaps (keyRow "\\|"), letterCaps (keyRow "zxcvbnm"), pairCaps (keyRow ",<.>/?"),
    blankCaps 1, [.fixed 42], blankCaps 1, [.fixed 32],
    -- minus and plus of the number pad
    blankCaps 16, [.fixed 45], blankCaps 3, [.fixed 43]].flatten

/-- The key with a make code. -/
def usCap (code : UInt8) : KeyCap := usLayout.getD code.toNat .blank

/-! ### Strokes -/

/-- What one byte from the keyboard asks for. -/
inductive Stroke
  | silent
  | enter
  | backspace
  | up (below : TermId → Mem)
  | down (below : TermId → Mem)
  | clear
  | switch (t : TermId)
  | char (c : UInt8)

/-- The meaning of a press. -/
def Stroke.press (m : Modifiers) (k : Press) : Stroke :=
  if k.data ∈ modifierCodes then .silent
  else if k.data = 0x1C then .enter
  else if k.data = 0x0E then .backspace
  else if k.data = 0x48 then .up k.below
  else if k.data = 0x50 then .down k.below
  -- control and the key of the letter l
  else if m.ctrl ∧ k.data = 0x26 then .clear
  else if m.alt ∧ k.data = 0x3B then .switch 0
  else if m.alt ∧ k.data = 0x3C then .switch 1
  else if m.alt ∧ k.data = 0x3D then .switch 2
  else .char ((usCap k.data).char m.shift m.caps)

/-- The meaning of a byte after others. -/
def Stroke.of (bytes : List UInt8) (k : Press) : Stroke :=
  if 0x80 ≤ k.data then .silent else .press (.after bytes) k

/-- The strokes of bytes that follow others. -/
def strokes (before : List UInt8) : List Press → List Stroke
  | [] => []
  | k :: ks => .of before k :: strokes (before ++ [k.data]) ks

/-- The terminals and the displayed one. -/
structure Desk where
  shown : TermId
  terminals : TermId → Terminal

/-- Let the displayed terminal go through a branch. -/
def Desk.onShown (d : Desk) (f : Handler → Handler) : Desk :=
  { d with terminals := Function.update d.terminals d.shown (f ⟨d.terminals d.shown, []⟩).term }

/-- What a stroke asks for. -/
def Desk.perform (d : Desk) : Stroke → Desk
  | .silent => d
  | .enter => d.onShown .keyEnter
  | .backspace => d.onShown .keyBackspace
  | .up below => d.onShown (.keyUp (below d.shown))
  | .down below => d.onShown (.keyDown (below d.shown))
  | .clear => d.onShown .keyReset
  | .switch t => { d with shown := t }
  | .char c => d.onShown (.keyChar c)

/-- The terminals of the driver. -/
def Tty.desk (s : Tty) : Desk := ⟨s.curTerminal, s.terminals⟩

/-! ### The flags -/

/-- One byte for the flag of a key. -/
def flagStep (key b : UInt8) (flag : Bool) : Bool := if b = key then true else if b = key + 0x80 then false else flag

/-- A byte for the key of a flag. -/
lemma held_snoc {key b : UInt8} {bytes : List UInt8} (h : key + 0x80 ≠ key) :
    held key (bytes ++ [b]) = flagStep key b (held key bytes) := by
  unfold flagStep
  split
  · next hpress => simp [held, List.filter_append, hpress]
  · next hpress =>
    split
    · next hrelease => simp [held, List.filter_append, hrelease, h]
    · next hrelease => simp [held, List.filter_append, hpress, hrelease]

/-- Every press of caps lock turns it over. -/
lemma caps_snoc {b : UInt8} {bytes : List UInt8} : decide ((bytes ++ [b]).count 0x3a % 2 = 1) =
    if b = 0x3a then !decide (bytes.count 0x3a % 2 = 1) else decide (bytes.count 0x3a % 2 = 1) := by
  rw [List.count_append, List.count_singleton]
  by_cases hb : b = 0x3a
  · rw [if_pos hb, if_pos (beq_iff_eq.mpr hb), ← decide_not, decide_eq_decide]
    omega
  · rw [if_neg hb, if_neg (by simpa using hb), Nat.add_zero]

/-- One byte for all of the flags. -/
def Modifiers.step (m : Modifiers) (b : UInt8) : Modifiers where
  leftShift := flagStep 0x2a b m.leftShift
  rightShift := flagStep 0x36 b m.rightShift
  alt := flagStep 0x38 b m.alt
  ctrl := flagStep 0x1D b m.ctrl
  caps := if b = 0x3a then !m.caps else m.caps

/-- The states follow the bytes one by one. -/
lemma Modifiers.after_snoc {bytes : List UInt8} {b : UInt8} : after (bytes ++ [b]) = (after bytes).step b := by
  apply Modifiers.ext
  · exact held_snoc (by decide)
  · exact held_snoc (by decide)
  · exact held_snoc (by decide)
  · exact held_snoc (by decide)
  · exact caps_snoc

namespace Tty
variable {s : Tty} {below : TermId → Mem} {b : UInt8} {bytes : List UInt8} {k : Press}

/-- The flags of the driver. -/
def modifiers (s : Tty) : Modifiers := ⟨s.leftShift, s.rightShift, s.alt, s.ctrl, s.capslock⟩

/-- The bytes that change a flag. -/
def flagBytes : List UInt8 := [0x2a, 0xAA, 0x36, 0xB6, 0x38, 0xB8, 0x1D, 0x9D, 0x3a]

/-- No other byte changes one. -/
lemma step_of_notMem {m : Modifiers} (hb : b ∉ flagBytes) : m.step b = m := by
  simp only [flagBytes, List.mem_cons, List.not_mem_nil, or_false, not_or] at hb
  obtain ⟨h1, h2, h3, h4, h5, h6, h7, h8, h9⟩ := hb
  have hflag {key flag} (hpress : b ≠ key) (hrelease : b ≠ key + 0x80) : flagStep key b flag = flag := by
    rw [flagStep, if_neg hpress, if_neg hrelease]
  apply Modifiers.ext
  · exact hflag h1 h2
  · exact hflag h3 h4
  · exact hflag h5 h6
  · exact hflag h7 h8
  · exact if_neg h9

/-- Only the bytes of the modifiers change the flags. -/
lemma keyPressed_modifiers (hb : b ∉ flagBytes) : (s.keyPressed below b).1.modifiers = s.modifiers := by
  simp only [flagBytes, List.mem_cons, List.not_mem_nil, or_false, not_or] at hb
  obtain ⟨h1, -, h3, -, h5, -, h7, -, h9⟩ := hb
  unfold keyPressed
  simp only [if_neg h1, if_neg h3, if_neg h5, if_neg h7, if_neg h9, apply_ite Prod.fst, apply_ite modifiers]
  simp only [modifiers, onCur, setTerminal, ite_self]

/-- A break code is the make code with the high bit. -/
lemma break_eq (hbreak : b &&& 0x80 ≠ 0) : b = (b &&& 0x7F) + 0x80 :=
  byte_cases (P := fun b => b &&& 0x80 ≠ 0 → b = (b &&& 0x7F) + 0x80) (by decide +kernel) b hbreak

/-- The release of an ordinary key is nothing to the driver. -/
lemma keyReleased_modifiers (hb : b ∉ flagBytes) (hbreak : b &&& 0x80 ≠ 0) :
    s.keyReleased (b &&& 0x7F) = s := by
  have hcode {key} (hkey : b &&& 0x7F = key) : b = key + 0x80 := hkey ▸ break_eq hbreak
  unfold keyReleased
  rw [if_neg, if_neg, if_neg, if_neg]
  all_goals
    intro hkey
    exact hb (hcode hkey ▸ by decide)

/-- The handler keeps the flags. -/
lemma keyIrqHandler_modifiers : (s.keyIrqHandler below b).1.modifiers = s.modifiers.step b := by
  by_cases hb : b ∈ flagBytes
  · simp only [flagBytes, List.mem_cons, List.not_mem_nil, or_false] at hb
    obtain rfl | rfl | rfl | rfl | rfl | rfl | rfl | rfl | rfl := hb
    all_goals rfl
  · rw [step_of_notMem hb]
    unfold keyIrqHandler
    by_cases hmake : b &&& 0x80 = 0
    · simp only [if_pos hmake, scancode_of_make hmake]
      exact keyPressed_modifiers hb
    · simp only [if_neg hmake, keyReleased_modifiers hb hmake]

/-! ### One byte -/

/-- The four tables are one layout. -/
lemma tables_eq (shift caps : Bool) : (if caps && shift then capsLockAndShift else if shift then shiftKeyboardChars
    else if caps then capsLockChars else keyboardChars) = usLayout.map (KeyCap.char shift caps) := by
  cases shift <;> cases caps <;> decide +kernel

/-- The tables have the characters of the layout. -/
lemma keyboardCharacter_eq : s.keyboardCharacter b = (usCap b).char s.modifiers.shift s.modifiers.caps := by
  unfold keyboardCharacter
  rw [tables_eq]
  exact List.getD_map usLayout .blank (KeyCap.char s.modifiers.shift s.modifiers.caps)

/-- The key of `l`. -/
lemma keyL_iff : keyboardChars.getD b.toNat 0 = 108 ↔ b = 0x26 :=
  byte_cases (P := fun b => keyboardChars.getD b.toNat 0 = 108 ↔ b = 0x26) (by decide +kernel) b

/-- A byte for a released key. -/
lemma break_iff : b &&& 0x80 = 0 ↔ ¬ 0x80 ≤ b :=
  byte_cases (P := fun b => b &&& 0x80 = 0 ↔ ¬ 0x80 ≤ b) (by decide +kernel) b

/-- A press is a stroke. -/
lemma keyPressed_desk : (s.keyPressed k.below k.data).1.desk = s.desk.perform (.press s.modifiers k) := by
  obtain ⟨b, below⟩ := k
  unfold Stroke.press
  split
  · next hmod =>
    simp only [modifierCodes, List.mem_cons, List.not_mem_nil, or_false] at hmod
    obtain rfl | rfl | rfl | rfl | rfl | rfl | rfl := hmod
    all_goals rfl
  next hmod =>
  simp only [modifierCodes, List.mem_cons, List.not_mem_nil, or_false, not_or] at hmod
  obtain ⟨h1, h2, h3, h4, h5, h6, h7⟩ := hmod
  unfold keyPressed
  simp only [if_neg h1, if_neg h2, if_neg h3, if_neg h4, if_neg h5, if_neg h6, if_neg h7, keyL_iff,
    keyboardCharacter_eq, apply_ite Prod.fst, apply_ite desk, apply_ite (Desk.perform s.desk)]
  rfl

/-- The handler does what the stroke of the byte asks for. -/
lemma press_desk (h : s.modifiers = .after bytes) : (s.press k).desk = s.desk.perform (.of bytes k) := by
  unfold press keyIrqHandler Stroke.of
  by_cases hmake : k.data &&& 0x80 = 0
  · simp only [if_pos hmake, scancode_of_make hmake, if_neg (break_iff.mp hmake), ← h]
    exact keyPressed_desk
  · simp only [if_neg hmake, if_pos (not_not.mp (break_iff.not.mp hmake))]
    obtain ⟨hterminals, hcur⟩ := @keyReleased_frame s (k.data &&& 0x7F)
    rw [desk, hterminals, hcur]
    rfl

/-- The driver on bytes that follow others. -/
lemma receive_desk {before : List UInt8} {ks : List Press} (h : s.modifiers = .after before) :
    (s.receive ks).desk = (strokes before ks).foldl Desk.perform s.desk := by
  induction ks generalizing s before with
  | nil => rfl
  | cons k ks ih =>
    rw [strokes, List.foldl_cons, ← press_desk h]
    refine ih ?_
    rw [press, keyIrqHandler_modifiers, h, Modifiers.after_snoc]

end Tty

/-- From `keyboard_install` on, the handler makes of any bytes what the strokes in them ask for, as long as UP and DOWN are
pressed where they have room: the characters of the US layout under the shift keys that are held and a caps lock that every
press turns over, the editing and history keys, and the choice of a terminal. Every line stays in its buffer and every
cursor on its screen. -/
theorem keyboard_decodes (terminals : TermId → Terminal) (ks : List Press)
    (hroom : keyboardSystem.Guarded Tty.Room (.keyboardInstall terminals) ks) :
    ((Tty.keyboardInstall terminals).receive ks).desk =
        (strokes [] ks).foldl Desk.perform (Tty.keyboardInstall terminals).desk ∧
      ((Tty.keyboardInstall terminals).receive ks).Sound :=
  ⟨Tty.receive_desk rfl, (Tty.keyboardInstall_sound terminals).receive hroom⟩

/-- Enter, the command `ls` recalled by UP and taken off by DOWN, and a capital letter. -/
def recallKeys : List Press := [0x1C, 0x48, 0x50, 0x2a, 0x1E].map (⟨·, fun _ _ => 0⟩)

/-- Recalling `ls` on a terminal where it was typed. -/
theorem keyboard_decodes_recall : (lsTty.receive recallKeys).desk = (strokes [] recallKeys).foldl Desk.perform lsTty.desk ∧
    (lsTty.receive recallKeys).Sound :=
  keyboard_decodes _ recallKeys (by decide +kernel)

/-! ### Typed lines -/

/-- The terminal is displayed, and nothing is typed on it yet. -/
structure Tty.Ready (tty : Tty) (t : TermId) : Prop where
  cur : tty.curTerminal = t
  line : (tty.terminals t).lineBufferIndex = 0
  typing : (tty.terminals t).typingLine = true

/-- Zeros before the histories. The keys of the editor do not look there (`Tty.editKey_press`). -/
def zeroBelow : TermId → Mem := fun _ _ => 0

/-- The keys edit the line to `l`, and none of them is without a character while there is room. -/
def Editor.Types (ed : Editor) (keys l : List UInt8) : Prop :=
  (editSystem zeroBelow).Guarded Printable ed keys ∧ ∃ ed', (editSystem zeroBelow).run ed keys = some ed' ∧ ed'.line = l

/-- Only UP and DOWN look at what lies before the history. -/
lemma Tty.keyIrqHandler_below {s : Tty} {below below' : TermId → Mem} {data : UInt8} (hup : data ≠ 0x48)
    (hdown : data ≠ 0x50) : s.keyIrqHandler below data = s.keyIrqHandler below' data := by
  unfold keyIrqHandler
  by_cases hmake : data &&& 0x80 = 0
  · simp only [if_pos hmake, scancode_of_make hmake, keyPressed, if_neg hup, if_neg hdown]
  · simp only [if_neg hmake]

section
variable {t : TermId} {tty : Tty} {ed ed' : Editor} {data : UInt8} {k : EditKey} {keys l : List UInt8}

/-- Where a key edits the line, the bytes before the history do not matter. -/
lemma Tty.editKey_press {press : Press} (h : tty.editKey press.data = some k) :
    tty.press press = (tty.keyIrqHandler zeroBelow press.data).1 := by
  have hne : press.data ≠ 0x48 ∧ press.data ≠ 0x50 := by
    constructor
    · rintro heq
      rw [heq] at h
      cases h
    · rintro heq
      rw [heq] at h
      cases h
  rw [Tty.press, Tty.keyIrqHandler_below hne.1 hne.2]

/-- Without keys the line stays as it is. -/
lemma Editor.types_nil : ed.Types [] ed.line := ⟨trivial, ed, rfl, rfl⟩

/-- One key, and the others on what it leaves. -/
lemma Editor.types_cons (hk : ed.tty.editKey data = some k) (hprint : k ≠ .unprintable)
    (h : Editor.Types ⟨(ed.tty.keyIrqHandler zeroBelow data).1, k.edit ed.line⟩ keys l) :
    ed.Types (data :: keys) l := by
  have hstep : (editSystem zeroBelow).step ed data = some ⟨(ed.tty.keyIrqHandler zeroBelow data).1, k.edit ed.line⟩ :=
    congrArg (Option.map _) hk
  obtain ⟨hguard, ed', hrun, hline⟩ := h
  refine ⟨⟨fun hun => absurd (Option.some.inj (hk.symm.trans hun)) hprint, fun ed1 h1 => ?_⟩, ed', ?_, hline⟩
  · cases hstep.symm.trans h1
    exact hguard
  · exact System.run_cons.mpr ⟨_, hstep, hrun⟩

/-- The editor's run is what the handler does with the keys. -/
lemma Editor.run_tty {presses : List Press} (h : (editSystem zeroBelow).run ed (presses.map Press.data) = some ed') :
    ed.tty.receive presses = ed'.tty := by
  induction presses generalizing ed with
  | nil =>
    cases h
    rfl
  | cons press presses ih =>
    obtain ⟨ed1, hstep, hrun⟩ := System.run_cons.mp h
    obtain ⟨k, hk, rfl⟩ := Option.map_eq_some_iff.mp hstep
    rw [← ih hrun]
    exact congrArg (Tty.receive · presses) (Tty.editKey_press hk)

/-- A typed line is in the buffer, and the terminal is still displayed. -/
lemma Editor.run_holds (h : (editSystem zeroBelow).run ⟨tty, []⟩ keys = some ed)
    (hprint : (editSystem zeroBelow).Guarded Printable ⟨tty, []⟩ keys) (hready : tty.Ready t) :
    ed.term.Holds ed.line ∧ ed.tty.curTerminal = t := by
  have hempty : Terminal.Holds (Editor.term ⟨tty, []⟩) [] := by
    refine .empty ?_
    rw [Editor.term, hready.cur]
    exact hready.line
  refine @System.guarded_invariant _ _ (editSystem zeroBelow)
    (fun ed => ed.term.Holds ed.line ∧ ed.tty.curTerminal = t) Printable _ _ _ ?_ ⟨hempty, hready.cur⟩ hprint h
  rintro ed data ed' ⟨hholds, hcur⟩ hp hstep
  obtain ⟨k, hkey, hterm, hline⟩ := Editor.step_inv hstep
  refine ⟨?_, ?_⟩
  · rw [hterm, hline]
    exact hholds.edit hkey hp
  · obtain ⟨k', hkey', rfl⟩ := Option.map_eq_some_iff.mp hstep
    exact (Tty.keyIrqHandler_editKey hkey').1.trans hcur

end

/-! ### A typist -/

/-- The key of a character, and whether it needs shift. -/
def keyFor (caps : Bool) (c : UInt8) : Option (UInt8 × Bool) :=
  match usLayout.findIdx? fun cap => cap.char false caps = c with
  | some n => some (UInt8.ofNat n, false)
  | none => (usLayout.findIdx? fun cap => cap.char true caps = c).map fun n => (UInt8.ofNat n, true)

/-- The bytes for a character: its key down and up, with the left shift key around it where it needs one. -/
def tap (caps : Bool) (c : UInt8) : List UInt8 :=
  match keyFor caps c with
  | some (key, false) => [key, key + 0x80]
  | some (key, true) => [0x2a, key, key + 0x80, 0xAA]
  | none => []

section
variable {c key : UInt8} {shift caps : Bool}

/-- The key that a search in the layout finds. -/
lemma usCap_findIdx {p : KeyCap → Bool} {n : Nat} (h : usLayout.findIdx? p = some n) : p (usCap (UInt8.ofNat n)) = true := by
  obtain ⟨hn, hp, -⟩ := List.findIdx?_eq_some_iff_getElem.mp h
  have hlen : usLayout.length = 79 := by decide +kernel
  rw [usCap, UInt8.toNat_ofNat_of_lt' (by rw [hlen] at hn; exact Nat.lt_trans hn (by decide)), List.getD_eq_getElem _ _ hn]
  exact hp

/-- The key of a character has it on. -/
lemma keyFor_char (h : keyFor caps c = some (key, shift)) : (usCap key).char shift caps = c := by
  unfold keyFor at h
  split at h
  · next n hn =>
    cases h
    simpa using usCap_findIdx hn
  · obtain ⟨n, hn, heq⟩ := Option.map_eq_some_iff.mp h
    cases heq
    simpa using usCap_findIdx hn

/-- There is a key for every character of ASCII. -/
lemma keyFor_printable (h : 32 ≤ c ∧ c ≤ 126) : ∃ key shift, keyFor caps c = some (key, shift) := by
  have hsome : (keyFor caps c).isSome = true := by
    induction c using byte_cases with
    | h n =>
      revert caps n
      decide +kernel
  obtain ⟨⟨key, shift⟩, hkey⟩ := Option.isSome_iff_exists.mp hsome
  exact ⟨key, shift, hkey⟩

/-- The keys that are no characters. -/
def specialCodes : List UInt8 := modifierCodes ++ [0x1C, 0x0E, 0x48, 0x50]

/-- A key with a character is none of the others. -/
lemma ordinary_of_char (h : (usCap key).char shift caps ≠ 0) : key &&& 0x80 = 0 ∧ key ∉ specialCodes := by
  have hblank : ∀ key, key &&& 0x80 ≠ 0 ∨ key ∈ specialCodes → usCap key = .blank := by
    intro key
    induction key using byte_cases with
    | h n =>
      revert n
      decide +kernel
  have hkey : ¬ (key &&& 0x80 ≠ 0 ∨ key ∈ specialCodes) := by
    intro hkey
    rw [hblank key hkey] at h
    exact h rfl
  rw [not_or, not_not] at hkey
  exact hkey

end

/-- No key is held that changes the meaning of others. -/
def Modifiers.Idle (m : Modifiers) : Prop := m.shift = false ∧ m.alt = false ∧ m.ctrl = false

/-- A key with a character appends it to the line, unless alt or control is held. -/
lemma Tty.editKey_char_of {s : Tty} {b c : UInt8} (halt : s.alt = false) (hctrl : s.ctrl = false)
    (h : (usCap b).char s.modifiers.shift s.modifiers.caps = c) (hc : c ≠ 0) : s.editKey b = some (.char c) := by
  obtain ⟨hmake, hspecial⟩ := ordinary_of_char (h ▸ hc)
  simp only [specialCodes, List.mem_append, List.mem_cons, List.not_mem_nil, or_false, not_or] at hspecial
  obtain ⟨hmod, henter, hback, hup, hdown⟩ := hspecial
  unfold editKey
  rw [if_neg (by simp [hmake, hmod]), if_neg (by simp [henter, hup, hdown]), if_neg hback, if_neg (by simp [hctrl]),
    if_neg (by simp [halt]), keyboardCharacter_eq, h, if_neg hc]

/-- Neither byte of such a key changes a flag. -/
lemma flagBytes_of_ordinary {key : UInt8} (h : key &&& 0x80 = 0 ∧ key ∉ specialCodes) :
    key ∉ Tty.flagBytes ∧ key + 0x80 ∉ Tty.flagBytes ∧ (key + 0x80) &&& 0x80 ≠ 0 := by
  induction key using byte_cases with
  | h n =>
    revert n
    decide +kernel

namespace Editor
variable {s : Tty} {c key : UInt8} {L keys l : List UInt8}

/-- A key with a character, pressed and released. -/
lemma types_key (halt : s.modifiers.alt = false) (hctrl : s.modifiers.ctrl = false)
    (hchar : (usCap key).char s.modifiers.shift s.modifiers.caps = c) (hc : c ≠ 0) (hlt : L.length < 127)
    (h : ∀ s' : Tty, s'.modifiers = s.modifiers → Types ⟨s', L ++ [c]⟩ keys l) :
    Types ⟨s, L⟩ (key :: (key + 0x80) :: keys) l := by
  obtain ⟨hpress, hrelease, hbreak⟩ := flagBytes_of_ordinary (ordinary_of_char (hchar ▸ hc))
  have hedit : EditKey.edit L (.char c) = L ++ [c] := if_pos hlt
  refine types_cons (Tty.editKey_char_of halt hctrl hchar hc) nofun ?_
  rw [hedit]
  refine types_cons (k := .silent) (if_pos (Or.inl hbreak)) nofun (h _ ?_)
  rw [Tty.keyIrqHandler_modifiers, Tty.keyIrqHandler_modifiers, Tty.step_of_notMem hrelease,
    Tty.step_of_notMem hpress]

/-- The bytes for a character append it. -/
lemma types_tap (hidle : s.modifiers.Idle) (hc : 32 ≤ c ∧ c ≤ 126) (hlt : L.length < 127)
    (h : ∀ s' : Tty, s'.modifiers = s.modifiers → Types ⟨s', L ++ [c]⟩ keys l) :
    Types ⟨s, L⟩ (tap s.modifiers.caps c ++ keys) l := by
  obtain ⟨hshift, halt, hctrl⟩ := hidle
  have hne : c ≠ 0 := by
    rintro rfl
    exact absurd hc.1 (by decide)
  obtain ⟨key, shift, hkey⟩ := @keyFor_printable c s.modifiers.caps hc
  have hchar := keyFor_char hkey
  cases shift with
  | false =>
    simp only [tap, hkey]
    rw [← hshift] at hchar
    exact types_key halt hctrl hchar hne hlt h
  | true =>
    simp only [tap, hkey]
    refine types_cons (k := .silent) rfl nofun ?_
    refine types_key halt hctrl hchar hne hlt fun s1 h1 => ?_
    refine types_cons (k := .silent) rfl nofun (h _ ?_)
    -- the release takes the press of the shift key back
    have hleft : s.modifiers.leftShift = false := (Bool.or_eq_false_iff.mp hshift).1
    rw [Tty.keyIrqHandler_modifiers, h1]
    exact Modifiers.ext hleft.symm rfl rfl rfl rfl

/-- A typist gets any text of printable characters into the line. -/
lemma types_text {text : List UInt8} (hidle : s.modifiers.Idle) (hprintable : ∀ c ∈ text, 32 ≤ c ∧ c ≤ 126)
    (hshort : L.length + text.length ≤ 127) :
    Types ⟨s, L⟩ (text.flatMap (tap s.modifiers.caps)) (L ++ text) := by
  induction text generalizing s L with
  | nil =>
    rw [List.append_nil]
    exact types_nil
  | cons c text ih =>
    rw [List.length_cons] at hshort
    rw [List.flatMap_cons, List.append_cons]
    refine types_tap hidle (hprintable c List.mem_cons_self) (by omega) fun s1 h1 => ?_
    rw [← h1]
    refine ih (h1 ▸ hidle) (fun c hc => hprintable c (List.mem_cons_of_mem _ hc)) ?_
    rw [List.length_append, List.length_singleton]
    omega

end Editor

/-- Any text of at most 127 printable characters can be typed: with the keys of the US layout, shift where it is needed for
the state of caps lock, and Enter at the end, the line is finished and a read with room for it stores the text, a linefeed
and a zero. -/
theorem typed_text_read (s : Tty) (t : TermId) (hready : s.Ready t) (hidle : s.modifiers.Idle) (text : List UInt8)
    (hprintable : ∀ c ∈ text, 32 ≤ c ∧ c ≤ 126) (hshort : text.length ≤ 127) (presses : List Press)
    (hpresses : presses.map Press.data = text.flatMap (tap s.capslock) ++ [0x1C]) (nbytes : Nat) (hroom : 129 ≤ nbytes) :
    let T := (s.receive presses).terminals t
    T.typingLine = false ∧ (T.terminalRead nbytes).1 = text ++ [10, 0] := by
  obtain ⟨hguard, ed, hrun, hline⟩ := @Editor.types_text s [] text hidle hprintable (by simpa using hshort)
  obtain ⟨hholds, hcur⟩ := Editor.run_holds hrun hguard hready
  -- the keys of the text, and Enter
  obtain ⟨typed, enter, rfl, htyped, henter⟩ := List.map_eq_append_iff.mp hpresses
  obtain ⟨press, rfl, hdata⟩ := List.map_eq_singleton_iff.mp henter
  have hT : (s.receive (typed ++ [press])).terminals t = (Handler.keyEnter ⟨ed.term, []⟩).term := by
    have hwent : ed.tty.Went (Tty.lineHandler .enter) (ed.tty.keyIrqHandler press.below 0x1C).1 :=
      Tty.keyIrqHandler_lineKey rfl
    have htext : s.receive typed = ed.tty := Editor.run_tty (htyped ▸ hrun)
    rw [Tty.receive_append, htext, ← hcur]
    change (ed.tty.keyIrqHandler press.below press.data).1.terminals _ = _
    rw [hdata]
    exact hwent.2
  rw [hT]
  refine ⟨Handler.keyEnter_input.2.2, ?_⟩
  rw [Terminal.terminalRead_entered hholds.index hholds.bytes hholds.short hroom, hline]
  rfl

/-- The bytes for `Hi!` and Enter. -/
def hiKeys : List Press := ((keyRow "Hi!").flatMap (tap false) ++ [0x1C]).map (⟨·, zeroBelow⟩)

/-- The text `Hi!`. -/
theorem typed_text_read_hi :
    let T := (installed.receive hiKeys).terminals 0
    T.typingLine = false ∧ (T.terminalRead 129).1 = keyRow "Hi!" ++ [10, 0] :=
  typed_text_read installed 0 ⟨rfl, rfl, rfl⟩ ⟨rfl, rfl, rfl⟩ (keyRow "Hi!") (by decide +kernel) (by decide) hiKeys
    (List.map_map.trans (List.map_id _)) 129 (Nat.le_refl 129)

end Boss
