import Boss.Terminal.Bounds

/-!
# Lines typed and lines read

What a process reads from its terminal against what was typed there. The abstract side is a `Script`: the
lines finished with Enter, each with its linefeed, and the line being edited. The machine side is the
keyboard handler on the scan codes of printable keys, Backspace, Enter and the modifier keys, interleaved
with the steps of successive `terminal_read` calls.

The handler and the reader share one buffer. Enter finishes the line in place, without resetting the index,
and the reader resets it only after it has copied the line. A key in between edits a line that is already
finished. `Calm` asks that no such key comes: then every read returns the next typed line, whole
(`calm_reads_are_typed_lines`). The invariant follows the reader through its places: which line the buffer
holds, and how much of it has been taken.
-/

namespace Boss
open Lib

/-! ### Keys of a line -/

/-- A key as a line editor sees it. -/
inductive LineKey
  | char (c : UInt8)
  | backspace
  | enter
  | modifier
  deriving DecidableEq

/-- The lines typed so far and the one being edited. -/
structure Script where
  lines : List (List UInt8)
  line : List UInt8

/-- What a key does to the script. -/
def Script.press (s : Script) : LineKey → Script
  | .char c => { s with line := s.line ++ [c] }
  | .backspace => { s with line := s.line.dropLast }
  | .enter => ⟨s.lines ++ [s.line ++ [10]], []⟩
  | .modifier => s

/-- The make codes of shift, alt, control and the lock keys. -/
def modifierCodes : List UInt8 := [0x2a, 0x36, 0x38, 0x1D, 0x3a, 0x45, 0x46]

/-- The line key of a byte from the keyboard; key releases edit nothing. The remaining keys (history,
control-L, terminal switches, keys without a character) are not line keys. -/
def Tty.lineKey (s : Tty) (data : UInt8) : Option LineKey :=
  if data &&& 0x80 ≠ 0 then some .modifier
  else if data ∈ modifierCodes then some .modifier
  else if data = 0x1C then some .enter
  else if data = 0x0E then some .backspace
  else if keyboardChars.getD data.toNat 0 ≠ 0 ∧ ¬ (s.ctrl ∧ keyboardChars.getD data.toNat 0 = 108) then
    some (.char (s.keyboardCharacter data))
  else none

/-- A make code with a character has a character under all modifiers. -/
lemma tables_agree : ∀ n : Fin 128, keyboardChars.getD n 0 ≠ 0 →
    capsLockAndShift.getD n 0 ≠ 0 ∧ shiftKeyboardChars.getD n 0 ≠ 0 ∧ capsLockChars.getD n 0 ≠ 0 := by
  decide +kernel

namespace Tty
variable {s : Tty} {data : UInt8} {below : TermId → Mem} {c : UInt8}

/-- What the handler does on the displayed terminal for a line key. -/
def lineHandler : LineKey → Handler → Handler
  | .char c => .keyChar c
  | .backspace => .keyBackspace
  | .enter => .keyEnter
  | .modifier => id

/-- A byte for a pressed key is a number of a key. -/
lemma toNat_lt_of_make (hmake : data &&& 0x80 = 0) : data.toNat < 128 :=
  byte_cases (P := fun d => d &&& 0x80 = 0 → d.toNat < 128) (by decide +kernel) data hmake

/-- Characters of line keys are not zero. -/
lemma lineKey_char (h : s.lineKey data = some (.char c)) : c ≠ 0 := by
  unfold lineKey at h
  split at h
  · cases h
  next hmake =>
  split at h
  · cases h
  split at h
  · cases h
  split at h
  · cases h
  split at h
  · next hchar =>
    cases h
    have hlt := toNat_lt_of_make (not_not.mp hmake)
    obtain ⟨h1, h2, h3⟩ := tables_agree ⟨data.toNat, hlt⟩ hchar.1
    unfold keyboardCharacter
    simp only
    split
    · exact h1
    · split
      · exact h2
      · split
        · exact h3
        · exact hchar.1
  · cases h

/-- The displayed terminal went through `f`, and is still displayed. -/
def Went (s : Tty) (f : Handler → Handler) (s' : Tty) : Prop :=
  s'.curTerminal = s.curTerminal ∧
    s'.terminals s.curTerminal = (f ⟨s.terminals s.curTerminal, []⟩).term

/-- A key for the displayed terminal goes one way. -/
lemma went_onCur {f : Handler → Handler} : s.Went f (s.onCur f).1 := ⟨rfl, Function.update_self ..⟩

/-- A key that leaves the terminals alone. -/
lemma went_id {s' : Tty} (hcur : s'.curTerminal = s.curTerminal) (ht : s'.terminals = s.terminals) :
    s.Went id s' := by
  refine ⟨hcur, ?_⟩
  rw [ht]
  rfl

/-- A key with a character is handled by the last branch of the chain. -/
lemma keyPressed_char (hchar : keyboardChars.getD data.toNat 0 ≠ 0)
    (hctrl : ¬ (s.ctrl ∧ keyboardChars.getD data.toNat 0 = 108)) :
    s.keyPressed below data = s.onCur (.keyChar (s.keyboardCharacter data)) := by
  have hne : ∀ code : UInt8, keyboardChars.getD code.toNat 0 = 0 → data ≠ code := by
    intro code hcode e
    exact hchar (e ▸ hcode)
  unfold keyPressed
  rw [if_neg (hne _ rfl), if_neg (hne _ rfl), if_neg (hne _ rfl), if_neg (hne _ rfl),
    if_neg (hne _ rfl), if_neg (hne _ rfl), if_neg (hne _ rfl), if_neg (hne _ rfl),
    if_neg (hne _ rfl), if_neg (hne _ rfl), if_neg (hne _ rfl), if_neg hctrl,
    if_neg (fun h => hne _ rfl h.2), if_neg (fun h => hne _ rfl h.2), if_neg (fun h => hne _ rfl h.2)]

/-- The handler on a line key: the displayed terminal goes through the key's branch. -/
lemma keyIrqHandler_lineKey {k : LineKey} (h : s.lineKey data = some k) :
    s.Went (lineHandler k) (s.keyIrqHandler below data).1 := by
  unfold lineKey at h
  split at h
  · next hbreak =>
    cases h
    unfold keyIrqHandler
    rw [if_neg hbreak]
    exact went_id keyReleased_frame.2 keyReleased_frame.1
  next hmake =>
  have hmake := not_not.mp hmake
  split at h
  · next hmod =>
    cases h
    simp only [modifierCodes, List.mem_cons, List.not_mem_nil, or_false] at hmod
    rcases hmod with rfl | rfl | rfl | rfl | rfl | rfl | rfl
    all_goals exact went_id rfl rfl
  split at h
  · next he =>
    cases h
    subst he
    exact went_onCur
  split at h
  · next he =>
    cases h
    subst he
    exact went_onCur
  split at h
  · next hchar =>
    cases h
    unfold keyIrqHandler
    rw [if_pos hmake, scancode_of_make hmake, keyPressed_char hchar.1 hchar.2]
    exact went_onCur
  · cases h

end Tty

/-! ### The line in the buffer -/

namespace Handler
variable {h : Handler} {c : UInt8}

/-- A character is put at the end of the line. -/
lemma keyChar_input (hlt : h.term.lineBufferIndex < maxBufIndex) :
    (keyChar c h).term.lineBuffer = Function.update h.term.lineBuffer h.term.lineBufferIndex c ∧
      (keyChar c h).term.lineBufferIndex = h.term.lineBufferIndex + 1 ∧
      (keyChar c h).term.typingLine = h.term.typingLine := by
  have hecho := draw_input (h := h.putLine h.term.lineBufferIndex c)
    (Terminal.termPutc_input (c := c))
  have hscroll := draw_input (h := (h.putLine h.term.lineBufferIndex c).draw (.termPutc c))
    Terminal.scrollCorner_input
  have hinc : inc32 h.term.lineBufferIndex = h.term.lineBufferIndex + 1 :=
    inc32_of_lt (Nat.lt_trans hlt (by decide))
  rw [keyChar, if_pos hlt, incIndex, setIndex_buffer, setIndex_index, setIndex_typing, hscroll.buffer,
    hscroll.index, hscroll.typing, hecho.buffer, hecho.index, hecho.typing, putLine_buffer, putLine_index,
    putLine_typing, hinc]
  exact ⟨rfl, rfl, rfl⟩

/-- BACKSPACE makes the line shorter. -/
lemma keyBackspace_input (hlt : h.term.lineBufferIndex < 0xFFFFFFFF) :
    (keyBackspace h).term.lineBuffer = h.term.lineBuffer ∧
      (keyBackspace h).term.lineBufferIndex = h.term.lineBufferIndex - 1 ∧
      (keyBackspace h).term.typingLine = h.term.typingLine := by
  have hdel := draw_input (h := h) Terminal.termDeleteChar_input
  unfold keyBackspace
  split
  · have hdec : dec32 h.term.lineBufferIndex = h.term.lineBufferIndex - 1 := by
      unfold dec32
      omega
    rw [decIndex, setIndex_buffer, setIndex_index, setIndex_typing, hdel.buffer, hdel.index, hdel.typing,
      hdec]
    exact ⟨rfl, rfl, rfl⟩
  · exact ⟨rfl, by omega, rfl⟩

/-- ENTER puts a line break behind the line and ends the typing. -/
lemma keyEnter_input :
    (keyEnter h).term.lineBuffer = Function.update h.term.lineBuffer h.term.lineBufferIndex 10 ∧
      (keyEnter h).term.lineBufferIndex = h.term.lineBufferIndex ∧
      (keyEnter h).term.typingLine = false := by
  have hrow := draw_input (h := ((h.setCount 0).putLine (h.setCount 0).term.lineBufferIndex 10).setTyping
    false) Terminal.newRow_input
  rw [keyEnter, hrow.buffer, hrow.index, hrow.typing]
  exact ⟨rfl, rfl, rfl⟩

end Handler

/-- The buffer holds the line `L`. -/
structure Terminal.Holds (T : Terminal) (L : List UInt8) : Prop where
  index : T.lineBufferIndex = L.length
  bytes : ∀ i (h : i < L.length), T.lineBuffer i = L[i]
  short : L.length ≤ 127
  nonzero : ∀ c ∈ L, c ≠ 0

namespace Terminal.Holds
variable {T : Terminal} {L : List UInt8} {c : UInt8}

/-- A line without characters. -/
lemma empty (h : T.lineBufferIndex = 0) : T.Holds [] where
  index := h
  bytes := fun i hi => absurd hi (Nat.not_lt_zero i)
  short := Nat.zero_le _
  nonzero := by simp

/-- A character goes to the end of the line. -/
lemma keyChar (h : T.Holds L) (hlen : L.length < 127) (hc : c ≠ 0) :
    (Handler.keyChar c ⟨T, []⟩).term.Holds (L ++ [c]) := by
  have hlt : T.lineBufferIndex < maxBufIndex := h.index ▸ hlen
  obtain ⟨hbuf, hidx, _⟩ := Handler.keyChar_input (h := ⟨T, []⟩) (c := c) hlt
  refine ⟨?_, ?_, ?_, ?_⟩
  · rw [hidx, h.index, List.length_append, List.length_singleton]
  · intro i hi
    rw [hbuf]
    simp only [h.index, Function.update_apply]
    rcases Nat.lt_or_ge i L.length with hiL | hiL
    · rw [if_neg (by omega), List.getElem_append_left hiL]
      exact h.bytes i hiL
    · have hie : i = L.length := by
        simp only [List.length_append, List.length_singleton] at hi
        omega
      subst hie
      simp
  · simp only [List.length_append, List.length_singleton]
    omega
  · intro b hb
    rcases List.mem_append.mp hb with hb | hb
    · exact h.nonzero b hb
    · cases List.mem_singleton.mp hb
      exact hc

/-- Backspace takes the last character off. -/
lemma keyBackspace (h : T.Holds L) : (Handler.keyBackspace ⟨T, []⟩).term.Holds L.dropLast := by
  have hshort := h.short
  have hindex := h.index
  obtain ⟨hbuf, hidx, _⟩ := Handler.keyBackspace_input (h := ⟨T, []⟩) (by simp only; omega)
  refine ⟨?_, ?_, ?_, ?_⟩
  · rw [hidx, List.length_dropLast, hindex]
  · intro i hi
    rw [hbuf, List.getElem_dropLast]
    rw [List.length_dropLast] at hi
    exact h.bytes i (by omega)
  · rw [List.length_dropLast]
    omega
  · intro b hb
    exact h.nonzero b (List.mem_of_mem_dropLast hb)

/-- Enter puts a linefeed behind the line. -/
lemma keyEnter (h : T.Holds L) : (Handler.keyEnter ⟨T, []⟩).term.Holds L ∧
    (Handler.keyEnter ⟨T, []⟩).term.lineBuffer L.length = 10 := by
  obtain ⟨hbuf, hidx, _⟩ := Handler.keyEnter_input (h := ⟨T, []⟩)
  refine ⟨⟨hidx.trans h.index, ?_, h.short, h.nonzero⟩, ?_⟩
  · intro i hi
    rw [hbuf]
    simp only [h.index, Function.update_apply]
    rw [if_neg (by omega)]
    exact h.bytes i hi
  · rw [hbuf]
    simp only [h.index, Function.update_self]

end Terminal.Holds

/-! ### Typing and reading -/

/-- A terminal with its reader, what has been typed on it and what the reads have returned. -/
structure Typist where
  tty : Tty
  reader : Reader
  script : Script
  returned : List (List UInt8)

/-- The displayed terminal, on which everything happens. -/
def Typist.term (s : Typist) : Terminal := s.tty.terminals s.tty.curTerminal

/-- A byte from the keyboard, a call of `terminal_read`, or a step of the pending call. -/
inductive TypistInput
  | key (data : UInt8)
  | call (nbytes : Nat)
  | read

/-- Line keys typing lines of at most 127 characters, and calls with room for a whole line. -/
def typistSystem (below : TermId → Mem) : System Typist TypistInput where
  step s
    | .key data =>
      match s.tty.lineKey data with
      | none => none
      | some k =>
        if (s.script.press k).line.length ≤ 127 then
          some { s with tty := (s.tty.keyIrqHandler below data).1, script := s.script.press k }
        else none
    | .call nbytes =>
      match s.reader with
      | .idle => if 129 ≤ nbytes then some { s with reader := .waiting nbytes } else none
      | _ => none
    | .read =>
      let (R, h) := s.reader.step s.term
      some { s with
        tty := s.tty.setTerminal s.tty.curTerminal h.term
        reader := R
        returned := s.returned ++ s.reader.result.toList }

/-- The reader is not between the end of its wait and the reset of the index. -/
def Reader.Apart : Reader → Prop
  | .idle | .waiting _ | .returning _ => True
  | _ => False

instance (R : Reader) : Decidable R.Apart := by
  cases R <;> unfold Reader.Apart <;> infer_instance

/-- No key that edits comes while a finished line is in the buffer or a read is taking it. -/
def Calm (s : Typist) : TypistInput → Prop
  | .key data =>
    s.tty.lineKey data = some .modifier ∨ (s.term.typingLine = true ∧ s.reader.Apart)
  | _ => True

instance (s : Typist) (i : TypistInput) : Decidable (Calm s i) := by
  cases i <;> unfold Calm <;> infer_instance

/-- What the reads returned is a prefix of what was typed. -/
def ReadsTyped (s : Typist) : Prop := s.returned <+: s.script.lines

instance : DecidablePred ReadsTyped := fun s => inferInstanceAs (Decidable (s.returned <+: s.script.lines))

/-- The buffer holds the line being edited, and every finished line has been returned. -/
structure Editing (T : Terminal) (sc : Script) (ret : List (List UInt8)) : Prop where
  lines : sc.lines = ret
  typing : T.typingLine = true
  holds : T.Holds sc.line

/-- The buffer holds `L` and its linefeed, the only finished line not returned. -/
structure Finished (T : Terminal) (sc : Script) (ret : List (List UInt8)) (L : List UInt8) : Prop where
  line : sc.line = []
  lines : sc.lines = ret ++ [L ++ [10]]
  holds : T.Holds L
  linefeed : T.lineBuffer L.length = 10

/-- No read is in progress. -/
def Ready (T : Terminal) (sc : Script) (ret : List (List UInt8)) : Prop :=
  Editing T sc ret ∨ ∃ L, Finished T sc ret L ∧ T.typingLine = false

/-- A line key while the line is being edited. -/
lemma Ready.press {T : Terminal} {sc : Script} {ret : List (List UInt8)} {k : LineKey}
    (h : Ready T sc ret) (htyp : T.typingLine = true) (hk : ∀ c, k = .char c → c ≠ 0)
    (hlen : (sc.press k).line.length ≤ 127) :
    Ready (Tty.lineHandler k ⟨T, []⟩).term (sc.press k) ret := by
  obtain ⟨hlines, _, hholds⟩ | ⟨L, _, hfalse⟩ := h
  · have hindex := hholds.index
    have hshort := hholds.short
    cases k with
    | char c =>
      have hlt : sc.line.length < 127 := by
        simp only [Script.press, List.length_append, List.length_singleton] at hlen
        omega
      have htyping := (Handler.keyChar_input (h := ⟨T, []⟩) (c := c) (hindex ▸ hlt)).2.2
      exact Or.inl ⟨hlines, htyping.trans htyp, hholds.keyChar hlt (hk c rfl)⟩
    | backspace =>
      have htyping := (Handler.keyBackspace_input (h := ⟨T, []⟩) (by simp only; omega)).2.2
      exact Or.inl ⟨hlines, htyping.trans htyp, hholds.keyBackspace⟩
    | enter =>
      obtain ⟨hholds', hlf⟩ := hholds.keyEnter
      refine Or.inr ⟨sc.line, ⟨rfl, ?_, hholds', hlf⟩, (Handler.keyEnter_input (h := ⟨T, []⟩)).2.2⟩
      rw [← hlines]
      rfl
    | modifier => exact Or.inl ⟨hlines, htyp, hholds⟩
  · rw [htyp] at hfalse
    cases hfalse

/-- Where the line is, at each place of the reader. -/
def Typist.Inv (s : Typist) : Prop :=
  match s.reader with
  | .idle => Ready s.term s.script s.returned
  | .waiting n => 129 ≤ n ∧ Ready s.term s.script s.returned
  | .typing n =>
    129 ≤ n ∧ ∃ L, Finished s.term s.script s.returned L ∧ s.term.typingLine = false
  | .testing n => 129 ≤ n ∧ ∃ L, Finished s.term s.script s.returned L ∧ s.term.typingLine = true
  | .clamping => ∃ L, Finished s.term s.script s.returned L ∧ s.term.typingLine = true
  | .copying n buf => ∃ L, Finished s.term s.script s.returned L ∧ s.term.typingLine = true ∧
      n = L.length + 1 ∧ buf.length ≤ n ∧ buf = (L ++ [10]).take buf.length
  | .clearing _ _ buf | .resetting buf => ∃ L, s.script = ⟨s.returned ++ [L ++ [10]], []⟩ ∧
      s.term.typingLine = true ∧ (∀ c ∈ L, c ≠ 0) ∧ buf = L ++ [10, 0]
  | .returning buf => ∃ L, (∀ c ∈ L, c ≠ 0) ∧ buf = L ++ [10, 0] ∧
      Ready s.term s.script (s.returned ++ [L ++ [10]])

/-- Whether the line is being typed is not part of it. -/
lemma Terminal.Holds.setTyping {T : Terminal} {L : List UInt8} {b : Bool} (h : T.Holds L) :
    ({ T with typingLine := b } : Terminal).Holds L :=
  ⟨h.index, h.bytes, h.short, h.nonzero⟩

/-- The byte the copy loop takes next is the next byte of the line and its linefeed. -/
lemma Finished.next {T : Terminal} {sc : Script} {ret : List (List UInt8)} {L : List UInt8} {k : Nat}
    (h : Finished T sc ret L) (hk : k < L.length + 1) :
    (L ++ [10]).take k ++ [T.lineBuffer k] = (L ++ [10]).take (k + 1) := by
  have hk' : k < (L ++ [10]).length := by
    rw [List.length_append, List.length_singleton]
    exact hk
  have hbyte : T.lineBuffer k = (L ++ [10])[k] := by
    rcases Nat.lt_succ_iff_lt_or_eq.mp hk with hlt | rfl
    · rw [List.getElem_append_left hlt]
      exact h.holds.bytes k hlt
    · rw [h.linefeed]
      simp
  rw [hbyte]
  exact List.take_concat_get' _ _ hk'

/-- The string in the buffer ends before its zero byte. -/
lemma takeWhile_line {L : List UInt8} (h : ∀ c ∈ L, c ≠ 0) :
    (L ++ [10, 0]).takeWhile (fun c => decide (c ≠ 0)) = L ++ [10] := by
  rw [List.takeWhile_append_of_pos]
  · rfl
  · intro c hc
    exact decide_eq_true (h c hc)

namespace Typist
variable {s s' : Typist} {below : TermId → Mem}

/-- With the invariant, what was returned is what was typed. -/
lemma Inv.readsTyped (h : s.Inv) : ReadsTyped s := by
  have ready : ∀ ret, s.returned <+: ret → Ready s.term s.script ret → ReadsTyped s := by
    rintro ret hp (⟨hlines, _, _⟩ | ⟨L, hfin, _⟩)
    · unfold ReadsTyped
      rw [hlines]
      exact hp
    · unfold ReadsTyped
      rw [hfin.lines]
      exact hp.trans (List.prefix_append _ _)
  unfold Inv at h
  split at h
  · exact ready _ (List.prefix_refl _) h
  · exact ready _ (List.prefix_refl _) h.2
  · exact ready _ (List.prefix_refl _) (Or.inr h.2)
  · obtain ⟨_, L, hfin, _⟩ := h
    exact ⟨_, hfin.lines.symm⟩
  · obtain ⟨L, hfin, _⟩ := h
    exact ⟨_, hfin.lines.symm⟩
  · obtain ⟨L, hfin, _⟩ := h
    exact ⟨_, hfin.lines.symm⟩
  · obtain ⟨L, hsc, _⟩ := h
    unfold ReadsTyped
    rw [hsc]
    exact List.prefix_append _ _
  · obtain ⟨L, hsc, _⟩ := h
    unfold ReadsTyped
    rw [hsc]
    exact List.prefix_append _ _
  · obtain ⟨L, _, _, hready⟩ := h
    exact ready _ (List.prefix_append _ _) hready

/-- The invariant speaks about the displayed terminal and the lists only. -/
lemma Inv.of_term (h : s.Inv) (hreader : s'.reader = s.reader) (hterm : s'.term = s.term)
    (hscript : s'.script = s.script) (hret : s'.returned = s.returned) : s'.Inv := by
  unfold Inv at h ⊢
  rw [hreader, hterm, hscript, hret]
  exact h

/-- A calm key keeps the invariant. -/
lemma Inv.key {data : UInt8} (h : s.Inv) (hcalm : Calm s (.key data))
    (hst : (typistSystem below).step s (.key data) = some s') : s'.Inv := by
  simp only [typistSystem] at hst
  split at hst
  · cases hst
  next k hkey =>
  split at hst
  · next hlen =>
    have hwent : s.tty.Went (Tty.lineHandler k) (s.tty.keyIrqHandler below data).1 :=
      Tty.keyIrqHandler_lineKey hkey
    have hterm : s'.term = (Tty.lineHandler k ⟨s.term, []⟩).term := by
      cases hst
      unfold term
      rw [hwent.1]
      exact hwent.2
    have hpress : ∀ ret, Ready s.term s.script ret → s.term.typingLine = true →
        Ready s'.term s'.script ret := by
      intro ret hready htyp
      rw [hterm]
      cases hst
      exact hready.press htyp (fun c hc => Tty.lineKey_char (hc ▸ hkey)) hlen
    have hreader : s'.reader = s.reader := by
      cases hst
      rfl
    have hret : s'.returned = s.returned := by
      cases hst
      rfl
    rcases hcalm with hmod | ⟨htyp, hapart⟩
    · rw [hmod] at hkey
      cases hkey
      refine h.of_term hreader hterm ?_ hret
      cases hst
      rfl
    · unfold Inv at h ⊢
      rw [hreader, hret]
      cases hr : s.reader with
      | idle =>
        rw [hr] at h
        exact hpress _ h htyp
      | waiting n =>
        rw [hr] at h
        exact ⟨h.1, hpress _ h.2 htyp⟩
      | returning buf =>
        rw [hr] at h
        obtain ⟨L, hL, hbuf, hready⟩ := h
        exact ⟨L, hL, hbuf, hpress _ hready htyp⟩
      | _ =>
        rw [hr] at hapart
        exact hapart.elim
  · cases hst

/-- The terminal after a step of the reader. -/
lemma step_read : (typistSystem below).step s .read = some
    { s with
      tty := s.tty.setTerminal s.tty.curTerminal (s.reader.step s.term).2.term
      reader := (s.reader.step s.term).1
      returned := s.returned ++ s.reader.result.toList } := rfl

/-- The displayed terminal is the one of the script. -/
lemma term_setTerminal {R : Reader} {sc : Script} {ret : List (List UInt8)} {T : Terminal} :
    term ⟨s.tty.setTerminal s.tty.curTerminal T, R, sc, ret⟩ = T :=
  Function.update_self ..

/-- A step of the reader keeps the invariant. -/
lemma Inv.read (h : s.Inv) (hst : (typistSystem below).step s .read = some s') : s'.Inv := by
  rw [step_read] at hst
  cases hst
  unfold Inv at h ⊢
  simp only [term_setTerminal]
  cases hr : s.reader with
  | idle =>
    rw [hr] at h
    simp only [Reader.step, Reader.result, Option.toList_none, List.append_nil]
    exact h
  | waiting n =>
    rw [hr] at h
    obtain ⟨hn, hready⟩ := h
    simp only [Reader.step, Reader.result, Option.toList_none, List.append_nil]
    rcases hready with hedit | hfin
    · rw [if_pos hedit.typing]
      exact ⟨hn, Or.inl hedit⟩
    · obtain ⟨L, hfin, htyp⟩ := hfin
      rw [if_neg (by rw [htyp]; exact Bool.false_ne_true)]
      exact ⟨hn, L, hfin, htyp⟩
  | typing n =>
    rw [hr] at h
    obtain ⟨hn, L, hfin, _⟩ := h
    simp only [Reader.step, Reader.result, Option.toList_none, List.append_nil]
    exact ⟨hn, L, ⟨hfin.line, hfin.lines, hfin.holds.setTyping, hfin.linefeed⟩, trivial⟩
  | testing n =>
    rw [hr] at h
    obtain ⟨hn, L, hfin, htyp⟩ := h
    have hshort := hfin.holds.short
    have hgt : n > inc32 s.term.lineBufferIndex := by
      rw [hfin.holds.index, inc32_of_lt (by omega)]
      omega
    simp only [Reader.step, Reader.result, Option.toList_none, List.append_nil, if_pos hgt]
    exact ⟨L, hfin, htyp⟩
  | clamping =>
    rw [hr] at h
    obtain ⟨L, hfin, htyp⟩ := h
    have hshort := hfin.holds.short
    simp only [Reader.step, Reader.result, Option.toList_none, List.append_nil]
    refine ⟨L, hfin, htyp, ?_, Nat.zero_le _, rfl⟩
    rw [hfin.holds.index, inc32_of_lt (by omega)]
  | copying n buf =>
    rw [hr] at h
    obtain ⟨L, hfin, htyp, hn, hle, hbuf⟩ := h
    simp only [Reader.step, Reader.result, Option.toList_none, List.append_nil]
    rcases Nat.lt_or_ge buf.length n with hlt | hge
    · simp only [if_pos hlt]
      refine ⟨L, hfin, htyp, hn, ?_, ?_⟩
      · rw [List.length_append, List.length_singleton]
        exact hlt
      · rw [List.length_append, List.length_singleton, ← hfin.next (hn ▸ hlt), ← hbuf]
    · have hfull : buf = L ++ [10] := by
        rw [hbuf, List.take_of_length_le]
        rw [List.length_append, List.length_singleton]
        omega
      simp only [if_neg (Nat.not_lt.mpr hge)]
      refine ⟨L, ?_, htyp, hfin.holds.nonzero, ?_⟩
      · exact congrArg₂ Script.mk hfin.lines hfin.line
      · rw [hfull, List.append_assoc]
        rfl
  | clearing n i buf =>
    rw [hr] at h
    obtain ⟨L, hsc, htyp, hL, hbuf⟩ := h
    simp only [Reader.step, Reader.result, Option.toList_none, List.append_nil]
    rcases Nat.lt_or_ge i n with hlt | hge
    · simp only [if_pos hlt]
      exact ⟨L, hsc, htyp, hL, hbuf⟩
    · simp only [if_neg (Nat.not_lt.mpr hge)]
      exact ⟨L, hsc, htyp, hL, hbuf⟩
  | resetting buf =>
    rw [hr] at h
    obtain ⟨L, hsc, htyp, hL, hbuf⟩ := h
    simp only [Reader.step, Reader.result, Option.toList_none, List.append_nil]
    refine ⟨L, hL, hbuf, Or.inl ⟨?_, htyp, ?_⟩⟩
    · rw [hsc]
    · rw [hsc]
      exact .empty rfl
  | returning buf =>
    rw [hr] at h
    obtain ⟨L, hL, rfl, hready⟩ := h
    simp only [Reader.step, Reader.result, Option.toList_some, takeWhile_line hL]
    exact hready

/-- A call starts where the last one left off. -/
lemma Inv.call {nbytes : Nat} (h : s.Inv)
    (hst : (typistSystem below).step s (.call nbytes) = some s') : s'.Inv := by
  simp only [typistSystem] at hst
  split at hst
  · next hidle =>
    split at hst
    · next hn =>
      cases hst
      unfold Inv at h
      rw [hidle] at h
      exact ⟨hn, h⟩
    · cases hst
  · cases hst

/-- A fresh terminal: nothing typed, nothing read. -/
def install (terminals : TermId → Terminal) : Typist :=
  ⟨Tty.keyboardInstall terminals, .idle, ⟨[], []⟩, []⟩

/-- Nothing has been typed and nothing read at the start. -/
lemma install_inv (terminals : TermId → Terminal) : (install terminals).Inv :=
  Or.inl ⟨rfl, rfl, .empty rfl⟩

end Typist

/-- As long as no editing key comes between an Enter and the end of the read that takes the line, the reads
return the typed lines, whole and in order. -/
theorem calm_reads_are_typed_lines (below : TermId → Mem) (terminals : TermId → Terminal)
    (is : List TypistInput) (hcalm : (typistSystem below).Guarded Calm (.install terminals) is) :
    (typistSystem below).Always ReadsTyped (.install terminals) is := by
  refine System.always_of_guarded ?_ (fun _ h => Typist.Inv.readsTyped h)
    (Typist.install_inv terminals) hcalm
  intro s i s' h hc hst
  cases i with
  | key data => exact h.key hc hst
  | call nbytes => exact h.call hst
  | read => exact h.read hst

/-- One line of one character. -/
theorem calm_reads_are_typed_lines_a :
    (typistSystem fun _ _ => 0).Always ReadsTyped (.install fun _ => .blank)
      ([.key 0x1E, .key 0x1C, .call 129] ++ List.replicate 12 .read) :=
  calm_reads_are_typed_lines _ _ _ (by decide +kernel)

/-- `a`, Enter, `b`, and then a read: it returns `ab`, without a linefeed, where `a` was typed. -/
theorem late_key_edits_finished_line :
    ¬ (typistSystem fun _ _ => 0).Always ReadsTyped (.install fun _ => .blank)
      ([.key 0x1E, .key 0x1C, .key 0x30, .call 129] ++ List.replicate 14 .read) := by
  decide +kernel

end Boss
