import Boss.Terminal.Lines

/-!
# Editing a line

All keys of the keyboard but Enter, UP, DOWN and the terminal switches, as a line editor would treat them: a
key with a character appends it while there is room, Backspace drops the last character, control-L empties
the line, and every other key leaves it alone. `editSystem` runs the handler beside this editor, and
`Delivers` asks what a process gets to see of it: Enter now, followed by a read, returns the edited line and a
linefeed.

The tables have a zero for a key without a character, and the comment over them calls it unprintable. The
handler does not look: it appends the zero as any character. The line then ends there for the reader, which
returns the length of a string. `line_editing_iff` says that this is the only difference: the line can be read
at any time exactly when no such key comes while there is room for it.
-/

namespace Boss
open Lib

/-! ### Keys -/

/-- A key that does not end the line. -/
inductive EditKey
  | char (c : UInt8)
  | backspace
  | clear
  | silent
  /-- A key without a character. -/
  | unprintable
  deriving DecidableEq

/-- What a key does to the line. -/
def EditKey.edit (L : List UInt8) : EditKey → List UInt8
  | char c => if L.length < 127 then L ++ [c] else L
  | backspace => L.dropLast
  | clear => []
  | silent | unprintable => L

namespace Tty

/-- The key of a byte from the keyboard; Enter, UP, DOWN and the terminal switches are none of these. -/
def editKey (s : Tty) (data : UInt8) : Option EditKey :=
  if data &&& 0x80 ≠ 0 ∨ data ∈ modifierCodes then some .silent
  else if data = 0x1C ∨ data = 0x48 ∨ data = 0x50 then none
  else if data = 0x0E then some .backspace
  else if s.ctrl ∧ keyboardChars.getD data.toNat 0 = 108 then some .clear
  else if s.alt ∧ (data = 0x3B ∨ data = 0x3C ∨ data = 0x3D) then none
  else if s.keyboardCharacter data = 0 then some .unprintable
  else some (.char (s.keyboardCharacter data))

/-- What the handler does on the displayed terminal. -/
def editHandler : EditKey → Handler → Handler
  | .char c => .keyChar c
  | .backspace => .keyBackspace
  | .clear => .keyReset
  | .silent => id
  | .unprintable => .keyChar 0

variable {s : Tty} {data : UInt8} {below : TermId → Mem}

/-- The handler on such a key: the displayed terminal goes through the key's branch. -/
lemma keyIrqHandler_editKey {k : EditKey} (h : s.editKey data = some k) :
    s.Went (editHandler k) (s.keyIrqHandler below data).1 := by
  unfold editKey at h
  split at h
  · next hsilent =>
    cases h
    refine keyIrqHandler_lineKey (k := .modifier) ?_
    unfold lineKey
    by_cases hbreak : data &&& 0x80 ≠ 0
    · rw [if_pos hbreak]
    · rw [if_neg hbreak, if_pos (hsilent.resolve_left hbreak)]
  next hsilent =>
  obtain ⟨hmake, hmod⟩ := not_or.mp hsilent
  simp only [modifierCodes, List.mem_cons, List.not_mem_nil, or_false, not_or] at hmod
  obtain ⟨h1, h2, h3, h4, h5, h6, h7⟩ := hmod
  have hmake := not_not.mp hmake
  split at h
  · cases h
  next hend =>
  obtain ⟨henter, hup, hdown⟩ := by simpa only [not_or] using hend
  unfold keyIrqHandler
  simp only
  rw [if_pos hmake, scancode_of_make hmake, keyPressed, if_neg h1, if_neg h2, if_neg h3, if_neg h4, if_neg h5,
    if_neg h6, if_neg h7, if_neg henter]
  split at h
  · next hback =>
    cases h
    rw [if_pos hback]
    exact went_onCur
  next hback =>
  rw [if_neg hback, if_neg hup, if_neg hdown]
  split at h
  · next hclear =>
    cases h
    rw [if_pos hclear]
    exact went_onCur
  next hclear =>
  rw [if_neg hclear]
  split at h
  · cases h
  next hswitch =>
  rw [if_neg fun hf => hswitch ⟨hf.1, Or.inl hf.2⟩, if_neg fun hf => hswitch ⟨hf.1, Or.inr (Or.inl hf.2)⟩,
    if_neg fun hf => hswitch ⟨hf.1, Or.inr (Or.inr hf.2)⟩]
  split at h
  · next hzero =>
    cases h
    rw [hzero]
    exact went_onCur
  · cases h
    exact went_onCur

/-- Characters are not zero. -/
lemma editKey_char {c : UInt8} (h : s.editKey data = some (.char c)) : c ≠ 0 := by
  unfold editKey at h
  repeat' split at h
  all_goals cases h
  assumption

end Tty

/-! ### The edited line -/

/-- The handler and the line that the keys have edited. -/
structure Editor where
  tty : Tty
  line : List UInt8

/-- The displayed terminal. -/
def Editor.term (s : Editor) : Terminal := s.tty.terminals s.tty.curTerminal

/-- Keys that edit. -/
def editSystem (below : TermId → Mem) : System Editor UInt8 where
  step s data := (s.tty.editKey data).map fun k => ⟨(s.tty.keyIrqHandler below data).1, k.edit s.line⟩

/-- The displayed terminal after Enter. -/
def Editor.entered (below : TermId → Mem) (s : Editor) : Terminal :=
  Editor.term ⟨(s.tty.keyIrqHandler below 0x1C).1, s.line⟩

/-- Enter finishes the line, and a read with room for it returns it with a linefeed. The value of the read is
the length of what it returns. -/
def Delivers (below : TermId → Mem) (s : Editor) : Prop :=
  (s.entered below).typingLine = false ∧
    ∀ nbytes, 129 ≤ nbytes →
      ((s.entered below).terminalRead nbytes).1.takeWhile (· ≠ 0) = s.line ++ [10] ∧
      (((s.entered below).terminalRead nbytes).1.takeWhile (· ≠ 0)).length = s.line.length + 1

/-- A key without a character comes only when the line is full. -/
def Printable (s : Editor) (data : UInt8) : Prop :=
  s.tty.editKey data = some .unprintable → 127 ≤ s.line.length

instance (s : Editor) (data : UInt8) : Decidable (Printable s data) := by
  unfold Printable
  infer_instance

variable {s s' : Editor} {below : TermId → Mem} {data : UInt8}

/-- What ENTER leaves. -/
lemma Editor.entered_eq : s.entered below = (Handler.keyEnter ⟨s.term, []⟩).term := by
  have hwent : s.tty.Went (Tty.lineHandler .enter) (s.tty.keyIrqHandler below 0x1C).1 :=
    Tty.keyIrqHandler_lineKey rfl
  rw [entered, term, hwent.1]
  exact hwent.2

/-- What a read stores of a finished line. -/
lemma Terminal.terminalRead_entered {T : Terminal} {M : List UInt8} {nbytes : Nat}
    (hindex : T.lineBufferIndex = M.length) (hbytes : ∀ i (h : i < M.length), T.lineBuffer i = M[i])
    (hshort : M.length ≤ 127) (hroom : 129 ≤ nbytes) :
    ((Handler.keyEnter ⟨T, []⟩).term.terminalRead nbytes).1 = M ++ [10, 0] := by
  obtain ⟨hbuf, hidx, _⟩ := Handler.keyEnter_input (h := ⟨T, []⟩)
  have hinc : inc32 M.length = M.length + 1 := inc32_of_lt (by omega)
  have hcount : (Handler.keyEnter ⟨T, []⟩).term.readCount nbytes = M.length + 1 := by
    rw [Terminal.readCount, hidx, hindex, hinc]
    exact if_pos (by omega)
  have hline : Mem.bytes (Handler.keyEnter ⟨T, []⟩).term.lineBuffer 0 (M.length + 1) = M ++ [10] := by
    refine List.ext_getElem (by simp) fun i hi _ => ?_
    rw [Mem.getElem_bytes, Nat.zero_add, hbuf]
    simp only [hindex, Function.update_apply]
    rw [Mem.length_bytes] at hi
    rcases Nat.lt_or_ge i M.length with hiM | hiM
    · rw [if_neg (by omega), List.getElem_append_left hiM]
      exact hbytes i hiM
    · obtain rfl : i = M.length := by omega
      simp
  simp only [Terminal.terminalRead, hcount, hline, List.append_assoc, List.cons_append, List.nil_append]

/-- A line of characters is delivered. -/
lemma Terminal.Holds.delivers (h : s.term.Holds s.line) : Delivers below s := by
  rw [Delivers, Editor.entered_eq]
  refine ⟨(Handler.keyEnter_input (h := ⟨s.term, []⟩)).2.2, fun nbytes hroom => ?_⟩
  have hread : ((Handler.keyEnter ⟨s.term, []⟩).term.terminalRead nbytes).1.takeWhile (· ≠ 0) =
      s.line ++ [10] := by
    rw [Terminal.terminalRead_entered h.index h.bytes h.short hroom]
    exact takeWhile_line h.nonzero
  rw [hread]
  exact ⟨rfl, by simp⟩

/-- A key that edits keeps the line in the buffer. -/
lemma Terminal.Holds.edit {k : EditKey} (h : s.term.Holds s.line) (hkey : s.tty.editKey data = some k)
    (hprint : Printable s data) :
    Terminal.Holds (Tty.editHandler k ⟨s.term, []⟩).term (k.edit s.line) := by
  have hindex := h.index
  have hfull : ∀ c, 127 ≤ s.line.length → Handler.keyChar c ⟨s.term, []⟩ = ⟨s.term, []⟩ := by
    intro c hlen
    refine if_neg ?_
    simp only [hindex, maxBufIndex]
    omega
  cases k with
  | char c =>
    by_cases hlt : s.line.length < 127
    · simp only [EditKey.edit, if_pos hlt]
      exact h.keyChar hlt (Tty.editKey_char hkey)
    · simp only [EditKey.edit, if_neg hlt, Tty.editHandler, hfull c (Nat.not_lt.mp hlt)]
      exact h
  | backspace => exact h.keyBackspace
  | clear => exact .empty rfl
  | silent => exact h
  | unprintable =>
    simp only [Tty.editHandler, hfull 0 (hprint hkey)]
    exact h

/-- A step is a key that edits, on both sides. -/
lemma Editor.step_inv (h : (editSystem below).step s data = some s') : ∃ k, s.tty.editKey data = some k ∧
    s'.term = (Tty.editHandler k ⟨s.term, []⟩).term ∧ s'.line = k.edit s.line := by
  obtain ⟨k, hkey, rfl⟩ := Option.map_eq_some_iff.mp h
  obtain ⟨hcur, hterm⟩ : s.tty.Went (Tty.editHandler k) (s.tty.keyIrqHandler below data).1 :=
    Tty.keyIrqHandler_editKey hkey
  refine ⟨k, hkey, ?_, rfl⟩
  rw [term, hcur]
  exact hterm

/-- A zero in the buffer ends the line for the reader. -/
lemma Terminal.Holds.not_delivers (h : s.term.Holds s.line) (hlt : s.line.length < 127) {u : Editor}
    (hline : u.line = s.line) (hterm : u.term = (Handler.keyChar 0 ⟨s.term, []⟩).term) :
    ¬ Delivers below u := by
  have hindex := h.index
  have hroom : s.term.lineBufferIndex < maxBufIndex := h.index ▸ hlt
  obtain ⟨hbuf, hidx, _⟩ := Handler.keyChar_input (h := ⟨s.term, []⟩) (c := 0) hroom
  simp only [hindex] at hbuf hidx
  rw [← hterm] at hbuf hidx
  have hread : ((u.entered below).terminalRead 129).1 = s.line ++ [0] ++ [10, 0] := by
    rw [Editor.entered_eq]
    have hlen : (s.line ++ [0]).length ≤ 127 := by
      rw [List.length_append, List.length_singleton]
      omega
    refine Terminal.terminalRead_entered (by simpa using hidx) (fun i hi => ?_) hlen (Nat.le_refl 129)
    rw [List.length_append, List.length_singleton] at hi
    rw [hbuf, Function.update_apply]
    rcases Nat.lt_or_ge i s.line.length with hiL | hiL
    · rw [if_neg (by omega), List.getElem_append_left hiL]
      exact h.bytes i hiL
    · obtain rfl : i = s.line.length := by omega
      simp
  intro hdel
  -- the string ends at the zero, so it has no linefeed
  have hlen := (hdel.2 129 (Nat.le_refl 129)).2
  rw [hread, hline, List.append_assoc, List.takeWhile_append_of_pos fun c hc => decide_eq_true (h.nonzero c hc)]
    at hlen
  simp at hlen

/-- From an empty line on, the line can be read at any time exactly when no key without a character has come
while there was room. -/
theorem line_editing_iff (below : TermId → Mem) (s : Tty) (hempty : (s.terminals s.curTerminal).lineBufferIndex = 0)
    (keys : List UInt8) (t : Editor) (hrun : (editSystem below).run ⟨s, []⟩ keys = some t) :
    (editSystem below).Always (Delivers below) ⟨s, []⟩ keys ↔
      (editSystem below).Guarded Printable ⟨s, []⟩ keys := by
  have hstart : Terminal.Holds (Editor.term ⟨s, []⟩) [] := .empty hempty
  refine System.always_iff_guarded (I := fun s => s.term.Holds s.line) ?_ ?_ hstart hstart.delivers hrun
  · intro s data s' h _ hprint hstep
    obtain ⟨k, hkey, hterm, hline⟩ := Editor.step_inv hstep
    have hholds : s'.term.Holds s'.line := by
      rw [hterm, hline]
      exact h.edit hkey hprint
    exact ⟨hholds, hholds.delivers⟩
  · intro s data s' h _ hprint hstep
    obtain ⟨k, hkey, hterm, hline⟩ := Editor.step_inv hstep
    obtain ⟨hunprintable, hlt⟩ := Classical.not_imp.mp hprint
    obtain rfl : k = .unprintable := Option.some.inj (hkey.symm.trans hunprintable)
    exact h.not_delivers (Nat.not_le.mp hlt) hline hterm

/-- A freshly installed driver. -/
def installed : Tty := .keyboardInstall fun _ => .blank

/-- The keys `A` (with shift), Backspace, `l` and `s`. -/
theorem line_editing_iff_ls : (editSystem fun _ _ => 0).Always (Delivers fun _ _ => 0) ⟨installed, []⟩
    [0x2a, 0x1e, 0xaa, 0x0e, 0x26, 0x1f] := by
  have hrun : ∃ t, (editSystem fun _ _ => 0).run ⟨installed, []⟩ [0x2a, 0x1e, 0xaa, 0x0e, 0x26, 0x1f] = some t :=
    ⟨_, rfl⟩
  obtain ⟨t, hrun⟩ := hrun
  exact (line_editing_iff (fun _ _ => 0) installed rfl _ t hrun).mpr (by decide +kernel)

/-- After F1 the line reads as empty, without its linefeed. -/
theorem unprintable_key_ends_line : ∃ t, (editSystem fun _ _ => 0).run ⟨installed, []⟩ [0x3B] = some t ∧
    t.line = [] ∧ ((t.entered fun _ _ => 0).terminalRead 129).1 = [0, 10, 0] ∧ ¬ Delivers (fun _ _ => 0) t := by
  refine ⟨_, rfl, rfl, rfl, fun hdel => ?_⟩
  exact absurd (hdel.2 129 (Nat.le_refl 129)).2 (by decide +kernel)

end Boss
