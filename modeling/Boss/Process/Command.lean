import Boss.Terminal.Keyboard

/-!
# Command lines

What `execute` does with the command it is given: cut it into `pcb->name` and `pcb->args`, and enter it into
the history of the terminal. A command is read through a pointer of the caller, so each byte may be a page
fault (`Command.byte` is `none` there); both loops report how far they came when that happens.

`name` and `args` are adjacent arrays of 128 bytes at the start of a PCB, and the code relies on it: a name
of 128 characters has its zero byte in `args[0]`, and the loop that removes trailing spaces looks at
`args[-1]` when there are no arguments. `text` is therefore one array of 256 bytes.
-/

namespace Boss
open Lib

/-- A command behind a pointer; somewhere it ends, with a zero byte or with the mapped memory. -/
structure Command where
  byte : Nat → Option UInt8
  bound : Nat
  stop : byte bound = none ∨ byte bound = some 0

namespace Command

/-- A string in mapped memory. -/
def ofString (s : CString) : Command := ⟨fun i => some (s.byte i), s.bound, Or.inr (by rw [s.nul])⟩

/-- The loop that copies the name; the index is `none` after a page fault. -/
def nameLoop (c : Command) : (fuel i : Nat) → Mem → Mem × Option Nat
  | 0, i, text => (text, some i)
  | fuel + 1, i, text =>
    match c.byte i with
    | none => (text, none)
    | some b =>
      if b = 32 ∨ b = 0 then (text, some i) else c.nameLoop fuel (i + 1) (Function.update text i b)

/-- The loop that skips spaces. -/
def skipLoop (c : Command) : (fuel i : Nat) → Option Nat
  | 0, i => some i
  | fuel + 1, i =>
    match c.byte i with
    | none => none
    | some b => if b = 32 then c.skipLoop fuel (i + 1) else some i

/-- The loop that copies the arguments. -/
def argsLoop (c : Command) (offset : Nat) : (fuel i : Nat) → Mem → Mem × Option Nat
  | 0, i, text => (text, some i)
  | fuel + 1, i, text =>
    match c.byte i with
    | none => (text, none)
    | some b =>
      if b = 0 then (text, some i)
      else c.argsLoop offset fuel (i + 1) (Function.update text (128 + (i - offset)) b)

/-- The loop that clears trailing spaces, from below index `n` on. -/
def trimLoop : (n : Nat) → Mem → Mem
  | 0, text => text
  | n + 1, text => if text n = 32 then trimLoop n (Function.update text n 0) else text

/-- The parsing part of `execute`, on a zeroed PCB: the text and the length of the name. -/
def parse (c : Command) : Mem × Option Nat :=
  match c.nameLoop 128 0 (fun _ => 0) with
  | (text, none) => (text, none)
  | (text, some len) =>
    let text := Function.update text len 0
    match c.skipLoop (c.bound + 1 - len) len with
    | none => (text, none)
    | some offset =>
      match c.argsLoop offset (128 - offset) offset text with
      | (text, none) => (text, none)
      | (text, some i) => (trimLoop (128 + (i - offset)) text, some len)

/-- The loop that stores a command into `cmd_hist[0]`; `false` after a page fault. -/
def histLoop (c : Command) : (fuel i : Nat) → Mem → Mem × Bool
  | 0, _, row => (row, true)
  | fuel + 1, i, row =>
    match c.byte i with
    | none => (row, false)
    | some b => c.histLoop fuel (i + 1) (Function.update row i b)

/-- The history part of `execute` on the five rows of a terminal. -/
def pushHist (c : Command) (hist : Nat → Mem) : (Nat → Mem) × Bool :=
  let shifted : Nat → Mem := fun i j => if 1 ≤ i ∧ i ≤ 4 ∧ j < 128 then hist (i - 1) j else hist i j
  let (row, ok) := c.histLoop maxBufIndex 0 (shifted 0)
  (Function.update shifted 0 row, ok)

variable {c : Command} {fuel i : Nat} {row : Mem} {hist : Nat → Mem}

/-- The bytes that are entered into the history are mapped. -/
def HistMapped (c : Command) : Prop := ∀ i < maxBufIndex, ∃ b, c.byte i = some b

/-- The loop faults at the first byte that is not mapped. -/
lemma histLoop_ok :
    (c.histLoop fuel i row).2 = true ↔ ∀ j, i ≤ j → j < i + fuel → ∃ b, c.byte j = some b := by
  induction fuel generalizing i row with
  | zero => exact ⟨fun _ j hlo hhi => absurd hhi (by omega), fun _ => rfl⟩
  | succ fuel ih =>
    simp only [histLoop]
    cases hb : c.byte i with
    | none =>
      refine ⟨fun h => (by cases h), fun h => ?_⟩
      obtain ⟨b, hb'⟩ := h i (Nat.le_refl i) (by omega)
      rw [hb] at hb'
      cases hb'
    | some b =>
      refine ih.trans ⟨fun h j hlo hhi => ?_, fun h j hlo hhi => h j (by omega) (by omega)⟩
      rcases Nat.eq_or_lt_of_le hlo with rfl | hlt
      · exact ⟨b, hb⟩
      · exact h j hlt (by omega)

/-- A command is entered into the history without a page fault when its bytes are mapped. -/
lemma pushHist_ok : (c.pushHist hist).2 = true ↔ c.HistMapped := by
  have hok : (c.pushHist hist).2 = (c.histLoop maxBufIndex 0 (hist 0)).2 := rfl
  rw [hok, histLoop_ok]
  simp only [Nat.zero_le, true_imp_iff, Nat.zero_add, HistMapped]

/-- A string in mapped memory is followed by mapped memory. -/
lemma ofString_histMapped (s : CString) : (ofString s).HistMapped := fun i _ => ⟨s.byte i, rfl⟩

end Command

end Boss
