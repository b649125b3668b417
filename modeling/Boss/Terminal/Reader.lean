import Boss.Lib.System
import Boss.Terminal.Keyboard

/-!
# Reading a line

`terminal_read` waits for Enter with interrupts enabled and copies the line with interrupts enabled, so
key presses fall between any two of its accesses to the terminal. `Reader` is the place it has reached,
with its local variables and the bytes stored so far through `buf`; `Reader.step` is the code from one
access to the next.

`terminalRead` is the same call with nothing in between. `terminalRead_run` connects the two: undisturbed
steps from the start of a call end in the state that `terminalRead` computes.
-/

namespace Boss
open Lib

/-- Where a `terminal_read` is. -/
inductive Reader
  | idle
  /-- `while(typingLine);` -/
  | waiting (nbytes : Nat)
  /-- `typingLine = true;` -/
  | typing (nbytes : Nat)
  /-- `if(nbytes > line_buffer_index+1)` -/
  | testing (nbytes : Nat)
  /-- `nbytes = line_buffer_index+1;` -/
  | clamping
  /-- The copy loop; `buf` has been stored to. -/
  | copying (nbytes : Nat) (buf : List UInt8)
  /-- The loop that zeroes `line_buffer[i]`. -/
  | clearing (nbytes i : Nat) (buf : List UInt8)
  /-- `line_buffer_index=0;` -/
  | resetting (buf : List UInt8)
  /-- `return strlen(terminal_buffer);` -/
  | returning (buf : List UInt8)

namespace Reader

/-- One step of a `terminal_read` on its terminal. -/
def step (T : Terminal) : Reader → Reader × Handler
  | idle => (idle, ⟨T, []⟩)
  | waiting n => (if T.typingLine then waiting n else typing n, ⟨T, []⟩)
  | typing n => (testing n, ⟨{ T with typingLine := true }, []⟩)
  | testing n => (if n > inc32 T.lineBufferIndex then clamping else copying n [], ⟨T, []⟩)
  | clamping => (copying (inc32 T.lineBufferIndex) [], ⟨T, []⟩)
  | copying n buf =>
    if buf.length < n then
      (copying n (buf ++ [T.lineBuffer buf.length]), ⟨T, [.lineBuffer buf.length]⟩)
    else (clearing n 0 (buf ++ [0]), ⟨T, []⟩)
  | clearing n i buf =>
    if i < n then (clearing n (i + 1) buf, Handler.putLine ⟨T, []⟩ i 0) else (resetting buf, ⟨T, []⟩)
  | resetting buf => (returning buf, Handler.setIndex ⟨T, []⟩ 0)
  | returning _ => (idle, ⟨T, []⟩)

/-- The string in the caller's buffer when a call returns; the return value is its length. -/
def result : Reader → Option (List UInt8)
  | returning buf => some (buf.takeWhile (· ≠ 0))
  | _ => none

end Reader

namespace Terminal

/-- The number of characters a read copies. -/
def readCount (T : Terminal) (nbytes : Nat) : Nat :=
  if nbytes > inc32 T.lineBufferIndex then inc32 T.lineBufferIndex else nbytes

/-- `terminal_read` on a finished line: the bytes stored to `buf[0..]` and the terminal afterwards. -/
def terminalRead (T : Terminal) (nbytes : Nat) : List UInt8 × Terminal :=
  let n := T.readCount nbytes
  (Mem.bytes T.lineBuffer 0 n ++ [0],
    { T with
      typingLine := true
      lineBuffer := fun i => if i < n then 0 else T.lineBuffer i
      lineBufferIndex := 0 })

end Terminal

/-- An undisturbed reader. -/
def readerSystem : System (Reader × Terminal) Unit where
  step := fun (R, T) _ => some ((R.step T).1, (R.step T).2.term)

namespace Reader
variable {T : Terminal} {n i k : Nat} {buf : List UInt8}

/-- The copy loop copies what is left of the line. -/
lemma run_copying (h : buf = Mem.bytes T.lineBuffer 0 i) (hi : i + k = n) :
    readerSystem.run (copying n buf, T) (List.replicate k ()) =
      some (copying n (Mem.bytes T.lineBuffer 0 n), T) := by
  induction k generalizing i buf with
  | zero =>
    subst h
    have : i = n := by omega
    subst this
    rfl
  | succ k ih =>
    have hlen : buf.length = i := by rw [h, Mem.length_bytes]
    have hlt : buf.length < n := by omega
    have hnext : buf ++ [T.lineBuffer buf.length] = Mem.bytes T.lineBuffer 0 (i + 1) := by
      rw [hlen, h]
      simp [Mem.bytes, List.range_succ]
    rw [List.replicate_succ]
    simp only [System.run, readerSystem, step, if_pos hlt, Option.bind_some]
    exact ih hnext (by omega)

/-- The clearing loop zeroes what is left of the line. -/
lemma run_clearing (hi : i + k = n) :
    readerSystem.run (clearing n i buf, T) (List.replicate k ()) =
      some (clearing n n buf,
        { T with lineBuffer := fun j => if i ≤ j ∧ j < n then 0 else T.lineBuffer j }) := by
  induction k generalizing i T with
  | zero =>
    have : i = n := by omega
    subst this
    have hnone : ∀ j, ¬ (i ≤ j ∧ j < i) := by omega
    simp [hnone]
  | succ k ih =>
    have hlt : i < n := by omega
    rw [List.replicate_succ]
    simp only [System.run, readerSystem, step, if_pos hlt, Option.bind_some]
    refine (ih (by omega)).trans ?_
    congr 3
    funext j
    simp only [Handler.putLine, Function.update_apply]
    split
    · rw [if_pos (by omega)]
    · split
      · rw [if_pos (by omega)]
      · rw [if_neg (by omega)]

end Reader

/-- Undisturbed, a call on a finished line returns with the state `terminalRead` computes. -/
theorem terminalRead_run {T : Terminal} {nbytes : Nat} (h : T.typingLine = false) :
    ∃ k, readerSystem.run (.waiting nbytes, T) (List.replicate k ()) =
      some (.returning (T.terminalRead nbytes).1, (T.terminalRead nbytes).2) := by
  -- up to the copy loop the path depends on the clamp only
  obtain ⟨k, hk⟩ : ∃ k, readerSystem.run (.waiting nbytes, T) (List.replicate k ()) =
      some (.copying (T.readCount nbytes) [], { T with typingLine := true }) := by
    by_cases hc : nbytes > inc32 T.lineBufferIndex
    · refine ⟨4, ?_⟩
      simp [List.replicate, System.run, readerSystem, Reader.step, h, hc, Terminal.readCount]
    · refine ⟨3, ?_⟩
      simp [List.replicate, System.run, readerSystem, Reader.step, h, hc, Terminal.readCount]
  let n := T.readCount nbytes
  have hcopy : readerSystem.run (.copying n [], { T with typingLine := true }) (List.replicate n ()) =
      some (.copying n (Mem.bytes T.lineBuffer 0 n), { T with typingLine := true }) :=
    Reader.run_copying (i := 0) rfl (Nat.zero_add n)
  have hnul : readerSystem.run (.copying n (Mem.bytes T.lineBuffer 0 n), { T with typingLine := true })
      (List.replicate 1 ()) = some (.clearing n 0 (Mem.bytes T.lineBuffer 0 n ++ [0]),
        { T with typingLine := true }) := by
    simp [List.replicate, System.run, readerSystem, Reader.step]
  refine ⟨k + (n + (1 + (n + 2))), ?_⟩
  simp only [List.replicate_add, System.run_append, hk, Option.bind_some]
  rw [hcopy, Option.bind_some, hnul, Option.bind_some, Reader.run_clearing (Nat.zero_add n)]
  simp [List.replicate, System.run, readerSystem, Reader.step, Terminal.terminalRead,
    Handler.setIndex, n]

end Boss
