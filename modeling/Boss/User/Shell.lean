import Boss.Terminal.Scancodes
import Boss.User.Commands

/-!
# The shell

`main` of `ece391shell.c` on the terminal of its process. At a prompt the shell waits in `read` while somebody types; the
keys go through the keyboard handler, and Enter ends the line. What `execute` does with a command is left open here: it
is any function that gives a result, changes the rest of the system in some way and leaves the terminal ready for the next
line.

`Follows` is a session as a user sees it. It has no buffer: every line is handed to `execute` as it was typed, in the state
that the prompt and the typing of the line have left, and the report on its result is printed before the next prompt.
`shell_follows_lines` says that the shell ends such a session in its last state. Its buffer is used again for every line,
and bytes of earlier lines stand behind the present one. `read` puts a zero byte behind the line break, and the shell
overwrites the line break with another one, so that a command always comes with two zero bytes behind it: this is where
the loops over the command history stop.
-/

namespace Boss
open Lib

/-! ### String comparison -/

/-- `ece391_strcmp`, for strings that end or differ in the first `fuel` bytes. -/
def ece391Strcmp (m1 m2 : Mem) : (fuel s1 s2 : Nat) → Int
  | 0, _, _ => 0
  | fuel + 1, s1, s2 =>
    if m1 s1 = m2 s2 then if m1 s1 = 0 then 0 else ece391Strcmp m1 m2 fuel (s1 + 1) (s2 + 1)
    else (m1 s1).toNat - (m2 s2).toNat

/-- Two strings compare equal when they are. -/
lemma ece391Strcmp_eq_zero {m1 m2 : Mem} {s1 s2 fuel : Nat} {l s : List UInt8} (h1 : m1.IsStr s1 l) (h2 : m2.IsStr s2 s)
    (hfuel : s.length < fuel) : ece391Strcmp m1 m2 fuel s1 s2 = 0 ↔ l = s := by
  induction s generalizing l s1 s2 fuel with
  | nil =>
    obtain ⟨fuel, rfl⟩ := Nat.exists_eq_succ_of_ne_zero (by omega : fuel ≠ 0)
    have hz : m2 s2 = 0 := h2
    rw [ece391Strcmp, hz]
    cases l with
    | nil =>
      have hz1 : m1 s1 = 0 := h1
      simp [hz1]
    | cons b l =>
      obtain ⟨hb, hne, -⟩ := h1
      rw [hb, if_neg hne]
      refine iff_of_false (fun h => hne (UInt8.toNat_inj.mp ?_)) (List.cons_ne_nil _ _)
      change (b.toNat : Int) - 0 = 0 at h
      change b.toNat = 0
      omega
  | cons c s ih =>
    rw [List.length_cons] at hfuel
    obtain ⟨fuel, rfl⟩ := Nat.exists_eq_succ_of_ne_zero (by omega : fuel ≠ 0)
    obtain ⟨hc, hne, htail⟩ := h2
    rw [ece391Strcmp, hc]
    cases l with
    | nil =>
      have hz : m1 s1 = 0 := h1
      rw [hz, if_neg hne.symm]
      refine iff_of_false (fun h => hne (UInt8.toNat_inj.mp ?_)) (List.cons_ne_nil _ _).symm
      change (0 : Int) - c.toNat = 0 at h
      change c.toNat = 0
      omega
    | cons b l =>
      obtain ⟨hb, hbne, hbtail⟩ := h1
      rw [hb, List.cons.injEq]
      by_cases hbc : b = c
      · rw [if_pos hbc, if_neg hbne, ih hbtail htail (by omega), and_iff_right hbc]
      · rw [if_neg hbc]
        refine iff_of_false (fun h => hbc (UInt8.toNat_inj.mp ?_)) fun h => hbc h.1
        omega

/-! ### The program -/

/-- How a session ends. -/
inductive ShellEnd
  /-- In `read`, for a line that nobody types. -/
  | waiting
  | returned (status : Int)

/-- The literal `"exit"`. -/
def exitText : Mem := fun i => (ascii "exit").getD i 0

/-- The string `exit`. -/
lemma exitText_isStr : exitText.IsStr 0 (ascii "exit") := by
  refine ⟨rfl, ?_, rfl, ?_, rfl, ?_, rfl, ?_, rfl⟩ <;> decide

/-- What the shell prints after a command. -/
def shellReport (rval : Int) : List (List UInt8) :=
  if rval = -1 then [ascii "no such command\n"]
  else if rval = 256 then [ascii "program terminated by exception\n"]
  else if rval ≠ 0 then [ascii "program terminated abnormally\n"]
  else []

/-- `ece391_fdputs` of some texts. -/
def putTexts (t : TermId) (s : Task) (texts : List (List UInt8)) : Option Task :=
  texts.foldlM (fun s text => ece391Fdputs t s 1 text) s

/-- The keyboard while a `read` of terminal `t` waits: somebody presses some keys and then Enter. -/
def awaitLine (t : TermId) (presses : List Press) (tty : Tty) : Tty :=
  if (tty.terminals t).typingLine then tty.receive (presses ++ [⟨0x1C, zeroBelow⟩]) else tty

/-- The line in the buffer: its line break, or else the byte behind it, is overwritten with a zero byte. -/
def cutLine (buf : Mem) (cnt : Nat) : CString :=
  let cnt := if 0 < cnt ∧ buf (cnt - 1) = 10 then cnt - 1 else cnt
  ⟨Function.update buf cnt 0, cnt, Function.update_self ..⟩

/-- The greeting of the shell. -/
def greeting : List UInt8 := ascii "Starting 391 Shell\n"

/-- Its prompt. -/
def prompt : List UInt8 := ascii "391OS> "

section
-- the rest of the system, which only `execute` changes
variable {ω : Type}
variable (fs : Image) (t : TermId) (keys : List UInt8 → Tty → List Press)
  (exec : Command → Task → ω → Option (Int × Task × ω))

/-- What becomes of a line in the buffer: the state, and the status if `main` returns. -/
def shellCommand (command : CString) (s : Task) (w : ω) : Option (Task × ω × Option Int) :=
  if ece391Strcmp command.byte exitText 5 0 0 = 0 then some (s, w, some 0)
  else if command.byte 0 = 0 then some (s, w, none)
  else
    (exec (.ofString command) s w).bind fun (rval, s, w) =>
      (putTexts t s (shellReport rval)).map fun s => (s, w, none)

/-- The loop of `main` from the return of `read` on, with the bytes that are in the buffer afterwards. -/
def shellRound (buf : Mem) (s : Task) (w : ω) (r : Result) : Option (Mem × Task × ω × Option Int) :=
  let buf := buf.put 0 r.stored
  if r.ret = -1 then
    (ece391Fdputs t s 1 (ascii "read from keyboard failed\n")).map fun s => (buf, s, w, some 3)
  else
    let command := cutLine buf r.ret.toNat
    (shellCommand t exec command s w).map fun (s, w, status) => (command.byte, s, w, status)

/-- The loop of `main`, with the lines that are typed at its prompts. How somebody types a line depends on the state of
the keyboard. -/
def shellLoop : (lines : List (List UInt8)) → Mem → Task → ω → Option (ShellEnd × Task × ω)
  | [], _, s, w => (ece391Fdputs t s 1 prompt).map fun s => (.waiting, s, w)
  | l :: lines, buf, s, w =>
    (ece391Fdputs t s 1 prompt).bind fun s =>
      let tty := awaitLine t (keys l s.tty) s.tty
      if (tty.terminals t).typingLine then some (.waiting, { s with tty }, w)
      else
        (sysRead fs (tty.terminals t) s.fds 0 userBuf 1023).bind fun (r, fds, T) =>
          (shellRound t exec buf ⟨fds, tty.setTerminal t T⟩ w r).bind fun (buf, s, w, status) =>
            match status with
            | some status => some (.returned status, s, w)
            | none => shellLoop lines buf s w

/-- `main` of `ece391shell.c`. -/
def shellMain (lines : List (List UInt8)) (buf : Mem) (s : Task) (w : ω) : Option (ShellEnd × Task × ω) :=
  (ece391Fdputs t s 1 greeting).bind fun s => shellLoop fs t keys exec lines buf s w

/-! ### The session -/

/-- A line is typed behind a prompt, and a read takes it away. -/
def Task.takeLine (t : TermId) (keys : List UInt8 → Tty → List Press) (s : Task) (l : List UInt8) : Task :=
  let s := s.print t prompt
  let tty := awaitLine t (keys l s.tty) s.tty
  { s with tty := tty.setTerminal t ((tty.terminals t).terminalRead 1023).2 }

/-- What a shell should do with the lines: run those with a command in them, in order, up to `exit`. A command is the line
with two zero bytes behind it. -/
inductive Follows : (lines : List (List UInt8)) → Task → ω → ShellEnd → Task → ω → Prop
  | wait {s : Task} {w : ω} : Follows [] s w .waiting (s.print t prompt) w
  | leave {lines : List (List UInt8)} {s : Task} {w : ω} :
    Follows (ascii "exit" :: lines) s w (.returned 0) (s.takeLine t keys (ascii "exit")) w
  | skip {lines : List (List UInt8)} {s s' : Task} {w w' : ω} {e : ShellEnd} :
    Follows lines (s.takeLine t keys []) w e s' w' → Follows ([] :: lines) s w e s' w'
  | run {l : List UInt8} {lines : List (List UInt8)} {c : Command} {rval : Int} {s s1 s' : Task} {w w1 w' : ω}
      {e : ShellEnd} :
    l ≠ [] → l ≠ ascii "exit" → c.Reads 0 (l ++ [0, 0]) → exec c (s.takeLine t keys l) w = some (rval, s1, w1) →
    Follows lines ((shellReport rval).foldl (fun s text => s.print t text) s1) w1 e s' w' →
    Follows (l :: lines) s w e s' w'

end

/-- The shell has its terminal as descriptors 0 and 1. -/
structure Task.Ready (s : Task) (t : TermId) : Prop where
  std : Task.Std s.fds
  op : (s.fds 0).fOp = some .stdin
  flags : (s.fds 0).flags = 1
  tty : s.tty.Ready t

/-- The terminal that was written. -/
lemma Tty.setTerminal_same {s : Tty} {t : TermId} {T : Terminal} : (s.setTerminal t T).terminals t = T :=
  Function.update_self ..

/-- Output is nothing to the input side. -/
lemma Terminal.putText_input {T : Terminal} {text : List UInt8} : SameInput T (T.putText text) := by
  induction text generalizing T with
  | nil => exact ⟨rfl, rfl, rfl, rfl, rfl⟩
  | cons c text ih => exact termPutc_input.trans ih

section
variable {t : TermId} {tty : Tty} {s : Task} {l : List UInt8} {fs : Image}

/-- Output leaves the shell ready. -/
lemma Task.Ready.print {text : List UInt8} (h : s.Ready t) : (s.print t text).Ready t := by
  have hT : (s.print t text).tty.terminals t = (s.tty.terminals t).putText text := Function.update_self ..
  refine ⟨h.std, h.op, h.flags, h.tty.cur, ?_, ?_⟩
  · rw [hT, Terminal.putText_input.index, h.tty.line]
  · rw [hT, Terminal.putText_input.typing, h.tty.typing]

/-- Some texts are printed one after another. -/
lemma Task.Ready.putTexts {texts : List (List UInt8)} (h : s.Ready t) (htexts : ∀ text ∈ texts, 0 ∉ text) :
    Boss.putTexts t s texts = some (texts.foldl (fun s text => s.print t text) s) ∧
      (texts.foldl (fun s text => s.print t text) s).Ready t := by
  induction texts generalizing s with
  | nil => exact ⟨rfl, h⟩
  | cons text texts ih =>
    rw [List.forall_mem_cons] at htexts
    obtain ⟨hputs, hready⟩ := ih h.print htexts.2
    rw [Boss.putTexts, List.foldlM_cons, Task.ece391Fdputs_eq h.std htexts.1]
    exact ⟨hputs, hready⟩

/-- The reports have no zero byte in them. -/
lemma shellReport_text {rval : Int} : ∀ text ∈ shellReport rval, 0 ∉ text := by
  unfold shellReport
  split
  · decide
  · split
    · decide
    · split
      · decide
      · decide

/-- What `read` gives the shell when a line has been typed. -/
lemma Task.Ready.read {presses : List Press} (h : s.Ready t) (htypes : Editor.Types ⟨s.tty, []⟩ (presses.map Press.data) l) :
    0 ∉ l ∧ ((awaitLine t presses s.tty).terminals t).typingLine = false ∧
      sysRead fs ((awaitLine t presses s.tty).terminals t) s.fds 0 userBuf 1023 =
        some (⟨((l.length + 1 : Nat) : Int), l ++ [10, 0]⟩, s.fds,
          (((awaitLine t presses s.tty).terminals t).terminalRead 1023).2) ∧
      Task.Ready ⟨s.fds, (awaitLine t presses s.tty).setTerminal t
        (((awaitLine t presses s.tty).terminals t).terminalRead 1023).2⟩ t := by
  obtain ⟨hprint, ed, hrun, rfl⟩ := htypes
  obtain ⟨hholds, hcur⟩ := Editor.run_holds hrun hprint h.tty
  have hwent : ed.tty.Went (Tty.lineHandler .enter) (ed.tty.keyIrqHandler zeroBelow 0x1C).1 :=
    Tty.keyIrqHandler_lineKey rfl
  have htty : awaitLine t presses s.tty = (ed.tty.keyIrqHandler zeroBelow 0x1C).1 := by
    rw [awaitLine, if_pos h.tty.typing, Tty.receive_append]
    exact congrArg (fun tty : Tty => (tty.keyIrqHandler zeroBelow 0x1C).1) (Editor.run_tty hrun)
  have hT : (awaitLine t presses s.tty).terminals t = (Handler.keyEnter ⟨ed.term, []⟩).term := by
    rw [htty, ← hcur]
    exact hwent.2
  have hstored := Terminal.terminalRead_entered hholds.index hholds.bytes hholds.short (show 129 ≤ 1023 by decide)
  have hcount : (((ed.line ++ [10, 0]).takeWhile (· ≠ 0)).length : Int) = ((ed.line.length + 1 : Nat) : Int) := by
    rw [takeWhile_line hholds.nonzero, List.length_append]
    rfl
  have hread := sysRead_eq fs ((awaitLine t presses s.tty).terminals t) 1023 s.fds 0 h.flags h.op
    (show isKernelPtr userBuf = false from rfl)
  simp only [Ops.read, hT, hstored, hcount, Function.update_eq_self] at hread
  refine ⟨fun hz => hholds.nonzero 0 hz rfl, ?_, hT ▸ hread, h.std, h.op, h.flags, ?_, ?_, ?_⟩
  · rw [hT]
    exact Handler.keyEnter_input.2.2
  · exact (congrArg Tty.curTerminal htty).trans (hwent.1.trans hcur)
  · rw [Tty.setTerminal_same]
    rfl
  · rw [Tty.setTerminal_same]
    rfl

/-- The zero byte takes the place of the line break. -/
lemma cutLine_line {buf : Mem} : (cutLine (buf.put 0 (l ++ [10, 0])) (l.length + 1)).byte = buf.put 0 (l ++ [0, 0]) := by
  have hbreak : buf.put 0 (l ++ [10, 0]) l.length = 10 := by
    rw [Mem.put_apply, if_pos (by simp), Nat.sub_zero, List.getD_append_right _ _ _ _ (Nat.le_refl _), Nat.sub_self]
    rfl
  have hne : l.length ≠ l.length + 1 := by omega
  simp only [cutLine, Nat.add_sub_cancel, hbreak, Nat.zero_lt_succ, and_self, if_true]
  rw [Mem.put_append, Mem.put_append, Nat.zero_add]
  simp only [Mem.put]
  rw [Function.update_comm hne.symm, Function.update_idem, Function.update_comm hne]

/-- The line in the buffer is a string. -/
lemma isStr_of_put {m buf : Mem} (hm : m = buf.put 0 (l ++ [0, 0])) (hl : 0 ∉ l) : m.IsStr 0 l := by
  have hall : m.bytes 0 (l ++ [0, 0]).length = l ++ [0, 0] := by
    rw [hm]
    exact Mem.bytes_put
  rw [List.length_append, Mem.bytes_add] at hall
  obtain ⟨hline, hzero⟩ := List.append_inj hall Mem.length_bytes
  have hstr := Mem.isStr_of_bytes hline hl
  rwa [Nat.zero_add, Function.update_eq_self_iff.mpr] at hstr
  rw [Nat.zero_add] at hzero
  exact (List.cons.inj hzero).1.symm

/-- The kernel reads the bytes of the buffer. -/
lemma Command.reads_ofString {c : CString} {bs : List UInt8} {i : Nat} (h : c.byte.bytes i bs.length = bs) :
    (Command.ofString c).Reads i bs := by
  induction bs generalizing i with
  | nil => trivial
  | cons b bs ih =>
    rw [List.length_cons, Mem.bytes_succ, List.cons.injEq] at h
    exact ⟨congrArg some h.1, ih h.2⟩

variable {ω : Type} {w : ω} {exec : Command → Task → ω → Option (Int × Task × ω)}

/-- One round for a line: the state afterwards, and the status if `main` returns. -/
inductive RoundOf (t : TermId) (exec : Command → Task → ω → Option (Int × Task × ω)) (s : Task) (w : ω) :
    List UInt8 → Task → ω → Option Int → Prop
  | leave : RoundOf t exec s w (ascii "exit") s w (some 0)
  | skip : RoundOf t exec s w [] s w none
  | run {l : List UInt8} {c : Command} {rval : Int} {s1 : Task} {w1 : ω} : l ≠ [] → l ≠ ascii "exit" →
    c.Reads 0 (l ++ [0, 0]) → exec c s w = some (rval, s1, w1) →
    RoundOf t exec s w l ((shellReport rval).foldl (fun s text => s.print t text) s1) w1 none

/-- The shell does with the line in the buffer what it should do with it. -/
lemma Task.Ready.shellCommand {command : CString} {buf : Mem} (h : s.Ready t) (hl : 0 ∉ l)
    (hbyte : command.byte = buf.put 0 (l ++ [0, 0]))
    (hexec : ∀ c s w, s.Ready t → ∃ rval s' w', exec c s w = some (rval, s', w') ∧ s'.Ready t) :
    ∃ s' w' status, Boss.shellCommand t exec command s w = some (s', w', status) ∧ s'.Ready t ∧
      RoundOf t exec s w l s' w' status := by
  have hstr : command.byte.IsStr 0 l := isStr_of_put hbyte hl
  have hcmp : ece391Strcmp command.byte exitText 5 0 0 = 0 ↔ l = ascii "exit" :=
    ece391Strcmp_eq_zero hstr exitText_isStr (by decide)
  rw [Boss.shellCommand]
  by_cases hexit : l = ascii "exit"
  · rw [if_pos (hcmp.mpr hexit), hexit]
    exact ⟨_, _, _, rfl, h, .leave⟩
  rw [if_neg fun hz => hexit (hcmp.mp hz)]
  cases l with
  | nil =>
    have hz : command.byte 0 = 0 := hstr
    rw [if_pos hz]
    exact ⟨_, _, _, rfl, h, .skip⟩
  | cons b l =>
    rw [if_neg fun hz => hstr.2.1 (hstr.1.symm.trans hz)]
    obtain ⟨rval, s1, w1, hrun, h1⟩ := hexec (.ofString command) s w h
    obtain ⟨hputs, h2⟩ := h1.putTexts (@shellReport_text rval)
    have hreads : (Command.ofString command).Reads 0 (b :: l ++ [0, 0]) := by
      refine Command.reads_ofString ?_
      rw [hbyte]
      exact Mem.bytes_put
    refine ⟨_, w1, none, ?_, h2, .run (List.cons_ne_nil _ _) hexit hreads hrun⟩
    simp only [hrun, Option.bind_some, hputs, Option.map_some]

/-- The same from the return of `read` on. -/
lemma Task.Ready.shellRound (h : s.Ready t) (hl : 0 ∉ l) (buf : Mem)
    (hexec : ∀ c s w, s.Ready t → ∃ rval s' w', exec c s w = some (rval, s', w') ∧ s'.Ready t) :
    ∃ buf' s' w' status, Boss.shellRound t exec buf s w ⟨((l.length + 1 : Nat) : Int), l ++ [10, 0]⟩ =
      some (buf', s', w', status) ∧ s'.Ready t ∧ RoundOf t exec s w l s' w' status := by
  obtain ⟨s', w', status, hcommand, h', hround⟩ := h.shellCommand hl (@cutLine_line l buf) hexec
  have hok : ¬ ((l.length + 1 : Nat) : Int) = -1 := by omega
  refine ⟨(cutLine (buf.put 0 (l ++ [10, 0])) (l.length + 1)).byte, s', w', status, ?_, h', hround⟩
  simp only [Boss.shellRound, if_neg hok, Int.toNat_natCast, hcommand, Option.map_some]

/-- The loop follows the lines. -/
lemma Task.Ready.shellLoop {keys : List UInt8 → Tty → List Press} {lines : List (List UInt8)} {buf : Mem}
    (h : s.Ready t)
    (hexec : ∀ c s w, s.Ready t → ∃ rval s' w', exec c s w = some (rval, s', w') ∧ s'.Ready t)
    (hkeys : ∀ l ∈ lines, ∀ tty : Tty, tty.Ready t → Editor.Types ⟨tty, []⟩ ((keys l tty).map Press.data) l) :
    ∃ e s' w', Boss.shellLoop fs t keys exec lines buf s w = some (e, s', w') ∧ Follows t keys exec lines s w e s' w' := by
  have hprompt := @Task.ece391Fdputs_eq s t prompt h.std (by decide)
  induction lines generalizing s w buf with
  | nil =>
    rw [Boss.shellLoop, hprompt]
    exact ⟨_, _, _, rfl, .wait⟩
  | cons l lines ih =>
    rw [List.forall_mem_cons] at hkeys
    have h1 := @Task.Ready.print t s prompt h
    obtain ⟨hl, htyping, hread, h2⟩ := @Task.Ready.read t (s.print t prompt) l fs _ h1 (hkeys.1 _ h1.tty)
    obtain ⟨buf', s3, w3, status, hround, h3, hround'⟩ := @Task.Ready.shellRound t _ l ω w exec h2 hl buf hexec
    have hnext := @Task.ece391Fdputs_eq s3 t prompt h3.std (by decide)
    rw [Boss.shellLoop, hprompt, Option.bind_some]
    simp only [htyping, Bool.false_eq_true, if_false, hread, Option.bind_some, hround]
    cases hround' with
    | leave => exact ⟨_, _, _, rfl, .leave⟩
    | skip =>
      obtain ⟨e, s4, w4, hloop, hfollows⟩ := ih h3 hkeys.2 hnext
      exact ⟨e, s4, w4, hloop, .skip hfollows⟩
    | run hne hexit hreads hrun =>
      obtain ⟨e, s4, w4, hloop, hfollows⟩ := ih h3 hkeys.2 hnext
      exact ⟨e, s4, w4, hloop, .run hne hexit hreads hrun hfollows⟩

end

/-- The shell greets and then runs the lines that are typed at its prompts, in order and as they were typed: empty ones
are skipped, `exit` ends it with status 0, and every other line is handed to `execute` in the state that it was typed in,
with the message that belongs to its result printed before the next prompt. Whatever the buffer held before, the command
has two zero bytes behind it. The terminal, the descriptors and the rest of the system are in the end what such a session
makes of them. -/
theorem shell_follows_lines {ω : Type} (fs : Image) (t : TermId) (keys : List UInt8 → Tty → List Press)
    (exec : Command → Task → ω → Option (Int × Task × ω))
    (hexec : ∀ c s w, s.Ready t → ∃ rval s' w', exec c s w = some (rval, s', w') ∧ s'.Ready t)
    (lines : List (List UInt8))
    (hkeys : ∀ l ∈ lines, ∀ tty : Tty, tty.Ready t → Editor.Types ⟨tty, []⟩ ((keys l tty).map Press.data) l) (buf : Mem)
    (s : Task) (hs : s.Ready t) (w : ω) :
    ∃ e s' w', shellMain fs t keys exec lines buf s w = some (e, s', w') ∧
      Follows t keys exec lines (s.print t greeting) w e s' w' := by
  rw [shellMain, Task.ece391Fdputs_eq hs.std (by decide), Option.bind_some]
  exact hs.print.shellLoop hexec hkeys

/-- The keys of `ls`, with the modifier keys released before. -/
def lsKeys (tty : Tty) : List Press :=
  (([0xAA, 0xB6, 0xB8, 0x9D] ++ ((if tty.capslock then [0x3A] else []) ++ [0x26, 0x1F])) : List UInt8).map
    (⟨·, zeroBelow⟩)

/-- The line `ls`, with an `execute` that counts its calls and finds no program. -/
theorem shell_follows_lines_ls : ∃ e s' w',
    shellMain shellImage 0 (fun _ => lsKeys) (fun _ s w => some (-1, s, w + 1)) [ascii "ls"] (fun _ => 7)
        ⟨freshFds, installed⟩ (0 : Nat) = some (e, s', w') ∧
      Follows 0 (fun _ => lsKeys) (fun _ s w => some (-1, s, w + 1)) [ascii "ls"]
        (Task.print ⟨freshFds, installed⟩ 0 greeting) 0 e s' w' := by
  refine shell_follows_lines shellImage 0 _ _ (fun c s w h => ⟨-1, s, w + 1, rfl, h⟩) _ ?_ _ _
    ⟨⟨rfl, rfl⟩, rfl, rfl, rfl, rfl, rfl⟩ 0
  intro l hl tty hready
  rw [List.mem_singleton] at hl
  obtain ⟨numlock, scrolllock, capslock, leftShift, rightShift, alt, ctrl, cur, terminals⟩ := tty
  rw [hl]
  cases capslock <;> (repeat' refine Editor.types_cons rfl nofun ?_) <;> exact Editor.types_nil

end Boss
