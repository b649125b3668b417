import Boss.Filesys.Image
import Boss.Terminal.Reader

/-!
# Files and their drivers

`struct file` and the five operation tables (`filesystem.h`, `RTC.h`, `keyboard.h`). A driver gets a pointer
into the descriptor table: here it takes the file and returns it. What a read stores through the caller's
pointer is part of its result, byte by byte from the start of the buffer.

`RTC_read` returns 0 after the next interrupt and stores nothing; the ports the RTC driver sets up have no
effect on files. `terminal_open` and `terminal_close` fail.
-/

namespace Boss
open Lib

/-- The operation tables. -/
inductive Ops
  | stdin
  | stdout
  | rtc
  | dir
  | file
  deriving DecidableEq

/-- `struct file`. -/
structure File where
  fOp : Option Ops
  fInode : Nat
  fPos : Nat
  flags : Nat
  fdIndex : Nat
  deriving DecidableEq

/-- A zeroed `struct file`. -/
def File.zero : File := ⟨none, 0, 0, 0, 0⟩

/-- What a call gives back: the value returned and the bytes stored to `buf[0..]`. -/
structure Result where
  ret : Int
  stored : List UInt8
  deriving DecidableEq

/-- A call that fails before it stores anything. -/
def Result.fail : Result := ⟨-1, []⟩

/-- `file_read`. -/
def fileRead (fs : Image) (f : File) (bytes : Nat) : Result × File :=
  let (ret, stored) := fs.readData f.fInode f.fPos bytes
  let read := (ret % 0x100000000).toNat
  (⟨ret, stored⟩, if read > 0 then { f with fPos := (f.fPos + read) % 0x100000000 } else f)

/-- The loop of `dir_read`. -/
def dirLoop (name : Mem) : (fuel i : Nat) → List UInt8
  | 0, _ => []
  | fuel + 1, i => if name i = 0 then [] else name i :: dirLoop name fuel (i + 1)

/-- `dir_read`. -/
def dirRead (fs : Image) (f : File) (bytes : Nat) : Result × File :=
  let bytes := if bytes > 32 then 32 else bytes
  if f.fPos / 64 > fs.numEntries then (⟨0, []⟩, f)
  else
    let name : Mem := fun i => fs.byte (fs.base + f.fPos + i)
    let stored := dirLoop name bytes 0
    (⟨stored.length, stored⟩, { f with fPos := (f.fPos + 64) % 0x100000000 })

/-- `dir_open`. -/
def dirOpen (f : File) : Int × File := (0, { f with fPos := 64 })

namespace Ops

/-- `f_op->read`, with the terminal of the calling process for `terminal_read`. -/
def read (fs : Image) (T : Terminal) (f : File) (bytes : Nat) : Ops → Result × File × Terminal
  | stdin =>
    let (stored, T) := T.terminalRead bytes
    (⟨(stored.takeWhile (· ≠ 0)).length, stored⟩, f, T)
  | stdout => (.fail, f, T)
  | rtc => (⟨0, []⟩, f, T)
  | dir =>
    let (r, f) := dirRead fs f bytes
    (r, f, T)
  | file =>
    let (r, f) := fileRead fs f bytes
    (r, f, T)

/-- `f_op->open`. -/
def opened (f : File) : Ops → Int × File
  | stdin | stdout => (-1, f)
  | rtc | file => (0, f)
  | dir => dirOpen f

/-- `f_op->close`. -/
def closed : Ops → Int
  | stdin | stdout => -1
  | rtc | dir | file => 0

end Ops

end Boss
