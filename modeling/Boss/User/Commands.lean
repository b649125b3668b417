import Boss.Terminal.Echo
import Boss.Terminal.Layout
import Boss.User.Streams

/-!
# The commands `cat` and `ls`

Both commands open something and copy it to the terminal: `cat` the file of its argument, in pieces of 1024 bytes, and
`ls` the directory, one name at a read with a line break behind it. They are run here on the system calls of the kernel,
with the descriptors of their process and the terminals as the state.

`terminal_write` stops at a zero byte. So `cat` shows of each piece what is before its first zero byte
(`cat_shows_entry`), which for a text is all of it. `dir_read` returns the length of the name, and a read that returns 0
is the end for both commands: they stop at the first entry without a name (`ls_shows_names`).
-/

namespace Boss
open Lib

/-! ### System calls of a program -/

/-- What the calls of a program change: the descriptors of its process and the terminals. -/
structure Task where
  fds : Fds
  tty : Tty

/-- `write` from the memory of the program, by a process of terminal `t`. -/
def sysWrite (t : TermId) (s : Task) (fd : Int) (data : Mem) (nbytes : Nat) : Option (Int × Task) :=
  if h : 0 ≤ fd ∧ fd < 8 then
    let i : Fin 8 := ⟨fd.toNat, fd_toNat_lt h⟩
    if (s.fds i).flags = 0 then some (-1, s)
    else
      match (s.fds i).fOp with
      | none => none
      | some .stdout =>
        let (tty, ret) := s.tty.terminalWrite t (some data) nbytes
        some (ret, { s with tty := tty })
      | some op => some (op.written data nbytes, s)
  else some (-1, s)

/-- `ece391_write` of bytes of a buffer. -/
def ece391Write (t : TermId) (s : Task) (fd : Int) (text : List UInt8) : Option (Int × Task) :=
  sysWrite t s fd (fun i => text.getD i 0) text.length

/-- `ece391_fdputs`: what `write` returns is not looked at. -/
def ece391Fdputs (t : TermId) (s : Task) (fd : Int) (text : List UInt8) : Option Task :=
  (ece391Write t s fd text).map Prod.snd

/-! ### The programs -/

/-- The loop of `cat` and of `ls`: read, put `tail` behind what was read, and write it. -/
def copyLoop (fs : Image) (t : TermId) (fd : Int) (size : Nat) (tail : List UInt8) (message : String) :
    (fuel : Nat) → Task → Option (Int × Task)
  | 0, _ => none
  | fuel + 1, s =>
    (ece391Read fs s.fds fd size).bind fun (r, fds) =>
      let s := { s with fds := fds }
      if r.ret = 0 then some (0, s)
      else if r.ret = -1 then (ece391Fdputs t s 1 (ascii message)).map fun s => (3, s)
      else
        (ece391Write t s 1 (r.stored ++ tail)).bind fun (ret, s) =>
          if ret = -1 then some (3, s) else copyLoop fs t fd size tail message fuel s

/-- `main` of `ece391cat.c`. The string in its buffer ends at the zero byte that `getargs` stores. -/
def catMain (fs : Image) (t : TermId) (args : CString) (fuel : Nat) (s : Task) : Option (Int × Task) :=
  let r := getargs args 1024
  if r.ret ≠ 0 then (ece391Fdputs t s 1 (ascii "could not read arguments\n")).map fun s => (3, s)
  else
    (sysOpen fs s.fds (some (.ofList (r.stored.takeWhile (· ≠ 0))))).bind fun (fd, fds) =>
      let s := { s with fds := fds }
      if fd = -1 then (ece391Fdputs t s 1 (ascii "file not found\n")).map fun s => (2, s)
      else copyLoop fs t fd 1024 [] "file read failed\n" fuel s

/-- `main` of `ece391ls.c`. -/
def lsMain (fs : Image) (t : TermId) (fuel : Nat) (s : Task) : Option (Int × Task) :=
  (sysOpen fs s.fds (some (.ofList (ascii ".")))).bind fun (fd, fds) =>
    let s := { s with fds := fds }
    if fd = -1 then (ece391Fdputs t s 1 (ascii "directory open failed\n")).map fun s => (2, s)
    else copyLoop fs t fd 32 [10] "directory entry read failed\n" fuel s

/-! ### Writing to the terminal -/

/-- The loop of `terminal_write` shows the text up to a zero byte. -/
lemma Terminal.writeLoop_takeWhile {T : Terminal} {buf : Mem} {n i : Nat} : T.writeLoop buf n i =
    (T.putText ((buf.bytes i n).takeWhile (· ≠ 0)), i + ((buf.bytes i n).takeWhile (· ≠ 0)).length) := by
  induction n generalizing i T with
  | zero => rfl
  | succ n ih =>
    rw [Mem.bytes_succ, writeLoop]
    by_cases hz : buf i = 0
    · rw [if_pos hz, List.takeWhile_cons_of_neg (by simp [hz])]
      rfl
    · rw [if_neg hz, ih, List.takeWhile_cons_of_pos (by simp [hz]), List.length_cons, Nat.add_assoc, Nat.add_comm 1]
      rfl

namespace Task
variable {s : Task} {t : TermId} {text text' : List UInt8}

/-- What is written to the terminal: the bytes before the first zero byte. -/
def print (s : Task) (t : TermId) (text : List UInt8) : Task :=
  { s with tty := s.tty.setTerminal t ((s.tty.terminals t).putText text) }

/-- Descriptor 1 is the terminal. -/
structure Std (fds : Fds) : Prop where
  op : (fds 1).fOp = some .stdout
  flags : (fds 1).flags = 1

@[simp] lemma print_fds : (s.print t text).fds = s.fds := rfl

/-- Printing nothing changes nothing. -/
lemma print_nil : s.print t [] = s := by
  rw [print]
  exact congrArg (Task.mk s.fds) Tty.setTerminal_self

/-- Printed twice is printed in one piece. -/
lemma print_print : (s.print t text).print t text' = s.print t (text ++ text') := by
  simp only [print, Tty.setTerminal, Terminal.putText, List.foldl_append, Function.update_self, Function.update_idem]

/-- `ece391_write` to the terminal prints up to a zero byte and returns the number of bytes printed. -/
lemma ece391Write_eq (h : Std s.fds) :
    ece391Write t s 1 text = some (((text.takeWhile (· ≠ 0)).length : Int), s.print t (text.takeWhile (· ≠ 0))) := by
  have hopen : ¬ (s.fds 1).flags = 0 := by
    rw [h.flags]
    exact Nat.one_ne_zero
  have hslot : (⟨(1 : Int).toNat, fd_toNat_lt (by decide)⟩ : Fin 8) = 1 := rfl
  have hrange : (0 : Int) ≤ 1 ∧ (1 : Int) < 8 := by decide
  rw [ece391Write, sysWrite, dif_pos hrange]
  simp only [hslot, if_neg hopen, h.op, Tty.terminalWrite, Terminal.writeLoop_takeWhile, Mem.bytes_getD, Nat.zero_add]
  split
  · rfl
  · rfl

/-- `ece391_fdputs` to the terminal prints its text. -/
lemma ece391Fdputs_eq (h : Std s.fds) (htext : 0 ∉ text) : ece391Fdputs t s 1 text = some (s.print t text) := by
  rw [ece391Fdputs, ece391Write_eq h, takeWhile_text htext, Option.map_some]

end Task

/-! ### What is read -/

/-- Reads of `n` bytes deliver these pieces, one after another, and then nothing. -/
inductive Supplies (fs : Image) (i : Fin 8) (n : Nat) : Fds → List (List UInt8) → Prop
  | done {fds fds' : Fds} : ece391Read fs fds i.val n = some (⟨0, []⟩, fds') → Supplies fs i n fds []
  | next {fds fds' : Fds} {piece : List UInt8} {rest : List (List UInt8)} : piece ≠ [] →
      ece391Read fs fds i.val n = some (⟨(piece.length : Int), piece⟩, fds') → fds' 1 = fds 1 →
      Supplies fs i n fds' rest → Supplies fs i n fds (piece :: rest)

section
variable {fs : Image} {t : TermId} {s : Task} {fds : Fds} {i : Fin 8} {rest tail : List UInt8} {fuel n k : Nat}
  {message : String} {parts : List (List UInt8)}

/-- The loop writes what is delivered. -/
lemma Supplies.copyLoop (h : Supplies fs i n fds parts) (hfds : s.fds = fds) (hstd : Task.Std fds)
    (hfuel : parts.length < fuel) :
    ∃ s', Boss.copyLoop fs t i.val n tail message fuel s = some (0, s') ∧
      s'.tty = (s.print t (parts.flatMap fun piece => (piece ++ tail).takeWhile (· ≠ 0))).tty := by
  induction h generalizing s fuel with
  | done hread =>
    obtain ⟨fuel, rfl⟩ := Nat.exists_eq_succ_of_ne_zero (by omega : fuel ≠ 0)
    simp only [Boss.copyLoop, hfds, hread, Option.bind_some, if_true]
    exact ⟨_, rfl, by rw [List.flatMap_nil, Task.print_nil]⟩
  | @next fds fds' piece rest hne hread hsame _ ih =>
    rw [List.length_cons] at hfuel
    obtain ⟨fuel, rfl⟩ := Nat.exists_eq_succ_of_ne_zero (by omega : fuel ≠ 0)
    have hlen := List.length_pos_iff.mpr hne
    have hstd' : Task.Std fds' := ⟨by rw [hsame]; exact hstd.op, by rw [hsame]; exact hstd.flags⟩
    obtain ⟨s', hloop, htty⟩ :=
      @ih (({ s with fds := fds' } : Task).print t ((piece ++ tail).takeWhile (· ≠ 0))) fuel rfl hstd' (by omega)
    refine ⟨s', ?_, ?_⟩
    · have hpos : ¬ (piece.length : Int) = 0 := by omega
      have hok : ¬ (piece.length : Int) = -1 := by omega
      have hwritten : ¬ (((piece ++ tail).takeWhile (· ≠ 0)).length : Int) = -1 := by omega
      have hwrite := @Task.ece391Write_eq { s with fds := fds' } t (piece ++ tail) hstd'
      simp only [Boss.copyLoop, hfds, hread, Option.bind_some, if_neg hpos, if_neg hok, hwrite, if_neg hwritten]
      exact hloop
    · rw [htty, Task.print_print, List.flatMap_cons]
      rfl

/-- A regular file is delivered in pieces. -/
lemma Fds.Streams.supplies (h : fds.Streams fs i rest) (hlimit : fs.limit < 0x100000000) (hi : i ≠ 1) (hn : 0 < n) :
    Supplies fs i n fds (Lines.pieces n rest) := by
  induction rest using Lines.piece_induction hn generalizing fds with
  | nil =>
    obtain ⟨fds', hread, -, -⟩ := h.read hlimit n
    rw [List.take_nil, List.length_nil, Nat.min_zero] at hread
    rw [Lines.pieces_nil]
    exact .done hread
  | piece rest hne ih =>
    obtain ⟨fds', hread, hstream, hothers⟩ := h.read hlimit n
    rw [Lines.pieces_cons hn hne]
    refine .next ?_ ?_ (hothers 1 hi.symm) (ih hstream)
    · rw [ne_eq, List.take_eq_nil_iff]
      exact fun h => h.elim (by omega) hne
    · rw [List.length_take]
      exact hread

/-- The names of the directory, as far as its readers get: up to an entry without a name. -/
def Image.listing (fs : Image) : List (List UInt8) :=
  ((List.range fs.numEntries).map fs.nameOf).takeWhile (· ≠ [])

/-- The directory is delivered name by name. -/
lemma supplies_dir (hentries : fs.numEntries ≤ 63) (hi : i ≠ 1) (hn : 32 ≤ n) (hdir : (fds i).IsDir)
    (hpos : (fds i).fPos = fs.dirPos k) :
    Supplies fs i n fds (((List.range' k (fs.numEntries - k)).map fs.nameOf).takeWhile (· ≠ [])) := by
  induction hm : fs.numEntries - k generalizing k fds with
  | zero =>
    have hread := @sysRead_dir fs .blank fds i userBuf k n hentries hdir hpos rfl
    rw [Image.nthRead, if_neg (by omega)] at hread
    exact .done (by rw [ece391Read, hread, Option.map_some])
  | succ m ih =>
    have hk : k < fs.numEntries := by omega
    have hread := @sysRead_dir fs .blank fds i userBuf k n hentries hdir hpos rfl
    have hlen : (fs.nameOf k).length ≤ 32 := Image.length_nameOf
    have hcount : min n (min 32 (fs.nameOf k).length) = (fs.nameOf k).length := by omega
    rw [Image.nthRead, if_pos hk, hcount, List.take_of_length_le (by omega)] at hread
    have hread' : ece391Read fs fds i.val n = some _ := congrArg (Option.map _) hread
    rw [List.range'_succ, List.map_cons]
    by_cases hname : fs.nameOf k = []
    · rw [List.takeWhile_cons_of_neg (by simp [hname])]
      rw [hname] at hread'
      exact .done hread'
    · rw [List.takeWhile_cons_of_pos (by simp [hname])]
      refine .next hname hread' (Function.update_of_ne hi.symm _ _) ?_
      refine ih ?_ ?_ (by omega)
      · rw [Function.update_self]
        exact ⟨hdir.op, hdir.flags⟩
      · rw [Function.update_self]

/-- What an opened entry delivers to reads of `n` bytes: the RTC nothing, the directory its names. -/
def Image.delivered (fs : Image) (d : Dentry) (n : Nat) : List (List UInt8) :=
  match opsOf d.type with
  | .rtc => []
  | .dir => fs.listing
  | _ => Lines.pieces n (fs.content d.inode)

/-- An entry that can be read: one of the three types, and a regular file has an inode. -/
structure Image.Readable (fs : Image) (d : Dentry) : Prop where
  type : d.type ≤ 2
  inode : d.type = 2 → d.inode < fs.numInodes

/-- The directory, once opened, delivers its names. -/
lemma sysOpen_supplies_dir {name : CString} {d : Dentry} (hentries : fs.numEntries ≤ 63)
    (hfound : fs.lookup name = some d) (htype : d.type = 1) (hn : 32 ≤ n) (hfree : freeSlot fds = some i) :
    ∃ fds', sysOpen fs fds (some name) = some ((i.val : Int), fds') ∧ fds' 1 = fds 1 ∧
      Supplies fs i n fds' fs.listing := by
  have hi : i ≠ 1 := by
    rintro rfl
    exact absurd (freeSlot_least hfree).1 (by decide)
  have hopened : openAt fds d i = some ((i.val : Int), Function.update fds i ⟨some .dir, d.inode, 64, 1, i⟩) := by
    simp only [openAt, File.describe, htype]
    rfl
  refine ⟨Function.update fds i ⟨some .dir, d.inode, 64, 1, i⟩, ?_, Function.update_of_ne hi.symm _ _, ?_⟩
  · rw [sysOpen_found hfound, hfree]
    exact hopened
  · have hpos : (Function.update fds i ⟨some .dir, d.inode, 64, 1, i⟩ i).fPos = fs.dirPos 0 := by
      rw [Function.update_self, Image.dirPos, Nat.zero_min]
    have hdir := supplies_dir hentries hi hn (by rw [Function.update_self]; exact ⟨rfl, rfl⟩) hpos
    rw [Image.listing, List.range_eq_range']
    exact hdir

/-- An entry, once opened, delivers what belongs to its type. -/
lemma sysOpen_supplies {name : CString} {d : Dentry} (hfiles : fs.FilesValid) (hentries : fs.numEntries ≤ 63)
    (hfound : fs.lookup name = some d) (hd : fs.Readable d) (hn : 32 ≤ n) (hfree : freeSlot fds = some i) :
    ∃ fds', sysOpen fs fds (some name) = some ((i.val : Int), fds') ∧ fds' 1 = fds 1 ∧
      Supplies fs i n fds' (fs.delivered d n) := by
  have hi : i ≠ 1 := by
    rintro rfl
    exact absurd (freeSlot_least hfree).1 (by decide)
  have htypes : d.type = 0 ∨ d.type = 1 ∨ d.type = 2 := by
    have := hd.type
    omega
  rcases htypes with htype | htype | htype
  · have hopened : openAt fds d i = some ((i.val : Int), Function.update fds i ⟨some .rtc, 0, 0, 1, i⟩) := by
      simp only [openAt, File.describe, htype]
      rfl
    have hdelivered : fs.delivered d n = [] := by
      rw [Image.delivered, opsOf, htype]
      rfl
    have hread := sysRead_eq fs .blank n (Function.update fds i ⟨some .rtc, 0, 0, 1, i⟩) i
      (by rw [Function.update_self]) (by rw [Function.update_self]) (show isKernelPtr userBuf = false from rfl)
    refine ⟨Function.update fds i ⟨some .rtc, 0, 0, 1, i⟩, ?_, Function.update_of_ne hi.symm _ _, ?_⟩
    · rw [sysOpen_found hfound, hfree]
      exact hopened
    · rw [hdelivered]
      exact .done (congrArg (Option.map _) hread)
  · have hdelivered : fs.delivered d n = fs.listing := by
      rw [Image.delivered, opsOf, htype]
      rfl
    rw [hdelivered]
    exact sysOpen_supplies_dir hentries hfound htype hn hfree
  · obtain ⟨fds', hopen, hstream, hothers⟩ :=
      Image.HasFile.sysOpen ⟨d, hfound, htype, hd.inode htype, rfl⟩ hfiles hfree
    have hdelivered : fs.delivered d n = Lines.pieces n (fs.content d.inode) := by
      rw [Image.delivered, opsOf, htype]
      rfl
    refine ⟨fds', hopen, hothers 1 hi.symm, ?_⟩
    rw [hdelivered]
    exact hstream.supplies hfiles.limit hi (by omega)

end

/-! ### The commands -/

/-- What is shown of an entry by `cat`: of each piece the part before its first zero byte. -/
def Image.catText (fs : Image) (d : Dentry) : List UInt8 :=
  (fs.delivered d 1024).flatMap fun piece => piece.takeWhile (· ≠ 0)

/-- A regular file without zero bytes is shown as it is. -/
lemma Image.catText_eq {fs : Image} {d : Dentry} (htype : d.type = 2) (h : 0 ∉ fs.content d.inode) :
    fs.catText d = fs.content d.inode := by
  have hdelivered : fs.delivered d 1024 = Lines.pieces 1024 (fs.content d.inode) := by
    rw [delivered, opsOf, htype]
    rfl
  have hflat : (Lines.pieces 1024 (fs.content d.inode)).flatten = fs.content d.inode := Lines.flatten_pieces (by decide)
  have htake : ∀ piece ∈ Lines.pieces 1024 (fs.content d.inode), piece.takeWhile (· ≠ 0) = piece := by
    intro piece hpiece
    refine takeWhile_text fun hz => h ?_
    rw [← hflat]
    exact List.mem_flatten.mpr ⟨piece, hpiece, hz⟩
  rw [catText, hdelivered, List.flatMap_congr htake, List.flatMap_id', hflat]

/-- `cat` in a new process, for every argument. An entry that is found is shown, and the status is 0; a text is shown as
it is. Otherwise there is a message, and the status is 2. -/
theorem cat_shows_entry (fs : Image) (hfiles : fs.FilesValid) (hentries : fs.numEntries ≤ 63) (args : CString)
    (hargs : args.length ≤ 127) (t : TermId) (tty : Tty) (fuel : Nat) :
    (∀ d, fs.lookup (.ofList args.chars) = some d → fs.Readable d → (fs.delivered d 1024).length < fuel →
      (∃ s, catMain fs t args fuel ⟨freshFds, tty⟩ = some (0, s) ∧
        s.tty = tty.setTerminal t ((tty.terminals t).putText (fs.catText d))) ∧
      (d.type = 2 → 0 ∉ fs.content d.inode → fs.catText d = fs.content d.inode)) ∧
    (fs.lookup (.ofList args.chars) = none →
      ∃ s, catMain fs t args fuel ⟨freshFds, tty⟩ = some (2, s) ∧
        s.tty = tty.setTerminal t ((tty.terminals t).putText (ascii "file not found\n"))) := by
  have hstd : Task.Std freshFds := ⟨rfl, rfl⟩
  have hstored : getargs args 1024 = ⟨0, args.chars ++ [0]⟩ :=
    @getargs_fits args 1024 hargs (by change (args.length : Int) < 1024; omega)
  have hname : (args.chars ++ [0]).takeWhile (· ≠ 0) = args.chars := takeWhile_string args.zero_notMem_chars
  constructor
  · intro d hfound hd hfuel
    refine ⟨?_, Image.catText_eq⟩
    obtain ⟨fds, hopen, hsame, hdelivers⟩ := sysOpen_supplies (n := 1024) hfiles hentries hfound hd (by decide)
      (show freeSlot freshFds = some 2 from rfl)
    obtain ⟨s, hloop, htty⟩ := @Supplies.copyLoop _ t ⟨fds, tty⟩ _ _ [] _ _ "file read failed\n" _ hdelivers rfl
      ⟨by rw [hsame]; rfl, by rw [hsame]; rfl⟩ hfuel
    refine ⟨s, ?_, ?_⟩
    · simp only [catMain, hstored, hname, hopen, Option.bind_some]
      rw [if_neg (by decide), if_neg (by decide)]
      exact hloop
    · rw [htty]
      simp only [List.append_nil]
      rfl
  · intro hnone
    have hopen : sysOpen fs freshFds (some (.ofList args.chars)) = some (-1, freshFds) := by
      rw [sysOpen, hnone]
    have hputs := @Task.ece391Fdputs_eq ⟨freshFds, tty⟩ t (ascii "file not found\n") hstd (by decide)
    refine ⟨(⟨freshFds, tty⟩ : Task).print t (ascii "file not found\n"), ?_, rfl⟩
    simp only [catMain, hstored, hname, hopen, Option.bind_some]
    rw [if_neg (by decide), if_pos trivial]
    exact congrArg (Option.map _) hputs

/-- An image with the directory and a file `a` of three bytes, one of them zero. -/
def dotImage : Image where
  mem := [(0x400000, [2, 0, 0, 0, 1]), (0x400040, ascii "."), (0x400060, [1]), (0x400080, ascii "a"), (0x4000A0, [2]),
    (0x401000, [3]), (0x402000, [104, 0, 105])].foldl (fun m part => Mem.put m part.1 part.2) fun _ => 0
  base := 0x400000
  limit := 0x403000

/-- Its only inode is within the image. -/
lemma dotImage_valid : dotImage.FilesValid := by
  have hnum : dotImage.numInodes = 1 := rfl
  have hlen : dotImage.lengthBytes 0 = 3 := rfl
  refine ⟨by decide, fun inode hin => ?_⟩
  obtain rfl : inode = 0 := by omega
  refine ⟨by decide, by omega, fun j hj => ?_⟩
  obtain rfl : j = 0 := by omega
  decide

/-- The bytes of `a`. -/
lemma dotImage_content : dotImage.content 0 = [104, 0, 105] := by
  rw [Image.content_eq_slice (by decide)]
  rfl

/-- Only the first of its bytes is shown. -/
theorem cat_shows_entry_a : ∃ s, catMain dotImage 0 (.ofList (ascii "a")) 5 ⟨freshFds, clearTty⟩ = some (0, s) ∧
    s.tty = clearTty.setTerminal 0 ((clearTty.terminals 0).putText [104]) := by
  obtain ⟨d, hfound, htype, hinode⟩ : ∃ d, dotImage.lookup (.ofList (ascii "a")) = some d ∧ d.type = 2 ∧ d.inode = 0 :=
    ⟨_, rfl, rfl, rfl⟩
  have hdelivered : dotImage.delivered d 1024 = [[104, 0, 105]] := by
    rw [Image.delivered, opsOf, htype, hinode, dotImage_content]
    rfl
  have hshown : dotImage.catText d = [104] := by
    rw [Image.catText, hdelivered]
    rfl
  obtain ⟨⟨s, hcat, htty⟩, -⟩ := (cat_shows_entry dotImage dotImage_valid (by decide) (.ofList (ascii "a")) (by decide) 0
    clearTty 5).1 d hfound ⟨by omega, fun _ => by rw [hinode]; decide⟩ (by rw [hdelivered]; decide)
  exact ⟨s, hcat, by rw [htty, hshown]⟩

/-- Where `.` is found as a directory, `ls` in a new process shows its names, each on a line of its own, up to an entry
without a name. -/
theorem ls_shows_names (fs : Image) (hentries : fs.numEntries ≤ 63) (d : Dentry)
    (hfound : fs.lookup (.ofList (ascii ".")) = some d) (htype : d.type = 1) (t : TermId) (tty : Tty) (fuel : Nat)
    (hfuel : fs.numEntries < fuel) :
    ∃ s, lsMain fs t fuel ⟨freshFds, tty⟩ = some (0, s) ∧
      s.tty = tty.setTerminal t ((tty.terminals t).putText (fs.listing.flatMap (· ++ [10]))) := by
  have hlen : fs.listing.length ≤ fs.numEntries := by
    have hle := (List.takeWhile_prefix (l := (List.range fs.numEntries).map fs.nameOf) (· ≠ [])).length_le
    rwa [List.length_map, List.length_range] at hle
  have hlines : ∀ name ∈ fs.listing, (name ++ [10]).takeWhile (· ≠ 0) = name ++ [10] := by
    intro name hname
    obtain ⟨k, -, rfl⟩ := List.mem_map.mp ((List.takeWhile_prefix _).subset hname)
    refine takeWhile_text fun hz => ?_
    rcases List.mem_append.mp hz with hz | hz
    · exact Image.zero_notMem_nameOf hz
    · exact absurd (List.mem_singleton.mp hz) (by decide)
  obtain ⟨fds, hopen, hsame, hdelivers⟩ := sysOpen_supplies_dir hentries hfound htype (Nat.le_refl 32)
    (show freeSlot freshFds = some 2 from rfl)
  obtain ⟨s, hloop, htty⟩ := @Supplies.copyLoop _ t ⟨fds, tty⟩ _ _ [10] _ _ "directory entry read failed\n" _ hdelivers
    rfl ⟨by rw [hsame]; rfl, by rw [hsame]; rfl⟩ (Nat.lt_of_le_of_lt hlen hfuel)
  refine ⟨s, ?_, ?_⟩
  · simp only [lsMain, hopen, Option.bind_some]
    rw [if_neg (by decide)]
    exact hloop
  · rw [htty, List.flatMap_congr hlines]
    rfl

/-- The directory of this image. -/
theorem ls_shows_names_a : ∃ s, lsMain dotImage 0 3 ⟨freshFds, clearTty⟩ = some (0, s) ∧
    s.tty = clearTty.setTerminal 0 ((clearTty.terminals 0).putText (ascii ".\na\n")) := by
  obtain ⟨d, hfound, htype⟩ : ∃ d, dotImage.lookup (.ofList (ascii ".")) = some d ∧ d.type = 1 := ⟨_, rfl, rfl⟩
  have hlisting : dotImage.listing.flatMap (· ++ [10]) = ascii ".\na\n" := by decide
  rw [← hlisting]
  exact ls_shows_names dotImage (by decide) d hfound htype 0 clearTty 3 (by decide)

end Boss
