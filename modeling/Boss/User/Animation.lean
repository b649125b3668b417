import Boss.Lib.Lines
import Boss.User.Blink
import Boss.User.Streams

/-!
# The animation of the fish program

`main` of `fish.c` reads two drawings from files and lets the screen change between them. `add_frames` reads both files
character by character and side by side, and adds a blinking structure for each place where one of the drawings is not
blank.

The reading is followed row by row: `Ahead` says what is left of the row and of the file, whether the row is still read,
its line break has been met or the file has ended. What the tasklet shows at a time follows from the period of a
structure (`Blink.char_iterate_ticked`). Together they say what is on the screen when `add_frames` is followed by any
number of ticks, as a function of the two files in the image (`ticked_frames_alternate`).
-/

namespace Boss
open Lib Lib.Lines

/-! ### The program -/

/-- The variables of `add_frames` for one of its files: the descriptor, the character read last, and whether the file
has ended. -/
structure FrameFile where
  fd : Int
  c : UInt8
  eof : Bool

namespace FrameFile

/-- Read the next character, unless the row of this file is over. -/
def next (fs : Image) (fds : Fds) (f : FrameFile) : Option (FrameFile × Fds) :=
  if f.c ≠ 10 then
    (ece391Read fs fds f.fd 1).map fun (r, fds) =>
      (if r.ret = 0 then { f with c := 10, eof := true } else { f with c := r.stored.headD f.c }, fds)
  else some (f, fds)

/-- Prepare for the next row. A file that has ended is closed again after each row. -/
def endRow (fds : Fds) (f : FrameFile) : Option (FrameFile × Fds) :=
  if f.eof then (sysClose fds f.fd).map fun (_, fds) => ({ f with c := 10 }, fds) else some ({ f with c := 48 }, fds)

end FrameFile

/-- The descriptors, the two files, and the memory of the blinking structures. -/
structure Frames where
  fds : Fds
  f0 : FrameFile
  f1 : FrameFile
  fish : Fish

namespace Frames

/-- `blink_struct`, with what it holds already: nobody sets the fields that are not named here. -/
def blinkStruct (stale : Blink) (row col : Nat) (c0 c1 : UInt8) : Blink :=
  { stale with
    onLength := 15, offLength := 15, onChar := if c0 = 10 then 32 else c0, offChar := if c1 = 10 then 32 else c1,
    location := UInt16.ofNat (row * 80 + col + 40) }

/-- The inner loop, from a column on. -/
def rowLoop (fs : Image) (stale : Blink) (row : Nat) : (fuel col : Nat) → Frames → Option Frames
  | 0, _, _ => none
  | fuel + 1, col, a =>
    (a.f0.next fs a.fds).bind fun (f0, fds) =>
      (a.f1.next fs fds).bind fun (f1, fds) =>
        if f0.c = 10 ∧ f1.c = 10 then some ⟨fds, f0, f1, a.fish⟩
        else if (f0.c ≠ 32 ∧ f0.c ≠ 10) ∨ (f1.c ≠ 32 ∧ f1.c ≠ 10) then
          rowLoop fs stale row fuel (col + 1)
            ⟨fds, f0, f1, (a.fish.mp1IoctlAdd (blinkStruct stale row col f0.c f1.c)).2⟩
        else rowLoop fs stale row fuel (col + 1) ⟨fds, f0, f1, a.fish⟩

/-- The outer loop, from a row on. -/
def frameLoop (fs : Image) (stale : Blink) (columns : Nat) : (fuel row : Nat) → Frames → Option Frames
  | 0, _, _ => none
  | fuel + 1, row, a =>
    if a.f0.eof = false ∨ a.f1.eof = false then
      (rowLoop fs stale row columns 0 a).bind fun a =>
        (a.f0.endRow a.fds).bind fun (f0, fds) =>
          (a.f1.endRow fds).bind fun (f1, fds) => frameLoop fs stale columns fuel (row + 1) ⟨fds, f0, f1, a.fish⟩
    else some a

end Frames

/-- `add_frames`, with a bound for the columns and the rows; `.error` is the status with which the program is halted. -/
def addFrames (fs : Image) (stale : Blink) (fuel : Nat) (fds : Fds) (s : Fish) : Option (Except UInt8 Frames) :=
  (sysOpen fs fds (some (.ofList (ascii "frame0.txt")))).bind fun (fd0, fds) =>
    if fd0 < 0 then some (.error 255)
    else
      (sysOpen fs fds (some (.ofList (ascii "frame1.txt")))).bind fun (fd1, fds) =>
        if fd1 < 0 then some (.error 255)
        else (Frames.frameLoop fs stale fuel fuel 0 ⟨fds, ⟨fd0, 48, false⟩, ⟨fd1, 48, false⟩, s⟩).map .ok

/-- The loops of `main`: wait for the RTC and run the tasklet. -/
def waitLoop : Nat → Fish → Option Fish
  | 0, s => some s
  | n + 1, s => s.mp1RtcTasklet.bind (waitLoop n)

/-- `add_frames` where `main` calls it, and `n` ticks of the RTC. The first loop of `main` waits for 200 of them. -/
def addFramesTicks (fs : Image) (stale : Blink) (fuel : Nat) (screen : Mem) (n : Nat) : Option (Except UInt8 Fish) :=
  (sysOpen fs freshFds (some (.ofList (ascii "rtc")))).bind fun (_, fds) =>
    (addFrames fs stale fuel fds (.start screen)).bind fun
      | .error status => some (.error status)
      | .ok a => (waitLoop n a.fish).map .ok

/-- The structure that `main` adds behind its first loop. -/
def messageBlink (stale : Blink) : Blink :=
  { stale with onChar := 73, offChar := 77, onLength := 7, offLength := 6, location := 6 * 80 + 60 }

/-- `main`, with the status of the program and the memory it leaves. The number of the last loop is taken for a location
when a structure is to be removed. -/
def fishMain (fs : Image) (stale : Blink) (fuel : Nat) (vidmap : Int) (screen : Mem) : Option (UInt8 × Fish) :=
  if vidmap = -1 then some (255, .start screen)
  else
    (addFramesTicks fs stale fuel screen 200).bind fun
      | .error status => some (status, .start screen)
      | .ok s =>
        (waitLoop 200 (s.mp1IoctlAdd (messageBlink stale)).2).bind fun s =>
          (s.mp1IoctlSync ((40 : UInt32) <<< 16 ||| (6 * 80 + 60))).bind fun (_, s) =>
            (waitLoop 200 s).bind fun s =>
              (s.mp1IoctlRemove 200).bind fun (_, s) => (waitLoop (80 * 25) s).map fun s => (0, s)

/-! ### The period of a structure -/

namespace Blink
variable {b : Blink} {n : Nat}

/-- The number of ticks that a length amounts to: the countdown is taken for a signed number, and one that is not
positive after a tick is over. -/
def ticks (length : UInt16) : Nat := if 1 ≤ length.toNat ∧ length.toNat ≤ 32768 then length.toNat else 1

/-- Every length takes a tick at least. -/
lemma ticks_pos (v : UInt16) : 0 < ticks v := by
  unfold ticks
  split
  · omega
  · exact Nat.one_pos

/-- When a countdown is positive as a signed number. -/
lemma toInt16_pos (v : UInt16) : 0 < v.toInt16.toInt ↔ 0 < v.toNat ∧ v.toNat < 32768 := by
  have hcond : v.toInt16.toInt = _ := BitVec.toInt_eq_toNat_cond v.toBitVec
  have hv := v.toNat_lt
  rw [hcond, UInt16.toNat_toBitVec]
  split
  · omega
  · omega

/-- A countdown goes on while there is more than one tick to come. -/
lemma countdown_goes_on (v : UInt16) : 0 < (v - 1).toInt16.toInt ↔ 1 < ticks v := by
  have hsub : (v - 1).toNat = (65535 + v.toNat) % 65536 := UInt16.toNat_sub v 1
  have hv := v.toNat_lt
  rw [toInt16_pos, hsub]
  unfold ticks
  split
  · omega
  · omega

/-- A tick less, as long as there is more than one. -/
lemma ticks_sub_one (v : UInt16) (h : 1 < ticks v) : ticks (v - 1) = ticks v - 1 := by
  have hsub : (v - 1).toNat = (65535 + v.toNat) % 65536 := UInt16.toNat_sub v 1
  have hv := v.toNat_lt
  unfold ticks at h ⊢
  rw [hsub]
  split at h
  · rw [if_pos (by omega), if_pos (by omega)]
    omega
  · omega

/-- The status asks for the `on_char`. -/
def Lit (b : Blink) : Prop := b.status &&& 1 ≠ 0

instance : Decidable b.Lit := inferInstanceAs (Decidable (_ ≠ _))

/-- The character by the status. -/
lemma char_eq : b.char = if b.Lit then b.onChar else b.offChar := rfl

/-- What a tick leaves alone. -/
structure Same (b b' : Blink) : Prop where
  location : b'.location = b.location
  onChar : b'.onChar = b.onChar
  offChar : b'.offChar = b.offChar
  onLength : b'.onLength = b.onLength
  offLength : b'.offLength = b.offLength

/-- A tick changes neither the characters nor the lengths. -/
lemma ticked_same (b : Blink) : b.Same b.ticked := by
  dsimp only [ticked]
  split_ifs
  · exact ⟨rfl, rfl, rfl, rfl, rfl⟩
  · exact ⟨rfl, rfl, rfl, rfl, rfl⟩
  · exact ⟨rfl, rfl, rfl, rfl, rfl⟩

/-- A tick in the middle of a phase. -/
lemma ticked_goes_on (h : 1 < ticks b.countdown) :
    (b.ticked.Lit ↔ b.Lit) ∧ ticks b.ticked.countdown = ticks b.countdown - 1 := by
  dsimp only [ticked]
  rw [if_pos ((countdown_goes_on _).mpr h)]
  exact ⟨Iff.rfl, ticks_sub_one _ h⟩

/-- The last tick of a phase. -/
lemma ticked_flips (h : ticks b.countdown = 1) :
    (b.ticked.Lit ↔ ¬ b.Lit) ∧ b.ticked.countdown = if b.Lit then b.offLength else b.onLength := by
  dsimp only [ticked]
  rw [if_neg fun hgo => absurd ((countdown_goes_on _).mp hgo) (by omega)]
  by_cases hlit : b.status &&& 1 ≠ 0
  · rw [if_pos hlit]
    exact ⟨odd_flip_iff _, (if_pos hlit).symm⟩
  · rw [if_neg hlit]
    exact ⟨odd_flip_iff _, (if_neg hlit).symm⟩

/-- The relation is transitive. -/
lemma Same.trans {b0 b1 b2 : Blink} (h : b0.Same b1) (h' : b1.Same b2) : b0.Same b2 :=
  ⟨h'.location.trans h.location, h'.onChar.trans h.onChar, h'.offChar.trans h.offChar, h'.onLength.trans h.onLength,
    h'.offLength.trans h.offLength⟩

/-- The ticks of one period. -/
def period (b : Blink) : Nat := ticks b.onLength + ticks b.offLength

/-- A structure that started as `b0` is `m` ticks into its period. -/
structure InPeriod (b0 b : Blink) (m : Nat) : Prop where
  same : b0.Same b
  lit : b.Lit ↔ m < ticks b0.onLength
  countdown : ticks b.countdown + m = if b.Lit then ticks b0.onLength else b0.period

/-- One more tick: the countdown goes on, or the other half of the period begins. -/
lemma InPeriod.ticked {b0 : Blink} (h : b0.InPeriod b n) : b0.InPeriod b.ticked ((n + 1) % b0.period) := by
  have hoff := ticks_pos b0.offLength
  have hon := ticks_pos b0.onLength
  have hperiod : b0.period = ticks b0.onLength + ticks b0.offLength := rfl
  have hsame := h.same.trans (ticked_same b)
  have hcount := h.countdown
  rcases Nat.lt_or_eq_of_le (ticks_pos b.countdown) with hgo | hend
  · obtain ⟨hlit', hcount'⟩ := ticked_goes_on hgo
    by_cases hlit : b.Lit
    · rw [if_pos hlit] at hcount
      rw [Nat.mod_eq_of_lt (by omega)]
      refine ⟨hsame, iff_of_true (hlit'.mpr hlit) (by omega), ?_⟩
      rw [if_pos (hlit'.mpr hlit)]
      omega
    · have hn := mt h.lit.mpr hlit
      rw [if_neg hlit] at hcount
      rw [Nat.mod_eq_of_lt (by omega)]
      refine ⟨hsame, iff_of_false (mt hlit'.mp hlit) (by omega), ?_⟩
      rw [if_neg (mt hlit'.mp hlit)]
      omega
  · obtain ⟨hlit', hcount'⟩ := ticked_flips hend.symm
    by_cases hlit : b.Lit
    · have hdark : ¬ b.ticked.Lit := fun h => hlit'.mp h hlit
      rw [if_pos hlit] at hcount hcount'
      rw [Nat.mod_eq_of_lt (by omega)]
      refine ⟨hsame, iff_of_false hdark (by omega), ?_⟩
      rw [if_neg hdark, hcount', h.same.offLength]
      omega
    · rw [if_neg hlit] at hcount hcount'
      have hover : n + 1 = b0.period := by omega
      rw [hover, Nat.mod_self]
      refine ⟨hsame, iff_of_true (hlit'.mpr hlit) hon, ?_⟩
      rw [if_pos (hlit'.mpr hlit), hcount', h.same.onLength, Nat.add_zero]

/-- An added structure shows its `on_char` for the first part of each period and its `off_char` for the rest. -/
lemma started_inPeriod (b : Blink) (n : Nat) :
    b.started.InPeriod (Blink.ticked^[n] b.started) (n % b.started.period) := by
  induction n with
  | zero =>
    have hlit : b.started.Lit := show (1 : UInt16) &&& 1 ≠ 0 by decide
    rw [Nat.zero_mod]
    refine ⟨⟨rfl, rfl, rfl, rfl, rfl⟩, iff_of_true hlit (ticks_pos _), ?_⟩
    rw [Function.iterate_zero, id_eq, if_pos hlit]
    rfl
  | succ n ih =>
    have hnext := ih.ticked
    rwa [Nat.mod_add_mod, ← Function.iterate_succ_apply' Blink.ticked] at hnext

/-- A structure shows its two characters in turns. -/
lemma char_iterate_ticked (b : Blink) (n : Nat) : (Blink.ticked^[n] b.started).char =
    if n % (ticks b.onLength + ticks b.offLength) < ticks b.onLength then b.onChar else b.offChar := by
  have h := started_inPeriod b n
  rw [char_eq, h.same.onChar, h.same.offChar]
  exact if_congr h.lit rfl rfl

end Blink

/-! ### A list of structures -/

namespace Fish
variable {s t : Fish} {l : List Slot} {bs : List Blink} {screen : Mem} {b : Blink} {x n : Nat}

/-- The list holds the structures `bs`, and the screen is `screen` with their characters on it. -/
structure Plays (s : Fish) (screen : Mem) (l : List Slot) (bs : List Blink) : Prop where
  orderly : s.Orderly l
  holds : l.map s.blinkArray = bs
  free : ∀ i, i ∉ l → (s.blinkArray i).location = 0
  displayed : s.Displayed
  rest : ∀ x, (∀ b ∈ bs, b.offset ≠ x) → s.screen x = screen x

/-- Nothing is played at the start. -/
lemma start_plays (screen : Mem) : (Fish.start screen).Plays screen [] [] where
  orderly := ⟨.nil, fun i hi => absurd hi List.not_mem_nil, fun i hi => absurd hi List.not_mem_nil⟩
  holds := rfl
  free := fun _ _ => rfl
  displayed := fun i hi => by cases hi
  rest := fun _ _ => rfl

/-- The structures of the list are on the screen. -/
lemma Plays.shows (h : s.Plays screen l bs) (hb : b ∈ bs) : s.screen b.offset = b.char := by
  rw [← h.holds] at hb
  obtain ⟨i, hi, rfl⟩ := List.mem_map.mp hb
  exact h.displayed i (h.orderly.lists.has_iff.mpr hi)

/-- A structure for a new place finds a slot. -/
lemma Plays.add (h : s.Plays screen l bs) (hzero : b.location ≠ 0) (hloc : b.location.toNat < 80 * 25)
    (hnew : ∀ b' ∈ bs, b'.location ≠ b.location) (hroom : bs.length < 80 * 25) :
    ∃ i, (s.mp1IoctlAdd b).2.Plays screen (i :: l) (b.started :: bs) := by
  obtain ⟨r, t, l', hadd, hmoves⟩ := mp1IoctlAdd_moves (s := s) b l
  have hfresh : s.Fresh (.add b) := by
    refine ⟨hzero, hloc, fun i hi => hnew _ ?_⟩
    rw [← h.holds]
    exact List.mem_map_of_mem (h.orderly.lists.has_iff.mp hi)
  have horderly := hmoves.orderly h.orderly hfresh
  have hdisplayed := (hmoves.displayed_iff h.orderly hfresh h.displayed).mpr trivial
  have hlive := hmoves.live (Path.nodup horderly.lists)
  rw [hadd]
  cases hmoves with
  | refused hrefuses =>
    exfalso
    rcases hrefuses with hout | hfull
    · omega
    · have hall : ∀ i, i ∈ l := fun i => by_contra fun hi => hfull i (h.free i hi)
      have hcard : Fintype.card Slot ≤ l.length := by
        rw [← Finset.card_univ, ← Finset.eq_univ_iff_forall.mpr fun i => List.mem_toFinset.mpr (hall i)]
        exact l.toFinset_card_le
      rw [Fintype.card_fin, ← List.length_map (f := s.blinkArray), h.holds] at hcard
      omega
  | @added _ i _ _ _ =>
    refine ⟨i, horderly, ?_, fun k hk => ?_, hdisplayed, fun x hx => ?_⟩
    · rw [if_pos rfl, h.holds] at hlive
      exact hlive
    · obtain ⟨hki, hkl⟩ := List.ne_and_not_mem_of_not_mem_cons hk
      rw [Fish.added, mp1Poke_blinkArray, set_blinkArray, Function.update_of_ne hki]
      exact h.free k hkl
    · obtain ⟨hb, hbs⟩ := List.forall_mem_cons.mp hx
      exact (Function.update_of_ne (Ne.symm hb) _ _).trans (h.rest x hbs)

/-- The tasklet draws on the places of its structures only. -/
lemma foldl_taskletVisit_screen (h : ∀ i ∈ l, (s.blinkArray i).offset ≠ x) :
    (l.foldl taskletVisit s).screen x = s.screen x := by
  induction l generalizing s with
  | nil => rfl
  | cons i l ih =>
    obtain ⟨hi, hl⟩ := List.forall_mem_cons.mp h
    have hvisit : (s.taskletVisit i).screen x = s.screen x := by
      rcases taskletVisit_eq (s := s) (i := i) with ⟨heq, -⟩ | heq
      · rw [heq, set_screen]
      · rw [heq, mp1Poke_screen, Function.update_of_ne hi.symm, set_screen]
    rw [List.foldl_cons, ih fun k hk => ?_, hvisit]
    rw [Blink.offset, taskletVisit_location]
    exact hl k hk

/-- The tasklet counts every structure down. -/
lemma Plays.tasklet (h : s.Plays screen l bs) :
    ∃ t, s.mp1RtcTasklet = some t ∧ t.Plays screen l (bs.map Blink.ticked) := by
  have hmoves : s.Moves l .tasklet 0 (l.foldl taskletVisit s) l := .ticked
  have hnodup : l.Nodup := Path.nodup h.orderly.lists
  have hfresh : s.Fresh .tasklet := trivial
  refine ⟨_, taskletLoop_eq h.orderly.lists (length_lt_steps h.orderly.lists), hmoves.orderly h.orderly hfresh, ?_, ?_,
    (hmoves.displayed_iff h.orderly hfresh h.displayed).mpr trivial, ?_⟩
  · rw [hmoves.live hnodup, if_pos rfl, h.holds]
    rfl
  · intro i hi
    rw [foldl_taskletVisit_blinkArray hnodup, if_neg hi]
    exact h.free i hi
  · intro x hx
    have hold : ∀ b ∈ bs, b.offset ≠ x := by
      intro b hb
      rw [← Blink.ticked_offset]
      exact hx _ (List.mem_map_of_mem hb)
    rw [foldl_taskletVisit_screen fun i hi => ?_]
    · exact h.rest x hold
    · refine hold _ ?_
      rw [← h.holds]
      exact List.mem_map_of_mem hi

/-- Any number of ticks. -/
lemma Plays.waitLoop (h : s.Plays screen l bs) (n : Nat) :
    ∃ t, Boss.waitLoop n s = some t ∧ t.Plays screen l (bs.map Blink.ticked^[n]) := by
  induction n generalizing s bs with
  | zero => exact ⟨s, rfl, by rwa [Function.iterate_zero, List.map_id]⟩
  | succ n ih =>
    obtain ⟨t, ht, hplays⟩ := h.tasklet
    obtain ⟨u, hu, hplays⟩ := ih hplays
    refine ⟨u, by rw [Boss.waitLoop, ht, Option.bind_some, hu], ?_⟩
    rwa [List.map_map, ← Function.iterate_succ] at hplays

/-- The list ends, and `mp1_malloc` hands out none of its slots. -/
def Sound (s : Fish) : Prop := ∃ l, s.list.Lists l ∧ ∀ i ∈ l, (s.blinkArray i).location ≠ 0

/-- What is played is sound. -/
lemma Plays.sound (h : s.Plays screen l bs) : s.Sound := ⟨l, h.orderly.lists, h.orderly.ne_zero⟩

/-- Add structures one after another; what `mp1_ioctl` returns is not looked at. -/
def addAll (s : Fish) (bs : List Blink) : Fish := bs.foldl (fun s b => (s.mp1IoctlAdd b).2) s

/-- Structures at new places are all taken. -/
lemma Plays.addAll {cs : List Blink} (h : s.Plays screen l bs) (hzero : ∀ b ∈ cs, b.location ≠ 0)
    (hloc : ∀ b ∈ cs, b.location.toNat < 80 * 25) (hnodup : (cs.map Blink.location).Nodup)
    (hnew : ∀ b ∈ cs, ∀ b' ∈ bs, b'.location ≠ b.location) (hroom : bs.length + cs.length ≤ 80 * 25) :
    ∃ l', (s.addAll cs).Plays screen l' ((cs.map Blink.started).reverse ++ bs) := by
  induction cs generalizing s l bs with
  | nil => exact ⟨l, h⟩
  | cons c cs ih =>
    rw [List.length_cons] at hroom
    obtain ⟨hc, hcs⟩ := List.nodup_cons.mp (by rwa [List.map_cons] at hnodup)
    obtain ⟨i, hadd⟩ := h.add (hzero c List.mem_cons_self) (hloc c List.mem_cons_self) (hnew c List.mem_cons_self)
      (by omega)
    have hnew' : ∀ b ∈ cs, ∀ b' ∈ c.started :: bs, b'.location ≠ b.location := by
      intro b hb b' hb'
      rcases List.mem_cons.mp hb' with rfl | hb'
      · exact fun heq => hc (List.mem_map.mpr ⟨b, hb, heq.symm⟩)
      · exact hnew b (List.mem_cons_of_mem _ hb) b' hb'
    obtain ⟨l', hplays⟩ := ih hadd (fun b hb => hzero b (List.mem_cons_of_mem _ hb))
      (fun b hb => hloc b (List.mem_cons_of_mem _ hb)) hcs hnew' (by rw [List.length_cons]; omega)
    refine ⟨l', ?_⟩
    rw [List.map_cons, List.reverse_cons, List.append_assoc]
    exact hplays

end Fish

/-! ### Reading the drawings -/

/-- A character of a drawing; what is not there is blank. -/
def pixel (lines : List (List UInt8)) (row col : Nat) : UInt8 := (lines.getD row []).getD col 32

/-- The slot can be closed, or is closed already. -/
def Fds.Done (fds : Fds) (i : Fin 8) : Prop := (fds i).flags = 0 ∨ (fds i).fOp = some .file

section
variable {fs : Image} {fds fds' : Fds} {i i0 i1 : Fin 8} {f : FrameFile} {l l0 l1 : List UInt8}
  {ls ls0 ls1 : List (List UInt8)} {col row fuel : Nat} {stale : Blink} {a : Frames}

/-- Closing again does no harm. -/
lemma Fds.Done.close (h : fds.Done i) (hi : 2 ≤ i.val) :
    ∃ ret fds', sysClose fds i.val = some (ret, fds') ∧ fds'.Done i ∧ ∀ j, j ≠ i → fds' j = fds j := by
  have hslot : slot i.val = some i := slot_of_openSlots ((mem_openSlots i).mpr hi)
  simp only [sysClose, hslot]
  by_cases hflags : (fds i).flags = 0
  · exact ⟨-1, fds, if_pos hflags, h, fun _ _ => rfl⟩
  · rw [if_neg hflags, h.resolve_left hflags]
    refine ⟨_, _, rfl, .inl ?_, fun j hj => Function.update_of_ne hj _ _⟩
    rw [Function.update_self]
    rfl

namespace FrameFile

/-- In the middle of a row: what is left of it, and the rows behind it. -/
inductive Ahead (fs : Image) (fds : Fds) (i : Fin 8) (f : FrameFile) : List UInt8 → List (List UInt8) → Prop
  | last {l : List UInt8} : f.c ≠ 10 → f.eof = false → 10 ∉ l → fds.Streams fs i l → Ahead fs fds i f l []
  | line {l t : List UInt8} : f.c ≠ 10 → f.eof = false → 10 ∉ l → fds.Streams fs i (l ++ 10 :: t) →
      Ahead fs fds i f l (t.splitOn 10)
  | broken {t : List UInt8} : f.c = 10 → f.eof = false → fds.Streams fs i t → Ahead fs fds i f [] (t.splitOn 10)
  | ended : f.c = 10 → f.eof = true → fds.Done i → Ahead fs fds i f [] []

/-- Before a row: the rows to come. -/
inductive Begins (fs : Image) (fds : Fds) (i : Fin 8) (f : FrameFile) : List (List UInt8) → Prop
  | text {t : List UInt8} : f.c = 48 → f.eof = false → fds.Streams fs i t → Begins fs fds i f (t.splitOn 10)
  | ended : f.c = 10 → f.eof = true → fds.Done i → Begins fs fds i f []

/-- Only the file's own descriptor matters. -/
lemma Ahead.congr (h : f.Ahead fs fds i l ls) (hi : fds' i = fds i) : f.Ahead fs fds' i l ls := by
  cases h with
  | last hc heof hl hstream => exact .last hc heof hl (hstream.congr hi)
  | line hc heof hl hstream => exact .line hc heof hl (hstream.congr hi)
  | broken hc heof hstream => exact .broken hc heof (hstream.congr hi)
  | ended hc heof hdone => exact .ended hc heof (by rwa [Fds.Done, hi])

/-- Only the file's own descriptor matters. -/
lemma Begins.congr (h : f.Begins fs fds i ls) (hi : fds' i = fds i) : f.Begins fs fds' i ls := by
  cases h with
  | text hc heof hstream => exact .text hc heof (hstream.congr hi)
  | ended hc heof hdone => exact .ended hc heof (by rwa [Fds.Done, hi])

/-- A row is begun. -/
lemma Begins.ahead (h : f.Begins fs fds i ls) : 10 ∉ ls.headD [] ∧ f.Ahead fs fds i (ls.headD []) ls.tail := by
  cases h with
  | @text t hc heof hstream =>
    have hne : f.c ≠ 10 := by
      rw [hc]
      decide
    rcases line_cases 10 t with hlast | ⟨l, t', rfl, hl⟩
    · rw [splitOn_last hlast]
      exact ⟨hlast, .last hne heof hlast hstream⟩
    · rw [splitOn_line hl]
      exact ⟨hl, .line hne heof hl hstream⟩
  | ended hc heof hdone => exact ⟨List.not_mem_nil, .ended hc heof hdone⟩

/-- A file has ended when no rows are left. -/
lemma Begins.eof_iff (h : f.Begins fs fds i ls) : f.eof = false ↔ ls ≠ [] := by
  cases h with
  | @text t hc heof hstream => exact iff_of_true heof (List.splitOn_ne_nil 10 t)
  | ended hc heof hdone => exact iff_of_false (by rw [heof]; exact Bool.true_eq_false.mp) (fun h => h rfl)

/-- Reading the next character of the row, or its end. -/
lemma Ahead.next (h : f.Ahead fs fds i l ls) (hfd : f.fd = i.val) (hlimit : fs.limit < 0x100000000) :
    ∃ f' fds', f.next fs fds = some (f', fds') ∧ f'.Ahead fs fds' i l.tail ls ∧ f'.c = l.headD 10 ∧
      f'.fd = i.val ∧ ∀ j, j ≠ i → fds' j = fds j := by
  cases h with
  | last hc heof hl hstream =>
    obtain ⟨fds', hread, hstream', hothers⟩ := hstream.read hlimit 1
    cases l with
    | nil =>
      refine ⟨{ f with c := 10, eof := true }, fds', ?_, .ended rfl rfl (.inr hstream'.op), rfl, hfd, hothers⟩
      rw [FrameFile.next, if_pos hc, hfd, hread]
      rfl
    | cons b l =>
      obtain ⟨hb, hl⟩ := List.ne_and_not_mem_of_not_mem_cons hl
      refine ⟨{ f with c := b }, fds', ?_, .last hb.symm heof hl hstream', rfl, hfd, hothers⟩
      rw [FrameFile.next, if_pos hc, hfd, hread]
      rfl
  | @line _ t hc heof hl hstream =>
    obtain ⟨fds', hread, hstream', hothers⟩ := hstream.read hlimit 1
    cases l with
    | nil =>
      refine ⟨{ f with c := 10 }, fds', ?_, .broken rfl heof hstream', rfl, hfd, hothers⟩
      rw [FrameFile.next, if_pos hc, hfd, hread]
      rfl
    | cons b l =>
      obtain ⟨hb, hl⟩ := List.ne_and_not_mem_of_not_mem_cons hl
      refine ⟨{ f with c := b }, fds', ?_, .line hb.symm heof hl hstream', rfl, hfd, hothers⟩
      rw [FrameFile.next, if_pos hc, hfd, hread]
      rfl
  | broken hc heof hstream => exact ⟨f, fds, if_neg (not_not.mpr hc), .broken hc heof hstream, hc, hfd, fun _ _ => rfl⟩
  | ended hc heof hdone => exact ⟨f, fds, if_neg (not_not.mpr hc), .ended hc heof hdone, hc, hfd, fun _ _ => rfl⟩

/-- At the end of a row. -/
lemma Ahead.endRow (h : f.Ahead fs fds i [] ls) (hc : f.c = 10) (hfd : f.fd = i.val) (hi : 2 ≤ i.val) :
    ∃ f' fds', f.endRow fds = some (f', fds') ∧ f'.Begins fs fds' i ls ∧ f'.fd = i.val ∧
      ∀ j, j ≠ i → fds' j = fds j := by
  cases h with
  | last hne => exact absurd hc hne
  | line hne => exact absurd hc hne
  | broken _ heof hstream =>
    refine ⟨{ f with c := 48 }, fds, if_neg (by rw [heof]; exact Bool.false_ne_true), .text rfl heof hstream, hfd, ?_⟩
    exact fun _ _ => rfl
  | ended _ heof hdone =>
    obtain ⟨ret, fds', hclose, hdone', hothers⟩ := hdone.close hi
    refine ⟨{ f with c := 10 }, fds', ?_, .ended rfl heof hdone', hfd, hothers⟩
    rw [FrameFile.endRow, if_pos heof, hfd, hclose]
    rfl

end FrameFile

/-- The next character of a row. -/
lemma headD_drop {α : Type} {l : List α} {d : α} : (l.drop col).headD d = l.getD col d := by
  rw [List.headD_eq_head?_getD, List.head?_drop, List.getD_eq_getElem?_getD]

/-- The character of the program for a place of the row: a line break behind the row. -/
lemma getD_break (hl : 10 ∉ l) : (if l.getD col 10 = 10 then 32 else l.getD col 10) = l.getD col 32 ∧
    (l.getD col 10 ≠ 32 ∧ l.getD col 10 ≠ 10 ↔ l.getD col 32 ≠ 32) ∧ (l.getD col 10 = 10 ↔ l.length ≤ col) := by
  by_cases hcol : col < l.length
  · have hne : l[col] ≠ 10 := fun h => hl (h ▸ List.getElem_mem hcol)
    rw [List.getD_eq_getElem _ _ hcol, List.getD_eq_getElem _ _ hcol]
    exact ⟨if_neg hne, and_iff_left hne, iff_of_false hne (Nat.not_le.mpr hcol)⟩
  · have hle := Nat.not_lt.mp hcol
    rw [List.getD_eq_default _ _ hle, List.getD_eq_default _ _ hle]
    exact ⟨rfl, iff_of_false (fun h => h.2 rfl) (fun h => h rfl), iff_of_true rfl hle⟩

namespace Frames

/-- Both files, in the middle of a row. -/
structure Reads (fs : Image) (i0 i1 : Fin 8) (a : Frames) (l0 l1 : List UInt8) (ls0 ls1 : List (List UInt8)) :
    Prop where
  fd0 : a.f0.fd = i0.val
  fd1 : a.f1.fd = i1.val
  ahead0 : a.f0.Ahead fs a.fds i0 l0 ls0
  ahead1 : a.f1.Ahead fs a.fds i1 l1 ls1

/-- Both files, before a row. -/
structure Starts (fs : Image) (i0 i1 : Fin 8) (a : Frames) (ls0 ls1 : List (List UInt8)) : Prop where
  fd0 : a.f0.fd = i0.val
  fd1 : a.f1.fd = i1.val
  begins0 : a.f0.Begins fs a.fds i0 ls0
  begins1 : a.f1.Begins fs a.fds i1 ls1

/-- The structure for a place of a row, if one of the drawings is not blank there. -/
def cellBlink (stale : Blink) (row : Nat) (l0 l1 : List UInt8) (col : Nat) : Option Blink :=
  if l0.getD col 32 ≠ 32 ∨ l1.getD col 32 ≠ 32 then
    some (blinkStruct stale row col (l0.getD col 10) (l1.getD col 10))
  else none

/-- The structures for a row, from a column on. -/
def rowBlinks (stale : Blink) (row : Nat) (l0 l1 : List UInt8) (col : Nat) : List Blink :=
  (List.range' col (max l0.length l1.length - col)).filterMap (cellBlink stale row l0 l1)

variable (hne : i0 ≠ i1) (hlimit : fs.limit < 0x100000000)
include hne hlimit

/-- Both files are read once. -/
lemma Reads.next (h : Reads fs i0 i1 a l0 l1 ls0 ls1) :
    ∃ f0 f1 fds0 fds1, a.f0.next fs a.fds = some (f0, fds0) ∧ a.f1.next fs fds0 = some (f1, fds1) ∧
      f0.c = l0.headD 10 ∧ f1.c = l1.headD 10 ∧
      ∀ fish, Reads fs i0 i1 ⟨fds1, f0, f1, fish⟩ l0.tail l1.tail ls0 ls1 := by
  obtain ⟨f0, fds0, hnext0, hahead0, hc0, hfd0, hothers0⟩ := h.ahead0.next h.fd0 hlimit
  obtain ⟨f1, fds1, hnext1, hahead1, hc1, hfd1, hothers1⟩ :=
    (h.ahead1.congr (hothers0 i1 hne.symm)).next h.fd1 hlimit
  exact ⟨f0, f1, fds0, fds1, hnext0, hnext1, hc0, hc1, fun fish =>
    ⟨hfd0, hfd1, hahead0.congr (hothers1 i0 hne), hahead1⟩⟩

/-- The inner loop adds the structures for the rest of the row. -/
lemma rowLoop_eq (stale : Blink) (row : Nat) (hl0 : 10 ∉ l0) (hl1 : 10 ∉ l1)
    (hfuel : max l0.length l1.length < fuel + col) (hcol : col ≤ max l0.length l1.length)
    (h : Reads fs i0 i1 a (l0.drop col) (l1.drop col) ls0 ls1) :
    ∃ a', rowLoop fs stale row fuel col a = some a' ∧ a'.f0.c = 10 ∧ a'.f1.c = 10 ∧
      Reads fs i0 i1 a' [] [] ls0 ls1 ∧ a'.fish = a.fish.addAll (rowBlinks stale row l0 l1 col) := by
  induction fuel generalizing a col with
  | zero => omega
  | succ fuel ih =>
    obtain ⟨f0, f1, fds0, fds1, hnext0, hnext1, hc0, hc1, hreads⟩ := h.next hne hlimit
    rw [headD_drop] at hc0 hc1
    obtain ⟨-, hset0, hend0⟩ := @getD_break l0 col hl0
    obtain ⟨-, hset1, hend1⟩ := @getD_break l1 col hl1
    rw [← hc0] at hset0 hend0
    rw [← hc1] at hset1 hend1
    simp only [rowLoop, hnext0, hnext1, Option.bind_some]
    by_cases hover : f0.c = 10 ∧ f1.c = 10
    · have hle := max_le (hend0.mp hover.1) (hend1.mp hover.2)
      have hreads := hreads a.fish
      rw [List.tail_drop, List.tail_drop, List.drop_eq_nil_of_le (by omega),
        List.drop_eq_nil_of_le (by omega)] at hreads
      refine ⟨_, if_pos hover, hover.1, hover.2, hreads, ?_⟩
      rw [rowBlinks, Nat.sub_eq_zero_of_le hle]
      rfl
    · have hlt : col < max l0.length l1.length := by
        by_contra hge
        exact hover ⟨hend0.mpr (by omega), hend1.mpr (by omega)⟩
      have hrange : rowBlinks stale row l0 l1 col =
          (cellBlink stale row l0 l1 col).toList ++ rowBlinks stale row l0 l1 (col + 1) := by
        have hcount : max l0.length l1.length - col = max l0.length l1.length - (col + 1) + 1 := by omega
        rw [rowBlinks, hcount, List.range'_succ, List.filterMap_cons, rowBlinks]
        cases cellBlink stale row l0 l1 col <;> rfl
      have hset_iff := or_congr hset0 hset1
      rw [if_neg hover, hrange, cellBlink]
      by_cases hset : l0.getD col 32 ≠ 32 ∨ l1.getD col 32 ≠ 32
      · rw [if_pos (hset_iff.mpr hset), if_pos hset, ← hc0, ← hc1]
        have hreads := hreads (a.fish.mp1IoctlAdd (blinkStruct stale row col f0.c f1.c)).2
        rw [List.tail_drop, List.tail_drop] at hreads
        exact ih (by omega) hlt hreads
      · rw [if_neg (mt hset_iff.mp hset), if_neg hset]
        have hreads := hreads a.fish
        rw [List.tail_drop, List.tail_drop] at hreads
        exact ih (by omega) hlt hreads

/-- The structures for two drawings, from a row on. -/
def frameBlinks (stale : Blink) (ls0 ls1 : List (List UInt8)) (row : Nat) : List Blink :=
  (List.range' row (max ls0.length ls1.length - row)).flatMap fun r =>
    rowBlinks stale r (ls0.getD r []) (ls1.getD r []) 0

omit hlimit in
/-- Behind a row, both files are at the next one. -/
lemma Reads.endRow (hi0 : 2 ≤ i0.val) (hi1 : 2 ≤ i1.val) (h : Reads fs i0 i1 a [] [] ls0 ls1) (hc0 : a.f0.c = 10)
    (hc1 : a.f1.c = 10) :
    ∃ f0 f1 fds0 fds1, a.f0.endRow a.fds = some (f0, fds0) ∧ a.f1.endRow fds0 = some (f1, fds1) ∧
      ∀ fish, Starts fs i0 i1 ⟨fds1, f0, f1, fish⟩ ls0 ls1 := by
  obtain ⟨f0, fds0, hend0, hbegins0, hfd0, hothers0⟩ := h.ahead0.endRow hc0 h.fd0 hi0
  obtain ⟨f1, fds1, hend1, hbegins1, hfd1, hothers1⟩ :=
    (h.ahead1.congr (hothers0 i1 hne.symm)).endRow hc1 h.fd1 hi1
  exact ⟨f0, f1, fds0, fds1, hend0, hend1, fun fish =>
    ⟨hfd0, hfd1, hbegins0.congr (hothers1 i0 hne), hbegins1⟩⟩

/-- The outer loop adds the structures for the rows to come. -/
lemma frameLoop_eq (stale : Blink) {columns : Nat} (hi0 : 2 ≤ i0.val) (hi1 : 2 ≤ i1.val)
    (hcolumns : ∀ r, max (ls0.getD r []).length (ls1.getD r []).length < columns)
    (hfuel : max ls0.length ls1.length < fuel + row) (hrow : row ≤ max ls0.length ls1.length)
    (h : Starts fs i0 i1 a (ls0.drop row) (ls1.drop row)) :
    ∃ a', frameLoop fs stale columns fuel row a = some a' ∧
      a'.fish = a.fish.addAll (frameBlinks stale ls0 ls1 row) := by
  induction fuel generalizing a row with
  | zero => omega
  | succ fuel ih =>
    have heof0 := h.begins0.eof_iff
    have heof1 := h.begins1.eof_iff
    rw [ne_eq, List.drop_eq_nil_iff, not_le] at heof0 heof1
    rw [frameLoop]
    by_cases hmore : a.f0.eof = false ∨ a.f1.eof = false
    · have hlt : row < max ls0.length ls1.length := by
        rw [heof0, heof1] at hmore
        omega
      obtain ⟨hl0, hahead0⟩ := h.begins0.ahead
      obtain ⟨hl1, hahead1⟩ := h.begins1.ahead
      rw [headD_drop] at hl0 hahead0 hl1 hahead1
      rw [List.tail_drop] at hahead0 hahead1
      have hwidth : max (ls0.getD row []).length (ls1.getD row []).length < columns + 0 := hcolumns row
      obtain ⟨a1, hrow, hc0, hc1, hreads, hfish⟩ := rowLoop_eq hne hlimit stale row hl0 hl1 hwidth (Nat.zero_le _)
        ⟨h.fd0, h.fd1, hahead0, hahead1⟩
      obtain ⟨f0, f1, fds0, fds1, hend0, hend1, hstarts⟩ := hreads.endRow hne hi0 hi1 hc0 hc1
      have hrange : frameBlinks stale ls0 ls1 row =
          rowBlinks stale row (ls0.getD row []) (ls1.getD row []) 0 ++ frameBlinks stale ls0 ls1 (row + 1) := by
        have hcount : max ls0.length ls1.length - row = max ls0.length ls1.length - (row + 1) + 1 := by omega
        rw [frameBlinks, hcount, List.range'_succ, List.flatMap_cons, frameBlinks]
      obtain ⟨a', hloop, hfish'⟩ := ih (by omega) hlt (hstarts a1.fish)
      refine ⟨a', ?_, ?_⟩
      · simp only [if_pos hmore, hrow, Option.bind_some, hend0, hend1, hloop]
      · rw [hfish', hrange, hfish, Fish.addAll, Fish.addAll, Fish.addAll, List.foldl_append]
    · have hge : max ls0.length ls1.length ≤ row := by
        rw [heof0, heof1] at hmore
        omega
      refine ⟨a, if_neg hmore, ?_⟩
      rw [frameBlinks, Nat.sub_eq_zero_of_le hge]
      rfl

end Frames

end

/-! ### The places of a drawing -/

/-- What is not blank is in the 25 rows and 40 columns that are shown. -/
def FitsScreen (lines : List (List UInt8)) : Prop := ∀ row col, pixel lines row col ≠ 32 → row < 25 ∧ col < 40

namespace Frames
variable {stale b : Blink} {ls0 ls1 : List (List UInt8)} {row col : Nat}

/-- The structure for a place of two drawings. -/
structure IsCell (ls0 ls1 : List (List UInt8)) (row col : Nat) (b : Blink) : Prop where
  shown : pixel ls0 row col ≠ 32 ∨ pixel ls1 row col ≠ 32
  location : b.location.toNat = row * 80 + col + 40
  onChar : b.onChar = pixel ls0 row col
  offChar : b.offChar = pixel ls1 row col
  onLength : b.onLength = 15
  offLength : b.offLength = 15

/-- A structure is for a place that both drawings have room for. -/
lemma IsCell.bounds (h : IsCell ls0 ls1 row col b) (h0 : FitsScreen ls0) (h1 : FitsScreen ls1) : row < 25 ∧ col < 40 :=
  h.shown.elim (h0 row col) (h1 row col)

variable (hl0 : ∀ l ∈ ls0, 10 ∉ l) (hl1 : ∀ l ∈ ls1, 10 ∉ l) (h0 : FitsScreen ls0) (h1 : FitsScreen ls1)
include hl0 hl1 h0 h1

/-- The structure of a place. -/
lemma cellBlink_isCell
    (h : cellBlink stale row (ls0.getD row []) (ls1.getD row []) col = some b) : IsCell ls0 ls1 row col b := by
  have hline : ∀ ls : List (List UInt8), (∀ l ∈ ls, 10 ∉ l) → 10 ∉ ls.getD row [] := by
    intro ls hls
    by_cases hrow : row < ls.length
    · rw [List.getD_eq_getElem _ _ hrow]
      exact hls _ (List.getElem_mem hrow)
    · rw [List.getD_eq_default _ _ (Nat.not_lt.mp hrow)]
      exact List.not_mem_nil
  rw [cellBlink] at h
  split at h
  · next hshown =>
    cases h
    have hbounds : row < 25 ∧ col < 40 := hshown.elim (h0 row col) (h1 row col)
    refine ⟨hshown, ?_, (getD_break (hline ls0 hl0)).1, (getD_break (hline ls1 hl1)).1, rfl, rfl⟩
    exact (UInt16.toNat_ofNat').trans (Nat.mod_eq_of_lt (by omega))
  · cases h

/-- Every structure belongs to a place. -/
lemma mem_frameBlinks (hb : b ∈ frameBlinks stale ls0 ls1 0) : ∃ row col, IsCell ls0 ls1 row col b := by
  obtain ⟨row, -, hrow⟩ := List.mem_flatMap.mp hb
  obtain ⟨col, -, hcell⟩ := List.mem_filterMap.mp hrow
  exact ⟨row, col, cellBlink_isCell hl0 hl1 h0 h1 hcell⟩

/-- Every place that is not blank has its structure. -/
lemma exists_cell (stale : Blink) (h : pixel ls0 row col ≠ 32 ∨ pixel ls1 row col ≠ 32) :
    ∃ b ∈ frameBlinks stale ls0 ls1 0, IsCell ls0 ls1 row col b := by
  have hinside : ∀ ls : List (List UInt8), pixel ls row col ≠ 32 → row < ls.length ∧ col < (ls.getD row []).length := by
    intro ls hne
    have hcol : col < (ls.getD row []).length := by
      by_contra hge
      exact hne (List.getD_eq_default _ _ (Nat.not_lt.mp hge))
    refine ⟨?_, hcol⟩
    by_contra hge
    rw [List.getD_eq_default _ _ (Nat.not_lt.mp hge)] at hcol
    exact Nat.not_lt_zero _ hcol
  have hcell : cellBlink stale row (ls0.getD row []) (ls1.getD row []) col = some _ := if_pos h
  refine ⟨_, ?_, cellBlink_isCell hl0 hl1 h0 h1 hcell⟩
  refine List.mem_flatMap.mpr ⟨row, ?_, List.mem_filterMap.mpr ⟨col, ?_, hcell⟩⟩
  · rw [List.mem_range'_1]
    rcases h with h | h
    · have := (hinside ls0 h).1
      omega
    · have := (hinside ls1 h).1
      omega
  · rw [List.mem_range'_1]
    rcases h with h | h
    · have := (hinside ls0 h).2
      omega
    · have := (hinside ls1 h).2
      omega

/-- No two structures are for the same place. -/
lemma nodup_locations (stale : Blink) : ((frameBlinks stale ls0 ls1 0).map Blink.location).Nodup := by
  have hplace : ∀ {row col row' col' b b'}, IsCell ls0 ls1 row col b → IsCell ls0 ls1 row' col' b' →
      b.location = b'.location → row = row' ∧ col = col' := by
    intro row col row' col' b b' h h' heq
    have hloc := congrArg UInt16.toNat heq
    rw [h.location, h'.location] at hloc
    have hb := h.bounds h0 h1
    have hb' := h'.bounds h0 h1
    omega
  rw [frameBlinks, List.map_flatMap, List.nodup_flatMap]
  constructor
  · intro row _
    rw [rowBlinks, List.map_filterMap]
    refine List.Nodup.filterMap ?_ List.nodup_range'
    intro col col' x hx hx'
    obtain ⟨b, hb, rfl⟩ := Option.map_eq_some_iff.mp hx
    obtain ⟨b', hb', heq⟩ := Option.map_eq_some_iff.mp hx'
    exact (hplace (cellBlink_isCell hl0 hl1 h0 h1 hb) (cellBlink_isCell hl0 hl1 h0 h1 hb') heq.symm).2
  · refine List.Pairwise.imp (fun {row row'} hne => ?_) List.nodup_range'
    refine List.disjoint_left.mpr ?_
    intro x hx hx'
    obtain ⟨b, hb, rfl⟩ := List.mem_map.mp hx
    obtain ⟨b', hb', heq⟩ := List.mem_map.mp hx'
    obtain ⟨col, -, hcell⟩ := List.mem_filterMap.mp hb
    obtain ⟨col', -, hcell'⟩ := List.mem_filterMap.mp hb'
    exact hne (hplace (cellBlink_isCell hl0 hl1 h0 h1 hcell) (cellBlink_isCell hl0 hl1 h0 h1 hcell') heq.symm).1

end Frames

/-! ### The screen -/

section
variable {fs : Image} {screen : Mem} {stale : Blink} {ls0 ls1 : List (List UInt8)} {s : Fish} {n row col x : Nat}

/-- What is to be seen at a place of the drawings after `n` ticks, over what was on the screen before. -/
def animated (ls0 ls1 : List (List UInt8)) (n row col : Nat) (before : UInt8) : UInt8 :=
  if pixel ls0 row col = 32 ∧ pixel ls1 row col = 32 then before
  else if n % 30 < 15 then pixel ls0 row col else pixel ls1 row col

/-- The screen shows the drawings in turns, and nothing else has changed. -/
structure Fish.Animates (s : Fish) (ls0 ls1 : List (List UInt8)) (screen : Mem) (n : Nat) : Prop where
  inside : ∀ row col, row < 25 → col < 40 →
    s.screen (2 * (80 * row + 40 + col)) = animated ls0 ls1 n row col (screen (2 * (80 * row + 40 + col)))
  outside : ∀ x, (∀ row col, row < 25 → col < 40 → x ≠ 2 * (80 * row + 40 + col)) → s.screen x = screen x

/-- No more structures than places. -/
lemma length_le_of_nodup {cs : List Blink} (hnodup : (cs.map Blink.location).Nodup)
    (hloc : ∀ b ∈ cs, b.location.toNat < 80 * 25) : cs.length ≤ 80 * 25 := by
  have hsub : (cs.map Blink.location).map UInt16.toNat ⊆ List.range (80 * 25) := by
    intro x hx
    obtain ⟨v, hv, rfl⟩ := List.mem_map.mp hx
    obtain ⟨b, hb, rfl⟩ := List.mem_map.mp hv
    exact List.mem_range.mpr (hloc b hb)
  have hnat : ((cs.map Blink.location).map UInt16.toNat).Nodup := hnodup.map fun _ _ => UInt16.toNat_inj.mp
  have hle := (List.subperm_of_subset hnat hsub).length_le
  rwa [List.length_map, List.length_map, List.length_range] at hle

/-- The structures for two drawings, after they have been added and visited `n` times. -/
lemma waitLoop_animates (stale : Blink) (hl0 : ∀ l ∈ ls0, 10 ∉ l) (hl1 : ∀ l ∈ ls1, 10 ∉ l) (h0 : FitsScreen ls0)
    (h1 : FitsScreen ls1) (screen : Mem) (n : Nat) :
    ∃ s, waitLoop n ((Fish.start screen).addAll (Frames.frameBlinks stale ls0 ls1 0)) = some s ∧
      s.Sound ∧ s.Animates ls0 ls1 screen n := by
  have hcell := fun b (hb : b ∈ Frames.frameBlinks stale ls0 ls1 0) => Frames.mem_frameBlinks hl0 hl1 h0 h1 hb
  have hloc : ∀ b ∈ Frames.frameBlinks stale ls0 ls1 0, b.location.toNat < 80 * 25 ∧ b.location ≠ 0 := by
    intro b hb
    obtain ⟨row, col, hb⟩ := hcell b hb
    have hbounds := hb.bounds h0 h1
    have hplace := hb.location
    refine ⟨by omega, fun hzero => ?_⟩
    rw [hzero, UInt16.toNat_zero] at hplace
    omega
  have hnodup := Frames.nodup_locations hl0 hl1 h0 h1 stale
  obtain ⟨l, hplays⟩ := (Fish.start_plays screen).addAll (fun b hb => (hloc b hb).2) (fun b hb => (hloc b hb).1) hnodup
    (fun b hb b' hb' => absurd hb' List.not_mem_nil)
    (by rw [List.length_nil, Nat.zero_add]; exact length_le_of_nodup hnodup fun b hb => (hloc b hb).1)
  obtain ⟨s, hwait, hplays⟩ := hplays.waitLoop n
  have hmem : ∀ b',
      b' ∈ ((((Frames.frameBlinks stale ls0 ls1 0).map Blink.started).reverse ++ []).map Blink.ticked^[n]) ↔
        ∃ b ∈ Frames.frameBlinks stale ls0 ls1 0, Blink.ticked^[n] b.started = b' := by
    intro b'
    simp only [List.append_nil, List.mem_map, List.mem_reverse, exists_exists_and_eq_and]
  have hoffset : ∀ b : Blink, (Blink.ticked^[n] b.started).offset = 2 * b.location.toNat := by
    intro b
    rw [Blink.offset, (Blink.started_inPeriod b n).same.location]
    rfl
  refine ⟨s, hwait, hplays.sound, fun row col hrow hcol => ?_, fun x hx => ?_⟩
  · rw [animated]
    by_cases hblank : pixel ls0 row col = 32 ∧ pixel ls1 row col = 32
    · rw [if_pos hblank]
      refine hplays.rest _ fun b' hb' heq => ?_
      obtain ⟨b, hb, rfl⟩ := (hmem b').mp hb'
      obtain ⟨row', col', hb⟩ := hcell b hb
      have hbounds := hb.bounds h0 h1
      rw [hoffset, hb.location] at heq
      obtain ⟨rfl, rfl⟩ : row' = row ∧ col' = col := by omega
      exact hb.shown.elim (fun h => h hblank.1) (fun h => h hblank.2)
    · obtain ⟨b, hb, hisCell⟩ := Frames.exists_cell hl0 hl1 h0 h1 stale (not_and_or.mp hblank)
      have hshown := hplays.shows ((hmem _).mpr ⟨b, hb, rfl⟩)
      have hplace : 2 * (row * 80 + col + 40) = 2 * (80 * row + 40 + col) := by omega
      rw [hoffset, hisCell.location, hplace, Blink.char_iterate_ticked, hisCell.onChar, hisCell.offChar,
        hisCell.onLength, hisCell.offLength] at hshown
      rw [if_neg hblank]
      exact hshown
  · refine hplays.rest x fun b' hb' heq => ?_
    obtain ⟨b, hb, rfl⟩ := (hmem b').mp hb'
    obtain ⟨row, col, hb⟩ := hcell b hb
    obtain ⟨hrow, hcol⟩ := hb.bounds h0 h1
    rw [hoffset, hb.location] at heq
    exact hx row col hrow hcol (by omega)

/-- The lines of a text are no longer than the text. -/
lemma splitOn_small (t : List UInt8) :
    (t.splitOn 10).length ≤ t.length + 1 ∧ ∀ l ∈ t.splitOn 10, l.length ≤ t.length ∧ 10 ∉ l := by
  induction t using @line_induction UInt8 _ 10 with
  | last l hl =>
    rw [splitOn_last hl]
    exact ⟨Nat.le_add_left 1 _, fun l' hl' => by rw [List.mem_singleton.mp hl']; exact ⟨Nat.le_refl _, hl⟩⟩
  | line l t hl ih =>
    rw [splitOn_line hl, List.length_append, List.length_cons, List.length_cons]
    refine ⟨by omega, fun l' hl' => ?_⟩
    rcases List.mem_cons.mp hl' with rfl | hl'
    · exact ⟨by omega, hl⟩
    · have := ih.2 l' hl'
      exact ⟨by omega, this.2⟩

/-- No row is longer than the file. -/
lemma length_line_le (t : List UInt8) (r : Nat) : ((t.splitOn 10).getD r []).length ≤ t.length := by
  by_cases hr : r < (t.splitOn 10).length
  · rw [List.getD_eq_getElem _ _ hr]
    exact ((splitOn_small t).2 _ (List.getElem_mem hr)).1
  · rw [List.getD_eq_default _ _ (Nat.not_lt.mp hr)]
    exact Nat.zero_le _

end

/-- An image with the RTC and two drawings that fit on the screen. -/
structure Image.Draws (fs : Image) (t0 t1 : List UInt8) : Prop where
  files : fs.FilesValid
  rtc : ∃ d, fs.lookup (.ofList (ascii "rtc")) = some d ∧ d.type = 0
  file0 : fs.HasFile (.ofList (ascii "frame0.txt")) t0
  file1 : fs.HasFile (.ofList (ascii "frame1.txt")) t1
  fits0 : FitsScreen (t0.splitOn 10)
  fits1 : FitsScreen (t1.splitOn 10)

/-- `add_frames` and the ticks behind it end, and what they show. -/
lemma Image.Draws.addFramesTicks {fs : Image} {t0 t1 : List UInt8} (h : fs.Draws t0 t1) {fuel : Nat}
    (hfuel : max t0.length t1.length + 2 ≤ fuel) (stale : Blink) (screen : Mem) (n : Nat) :
    ∃ s, Boss.addFramesTicks fs stale fuel screen n = some (.ok s) ∧ s.Sound ∧
      s.Animates (t0.splitOn 10) (t1.splitOn 10) screen n := by
  obtain ⟨rtc, hrtc, htype⟩ := h.rtc
  obtain ⟨f, hopen, hflags, -, -⟩ := @openAt_typed freshFds 2 rtc (by omega)
  have hrtcOpen : sysOpen fs freshFds (some (.ofList (ascii "rtc"))) = some (2, Function.update freshFds 2 f) := by
    rw [sysOpen_found hrtc]
    exact hopen
  have hused : ∀ j : Fin 8, 2 ≤ j.val → j < 3 → (Function.update freshFds 2 f j).flags ≠ 0 := by
    intro j hj hlt
    obtain rfl : j = 2 := by omega
    rw [Function.update_self, hflags]
    exact Nat.one_ne_zero
  obtain ⟨fds0, hopen0, hstream0, hothers0⟩ := h.file0.sysOpen h.files (freeSlot_eq (by decide) rfl hused)
  have hused : ∀ j : Fin 8, 2 ≤ j.val → j < 4 → (fds0 j).flags ≠ 0 := by
    intro j hj hlt
    by_cases hj3 : j = 3
    · rw [hj3, hstream0.flags]
      exact Nat.one_ne_zero
    · rw [hothers0 j hj3]
      exact hused j hj (by omega)
  have hfree : (fds0 4).flags = 0 := by
    rw [hothers0 4 (by decide)]
    rfl
  obtain ⟨fds1, hopen1, hstream1, hothers1⟩ := h.file1.sysOpen h.files (freeSlot_eq (by decide) hfree hused)
  obtain ⟨hrows0, hlines0⟩ := splitOn_small t0
  obtain ⟨hrows1, hlines1⟩ := splitOn_small t1
  have hcolumns : ∀ r, max ((t0.splitOn 10).getD r []).length ((t1.splitOn 10).getD r []).length < fuel := by
    intro r
    have hlen0 := length_line_le t0 r
    have hlen1 := length_line_le t1 r
    omega
  have hstarts : Frames.Starts fs 3 4 ⟨fds1, ⟨(3 : Fin 8).val, 48, false⟩, ⟨(4 : Fin 8).val, 48, false⟩, .start screen⟩
      (t0.splitOn 10) (t1.splitOn 10) :=
    ⟨rfl, rfl, .text rfl rfl (hstream0.congr (hothers1 3 (by decide))), .text rfl rfl hstream1⟩
  have hrows : max (t0.splitOn 10).length (t1.splitOn 10).length < fuel + 0 := by omega
  obtain ⟨a, hloop, hfish⟩ := Frames.frameLoop_eq (by decide) h.files.limit stale (by decide) (by decide) hcolumns hrows
    (Nat.zero_le _) hstarts
  obtain ⟨s, hwait, hshown⟩ := waitLoop_animates stale (fun l hl => (hlines0 l hl).2) (fun l hl => (hlines1 l hl).2)
    h.fits0 h.fits1 screen n
  refine ⟨s, ?_, hshown⟩
  rw [← hfish] at hwait
  simp only [Boss.addFramesTicks, hrtcOpen, addFrames, hopen0, hopen1, Option.bind_some]
  rw [if_neg (by decide), if_neg (by decide), hloop]
  simp only [Option.map_some, Option.bind_some, hwait]

/-- On an image with two drawings that fit, `add_frames` ends, and after `n` ticks the screen shows the first drawing or
the second one, in turns of 15 ticks. -/
theorem ticked_frames_alternate (fs : Image) (t0 t1 : List UInt8) (h : fs.Draws t0 t1) (stale : Blink) (fuel : Nat)
    (hfuel : max t0.length t1.length + 2 ≤ fuel) (screen : Mem) (n : Nat) :
    ∃ s, addFramesTicks fs stale fuel screen n = some (.ok s) ∧ s.Animates (t0.splitOn 10) (t1.splitOn 10) screen n := by
  obtain ⟨s, hshow, -, hanimates⟩ := h.addFramesTicks hfuel stale screen n
  exact ⟨s, hshow, hanimates⟩

/-- An image with the RTC and two drawings of one character, `/` and `\`. -/
def slashImage : Image where
  mem := [(0x400000, [3, 0, 0, 0, 2]), (0x400040, ascii "rtc"), (0x400080, ascii "frame0.txt"), (0x4000A0, [2]),
    (0x4000C0, ascii "frame1.txt"), (0x4000E0, [2, 0, 0, 0, 1]), (0x401000, [1]), (0x402000, [1, 0, 0, 0, 1]),
    (0x403000, [47]), (0x404000, [92])].foldl (fun m part => Mem.put m part.1 part.2) fun _ => 0
  base := 0x400000
  limit := 0x405000

/-- Both files of the image are within it. -/
lemma slashImage_valid : slashImage.FilesValid := by
  have hnum : slashImage.numInodes = 2 := rfl
  have hsmall : ∀ inode < 2, slashImage.lengthBytes inode = 1 ∧ slashImage.dataBlock inode 0 ≤ 1 := by decide
  refine ⟨by decide, fun inode hin => ?_⟩
  obtain ⟨hlen, hblock⟩ := hsmall inode (hnum ▸ hin)
  refine ⟨hin, by omega, fun j hj => ?_⟩
  obtain rfl : j = 0 := by omega
  rw [hnum]
  change 0x400000 + 4096 * (1 + 2 + slashImage.dataBlock inode 0) + 4096 ≤ 0x405000
  omega

/-- A single character fits. -/
lemma fitsScreen_single (c : UInt8) : FitsScreen [[c]] := by
  intro row col hshown
  cases row with
  | zero =>
    cases col with
    | zero => exact ⟨by decide, by decide⟩
    | succ col => exact absurd rfl hshown
  | succ row => exact absurd rfl hshown

/-- What the two files hold. -/
lemma slashImage_draws : slashImage.Draws [47] [92] where
  files := slashImage_valid
  rtc := ⟨_, rfl, rfl⟩
  file0 := ⟨_, rfl, rfl, by decide, by rw [Image.content_eq_slice (by decide)]; rfl⟩
  file1 := ⟨_, rfl, rfl, by decide, by rw [Image.content_eq_slice (by decide)]; rfl⟩
  fits0 := fitsScreen_single 47
  fits1 := fitsScreen_single 92

/-- After 20 ticks the second drawing is to be seen. -/
theorem ticked_frames_alternate_slashes :
    ∃ s, addFramesTicks slashImage .zero 3 (fun _ => 32) 20 = some (.ok s) ∧ s.screen 80 = 92 := by
  obtain ⟨s, hshow, hanimates⟩ := ticked_frames_alternate slashImage [47] [92] slashImage_draws .zero 3 (by decide)
    (fun _ => 32) 20
  exact ⟨s, hshow, hanimates.inside 0 0 (by decide) (by decide)⟩

/-! ### The whole program -/

namespace Fish
variable {s t : Fish} {l : List Slot} {c : BlinkCall} {n : Nat}

/-- A call on a sound list ends and leaves it sound, if it adds nothing at location 0. -/
lemma Sound.perform (h : s.Sound) (hc : ∀ b, c = .add b → b.location ≠ 0) :
    ∃ r t, s.perform c = some (r, t) ∧ t.Sound := by
  obtain ⟨l, hlists, hzero⟩ := h
  have hsafe : s.Safe c := by
    cases c with
    | add b => exact fun _ i hi h0 => absurd h0 (hzero i (hlists.has_iff.mp hi))
    | _ => trivial
  obtain ⟨r, t, l', hperform, hmoves⟩ := perform_moves hlists c
  have hnodup := (hmoves.nodup_iff hlists).mpr hsafe
  refine ⟨r, t, hperform, l', hmoves.lists hlists hnodup, fun k hk => ?_⟩
  rcases hmoves.location_cases hnodup hk with ⟨hkl, hloc⟩ | ⟨b, hb, -, hloc⟩
  · rw [hloc]
    exact hzero k hkl
  · rw [hloc]
    exact hc b hb

/-- Any number of ticks on a sound list. -/
lemma Sound.waitLoop (h : s.Sound) (n : Nat) : ∃ t, Boss.waitLoop n s = some t ∧ t.Sound := by
  induction n generalizing s with
  | zero => exact ⟨s, rfl, h⟩
  | succ n ih =>
    obtain ⟨r, t, hperform, ht⟩ := @Sound.perform s .tasklet h fun b hb => by cases hb
    obtain ⟨t', htasklet, heq⟩ := Option.map_eq_some_iff.mp hperform
    cases heq
    obtain ⟨u, hu, hsound⟩ := ih ht
    exact ⟨u, by rw [Boss.waitLoop, htasklet, Option.bind_some, hu], hsound⟩

end Fish

/-- The program always ends, with status 0: no request finds the list of the structures broken. -/
theorem fish_ends (fs : Image) (t0 t1 : List UInt8) (h : fs.Draws t0 t1) (stale : Blink) (fuel : Nat)
    (hfuel : max t0.length t1.length + 2 ≤ fuel) (vidmap : Int) (hmapped : vidmap ≠ -1) (screen : Mem) :
    ∃ s, fishMain fs stale fuel vidmap screen = some (0, s) := by
  obtain ⟨s, hshow, hs, -⟩ := h.addFramesTicks hfuel stale screen 200
  have hplace : (messageBlink stale).location ≠ 0 := show (6 * 80 + 60 : UInt16) ≠ 0 by decide
  obtain ⟨r0, s0, hadd, hs0⟩ := @Fish.Sound.perform s (.add (messageBlink stale)) hs fun b hb => by
    cases hb
    exact hplace
  obtain ⟨s1, hwait1, hs1⟩ := hs0.waitLoop 200
  obtain ⟨r2, s2, hsync, hs2⟩ := @Fish.Sound.perform s1 (.sync ((40 : UInt32) <<< 16 ||| (6 * 80 + 60))) hs1
    fun b hb => by cases hb
  obtain ⟨s3, hwait3, hs3⟩ := hs2.waitLoop 200
  obtain ⟨r4, s4, hremove, hs4⟩ := @Fish.Sound.perform s3 (.remove 200) hs3 fun b hb => by cases hb
  obtain ⟨s5, hwait5, -⟩ := hs4.waitLoop (80 * 25)
  have hadd' : s.mp1IoctlAdd (messageBlink stale) = (r0, s0) := Option.some.inj hadd
  change s1.mp1IoctlSync _ = _ at hsync
  change s3.mp1IoctlRemove _ = _ at hremove
  refine ⟨s5, ?_⟩
  simp only [fishMain, if_neg hmapped, hshow, Option.bind_some, hadd', hwait1, hsync, hwait3, hremove, hwait5,
    Option.map_some]

/-- The program on this image. -/
theorem fish_ends_slashes : ∃ s, fishMain slashImage .zero 3 0 (fun _ => 32) = some (0, s) :=
  fish_ends slashImage [47] [92] slashImage_draws .zero 3 (by decide) 0 (by decide) fun _ => 32

end Boss
