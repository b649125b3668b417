import Boss.Lib.Chain
import Boss.Lib.Memory
import Boss.Lib.System
import Mathlib.Data.List.Basic

/-!
# The blinking characters of the fish program

`blink.S` keeps the characters that blink in slots of `blink_array` and links the slots in use into a list. The four
requests of `mp1_ioctl` and `mp1_rtc_tasklet` walk that list; a walk that does not end has no result in the model.

`Moves` says once what each call does to the slots when the list is in order (`perform_moves`). Two results follow from
it. A slot with location 0 is free to `mp1_malloc`, so a structure that was added at location 0 can be handed out while
it is in the list: `list_intact_iff` says for which calls the list stays intact. And `mp1_ioctl_sync` always shows
the `off_char`, since `testb` never sets the flags that `cmovl` asks for: `display_matches_iff`.
-/

namespace Boss
open Lib

/-- A `struct mp1_blink_struct`. Its field `next` is kept with the head of the list. -/
structure Blink where
  location : UInt16
  onChar : UInt8
  offChar : UInt8
  onLength : UInt16
  offLength : UInt16
  countdown : UInt16
  status : UInt16
deriving DecidableEq

/-- A slot of `blink_array`. -/
abbrev Slot := Fin (80 * 25)

namespace Blink

/-- What `mp1_free` leaves in a slot. -/
def zero : Blink := ⟨0, 0, 0, 0, 0, 0, 0⟩

/-- The structure as `mp1_ioctl_add` puts it into the list. -/
def started (b : Blink) : Blink := { b with status := 1, countdown := b.onLength }

/-- The structure after `mp1_ioctl_sync` copied the timing of another. -/
def synced (b source : Blink) : Blink :=
  { b with
    onLength := source.onLength, offLength := source.offLength,
    countdown := source.countdown, status := source.status }

/-- The character that the status bit asks for. -/
def char (b : Blink) : UInt8 := if b.status &&& 1 ≠ 0 then b.onChar else b.offChar

/-- The offset of the character in video memory. -/
def offset (b : Blink) : Nat := 2 * b.location.toNat

end Blink

/-- The two flags that a signed comparison reads. -/
structure Flags where
  sign : Bool
  overflow : Bool

/-- `testb`: the sign of the conjunction; there is no overflow. -/
def Flags.testb (mask v : UInt8) : Flags := ⟨128 ≤ mask &&& v, false⟩

/-- `cmovl`: the new value when the flags say less, and the old one otherwise. -/
def Flags.cmovl (f : Flags) (new old : UInt8) : UInt8 := if f.sign ≠ f.overflow then new else old

/-- The memory of the program: `mp1_list_head` and the links, `blink_array`, and video memory. -/
structure Fish where
  list : Chain Slot
  blinkArray : Slot → Blink
  screen : Mem

namespace Fish

/-- Store a structure in a slot. -/
def set (s : Fish) (i : Slot) (b : Blink) : Fish := { s with blinkArray := Function.update s.blinkArray i b }

/-- `mp1_poke`. -/
def mp1Poke (s : Fish) (c : UInt8) (offset : Nat) : Fish := { s with screen := Function.update s.screen offset c }

/-- The loop of `mp1_malloc` over `n` slots from the `i`-th on. -/
def mallocLoop (s : Fish) : Nat → Nat → Option Slot
  | 0, _ => none
  | n + 1, i =>
    if h : i < 80 * 25 then
      if (s.blinkArray ⟨i, h⟩).location = 0 then some ⟨i, h⟩ else s.mallocLoop n (i + 1)
    else none

/-- `mp1_malloc`: the first slot with location 0. -/
def mp1Malloc (s : Fish) : Option Slot := s.mallocLoop (80 * 25) 0

/-- All bytes of the structure are cleared, its link among them. -/
def mp1Free (s : Fish) (i : Slot) : Fish := { s.set i .zero with list := s.list.store none (some i) }

/-- The number of cells that a walk can pass on a list that ends. -/
def steps : Nat := 80 * 25 + 1

/-- The loop of `mp1_find_helper`. -/
def findLoop (s : Fish) (location : UInt16) : Nat → Option Slot → Option (Option Slot)
  | 0, _ => none
  | _ + 1, none => some none
  | n + 1, some i =>
    if (s.blinkArray i).location = location then some (some i) else s.findLoop location n (s.list.next i)

/-- Only the lower half of the argument is read. -/
def mp1FindHelper (s : Fish) (arg : UInt32) : Option (Option Slot) :=
  s.findLoop arg.toUInt16 steps s.list.head

/-- The loop `remove_find_prev` over the places where links are kept. -/
def removeFindPrev (s : Fish) (i : Slot) : Nat → Option Slot → Option (Option Slot)
  | 0, _ => none
  | n + 1, place =>
    if s.list.load place = some i then some place
    else
      match s.list.load place with
      | none => none -- a null pointer is followed
      | some k => s.removeFindPrev i n (some k)

/-- The copy of the caller's structure never fails: `ece391_memcpy` returns 0. -/
def mp1IoctlAdd (s : Fish) (b : Blink) : Int × Fish :=
  if 80 * 25 ≤ b.location.toNat then (-1, s)
  else
    match s.mp1Malloc with
    | none => (-1, s)
    | some i =>
      let s' : Fish := { s.set i b.started with list := s.list.push i }
      (0, s'.mp1Poke b.started.onChar b.started.offset)

/-- `mp1_ioctl_remove`. -/
def mp1IoctlRemove (s : Fish) (arg : UInt32) : Option (Int × Fish) :=
  (s.mp1FindHelper arg).bind fun
    | none => some (-1, s)
    | some i =>
      (s.removeFindPrev i steps none).map fun place =>
        (0, ({ s with list := s.list.store (s.list.next i) place } : Fish).mp1Free i)

/-- The structure found is copied to the caller. -/
def mp1IoctlFind (s : Fish) (location : UInt16) : Option (Int × Option Blink) :=
  (s.mp1FindHelper location.toUInt32).map fun
    | none => (-1, none)
    | some i => (0, some (s.blinkArray i))

/-- `mp1_ioctl_sync`. -/
def mp1IoctlSync (s : Fish) (arg : UInt32) : Option (Int × Fish) :=
  (s.mp1FindHelper (arg >>> 16)).bind fun
    | none => some (-1, s)
    | some i =>
      (s.mp1FindHelper (arg &&& 0xFFFF)).map fun
        | none => (-1, s)
        | some j =>
          let b := (s.blinkArray j).synced (s.blinkArray i)
          (0, (s.set j b).mp1Poke ((Flags.testb 1 b.status.toUInt8).cmovl b.onChar b.offChar) b.offset)

/-- The body of the loop of `mp1_rtc_tasklet`. -/
def taskletVisit (s : Fish) (i : Slot) : Fish :=
  let b := { s.blinkArray i with countdown := (s.blinkArray i).countdown - 1 }
  if 0 < b.countdown.toInt16.toInt then s.set i b
  else if b.status &&& 1 ≠ 0 then
    (s.mp1Poke b.offChar b.offset).set i { b with countdown := b.offLength, status := b.status ^^^ 1 }
  else
    (s.mp1Poke b.onChar b.offset).set i { b with countdown := b.onLength, status := b.status ^^^ 1 }

/-- The loop of `mp1_rtc_tasklet` over the list. -/
def taskletLoop : Nat → Option Slot → Fish → Option Fish
  | 0, _, _ => none
  | _ + 1, none, s => some s
  | n + 1, some i, s => taskletLoop n ((s.taskletVisit i).list.next i) (s.taskletVisit i)

/-- `mp1_rtc_tasklet`. -/
def mp1RtcTasklet (s : Fish) : Option Fish := taskletLoop steps s.list.head s

end Fish

/-- A request to `mp1_ioctl`, or a run of the tasklet. -/
inductive BlinkCall
  | add (b : Blink)
  | remove (arg : UInt32)
  | find (location : UInt16)
  | sync (arg : UInt32)
  | tasklet
deriving DecidableEq

/-- The returned value and the memory afterwards; the tasklet returns nothing. -/
def Fish.perform (s : Fish) : BlinkCall → Option (Int × Fish)
  | .add b => some (s.mp1IoctlAdd b)
  | .remove arg => s.mp1IoctlRemove arg
  | .find location => (s.mp1IoctlFind location).map fun r => (r.1, s)
  | .sync arg => s.mp1IoctlSync arg
  | .tasklet => s.mp1RtcTasklet.map fun s' => (0, s')

/-! ### One structure -/

namespace Blink
variable {b : Blink}

/-- The structure after a visit of the tasklet. -/
def ticked (b : Blink) : Blink :=
  let b := { b with countdown := b.countdown - 1 }
  if 0 < b.countdown.toInt16.toInt then b
  else if b.status &&& 1 ≠ 0 then { b with countdown := b.offLength, status := b.status ^^^ 1 }
  else { b with countdown := b.onLength, status := b.status ^^^ 1 }

/-- The lowest bit of the status says whether the structure is on. -/
lemma odd_iff (v : UInt16) : v &&& 1 ≠ 0 ↔ v.toNat % 2 = 1 := by
  rw [ne_eq, ← UInt16.toNat_inj, UInt16.toNat_and, UInt16.toNat_one, Nat.and_one_is_mod, UInt16.toNat_zero]
  omega

/-- The last bit of the status is turned over. -/
lemma odd_flip_iff (v : UInt16) : (v ^^^ 1) &&& 1 ≠ 0 ↔ ¬ v &&& 1 ≠ 0 := by
  rw [odd_iff, odd_iff, UInt16.toNat_xor, UInt16.toNat_one, Nat.xor_mod_two_eq_one]
  omega

/-- A new structure shows its first character. -/
lemma started_char : b.started.char = b.onChar := by
  have hlit : (1 : UInt16) &&& 1 ≠ 0 := by decide
  exact if_pos hlit

/-- Ticks do not move a structure. -/
@[simp] lemma ticked_location : b.ticked.location = b.location := by
  dsimp only [ticked]
  split_ifs <;> rfl

/-- Ticks do not move a structure on the screen. -/
@[simp] lemma ticked_offset : b.ticked.offset = b.offset := by rw [offset, ticked_location, offset]

end Blink

namespace Fish
variable {s t : Fish} {i j : Slot} {b : Blink} {c : UInt8} {n offset : Nat} {l l' : List Slot} {p : Option Slot}
variable {x : UInt16}

/-! ### The walks -/

@[simp] lemma set_list : (s.set i b).list = s.list := rfl
@[simp] lemma set_blinkArray : (s.set i b).blinkArray = Function.update s.blinkArray i b := rfl
@[simp] lemma set_screen : (s.set i b).screen = s.screen := rfl
@[simp] lemma mp1Poke_list : (s.mp1Poke c offset).list = s.list := rfl
@[simp] lemma mp1Poke_blinkArray : (s.mp1Poke c offset).blinkArray = s.blinkArray := rfl
@[simp] lemma mp1Poke_screen : (s.mp1Poke c offset).screen = Function.update s.screen offset c := rfl

/-- The slot holds a structure for this location. -/
def At (s : Fish) (x : UInt16) (i : Slot) : Bool := (s.blinkArray i).location = x

/-- What the search compares. -/
lemma at_iff : s.At x i = true ↔ (s.blinkArray i).location = x := decide_eq_true_iff

/-- A character is poked when the countdown is over, and it is the one that the new status asks for. -/
lemma taskletVisit_eq : s.taskletVisit i = s.set i (s.blinkArray i).ticked ∧
      (s.blinkArray i).ticked.char = (s.blinkArray i).char ∨
    s.taskletVisit i =
      (s.set i (s.blinkArray i).ticked).mp1Poke (s.blinkArray i).ticked.char (s.blinkArray i).offset := by
  dsimp only [taskletVisit, Blink.ticked]
  split_ifs with hrun hlit
  · exact .inl ⟨rfl, rfl⟩
  · right
    dsimp only [Blink.char]
    rw [if_neg (by rw [Blink.odd_flip_iff]; exact not_not.mpr hlit)]
    rfl
  · right
    dsimp only [Blink.char]
    rw [if_pos (by rw [Blink.odd_flip_iff]; exact hlit)]
    rfl

/-- The tasklet leaves the links alone. -/
@[simp] lemma taskletVisit_list : (s.taskletVisit i).list = s.list := by
  rcases taskletVisit_eq (s := s) (i := i) with ⟨h, -⟩ | h
  · rw [h, set_list]
  · rw [h, mp1Poke_list, set_list]

/-- The tasklet counts one structure down. -/
@[simp] lemma taskletVisit_blinkArray :
    (s.taskletVisit i).blinkArray = Function.update s.blinkArray i (s.blinkArray i).ticked := by
  rcases taskletVisit_eq (s := s) (i := i) with ⟨h, -⟩ | h
  · rw [h, set_blinkArray]
  · rw [h, mp1Poke_blinkArray, set_blinkArray]

/-- The tasklet visits the slots of the list one after another. -/
lemma taskletLoop_eq (h : Path s.list.next p l) (hn : l.length < n) :
    taskletLoop n p s = some (l.foldl taskletVisit s) := by
  induction l generalizing s p n with
  | nil =>
    cases h
    obtain ⟨n, rfl⟩ := Nat.exists_eq_succ_of_ne_zero (by omega : n ≠ 0)
    rfl
  | cons i l ih =>
    cases h with
    | cons h =>
      obtain ⟨n, rfl⟩ := Nat.exists_eq_succ_of_ne_zero (by omega : n ≠ 0)
      rw [List.length_cons] at hn
      rw [taskletLoop, taskletVisit_list, List.foldl_cons]
      exact ih (by rw [taskletVisit_list]; exact h) (by omega)

/-- A slot that leads to itself is visited again and again. -/
lemma taskletLoop_self (h : s.list.next i = some i) : taskletLoop n (some i) s = none := by
  induction n generalizing s with
  | zero => rfl
  | succ n ih =>
    rw [taskletLoop, taskletVisit_list, h]
    exact ih (by rw [taskletVisit_list]; exact h)

/-- The whole walk leaves the links alone. -/
@[simp] lemma foldl_taskletVisit_list : (l.foldl taskletVisit s).list = s.list := by
  induction l generalizing s with
  | nil => rfl
  | cons i l ih => rw [List.foldl_cons, ih, taskletVisit_list]

/-- The whole walk counts every structure of the list down, once each. -/
lemma foldl_taskletVisit_blinkArray (h : l.Nodup) :
    (l.foldl taskletVisit s).blinkArray i = if i ∈ l then (s.blinkArray i).ticked else s.blinkArray i := by
  induction l generalizing s with
  | nil => rfl
  | cons k l ih =>
    obtain ⟨hk, hl⟩ := List.nodup_cons.mp h
    rw [List.foldl_cons, ih hl, taskletVisit_blinkArray]
    by_cases hik : i = k
    · subst hik
      rw [if_neg hk, Function.update_self, if_pos List.mem_cons_self]
    · rw [Function.update_of_ne hik]
      exact if_congr (by rw [List.mem_cons, or_iff_right hik]) rfl rfl

/-- The walk of `mp1_find_helper` ends at the first structure for the location. -/
lemma findLoop_eq (h : Path s.list.next p l) (hn : l.length < n) : s.findLoop x n p = some (l.find? (s.At x)) := by
  induction h generalizing n with
  | nil =>
    obtain ⟨n, rfl⟩ := Nat.exists_eq_succ_of_ne_zero (by omega : n ≠ 0)
    rfl
  | @cons i l _ ih =>
    obtain ⟨n, rfl⟩ := Nat.exists_eq_succ_of_ne_zero (by omega : n ≠ 0)
    rw [List.length_cons] at hn
    rw [findLoop]
    by_cases hi : (s.blinkArray i).location = x
    · rw [if_pos hi, List.find?_cons_of_pos (at_iff.mpr hi)]
    · rw [if_neg hi, List.find?_cons_of_neg (fun h => hi (at_iff.mp h))]
      exact ih (by omega)

/-- The walk over a list that ends is short enough. -/
lemma length_lt_steps (h : s.list.Lists l) : l.length < steps := by
  have hcard := (Path.nodup h).length_le_card
  rw [Fintype.card_fin] at hcard
  exact Nat.lt_succ_of_le hcard

/-- On a list that ends, `mp1_find_helper` returns the first structure at the location. -/
lemma mp1FindHelper_eq (h : s.list.Lists l) (arg : UInt32) :
    s.mp1FindHelper arg = some (l.find? (s.At arg.toUInt16)) :=
  findLoop_eq h (length_lt_steps h)

/-- The predecessor search ends at the place where the link to the slot is kept. -/
lemma removeFindPrev_eq {l₁ l₂ : List Slot} (h : Path s.list.next (s.list.load p) (l₁ ++ i :: l₂)) (hi : i ∉ l₁)
    (hn : l₁.length < n) : s.removeFindPrev i n p = some (l₁.getLast?.or p) := by
  induction l₁ generalizing p n with
  | nil =>
    obtain ⟨n, rfl⟩ := Nat.exists_eq_succ_of_ne_zero (by omega : n ≠ 0)
    have hload : s.list.load p = some i := by
      generalize s.list.load p = q at h
      cases h
      rfl
    rw [removeFindPrev, if_pos hload]
    rfl
  | cons k l₁ ih =>
    obtain ⟨n, rfl⟩ := Nat.exists_eq_succ_of_ne_zero (by omega : n ≠ 0)
    rw [List.length_cons] at hn
    have hload : s.list.load p = some k := by
      generalize s.list.load p = q at h
      cases h
      rfl
    rw [hload] at h
    cases h with
    | cons h =>
      have hki : some k ≠ some i := fun e => hi (Option.some.inj e ▸ List.mem_cons_self)
      rw [removeFindPrev, hload, if_neg hki]
      refine (ih (p := some k) h (List.not_mem_of_not_mem_cons hi) (by omega)).trans ?_
      rw [List.getLast?_cons]
      cases l₁.getLast? <;> rfl

/-- The loop of `mp1_malloc` stops at the first slot whose location is 0. -/
lemma mallocLoop_cases {k : Nat} (hn : k + n = 80 * 25)
    (hk : ∀ j : Slot, j.val < k → (s.blinkArray j).location ≠ 0) :
    (s.mallocLoop n k = none ∧ ∀ j, (s.blinkArray j).location ≠ 0) ∨
      ∃ i, s.mallocLoop n k = some i ∧ (s.blinkArray i).location = 0 ∧ ∀ j < i, (s.blinkArray j).location ≠ 0 := by
  induction n generalizing k with
  | zero => exact .inl ⟨rfl, fun j => hk j (by omega)⟩
  | succ n ih =>
    have hlt : k < 80 * 25 := by omega
    rw [mallocLoop, dif_pos hlt]
    by_cases hloc : (s.blinkArray ⟨k, hlt⟩).location = 0
    · rw [if_pos hloc]
      exact .inr ⟨_, rfl, hloc, fun j hj => hk j hj⟩
    · rw [if_neg hloc]
      refine ih (by omega) fun j hj => ?_
      rcases Nat.lt_succ_iff_lt_or_eq.mp hj with hj | hj
      · exact hk j hj
      · obtain rfl : j = ⟨k, hlt⟩ := Fin.ext hj
        exact hloc

/-- What `mp1_malloc` returns. -/
lemma mp1Malloc_cases : (s.mp1Malloc = none ∧ ∀ j, (s.blinkArray j).location ≠ 0) ∨
    ∃ i, s.mp1Malloc = some i ∧ (s.blinkArray i).location = 0 ∧ ∀ j < i, (s.blinkArray j).location ≠ 0 :=
  mallocLoop_cases (Nat.zero_add _) fun _ hj => absurd hj (Nat.not_lt_zero _)

/-! ### What a call does -/

end Fish

/-- The location of the structure whose timing is copied. -/
def syncSource (arg : UInt32) : UInt16 := (arg >>> 16).toUInt16

/-- The location of the structure that takes over the timing. -/
def syncTarget (arg : UInt32) : UInt16 := arg.toUInt16

namespace Fish
variable {s t : Fish} {i j : Slot} {l l' : List Slot} {c : BlinkCall} {r : Int}

/-- The memory after the structure was added in a slot. -/
def added (s : Fish) (b : Blink) (i : Slot) : Fish :=
  ({ s.set i b.started with list := s.list.push i } : Fish).mp1Poke b.onChar b.offset

/-- The memory after the timing of slot `i` was copied to slot `j`. The flags after `testb` never say less, and the
character shown is the `off_char`. -/
def synced (s : Fish) (i j : Slot) : Fish :=
  (s.set j ((s.blinkArray j).synced (s.blinkArray i))).mp1Poke (s.blinkArray j).offChar (s.blinkArray j).offset

/-- The call fails, with the slots of the list given. -/
def Refuses (s : Fish) (l : List Slot) : BlinkCall → Prop
  | .add b => 80 * 25 ≤ b.location.toNat ∨ ∀ j, (s.blinkArray j).location ≠ 0
  | .remove arg => l.find? (s.At arg.toUInt16) = none
  | .find location => l.find? (s.At location) = none
  | .sync arg => l.find? (s.At (syncSource arg)) = none ∨ l.find? (s.At (syncTarget arg)) = none
  | .tasklet => False

/-- A call returns a value and takes the memory, and the slots of the list, to new ones. -/
inductive Moves (s : Fish) (l : List Slot) : BlinkCall → Int → Fish → List Slot → Prop
  | refused {c : BlinkCall} : s.Refuses l c → Moves s l c (-1) s l
  | added {b : Blink} {i : Slot} : b.location.toNat < 80 * 25 → (s.blinkArray i).location = 0 →
      (∀ j < i, (s.blinkArray j).location ≠ 0) → Moves s l (.add b) 0 (s.added b i) (i :: l)
  | removed {arg : UInt32} {i : Slot} {t : Fish} : l.find? (s.At arg.toUInt16) = some i →
      t.list.Lists (l.eraseP (s.At arg.toUInt16)) → i ∉ l.eraseP (s.At arg.toUInt16) →
      t.blinkArray = Function.update s.blinkArray i .zero → t.screen = s.screen →
      Moves s l (.remove arg) 0 t (l.eraseP (s.At arg.toUInt16))
  | found {location : UInt16} {i : Slot} : l.find? (s.At location) = some i → Moves s l (.find location) 0 s l
  | synced {arg : UInt32} {i j : Slot} : l.find? (s.At (syncSource arg)) = some i →
      l.find? (s.At (syncTarget arg)) = some j → Moves s l (.sync arg) 0 (s.synced i j) l
  | ticked : Moves s l .tasklet 0 (l.foldl taskletVisit s) l

/-- `testb $1` leaves the sign and the overflow flag clear, and so `cmovl` behind it never moves. -/
lemma cmovl_testb (v new old : UInt8) : (Flags.testb 1 v).cmovl new old = old := by
  have hsign : ¬ 128 ≤ 1 &&& v := by
    rw [UInt8.le_iff_toNat_le, UInt8.toNat_and]
    exact not_le.mpr (Nat.lt_of_le_of_lt Nat.and_le_left (by decide))
  rw [Flags.cmovl, Flags.testb, decide_eq_false hsign]
  rfl

/-- What `mp1_ioctl_add` does. -/
lemma mp1IoctlAdd_moves (b : Blink) (l : List Slot) :
    ∃ r t l', s.mp1IoctlAdd b = (r, t) ∧ s.Moves l (.add b) r t l' := by
  rw [mp1IoctlAdd]
  by_cases hloc : 80 * 25 ≤ b.location.toNat
  · rw [if_pos hloc]
    exact ⟨_, _, _, rfl, .refused (.inl hloc)⟩
  · rw [if_neg hloc]
    rcases mp1Malloc_cases (s := s) with ⟨hm, hfull⟩ | ⟨i, hm, hfree, hleast⟩
    · rw [hm]
      exact ⟨_, _, _, rfl, .refused (.inr hfull)⟩
    · rw [hm]
      exact ⟨_, _, _, rfl, .added (not_le.mp hloc) hfree hleast⟩

/-- What `mp1_ioctl_remove` does on a list that ends. -/
lemma mp1IoctlRemove_moves (h : s.list.Lists l) (arg : UInt32) :
    ∃ r t l', s.mp1IoctlRemove arg = some (r, t) ∧ s.Moves l (.remove arg) r t l' := by
  rw [mp1IoctlRemove, mp1FindHelper_eq h, Option.bind_some]
  cases hfind : l.find? (s.At arg.toUInt16) with
  | none => exact ⟨_, _, _, rfl, .refused hfind⟩
  | some i =>
    obtain ⟨hi, l₁, l₂, rfl, hl₁⟩ := List.find?_eq_some_iff_append.mp hfind
    have herase : (l₁ ++ i :: l₂).eraseP (s.At arg.toUInt16) = l₁ ++ l₂ := by
      rw [List.eraseP_append_right _ (fun k hk => by simpa using hl₁ k hk), List.eraseP_cons_of_pos hi]
    have hnodup := Path.nodup h
    have hout : i ∉ l₁ ++ l₂ := (List.nodup_middle.mp hnodup |> List.nodup_cons.mp).1
    have hprev := removeFindPrev_eq (p := none) h (fun hi => hout (List.mem_append_left _ hi))
      (Nat.lt_of_le_of_lt (by rw [List.length_append]; omega) (length_lt_steps h))
    rw [Option.or_none] at hprev
    refine ⟨_, _, _, congrArg (Option.map _) hprev, .removed hfind ?_ ?_ rfl rfl⟩
    · rw [herase]
      refine Path.congr h.unlink fun k hk => Function.update_of_ne ?_ _ _
      exact ne_of_mem_of_not_mem hk hout
    · rwa [herase]

/-- What `mp1_ioctl_sync` does on a list that ends. -/
lemma mp1IoctlSync_moves (h : s.list.Lists l) (arg : UInt32) :
    ∃ r t l', s.mp1IoctlSync arg = some (r, t) ∧ s.Moves l (.sync arg) r t l' := by
  have htarget : (arg &&& 0xFFFF).toUInt16 = syncTarget arg := by
    rw [syncTarget, ← UInt16.toNat_inj, UInt32.toNat_toUInt16, UInt32.toNat_toUInt16, UInt32.toNat_and]
    exact (congrArg (· % 2 ^ 16) (Nat.and_two_pow_sub_one_eq_mod arg.toNat 16)).trans (Nat.mod_mod _ _)
  rw [mp1IoctlSync, mp1FindHelper_eq h, mp1FindHelper_eq h, htarget, Option.bind_some]
  cases hi : l.find? (s.At (syncSource arg)) with
  | none =>
    refine ⟨-1, s, l, ?_, .refused (.inl hi)⟩
    rw [show l.find? (s.At (arg >>> 16).toUInt16) = none from hi]
  | some i =>
    rw [show l.find? (s.At (arg >>> 16).toUInt16) = some i from hi]
    cases hj : l.find? (s.At (syncTarget arg)) with
    | none => exact ⟨-1, s, l, rfl, .refused (.inr hj)⟩
    | some j =>
      refine ⟨0, s.synced i j, l, ?_, .synced hi hj⟩
      dsimp only [Option.map_some]
      rw [cmovl_testb]
      rfl

/-- While the list is in order, every call ends, and it does what `Moves` says. -/
theorem perform_moves (h : s.list.Lists l) (c : BlinkCall) :
    ∃ r t l', s.perform c = some (r, t) ∧ s.Moves l c r t l' := by
  cases c with
  | add b =>
    obtain ⟨r, t, l', hret, hmoves⟩ := mp1IoctlAdd_moves (s := s) b l
    exact ⟨r, t, l', congrArg some hret, hmoves⟩
  | remove arg => exact mp1IoctlRemove_moves h arg
  | find location =>
    have harg : location.toUInt32.toUInt16 = location := by simp
    rw [perform, mp1IoctlFind, mp1FindHelper_eq h, harg]
    cases hfind : l.find? (s.At location) with
    | none => exact ⟨_, _, _, rfl, .refused hfind⟩
    | some i => exact ⟨_, _, _, rfl, .found hfind⟩
  | sync arg => exact mp1IoctlSync_moves h arg
  | tasklet =>
    rw [perform, mp1RtcTasklet, taskletLoop_eq h (length_lt_steps h)]
    exact ⟨_, _, _, rfl, .ticked⟩

/-- The new slots are those of the list, unless one of them is in it twice. -/
lemma Moves.lists (h : s.list.Lists l) (hmoves : s.Moves l c r t l') (hnodup : l'.Nodup) : t.list.Lists l' := by
  cases hmoves with
  | refused _ => exact h
  | added _ _ _ => exact h.push (List.nodup_cons.mp hnodup).1
  | removed _ hlists _ _ _ => exact hlists
  | found _ => exact h
  | synced _ _ => exact h
  | ticked =>
    rw [foldl_taskletVisit_list]
    exact h

/-- There is a list afterwards only when no slot was put in twice. -/
lemma Moves.nodup_of_lists {m : List Slot} (h : s.list.Lists l) (hmoves : s.Moves l c r t l') (ht : t.list.Lists m) :
    l'.Nodup := by
  have hnodup : l.Nodup := Path.nodup h
  cases hmoves with
  | added _ _ _ => exact List.nodup_cons.mpr ⟨fun hi => Chain.not_lists_push h hi ht, hnodup⟩
  | removed _ _ _ _ _ => exact hnodup.sublist List.eraseP_sublist
  | refused _ | found _ | synced _ _ | ticked => exact hnodup

/-- The slot that an added structure takes is not in the list: it is the first one with location 0. -/
def Safe (s : Fish) : BlinkCall → Prop
  | .add b => b.location.toNat < 80 * 25 → ∀ i, s.list.Has i → (s.blinkArray i).location = 0 →
      ∃ j < i, (s.blinkArray j).location = 0 ∧ ¬ s.list.Has j
  | _ => True

/-- The calls that are safe are those that put no slot into the list twice. -/
lemma Moves.nodup_iff (h : s.list.Lists l) (hmoves : s.Moves l c r t l') : l'.Nodup ↔ s.Safe c := by
  have hnodup : l.Nodup := Path.nodup h
  cases hmoves with
  | refused hrefuses =>
    refine iff_of_true hnodup ?_
    cases c with
    | add b =>
      intro hloc i _ hzero
      rcases hrefuses with hloc' | hfull
      · omega
      · exact absurd hzero (hfull i)
    | _ => trivial
  | @added b i hloc hfree hleast =>
    rw [List.nodup_cons, and_iff_left hnodup, ← h.has_iff]
    constructor
    · intro hi _ k hk hzero
      refine ⟨i, lt_of_le_of_ne (not_lt.mp fun hki => hleast k hki hzero) ?_, hfree, hi⟩
      rintro rfl
      exact hi hk
    · intro hsafe hi
      obtain ⟨j, hj, hzero, -⟩ := hsafe hloc i hi hfree
      exact hleast j hj hzero
  | removed _ _ _ _ _ => exact iff_of_true (hnodup.sublist List.eraseP_sublist) trivial
  | found _ | synced _ _ | ticked => exact iff_of_true hnodup trivial

end Fish

/-! ### The list over whole runs -/

/-- What a call that succeeds does to the structures, newest first. -/
def BlinkCall.effect (live : List Blink) : BlinkCall → List Blink
  | .add b => b.started :: live
  | .remove arg => live.eraseP fun b => b.location = arg.toUInt16
  | .find _ => live
  | .sync arg =>
    match live.find? fun b => b.location = syncSource arg with
    | none => live
    | some source => live.replaceF fun b => if b.location = syncTarget arg then some (b.synced source) else none
  | .tasklet => live.map Blink.ticked

/-- The memory, and the structures that were added with success and not yet removed. -/
structure Tracked where
  fish : Fish
  live : List Blink

/-- The memory of the program before the first call. -/
def Fish.start (screen : Mem) : Fish := ⟨⟨none, fun _ => none⟩, fun _ => .zero, screen⟩

/-- No structure yet. -/
def Tracked.start (screen : Mem) : Tracked := ⟨.start screen, []⟩

/-- Calls, with the list kept beside the memory. -/
def trackedCalls : System Tracked BlinkCall where
  step t c := (t.fish.perform c).map fun r => ⟨r.2, if r.1 = 0 then c.effect t.live else t.live⟩

/-- The list ends, its slots are distinct, and they hold the structures added and not yet removed. -/
def Tracked.Intact (t : Tracked) : Prop :=
  ∃ l : List Slot, l.Nodup ∧ t.fish.list.Lists l ∧ l.map t.fish.blinkArray = t.live

section
variable {s t : Fish} {i j k : Slot} {l l' : List Slot} {c : BlinkCall} {r : Int} {b : Blink}

/-- A structure that is not listed does not count. -/
lemma map_update_of_notMem {f : Slot → Blink} (h : i ∉ l) : l.map (Function.update f i b) = l.map f :=
  List.map_congr_left fun _ hk => Function.update_of_ne (ne_of_mem_of_not_mem hk h) _ _

/-- A change of the first slot with a property changes the first structure with it. -/
lemma map_update_find {f : Slot → Blink} {p : Blink → Prop} [DecidablePred p] {g : Blink → Blink} (hl : l.Nodup)
    (h : l.find? (fun k => p (f k)) = some j) :
    l.map (Function.update f j (g (f j))) = (l.map f).replaceF fun b => if p b then some (g b) else none := by
  induction l with
  | nil => rfl
  | cons k l ih =>
    obtain ⟨hk, hl⟩ := List.nodup_cons.mp hl
    by_cases hp : p (f k)
    · rw [List.find?_cons_of_pos (by simpa using hp)] at h
      obtain rfl := Option.some.inj h
      rw [List.map_cons, List.map_cons, Function.update_self, map_update_of_notMem hk]
      exact (List.replaceF_cons_of_some (fun b => if p b then some (g b) else none) (if_pos hp)).symm
    · rw [List.find?_cons_of_neg (by simpa using hp)] at h
      have hne : k ≠ j := (ne_of_mem_of_not_mem (List.mem_of_find?_eq_some h) hk).symm
      rw [List.map_cons, List.map_cons, Function.update_of_ne hne, ih hl h]
      exact (List.replaceF_cons_of_none (fun b => if p b then some (g b) else none) (if_neg hp)).symm

/-- The slots of the list hold what the call makes of the structures. -/
lemma Fish.Moves.live (hmoves : s.Moves l c r t l') (hnodup : l'.Nodup) :
    l'.map t.blinkArray = if r = 0 then c.effect (l.map s.blinkArray) else l.map s.blinkArray := by
  cases hmoves with
  | refused _ => rfl
  | added _ _ _ =>
    obtain ⟨hi, -⟩ := List.nodup_cons.mp hnodup
    rw [if_pos rfl, List.map_cons, Fish.added, Fish.mp1Poke_blinkArray, Fish.set_blinkArray, Function.update_self,
      map_update_of_notMem hi]
    rfl
  | removed _ _ hi harray _ =>
    rw [if_pos rfl, harray, map_update_of_notMem hi, BlinkCall.effect, List.eraseP_map]
    rfl
  | found _ => rfl
  | @synced arg i j hi hj =>
    have hsource : (l.map s.blinkArray).find? (fun b => b.location = syncSource arg) = some (s.blinkArray i) := by
      rw [List.find?_map]
      exact congrArg (Option.map s.blinkArray) hi
    rw [if_pos rfl, BlinkCall.effect, hsource, Fish.synced, Fish.mp1Poke_blinkArray, Fish.set_blinkArray]
    exact map_update_find (p := fun b => b.location = syncTarget arg) (g := fun b => b.synced (s.blinkArray i))
      hnodup hj
  | ticked =>
    rw [if_pos rfl, BlinkCall.effect, List.map_map]
    refine List.map_congr_left fun k hk => ?_
    rw [Fish.foldl_taskletVisit_blinkArray hnodup, if_pos hk]
    rfl

end

section
variable {t t' : Tracked} {c : BlinkCall}

/-- On an intact list every call ends. -/
lemma Tracked.step_total (h : t.Intact) (c : BlinkCall) : ∃ t', trackedCalls.step t c = some t' := by
  obtain ⟨l, -, hlists, -⟩ := h
  obtain ⟨r, s, l', hperform, -⟩ := Fish.perform_moves hlists c
  exact ⟨_, congrArg (Option.map _) hperform⟩

/-- A call keeps the list intact when it is safe, and breaks it when it is not. -/
lemma Tracked.step_intact_iff (h : t.Intact) (hstep : trackedCalls.step t c = some t') :
    t'.Intact ↔ t.fish.Safe c := by
  obtain ⟨l, -, hlists, hlive⟩ := h
  obtain ⟨r, s, l', hperform, hmoves⟩ := Fish.perform_moves hlists c
  have ht' : t' = ⟨s, if r = 0 then c.effect t.live else t.live⟩ := by
    exact (Option.some.inj ((congrArg (Option.map _) hperform).symm.trans hstep)).symm
  subst ht'
  rw [← hmoves.nodup_iff hlists]
  constructor
  · rintro ⟨m, -, hm, -⟩
    exact hmoves.nodup_of_lists hlists hm
  · intro hnodup
    refine ⟨l', hnodup, hmoves.lists hlists hnodup, ?_⟩
    rw [hmoves.live hnodup, hlive]

end

/-- The calls on an empty list end and keep it intact in every state, exactly when each structure added finds a slot
that is not in the list before a slot in the list with location 0. -/
theorem list_intact_iff (screen : Mem) (calls : List BlinkCall) :
    (trackedCalls.run (.start screen) calls).isSome ∧ trackedCalls.Always Tracked.Intact (.start screen) calls ↔
      trackedCalls.Guarded (fun t c => t.fish.Safe c) (.start screen) calls := by
  have hstart : (Tracked.start screen).Intact := ⟨[], List.nodup_nil, .nil, rfl⟩
  constructor
  · rintro ⟨hsome, halways⟩
    obtain ⟨t, hrun⟩ := Option.isSome_iff_exists.mp hsome
    refine (System.always_iff_guarded (I := fun _ => True) ?_ ?_ trivial hstart hrun).mp halways
    · exact fun t c t' _ hintact hsafe hstep => ⟨trivial, (Tracked.step_intact_iff hintact hstep).mpr hsafe⟩
    · exact fun t c t' _ hintact hunsafe hstep h => hunsafe ((Tracked.step_intact_iff hintact hstep).mp h)
  · intro hguarded
    have keep : ∀ t c t', t.Intact → t.fish.Safe c → trackedCalls.step t c = some t' → t'.Intact :=
      fun t c t' hintact hsafe hstep => (Tracked.step_intact_iff hintact hstep).mpr hsafe
    constructor
    · obtain ⟨t, hrun, -⟩ := System.guarded_total (I := Tracked.Intact) (fun t c hintact hsafe => by
        obtain ⟨t', hstep⟩ := Tracked.step_total hintact c
        exact ⟨t', hstep, keep t c t' hintact hsafe hstep⟩) hstart hguarded
      rw [hrun]
      rfl
    · exact System.always_of_guarded keep (fun _ h => h) hstart hguarded

/-- A structure for a location that shows `A` and `B` in turns. -/
def blinkAt (location : UInt16) : Blink := ⟨location, 65, 66, 15, 15, 0, 0⟩

/-- A structure added at location 0 leaves its slot free to `mp1_malloc`. The next one takes the same slot, which then
leads to itself: the tasklet never ends. -/
theorem add_at_zero_closes_cycle :
    ∃ t, trackedCalls.run (.start fun _ => 0) [.add (blinkAt 0), .add (blinkAt 5)] = some t ∧ ¬ t.Intact ∧
      ∀ n, Fish.taskletLoop n t.fish.list.head t.fish = none := by
  obtain ⟨t, hrun, hhead, hnext⟩ : ∃ t,
      trackedCalls.run (.start fun _ => 0) [.add (blinkAt 0), .add (blinkAt 5)] = some t ∧
        t.fish.list.head = some 0 ∧ t.fish.list.next 0 = some 0 := ⟨_, rfl, rfl, rfl⟩
  have hloop : ∀ n, Fish.taskletLoop n t.fish.list.head t.fish = none := by
    rw [hhead]
    exact fun n => Fish.taskletLoop_self hnext
  refine ⟨t, hrun, ?_, hloop⟩
  rintro ⟨l, -, hlists, -⟩
  have hend := Fish.taskletLoop_eq hlists (Nat.lt_succ_self _)
  rw [hloop] at hend
  cases hend

/-! ### The characters on the screen -/

namespace Fish
variable {s t : Fish} {i j k : Slot} {l l' : List Slot} {c : BlinkCall} {r : Int} {b : Blink} {v : UInt8}

/-- The character on the screen is the one that the status of the structure asks for. -/
def Shown (s : Fish) (i : Slot) : Prop := s.screen (s.blinkArray i).offset = (s.blinkArray i).char

/-- Every structure of the list shows its character. -/
def Displayed (s : Fish) : Prop := ∀ i, s.list.Has i → s.Shown i

/-- No two slots of the list are for the same location. -/
def Apart (s : Fish) (l : List Slot) : Prop :=
  ∀ i ∈ l, ∀ j ∈ l, (s.blinkArray i).location = (s.blinkArray j).location → i = j

/-- Places on the screen are locations. -/
lemma offset_inj {b b' : Blink} (h : b.offset = b'.offset) : b.location = b'.location := by
  rw [Blink.offset, Blink.offset] at h
  exact UInt16.toNat_inj.mp (by omega)

/-- A change of one slot and a poke at its offset leave what the others show. -/
lemma shown_set_poke_of_ne (hk : k ≠ i) (hoff : (s.blinkArray k).offset ≠ b.offset) :
    ((s.set i b).mp1Poke v b.offset).Shown k ↔ s.Shown k := by
  rw [Shown, Shown, mp1Poke_screen, mp1Poke_blinkArray, set_blinkArray, set_screen, Function.update_of_ne hk,
    Function.update_of_ne hoff]

/-- A structure that has just been drawn. -/
lemma shown_set_poke_self : ((s.set i b).mp1Poke v b.offset).Shown i ↔ v = b.char := by
  rw [Shown, mp1Poke_screen, mp1Poke_blinkArray, set_blinkArray, Function.update_self, Function.update_self]

/-- The tasklet moves nothing. -/
lemma taskletVisit_location : ((s.taskletVisit i).blinkArray k).location = (s.blinkArray k).location := by
  rw [taskletVisit_blinkArray]
  by_cases hk : k = i
  · subst hk
    rw [Function.update_self, Blink.ticked_location]
  · rw [Function.update_of_ne hk]

/-- The tasklet keeps structures apart. -/
lemma Apart.taskletVisit (h : s.Apart l) : (s.taskletVisit i).Apart l := by
  intro j hj k hk hloc
  rw [taskletVisit_location, taskletVisit_location] at hloc
  exact h j hj k hk hloc

/-- A visit of the tasklet shows the character of the new status, and leaves what the other slots show. -/
lemma taskletVisit_shown (h : s.Apart l) (hi : i ∈ l) (hshown : ∀ k ∈ l, s.Shown k) (hk : k ∈ l) :
    (s.taskletVisit i).Shown k := by
  rcases taskletVisit_eq (s := s) (i := i) with ⟨heq, hchar⟩ | heq
  · by_cases hki : k = i
    · subst hki
      rw [heq, Shown, set_screen, set_blinkArray, Function.update_self, Blink.ticked_offset, hchar]
      exact hshown k hk
    · rw [heq, Shown, set_screen, set_blinkArray, Function.update_of_ne hki]
      exact hshown k hk
  · rw [heq, ← Blink.ticked_offset]
    by_cases hki : k = i
    · subst hki
      exact shown_set_poke_self.mpr rfl
    · refine (shown_set_poke_of_ne hki fun hoff => hki ?_).mpr (hshown k hk)
      exact h k hk i hi ((offset_inj hoff).trans Blink.ticked_location)

/-- The walk keeps the display right, where structures are apart. -/
lemma foldl_taskletVisit_shown {m : List Slot} (h : s.Apart l) (hm : m ⊆ l) (hshown : ∀ k ∈ l, s.Shown k)
    (hk : k ∈ l) : (m.foldl taskletVisit s).Shown k := by
  induction m generalizing s with
  | nil => exact hshown k hk
  | cons i m ih =>
    obtain ⟨hi, hm⟩ := List.cons_subset.mp hm
    exact ih h.taskletVisit hm fun k hk => taskletVisit_shown h hi hshown hk

/-- The list ends, and its structures are for distinct locations other than 0. -/
structure Orderly (s : Fish) (l : List Slot) : Prop where
  lists : s.list.Lists l
  apart : s.Apart l
  ne_zero : ∀ i ∈ l, (s.blinkArray i).location ≠ 0

/-- An added structure is for a location on the screen, other than 0 and those of the list. -/
def Fresh (s : Fish) : BlinkCall → Prop
  | .add b => b.location ≠ 0 ∧ b.location.toNat < 80 * 25 ∧ ∀ i, s.list.Has i → (s.blinkArray i).location ≠ b.location
  | _ => True

/-- The structure that takes over the timing is to be shown as its `off_char`, or looks the same either way. -/
def SyncSafe (s : Fish) : BlinkCall → Prop
  | .sync arg => ∀ i j, s.list.Has i → s.list.Has j → (s.blinkArray i).location = syncSource arg →
      (s.blinkArray j).location = syncTarget arg →
      (s.blinkArray i).status &&& 1 = 0 ∨ (s.blinkArray j).onChar = (s.blinkArray j).offChar
  | _ => True

/-- An orderly list is safe for every call. -/
lemma Orderly.safe (h : s.Orderly l) : s.Safe c := by
  cases c with
  | add b => exact fun _ i hi hzero => absurd hzero (h.ne_zero i (h.lists.has_iff.mp hi))
  | _ => trivial

/-- A slot of the list is an old one with the same location, or the one of the structure that was added. -/
lemma Moves.location_cases (hmoves : s.Moves l c r t l') (hnodup : l'.Nodup) (hk : k ∈ l') :
    k ∈ l ∧ (t.blinkArray k).location = (s.blinkArray k).location ∨
      ∃ b, c = .add b ∧ l' = k :: l ∧ (t.blinkArray k).location = b.location := by
  cases hmoves with
  | refused _ | found _ => exact .inl ⟨hk, rfl⟩
  | @added b i _ _ _ =>
    rcases List.mem_cons.mp hk with rfl | hkl
    · refine .inr ⟨b, rfl, rfl, ?_⟩
      rw [Fish.added, mp1Poke_blinkArray, set_blinkArray, Function.update_self]
      rfl
    · refine .inl ⟨hkl, ?_⟩
      rw [Fish.added, mp1Poke_blinkArray, set_blinkArray,
        Function.update_of_ne (ne_of_mem_of_not_mem hkl (List.nodup_cons.mp hnodup).1)]
  | removed _ _ hi harray _ =>
    refine .inl ⟨List.mem_of_mem_eraseP hk, ?_⟩
    rw [harray, Function.update_of_ne (ne_of_mem_of_not_mem hk hi)]
  | @synced arg i j _ _ =>
    refine .inl ⟨hk, ?_⟩
    rw [Fish.synced, mp1Poke_blinkArray, set_blinkArray]
    by_cases hkj : k = j
    · subst hkj
      rw [Function.update_self]
      rfl
    · rw [Function.update_of_ne hkj]
  | ticked =>
    refine .inl ⟨hk, ?_⟩
    rw [foldl_taskletVisit_blinkArray hnodup, if_pos hk, Blink.ticked_location]

/-- A call keeps the list orderly, if what it adds is at a new location. -/
lemma Moves.orderly (h : s.Orderly l) (hfresh : s.Fresh c) (hmoves : s.Moves l c r t l') : t.Orderly l' := by
  have hnodup : l'.Nodup := (hmoves.nodup_iff h.lists).mpr h.safe
  have hne : ∀ b, c = .add b → ∀ k ∈ l, (s.blinkArray k).location ≠ b.location := by
    rintro b rfl k hk
    exact hfresh.2.2 k (h.lists.has_iff.mpr hk)
  refine ⟨hmoves.lists h.lists hnodup, fun i hi j hj hloc => ?_, fun i hi => ?_⟩
  · rcases hmoves.location_cases hnodup hi with ⟨hil, hi⟩ | ⟨b, hb, hil, hi⟩
    · rcases hmoves.location_cases hnodup hj with ⟨hjl, hj⟩ | ⟨b, hb, -, hj⟩
      · exact h.apart i hil j hjl (by rw [← hi, hloc, hj])
      · exact absurd (by rw [← hi, hloc, hj]) (hne b hb i hil)
    · rcases hmoves.location_cases hnodup hj with ⟨hjl, hj⟩ | ⟨b', -, hjl, -⟩
      · exact absurd (by rw [← hj, ← hloc, hi]) (hne b hb j hjl)
      · exact (List.cons.inj (hil.symm.trans hjl)).1
  · rcases hmoves.location_cases hnodup hi with ⟨hil, hi⟩ | ⟨b, rfl, -, hi⟩
    · rw [hi]
      exact h.ne_zero i hil
    · rw [hi]
      exact hfresh.1

/-- The flags choose the `off_char` even when the copied status asks for the `on_char`. -/
lemma synced_shown_iff : (s.synced i j).Shown j ↔
    (s.blinkArray i).status &&& 1 = 0 ∨ (s.blinkArray j).onChar = (s.blinkArray j).offChar := by
  refine (shown_set_poke_self (s := s) (b := (s.blinkArray j).synced (s.blinkArray i))).trans ?_
  dsimp only [Blink.char, Blink.synced]
  by_cases hbit : (s.blinkArray i).status &&& 1 = 0
  · rw [if_neg (not_not.mpr hbit)]
    exact iff_of_true rfl (.inl hbit)
  · rw [if_pos hbit, or_iff_right hbit]
    exact eq_comm

/-- `mp1_ioctl_sync` redraws one structure only. -/
lemma synced_shown_of_ne (h : s.Apart l) (hj : j ∈ l) (hk : k ∈ l) (hkj : k ≠ j) :
    (s.synced i j).Shown k ↔ s.Shown k :=
  shown_set_poke_of_ne (b := (s.blinkArray j).synced (s.blinkArray i)) hkj
    fun hoff => hkj (h k hk j hj (offset_inj hoff))

/-- When the display is still right behind `mp1_ioctl_sync`. -/
lemma Orderly.synced_displayed_iff {arg : UInt32} (h : s.Orderly l) (hi : l.find? (s.At (syncSource arg)) = some i)
    (hj : l.find? (s.At (syncTarget arg)) = some j) (hshown : ∀ k ∈ l, s.Shown k) :
    (s.synced i j).Displayed ↔ s.SyncSafe (.sync arg) := by
  have hil := List.mem_of_find?_eq_some hi
  have hjl := List.mem_of_find?_eq_some hj
  have hsource := at_iff.mp (List.find?_some hi)
  have htarget := at_iff.mp (List.find?_some hj)
  constructor
  · intro ht i' j' hi' hj' hsource' htarget'
    obtain rfl := h.apart i' (h.lists.has_iff.mp hi') i hil (hsource'.trans hsource.symm)
    obtain rfl := h.apart j' (h.lists.has_iff.mp hj') j hjl (htarget'.trans htarget.symm)
    exact synced_shown_iff.mp (ht j' hj')
  · intro hsafe k hk
    have hkl := h.lists.has_iff.mp hk
    by_cases hkj : k = j
    · subst hkj
      exact synced_shown_iff.mpr (hsafe i k (h.lists.has_iff.mpr hil) hk hsource htarget)
    · exact (synced_shown_of_ne h.apart hjl hkl hkj).mpr (hshown k hkl)

/-- What a call shows: only `mp1_ioctl_sync` can show a character that the status does not ask for. -/
lemma Moves.displayed_iff (h : s.Orderly l) (hfresh : s.Fresh c) (hdisplayed : s.Displayed)
    (hmoves : s.Moves l c r t l') : t.Displayed ↔ s.SyncSafe c := by
  have hshown : ∀ k ∈ l, s.Shown k := fun k hk => hdisplayed k (h.lists.has_iff.mpr hk)
  have hnodup : l'.Nodup := (hmoves.nodup_iff h.lists).mpr h.safe
  have hhas : ∀ k, t.list.Has k ↔ k ∈ l' := fun k => (hmoves.lists h.lists hnodup).has_iff
  cases hmoves with
  | refused hrefuses =>
    refine iff_of_true hdisplayed ?_
    cases c with
    | sync arg =>
      intro i j hi hj hsource htarget
      rcases hrefuses with hnone | hnone
      · exact absurd (at_iff.mpr hsource) (List.find?_eq_none.mp hnone i (h.lists.has_iff.mp hi))
      · exact absurd (at_iff.mpr htarget) (List.find?_eq_none.mp hnone j (h.lists.has_iff.mp hj))
    | _ => trivial
  | @added b i _ _ _ =>
    refine iff_of_true (fun k hk => ?_) trivial
    rcases List.mem_cons.mp ((hhas k).mp hk) with rfl | hkl
    · exact (shown_set_poke_self (s := s) (b := b.started)).mpr Blink.started_char.symm
    · refine (shown_set_poke_of_ne (s := s) (b := b.started) ?_ fun hoff => ?_).mpr (hshown k hkl)
      · exact ne_of_mem_of_not_mem hkl (List.nodup_cons.mp hnodup).1
      · exact hfresh.2.2 k (h.lists.has_iff.mpr hkl) (offset_inj hoff)
  | removed _ _ hi harray hscreen =>
    refine iff_of_true (fun k hk => ?_) trivial
    have hk := (hhas k).mp hk
    rw [Shown, harray, hscreen, Function.update_of_ne (ne_of_mem_of_not_mem hk hi)]
    exact hshown k (List.mem_of_mem_eraseP hk)
  | found _ => exact iff_of_true hdisplayed trivial
  | synced hi hj => exact h.synced_displayed_iff hi hj hshown
  | ticked =>
    refine iff_of_true (fun k hk => ?_) trivial
    exact foldl_taskletVisit_shown h.apart (List.Subset.refl l) hshown ((hhas k).mp hk)

end Fish

/-- Calls on the memory of the program. -/
def fishCalls : System Fish BlinkCall where
  step s c := (s.perform c).map Prod.snd

/-- The location at which the call adds a structure. -/
def BlinkCall.addLocation : BlinkCall → Option UInt16
  | .add b => some b.location
  | _ => none

section
variable {s t : Fish} {l : List Slot} {c : BlinkCall} {calls : List BlinkCall}

/-- What one call does. -/
lemma fishCalls_step (h : s.list.Lists l) (hstep : fishCalls.step s c = some t) : ∃ r l', s.Moves l c r t l' := by
  obtain ⟨r, t', l', hperform, hmoves⟩ := Fish.perform_moves h c
  obtain rfl : t' = t := Option.some.inj ((congrArg (Option.map Prod.snd) hperform).symm.trans hstep)
  exact ⟨r, l', hmoves⟩

/-- On a list that ends every call ends. -/
lemma fishCalls_total (h : s.list.Lists l) (c : BlinkCall) : ∃ t, fishCalls.step s c = some t := by
  obtain ⟨r, t, l', hperform, -⟩ := Fish.perform_moves h c
  exact ⟨t, congrArg (Option.map Prod.snd) hperform⟩

/-- Structures that are added at distinct locations find no other structure there: those of the list came from the calls
before. -/
lemma guarded_fresh (h : s.Orderly l) (hnodup : (calls.filterMap BlinkCall.addLocation).Nodup)
    (hrange : ∀ x ∈ calls.filterMap BlinkCall.addLocation, x ≠ 0 ∧ x.toNat < 80 * 25)
    (hout : ∀ i ∈ l, (s.blinkArray i).location ∉ calls.filterMap BlinkCall.addLocation) :
    fishCalls.Guarded Fish.Fresh s calls := by
  induction calls generalizing s l with
  | nil => trivial
  | cons c calls ih =>
    have hfresh : s.Fresh c := by
      cases c with
      | add b =>
        have hb : b.location ∈ (BlinkCall.add b :: calls).filterMap BlinkCall.addLocation := List.mem_cons_self
        refine ⟨(hrange _ hb).1, (hrange _ hb).2, fun i hi hloc => ?_⟩
        exact hout i (h.lists.has_iff.mp hi) (hloc ▸ hb)
      | _ => trivial
    have hsub : calls.filterMap BlinkCall.addLocation ⊆ (c :: calls).filterMap BlinkCall.addLocation :=
      List.filterMap_subset _ (List.subset_cons_self c calls)
    refine ⟨hfresh, fun t hstep => ?_⟩
    obtain ⟨r, l', hmoves⟩ := fishCalls_step h.lists hstep
    have ht := hmoves.orderly h hfresh
    refine ih ht (hnodup.sublist ((List.sublist_cons_self c calls).filterMap _)) (fun x hx => hrange x (hsub hx)) ?_
    intro k hk
    rcases hmoves.location_cases (Path.nodup ht.lists) hk with ⟨hkl, hloc⟩ | ⟨b, rfl, -, hloc⟩
    · rw [hloc]
      exact fun hmem => hout k hkl (hsub hmem)
    · rw [hloc]
      exact (List.nodup_cons.mp hnodup).1

end

/-- Structures are added at distinct locations of the screen other than 0. Every call ends, and the screen shows in
every state what the status of each structure of the list asks for, exactly when no call of `mp1_ioctl_sync` copies an
odd status to a structure with two different characters. -/
theorem display_matches_iff (screen : Mem) (calls : List BlinkCall)
    (hnodup : (calls.filterMap BlinkCall.addLocation).Nodup)
    (hrange : ∀ x ∈ calls.filterMap BlinkCall.addLocation, x ≠ 0 ∧ x.toNat < 80 * 25) :
    (fishCalls.run (.start screen) calls).isSome ∧
      (fishCalls.Always Fish.Displayed (.start screen) calls ↔
        fishCalls.Guarded Fish.SyncSafe (.start screen) calls) := by
  have hstart : (Fish.start screen).Orderly [] :=
    ⟨.nil, fun i hi => absurd hi List.not_mem_nil, fun i hi => absurd hi List.not_mem_nil⟩
  have hshown : (Fish.start screen).Displayed :=
    fun i hi => absurd (hstart.lists.has_iff.mp hi) List.not_mem_nil
  have hfresh := guarded_fresh hstart hnodup hrange fun i hi => absurd hi List.not_mem_nil
  obtain ⟨t, hrun, -⟩ := System.guarded_total (I := fun s => ∃ l, Fish.Orderly s l) (fun s c hs hc => by
    obtain ⟨l, hl⟩ := hs
    obtain ⟨t, hstep⟩ := fishCalls_total hl.lists c
    obtain ⟨r, l', hmoves⟩ := fishCalls_step hl.lists hstep
    exact ⟨t, hstep, l', hmoves.orderly hl hc⟩) ⟨[], hstart⟩ hfresh
  refine ⟨by rw [hrun]; rfl, ?_⟩
  refine System.always_iff_guarded_on (I := fun s => ∃ l, Fish.Orderly s l) ?_ ?_ ⟨[], hstart⟩ hshown hfresh hrun
  · rintro s c t ⟨l, hl⟩ hs hc hsafe hstep
    obtain ⟨r, l', hmoves⟩ := fishCalls_step hl.lists hstep
    exact ⟨⟨l', hmoves.orderly hl hc⟩, (hmoves.displayed_iff hl hc hs).mpr hsafe⟩
  · rintro s c t ⟨l, hl⟩ hs hc hunsafe hstep ht
    obtain ⟨r, l', hmoves⟩ := fishCalls_step hl.lists hstep
    exact hunsafe ((hmoves.displayed_iff hl hc hs).mp ht)

/-- Two structures and a copy of the timing, while the first is still lit. -/
def syncCalls : List BlinkCall := [.add (blinkAt 1), .add (blinkAt 2), .sync 0x10002]

/-- The copy while the first structure is lit is not safe, and the display is wrong. -/
theorem display_matches_iff_sync : (fishCalls.run (.start fun _ => 0) syncCalls).isSome ∧
    (fishCalls.Always Fish.Displayed (.start fun _ => 0) syncCalls ↔
      fishCalls.Guarded Fish.SyncSafe (.start fun _ => 0) syncCalls) := by
  refine display_matches_iff _ syncCalls (by decide) fun x hx => ?_
  rcases List.mem_pair.mp hx with rfl | rfl
  · exact ⟨by decide, by decide⟩
  · exact ⟨by decide, by decide⟩

/-- After the copy both structures are lit, and the second shows its `off_char`. -/
theorem sync_shows_off_char : ¬ fishCalls.Always Fish.Displayed (.start fun _ => 0) syncCalls := by
  obtain ⟨t, hrun, hhead, hscreen⟩ : ∃ t, fishCalls.run (.start fun _ => 0) syncCalls = some t ∧
      t.list.head = some 1 ∧ t.screen (t.blinkArray 1).offset ≠ (t.blinkArray 1).char :=
    ⟨_, rfl, rfl, by decide⟩
  intro halways
  refine hscreen (halways.last hrun 1 ?_)
  rw [Chain.Has, hhead]
  exact .here

end Boss
