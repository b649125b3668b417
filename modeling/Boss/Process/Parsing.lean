import Boss.Process.Tree
import Mathlib.Data.List.DropRight

/-!
# Parsing a command

What the four loops at the start of `execute` make of a command. As a list of bytes a command is a name, a
gap of spaces and a rest; `commandName` and `commandArgs` say what should end up in `pcb->name` and
`pcb->args`. Every loop has one lemma that says where it stops and what it has stored, and `parse_spells` puts them
together: a name of at most 127 bytes is stored with the rest behind it, as far as the loop for the arguments
goes, without its trailing spaces.

`parseAccesses` lists the loads and stores the same code makes on the two arrays, under the index the code
computes. Replaying the stores gives the text (`parse_eq_replay`), so the list is about the same parse. When
there are no arguments, the loop that removes trailing spaces starts below `args[0]`, at an index that has
wrapped around.
-/

namespace Boss
open Lib

/-! ### Commands as lists -/

/-- A space. -/
def isSpace (b : UInt8) : Bool := b == 32

@[simp] lemma isSpace_iff {b : UInt8} : isSpace b = true ↔ b = 32 := by
  simp [isSpace]

/-- The part of a command before its first space. -/
def commandName (l : List UInt8) : List UInt8 := l.takeWhile fun b => !isSpace b

/-- What follows the name. -/
def commandTail (l : List UInt8) : List UInt8 := l.dropWhile fun b => !isSpace b

/-- The spaces behind the name. -/
def commandGap (l : List UInt8) : List UInt8 := (commandTail l).takeWhile isSpace

/-- What follows these spaces. -/
def commandRest (l : List UInt8) : List UInt8 := (commandTail l).dropWhile isSpace

/-- What follows the name, without leading and trailing spaces. -/
def commandArgs (l : List UInt8) : List UInt8 := (commandRest l).rdropWhile isSpace

/-- The index of the first byte behind the name that is no space. -/
def argStart (l : List UInt8) : Nat := (commandName l).length + (commandGap l).length

/-- Name, gap and the rest. -/
lemma command_parts (l : List UInt8) : l = commandName l ++ (commandGap l ++ commandRest l) := by
  simp only [commandName, commandGap, commandRest, commandTail, List.takeWhile_append_dropWhile]

/-- The rest is what comes behind the name and the gap. -/
lemma argStart_add (l : List UInt8) : argStart l + (commandRest l).length = l.length := by
  conv_rhs => rw [command_parts l]
  rw [List.length_append, List.length_append, ← Nat.add_assoc]
  rfl

/-- Trailing blanks are not part of the arguments. -/
lemma length_commandArgs_le (l : List UInt8) : (commandArgs l).length ≤ (commandRest l).length :=
  (List.rdropWhile_prefix _ _).length_le

/-- The name has no blank. -/
lemma ne_space_of_mem_name {l : List UInt8} {b : UInt8} (h : b ∈ commandName l) : b ≠ 32 := by
  simpa [isSpace] using List.mem_takeWhile_imp h

/-- The gap has nothing but blanks. -/
lemma eq_space_of_mem_gap {l : List UInt8} {b : UInt8} (h : b ∈ commandGap l) : b = 32 :=
  isSpace_iff.mp (List.mem_takeWhile_imp h)

/-- Dropping stops at an element that is not to be dropped. -/
lemma head_of_dropWhile {α : Type} {p : α → Bool} {l as : List α} {a : α} (h : l.dropWhile p = a :: as) :
    p a = false := by
  have hhead := List.head?_dropWhile_not p l
  rwa [h] at hhead

/-- The rest does not begin with a space. -/
lemma commandRest_head {l bs : List UInt8} {b : UInt8} (h : commandRest l = b :: bs) : b ≠ 32 := by
  rintro rfl
  cases head_of_dropWhile h

/-- Without a gap there is no rest: a name ends at a space or at the end. -/
lemma commandRest_of_gap {l : List UInt8} (h : commandGap l = []) : commandRest l = [] := by
  cases htail : commandTail l with
  | nil => rw [commandRest, htail, List.dropWhile_nil]
  | cons b bs =>
    have hb : isSpace b = true := by simpa using head_of_dropWhile htail
    rw [commandGap, htail, List.takeWhile_cons_of_pos hb] at h
    cases h

namespace Command

/-- The bytes of a list stand behind the pointer, from index `i` on. -/
def Reads (c : Command) : Nat → List UInt8 → Prop
  | _, [] => True
  | i, b :: bs => c.byte i = some b ∧ c.Reads (i + 1) bs

/-- A command spells a list: the bytes of the list and then a zero byte stand behind the pointer. -/
structure Spells (c : Command) (l : List UInt8) : Prop where
  reads : c.Reads 0 (l ++ [0])
  chars : ∀ b ∈ l, b ≠ 0

variable {c : Command} {fuel i offset n : Nat} {text : Mem} {l w s t : List UInt8} {b : UInt8}

/-- A text in two parts. -/
lemma reads_append {bs bs' : List UInt8} :
    c.Reads i (bs ++ bs') ↔ c.Reads i bs ∧ c.Reads (i + bs.length) bs' := by
  induction bs generalizing i with
  | nil => simp [Reads]
  | cons b bs ih => rw [List.cons_append, Reads, ih, Reads, List.length_cons, and_assoc, Nat.add_assoc,
      Nat.add_comm 1]

/-- A byte of a text. -/
lemma Reads.byte {bs : List UInt8} (h : c.Reads i bs) {j : Nat} (hj : j < bs.length) :
    c.byte (i + j) = some bs[j] := by
  induction bs generalizing i j with
  | nil => cases hj
  | cons b bs ih =>
    cases j with
    | zero => exact h.1
    | succ j =>
      have := ih h.2 (Nat.lt_of_succ_lt_succ hj)
      rwa [Nat.add_assoc, Nat.add_comm 1] at this

/-- The place where a command is known to end is not before its end. -/
lemma Spells.le_bound (h : c.Spells l) : l.length ≤ c.bound := by
  by_contra hlt
  have hbound : c.bound < l.length := Nat.not_le.mp hlt
  have hbyte := (reads_append.mp h.reads).1.byte hbound
  rw [Nat.zero_add] at hbyte
  rcases c.stop with hstop | hstop
  · rw [hbyte] at hstop
    cases hstop
  · rw [hbyte] at hstop
    exact h.chars _ (List.getElem_mem hbound) (Option.some.inj hstop)

/-! ### The loops -/

/-- The first loop copies a word up to the byte that ends it, and at most as far as it may. -/
lemma nameLoop_word (hw : ∀ a ∈ w, a ≠ 32 ∧ a ≠ 0) (hb : b = 32 ∨ b = 0) (h : c.Reads i (w ++ [b])) :
    c.nameLoop fuel i text = (text.put i (w.take fuel), some (i + (w.take fuel).length)) := by
  induction fuel generalizing i w text with
  | zero => rfl
  | succ fuel ih =>
    cases w with
    | nil =>
      simp only [nameLoop, h.1, if_pos hb]
      rfl
    | cons a w =>
      obtain ⟨ha32, ha0⟩ := hw a List.mem_cons_self
      have hstop : ¬ (a = 32 ∨ a = 0) := fun ha => ha.elim ha32 ha0
      simp only [nameLoop, h.1, if_neg hstop]
      rw [ih (fun a ha => hw a (List.mem_cons_of_mem _ ha)) h.2, List.take_succ_cons, Mem.put,
        List.length_cons, Nat.add_assoc, Nat.add_comm 1]

/-- The second loop passes the spaces. -/
lemma skipLoop_spaces (hs : ∀ a ∈ s, a = 32) (hb : b ≠ 32) (h : c.Reads i (s ++ [b]))
    (hfuel : s.length < fuel) : c.skipLoop fuel i = some (i + s.length) := by
  induction s generalizing i fuel with
  | nil =>
    obtain ⟨fuel, rfl⟩ : ∃ n, fuel = n + 1 := ⟨fuel - 1, by simp only [List.length_nil] at hfuel; omega⟩
    simp only [skipLoop, h.1, if_neg hb]
    rfl
  | cons a s ih =>
    rw [List.length_cons] at hfuel
    obtain ⟨fuel, rfl⟩ : ∃ n, fuel = n + 1 := ⟨fuel - 1, by omega⟩
    simp only [skipLoop, h.1, if_pos (hs a List.mem_cons_self)]
    rw [ih (fun a ha => hs a (List.mem_cons_of_mem _ ha)) h.2 (by omega), List.length_cons, Nat.add_assoc,
      Nat.add_comm 1]

/-- The third loop copies up to the zero byte, and at most as far as it may. -/
lemma argsLoop_rest (ht : ∀ a ∈ t, a ≠ 0) (h : c.Reads i (t ++ [0])) (hi : offset ≤ i) :
    c.argsLoop offset fuel i text =
      (text.put (128 + (i - offset)) (t.take fuel), some (i + (t.take fuel).length)) := by
  induction fuel generalizing i t text with
  | zero => rfl
  | succ fuel ih =>
    cases t with
    | nil =>
      simp only [argsLoop, h.1, if_true]
      rfl
    | cons a t =>
      have hnext : 128 + (i + 1 - offset) = 128 + (i - offset) + 1 := by omega
      simp only [argsLoop, h.1, if_neg (ht a List.mem_cons_self)]
      rw [ih (fun a ha => ht a (List.mem_cons_of_mem _ ha)) h.2 (by omega), List.take_succ_cons, Mem.put,
        List.length_cons, Nat.add_assoc, Nat.add_comm 1, hnext]

/-- The last loop takes the trailing spaces off what stands in `args`, over zero bytes. -/
lemma trimLoop_put (hzero : ∀ i, 128 ≤ i → text i = 0) (hlast : text 127 ≠ 32) :
    trimLoop (128 + t.length) (text.put 128 t) = text.put 128 (t.rdropWhile isSpace) := by
  induction t using List.reverseRecOn with
  | nil =>
    rw [List.length_nil, List.rdropWhile_nil, Mem.put]
    exact if_neg hlast
  | append_singleton t b ih =>
    have hput : text.put 128 (t ++ [b]) = Function.update (text.put 128 t) (128 + t.length) b :=
      Mem.put_append
    have hlen : 128 + (t ++ [b]).length = 128 + t.length + 1 := by simp [Nat.add_assoc]
    rw [hput, hlen, trimLoop, Function.update_self]
    by_cases hb : b = 32
    · -- the byte behind the stored ones is zero again
      have hclear : Function.update (text.put 128 t) (128 + t.length) 0 = text.put 128 t := by
        rw [Function.update_eq_self_iff, Mem.put_apply, if_neg (by omega), hzero _ (by omega)]
      rw [if_pos hb, Function.update_idem, hclear, ih, List.rdropWhile_concat_pos _ _ _ (isSpace_iff.mpr hb)]
    · rw [if_neg hb, List.rdropWhile_concat_neg _ _ _ (by simpa using hb), hput]

/-! ### The parse -/

/-- The name ends at a space or at the end of the command. -/
lemma Spells.name (h : c.Spells l) : ∃ b, (b = 32 ∨ b = 0) ∧ c.Reads 0 (commandName l ++ [b]) := by
  have hreads := h.reads
  rw [command_parts l, List.append_assoc, List.append_assoc, reads_append] at hreads
  obtain ⟨hname, hnext⟩ := hreads
  cases hgap : commandGap l with
  | nil =>
    rw [hgap, commandRest_of_gap hgap] at hnext
    exact ⟨0, Or.inr rfl, reads_append.mpr ⟨hname, hnext.1, trivial⟩⟩
  | cons b bs =>
    have hb : b = 32 := eq_space_of_mem_gap (hgap ▸ List.mem_cons_self)
    rw [hgap] at hnext
    exact ⟨b, Or.inl hb, reads_append.mpr ⟨hname, hnext.1, trivial⟩⟩

/-- Behind the gap comes the rest, with the zero byte at its end. -/
lemma Spells.rest (h : c.Spells l) : c.Reads (argStart l) (commandRest l ++ [0]) := by
  have hreads := h.reads
  rw [command_parts l, List.append_assoc, List.append_assoc, reads_append, reads_append, Nat.zero_add] at hreads
  exact hreads.2.2

/-- The gap ends at a byte that is no space. -/
lemma Spells.gap (h : c.Spells l) : ∃ b, b ≠ 32 ∧ c.Reads (commandName l).length (commandGap l ++ [b]) := by
  have hreads := h.reads
  rw [command_parts l, List.append_assoc, List.append_assoc, reads_append, reads_append, Nat.zero_add] at hreads
  obtain ⟨_, hgap, hnext⟩ := hreads
  cases hrest : commandRest l with
  | nil =>
    rw [hrest] at hnext
    exact ⟨0, by decide, reads_append.mpr ⟨hgap, hnext.1, trivial⟩⟩
  | cons b bs =>
    rw [hrest] at hnext
    exact ⟨b, commandRest_head hrest, reads_append.mpr ⟨hgap, hnext.1, trivial⟩⟩

/-- The name has no zero byte. -/
lemma Spells.ne_zero_of_mem_name (h : c.Spells l) (hb : b ∈ commandName l) : b ≠ 0 := by
  apply h.chars
  rw [command_parts l]
  exact List.mem_append_left _ hb

/-- The rest has no zero byte. -/
lemma Spells.ne_zero_of_mem_rest (h : c.Spells l) (hb : b ∈ commandRest l) : b ≠ 0 := by
  apply h.chars
  rw [command_parts l]
  exact List.mem_append_right _ (List.mem_append_right _ hb)

/-- The name as the first loop stores it. -/
lemma Spells.nameLoop (h : c.Spells l) : c.nameLoop 128 0 text =
    (text.put 0 ((commandName l).take 128), some ((commandName l).take 128).length) := by
  obtain ⟨b, hb, hreads⟩ := h.name
  rw [nameLoop_word (fun a ha => ⟨ne_space_of_mem_name ha, h.ne_zero_of_mem_name ha⟩) hb hreads, Nat.zero_add]

/-- The arguments as the third loop stores them. -/
lemma Spells.argsLoop (h : c.Spells l) : c.argsLoop (argStart l) (128 - argStart l) (argStart l) text =
    (text.put 128 ((commandRest l).take (128 - argStart l)),
      some (argStart l + ((commandRest l).take (128 - argStart l)).length)) := by
  rw [argsLoop_rest (fun a ha => h.ne_zero_of_mem_rest ha) h.rest (Nat.le_refl _), Nat.sub_self]

/-- The offset of the arguments behind a name that was stored in full. -/
lemma Spells.skipLoop (h : c.Spells l) :
    c.skipLoop (c.bound + 1 - (commandName l).length) (commandName l).length = some (argStart l) := by
  obtain ⟨b, hb, hreads⟩ := h.gap
  have hbound := h.le_bound
  have hstart := argStart_add l
  exact skipLoop_spaces (fun a ha => eq_space_of_mem_gap ha) hb hreads (by unfold argStart at hstart; omega)

/-- The text before the arguments are stored. -/
def namedText (l : List UInt8) : Mem := Mem.put (fun _ => 0) 0 (commandName l)

/-- Behind the name there are zeros. -/
lemma namedText_zero (h : (commandName l).length ≤ i) : namedText l i = 0 := by
  rw [namedText, Mem.put_apply, if_neg (by omega)]

/-- The zero byte behind the name was there already. -/
lemma namedText_nul :
    Function.update (Mem.put (fun _ => 0) 0 (commandName l)) (commandName l).length 0 = namedText l :=
  Function.update_eq_self_iff.mpr (namedText_zero (Nat.le_refl _)).symm

/-- A command whose name fits is parsed into its name and its arguments. -/
lemma Spells.parse (h : c.Spells l) (hname : (commandName l).length ≤ 127) : c.parse =
    ((namedText l).put 128 (((commandRest l).take (128 - argStart l)).rdropWhile isSpace),
      some (commandName l).length) := by
  have hfit : (commandName l).take 128 = commandName l := List.take_of_length_le (by omega)
  have htrim (t : List UInt8) : trimLoop (128 + t.length) ((namedText l).put 128 t) =
      (namedText l).put 128 (t.rdropWhile isSpace) := by
    apply trimLoop_put
    · exact fun i hi => namedText_zero (by omega)
    · rw [namedText_zero hname]
      decide
  simp only [Command.parse, h.nameLoop, hfit, namedText_nul, h.skipLoop, h.argsLoop, Nat.add_sub_cancel_left, htrim]

/-- What is in the buffer of 256 bytes behind the parsing. -/
lemma Spells.parse_text (h : c.Spells l) (hname : (commandName l).length ≤ 127) : c.parse.1 =
    (namedText l).put 128 (((commandRest l).take (128 - argStart l)).rdropWhile isSpace) := by
  rw [h.parse hname]

/-! ### Loads and stores -/

/-- The arrays of a PCB that a command is parsed into. -/
inductive TextArray
  | name
  | args
  deriving DecidableEq

/-- A load or a store on one of the arrays, at the index the code computes; a store has a byte. -/
structure Access where
  array : TextArray
  index : Nat
  stored : Option UInt8
  deriving DecidableEq

/-- The place in the text; `args` lies behind `name`, and addresses are taken modulo `2 ^ 32`. -/
def Access.place (a : Access) : Nat :=
  match a.array with
  | .name => a.index
  | .args => (128 + a.index) % 0x100000000

/-- Do what an access does to the text. -/
def Access.replay (text : Mem) (a : Access) : Mem :=
  match a.stored with
  | none => text
  | some b => Function.update text a.place b

/-- The accesses of `nameLoop`. -/
def nameAccesses (c : Command) : (fuel i : Nat) → List Access
  | 0, _ => []
  | fuel + 1, i =>
    match c.byte i with
    | none => []
    | some b => if b = 32 ∨ b = 0 then [] else ⟨.name, i, some b⟩ :: c.nameAccesses fuel (i + 1)

/-- The accesses of `argsLoop`. -/
def argsAccesses (c : Command) (offset : Nat) : (fuel i : Nat) → List Access
  | 0, _ => []
  | fuel + 1, i =>
    match c.byte i with
    | none => []
    | some b => if b = 0 then [] else ⟨.args, i - offset, some b⟩ :: c.argsAccesses offset fuel (i + 1)

/-- The index into `args` of a place in the text, as the `uint32_t` difference `i - offset`. -/
def argsIndex (n : Nat) : Nat := (n + 0xFFFFFF80) % 0x100000000

/-- The accesses of `trimLoop`. -/
def trimAccesses : (n : Nat) → Mem → List Access
  | 0, _ => []
  | n + 1, text => ⟨.args, argsIndex n, none⟩ ::
    if text n = 32 then ⟨.args, argsIndex n, some 0⟩ :: trimAccesses n (Function.update text n 0) else []

/-- The accesses of `parse`, in their order. -/
def parseAccesses (c : Command) : List Access :=
  c.nameAccesses 128 0 ++
  match c.nameLoop 128 0 (fun _ => 0) with
  | (_, none) => []
  | (text, some len) => ⟨.name, len, some 0⟩ ::
    match c.skipLoop (c.bound + 1 - len) len with
    | none => []
    | some offset => c.argsAccesses offset (128 - offset) offset ++
      match c.argsLoop offset (128 - offset) offset (Function.update text len 0) with
      | (_, none) => []
      | (text, some i) => trimAccesses (128 + (i - offset)) text

/-- The loop over the name is the stores of its accesses. -/
lemma nameLoop_replay : (c.nameLoop fuel i text).1 = (c.nameAccesses fuel i).foldl Access.replay text := by
  induction fuel generalizing i text with
  | zero => rfl
  | succ fuel ih =>
    simp only [Command.nameLoop, nameAccesses]
    cases c.byte i with
    | none => rfl
    | some b =>
      simp only
      split
      · rfl
      · exact ih

/-- The loop over the arguments is the stores of its accesses. -/
lemma argsLoop_replay (hi : offset ≤ i) (hfuel : i - offset + fuel ≤ 128) :
    (c.argsLoop offset fuel i text).1 = (c.argsAccesses offset fuel i).foldl Access.replay text := by
  induction fuel generalizing i text with
  | zero => rfl
  | succ fuel ih =>
    simp only [Command.argsLoop, argsAccesses]
    cases c.byte i with
    | none => rfl
    | some b =>
      have hplace : (Access.mk .args (i - offset) (some b)).place = 128 + (i - offset) := by
        simp only [Access.place]
        omega
      simp only
      split
      · rfl
      · rw [List.foldl_cons, Access.replay, hplace]
        exact ih (by omega) (by omega)

/-- The loop over trailing blanks is the stores of its accesses. -/
lemma trimLoop_replay (hn : n ≤ 256) : trimLoop n text = (trimAccesses n text).foldl Access.replay text := by
  induction n generalizing text with
  | zero => rfl
  | succ n ih =>
    have hplace : (Access.mk .args (argsIndex n) (some 0)).place = n := by
      simp only [Access.place, argsIndex]
      omega
    simp only [trimLoop, trimAccesses]
    split
    · rw [List.foldl_cons, List.foldl_cons, Access.replay, Access.replay, hplace]
      exact ih (by omega)
    · rfl

/-- The loop for the arguments does not go beyond its bound. -/
lemma argsLoop_index (h : (c.argsLoop offset fuel i text).2 = some n) : n ≤ i + fuel := by
  induction fuel generalizing i text with
  | zero => exact Nat.le_of_eq (Option.some.inj h).symm
  | succ fuel ih =>
    simp only [Command.argsLoop] at h
    cases hb : c.byte i with
    | none =>
      rw [hb] at h
      cases h
    | some b =>
      rw [hb] at h
      simp only at h
      split at h
      · have := Option.some.inj h
        omega
      · have := ih h
        omega

/-- The stores among the accesses are the stores of the parse. -/
lemma parse_eq_replay (c : Command) : c.parse.1 = c.parseAccesses.foldl Access.replay fun _ => 0 := by
  unfold Command.parse parseAccesses
  rw [List.foldl_append, ← nameLoop_replay]
  rcases c.nameLoop 128 0 fun _ => 0 with ⟨text, _ | len⟩
  · rfl
  · rw [List.foldl_cons]
    simp only
    cases hskip : c.skipLoop (c.bound + 1 - len) len with
    | none => rfl
    | some offset =>
      have hargs : (c.argsLoop offset (128 - offset) offset (Function.update text len 0)).1 =
          (c.argsAccesses offset (128 - offset) offset).foldl Access.replay (Function.update text len 0) :=
        argsLoop_replay (Nat.le_refl offset) (by omega)
      simp only [List.foldl_append]
      change _ = List.foldl Access.replay (List.foldl Access.replay (Function.update text len 0) _) _
      rw [← hargs]
      rcases hloop : c.argsLoop offset (128 - offset) offset (Function.update text len 0) with ⟨text', _ | n⟩
      · rfl
      · have hn := argsLoop_index (congrArg Prod.snd hloop)
        exact trimLoop_replay (by omega)

/-! ### Staying in the arrays -/

/-- The accesses of the loop over the name. -/
lemma nameAccesses_index {a : Access} (ha : a ∈ c.nameAccesses fuel i) : a.index < i + fuel := by
  induction fuel generalizing i with
  | zero => cases ha
  | succ fuel ih =>
    simp only [nameAccesses] at ha
    split at ha
    · cases ha
    · split at ha
      · cases ha
      · cases ha with
        | head => exact Nat.lt_add_of_pos_right (Nat.zero_lt_succ fuel)
        | tail _ ha =>
          have := ih ha
          omega

/-- The accesses of the loop over the arguments. -/
lemma argsAccesses_index {a : Access} (hi : offset ≤ i) (ha : a ∈ c.argsAccesses offset fuel i) :
    a.index < i - offset + fuel := by
  induction fuel generalizing i with
  | zero => cases ha
  | succ fuel ih =>
    simp only [argsAccesses] at ha
    split at ha
    · cases ha
    · split at ha
      · cases ha
      · cases ha with
        | head => exact Nat.lt_add_of_pos_right (Nat.zero_lt_succ fuel)
        | tail _ ha =>
          have := ih (by omega) ha
          omega

/-- A byte of `args` that is no space stops the loop that removes trailing spaces. -/
lemma trimAccesses_index {a : Access} (hi : 128 ≤ i) (htext : text i ≠ 32) (hn : n ≤ 256)
    (hin : i < n) (ha : a ∈ trimAccesses n text) : a.index < 128 := by
  induction n generalizing text with
  | zero => cases ha
  | succ n ih =>
    have hindex : argsIndex n < 128 := by
      unfold argsIndex
      omega
    simp only [trimAccesses] at ha
    cases ha with
    | head => exact hindex
    | tail _ ha =>
      split at ha
      · next hspace =>
        have hne : i ≠ n := fun h => htext (h ▸ hspace)
        cases ha with
        | head => exact hindex
        | tail _ ha => exact ih (by rwa [Function.update_of_ne hne]) (by omega) (by omega) ha
      · cases ha

/-- What it stores stays in `args` when `name` does not end with a space. -/
lemma trimAccesses_stored {a : Access} (hlo : 128 ≤ n) (hhi : n ≤ 256) (htext : text 127 ≠ 32)
    (ha : a ∈ trimAccesses n text) (hb : a.stored = some b) : a.index < 128 := by
  induction n generalizing text with
  | zero => cases ha
  | succ n ih =>
    simp only [trimAccesses] at ha
    cases ha with
    | head => cases hb
    | tail _ ha =>
      split at ha
      · next hspace =>
        have hne : 127 ≠ n := fun h => htext (h ▸ hspace)
        cases ha with
        | head =>
          simp only [argsIndex]
          omega
        | tail _ ha => exact ih (by omega) (by omega) (by rwa [Function.update_of_ne hne]) ha
      · cases ha

/-- The accesses for a name that fits. -/
lemma Spells.parseAccesses (h : c.Spells l) (hname : (commandName l).length ≤ 127) :
    c.parseAccesses = c.nameAccesses 128 0 ++ ⟨.name, (commandName l).length, some 0⟩ ::
      (c.argsAccesses (argStart l) (128 - argStart l) (argStart l) ++
        trimAccesses (128 + ((commandRest l).take (128 - argStart l)).length)
          ((namedText l).put 128 ((commandRest l).take (128 - argStart l)))) := by
  have hfit : (commandName l).take 128 = commandName l := List.take_of_length_le (by omega)
  simp only [Command.parseAccesses, h.nameLoop, hfit, namedText_nul, h.skipLoop, h.argsLoop,
    Nat.add_sub_cancel_left]

/-- A name of 128 bytes and more has its zero byte stored behind the array. -/
lemma Spells.long_name (h : c.Spells l) (hname : 128 ≤ (commandName l).length) :
    ⟨.name, 128, some 0⟩ ∈ c.parseAccesses := by
  have hlen : ((commandName l).take 128).length = 128 := by
    rw [List.length_take]
    omega
  simp only [Command.parseAccesses, h.nameLoop, hlen]
  exact List.mem_append_right _ List.mem_cons_self

/-- A rest is separated from the name. -/
lemma argStart_pos (h : commandRest l ≠ []) : 1 ≤ argStart l := by
  have hgap : commandGap l ≠ [] := fun hgap => h (commandRest_of_gap hgap)
  have := List.length_pos_of_ne_nil hgap
  unfold argStart
  omega

/-- With an argument that begins in the first 128 bytes every index is one of the arrays. -/
lemma Spells.parseAccesses_index (h : c.Spells l) (hstart : argStart l < 128) (hlen : argStart l < l.length) :
    ∀ a ∈ c.parseAccesses, a.index < 128 := by
  have hsum := argStart_add l
  have hname : (commandName l).length ≤ 127 := by
    unfold argStart at hstart
    omega
  obtain ⟨b, bs, hrest⟩ : ∃ b bs, commandRest l = b :: bs := List.exists_cons_of_length_pos (by omega)
  obtain ⟨n, hn⟩ : ∃ n, 128 - argStart l = n + 1 := ⟨127 - argStart l, by omega⟩
  have hfirst : (commandRest l).take (128 - argStart l) = b :: bs.take n := by
    rw [hrest, hn, List.take_succ_cons]
  have hbound : (bs.take n).length ≤ n := List.length_take_le _ _
  intro a ha
  rw [h.parseAccesses hname, hfirst] at ha
  simp only [List.mem_append, List.mem_cons] at ha
  rcases ha with ha | rfl | ha | ha
  · simpa using nameAccesses_index ha
  · exact Nat.lt_succ_of_le hname
  · have := argsAccesses_index (Nat.le_refl _) ha
    omega
  · have hstop : (namedText l).put 128 (b :: bs.take n) 128 ≠ 32 := by
      rw [Mem.put_apply, if_pos (by simp)]
      exact commandRest_head hrest
    rw [List.length_cons] at ha
    exact trimAccesses_index (Nat.le_refl 128) hstop (by omega) (by omega) ha

/-- The stores for a name that fits go to the arrays. -/
lemma Spells.parseAccesses_stored (h : c.Spells l) (hname : (commandName l).length ≤ 127) {a : Access}
    (ha : a ∈ c.parseAccesses) (hb : a.stored = some b) : a.index < 128 := by
  have htake : ((commandRest l).take (128 - argStart l)).length ≤ 128 - argStart l := List.length_take_le _ _
  rw [h.parseAccesses hname] at ha
  simp only [List.mem_append, List.mem_cons] at ha
  rcases ha with ha | rfl | ha | ha
  · simpa using nameAccesses_index ha
  · exact Nat.lt_succ_of_le hname
  · have := argsAccesses_index (Nat.le_refl _) ha
    omega
  · refine trimAccesses_stored (Nat.le_add_right _ _) (by omega) ?_ ha hb
    rw [Mem.put_apply, if_neg (by omega), namedText_zero hname]
    decide

/-- Without one, the first load for the trailing spaces is below `args[0]`. -/
lemma Spells.load_below (h : c.Spells l) (hname : (commandName l).length ≤ 127)
    (hnone : ¬ (argStart l < 128 ∧ argStart l < l.length)) : ⟨.args, 0xFFFFFFFF, none⟩ ∈ c.parseAccesses := by
  have hsum := argStart_add l
  have hrest : (commandRest l).take (128 - argStart l) = [] := by
    rw [List.take_eq_nil_iff, ← List.length_eq_zero_iff]
    omega
  rw [h.parseAccesses hname, hrest]
  exact List.mem_append_right _ (List.mem_cons_of_mem _ (List.mem_append_right _ List.mem_cons_self))

/-- A name that fits leaves a zero byte in both arrays. -/
lemma Spells.zero_bytes (h : c.Spells l) (hname : (commandName l).length ≤ 127) :
    (∃ i < 128, c.parse.1 i = 0) ∧ ∃ i < 128, c.parse.1 (128 + i) = 0 := by
  have hargs := (List.rdropWhile_prefix isSpace ((commandRest l).take (128 - argStart l))).length_le
  have htake : ((commandRest l).take (128 - argStart l)).length ≤ 127 := by
    by_cases hrest : commandRest l = []
    · rw [hrest, List.take_nil]
      decide
    · have := argStart_pos hrest
      rw [List.length_take]
      omega
  rw [h.parse_text hname]
  refine ⟨⟨_, Nat.lt_succ_of_le hname, ?_⟩, ⟨127, by decide, ?_⟩⟩
  · rw [Mem.put_apply, if_neg (by omega), namedText_zero (Nat.le_refl _)]
  · rw [Mem.put_apply, if_neg (by omega), namedText_zero (by omega)]

/-- The parse uses indices of the two arrays only, and leaves a zero byte in both. -/
def ParseInBounds (c : Command) : Prop :=
  (∀ a ∈ c.parseAccesses, a.index < 128) ∧ (∃ i < 128, c.parse.1 i = 0) ∧ ∃ i < 128, c.parse.1 (128 + i) = 0

/-- The parse stays in its arrays for the commands with an argument that begins in their first 128 bytes, and
for no others. -/
theorem parse_in_bounds_iff (c : Command) (l : List UInt8) (h : c.Spells l) :
    c.ParseInBounds ↔ argStart l < 128 ∧ argStart l < l.length := by
  constructor
  · rintro ⟨hindex, _⟩
    have hname : (commandName l).length ≤ 127 := by
      by_contra hlong
      exact absurd (hindex _ (h.long_name (by omega))) (Nat.lt_irrefl 128)
    by_contra hnone
    exact absurd (hindex _ (h.load_below hname hnone)) (by decide)
  · rintro ⟨hstart, hlen⟩
    have hname : (commandName l).length ≤ argStart l := Nat.le_add_right _ _
    exact ⟨h.parseAccesses_index hstart hlen, h.zero_bytes (by omega)⟩

end Command

/-- The command `cat a`. -/
def catCommand : Command := .ofString ⟨fun i => ([99, 97, 116, 32, 97] : List UInt8).getD i 0, 5, rfl⟩

/-- The command `ls`. -/
def lsCommand : Command := .ofString ⟨fun i => ([108, 115] : List UInt8).getD i 0, 2, rfl⟩

/-- The bytes of `ls`. -/
lemma lsCommand_spells : lsCommand.Spells [108, 115] :=
  ⟨⟨rfl, rfl, rfl, trivial⟩, by simp⟩

/-- The bytes of `cat a`. -/
lemma catCommand_spells : catCommand.Spells [99, 97, 116, 32, 97] :=
  ⟨⟨rfl, rfl, rfl, rfl, rfl, rfl, trivial⟩, by simp⟩

/-- A command with arguments. -/
theorem parse_in_bounds_cat : catCommand.ParseInBounds :=
  (Command.parse_in_bounds_iff catCommand _ catCommand_spells).mpr (by decide)

/-- The parse of `ls` loads `args[0xFFFFFFFF]`. -/
theorem parse_ls_out_of_bounds : ⟨.args, 0xFFFFFFFF, none⟩ ∈ lsCommand.parseAccesses ∧
    lsCommand.Spells [108, 115] ∧ ¬ lsCommand.ParseInBounds := by
  have hload : ⟨.args, 0xFFFFFFFF, none⟩ ∈ lsCommand.parseAccesses := by decide
  exact ⟨hload, lsCommand_spells, fun h => absurd (h.1 _ hload) (by decide)⟩

/-! ### The PCB that is built -/

/-- `pcb->name`. -/
def PCB.name (pcb : PCB) : Mem := pcb.text

/-- `pcb->args`. -/
def PCB.args (pcb : PCB) : Mem := fun i => pcb.text (128 + i)

namespace Kernel
variable {env : Env} {stale : Mem} {k : Kernel} {cur pid q : Pid} {t : TermId} {r : Regs} {c : Command}

/-- The state that a call of `execute` comes to. -/
def Outcome.kernel : Outcome → Kernel
  | refused _ k => k
  | started _ k => k
  | faulted k => k

/-- The last part of `execute` leaves the text of the new process alone. -/
lemma enterProgram_text : ((k.enterProgram pid q t r).pcb pid).text = (k.pcb pid).text := by
  by_cases hq : pid = q
  · subst hq
    simp [enterProgram, setPcb, setActive]
  · simp [enterProgram, setPcb, setActive, Function.update_of_ne hq]

/-- Whatever comes of the command, the parsed text stays. -/
lemma Ways.text {o : Outcome} (h : Ways env k pid q t r o) : (o.kernel.pcb pid).text = (k.pcb pid).text := by
  cases h with
  | refused => rfl
  | history => rfl
  | load => rfl
  | started => exact enterProgram_text

/-- Whatever `execute` comes to, the PCB has the parsed text. -/
lemma execute_text (hfree : freePid k.procIdUsed = some pid) :
    ((k.execute env stale cur r (some c)).kernel.pcb pid).text = c.parse.1 := by
  have hblank : (((k.setUsed pid true).setPcb pid fun _ => blankPcb pid c.parse.1).pcb pid).text = c.parse.1 := by
    simp only [setPcb, Function.update_self, blankPcb]
  simp only [execute, hfree]
  cases c.parse.2 with
  | none => exact hblank
  | some len => exact (startProgram_ways _).text.trans hblank

end Kernel

/-- A command of at most 127 bytes is parsed into its name and its arguments, with zero bytes behind both, and
nothing but the two arrays is stored to. -/
theorem execute_parses (env : Env) (stale : Mem) (cur : Pid) (r : Regs) (k : Kernel) (pid : Pid)
    (hfree : freePid k.procIdUsed = some pid) (c : Command) (l : List UInt8) (hc : c.Spells l)
    (hlen : l.length ≤ 127) :
    let pcb := (k.execute env stale cur r (some c)).kernel.pcb pid
    (∀ i < 128, pcb.name i = (commandName l).getD i 0) ∧ (commandName l).length < 128 ∧
    (∀ i < 128, pcb.args i = (commandArgs l).getD i 0) ∧ (commandArgs l).length < 128 ∧
    ∀ a ∈ c.parseAccesses, ∀ b, a.stored = some b → a.index < 128 := by
  have hsum := argStart_add l
  have hargs := length_commandArgs_le l
  have hname : (commandName l).length ≤ 127 := by
    unfold argStart at hsum
    omega
  have hall : (commandRest l).take (128 - argStart l) = commandRest l := List.take_of_length_le (by omega)
  simp only [PCB.name, PCB.args, Kernel.execute_text hfree, hc.parse_text hname, hall]
  refine ⟨fun i hi => ?_, by omega, fun i hi => ?_, by omega, ?_⟩
  · rw [Mem.put_apply, if_neg (by omega)]
    have hget : Mem.put (fun _ => 0) 0 (commandName l) (0 + i) = (commandName l).getD i 0 := Mem.put_getD rfl
    rwa [Nat.zero_add] at hget
  · exact Mem.put_getD (Command.namedText_zero (by omega))
  · exact fun a ha b hb => hc.parseAccesses_stored hname ha hb

/-- `cat a` is parsed into `cat` and `a`. -/
theorem execute_parses_cat : ∃ pcb : PCB, pcb = (threeShells.execute shellEnv (fun _ => 0) 0 ⟨0, 0⟩
      (some catCommand)).kernel.pcb 3 ∧
    (∀ i < 128, pcb.name i = ([99, 97, 116] : List UInt8).getD i 0) ∧
    ∀ i < 128, pcb.args i = ([97] : List UInt8).getD i 0 := by
  have h := execute_parses shellEnv (fun _ => 0) 0 ⟨0, 0⟩ threeShells 3 (by decide) catCommand _
    catCommand_spells (by decide)
  exact ⟨_, rfl, h.1, h.2.2.1⟩

end Boss
