import Boss.Terminal.Output

/-!
# Formats

`printf` of `lib.c` with its buffers: `itoa` stores the digits of a number into `conv_buf`, lowest first, and `strrev`
reverses them in place; `%#x` has them stored from `conv_buf[8]` on and fills in zeros before them. The buffers are not
initialised, and what is in them at the conversion of character number `i` of the format is `stale i`. `buf` and `esp`
walk over the format and the arguments; `top` is the last character of the format that was read.

The format is read as a list of pieces, and each piece has its text (`Piece.render`). `printf_renders_iff` says that
`printf` prints these texts, takes the arguments that they need and returns the length of the format, unless the format
ends inside a directive (`%`, `%#`, `%##`, …). The zero byte is then taken for the character of the conversion and
skipped, and `printf` goes on behind the format.

`#` may be written more than once and before any character, but alters only `%x`. With `strict` only `%#x` is a
directive with a flag and all others print nothing; then a format must not have such a directive either.

`Printer.performs` connects this to `Monitor.printf`, where numbers are turned into lists of digits.
-/

namespace Boss
open Lib Routines

variable {m : Mem} {s : Nat} {value : UInt32}

/-! ### The pieces of a format -/

/-- A character that stands for itself, or a directive: a number of flags and the character of the conversion. -/
inductive Piece
  | lit (c : UInt8)
  | directive (flags : Nat) (c : UInt8)

/-- The pieces of a format; `spec` is the number of flags so far inside a directive. A directive that is not finished
is no piece. -/
def pieces : (spec : Option Nat) → List UInt8 → List Piece
  | _, [] => []
  | none, c :: cs => if c = 37 then pieces (some 0) cs else .lit c :: pieces none cs
  | some flags, c :: cs => if c = 35 then pieces (some (flags + 1)) cs else .directive flags c :: pieces none cs

/-- The format ends inside a directive. -/
def cutShort : (spec : Option Nat) → List UInt8 → Bool
  | spec, [] => spec.isSome
  | none, c :: cs => if c = 37 then cutShort (some 0) cs else cutShort none cs
  | some flags, c :: cs => if c = 35 then cutShort (some (flags + 1)) cs else cutShort none cs

/-- What a directive asks for. -/
inductive Conv
  | percent | char | str | unsigned | signed | hex | hex8 | other

/-- The meaning of a directive. With `strict`, `%#x` is the only one that may have a flag. -/
def Conv.of (strict : Bool) (flags : Nat) (c : UInt8) : Conv :=
  if strict = true ∧ 0 < flags ∧ ¬ (flags = 1 ∧ c = 120) then .other
  else if c = 37 then .percent
  else if c = 120 then if flags = 0 then .hex else .hex8
  else if c = 117 then .unsigned
  else if c = 100 then .signed
  else if c = 99 then .char
  else if c = 115 then .str
  else .other

/-- How many arguments it takes. -/
def Conv.takes : Conv → Nat
  | percent | other => 0
  | char | str | unsigned | signed | hex | hex8 => 1

/-- Its text, if `arg` is the number of the next argument. -/
def Conv.text (args : VarArgs) (arg : Nat) : Conv → List UInt8
  | percent => [37]
  | char => [(args.word arg).toUInt8]
  | str => args.str (args.word arg)
  | unsigned => numeral 10 (args.word arg).toNat
  | signed => signedNumeral (args.word arg).toInt32.toInt
  | hex => numeral 16 (args.word arg).toNat
  | hex8 => Boss.hex8 (args.word arg).toNat
  | other => []

/-- The text of the pieces. -/
def render (strict : Bool) (args : VarArgs) : (arg : Nat) → List Piece → List UInt8
  | _, [] => []
  | arg, .lit c :: ps => c :: render strict args arg ps
  | arg, .directive flags c :: ps =>
    (Conv.of strict flags c).text args arg ++ render strict args (arg + (Conv.of strict flags c).takes) ps

/-- The number of arguments for the pieces. -/
def consumed (strict : Bool) : List Piece → Nat
  | [] => 0
  | .lit _ :: ps => consumed strict ps
  | .directive flags c :: ps => (Conv.of strict flags c).takes + consumed strict ps

/-- A directive that is the same with and without `strict`. -/
def Piece.Listed : Piece → Prop
  | lit _ => True
  | directive flags c => flags = 0 ∨ flags = 1 ∧ c = 120 ∨ c ∉ ([37, 120, 117, 100, 99, 115] : List UInt8)

/-! ### The interpreter -/

/-- A call of `putc` or `puts`. -/
inductive Emit
  | putc (c : UInt8)
  | puts (s : List UInt8)

/-- The characters that it prints. -/
def Emit.text : Emit → List UInt8
  | putc c => [c]
  | puts s => s

/-- `puts` of a string in one of the buffers. -/
def putsAt (m : Mem) (s : Nat) : Emit := .puts (m.bytes s (strlenAt m s))

/-- The variables of `printf`, `buf` and `esp` as numbers of characters and arguments; what was printed, and the last
character of the format that was read. -/
structure Printer where
  buf : Nat
  esp : Nat
  out : List Emit
  top : Nat

namespace Printer

/-- Read `*buf`. -/
def load (p : Printer) : Printer := { p with top := max p.top p.buf }

/-- `buf++`. -/
def next (p : Printer) : Printer := { p with buf := p.buf + 1 }

/-- Print. -/
def emit (p : Printer) (e : Emit) : Printer := { p with out := p.out ++ [e] }

/-- Print and `esp++`. -/
def emitArg (p : Printer) (e : Emit) : Printer := { p.emit e with esp := p.esp + 1 }

/-- The `switch` over the character of a conversion, but for `#`; `convBuf` is what is in `conv_buf`. -/
def convert (p : Printer) (args : VarArgs) (convBuf : Mem) (alternate : Bool) (c : UInt8) : Printer :=
  let word := args.word p.esp
  if c = 37 then p.emit (.putc 37)
  else if c = 120 then
    if alternate = false then p.emitArg (putsAt (itoaAt convBuf word 0 16) 0)
    else
      let convBuf := itoaAt convBuf word 8 16
      let startingIndex := strlenAt convBuf 8
      p.emitArg (putsAt (fillZeros 8 startingIndex convBuf) startingIndex)
  else if c = 117 then p.emitArg (putsAt (itoaAt convBuf word 0 10) 0)
  else if c = 100 then
    if word.toInt32 < 0 then p.emitArg (putsAt (itoaAt (Function.update convBuf 0 45) (0 - word) 1 10) 0)
    else p.emitArg (putsAt (itoaAt convBuf word 0 10) 0)
  else if c = 99 then p.emitArg (.putc word.toUInt8)
  else if c = 115 then p.emitArg (.puts (args.str word))
  else p

/-- The loop of `printf`; `spec` is the value of `alternate` at `format_char_switch`. `none` if `fuel` characters are
not enough. -/
def printfLoop (fmt : Mem) (args : VarArgs) (stale : Nat → Mem) :
    (fuel : Nat) → (spec : Option Bool) → Printer → Option Printer
  | 0, _, _ => none
  | fuel + 1, none, p =>
    let p := p.load
    if fmt p.buf = 0 then some p
    else if fmt p.buf = 37 then printfLoop fmt args stale fuel (some false) p.next
    else printfLoop fmt args stale fuel none (p.emit (.putc (fmt p.buf))).next
  | fuel + 1, some alternate, p =>
    let p := p.load
    if fmt p.buf = 35 then printfLoop fmt args stale fuel (some true) p.next
    else printfLoop fmt args stale fuel none (p.convert args (stale p.buf) alternate (fmt p.buf)).next

/-- `printf`; it returns `buf`. -/
def printf (fmt : Mem) (args : VarArgs) (stale : Nat → Mem) (fuel : Nat) : Option Printer :=
  printfLoop fmt args stale fuel none ⟨0, 0, [], 0⟩

/-- What was printed. -/
def text (p : Printer) : List UInt8 := p.out.flatMap Emit.text

/-- `printf` prints the text of its format, takes the arguments for it, stays in the format and returns its length. -/
def Renders (strict : Bool) (fmt : CString) (args : VarArgs) (stale : Nat → Mem) : Prop :=
  ∃ fuel p, printf fmt.byte args stale fuel = some p ∧ p.top ≤ fmt.length ∧
    p.text = render strict args 0 (pieces none fmt.chars) ∧ p.esp = consumed strict (pieces none fmt.chars) ∧
    p.buf = fmt.length

variable {p q : Printer} {args : VarArgs} {convBuf fmt : Mem} {stale : Nat → Mem} {alternate : Bool} {c : UInt8}

/-- `puts` of a string prints it. -/
lemma putsAt_put {bs : List UInt8} (h : 0 ∉ bs) (hlen : bs.length ≤ 64) : putsAt (m.put s (bs ++ [0])) s = .puts bs := by
  have hstr := @Mem.isStr_put m s bs h
  rw [putsAt, strlenAt, hstr.strlen hlen, hstr.bytes]

/-- A number in a buffer. -/
lemma putsAt_itoaAt {radix : Int32} (h2 : 2 ≤ radix) (h36 : radix ≤ 36) :
    putsAt (itoaAt m value s radix) s = .puts (numeral radix.toUInt32.toNat value.toNat) := by
  have hr := toNat_radix h2 h36
  have hlen := length_numeral hr.1 value.toNat_lt
  rw [itoaAt_eq h2 h36, putsAt_put (zero_notMem_numeral hr) (by omega)]

/-- A hexadecimal number. -/
lemma putsAt_hex : putsAt (itoaAt m value s 16) s = .puts (numeral 16 value.toNat) :=
  putsAt_itoaAt (by decide) (by decide)

/-- A decimal number. -/
lemma putsAt_dec : putsAt (itoaAt m value s 10) s = .puts (numeral 10 value.toNat) :=
  putsAt_itoaAt (by decide) (by decide)

/-- The eight digits of `%#x`. -/
lemma putsAt_hex8 : putsAt (fillZeros 8 (strlenAt (itoaAt m value 8 16) 8) (itoaAt m value 8 16))
    (strlenAt (itoaAt m value 8 16) 8) = .puts (hex8 value.toNat) := by
  have hlen := length_numeral_hex value.toNat_lt
  have hnul : 0 ∉ numeral 16 value.toNat := zero_notMem_numeral (by omega)
  have hnul' : 0 ∉ hex8 value.toNat := by
    rw [← replicate_numeral value.toNat_lt]
    intro hmem
    rcases List.mem_append.mp hmem with hz | hz
    · exact absurd (List.eq_of_mem_replicate hz) (by decide)
    · exact hnul hz
  have hput : itoaAt m value 8 16 = m.put 8 (numeral 16 value.toNat ++ [0]) := itoaAt_eq (by decide) (by decide)
  have hn : strlenAt (itoaAt m value 8 16) 8 = (numeral 16 value.toNat).length := by
    rw [hput]
    exact (Mem.isStr_put hnul).strlen (by omega)
  rw [hn, fillZeros_eq (by omega), hput, Mem.put_put (by rw [List.length_replicate]; omega),
    ← List.append_assoc, replicate_numeral value.toNat_lt, putsAt_put hnul' (by rw [hex8]; simp)]

/-- A number with its sign. -/
lemma putsAt_negative (h : value.toInt32 < 0) :
    putsAt (itoaAt (Function.update m 0 45) (0 - value) 1 10) 0 = .puts (signedNumeral value.toInt32.toInt) := by
  have hlen := @length_numeral 10 _ (by omega) (0 - value).toNat_lt
  have hnul : 0 ∉ 45 :: numeral 10 (0 - value).toNat := by
    rw [List.mem_cons, not_or]
    exact ⟨by decide, zero_notMem_numeral (by omega)⟩
  have hput : itoaAt (Function.update m 0 45) (0 - value) 1 10 = m.put 0 (45 :: numeral 10 (0 - value).toNat ++ [0]) :=
    itoaAt_eq (by decide) (by decide)
  rw [hput, putsAt_put hnul (by rw [List.length_cons]; omega), signedNumeral_neg h]

end Printer

/-! ### One directive -/

/-- The calls that print a directive. -/
def Conv.emits (args : VarArgs) (arg : Nat) (v : Conv) : List Emit :=
  match v with
  | percent | char => (v.text args arg).map .putc
  | str | unsigned | signed | hex | hex8 => [.puts (v.text args arg)]
  | other => []

/-- The calls print the text. -/
lemma Conv.emits_text {args : VarArgs} {arg : Nat} {v : Conv} : (v.emits args arg).flatMap Emit.text = v.text args arg := by
  cases v with
  | percent | char | other => rfl
  | str | unsigned | signed | hex | hex8 => exact List.flatMap_singleton ..

/-- Without `strict`, flags matter to `%x` only. -/
lemma Conv.of_false {flags : Nat} {c : UInt8} : Conv.of false flags c =
    if c = 37 then .percent
    else if c = 120 then if flags = 0 then .hex else .hex8
    else if c = 117 then .unsigned
    else if c = 100 then .signed
    else if c = 99 then .char
    else if c = 115 then .str
    else .other := if_neg fun h => Bool.false_ne_true h.1

namespace Printer
variable {p q : Printer} {args : VarArgs} {convBuf fmt : Mem} {stale : Nat → Mem} {c : UInt8} {cs : List UInt8}
variable {flags : Nat} {spec : Option Nat}

/-- A conversion prints the text of its directive, whatever is in the buffer. -/
lemma convert_eq : p.convert args convBuf (decide (0 < flags)) c = { p with
    out := p.out ++ (Conv.of false flags c).emits args p.esp, esp := p.esp + (Conv.of false flags c).takes } := by
  rw [Conv.of_false]
  unfold convert
  extract_lets word
  by_cases h37 : c = 37
  · rw [if_pos h37, if_pos h37]
    rfl
  rw [if_neg h37, if_neg h37]
  by_cases h120 : c = 120
  · rw [if_pos h120, if_pos h120]
    by_cases hflags : flags = 0
    · rw [if_pos hflags, if_pos (by simp [hflags]), putsAt_hex]
      rfl
    · rw [if_neg hflags, if_neg (by simp [Nat.pos_of_ne_zero hflags]), putsAt_hex8]
      rfl
  rw [if_neg h120, if_neg h120]
  by_cases h117 : c = 117
  · rw [if_pos h117, if_pos h117, putsAt_dec]
    rfl
  rw [if_neg h117, if_neg h117]
  by_cases h100 : c = 100
  · rw [if_pos h100, if_pos h100]
    split
    · next hneg =>
      rw [putsAt_negative hneg]
      rfl
    · next hneg =>
      rw [putsAt_dec, ← signedNumeral_nonneg hneg]
      rfl
  rw [if_neg h100, if_neg h100]
  by_cases h99 : c = 99
  · rw [if_pos h99, if_pos h99]
    rfl
  rw [if_neg h99, if_neg h99]
  by_cases h115 : c = 115
  · rw [if_pos h115, if_pos h115]
    rfl
  rw [if_neg h115, if_neg h115]
  rw [Conv.emits, List.append_nil]
  rfl

/-! ### The run -/

/-- The flag as a number. -/
lemma decide_flags (alternate : Bool) : alternate = decide (0 < alternate.toNat) := by
  cases alternate with
  | false => rfl
  | true => rfl

/-- A conversion does not move in the format. -/
lemma convert_frame {alternate : Bool} : (p.convert args convBuf alternate c).buf = p.buf ∧
    (p.convert args convBuf alternate c).top = p.top := by
  rw [decide_flags alternate, convert_eq]
  exact ⟨rfl, rfl⟩

section
variable {fuel : Nat} {alternate : Bool}

/-- The end of the format. -/
lemma printfLoop_nul (h : fmt p.buf = 0) : printfLoop fmt args stale (fuel + 1) none p = some p.load := if_pos h

/-- The beginning of a directive. -/
lemma printfLoop_percent (h : fmt p.buf = 37) : printfLoop fmt args stale (fuel + 1) none p =
    printfLoop fmt args stale fuel (some false) p.load.next :=
  (if_neg fun hz => absurd (hz.symm.trans h) (by decide)).trans (if_pos h)

/-- A character that stands for itself. -/
lemma printfLoop_lit (hz : fmt p.buf ≠ 0) (h : fmt p.buf ≠ 37) : printfLoop fmt args stale (fuel + 1) none p =
    printfLoop fmt args stale fuel none (p.load.emit (.putc (fmt p.buf))).next :=
  (if_neg hz).trans (if_neg h)

/-- A flag. -/
lemma printfLoop_flag (h : fmt p.buf = 35) : printfLoop fmt args stale (fuel + 1) (some alternate) p =
    printfLoop fmt args stale fuel (some true) p.load.next := if_pos h

/-- The end of a directive. -/
lemma printfLoop_convert (h : fmt p.buf ≠ 35) : printfLoop fmt args stale (fuel + 1) (some alternate) p =
    printfLoop fmt args stale fuel none (p.load.convert args (stale p.buf) alternate (fmt p.buf)).next := if_neg h

end

/-- An iteration ends the loop, or reads one character and goes on. -/
lemma printfLoop_cases {spec : Option Bool} :
    (∀ fuel, printfLoop fmt args stale (fuel + 1) spec p = some p.load) ∨
    ∃ spec' p', p'.buf = p.buf + 1 ∧ p'.top = max p.top p.buf ∧
      ∀ fuel, printfLoop fmt args stale (fuel + 1) spec p = printfLoop fmt args stale fuel spec' p' := by
  cases spec with
  | none =>
    by_cases hz : fmt p.buf = 0
    · exact Or.inl fun fuel => printfLoop_nul hz
    by_cases h37 : fmt p.buf = 37
    · exact Or.inr ⟨_, _, rfl, rfl, fun fuel => printfLoop_percent h37⟩
    · exact Or.inr ⟨_, _, rfl, rfl, fun fuel => printfLoop_lit hz h37⟩
  | some alternate =>
    by_cases h35 : fmt p.buf = 35
    · exact Or.inr ⟨_, _, rfl, rfl, fun fuel => printfLoop_flag h35⟩
    · exact Or.inr ⟨_, _, congrArg (· + 1) convert_frame.1, convert_frame.2, fun fuel => printfLoop_convert h35⟩

/-- What was read stays read. -/
lemma printfLoop_top {fuel : Nat} {spec : Option Bool} (h : printfLoop fmt args stale fuel spec p = some q) :
    p.top ≤ q.top ∧ p.buf ≤ q.top := by
  induction fuel generalizing spec p with
  | zero => cases h
  | succ fuel ih =>
    rcases @printfLoop_cases p args fmt stale spec with hend | ⟨spec', p', hbuf, htop, hnext⟩
    · rw [hend] at h
      cases h
      exact ⟨Nat.le_max_left .., Nat.le_max_right ..⟩
    · rw [hnext] at h
      have := ih h
      omega

/-- More fuel does not change the result. -/
lemma printfLoop_mono {fuel fuel' : Nat} {spec : Option Bool} (h : printfLoop fmt args stale fuel spec p = some q)
    (hle : fuel ≤ fuel') : printfLoop fmt args stale fuel' spec p = some q := by
  induction fuel generalizing spec p fuel' with
  | zero => cases h
  | succ fuel ih =>
    obtain ⟨k, rfl⟩ : ∃ k, fuel' = k + 1 := ⟨fuel' - 1, by omega⟩
    rcases @printfLoop_cases p args fmt stale spec with hend | ⟨spec', p', _, _, hnext⟩
    · rw [hend] at h ⊢
      exact h
    · rw [hnext] at h ⊢
      exact ih h (by omega)

/-- What `printf` has done when it returns: the pieces `cs` of the format from `buf` on are printed. -/
structure Printed (p q : Printer) (args : VarArgs) (spec : Option Nat) (cs : List UInt8) : Prop where
  buf : q.buf = p.buf + cs.length
  esp : q.esp = p.esp + consumed false (pieces spec cs)
  text : q.text = p.text ++ render false args p.esp (pieces spec cs)
  top : q.top = max p.top (p.buf + cs.length)

/-- `alternate`, for a number of flags. -/
def alternate (spec : Option Nat) : Option Bool := spec.map fun flags => decide (0 < flags)

/-- One character that adds `t` to the text and takes `k` arguments. -/
lemma Printed.cons {p' : Printer} {spec' : Option Nat} {k : Nat} {t : List UInt8} (h : Printed p' q args spec' cs)
    (hbuf : p'.buf = p.buf + 1) (htop : p'.top = max p.top p.buf) (hesp : p'.esp = p.esp + k)
    (htext : p'.text = p.text ++ t)
    (hconsumed : consumed false (pieces spec (c :: cs)) = k + consumed false (pieces spec' cs))
    (hrender : render false args p.esp (pieces spec (c :: cs)) = t ++ render false args (p.esp + k) (pieces spec' cs)) :
    Printed p q args spec (c :: cs) where
  buf := by rw [h.buf, hbuf, List.length_cons, Nat.add_assoc, Nat.add_comm 1]
  esp := by rw [h.esp, hesp, hconsumed, Nat.add_assoc]
  text := by rw [h.text, htext, hrender, hesp, List.append_assoc]
  top := by
    rw [h.top, hbuf, htop, List.length_cons]
    omega

/-- A format that does not end inside a directive is printed piece by piece. -/
lemma printfLoop_printed {fuel : Nat} (h : fmt.IsStr p.buf cs) (hcut : cutShort spec cs = false)
    (hfuel : cs.length < fuel) : ∃ q, printfLoop fmt args stale fuel (alternate spec) p = some q ∧
      Printed p q args spec cs := by
  induction cs generalizing p spec fuel with
  | nil =>
    obtain ⟨k, rfl⟩ : ∃ k, fuel = k + 1 := ⟨fuel - 1, by omega⟩
    cases spec with
    | none => exact ⟨p.load, printfLoop_nul h, rfl, rfl, (List.append_nil _).symm, rfl⟩
    | some flags => cases hcut
  | cons c cs ih =>
    obtain ⟨k, rfl⟩ : ∃ k, fuel = k + 1 := ⟨fuel - 1, by omega⟩
    obtain ⟨hc, hne, htail⟩ := h
    rw [List.length_cons] at hfuel
    subst hc
    cases spec with
    | none =>
      by_cases h37 : fmt p.buf = 37
      · rw [cutShort, if_pos h37] at hcut
        obtain ⟨q, hq, hprinted⟩ := @ih p.load.next (some 0) k htail hcut (by omega)
        have hpieces : pieces none (fmt p.buf :: cs) = pieces (some 0) cs := if_pos h37
        refine ⟨q, ?_, hprinted.cons (k := 0) (t := []) rfl rfl rfl (List.append_nil _).symm ?_ ?_⟩
        · exact (printfLoop_percent h37).trans hq
        · rw [hpieces, Nat.zero_add]
        · rw [hpieces]
          rfl
      · rw [cutShort, if_neg h37] at hcut
        obtain ⟨q, hq, hprinted⟩ := @ih (p.load.emit (.putc (fmt p.buf))).next none k htail hcut (by omega)
        have hpieces : pieces none (fmt p.buf :: cs) = .lit (fmt p.buf) :: pieces none cs := if_neg h37
        refine ⟨q, ?_, hprinted.cons (k := 0) rfl rfl rfl List.flatMap_append ?_ ?_⟩
        · exact (printfLoop_lit hne h37).trans hq
        · rw [hpieces, Nat.zero_add]
          rfl
        · rw [hpieces]
          rfl
    | some flags =>
      by_cases h35 : fmt p.buf = 35
      · rw [cutShort, if_pos h35] at hcut
        obtain ⟨q, hq, hprinted⟩ := @ih p.load.next (some (flags + 1)) k htail hcut (by omega)
        have hpieces : pieces (some flags) (fmt p.buf :: cs) = pieces (some (flags + 1)) cs := if_pos h35
        refine ⟨q, ?_, hprinted.cons (k := 0) (t := []) rfl rfl rfl (List.append_nil _).symm ?_ ?_⟩
        · exact (printfLoop_flag h35).trans hq
        · rw [hpieces, Nat.zero_add]
        · rw [hpieces]
          rfl
      · rw [cutShort, if_neg h35] at hcut
        have hconvert := @convert_eq p.load args (stale p.buf) (fmt p.buf) flags
        obtain ⟨q, hq, hprinted⟩ := @ih (p.load.convert args (stale p.buf) (decide (0 < flags)) (fmt p.buf)).next none k
          (by rw [hconvert]; exact htail) hcut (by omega)
        have hpieces : pieces (some flags) (fmt p.buf :: cs) = .directive flags (fmt p.buf) :: pieces none cs :=
          if_neg h35
        rw [hconvert] at hq hprinted
        refine ⟨q, ?_, hprinted.cons rfl rfl rfl List.flatMap_append ?_ ?_⟩
        · rw [← hq, ← hconvert]
          exact printfLoop_convert h35
        · rw [hpieces]
          rfl
        · rw [hpieces, Conv.emits_text]
          rfl

/-- A format that ends inside a directive is left. -/
lemma printfLoop_leaves {fuel : Nat} (h : fmt.IsStr p.buf cs) (hcut : cutShort spec cs = true)
    (hq : printfLoop fmt args stale fuel (alternate spec) p = some q) : p.buf + cs.length < q.top := by
  induction cs generalizing p spec fuel with
  | nil =>
    -- the zero byte is no `#`, so it is the character of a conversion, and the next character is read
    cases spec with
    | none => cases hcut
    | some flags =>
      cases fuel with
      | zero => cases hq
      | succ fuel =>
        have hz : ¬ fmt p.buf = 35 := fun h35 => absurd (h35.symm.trans h) (by decide)
        have hread := (printfLoop_top ((printfLoop_convert hz).symm.trans hq)).2
        rw [next, convert_frame.1] at hread
        exact hread
  | cons c cs ih =>
    cases fuel with
    | zero => cases hq
    | succ fuel =>
      obtain ⟨hc, hne, htail⟩ := h
      subst hc
      rw [List.length_cons, Nat.add_comm cs.length, ← Nat.add_assoc]
      cases spec with
      | none =>
        by_cases h37 : fmt p.buf = 37
        · rw [cutShort, if_pos h37] at hcut
          exact @ih p.load.next (some 0) _ htail hcut ((printfLoop_percent h37).symm.trans hq)
        · rw [cutShort, if_neg h37] at hcut
          exact @ih (p.load.emit (.putc (fmt p.buf))).next none _ htail hcut ((printfLoop_lit hne h37).symm.trans hq)
      | some flags =>
        by_cases h35 : fmt p.buf = 35
        · rw [cutShort, if_pos h35] at hcut
          exact @ih p.load.next (some (flags + 1)) _ htail hcut ((printfLoop_flag h35).symm.trans hq)
        · rw [cutShort, if_neg h35] at hcut
          have hconvert := @convert_frame p.load args (stale p.buf) (fmt p.buf) (decide (0 < flags))
          have hread := @ih (p.load.convert args (stale p.buf) (decide (0 < flags)) (fmt p.buf)).next none _
            (by rw [next, hconvert.1]; exact htail) hcut ((printfLoop_convert h35).symm.trans hq)
          rw [next, hconvert.1] at hread
          exact hread

end Printer

/-! ### Flags -/

section
variable {flags : Nat} {c : UInt8} {args : VarArgs} {arg : Nat} {ps : List Piece}

/-- A directive that is the same under both readings. -/
lemma Conv.of_listed (h : (Piece.directive flags c).Listed) : Conv.of true flags c = Conv.of false flags c := by
  rw [of_false, of]
  split
  · next hodd =>
    have hc : c ∉ ([37, 120, 117, 100, 99, 115] : List UInt8) :=
      (h.resolve_left (Nat.ne_of_gt hodd.2.1)).resolve_left hodd.2.2
    simp only [List.mem_cons, List.not_mem_nil, or_false, not_or] at hc
    rw [if_neg hc.1, if_neg hc.2.1, if_neg hc.2.2.1, if_neg hc.2.2.2.1, if_neg hc.2.2.2.2.1, if_neg hc.2.2.2.2.2]
  · rfl

/-- A flag that is not listed is before a character that means something without `strict`. -/
lemma Conv.of_not_listed (h : ¬ (Piece.directive flags c).Listed) :
    Conv.of true flags c = .other ∧ Conv.of false flags c ≠ .other := by
  obtain ⟨hflags, hx, hc⟩ : flags ≠ 0 ∧ ¬ (flags = 1 ∧ c = 120) ∧ c ∈ ([37, 120, 117, 100, 99, 115] : List UInt8) := by
    simpa only [Piece.Listed, not_or, not_not] using h
  refine ⟨if_pos ⟨rfl, Nat.pos_of_ne_zero hflags, hx⟩, ?_⟩
  rw [of_false, if_neg hflags]
  simp only [List.mem_cons, List.not_mem_nil, or_false] at hc
  rcases hc with rfl | rfl | rfl | rfl | rfl | rfl
  all_goals exact Conv.noConfusion

/-- A format that is the same under both readings. -/
lemma render_listed (h : ∀ p ∈ ps, p.Listed) :
    render true args arg ps = render false args arg ps ∧ consumed true ps = consumed false ps := by
  induction ps generalizing arg with
  | nil => exact ⟨rfl, rfl⟩
  | cons p ps ih =>
    have htail := fun arg => @ih arg fun p' hp' => h p' (List.mem_cons_of_mem _ hp')
    cases p with
    | lit c => exact ⟨congrArg (c :: ·) (htail arg).1, (htail arg).2⟩
    | directive flags c =>
      rw [render, render, consumed, consumed, Conv.of_listed (h _ List.mem_cons_self), (htail _).1, (htail arg).2]
      exact ⟨rfl, rfl⟩

/-- With `strict` no more arguments are taken; if as many are taken, then no more is printed; and if as much is printed,
then all directives are listed. -/
lemma listed_of_render : consumed true ps ≤ consumed false ps ∧ (consumed true ps = consumed false ps →
    (render true args arg ps).length ≤ (render false args arg ps).length ∧
      ((render true args arg ps).length = (render false args arg ps).length → ∀ p ∈ ps, p.Listed)) := by
  induction ps generalizing arg with
  | nil => exact ⟨Nat.le_refl _, fun _ => ⟨Nat.le_refl _, fun _ p hp => absurd hp List.not_mem_nil⟩⟩
  | cons p ps ih =>
    cases p with
    | lit c =>
      obtain ⟨hle, heq⟩ := @ih arg
      refine ⟨hle, fun hc => ⟨Nat.succ_le_succ (heq hc).1, fun hlen p hp => ?_⟩⟩
      rcases List.mem_cons.mp hp with rfl | hp
      · trivial
      · exact (heq hc).2 (Nat.succ.inj hlen) p hp
    | directive flags c =>
      by_cases hlisted : (Piece.directive flags c).Listed
      · obtain ⟨hle, heq⟩ := @ih (arg + (Conv.of false flags c).takes)
        simp only [consumed, render, Conv.of_listed hlisted, List.length_append, Nat.add_le_add_iff_left,
          Nat.add_left_cancel_iff]
        refine ⟨hle, fun hc => ⟨(heq hc).1, fun hlen p hp => ?_⟩⟩
        rcases List.mem_cons.mp hp with rfl | hp
        · exact hlisted
        · exact (heq hc).2 hlen p hp
      · obtain ⟨hle, heq⟩ := @ih arg
        obtain ⟨hother, hmeans⟩ := Conv.of_not_listed hlisted
        rw [consumed, consumed, render, render, hother]
        generalize Conv.of false flags c = v at hmeans
        cases v with
        | other => exact absurd rfl hmeans
        | percent =>
          simp only [Conv.takes, Conv.text, Nat.zero_add, Nat.add_zero, List.nil_append, List.length_append,
            List.length_singleton]
          refine ⟨hle, fun hc => ⟨?_, fun hlen => ?_⟩⟩
          · have := (heq hc).1
            omega
          · have := (heq hc).1
            omega
        | char | str | unsigned | signed | hex | hex8 =>
          simp only [Conv.takes]
          exact ⟨by omega, fun hc => by omega⟩

end

open Printer in
/-- `printf` does what its format says if and only if the format does not end inside a directive. Where only `%#x` may
have a flag, no other directive may have one, unless its character means nothing. -/
theorem printf_renders_iff (strict : Bool) (fmt : CString) (args : VarArgs) (stale : Nat → Mem) :
    Renders strict fmt args stale ↔
      cutShort none fmt.chars = false ∧ (strict = true → ∀ p ∈ pieces none fmt.chars, p.Listed) := by
  have hlen : fmt.chars.length = fmt.length := Mem.length_bytes
  constructor
  · rintro ⟨fuel, q, hq, htop, htext, hesp, hbuf⟩
    have hcut : cutShort none fmt.chars = false := by
      by_contra hcut
      have hleaves := @printfLoop_leaves ⟨0, 0, [], 0⟩ q args fmt.byte stale fmt.chars none _ fmt.isStr
        (Bool.not_eq_false _ ▸ hcut) hq
      omega
    refine ⟨hcut, fun hstrict => ?_⟩
    subst hstrict
    obtain ⟨q', hq', hprinted⟩ := @printfLoop_printed ⟨0, 0, [], 0⟩ args fmt.byte stale fmt.chars none
      (fuel + (fmt.chars.length + 1)) fmt.isStr hcut (by omega)
    have hsame : q' = q := Option.some.inj (hq'.symm.trans (printfLoop_mono hq (by omega)))
    subst hsame
    have hconsumed : consumed true (pieces none fmt.chars) = consumed false (pieces none fmt.chars) := by
      rw [← hesp, hprinted.esp, Nat.zero_add]
    have hrender : render true args 0 (pieces none fmt.chars) = render false args 0 (pieces none fmt.chars) := by
      rw [← htext, hprinted.text]
      rfl
    exact ((@listed_of_render args 0 _).2 hconsumed).2 (congrArg List.length hrender)
  · rintro ⟨hcut, hlisted⟩
    obtain ⟨q, hq, hprinted⟩ := @printfLoop_printed ⟨0, 0, [], 0⟩ args fmt.byte stale fmt.chars none _ fmt.isStr hcut
      (Nat.lt_succ_self _)
    have hstrict : render strict args 0 (pieces none fmt.chars) = render false args 0 (pieces none fmt.chars) ∧
        consumed strict (pieces none fmt.chars) = consumed false (pieces none fmt.chars) := by
      cases strict with
      | false => exact ⟨rfl, rfl⟩
      | true => exact render_listed (hlisted rfl)
    refine ⟨_, q, hq, ?_, ?_, ?_, ?_⟩
    · rw [hprinted.top, hlen]
      simp
    · rw [hprinted.text, hstrict.1]
      rfl
    · rw [hprinted.esp, hstrict.2, Nat.zero_add]
    · rw [hprinted.buf, hlen, Nat.zero_add]

/-- A `%` and a zero byte, with an `A` behind them in memory. -/
def cutFormat : CString := ⟨Mem.put (fun _ => 0) 0 [37, 0, 65], 1, rfl⟩

open Printer in
/-- The format `%` prints the `A` that is not part of it, and its length is not 3. -/
theorem printf_leaves_format : (∃ p, printf cutFormat.byte ⟨fun _ => 0, fun _ => []⟩ (fun _ _ => 0) 5 = some p ∧
      p.text = [65] ∧ p.buf = 3 ∧ p.top = 3) ∧ cutFormat.length = 1 ∧
    ¬ Renders false cutFormat ⟨fun _ => 0, fun _ => []⟩ fun _ _ => 0 := by
  refine ⟨⟨_, rfl, rfl, rfl, rfl⟩, rfl, ?_⟩
  rintro ⟨fuel, q, hq, htop, _⟩
  have hleaves := @printfLoop_leaves ⟨0, 0, [], 0⟩ q _ cutFormat.byte _ cutFormat.chars none _ cutFormat.isStr rfl hq
  exact Nat.not_lt.mpr htop hleaves

/-! ### On the screen -/

namespace Monitor
variable {mon : Monitor} {t : TermId} {args : VarArgs} {flags arg : Nat} {c : UInt8}

/-- A call of `putc` or `puts`, for a process of terminal `t`. -/
def perform (t : TermId) (mon : Monitor) : Emit → Monitor
  | .putc c => mon.putc t c
  | .puts s => (mon.puts t s).1

/-- The conversions of `Monitor` print the texts of the directives. -/
lemma convert_eq : mon.convert t args (decide (0 < flags)) arg c =
    (((Conv.of false flags c).emits args arg).foldl (perform t) mon, arg + (Conv.of false flags c).takes) := by
  rw [Conv.of_false]
  unfold convert
  extract_lets word digits
  have hdec : ∀ v, itoaText v 10 = numeral 10 v.toNat := fun v => itoaText_eq (by decide) (by decide)
  by_cases h37 : c = 37
  · rw [if_pos h37, if_pos h37]
    rfl
  rw [if_neg h37, if_neg h37]
  by_cases h120 : c = 120
  · rw [if_pos h120, if_pos h120]
    have hdigits : digits = numeral 16 word.toNat := itoaText_eq (by decide) (by decide)
    by_cases hflags : flags = 0
    · rw [if_pos hflags, if_neg (by simp [hflags]), hdigits]
      rfl
    · rw [if_neg hflags, if_pos (by simp [Nat.pos_of_ne_zero hflags]), hdigits, replicate_numeral word.toNat_lt]
      rfl
  rw [if_neg h120, if_neg h120]
  by_cases h117 : c = 117
  · rw [if_pos h117, if_pos h117, hdec]
    rfl
  rw [if_neg h117, if_neg h117]
  by_cases h100 : c = 100
  · rw [if_pos h100, if_pos h100]
    by_cases hneg : word.toInt32 < 0
    · rw [if_pos (toInt32_neg_iff.mp hneg), hdec, ← signedNumeral_neg hneg]
      rfl
    · rw [if_neg (mt toInt32_neg_iff.mpr hneg), hdec, ← signedNumeral_nonneg hneg]
      rfl
  rw [if_neg h100, if_neg h100]
  by_cases h99 : c = 99
  · rw [if_pos h99, if_pos h99]
    rfl
  rw [if_neg h99, if_neg h99]
  by_cases h115 : c = 115
  · rw [if_pos h115, if_pos h115]
    rfl
  rw [if_neg h115, if_neg h115]
  rfl

end Monitor

open Monitor in
/-- What `Monitor.printf` does to the screens are the calls of `printf`, one after another. -/
theorem Printer.performs {p q : Printer} {fmt : Mem} {args : VarArgs} {stale : Nat → Mem} {spec : Option Bool}
    {fuel : Nat} (t : TermId) (mon : Monitor) (h : Printer.printfLoop fmt args stale fuel spec p = some q) :
    Monitor.printfLoop t fmt args fuel spec p.buf p.esp (p.out.foldl (perform t) mon) =
      (q.out.foldl (perform t) mon, q.buf) := by
  induction fuel generalizing p spec with
  | zero => cases h
  | succ fuel ih =>
    cases spec with
    | none =>
      by_cases hz : fmt p.buf = 0
      · rw [printfLoop_nul hz] at h
        cases h
        exact if_pos hz
      by_cases h37 : fmt p.buf = 37
      · rw [printfLoop_percent h37] at h
        exact ((if_neg hz).trans (if_pos h37)).trans (ih h)
      · rw [printfLoop_lit hz h37] at h
        have hout := ih h
        rw [next, emit, List.foldl_append] at hout
        exact ((if_neg hz).trans (if_neg h37)).trans hout
    | some alternate =>
      by_cases h35 : fmt p.buf = 35
      · rw [printfLoop_flag h35] at h
        exact (if_pos h35).trans (ih h)
      · rw [printfLoop_convert h35] at h
        have hout := ih h
        rw [decide_flags alternate, Printer.convert_eq, next, List.foldl_append] at hout
        rw [Monitor.printfLoop, if_neg h35, decide_flags alternate, Monitor.convert_eq]
        exact hout

end Boss
