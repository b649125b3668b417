import Boss.Interrupt.Registers

/-!
# From a library call to the kernel function

A program calls the kernel through the stubs of `ece391syscall.S`. A stub loads the number of the call and three words
of its caller's stack into registers and raises interrupt 128, whose gate leads to `systemcall_linkage`. That code
looks at the number, pushes the registers so that the lowest ones are the parameters of a C function, and calls through
`syscall_jumptable`.

A C function is known by its parameters, and by what it leaves: the result, its own changes to the words that hold its
parameters, and the rest of the machine, which includes the memory it reaches through pointers. It may not return.
`int80_serves` says what interrupt 128 does for every content of the registers, and `programs_reach_kernel` that a
program behind the stubs sees the same as one that calls the kernel functions themselves, in every register and word of its
stack that the calling convention lets it look at, from `_start` to the status that `halt` is given.

The registers are those at the interrupt; what another interrupt does to them in between is the matter of
`Boss.Interrupt.Registers`.
-/

namespace Boss.Linkage

/-! ### The machine -/

/-- The general registers, but for the stack pointer. -/
inductive Gpr
  | eax | ecx | edx | ebx | esi | edi | ebp

/-- Read a register. -/
def get (r : Registers) : Gpr → UInt32
  | .eax => r.eax
  | .ecx => r.ecx
  | .edx => r.edx
  | .ebx => r.ebx
  | .esi => r.esi
  | .edi => r.edi
  | .ebp => r.ebp

/-- Write a register. -/
def set (r : Registers) (v : UInt32) : Gpr → Registers
  | .eax => { r with eax := v }
  | .ecx => { r with ecx := v }
  | .edx => { r with edx := v }
  | .ebx => { r with ebx := v }
  | .esi => { r with esi := v }
  | .edi => { r with edi := v }
  | .ebp => { r with ebp := v }

/-- The kernel functions of `syscall.h`. -/
inductive SysCall
  | halt | execute | read | write | openFile | close | getargs | vidmap | setHandler | sigreturn
  deriving DecidableEq

namespace SysCall

/-- The numbers of `ece391sysnum.h`. -/
def number : SysCall → UInt32
  | halt => 1
  | execute => 2
  | read => 3
  | write => 4
  | openFile => 5
  | close => 6
  | getargs => 7
  | vidmap => 8
  | setHandler => 9
  | sigreturn => 10

/-- The number of parameters in `syscall.h`. -/
def arity : SysCall → Nat
  | halt | execute | openFile | close | vidmap => 1
  | getargs | setHandler => 2
  | read | write => 3
  | sigreturn => 0

end SysCall

/-- `syscall_jumptable`. -/
def syscallJumptable : List (Option SysCall) :=
  [none, some .halt, some .execute, some .read, some .write, some .openFile, some .close, some .getargs, some .vidmap,
    some .setHandler, some .sigreturn]

/-- What a C function with `n` parameters leaves in `eax`, in the registers that it need not keep, and in the words of
its parameters. -/
structure Answer (n : Nat) where
  eax : UInt32
  ecx : UInt32
  edx : UInt32
  params : Vector UInt32 n

/-- The kernel functions, on what they work on. -/
abbrev Functions (σ : Type) := (c : SysCall) → Vector UInt32 c.arity → σ → Option (Answer c.arity × σ)

/-- The registers, the stack with its top first, and the rest of the machine. -/
structure Thread (σ : Type) where
  regs : Registers
  stack : List UInt32
  world : σ

/-- The instructions of the linkage and the stubs. -/
inductive Instr
  | pushl (r : Gpr)
  | pushImm (v : UInt32)
  | popl (r : Gpr)
  /-- `movl $v, %r` -/
  | movl (v : UInt32) (r : Gpr)
  /-- `movl 4n(%esp), %r` -/
  | loadl (n : Nat) (r : Gpr)
  /-- `call *syscall_jumptable(,%eax,4)` -/
  | callTable
  | int80
  | ret
  | iret

section
variable {σ : Type} (calls : Functions σ)

/-- The call of a C function whose parameters are on top of the stack. -/
def callFunction (t : Thread σ) (c : SysCall) : Option (Thread σ) :=
  (calls c (Vector.ofFn fun i => t.stack.getD i 0) t.world).map fun (a, w) =>
    { regs := { t.regs with eax := a.eax, ecx := a.ecx, edx := a.edx }
      stack := a.params.toList ++ t.stack.drop c.arity
      world := w }

/-- The instructions that do not leave the stack. -/
def plain (t : Thread σ) : Instr → Option (Thread σ)
  | .pushl r => some { t with stack := get t.regs r :: t.stack }
  | .pushImm v => some { t with stack := v :: t.stack }
  | .popl r =>
    match t.stack with
    | v :: rest => some { t with regs := set t.regs v r, stack := rest }
    | [] => none
  | .movl v r => some { t with regs := set t.regs v r }
  | .loadl n r => t.stack[n]?.map fun v => { t with regs := set t.regs v r }
  | _ => none

/-- An instruction in the kernel, on a stack that begins below what the interrupt pushed. -/
def kernelStep (t : Thread σ) : Instr → Option (Thread σ)
  | .callTable => (syscallJumptable[t.regs.eax.toNat]?).join.bind (callFunction calls t)
  -- with anything left above them, `iret` would take other words for the ones that the interrupt pushed
  | .iret => if t.stack = [] then some t else none
  | i => plain t i

/-- The part of `systemcall_linkage` behind `bad`. -/
def bad : List Instr := [.movl 0xFFFFFFFF .eax, .iret]

/-- The part of `systemcall_linkage` from the first `pushl` on. -/
def served : List Instr :=
  [.pushl .ebp, .pushl .edi, .pushl .esi, .pushl .edx, .pushl .ecx, .pushl .ebx,
    .callTable,
    .popl .ebx, .popl .ecx, .popl .edx, .popl .esi, .popl .edi, .popl .ebp,
    .iret]

/-- `systemcall_linkage`, which compares `eax` as a signed number. -/
def systemcallLinkage (eax : UInt32) : List Instr :=
  if eax.toInt32 < 1 then bad else if eax.toInt32 > 10 then bad else served

/-- Interrupt 128 from a program: the kernel works on a stack of its own. -/
def int80 (t : Thread σ) : Option (Thread σ) :=
  ((systemcallLinkage t.regs.eax).foldlM (kernelStep calls) { t with stack := [] }).map fun k =>
    { k with stack := t.stack }

/-- An instruction of a stub. -/
def userStep (t : Thread σ) : Instr → Option (Thread σ)
  | .int80 => int80 calls t
  | .ret =>
    match t.stack with
    | _ :: rest => some { t with stack := rest }
    | [] => none
  | i => plain t i

/-- The stub that `DO_CALL` defines for a number. -/
def doCall (number : UInt32) : List Instr :=
  [.pushl .ebx,
    .movl number .eax,
    .loadl 2 .ebx,
    .loadl 3 .ecx,
    .loadl 4 .edx,
    .int80,
    .popl .ebx,
    .ret]

/-- `call` of the stub of `c` from the address before `ret`. -/
def callStub (t : Thread σ) (ret : UInt32) (c : SysCall) : Option (Thread σ) :=
  (doCall c.number).foldlM (userStep calls) { t with stack := ret :: t.stack }

/-! ### Programs -/

/-- What compiled code may rely on after a call: the result in `eax`, the registers that a function keeps for its caller,
the stack below the parameters, and memory. -/
structure View (σ : Type) where
  eax : UInt32
  ebx : UInt32
  esi : UInt32
  edi : UInt32
  ebp : UInt32
  stack : List UInt32
  world : σ

/-- A thread behind a call with three words of parameters. -/
def Thread.view (t : Thread σ) : View σ :=
  ⟨t.regs.eax, t.regs.ebx, t.regs.esi, t.regs.edi, t.regs.ebp, t.stack.drop 3, t.world⟩

/-- What a compiled `main` does next, having changed the registers, its stack and memory as it likes: a call with three
words in place of the parameters, from the address before `ret`, or the return to `_start`. -/
inductive Want (σ : Type)
  | call (regs : Registers) (stack : List UInt32) (world : σ) (ret : UInt32) (c : SysCall) (params : Vector UInt32 3)
  | exit (regs : Registers) (stack : List UInt32) (world : σ)

/-- The program `main`, which goes on from what it finds after each call, for at most `fuel` calls; `_start` is behind it,
up to the address `end_`. -/
def start (main : View σ → Want σ) (end_ : UInt32) : (fuel : Nat) → View σ → Option σ
  | 0, _ => none
  | fuel + 1, v =>
    match main v with
    | .call regs stack world ret c params =>
      (callStub calls ⟨regs, params.toList ++ stack, world⟩ ret c).bind fun t => start main end_ fuel t.view
    | .exit regs stack world =>
      -- behind the call of `main`
      ([.pushImm 0, .pushImm 0, .pushl .eax].foldlM plain ⟨regs, stack, world⟩).bind fun t =>
        (callStub calls t end_ .halt).map Thread.world

/-- The same program if it called the kernel functions themselves: they change `eax` and memory, and keep the registers
and the stack of their caller. -/
def direct (main : View σ → Want σ) : (fuel : Nat) → View σ → Option σ
  | 0, _ => none
  | fuel + 1, v =>
    match main v with
    | .call regs stack world _ c params =>
      (calls c (Vector.ofFn fun i => params.toList.getD i 0) world).bind fun (a, w) =>
        direct main fuel ⟨a.eax, regs.ebx, regs.esi, regs.edi, regs.ebp, stack, w⟩
    | .exit regs _ world => (calls .halt #v[regs.eax] world).map Prod.snd

/-! ### Interrupt 128 -/

/-- The registers as the parameters of a function. -/
def parameters (r : Registers) (c : SysCall) : Vector UInt32 c.arity :=
  Vector.ofFn fun i => [r.ebx, r.ecx, r.edx].getD i 0

/-- The registers after a call: the words of the parameters come back into the registers they came from. -/
def answered (r : Registers) {n : Nat} (a : Answer n) : Registers :=
  { r with
    eax := a.eax
    ebx := a.params.toList.getD 0 r.ebx
    ecx := a.params.toList.getD 1 r.ecx
    edx := a.params.toList.getD 2 r.edx }

/-- No call has more than three parameters. -/
lemma SysCall.arity_le (c : SysCall) : c.arity ≤ 3 := by cases c <;> decide

/-- The jump table has each function under its number. -/
lemma jumptable_number (c : SysCall) : (syscallJumptable[c.number.toNat]?).join = some c := by cases c <;> rfl

/-- A number of the header takes the way through the table. -/
lemma linkage_number (c : SysCall) : systemcallLinkage c.number = served := by cases c <;> rfl

/-- The numbers from 1 to 10 are those of the header. -/
lemma exists_number : (n : Nat) → 1 ≤ n → n ≤ 10 → ∃ c : SysCall, c.number.toNat = n
  | 1, _, _ => ⟨.halt, rfl⟩
  | 2, _, _ => ⟨.execute, rfl⟩
  | 3, _, _ => ⟨.read, rfl⟩
  | 4, _, _ => ⟨.write, rfl⟩
  | 5, _, _ => ⟨.openFile, rfl⟩
  | 6, _, _ => ⟨.close, rfl⟩
  | 7, _, _ => ⟨.getargs, rfl⟩
  | 8, _, _ => ⟨.vidmap, rfl⟩
  | 9, _, _ => ⟨.setHandler, rfl⟩
  | 10, _, _ => ⟨.sigreturn, rfl⟩

/-- The signed comparisons let nothing through that has no entry in the table. -/
lemma linkage_unknown {eax : UInt32} (h : ∀ c : SysCall, c.number ≠ eax) : systemcallLinkage eax = bad := by
  have hout : eax.toInt32 < 1 ∨ eax.toInt32 > 10 := by
    by_contra hin
    rw [not_or, Int32.lt_iff_toInt_lt, gt_iff_lt, Int32.lt_iff_toInt_lt] at hin
    have hval : eax.toInt32.toInt = if 2 * eax.toNat < 2 ^ 32 then (eax.toNat : Int) else eax.toNat - 2 ^ 32 :=
      BitVec.toInt_eq_toNat_cond _
    have hone : (1 : Int32).toInt = 1 := rfl
    have hten : (10 : Int32).toInt = 10 := rfl
    have hlt : eax.toNat < 2 ^ 32 := eax.toNat_lt
    obtain ⟨c, hc⟩ := exists_number eax.toNat (by omega) (by omega)
    exact h c (UInt32.toNat_inj.mp hc)
  unfold systemcallLinkage
  split
  · rfl
  · rw [if_pos (hout.resolve_left ‹_›)]

variable {calls}

/-- A function's own words in front of the ones it does not know. -/
lemma params_append {l rest : List UInt32} {x y z : UInt32} {n : Nat} (hlen : l.length = n) (hn : n ≤ 3) :
    l ++ (x :: y :: z :: rest).drop n = l.getD 0 x :: l.getD 1 y :: l.getD 2 z :: rest := by
  subst hlen
  match l with
  | [] | [_] | [_, _] | [_, _, _] => rfl
  | _ :: _ :: _ :: _ :: _ =>
    simp only [List.length_cons] at hn
    omega

/-- The parameters are the topmost words. -/
lemma getD_params {x y z : UInt32} {rest : List UInt32} {i : Nat} (h : i < 3) :
    (x :: y :: z :: rest).getD i 0 = [x, y, z].getD i 0 := by
  match i with
  | 0 | 1 | 2 => rfl

/-- The call of a function behind pushed registers. -/
lemma callFunction_eq (r : Registers) (w : σ) (c : SysCall) (rest : List UInt32) :
    callFunction calls ⟨r, r.ebx :: r.ecx :: r.edx :: rest, w⟩ c =
      (calls c (parameters r c) w).map fun (a, w') =>
        ⟨{ r with eax := a.eax, ecx := a.ecx, edx := a.edx },
          a.params.toList.getD 0 r.ebx :: a.params.toList.getD 1 r.ecx :: a.params.toList.getD 2 r.edx :: rest, w'⟩ := by
  have hparams : (Vector.ofFn fun i : Fin c.arity => (r.ebx :: r.ecx :: r.edx :: rest).getD i 0) = parameters r c := by
    unfold parameters
    congr 1
    funext i
    exact getD_params (i.isLt.trans_le c.arity_le)
  unfold callFunction
  rw [hparams]
  refine congrArg (Option.map · _) (funext fun (a, w') => ?_)
  exact congrArg (fun stack => (⟨{ r with eax := a.eax, ecx := a.ecx, edx := a.edx }, stack, w'⟩ : Thread σ))
    (params_append a.params.length_toList c.arity_le)

/-- The way through the table, from end to end. -/
lemma served_eq (r : Registers) (w : σ) (c : SysCall) (hc : c.number = r.eax) :
    served.foldlM (kernelStep calls) ⟨r, [], w⟩ =
      (calls c (parameters r c) w).map fun (a, w') => ⟨answered r a, [], w'⟩ := by
  have hpush : served.foldlM (kernelStep calls) ⟨r, [], w⟩ =
      (kernelStep calls ⟨r, [r.ebx, r.ecx, r.edx, r.esi, r.edi, r.ebp], w⟩ .callTable).bind
        fun t => (served.drop 7).foldlM (kernelStep calls) t := rfl
  have hcall : kernelStep calls ⟨r, [r.ebx, r.ecx, r.edx, r.esi, r.edi, r.ebp], w⟩ .callTable =
      callFunction calls ⟨r, [r.ebx, r.ecx, r.edx, r.esi, r.edi, r.ebp], w⟩ c := by
    rw [kernelStep, ← hc, jumptable_number, Option.bind_some]
  rw [hpush, hcall, callFunction_eq]
  cases calls c (parameters r c) w with
  | none => rfl
  | some aw => rfl

/-- Interrupt 128 with a number of the header. -/
lemma int80_number (t : Thread σ) {c : SysCall} (hc : c.number = t.regs.eax) :
    int80 calls t =
      (calls c (parameters t.regs c) t.world).map fun (a, w) => { t with regs := answered t.regs a, world := w } := by
  unfold int80
  rw [← hc, linkage_number, served_eq t.regs t.world c hc, Option.map_map]
  rfl

/-- Interrupt 128 for every content of the registers. A number of `ece391sysnum.h` reaches the kernel function of that
name with the registers as its parameters, and its result comes back; any other number gives -1. The program keeps
its stack and all other registers in both cases. -/
theorem int80_serves (calls : Functions σ) (t : Thread σ) :
    (∀ c : SysCall, c.number = t.regs.eax → int80 calls t =
      (calls c (parameters t.regs c) t.world).map fun (a, w) => { t with regs := answered t.regs a, world := w }) ∧
    ((∀ c : SysCall, c.number ≠ t.regs.eax) →
      int80 calls t = some { t with regs := { t.regs with eax := 0xFFFFFFFF } }) := by
  refine ⟨fun c hc => int80_number t hc, fun h => ?_⟩
  unfold int80
  rw [linkage_unknown h]
  rfl

/-- Functions that return their number, count their calls and use the words of their parameters for something else. -/
def numbered : Functions Nat := fun c _ w => some (⟨c.number, 0, 0, .replicate c.arity 9⟩, w + 1)

/-- The call `getargs`, and a number that belongs to no call. -/
theorem int80_serves_getargs :
    int80 numbered ⟨⟨7, 20, 30, 10, 1, 2, 3⟩, [5], 0⟩ = some ⟨⟨7, 9, 30, 9, 1, 2, 3⟩, [5], 1⟩ ∧
      int80 numbered ⟨⟨11, 20, 30, 10, 1, 2, 3⟩, [5], 0⟩ = some ⟨⟨0xFFFFFFFF, 20, 30, 10, 1, 2, 3⟩, [5], 0⟩ :=
  ⟨(int80_serves numbered _).1 .getargs rfl, (int80_serves numbered _).2 fun c => by cases c <;> decide⟩

/-! ### Stubs and programs -/

/-- A call through a stub is a call of the kernel function, for the registers that a caller relies on. -/
lemma callStub_eq (r : Registers) (x y z : UInt32) (rest : List UInt32) (w : σ) (ret : UInt32) (c : SysCall) :
    callStub calls ⟨r, x :: y :: z :: rest, w⟩ ret c =
      (calls c (Vector.ofFn fun i => [x, y, z].getD i 0) w).map fun (a, w') =>
        ⟨{ r with eax := a.eax, ecx := a.params.toList.getD 1 y, edx := a.params.toList.getD 2 z },
          x :: y :: z :: rest, w'⟩ := by
  let loaded : Registers := { r with eax := c.number, ebx := x, ecx := y, edx := z }
  have hload : callStub calls ⟨r, x :: y :: z :: rest, w⟩ ret c =
      (int80 calls ⟨loaded, r.ebx :: ret :: x :: y :: z :: rest, w⟩).bind
        fun t => [Instr.popl .ebx, .ret].foldlM (userStep calls) t := rfl
  rw [hload, int80_number _ rfl]
  change ((calls c (parameters loaded c) w).map _).bind _ = (calls c (parameters loaded c) w).map _
  cases calls c (parameters loaded c) w with
  | none => rfl
  | some aw => rfl

/-- Every program does behind the stubs what it would do if it called the kernel functions themselves, with the same
registers, stack and memory after each call, and a `main` that returns ends in `halt` with its result. -/
theorem programs_reach_kernel (calls : Functions σ) (main : View σ → Want σ) (end_ : UInt32) (fuel : Nat) (v : View σ) :
    start calls main end_ fuel v = direct calls main fuel v := by
  induction fuel generalizing v with
  | zero => rfl
  | succ fuel ih =>
    unfold start direct
    cases main v with
    | call regs stack world ret c params =>
      obtain ⟨x, y, z, hparams⟩ := List.length_eq_three.mp params.length_toList
      simp only [hparams, List.cons_append, List.nil_append, callStub_eq]
      cases calls c (Vector.ofFn fun i => [x, y, z].getD i 0) world with
      | none => rfl
      | some aw => exact ih _
    | exit regs stack world =>
      have hpush : [Instr.pushImm 0, .pushImm 0, .pushl .eax].foldlM plain (⟨regs, stack, world⟩ : Thread σ) =
          some ⟨regs, regs.eax :: 0 :: 0 :: stack, world⟩ := rfl
      simp only [hpush, Option.bind_some, callStub_eq, Option.map_map]
      rfl

end

end Boss.Linkage
