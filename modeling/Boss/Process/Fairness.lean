import Boss.Lib.Rotation
import Boss.Process.Tree

/-!
# Turns of the processes

`get_next_proc` goes round the process numbers, and `execute` and `halt` move the processor to other numbers in between.
So the turn of a waiting process can be put off: the programs of the two other terminals can hand the processor to and
fro, each time from a number that lies behind the waiting one to a number that lies before it.

They cannot do so for long. Seen from the waiting process, the program that has just lost the processor lies before the
one that got it, and it stays where it is until its own turn comes. `Runs.gets_turn` turns this into a bound: the number
of ticks that can pass is less than the distance to the program of the third terminal. `no_starvation` says it for all
runs: a process that wants the processor has it after five ticks at the latest, whatever the programs do meanwhile.
-/

namespace Boss
open Lib Lib.Paging Lib.Rotation

/-- A timer tick. -/
def Input.isTick : Input → Bool
  | .tick _ => true
  | _ => false

/-- The number of timer ticks of a run. -/
def ticksOf (is : List Input) : Nat := is.countP Input.isTick

namespace Kernel
variable {env : Env} {k k' k0 : Kernel} {s : ProcStacks} {cur t u v : TermId} {p q w y : Pid} {i : Input} {e : Entry}
  {active : Pid → Bool} {fuel : Nat} {lost : Option Pid}

/-! ### `get_next_proc` -/

/-- `get_next_proc` has passed over processes that are not active. -/
lemma getNextProc_passes (h : getNextProc active fuel p = some q) :
    ∃ n < fuel, q = p + Fin.ofNat 6 (n + 1) ∧ ∀ m < n, active (p + Fin.ofNat 6 (m + 1)) = false := by
  have hshift : ∀ p : Pid, ∀ n, p + 1 + Fin.ofNat 6 (n + 1) = p + Fin.ofNat 6 (n + 1 + 1) := by
    intro p n
    apply Fin.ext
    change ((p.val + 1) % 6 + (n + 1) % 6) % 6 = (p.val + (n + 1 + 1) % 6) % 6
    omega
  induction fuel generalizing p with
  | zero => cases h
  | succ fuel ih =>
    unfold getNextProc at h
    split at h
    · cases h
      exact ⟨0, Nat.succ_pos fuel, rfl, fun m hm => absurd hm (Nat.not_lt_zero m)⟩
    · next hnot =>
      obtain ⟨n, hn, hq, hpass⟩ := ih h
      refine ⟨n + 1, Nat.succ_lt_succ hn, hq.trans (hshift p n), fun m hm => ?_⟩
      cases m with
      | zero => exact Bool.eq_false_iff.mpr hnot
      | succ m =>
        rw [← hshift]
        exact hpass m (Nat.lt_of_succ_lt_succ hm)

/-- `get_next_proc` finds the first active process. -/
lemma getNextProc_isNext (h : getNextProc active 6 p = some q) : IsNext (fun x => active x = true) p q := by
  have hplace : ∀ p x : Pid, ahead p x - 1 < 6 ∧ p + Fin.ofNat 6 (ahead p x - 1 + 1) = x := by decide
  have hahead : ∀ (p : Pid) (n : Fin 6), ahead p (p + Fin.ofNat 6 (n.val + 1)) = n.val + 1 := by decide
  refine ⟨getNextProc_active h, fun x hx => ?_⟩
  obtain ⟨n, hn, hq, hpass⟩ := getNextProc_passes h
  have hn' : ahead p (p + Fin.ofNat 6 (n + 1)) = n + 1 := hahead p ⟨n, hn⟩
  rw [hq, hn']
  by_contra hlt
  have hpos : 0 < ahead p x := ahead_pos
  have hfalse := hpass (ahead p x - 1) (by omega)
  rw [(hplace p x).2] at hfalse
  exact Bool.false_ne_true (hfalse.symm.trans hx)

/-! ### Steps -/

/-- A tick gives the processor to the first active process after the running one. -/
lemma Runs.tick (h : k.Runs s cur) (hstep : k.step env (.tick e) = some k') :
    ∃ t, s.Top t k'.running ∧ k'.Runs s t ∧ IsNext (fun x => k.active x = true) k.running k'.running := by
  have hr : OnStack k.running (k.entryRegs e).esp := entryRegs_onStack h.1.esp0
  have hsame : (k.saveContext k.running (k.entryRegs e)).active = k.active := by
    funext p
    rw [Bool.eq_iff_iff, (h.1.save hr).1.active, h.1.active]
  obtain ⟨p, t, k1, htick, hnext, htop, hcr3, hesp0, hswitched⟩ := h.tick_eq env e
  cases htick.symm.trans hstep
  have hnext' := getNextProc_isNext hnext
  rw [hsame] at hnext'
  have hmove : Move env k s cur (.tick e) none k' s t := .tick hr htop hcr3 hesp0 hswitched
  refine ⟨t, ?_, hmove.runs h, ?_⟩
  · rw [hswitched.running]
    exact htop
  · rw [hswitched.running]
    exact hnext'

/-- The processor stays with the terminal, and the stacks of the other terminals stay as they are. -/
def StaysOn (k' : Kernel) (s : ProcStacks) (cur : TermId) : Prop :=
  ∃ s', k'.Runs s' cur ∧ ∀ t, t ≠ cur → s'.stack t = s.stack t

/-- `halt` goes on with a program of the same terminal. -/
lemma halt_staysOn {stale : Mem} {r : Regs} {status : UInt8} (h : k.Runs s cur) (hends : i.Ends env k)
    (hfits : i.Fits env k → lost = none) (hkept : Kept k k0 lost) (hclear : Clearable env k0)
    (hhalt : k0.halt env stale k.running r status = some k') : k'.StaysOn s cur := by
  obtain ⟨rest, hstack⟩ := List.head?_eq_some_iff.mp h.1.running
  cases rest with
  | nil =>
    obtain ⟨k1, hrel, hstart⟩ := (halt_restarts stale r status h hkept hclear hstack).1 k' hhalt
    exact ⟨s, (Move.restart hends hfits hkept hstack hrel hstart).runs h, fun t _ => rfl⟩
  | cons q rest =>
    obtain ⟨k1, k2, hpops, hrel, hcr3, hesp0, hsw⟩ := halt_pops stale r status h hkept hclear hstack
    rw [hpops] at hhalt
    cases hhalt
    exact ⟨s.pop cur, (Move.exit hends hfits hkept hstack hrel hcr3 hesp0 hsw).runs h,
      fun t ht => Stacks.stack_pop_of_ne ht⟩

/-- `execute` stays on its terminal. -/
lemma execute_staysOn {command : Option Command} (h : k.Runs s cur)
    (hstep : k.callExecute env e k.running command = some k') : k'.StaysOn s cur := by
  have hr : OnStack k.running (k.entryRegs e).esp := entryRegs_onStack h.1.esp0
  unfold callExecute at hstep
  cases hexec : k.execute env e.stale k.running (k.entryRegs e) command with
  | refused m k1 =>
    rw [hexec] at hstep
    cases hstep
    have hrefused := execute_refused hexec
    have hmove : Move env k s cur (.execute e command) none k' s cur := .stay hrefused.kept hrefused.cr3
    exact ⟨s, hmove.runs h, fun t _ => rfl⟩
  | started eip k1 =>
    rw [hexec] at hstep
    cases hstep
    obtain ⟨pid, hfree, hstart⟩ := execute_started hexec
    have hgt : ¬ pid.val ≤ 2 := Nat.not_le.mpr (h.1.lt_free hfree)
    rw [parentOf, if_neg hgt, terminalOf, dif_neg hgt, h.1.terminal cur _ h.1.running.mem_stack] at hstart
    exact ⟨_, (Move.start (execute_starts hexec) hfree (h.1.fresh hfree) hstart hr).runs h,
      fun t ht => Stacks.stack_push_of_ne ht⟩
  | faulted k1 =>
    rw [hexec] at hstep
    obtain ⟨pid, hfree, hfault⟩ := execute_faulted hexec
    have hends : Input.Ends env k (.execute e command) := fun hfits => execute_fits hfits hexec
    exact halt_staysOn h hends (fun hfits => absurd hfits hends) (hfault.kept hfree) (hfault.clearable h) hstep

/-- `vidmap` stays on its terminal. -/
lemma vidmap_staysOn {screenStart : UInt32} (h : k.Runs s cur)
    (hstep : k.callVidmap env e k.running screenStart = some k') : k'.StaysOn s cur := by
  unfold callVidmap at hstep
  rcases vidmap_ways env k.running screenStart.toNat k with
    hno | ⟨k1, hmap, hmapped⟩ | ⟨phys, hfault, hptr, hstore⟩
  · rw [hno] at hstep
    cases hstep
    exact ⟨s, h, fun t _ => rfl⟩
  · rw [hmap] at hstep
    cases hstep
    exact ⟨s, (Move.map (i := .vidmap e screenStart) hmapped).runs h, fun t _ => rfl⟩
  · rw [hfault] at hstep
    have hends : Input.Ends env k (.vidmap e screenStart) := by
      refine ⟨by rw [hptr]; exact Bool.false_ne_true, fun hwrite => ?_⟩
      rw [storeBytes_mapped fun i hi => ?_] at hstore
      · cases hstore
      · exact hwrite i (Nat.lt_of_lt_of_le hi (vidmapStore_length _))
    exact halt_staysOn h hends (fun _ => rfl) (Kept.of_phys k phys) (h.clearable env) hstep

/-- Only a tick gives the processor to another terminal. -/
lemma Runs.staysOn (h : k.Runs s cur) (hi : i.isTick = false) (hstep : k.step env i = some k') : k'.StaysOn s cur := by
  cases i with
  | execute e command =>
    simp only [step, h.1.curPcb e, Option.bind_some] at hstep
    exact execute_staysOn h hstep
  | halt e status =>
    simp only [step, h.1.curPcb e, Option.bind_some] at hstep
    exact halt_staysOn (i := .halt e status) h trivial (fun _ => rfl) (Kept.refl k) (h.clearable env) hstep
  | tick e => cases hi
  | vidmap e screenStart =>
    simp only [step, h.1.curPcb e, Option.bind_some] at hstep
    exact vidmap_staysOn h hstep
  | switchTerminals term =>
    cases hstep
    have hmove : Move env k s cur (.switchTerminals term) none _ s cur := .display term
    exact ⟨s, hmove.runs h, fun t _ => rfl⟩

/-! ### Turns -/

/-- There are no more than three terminals. -/
lemma third_terminal : ∀ c v u t : TermId, c ≠ v → u ≠ v → u ≠ c → t ≠ v → t ≠ c → t = u := by decide

/-- Every terminal has a topmost process. -/
lemma Shells.exists_top (h : k.Shells s cur) (t : TermId) : ∃ p, s.Top t p := by
  cases hstack : s.stack t with
  | nil =>
    have hbase := h.base t
    rw [hstack] at hbase
    cases hbase
  | cons p l => exact ⟨p, by rw [Stacks.Top, hstack, List.head?_cons]⟩

/-- Every terminal has one topmost process. -/
lemma Top.unique (h : s.Top t p) (h' : s.Top t q) : p = q := Option.some.inj (h.symm.trans h')

/-- The top `w` of a stack gets the processor: the top of the third terminal says after how many ticks at the latest. -/
lemma Runs.gets_turn {is : List Input} (h : k.Runs s cur) (hw : s.Top v w) (hy : s.Top u y) (hcv : cur ≠ v) (huv : u ≠ v)
    (huc : u ≠ cur) (hrun : (procSystem env).run k is = some k') (hticks : ahead w y ≤ ticksOf is) :
    ∃ js ks, is = js ++ ks ∧ ticksOf js ≤ ahead w y ∧
      ∃ k1, (procSystem env).run k js = some k1 ∧ k1.running = w := by
  -- over the inputs; a tick that passes over `w` leaves the running process as the top of the third terminal
  induction is generalizing k s cur u y with
  | nil =>
    have hpos : 0 < ahead w y := ahead_pos
    exact absurd hticks (Nat.not_le.mpr hpos)
  | cons i is ih =>
    obtain ⟨k2, hstep, hrest⟩ := System.run_cons.mp hrun
    cases hi : i.isTick with
    | false =>
      obtain ⟨s', h2, hsame⟩ := h.staysOn hi hstep
      have hw' : s'.Top v w := by rwa [Stacks.Top, hsame v hcv.symm]
      have hy' : s'.Top u y := by rwa [Stacks.Top, hsame u huc]
      have hcount : ticksOf (i :: is) = ticksOf is := List.countP_cons_of_neg (by rw [hi]; exact Bool.false_ne_true)
      rw [hcount] at hticks
      obtain ⟨js, ks, his, hle, k1, hjs, hk1⟩ := ih h2 hw' hy' hcv huv huc hrest hticks
      refine ⟨i :: js, ks, by rw [his, List.cons_append], ?_, k1, System.run_cons.mpr ⟨k2, hstep, hjs⟩, hk1⟩
      rwa [ticksOf, List.countP_cons_of_neg (by rw [hi]; exact Bool.false_ne_true)]
    | true =>
      have hcount : ∀ is, ticksOf (i :: is) = ticksOf is + 1 := fun is => List.countP_cons_of_pos hi
      obtain ⟨e, rfl⟩ : ∃ e, i = .tick e := by
        cases i with
        | tick e => exact ⟨e, rfl⟩
        | _ => cases hi
      obtain ⟨t, htop, h2, hnext⟩ := h.tick hstep
      by_cases hturn : k2.running = w
      · exact ⟨[.tick e], is, rfl, ahead_pos, k2, System.run_cons.mpr ⟨k2, hstep, rfl⟩, hturn⟩
      have hrw : k.running ≠ w := by
        intro heq
        exact hcv (Stacks.eq_of_mem (heq ▸ h.1.running.mem_stack) hw.mem_stack)
      have hlt := hnext.lt ((h.1.active w).mpr ⟨v, hw⟩) hrw hturn
      have htv : t ≠ v := by
        rintro rfl
        exact hturn (Top.unique htop hw)
      have htc : t ≠ cur := by
        rintro rfl
        rw [Top.unique htop h.1.running] at hlt
        exact Nat.lt_irrefl _ hlt
      have htu : t = u := third_terminal cur v u t hcv huv huc htv htc
      subst htu
      rw [Top.unique htop hy] at hlt
      rw [hcount] at hticks
      have hless : ahead w k.running ≤ ticksOf is := by omega
      obtain ⟨js, ks, his, hle, k1, hjs, hk1⟩ := ih h2 hw h.1.running htv hcv htc.symm hrest hless
      refine ⟨.tick e :: js, ks, by rw [his, List.cons_append], ?_, k1, System.run_cons.mpr ⟨k2, hstep, hjs⟩, hk1⟩
      rw [hcount]
      omega

/-- Every active process gets the processor within five ticks. -/
lemma Runs.turn_within {is : List Input} (h : k.Runs s cur) (hw : k.active w = true)
    (hrun : (procSystem env).run k is = some k') (hticks : 5 ≤ ticksOf is) :
    ∃ js ks, is = js ++ ks ∧ ticksOf js ≤ 5 ∧ ∃ k1, (procSystem env).run k js = some k1 ∧ k1.running = w := by
  obtain ⟨v, hv⟩ := (h.1.active w).mp hw
  by_cases hcv : cur = v
  · subst hcv
    exact ⟨[], is, rfl, Nat.zero_le 5, k, rfl, Top.unique h.1.running hv⟩
  · have hother : ∀ c v : TermId, ∃ u, u ≠ v ∧ u ≠ c := by decide
    obtain ⟨u, huv, huc⟩ := hother cur v
    obtain ⟨y, hy⟩ := h.1.exists_top u
    have hyw : y ≠ w := by
      rintro rfl
      exact huv (Stacks.eq_of_mem hy.mem_stack hv.mem_stack)
    have hnear : ahead w y ≤ 5 := Nat.le_of_lt_succ (ahead_lt hyw)
    obtain ⟨js, ks, his, hle, k1, hjs, hk1⟩ := h.gets_turn hv hy hcv huv huc hrun (hnear.trans hticks)
    exact ⟨js, ks, his, hle.trans hnear, k1, hjs, hk1⟩

/-- In a machine around the kernel, which passes on some of its inputs, an active process has its first turn within five
ticks. What holds until then is what the other processes keep. -/
lemma Runs.first_turn {σ ι : Type} {S : System σ ι} {J : σ → Prop} {m m' : σ} {es : List ι} (kernel : σ → Kernel)
    (f : ι → Option Input)
    (input : ∀ m e i m', f e = some i → S.step m e = some m' → (kernel m).step env i = some (kernel m'))
    (rest : ∀ m e m', f e = none → S.step m e = some m' → kernel m' = kernel m)
    (keep : ∀ m e m', (kernel m).running ≠ w → J m → S.step m e = some m' → J m')
    (h : (kernel m).Runs s cur) (hw : (kernel m).active w = true) (hJ : J m) (hrun : S.run m es = some m')
    (hticks : 5 ≤ ticksOf (es.filterMap f)) :
    ∃ js ks m1, es = js ++ ks ∧ ticksOf (js.filterMap f) ≤ 5 ∧ S.run m js = some m1 ∧ (kernel m1).running = w ∧ J m1 := by
  have hkernel : ∀ {m es m'}, S.run m es = some m' →
      (procSystem env).run (kernel m) (es.filterMap f) = some (kernel m') := by
    intro m es m' hrun
    obtain ⟨k, hk, hsame⟩ := @System.run_filterMap σ Kernel ι S m m' es Input (procSystem env) (fun m k => kernel m = k)
      (kernel m) f (fun m e i m' k hR hi hstep => ⟨kernel m', hR ▸ input m e i m' hi hstep, rfl⟩)
      (fun m e m' k hR hi hstep => (rest m e m' hi hstep).trans hR) rfl hrun
    rw [hk, hsame]
  obtain ⟨is, is', hsplit, hfive, k1, hk1, hturn⟩ := h.turn_within hw (hkernel hrun) hticks
  obtain ⟨es1, es2, rfl, rfl, rfl⟩ := List.filterMap_eq_append_iff.mp hsplit
  obtain ⟨m1, hm1, -⟩ := Option.bind_eq_some_iff.mp (System.run_append ▸ hrun)
  rw [hkernel hm1] at hk1
  cases hk1
  obtain ⟨js, ks, m2, rfl, hjs, hm2, hJ2⟩ := System.first_time (Q := fun m => (kernel m).running = w) keep hJ hm1 hturn
  refine ⟨js, ks ++ es2, m2, List.append_assoc .., ?_, hjs, hm2, hJ2⟩
  rw [List.filterMap_append, ticksOf, List.countP_append] at hfive
  exact (Nat.le_add_right ..).trans hfive

end Kernel

/-- As long as root shells can be started, no run gets stuck. -/
lemma Kernel.Runs.run_total {env : Env} {k : Kernel} {s : ProcStacks} {cur : TermId} (h : k.Runs s cur)
    (hshell : ShellLoads env) (is : List Input) : ∃ k', (procSystem env).run k is = some k' := by
  have htotal : ∀ k i, (∃ s cur, k.Runs s cur) → True →
      ∃ k', (procSystem env).step k i = some k' ∧ ∃ s cur, k'.Runs s cur := by
    rintro k i ⟨s, cur, h⟩ -
    obtain ⟨k', hstep⟩ := (Kernel.step_leads h i).total hshell
    obtain ⟨_, s', cur', _, h'⟩ := h.step_inv hstep
    exact ⟨k', hstep, s', cur', h'⟩
  have hguard : (procSystem env).Guarded (fun _ _ => True) k is := System.guarded_true
  obtain ⟨k', hrun, _⟩ := System.guarded_total htotal ⟨s, cur, h⟩ hguard
  exact ⟨k', hrun⟩

/-- In every run from three root shells on, a process that wants the processor gets it after five ticks at the latest,
whatever the programs of the other terminals execute and halt meanwhile. -/
theorem no_starvation (env : Env) (hshell : ShellLoads env) (k0 k : Kernel) (hk0 : RootShells k0) (is0 : List Input)
    (hrun0 : (procSystem env).run k0 is0 = some k) (w : Pid) (hw : k.active w = true) (is : List Input)
    (hticks : 5 ≤ ticksOf is) :
    ∃ js ks, is = js ++ ks ∧ ticksOf js ≤ 5 ∧ ∃ k1, (procSystem env).run k js = some k1 ∧ k1.running = w := by
  obtain ⟨s, cur, h⟩ := hk0.runs_after hrun0
  obtain ⟨k', hrun⟩ := h.run_total hshell is
  exact h.turn_within hw hrun hticks

/-- The third shell, while the first one executes a program that halts again. -/
theorem no_starvation_third : ∃ js ks,
    [.execute someEntry (some shellEnv.shell), .tick someEntry, .tick someEntry, .tick someEntry, .halt someEntry 0,
      .tick someEntry, .tick someEntry] = js ++ ks ∧ ticksOf js ≤ 5 ∧
    ∃ k1, (procSystem shellEnv).run threeShells js = some k1 ∧ k1.running = 2 :=
  no_starvation shellEnv shellEnv_loads threeShells threeShells threeShells_root [] rfl 2 rfl _ (by decide)

end Boss
