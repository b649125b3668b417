import Boss.Process.Tree

/-!
# Where a resumed process comes from

`PCB.esp` and `PCB.ebp` are written by `sched`, for a process that loses the processor, and by `execute`, for
one that starts another. They are read by `sched` and by `halt`. The log has every save and every load, so it
can be said what a load has to find: `sched` the last save of the process, made by `sched`, and `halt` the
save of the `execute` that started the halting process (`Justified`).

The stacks tell the two uses apart. The top of a stack without the processor was stopped by `sched`, and
every process below a top by the `execute` that started its neighbour; no save of one kind ever hits a
process of the other (`Contexts`).

A process gets the processor only with such a load, or when it is started (`Resumes`).
-/

namespace Boss
open Lib Lib.Paging

/-- The parent of the last program started as `p`, and the stack pointer saved for it then. -/
def lastStart (p : Pid) : List ContextEvent → Option (Pid × Regs)
  | [] => none
  | .executeSaved q c r :: log => if c = p then some (q, r) else lastStart p log
  | _ :: log => lastStart p log

/-- The load `e` finds what it should, after the events `log`. -/
def Justified (e : ContextEvent) (log : List ContextEvent) : Prop :=
  match e with
  | .schedLoaded p r => lastSave p log = some (.schedSaved p r)
  | .haltLoaded p q r _ => lastStart p log = some (q, r)
  | _ => True

/-- All loads since `old` are justified. -/
def JustifiedSince (old log : List ContextEvent) : Prop :=
  ∃ new, log = new ++ old ∧ ∀ a e b, new = a ++ e :: b → Justified e (b ++ old)

/-- With nothing new there is no load. -/
lemma JustifiedSince.refl (log : List ContextEvent) : JustifiedSince log log :=
  ⟨[], rfl, fun a e b h => by simp at h⟩

/-- One more event. -/
lemma JustifiedSince.cons {old log : List ContextEvent} {e : ContextEvent} (h : JustifiedSince old log)
    (he : Justified e log) : JustifiedSince old (e :: log) := by
  obtain ⟨new, rfl, hnew⟩ := h
  refine ⟨e :: new, rfl, fun a e' b hab => ?_⟩
  cases a with
  | nil =>
    cases hab
    exact he
  | cons x a =>
    cases hab
    exact hnew a e' b rfl

namespace Kernel

/-- The saved stack pointers are what the next loads need. -/
structure Contexts (k : Kernel) (s : ProcStacks) (cur : TermId) : Prop where
  ready : ∀ t p, t ≠ cur → s.Top t p → lastSave p k.log = some (.schedSaved p (k.saved p))
  waits : ∀ t, (s.stack t).IsChain fun p q => lastStart p k.log = some (q, k.saved q)

variable {env : Env} {k k' : Kernel} {s s' : ProcStacks} {cur cur' t : TermId} {p q : Pid}
  {i : Input} {lost : Option Pid} {old : List ContextEvent}

/-- Below the tops nothing runs. -/
lemma Shells.tail_ne (h : k.Shells s cur) (hp : p ∈ (s.stack t).tail) : p ≠ k.running := by
  by_cases ht : t = cur
  · subst ht
    obtain ⟨rest, hstack⟩ := List.head?_eq_some_iff.mp h.running
    have hnodup := s.nodup t
    rw [hstack, List.nodup_cons] at hnodup
    rw [hstack, List.tail_cons] at hp
    rintro rfl
    exact hnodup.1 hp
  · exact h.ne_running ht (List.mem_of_mem_tail hp)

/-- The saved stack pointer is in the PCB. -/
lemma saved_congr (h : k'.pcb p = k.pcb p) : k'.saved p = k.saved p := by
  unfold saved
  rw [h]

/-- What happens to unused numbers saves nothing. -/
lemma Kept.saved (hk : Kept k k' lost) (h : k.Shells s cur) (hp : s.Mem p) : k'.saved p = k.saved p :=
  saved_congr (hk.pcb p (h.used p hp))

/-- The context of the running process is the only one that nothing will be loaded from. -/
lemma Contexts.update (hc : k.Contexts s cur) (h : k.Shells s cur)
    (hsave : ∀ p, p ≠ k.running → lastSave p k'.log = lastSave p k.log)
    (hstart : ∀ p, s.Mem p → lastStart p k'.log = lastStart p k.log)
    (hsaved : ∀ p, s.Mem p → p ≠ k.running → k'.saved p = k.saved p) : k'.Contexts s cur where
  ready t p ht hp := by
    have hpr := h.ne_running ht hp.mem_stack
    rw [hsave p hpr, hsaved p hp.mem hpr, hc.ready t p ht hp]
  waits t := by
    refine (hc.waits t).imp_of_mem_tail_imp fun a b ha hb hab => ?_
    rw [hstart a ⟨t, ha⟩, hab, hsaved b ⟨t, List.mem_of_mem_tail hb⟩ (h.tail_ne hb)]

/-- A program is started on top of the one that waits for it. -/
lemma Contexts.push {pid : Pid} {fresh : ¬ s.Mem pid} (hc : k.Contexts s cur) (hrun : s.Top cur q)
    (hpid : lastStart pid k.log = some (q, k.saved q)) : k.Contexts (s.push cur pid fresh) cur where
  ready t p ht hp := by
    rw [Stacks.Top, Stacks.stack_push_of_ne ht] at hp
    exact hc.ready t p ht hp
  waits t := by
    by_cases ht : t = cur
    · subst ht
      obtain ⟨rest, hstack⟩ := List.head?_eq_some_iff.mp hrun
      have hwaits := hc.waits t
      rw [hstack] at hwaits
      rw [Stacks.stack_push_self, hstack, List.isChain_cons_cons]
      exact ⟨hpid, hwaits⟩
    · rw [Stacks.stack_push_of_ne ht]
      exact hc.waits t

/-- The top of a stack has ended. -/
lemma Contexts.pop (hc : k.Contexts s cur) : k.Contexts (s.pop cur) cur where
  ready t p ht hp := by
    rw [Stacks.Top, Stacks.stack_pop_of_ne ht] at hp
    exact hc.ready t p ht hp
  waits t := by
    by_cases ht : t = cur
    · subst ht
      rw [Stacks.stack_pop_self]
      exact (hc.waits t).tail
    · rw [Stacks.stack_pop_of_ne ht]
      exact hc.waits t

/-- A move finds what it loads, and leaves what the next will load. -/
theorem Move.contexts (h : k.Runs s cur) (hc : k.Contexts s cur) (hold : JustifiedSince old k.log)
    (hm : Move env k s cur i lost k' s' cur') : k'.Contexts s' cur' ∧ JustifiedSince old k'.log := by
  have hs := h.1
  cases hm with
  | stay kept cr3 =>
    rw [kept.log]
    refine ⟨hc.update hs ?_ ?_ fun p hp _ => kept.saved hs hp, hold⟩
    · exact fun p _ => by rw [kept.log]
    · exact fun p _ => by rw [kept.log]
  | display term => exact ⟨hc.update hs (fun _ _ => rfl) (fun _ _ => rfl) fun _ _ _ => rfl, hold⟩
  | map mapped =>
    rw [mapped.log]
    refine ⟨hc.update hs ?_ ?_ fun p _ _ => saved_congr (by rw [mapped.pcb]), hold.cons trivial⟩
    · exact fun p _ => by rw [mapped.log]; rfl
    · exact fun p _ => by rw [mapped.log]; rfl
  | @start e command k' pid r starts free fresh started onStack =>
    have hne : ∀ p, s.Mem p → p ≠ pid := fun p hp e => fresh (e ▸ hp)
    have hupdate : k'.Contexts s cur := by
      refine hc.update hs ?_ ?_ fun p hp hpr => saved_congr (started.others p (hne p hp) hpr)
      · exact fun p hp => by rw [started.log, lastSave, if_neg (Ne.symm hp)]
      · exact fun p hp => by rw [started.log, lastStart, if_neg (Ne.symm (hne p hp))]
    refine ⟨hupdate.push hs.running ?_, ?_⟩
    · rw [started.log, lastStart, if_pos rfl, saved, started.parent (hne _ hs.running.mem)]
    · rw [started.log]
      exact hold.cons trivial
  | @exit i k0 k1 k' lost q rest status ends fits kept stack released cr3 esp0 switched =>
    have hlog : k1.log = k.log := released.log.trans kept.log
    have hsaved : ∀ p, s.Mem p → p ≠ k.running → k1.saved p = k.saved p := fun p hp hpr =>
      (saved_congr (released.others p hpr)).trans (kept.saved hs hp)
    have hq : q ∈ (s.stack cur).tail := by simp [stack]
    have hwaits := hc.waits cur
    rw [stack] at hwaits
    refine ⟨Contexts.pop (hc.update hs ?_ ?_ fun p hp hpr => ?_), ?_⟩
    · exact fun p _ => by rw [switched.log, hlog]; rfl
    · exact fun p _ => by rw [switched.log, hlog]; rfl
    · exact (saved_congr (by rw [switched.pcb])).trans (hsaved p hp hpr)
    · rw [switched.log, hlog]
      refine hold.cons ?_
      rw [Justified, hsaved q ⟨cur, List.mem_of_mem_tail hq⟩ (hs.tail_ne hq)]
      exact (List.isChain_cons_cons.mp hwaits).1
  | @restart i k0 k1 k' lost r ends fits kept stack released started =>
    have hlog : k1.log = k.log := released.log.trans kept.log
    have hsaved : ∀ p, s.Mem p → p ≠ k.running → k'.saved p = k.saved p := fun p hp hpr =>
      (saved_congr ((started.others p hpr hpr).trans (released.others p hpr))).trans (kept.saved hs hp)
    refine ⟨⟨?_, ?_⟩, ?_⟩
    · intro t p ht hp
      have hpr := hs.ne_running ht hp.mem_stack
      rw [started.log, lastSave, if_neg (Ne.symm hpr), hlog, hsaved p hp.mem hpr, hc.ready t p ht hp]
    · intro t
      by_cases ht : t = cur
      · subst ht
        rw [stack]
        exact List.isChain_singleton _
      · refine (hc.waits t).imp_of_mem_imp fun a b ha hb hab => ?_
        rw [started.log, lastStart, if_neg (Ne.symm (hs.ne_running ht ha)), hlog, hab,
          hsaved b ⟨t, hb⟩ (hs.ne_running ht hb)]
    · rw [started.log, hlog]
      exact hold.cons trivial
  | @tick e k' p t r onStack top cr3 esp0 switched =>
    have hsaved : ∀ q, q ≠ k.running → (k.saveContext k.running r).saved q = k.saved q :=
      fun q hq => saved_congr (Function.update_of_ne hq ..)
    have hself : (k.saveContext k.running r).saved k.running = r := by
      rw [saved, saveContext]
      simp only [setPcb, Function.update_self]
    -- after the save every top is as `sched` left it
    have htops : ∀ u q, s.Top u q → lastSave q (k.saveContext k.running r).log =
        some (.schedSaved q ((k.saveContext k.running r).saved q)) := by
      intro u q hq
      by_cases hqr : q = k.running
      · rw [hqr, hself]
        exact if_pos rfl
      · have hu : u ≠ cur := by
          rintro rfl
          exact hqr (Option.some.inj (hq.symm.trans hs.running))
        rw [hsaved q hqr, ← hc.ready u q hu hq]
        exact if_neg (Ne.symm hqr)
    have hpcb : ∀ q, k'.saved q = (k.saveContext k.running r).saved q := fun q =>
      saved_congr (by rw [switched.pcb])
    refine ⟨⟨?_, ?_⟩, ?_⟩
    · intro u q _ hq
      rw [switched.log, hpcb]
      exact htops u q hq
    · intro u
      refine (hc.waits u).imp_of_mem_tail_imp fun a b ha hb hab => ?_
      rw [switched.log, hpcb, hsaved b (hs.tail_ne hb)]
      exact hab
    · rw [switched.log]
      exact JustifiedSince.cons (JustifiedSince.cons hold trivial) (htops _ p top)

/-- The last event says how the process got the processor that has it after the step: by a load of `sched` after every
tick, by a load of `halt` after the halt of a program that has a parent, and after any other input that changes the
process by its start or by the load of a `halt` that a page fault has caused. -/
def Resumes (k k' : Kernel) : Input → Prop
  | .tick _ => ∃ r, k'.log.head? = some (.schedLoaded k'.running r)
  | .halt _ status => ∀ q, (k.pcb k.running).parent = some q → q ≠ k.running →
    k'.running = q ∧ ∃ r, k'.log.head? = some (.haltLoaded k.running q r status)
  | _ => k'.running ≠ k.running → (∃ r, k'.log.head? = some (.executeSaved k.running k'.running r)) ∨
    ∃ r status, k'.log.head? = some (.haltLoaded k.running k'.running r status)

/-- A halt of a process that has another one as its parent resumes the parent. -/
lemma Runs.halt_resumes {e : Entry} {status : UInt8} (h : k.Runs s cur) (hparent : (k.pcb k.running).parent = some q)
    (hq : q ≠ k.running) (hstep : k.step env (.halt e status) = some k') :
    k'.running = q ∧ ∃ r, k'.log.head? = some (.haltLoaded k.running q r status) := by
  simp only [step, h.1.curPcb e, Option.bind_some] at hstep
  obtain ⟨rest, hstack⟩ := List.head?_eq_some_iff.mp h.1.running
  cases rest with
  | nil =>
    have hroot := h.1.roots cur
    rw [← h.1.running_root hstack, hparent] at hroot
    exact absurd (Option.some.inj hroot) hq
  | cons q' rest =>
    have hchain := h.1.chain cur
    rw [hstack] at hchain
    have hwaits := (List.isChain_cons_cons.mp hchain).1.parent
    obtain rfl : q' = q := Option.some.inj (hwaits.symm.trans hparent)
    obtain ⟨k1, k2, hhalt, -, -, -, hsw⟩ :=
      halt_pops e.stale (k.entryRegs e) status h (Kept.refl k) (h.clearable env) hstack
    cases hhalt.symm.trans hstep
    rw [hsw.log]
    exact ⟨hsw.running, _, rfl⟩

/-- Any other step, by what it can have done. -/
lemma Move.resumes (hm : Move env k s cur i lost k' s' cur') (hi : ∀ e, i ≠ .tick e) (hne : k'.running ≠ k.running) :
    (∃ r, k'.log.head? = some (.executeSaved k.running k'.running r)) ∨
      ∃ r status, k'.log.head? = some (.haltLoaded k.running k'.running r status) := by
  cases hm with
  | stay kept cr3 => exact absurd kept.running hne
  | display term => exact absurd rfl hne
  | map mapped => exact absurd mapped.running hne
  | start starts free fresh started onStack =>
    rw [started.log, started.running]
    exact .inl ⟨_, rfl⟩
  | exit ends fits kept stack released cr3 esp0 switched =>
    rw [switched.log, switched.running]
    exact .inr ⟨_, _, rfl⟩
  | restart ends fits kept stack released started => exact absurd started.running hne
  | @tick e => exact absurd rfl (hi e)

/-- Every step logs how the process got the processor that has it. -/
lemma Runs.resumes (h : k.Runs s cur) (hstep : k.step env i = some k') : k.Resumes k' i := by
  obtain ⟨lost, s', cur', hmove, -⟩ := h.step_inv hstep
  cases i with
  | tick e =>
    obtain ⟨p, t, k1, htick, -, -, -, -, hswitched⟩ := h.tick_eq env e
    cases htick.symm.trans hstep
    rw [Resumes, hswitched.log, hswitched.running]
    exact ⟨_, rfl⟩
  | halt e status => exact fun q hparent hq => h.halt_resumes hparent hq hstep
  | execute e command => exact hmove.resumes nofun
  | vidmap e screenStart => exact hmove.resumes nofun
  | switchTerminals term => exact hmove.resumes nofun

end Kernel

/-- Three root shells have their contexts saved by `sched`. -/
lemma RootShells.contexts {k : Kernel} {cur : TermId} (h : RootShells k) (hruns : k.Runs rootStacks cur) :
    k.Contexts rootStacks cur := by
  refine ⟨fun t p ht hp => ?_, fun t => List.isChain_singleton _⟩
  have hrun : k.running = root cur := rootStacks_top.mp hruns.1.running
  rw [rootStacks_top.mp hp]
  refine (h.saved t fun e => ht ?_).2
  exact root_injective (e.trans hrun)

/-- In every run from three root shells, what `sched` and `halt` load is what was saved for it; and every process that gets
the processor from them gets it with such a load. -/
theorem loads_are_justified (env : Env) (k : Kernel) (hk : RootShells k) (is : List Input) :
    (procSystem env).Always (fun k' => JustifiedSince k.log k'.log) k is ∧
      ∀ k1 i k2, (procSystem env).run k is = some k1 → k1.step env i = some k2 → k1.Resumes k2 i := by
  obtain ⟨cur, hruns⟩ := hk.runs
  refine ⟨?_, fun k1 i k2 hrun hstep => ?_⟩
  · refine System.always_of_invariant (I := fun k' => ∃ s cur, k'.Runs s cur ∧ k'.Contexts s cur ∧
      JustifiedSince k.log k'.log) ?_ ?_ ⟨rootStacks, cur, hruns, hk.contexts hruns, .refl _⟩
    · rintro k1 i k2 ⟨s, cur, h, hc, hold⟩ hstep
      obtain ⟨lost, s', cur', hmove, h'⟩ := h.step_inv hstep
      exact ⟨s', cur', h', hmove.contexts h hc hold⟩
    · rintro k1 ⟨s, cur, _, _, hold⟩
      exact hold
  · obtain ⟨s, cur, h⟩ := hk.runs_after hrun
    exact h.resumes hstep

/-- A program is started, the other terminals have their turns, and it halts. -/
def haltInputs : List Input :=
  [.execute someEntry (some shellEnv.shell), .tick someEntry, .tick someEntry, .tick someEntry, .halt someEntry 0]

/-- A program that is started, and its end. -/
theorem loads_are_justified_halt :
    (procSystem shellEnv).Always (fun k' => JustifiedSince threeShells.log k'.log) threeShells haltInputs ∧
      ∀ k1 i k2, (procSystem shellEnv).run threeShells haltInputs = some k1 → k1.step shellEnv i = some k2 →
        k1.Resumes k2 i :=
  loads_are_justified shellEnv threeShells threeShells_root haltInputs

end Boss
