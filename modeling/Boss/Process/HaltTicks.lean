import Boss.Process.HaltSteps
import Boss.Process.Tree

/-!
# Timer ticks inside `halt`

`halt` gives up `proc_id_used` before `active`, so every run of it passes through a state with an active
process that is not in use. And `sched` undoes two of its statements: it marks the process it interrupts as
active, and when the process is resumed it works in its own page directory again and not in that of the
parent. `halt_with_ticks` says which ticks do harm: none before `halt` has loaded the page directory of the
parent, every one after it has given up `active`, and one in between unless another tick, taken on the
parent's stack just before the jump, loads the parent's page directory once more.
-/

namespace Boss
open Lib Lib.Paging

namespace Stmt

/-- The page directory of the parent has been loaded, and `active` is still set. -/
def mid : Stmt → Bool
  | .close _ | .clearUsed | .clearActive => true
  | _ => false

/-- `active` has been given up, and the stack is still that of the process. -/
def late : Stmt → Bool
  | .setActive | .setEsp0 | .setSs0 | .restart | .loadStack => true
  | _ => false

/-- `proc_id_used` has been given up. -/
def freed : Stmt → Bool
  | .clearActive => true
  | st => st.late

/-- `tss.esp0` has been set for the parent. -/
def tss : Stmt → Bool
  | .setSs0 | .restart | .loadStack => true
  | _ => false

/-- The stack is that of the parent. -/
def last : Stmt → Bool
  | .jump => true
  | _ => false

/-- What changes from one statement to the next. -/
lemma after_kinds {st : Stmt} (hload : st ≠ .loadStack) (hjump : st ≠ .jump) :
    st.after ≠ .jump ∧ st.after.late = (st.late || decide (st = .clearActive)) ∧
      st.after.freed = (st.freed || decide (st = .clearUsed)) ∧
      (st.after.mid || st.after.late) = (st.mid || st.late || decide (st = .loadDirectory)) ∧
      st.after.tss = (st.tss || decide (st = .setEsp0)) := by
  cases st with
  | close i =>
    simp only [after]
    split <;> simp [late, freed, mid, tss]
  | loadStack => exact absurd rfl hload
  | jump => exact absurd rfl hjump
  | _ => decide

end Stmt

/-- The process goes on with a statement of the given kind. -/
def Point.before (kind : Stmt → Bool) : Point → Bool
  | .halting st => kind st
  | _ => false

/-- A tick was taken before a statement of the given kind. -/
def HaltRun.took (h : HaltRun) (kind : Stmt → Bool) : Bool := h.ticks.any (Point.before kind)

namespace HaltRun
variable {env : Env} {status : UInt8} {s : ProcStacks} {p q x : Pid} {h h' : HaltRun} {e : Entry}

/-- How far the `halt` of `p` has come, and what the ticks so far have done to it. -/
inductive Stage (p q : Pid) (h : HaltRun) : Prop
  | halts (st : Stmt) (stmt : st ≠ .jump) (point : h.point = .halting st) (running : h.kernel.running = p)
    (others : ∀ x, x ≠ p → h.saved x = .elsewhere) (calm : h.took Stmt.late = false)
    (once : h.took Stmt.last = false)
    (early : (st.mid || st.late) = false → h.took Stmt.mid = false)
    (used : st.freed = true → h.kernel.procIdUsed p = false) (active : h.kernel.active p = !st.late)
    (cr3 : (st.mid || st.late) = true → h.kernel.cr3 = some (if h.took Stmt.mid then p else q))
    (esp0 : st.tss = true → h.kernel.esp0 = stackTop q)
  | waits (st : Stmt) (stmt : st ≠ .jump) (kind : st.late = false) (saved : h.saved p = .halting st)
    (point : h.point = .elsewhere) (running : h.kernel.running ≠ p)
    (others : ∀ x, x ≠ p → h.saved x = .elsewhere) (calm : h.took Stmt.late = false)
    (once : h.took Stmt.last = false)
    (mid : h.took Stmt.mid = st.mid) (used : st.freed = true → h.kernel.procIdUsed p = false)
    (active : h.kernel.active p = true)
  | jumps (point : h.point = .halting .jump ∨ h.point = .returned) (running : h.kernel.running = q)
    (others : ∀ x, x ≠ p → x ≠ q → h.saved x = .elsewhere) (calm : h.took Stmt.late = false)
    (used : h.kernel.procIdUsed p = false) (active : h.kernel.active p = false)
    (cr3 : h.kernel.cr3 = some (if h.took Stmt.mid && !h.took Stmt.last then p else q))
    (esp0 : h.kernel.esp0 = stackTop q)
  | yields (point : h.point = .elsewhere) (running : h.kernel.running ≠ q) (away : h.kernel.running ≠ p)
    (saved : h.saved q = .halting .jump)
    (others : ∀ x, x ≠ p → x ≠ q → h.saved x = .elsewhere) (calm : h.took Stmt.late = false)
    (used : h.kernel.procIdUsed p = false) (active : h.kernel.active p = false)
    (again : h.took Stmt.last = true)
  | late (took : h.took Stmt.late = true) (used : h.kernel.procIdUsed p = false) (active : h.kernel.active p = true)
    (onStack : OnStack p (h.kernel.pcb p).esp) (saved : ∃ st, st.late = true ∧ h.saved p = .halting st)
    (others : ∀ x, x ≠ p → h.saved x = .elsewhere ∨ x = q ∧ h.saved x = .halting .jump)
    (here : h.kernel.running = p → ∃ st, st.late = true ∧ h.point = .halting st)
    (there : h.kernel.running ≠ p → h.point = .elsewhere ∨
      h.kernel.running = q ∧ (h.point = .halting .jump ∨ h.point = .returned))

/-- A statement of `halt`. -/
lemma step_next {st : Stmt} (hpoint : h.point = .halting st)
    (hstep : h.step env status (.next e) = some h') :
    ∃ k' pt, h.kernel.haltStmt env e status st = some (k', pt) ∧ h' = { h with kernel := k', point := pt } := by
  simp only [step, hpoint, Option.map_eq_some_iff] at hstep
  obtain ⟨⟨k', pt⟩, hk, rfl⟩ := hstep
  exact ⟨k', pt, hk, rfl⟩

/-- Only a process inside `halt` takes a statement of it. -/
lemma step_next_point (hstep : h.step env status (.next e) = some h') : ∃ st, h.point = .halting st := by
  cases hpoint : h.point with
  | halting st => exact ⟨st, rfl⟩
  | _ =>
    simp only [step, hpoint] at hstep
    cases hstep

/-- A statement of `halt` leads to the next stage. -/
lemma Stage.next (hk : h.kernel.Halts s p q) (hq : s.Mem q) (hne : q ≠ p) (stage : Stage p q h)
    (hstep : h.step env status (.next e) = some h') : h'.kernel.Halts s p q ∧ Stage p q h' := by
  obtain ⟨st, hpoint⟩ := step_next_point hstep
  obtain ⟨k', pt, hstmt, rfl⟩ := step_next hpoint hstep
  cases stage with
  | halts st' stmt point running others calm once early used active cr3 esp0 =>
    cases point.symm.trans hpoint
    by_cases hload : st = .loadStack
    · subst hload
      have hready : h.kernel.active p = true → OnStack p (h.kernel.pcb p).esp := by
        rw [active]
        intro hc
        cases hc
      obtain ⟨rfl, hadv, hk'⟩ := hk.advanced running hq hne stmt (fun _ => hready) hstmt
      refine ⟨hk', .jumps (Or.inl rfl) hadv.running (fun x hx _ => others x hx) calm
        (hadv.used.trans (used rfl)) (hadv.active.trans active) ?_ (hadv.esp0.trans (esp0 rfl))⟩
      refine hadv.cr3.trans ((cr3 rfl).trans ?_)
      change _ = some (if h.took Stmt.mid && !h.took Stmt.last then p else q)
      rw [once, Bool.not_false, Bool.and_true]
    · obtain ⟨rfl, hadv, hk'⟩ := hk.advanced running hq hne stmt (fun hc => absurd hc hload) hstmt
      obtain ⟨hjump, hlate, hfreed, hloaded, htss⟩ := Stmt.after_kinds hload stmt
      refine ⟨hk', .halts st.after hjump rfl (hadv.running.trans (if_neg hload)) others calm once ?_ ?_ ?_ ?_
        ?_⟩
      · intro hearly
        rw [hloaded, Bool.or_eq_false_iff] at hearly
        exact early hearly.1
      · intro hf
        rw [hfreed, Bool.or_eq_true, decide_eq_true_eq] at hf
        rw [hadv.used]
        split
        · rfl
        · next hc => exact used (hf.resolve_right hc)
      · rw [hlate, hadv.active]
        split
        · next hc => simp [hc]
        · next hc => simp [hc, active]
      · intro hl
        rw [hloaded, Bool.or_eq_true, decide_eq_true_eq] at hl
        rw [hadv.cr3]
        split
        · next hc =>
          have hmid : h.took Stmt.mid = false := early (by rw [hc]; rfl)
          exact congrArg some (if_neg (ne_true_of_eq_false hmid)).symm
        · next hc => exact cr3 (hl.resolve_right hc)
      · intro ht
        rw [htss, Bool.or_eq_true, decide_eq_true_eq] at ht
        rw [hadv.esp0]
        split
        · rfl
        · next hc => exact esp0 (ht.resolve_right hc)
  | waits st' stmt kind saved point running others calm once mid used active =>
    rw [hpoint] at point
    cases point
  | jumps point running others calm used active cr3 esp0 =>
    rw [hpoint] at point
    rcases point with point | point
    · cases point
      cases hstmt
      exact ⟨hk, .jumps (Or.inr rfl) running others calm used active cr3 esp0⟩
    · cases point
  | yields point running away saved others calm used active again =>
    rw [hpoint] at point
    cases point
  | late took used active onStack saved others here there =>
    by_cases hrun : h.kernel.running = p
    · obtain ⟨st', hlate, point⟩ := here hrun
      cases point.symm.trans hpoint
      have hjump : st ≠ .jump := by
        rintro rfl
        cases hlate
      obtain ⟨rfl, hadv, hk'⟩ := hk.advanced hrun hq hne hjump (fun _ _ => onStack) hstmt
      have hactive : k'.active p = true := by
        rw [hadv.active, if_neg, active]
        rintro rfl
        cases hlate
      have hused : k'.procIdUsed p = false := by
        rw [hadv.used, used, ite_self]
      refine ⟨hk', .late took hused hactive (by rw [hadv.esp]; exact onStack) saved others ?_ ?_⟩
      · intro hrun'
        have hload : st ≠ .loadStack := by
          rintro rfl
          exact hne (hadv.running.symm.trans hrun')
        exact ⟨st.after, by rw [(Stmt.after_kinds hload hjump).2.1, hlate, Bool.true_or], rfl⟩
      · intro hrun'
        have hload : st = .loadStack := by
          by_contra hc
          exact hrun' (hadv.running.trans (if_neg hc))
        subst hload
        exact Or.inr ⟨hadv.running, Or.inl rfl⟩
    · rcases there hrun with point | ⟨hrunq, point | point⟩
      · rw [hpoint] at point
        cases point
      · cases point.symm.trans hpoint
        cases hstmt
        exact ⟨hk, .late took used active onStack saved others (fun hc => absurd hc hrun)
          fun _ => Or.inr ⟨hrunq, Or.inr rfl⟩⟩
      · rw [hpoint] at point
        cases point

/-- A tick that gives the processor to `x`. -/
structure Tick (h h' : HaltRun) (x : Pid) : Prop where
  kernel : Kernel.Ticked h.kernel h'.kernel x
  saved : h'.saved = Function.update h.saved h.kernel.running h.point
  point : h'.point = h'.saved x
  ticks : h'.ticks = h.point :: h.ticks

/-- What was done before the tick. -/
lemma Tick.took (ht : Tick h h' x) (kind : Stmt → Bool) :
    h'.took kind = (h.point.before kind || h.took kind) := by
  rw [HaltRun.took, ht.ticks]
  rfl

/-- Where the process was interrupted. -/
lemma Tick.saved_self (ht : Tick h h' x) : h'.saved h.kernel.running = h.point := by
  rw [ht.saved, Function.update_self]

/-- The places of other processes. -/
lemma Tick.saved_other (ht : Tick h h' x) {y : Pid} (hy : y ≠ h.kernel.running) : h'.saved y = h.saved y := by
  rw [ht.saved, Function.update_of_ne hy]

/-- The process that took the tick is active, and the others are as active as before. -/
lemma Tick.active_self (ht : Tick h h' x) : h'.kernel.active h.kernel.running = true := by
  rw [ht.kernel.active, Function.update_self]

/-- The activity of other processes. -/
lemma Tick.active_other (ht : Tick h h' x) {y : Pid} (hy : y ≠ h.kernel.running) :
    h'.kernel.active y = h.kernel.active y := by
  rw [ht.kernel.active, Function.update_of_ne hy]

/-- What a tick does in the middle of `halt`. -/
lemma step_tick (hk : h.kernel.Halts s p q) (hstep : h.step env status (.tick e) = some h') :
    h.point ≠ .returned ∧ ∃ x, Tick h h' x := by
  simp only [step, Option.ite_none_left_eq_some, Option.map_eq_some_iff] at hstep
  obtain ⟨hret, k', hsched, rfl⟩ := hstep
  obtain ⟨x, ht⟩ := hk.ticked hsched
  exact ⟨hret, x, ht, rfl, by rw [ht.running], rfl⟩

/-- A tick that another process takes leaves the places of the others as they are. -/
lemma Tick.saved_elsewhere (ht : Tick h h' x) (point : h.point = .elsewhere) {P : Pid → Prop}
    (others : ∀ y, P y → h.saved y = .elsewhere) : ∀ y, P y → h'.saved y = .elsewhere := by
  intro y hy
  by_cases hyr : y = h.kernel.running
  · rw [hyr, ht.saved_self, point]
  · rw [ht.saved_other hyr, others y hy]

/-- The processor is not given to an inactive process. -/
lemma Tick.next_ne (ht : Tick h h' x) (active : h'.kernel.active p = false) : x ≠ p := by
  rintro rfl
  rw [ht.kernel.next] at active
  cases active

/-- A process that is not late in its `halt` goes on with it, or waits for its turn. -/
lemma Tick.stage_halting (ht : Tick h h' x) {st : Stmt} (stmt : st ≠ .jump) (kind : st.late = false)
    (saved : h'.saved p = .halting st) (others : ∀ y, y ≠ p → h'.saved y = .elsewhere)
    (calm : h'.took Stmt.late = false) (once : h'.took Stmt.last = false) (mid : h'.took Stmt.mid = st.mid)
    (used : st.freed = true → h'.kernel.procIdUsed p = false) (active : h'.kernel.active p = true) :
    Stage p q h' := by
  by_cases hx : x = p
  · subst hx
    refine .halts st stmt (ht.point.trans saved) ht.kernel.running others calm once ?_ used
      (by rw [active, kind]; rfl) ?_ ?_
    · intro hc
      exact mid.trans (Bool.or_eq_false_iff.mp hc).1
    · intro hc
      rw [kind, Bool.or_false] at hc
      rw [ht.kernel.cr3, mid, if_pos hc]
    · intro hc
      exact absurd kind (by cases st <;> first | decide | cases hc)
  · exact .waits st stmt kind saved (ht.point.trans (others x hx)) (by rw [ht.kernel.running]; exact hx) others calm
      once mid used active

/-- The parent goes on with the jump, in its own page directory, or waits for its turn. -/
lemma Tick.stage_jumping (ht : Tick h h' x) (saved : h'.saved q = .halting .jump)
    (others : ∀ y, y ≠ p → y ≠ q → h'.saved y = .elsewhere) (calm : h'.took Stmt.late = false)
    (used : h'.kernel.procIdUsed p = false) (active : h'.kernel.active p = false) (again : h'.took Stmt.last = true) :
    Stage p q h' := by
  have hxp := ht.next_ne active
  by_cases hx : x = q
  · subst hx
    refine .jumps (Or.inl (ht.point.trans saved)) ht.kernel.running others calm used active ?_ ht.kernel.esp0
    rw [ht.kernel.cr3, again, Bool.not_true, Bool.and_false, if_neg Bool.false_ne_true]
  · exact .yields (ht.point.trans (others x hxp hx)) (by rw [ht.kernel.running]; exact hx)
      (by rw [ht.kernel.running]; exact hxp) saved others calm used active again

/-- A tick leads to the next stage. -/
lemma Stage.tick (hne : q ≠ p) (stage : Stage p q h) (hret : h.point ≠ .returned) (ht : Tick h h' x) :
    Stage p q h' := by
  have htook := ht.took
  have hused : h'.kernel.procIdUsed = h.kernel.procIdUsed := ht.kernel.used
  cases stage with
  | halts st stmt point running others calm once early used active cr3 esp0 =>
    subst running
    rw [point] at htook
    have hself := ht.saved_self.trans point
    have hothers : ∀ y, y ≠ h.kernel.running → h'.saved y = .elsewhere :=
      fun y hy => (ht.saved_other hy).trans (others y hy)
    cases hlate : st.late with
    | true =>
      -- `sched` marks the process active once more, and nothing will take that back
      have hfreed : st.freed = true := by
        cases st <;> first | rfl | cases hlate
      refine .late ?_ (by rw [hused, used hfreed]) ht.active_self (ht.kernel.onStack fun hc => absurd rfl hc)
        ⟨st, hlate, hself⟩ (fun y hy => Or.inl (hothers y hy)) (fun hx => ⟨st, hlate, ?_⟩) fun hx => Or.inl ?_
      · rw [htook, Point.before, hlate, Bool.true_or]
      · rw [ht.point, ← ht.kernel.running, hx, hself]
      · rw [ht.point, hothers x fun hc => hx (ht.kernel.running.trans hc)]
    | false =>
      refine ht.stage_halting stmt hlate hself hothers ?_ ?_ ?_ (by rw [hused]; exact used) ht.active_self
      · rw [htook, Point.before, hlate, calm]
        rfl
      · rw [htook, once, Point.before, Bool.or_false]
        cases st <;> first | rfl | exact absurd rfl stmt
      · rw [htook, Point.before]
        cases hm : st.mid with
        | true => rfl
        | false => exact early (by rw [hm, hlate]; rfl)
  | waits st stmt kind saved point running others calm once mid used active =>
    rw [point] at htook
    exact ht.stage_halting stmt kind ((ht.saved_other running.symm).trans saved) (ht.saved_elsewhere point others)
      ((htook _).trans calm) ((htook _).trans once) ((htook _).trans mid) (by rw [hused]; exact used)
      ((ht.active_other running.symm).trans active)
  | jumps point running others calm used active cr3 esp0 =>
    have point := point.resolve_right hret
    subst running
    rw [point] at htook
    exact ht.stage_jumping (ht.saved_self.trans point) (fun y hy hyr => (ht.saved_other hyr).trans (others y hy hyr))
      ((htook _).trans calm) (by rw [hused, used]) ((ht.active_other hne.symm).trans active) ((htook _).trans rfl)
  | yields point running away saved others calm used active again =>
    rw [point] at htook
    have hothers := ht.saved_elsewhere point (P := fun y => y ≠ p ∧ y ≠ q) fun y hy => others y hy.1 hy.2
    exact ht.stage_jumping ((ht.saved_other running.symm).trans saved) (fun y hy hyq => hothers y ⟨hy, hyq⟩)
      ((htook _).trans calm) (by rw [hused, used]) ((ht.active_other away.symm).trans active) ((htook _).trans again)
  | late took used active onStack saved others here there =>
    have hsaved : ∃ st, st.late = true ∧ h'.saved p = .halting st := by
      by_cases hrun : h.kernel.running = p
      · obtain ⟨st, hlate, point⟩ := here hrun
        exact ⟨st, hlate, by rw [← hrun, ht.saved_self, point]⟩
      · obtain ⟨st, hlate, hst⟩ := saved
        exact ⟨st, hlate, (ht.saved_other (Ne.symm hrun)).trans hst⟩
    have hothers : ∀ y, y ≠ p → h'.saved y = .elsewhere ∨ y = q ∧ h'.saved y = .halting .jump := by
      intro y hy
      by_cases hyr : y = h.kernel.running
      · subst hyr
        rw [ht.saved_self]
        rcases there hy with point | ⟨hyq, point⟩
        · exact Or.inl point
        · exact Or.inr ⟨hyq, point.resolve_right hret⟩
      · rw [ht.saved_other hyr]
        exact others y hy
    have hactive : h'.kernel.active p = true := by
      by_cases hrun : p = h.kernel.running
      · rw [hrun, ht.active_self]
      · rw [ht.active_other hrun, active]
    refine .late (by rw [htook, took, Bool.or_true]) (by rw [hused, used]) hactive
      (ht.kernel.onStack fun _ => onStack) hsaved hothers ?_ ?_
    · intro hx
      obtain ⟨st, hlate, hst⟩ := hsaved
      exact ⟨st, hlate, by rw [ht.point, ← ht.kernel.running, hx, hst]⟩
    · intro hx
      rw [ht.point, ht.kernel.running]
      rw [ht.kernel.running] at hx
      rcases hothers x hx with hy | ⟨hy, hjump⟩
      · exact Or.inl hy
      · exact Or.inr ⟨hy, Or.inl hjump⟩

/-- One step. -/
lemma Stage.step {i : HaltInput} (hk : h.kernel.Halts s p q) (hq : s.Mem q) (hne : q ≠ p)
    (stage : Stage p q h) (hstep : h.step env status i = some h') :
    h'.kernel.Halts s p q ∧ Stage p q h' := by
  cases i with
  | next e => exact stage.next hk hq hne hstep
  | tick e =>
    obtain ⟨hret, x, ht⟩ := step_tick hk hstep
    exact ⟨hk.tick ht.kernel, stage.tick hne hret ht⟩

/-- A run of `halt` with ticks goes through the stages. -/
lemma Stage.run {is : List HaltInput} (hk : h.kernel.Halts s p q) (hq : s.Mem q) (hne : q ≠ p)
    (stage : Stage p q h) (hrun : (haltSystem env status).run h is = some h') : Stage p q h' := by
  refine (System.run_invariant (I := fun h => h.kernel.Halts s p q ∧ Stage p q h) ?_ ⟨hk, stage⟩ hrun).2
  rintro h i h' ⟨hk, stage⟩ hstep
  exact stage.step hk hq hne hstep

/-- No active process is without its number. -/
def ActiveUsed (h : HaltRun) : Prop := ∀ x, h.kernel.active x = true → h.kernel.procIdUsed x = true

/-- A process keeps its number up to a state that breaks `ActiveUsed`. -/
lemma Stage.keeps_used {i : HaltInput} (hk : h.kernel.Halts s p q) (hq : s.Mem q) (hne : q ≠ p)
    (stage : Stage p q h) (hused : h.kernel.procIdUsed p = true) (hgood : h'.ActiveUsed)
    (hstep : h.step env status i = some h') : h'.kernel.procIdUsed p = true := by
  cases i with
  | tick e =>
    obtain ⟨_, x, ht⟩ := step_tick hk hstep
    rw [ht.kernel.used, hused]
  | next e =>
    obtain ⟨st, hpoint⟩ := step_next_point hstep
    obtain ⟨k', pt, hstmt, rfl⟩ := step_next hpoint hstep
    cases stage with
    | halts st' stmt point running others calm once early used active cr3 esp0 =>
      cases point.symm.trans hpoint
      have hfreed : st.freed = false := by
        by_contra hc
        rw [used (Bool.eq_true_of_not_eq_false hc)] at hused
        cases hused
      have hlate : st.late = false := by
        cases st <;> first | rfl | cases hfreed
      obtain ⟨_, hadv, _⟩ := hk.advanced running hq hne stmt (fun hc => by rw [hc] at hlate; cases hlate) hstmt
      by_cases hst : st = .clearUsed
      · subst hst
        exact hgood p (hadv.active.trans active)
      · exact hadv.used.trans ((if_neg hst).trans hused)
    | waits st' stmt kind saved point => cases point.symm.trans hpoint
    | jumps point running others calm used => cases used.symm.trans hused
    | yields point => cases point.symm.trans hpoint
    | late took used => cases used.symm.trans hused

/-- `p` is gone and `q` has its own page directory and kernel stack again. -/
def Left (h : HaltRun) (p q : Pid) : Prop :=
  h.kernel.cr3 = some q ∧ h.kernel.esp0 = stackTop q ∧ h.kernel.active p = false ∧
    h.kernel.procIdUsed p = false

/-- Which ticks leave a process in order when it returns to its parent. -/
lemma Stage.left_iff (hne : q ≠ p) (stage : Stage p q h) (hret : h.point = .returned) :
    h.Left p q ↔ h.took Stmt.late = false ∧ (h.took Stmt.mid = false ∨ h.took Stmt.last = true) := by
  cases stage with
  | halts st stmt point => cases point.symm.trans hret
  | waits st stmt kind saved point => cases point.symm.trans hret
  | jumps point running others calm used active cr3 esp0 =>
    have hcr3 : h.kernel.cr3 = some q ↔ h.took Stmt.mid = false ∨ h.took Stmt.last = true := by
      rw [cr3, Option.some.injEq]
      cases h.took Stmt.mid <;> cases h.took Stmt.last <;> simp [hne.symm]
    rw [Left, hcr3]
    exact ⟨fun hleft => ⟨calm, hleft.1⟩, fun hcond => ⟨hcond.2, esp0, active, used⟩⟩
  | yields point => cases point.symm.trans hret
  | late took used active =>
    constructor
    · rintro ⟨_, _, hactive, _⟩
      cases active.symm.trans hactive
    · rintro ⟨hcalm, _⟩
      cases took.symm.trans hcalm

end HaltRun

open HaltRun in
/-- Whatever ticks `halt` takes, it passes through a state with an active process that is not in use; and it
leaves its process in order exactly when no tick came after `active` was given up, and none after the page
directory of the parent was loaded that no later tick on the parent's stack made up for. -/
theorem halt_with_ticks (env : Env) (status : UInt8) (k₀ k : Kernel) (is₀ : List Input) (q : Pid)
    (h₀ : RootShells k₀) (hreach : (procSystem env).run k₀ is₀ = some k)
    (hparent : (k.pcb k.running).parent = some q) (hne : q ≠ k.running) (is : List HaltInput) (h : HaltRun)
    (hrun : (haltSystem env status).run (enter k) is = some h) (hret : h.point = .returned) :
    ¬ (haltSystem env status).Always ActiveUsed (enter k) is ∧
      (h.Left k.running q ↔
        h.took Stmt.late = false ∧ (h.took Stmt.mid = false ∨ h.took Stmt.last = true)) := by
  obtain ⟨s, cur, hshells, hcr3⟩ := h₀.runs_after hreach
  obtain ⟨hq, hk⟩ := hshells.halts hparent hne
  have hused : k.procIdUsed k.running = true := hshells.used _ hshells.running.mem
  have hactive : k.active k.running = true := (hshells.active _).mpr ⟨cur, hshells.running⟩
  have hstage : Stage k.running q (enter k) :=
    .halts .memset (by decide) rfl rfl (fun x hx => enter_saved hx) rfl rfl (fun _ => rfl)
      (fun hc => by cases hc) hactive (fun hc => by cases hc) fun hc => by cases hc
  have hend : Stage k.running q h := hstage.run hk hq hne hrun
  refine ⟨fun halways => ?_, hend.left_iff hne hret⟩
  obtain ⟨_, _, hkept⟩ := halways.invariant
    (I := fun h => h.kernel.Halts s k.running q ∧ Stage k.running q h ∧ h.kernel.procIdUsed k.running = true)
    (fun h i h' ⟨hk, stage, hused⟩ hgood hstep => by
      obtain ⟨hk', stage'⟩ := stage.step hk hq hne hstep
      exact ⟨hk', stage', stage.keeps_used hk hq hne hused hgood hstep⟩)
    ⟨hk, hstage, hused⟩ hrun
  cases hend with
  | halts st stmt point => cases point.symm.trans hret
  | waits st stmt kind saved point => cases point.symm.trans hret
  | jumps point running others calm used => cases used.symm.trans hkept
  | yields point => cases point.symm.trans hret
  | late took used => cases used.symm.trans hkept

/-- Shell 0 runs a program, which halts without ticks. -/
theorem halt_with_ticks_shell : ∃ k h,
    (procSystem shellEnv).run threeShells [.execute someEntry (some shellEnv.shell)] = some k ∧
      (haltSystem shellEnv 0).run (.enter k) (List.replicate 18 (.next someEntry)) = some h ∧
      ¬ (haltSystem shellEnv 0).Always HaltRun.ActiveUsed (.enter k) (List.replicate 18 (.next someEntry)) ∧
      h.Left 3 0 := by
  obtain ⟨k, hk, hrun, hparent, hpid, k', hk'⟩ : ∃ k,
      (procSystem shellEnv).run threeShells [.execute someEntry (some shellEnv.shell)] = some k ∧
      k.running = 3 ∧ (k.pcb 3).parent = some 0 ∧ (k.pcb 3).pid ≠ (k.pcb 0).pid ∧
      ∃ k', k.halt shellEnv someEntry.stale 3 (k.kernelRegs someEntry) 0 = some k' :=
    ⟨_, rfl, rfl, rfl, by decide, _, rfl⟩
  rw [← hrun] at hparent hpid hk'
  have hhalt := HaltRun.halt_without_ticks shellEnv 0 someEntry hparent hpid
  rw [hk'] at hhalt
  have hticks := halt_with_ticks shellEnv 0 threeShells k [.execute someEntry (some shellEnv.shell)] 0
    threeShells_root hk hparent (by rw [hrun]; decide) _ _ hhalt rfl
  rw [hrun] at hticks
  exact ⟨k, _, hk, hhalt, hticks.1, hticks.2.mpr ⟨rfl, Or.inl rfl⟩⟩

/-- One round of ticks after the page directory of the parent is loaded: the parent is resumed in the page
directory of the process that halted. -/
theorem halt_returns_in_wrong_directory : ∃ k h,
    (procSystem shellEnv).run threeShells [.execute someEntry (some shellEnv.shell)] = some k ∧
      (haltSystem shellEnv 0).run (.enter k) (List.replicate 2 (.next someEntry) ++
        List.replicate 3 (.tick someEntry) ++ List.replicate 16 (.next someEntry)) = some h ∧
      h.point = .returned ∧ h.kernel.running = 0 ∧ h.kernel.cr3 = some 3 ∧ ¬ h.Left 3 0 := by
  have hrun : ((procSystem shellEnv).run threeShells [.execute someEntry (some shellEnv.shell)]).bind
      (fun k => ((haltSystem shellEnv 0).run (.enter k) (List.replicate 2 (.next someEntry) ++
        List.replicate 3 (.tick someEntry) ++ List.replicate 16 (.next someEntry))).map
          fun h => (h.point, h.kernel.running, h.kernel.cr3)) = some (.returned, 0, some 3) := by
    decide +kernel
  obtain ⟨k, hk, hhalt⟩ := Option.bind_eq_some_iff.mp hrun
  obtain ⟨h, hh, hend⟩ := Option.map_eq_some_iff.mp hhalt
  obtain ⟨hpoint, hrunning, hcr3⟩ : h.point = .returned ∧ h.kernel.running = 0 ∧ h.kernel.cr3 = some 3 := by
    simpa using hend
  refine ⟨k, h, hk, hh, hpoint, hrunning, hcr3, fun hleft => ?_⟩
  cases hcr3.symm.trans hleft.1

end Boss
