import Mathlib.Tactic.Common

/-!
# Input-driven transition systems

A `System` takes inputs one at a time; a step without a successor is `none` (the machine is stuck).
`run` is the result of a list of inputs. Two predicates speak about every point of a run and not only
about its end: `Always P` holds when `P` holds in every state the run passes through, and `Guarded G`
when every input is taken in a state where the guard `G` allows it.

The rules of this file are the inductions over runs that the invariants of the development need:
* `run_invariant`: a property kept by every step is kept by every run;
* `guarded_invariant`: the same under a guard;
* `guarded_total`: under a guard that makes every step succeed, no run gets stuck;
* `always_of_invariant`: an invariant that implies `P` makes `P` hold along the run;
* `always_iff_guarded`: when a guarded step keeps `P` and an unguarded one breaks it, the runs in which
  `P` always holds are exactly the guarded ones; `always_iff_guarded_on`: the same for runs of admitted inputs;
* `first_time`: a run that comes to a state with `Q` comes to a first one;
* `run_simulation`: a forward simulation relates the ends of two runs on the same inputs;
* `run_filter`: the same when `T` is not told of the inputs that it need not know; `run_filterMap`: and of the others in
  its own words.
-/

namespace Boss.Lib

/-- A deterministic machine driven by inputs; `none` is a step with no successor. -/
structure System (σ ι : Type) where
  /-- One step. -/
  step : σ → ι → Option σ

namespace System
variable {σ τ ι : Type}

/-- The state after a list of inputs. -/
def run (S : System σ ι) : σ → List ι → Option σ
  | s, [] => some s
  | s, i :: is => (S.step s i).bind fun t => S.run t is

/-- Every input of the run is taken in a state where `G` allows it. -/
def Guarded (S : System σ ι) (G : σ → ι → Prop) : σ → List ι → Prop
  | _, [] => True
  | s, i :: is => G s i ∧ ∀ t, S.step s i = some t → S.Guarded G t is

/-- `P` holds in every state the run passes through, its two ends included. -/
def Always (S : System σ ι) (P : σ → Prop) : σ → List ι → Prop
  | s, [] => P s
  | s, i :: is => P s ∧ ∀ t, S.step s i = some t → S.Always P t is

variable {S : System σ ι} {T : System τ ι}
variable {I P : σ → Prop} {G : σ → ι → Prop} {s t : σ} {i : ι} {is js : List ι}

/-- Guards that can be evaluated can be evaluated along a run. -/
instance decidableGuarded [∀ s i, Decidable (G s i)] : ∀ s is, Decidable (S.Guarded G s is)
  | _, [] => isTrue trivial
  | s, i :: is =>
    match hst : S.step s i with
    | none => decidable_of_iff (G s i) ⟨fun h => ⟨h, fun _ e => by simp [hst] at e⟩, fun h => h.1⟩
    | some t =>
      have := decidableGuarded t is
      decidable_of_iff (G s i ∧ S.Guarded G t is)
        ⟨fun h => ⟨h.1, fun _ e => by rw [hst] at e; cases e; exact h.2⟩, fun h => ⟨h.1, h.2 t hst⟩⟩

/-- Properties that can be evaluated can be evaluated along a run. -/
instance decidableAlways [DecidablePred P] : ∀ s is, Decidable (S.Always P s is)
  | s, [] => inferInstanceAs (Decidable (P s))
  | s, i :: is =>
    match hst : S.step s i with
    | none => decidable_of_iff (P s) ⟨fun h => ⟨h, fun _ e => by simp [hst] at e⟩, fun h => h.1⟩
    | some t =>
      have := decidableAlways t is
      decidable_of_iff (P s ∧ S.Always P t is)
        ⟨fun h => ⟨h.1, fun _ e => by rw [hst] at e; cases e; exact h.2⟩, fun h => ⟨h.1, h.2 t hst⟩⟩

@[simp] lemma run_nil : S.run s [] = some s := rfl

/-- A run of at least one input is a step and a run. -/
lemma run_cons : S.run s (i :: is) = some t ↔ ∃ u, S.step s i = some u ∧ S.run u is = some t := by
  simp only [run, Option.bind_eq_some_iff]

/-- Runs compose. -/
lemma run_append : S.run s (is ++ js) = (S.run s is).bind fun u => S.run u js := by
  induction is generalizing s with
  | nil => rfl
  | cons i is ih =>
    simp only [List.cons_append, run, Option.bind_assoc]
    congr 1
    funext u
    exact ih

/-- What follows a run is guarded too. -/
lemma Guarded.append (h : S.Guarded G s (is ++ js)) (hr : S.run s is = some t) : S.Guarded G t js := by
  induction is generalizing s with
  | nil =>
    cases hr
    exact h
  | cons i is ih =>
    obtain ⟨u, hst, hru⟩ := run_cons.mp hr
    exact ih (h.2 u hst) hru

/-- And what comes before. -/
lemma Guarded.left (h : S.Guarded G s (is ++ js)) : S.Guarded G s is := by
  induction is generalizing s with
  | nil => trivial
  | cons i is ih => exact ⟨h.1, fun t hst => ih (h.2 t hst)⟩

/-- A condition on the inputs alone can be put into the guard. -/
lemma Guarded.and_forall {Q : ι → Prop} (h : S.Guarded G s is) (hQ : ∀ i ∈ is, Q i) :
    S.Guarded (fun s i => G s i ∧ Q i) s is := by
  induction is generalizing s with
  | nil => trivial
  | cons i is ih =>
    rw [List.forall_mem_cons] at hQ
    exact ⟨⟨h.1, hQ.1⟩, fun t hst => ih (h.2 t hst) hQ.2⟩

/-- A property kept by every guarded step is kept by every guarded run. -/
theorem guarded_invariant (keep : ∀ s i t, I s → G s i → S.step s i = some t → I t)
    (hI : I s) (hG : S.Guarded G s is) (hr : S.run s is = some t) : I t := by
  induction is generalizing s with
  | nil =>
    cases hr
    exact hI
  | cons i is ih =>
    obtain ⟨u, hst, hru⟩ := run_cons.mp hr
    exact ih (keep s i u hI hG.1 hst) (hG.2 u hst) hru

/-- Where guarded steps always exist and keep an invariant, guarded runs do not get stuck. -/
theorem guarded_total (total : ∀ s i, I s → G s i → ∃ t, S.step s i = some t ∧ I t)
    (hI : I s) (hG : S.Guarded G s is) : ∃ t, S.run s is = some t ∧ I t := by
  induction is generalizing s with
  | nil => exact ⟨s, rfl, hI⟩
  | cons i is ih =>
    obtain ⟨u, hst, hIu⟩ := total s i hI hG.1
    obtain ⟨t, hrun, hIt⟩ := ih hIu (hG.2 u hst)
    exact ⟨t, run_cons.mpr ⟨u, hst, hrun⟩, hIt⟩

/-- The trivial guard guards every run. -/
lemma guarded_true : S.Guarded (fun _ _ => True) s is := by
  induction is generalizing s with
  | nil => trivial
  | cons i is ih => exact ⟨trivial, fun _ _ => ih⟩

/-- A property kept by every step is kept by every run. -/
theorem run_invariant (keep : ∀ s i t, I s → S.step s i = some t → I t)
    (hI : I s) (hr : S.run s is = some t) : I t :=
  guarded_invariant (G := fun _ _ => True) (fun s i t hs _ => keep s i t hs) hI guarded_true hr

/-- An invariant of guarded steps that implies `P` makes `P` hold all along a guarded run. -/
theorem always_of_guarded (keep : ∀ s i t, I s → G s i → S.step s i = some t → I t)
    (imp : ∀ s, I s → P s) (hI : I s) (hG : S.Guarded G s is) : S.Always P s is := by
  induction is generalizing s with
  | nil => exact imp s hI
  | cons i is ih =>
    refine ⟨imp s hI, fun u hst => ?_⟩
    exact ih (keep s i u hI hG.1 hst) (hG.2 u hst)

/-- An invariant that implies `P` makes `P` hold all along every run. -/
theorem always_of_invariant (keep : ∀ s i t, I s → S.step s i = some t → I t)
    (imp : ∀ s, I s → P s) (hI : I s) : S.Always P s is :=
  always_of_guarded (G := fun _ _ => True) (fun s i t hs _ => keep s i t hs) imp hI guarded_true

/-- What always holds holds at the start. -/
lemma Always.head (h : S.Always P s is) : P s := by
  cases is with
  | nil => exact h
  | cons i is => exact h.1

/-- What always holds holds at the end. -/
lemma Always.last (h : S.Always P s is) (hr : S.run s is = some t) : P t := by
  induction is generalizing s with
  | nil =>
    cases hr
    exact h
  | cons i is ih =>
    obtain ⟨u, hst, hru⟩ := run_cons.mp hr
    exact ih (h.2 u hst) hru

/-- What the states of a run always satisfy may be used to carry an invariant through it. -/
theorem Always.invariant (keep : ∀ s i t, I s → P t → S.step s i = some t → I t) (hI : I s)
    (h : S.Always P s is) (hr : S.run s is = some t) : I t := by
  induction is generalizing s with
  | nil =>
    cases hr
    exact hI
  | cons i is ih =>
    obtain ⟨u, hst, hru⟩ := run_cons.mp hr
    exact ih (keep s i u hI (h.2 u hst).head hst) (h.2 u hst) hru

/-- The exact guard among the inputs that `D` admits: a guarded step keeps `P`, an unguarded one breaks it at
once. -/
theorem always_iff_guarded_on {D : σ → ι → Prop}
    (good : ∀ s i t, I s → P s → D s i → G s i → S.step s i = some t → I t ∧ P t)
    (bad : ∀ s i t, I s → P s → D s i → ¬ G s i → S.step s i = some t → ¬ P t)
    (hI : I s) (hP : P s) (hD : S.Guarded D s is) (hr : S.run s is = some t) :
    S.Always P s is ↔ S.Guarded G s is := by
  induction is generalizing s with
  | nil => exact ⟨fun _ => trivial, fun _ => hP⟩
  | cons i is ih =>
    obtain ⟨u, hst, hru⟩ := run_cons.mp hr
    have only : ∀ v, S.step s i = some v → v = u := by
      intro v hv
      rw [hst] at hv
      cases hv
      rfl
    constructor
    · intro h
      -- the guard holds here, for otherwise the next state would already break `P`
      have hg : G s i := by
        by_contra hn
        exact bad s i u hI hP hD.1 hn hst (h.2 u hst).head
      obtain ⟨hIu, hPu⟩ := good s i u hI hP hD.1 hg hst
      refine ⟨hg, fun v hv => ?_⟩
      cases only v hv
      exact (ih hIu hPu (hD.2 u hst) hru).mp (h.2 u hst)
    · intro h
      obtain ⟨hIu, hPu⟩ := good s i u hI hP hD.1 h.1 hst
      refine ⟨hP, fun v hv => ?_⟩
      cases only v hv
      exact (ih hIu hPu (hD.2 u hst) hru).mpr (h.2 u hst)

/-- The exact guard: a guarded step keeps `P`, an unguarded one breaks it at once. -/
theorem always_iff_guarded
    (good : ∀ s i t, I s → P s → G s i → S.step s i = some t → I t ∧ P t)
    (bad : ∀ s i t, I s → P s → ¬ G s i → S.step s i = some t → ¬ P t)
    (hI : I s) (hP : P s) (hr : S.run s is = some t) :
    S.Always P s is ↔ S.Guarded G s is :=
  always_iff_guarded_on (D := fun _ _ => True) (fun s i t hs hp _ => good s i t hs hp)
    (fun s i t hs hp _ => bad s i t hs hp) hI hP guarded_true hr

/-- The first state of a run with `Q`, and what all steps before it keep. -/
theorem first_time {Q : σ → Prop} (keep : ∀ s i t, ¬ Q s → I s → S.step s i = some t → I t) (hI : I s)
    (hr : S.run s is = some t) (hQ : Q t) : ∃ js ks u, is = js ++ ks ∧ S.run s js = some u ∧ Q u ∧ I u := by
  induction is generalizing s with
  | nil =>
    cases hr
    exact ⟨[], [], _, rfl, rfl, hQ, hI⟩
  | cons i is ih =>
    by_cases hs : Q s
    · exact ⟨[], i :: is, s, rfl, rfl, hs, hI⟩
    · obtain ⟨u, hst, hru⟩ := run_cons.mp hr
      obtain ⟨js, ks, v, rfl, hjs, hv, hIv⟩ := ih (keep s i u hs hI hst) hru
      exact ⟨i :: js, ks, v, rfl, run_cons.mpr ⟨u, hst, hjs⟩, hv, hIv⟩

/-- A forward simulation matches every run of `S` by a run of `T` on the same inputs. -/
theorem run_simulation {R : σ → τ → Prop} {a : τ}
    (sim : ∀ s i s' a, R s a → S.step s i = some s' → ∃ a', T.step a i = some a' ∧ R s' a')
    (hR : R s a) (hr : S.run s is = some t) : ∃ b, T.run a is = some b ∧ R t b := by
  induction is generalizing s a with
  | nil =>
    cases hr
    exact ⟨a, rfl, hR⟩
  | cons i is ih =>
    obtain ⟨u, hst, hru⟩ := run_cons.mp hr
    obtain ⟨a', hat, hR'⟩ := sim s i u a hR hst
    obtain ⟨b, hb, hRb⟩ := ih hR' hru
    exact ⟨b, run_cons.mpr ⟨a', hat, hb⟩, hRb⟩

/-- A forward simulation in which `T` is told in its own words of some inputs, and of the others not at all. -/
theorem run_filterMap {κ : Type} {U : System τ κ} {R : σ → τ → Prop} {a : τ} (f : ι → Option κ)
    (sim : ∀ s i j s' a, R s a → f i = some j → S.step s i = some s' → ∃ a', U.step a j = some a' ∧ R s' a')
    (hidden : ∀ s i s' a, R s a → f i = none → S.step s i = some s' → R s' a)
    (hR : R s a) (hr : S.run s is = some t) : ∃ b, U.run a (is.filterMap f) = some b ∧ R t b := by
  induction is generalizing s a with
  | nil =>
    cases hr
    exact ⟨a, rfl, hR⟩
  | cons i is ih =>
    obtain ⟨u, hst, hru⟩ := run_cons.mp hr
    cases hi : f i with
    | none =>
      rw [List.filterMap_cons_none hi]
      exact ih (hidden s i u a hR hi hst) hru
    | some j =>
      obtain ⟨a', hat, hR'⟩ := sim s i j u a hR hi hst
      obtain ⟨b, hb, hRb⟩ := ih hR' hru
      rw [List.filterMap_cons_some hi]
      exact ⟨b, run_cons.mpr ⟨a', hat, hb⟩, hRb⟩

end System

end Boss.Lib
