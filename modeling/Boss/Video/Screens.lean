import Boss.Video.Tables
import Boss.Lib.System

/-!
# Terminal switching refines three private screens

The abstract machine has one private page for each terminal: a store changes the page of the terminal
it is addressed to, a switch changes nothing but which terminal is displayed. The machine of
`Tables.lean` has four physical pages and two tables of aliases. `Refines` relates the two; one step of
the code is matched by one step of the private screens (`step_refines`), so every run is
(`switch_refines_private_screens`).

A switch is three moves: the old terminal is pointed back to its backing page, two pages are copied, the
new terminal is pointed to the displayed page. In the middle no terminal is displayed, which is why
`Maps` of `Tables.lean` takes the placement of the screens as a parameter.
-/

namespace Boss
open Lib

/-- Stores through either alias, and switches to any terminal number. -/
inductive VideoInput where
  /-- A kernel store at `terminals[t].video_mem + off`. -/
  | kernelStore (t : TermId) (off : Fin 4096) (b : UInt8)
  /-- A user store at `USER_VIDEO + off` by a process of terminal `t`. -/
  | userStore (t : TermId) (off : Fin 4096) (b : UInt8)
  /-- `switch_terminals(term)`. -/
  | switchTerminals (term : UInt8)

/-- The code: tables, physical pages and `cur_terminal`. -/
def videoSystem : System Video VideoInput where
  step v
    | .kernelStore t off b => some (v.store (videoMem t + off) b)
    | .userStore t off b => some (v.userStore t off b)
    | .switchTerminals term => some (v.switchTerminals term)

/-- Three private pages and the number of the displayed one. -/
structure Screens where
  /-- The page of each terminal. -/
  page : TermId → Mem
  /-- The displayed terminal. -/
  cur : TermId

/-- The abstract machine: a store goes to the page of its terminal, a switch moves no byte. -/
def screensSystem : System Screens VideoInput where
  step a
    | .kernelStore t off b | .userStore t off b =>
      some { a with page := Function.update a.page t (Function.update (a.page t) off b) }
    | .switchTerminals term =>
      some (if h : term.toNat < 3 then { a with cur := ⟨term.toNat, h⟩ } else a)

/-- A page after the stores addressed to terminal `t`, all other inputs left out. -/
def privatePage (t : TermId) (m : Mem) : List VideoInput → Mem
  | [] => m
  | .kernelStore u off b :: is | .userStore u off b :: is =>
    privatePage t (if u = t then Function.update m off b else m) is
  | .switchTerminals _ :: is => privatePage t m is

/-- The terminal displayed in the end: the last valid number switched to. -/
def lastShown (cur : TermId) : List VideoInput → TermId
  | [] => cur
  | .switchTerminals term :: is => lastShown (if h : term.toNat < 3 then ⟨term.toNat, h⟩ else cur) is
  | .kernelStore _ _ _ :: is | .userStore _ _ _ :: is => lastShown cur is

namespace Video
variable {v : Video} {t : TermId} {off : Nat}

/-- The logical screen of a terminal: what its kernel alias resolves to. -/
def screen (v : Video) (t : TermId) (off : Nat) : Option UInt8 :=
  (v.kernelPa (videoMem t + off)).map v.phys

/-- A mapped screen is the contents of its page. -/
lemma Mapped.screen (h : v.Mapped) (hoff : off < 4096) :
    v.screen t off = some (v.phys (v.home t + off)) := by
  simp only [Video.screen, Maps.kernelPa h hoff, Option.map_some]

/-- Screens are on different pages. -/
lemma home_apart (v : Video) {t u : TermId} (h : t ≠ u) :
    v.home t + 4096 ≤ v.home u ∨ v.home u + 4096 ≤ v.home t := by
  have htu : t.val ≠ u.val := fun e => h (Fin.ext e)
  unfold home
  split_ifs with h1 h2 h2
  · exact absurd (h1.trans h2.symm) h
  all_goals
    simp only [videoMem, video]
    omega

/-- The four pages of a switch: the old backing page, the new backing page and the displayed page are
pairwise apart. -/
lemma backing_apart {t u : TermId} (h : t ≠ u) :
    (videoMem t + 4096 ≤ videoMem u ∨ videoMem u + 4096 ≤ videoMem t) ∧
      video + 4096 ≤ videoMem t := by
  have htu : t.val ≠ u.val := fun e => h (Fin.ext e)
  simp only [videoMem, video]
  omega

/-- With the displayed terminal back on its backing page, all terminals are on theirs. -/
lemma home_leave (v : Video) : Function.update v.home v.curTerminal (videoMem v.curTerminal) = videoMem := by
  funext t
  by_cases ht : t = v.curTerminal
  · subst ht
    rw [Function.update_self]
  · rw [Function.update_of_ne ht, home, if_neg ht]

/-- From there a terminal is displayed by moving it to the displayed page. -/
lemma home_enter (v : Video) (new : TermId) :
    Function.update videoMem new video = ({ v with curTerminal := new } : Video).home := by
  funext t
  by_cases ht : t = new
  · subst ht
    rw [Function.update_self, home, if_pos rfl]
  · rw [Function.update_of_ne ht, home, if_neg ht]

/-- The two copies of a switch: every terminal finds on its new page what was on its old one. -/
lemma switch_copies (v : Video) {new : TermId} (hne : v.curTerminal ≠ new) (t : TermId) {off : Nat}
    (hoff : off < 4096) :
    Mem.copy (Mem.copy v.phys (videoMem v.curTerminal) video 4096) video (videoMem new) 4096
      (Function.update videoMem new video t + off) = v.phys (v.home t + off) := by
  obtain ⟨_, hcur⟩ := backing_apart hne
  obtain ⟨_, hnew⟩ := backing_apart hne.symm
  have hsave : videoMem v.curTerminal + 4096 ≤ video ∨ video + 4096 ≤ videoMem v.curTerminal := Or.inr hcur
  have hshow : video + 4096 ≤ videoMem new ∨ videoMem new + 4096 ≤ video := Or.inl hnew
  by_cases htn : t = new
  · -- the new terminal's backing page has been copied to the displayed one
    subst htn
    have hpages := backing_apart hne
    rw [Function.update_self, home, if_neg hne.symm, Mem.copy_apply hshow, if_pos (by omega), Mem.copy_apply hsave,
      if_neg (by omega), Nat.add_sub_cancel_left]
  · rw [Function.update_of_ne htn]
    by_cases htc : t = v.curTerminal
    · -- the displayed page has been copied to the old terminal's backing page
      subst htc
      rw [home, if_pos rfl, Mem.copy_apply hshow, if_neg (by omega), Mem.copy_apply hsave, if_pos (by omega),
        Nat.add_sub_cancel_left]
    · have hpages := backing_apart htc
      rw [home, if_neg htc, Mem.copy_apply hshow, if_neg (by omega), Mem.copy_apply hsave, if_neg (by omega)]

end Video

/-- The code's state `v` holds the private screens `a`. -/
structure Refines (v : Video) (a : Screens) : Prop where
  mapped : v.Mapped
  cur : v.curTerminal = a.cur
  page : ∀ t off, off < 4096 → v.phys (v.home t + off) = a.page t off

namespace Refines
variable {v : Video} {a : Screens} {t : TermId} {off : Nat} {b : UInt8}

/-- A store that lands on the page of `t` is a store to the private page of `t`. -/
lemma store (h : Refines v a) (hoff : off < 4096) :
    Refines { v with phys := Function.update v.phys (v.home t + off) b }
      { a with page := Function.update a.page t (Function.update (a.page t) off b) } where
  mapped := Video.Maps.of_tables h.mapped rfl rfl
  cur := h.cur
  page := by
    intro u o ho
    show Function.update v.phys (v.home t + off) b (v.home u + o)
      = Function.update a.page t (Function.update (a.page t) off b) u o
    by_cases hu : u = t
    · subst hu
      rw [Function.update_self]
      by_cases e : o = off
      · subst e
        rw [Function.update_self, Function.update_self]
      · have hne : v.home u + o ≠ v.home u + off := by omega
        rw [Function.update_of_ne hne, Function.update_of_ne e]
        exact h.page u o ho
    · rw [Function.update_of_ne hu]
      have hne : v.home u + o ≠ v.home t + off := by
        have := v.home_apart hu
        omega
      rw [Function.update_of_ne hne]
      exact h.page u o ho

/-- A switch to another terminal moves no byte of any private screen. -/
lemma switch {term : UInt8} (h : Refines v a) (hlt : term.toNat < 3)
    (hne : v.curTerminal.val ≠ term.toNat) :
    Refines (v.switchTerminals term) { a with cur := ⟨term.toNat, hlt⟩ } := by
  obtain ⟨cur, hcur⟩ : ∃ c, c = v.curTerminal := ⟨_, rfl⟩
  obtain ⟨new, hnew⟩ : ∃ n : TermId, n = ⟨term.toNat, hlt⟩ := ⟨_, rfl⟩
  have hcn : cur ≠ new := by
    intro e
    apply hne
    rw [← hcur, e, hnew]
  -- first move: the old terminal goes back to its backing page, so all of them are there
  have m1 := Video.Maps.remap (t := cur) (w := videoMem cur) h.mapped (Or.inr rfl)
  have e1 : Function.update v.home cur (videoMem cur) = videoMem := by
    rw [hcur]
    exact v.home_leave
  rw [e1] at m1
  generalize hv1 : (v.setPage (video / 4096 + cur + 1)
    (videoMem cur ||| flagWriteEnable ||| flagPresent)).setTermPage cur
      (videoMem cur ||| flagWriteEnable ||| flagPresent ||| flagUser) = v1 at m1
  have p1 : v1.phys = v.phys := by
    rw [← hv1]
    rfl
  -- second move: two page copies
  have c1 : v1.memcpy (videoMem cur) video 4096
      = { v1 with phys := Mem.copy v1.phys (videoMem cur) video 4096 } :=
    Video.memcpy_eq (fun i hi => m1.kernelPa hi) (fun i hi => m1.displayPa hi)
  generalize hv2 : ({ v1 with phys := Mem.copy v1.phys (videoMem cur) video 4096 } : Video) = v2 at c1
  have m2 : v2.Maps videoMem := by
    rw [← hv2]
    exact m1.of_tables rfl rfl
  have c2 : v2.memcpy video (videoMem new) 4096
      = { v2 with phys := Mem.copy v2.phys video (videoMem new) 4096 } :=
    Video.memcpy_eq (fun i hi => m2.displayPa hi) (fun i hi => m2.kernelPa hi)
  generalize hv3 : ({ v2 with phys := Mem.copy v2.phys video (videoMem new) 4096 } : Video) = v3 at c2
  have m3 : v3.Maps videoMem := by
    rw [← hv3]
    exact m2.of_tables rfl rfl
  -- third move: the new terminal is pointed to the displayed page
  have m4 := Video.Maps.remap (t := new) (w := video) m3 (Or.inl rfl)
  have hres : v.switchTerminals term
      = { (v3.setPage (video / 4096 + new + 1) (video ||| flagWriteEnable ||| flagPresent)).setTermPage
            new (video ||| flagWriteEnable ||| flagPresent ||| flagUser) with curTerminal := new } := by
    have hc : term.toNat < 3 ∧ v.curTerminal.val ≠ term.toNat := ⟨hlt, hne⟩
    subst hnew
    unfold Video.switchTerminals
    rw [dif_pos hc]
    simp only [← hcur, hv1, c1, c2]
    rfl
  generalize hv4 : (v3.setPage (video / 4096 + new + 1)
    (video ||| flagWriteEnable ||| flagPresent)).setTermPage new
      (video ||| flagWriteEnable ||| flagPresent ||| flagUser) = v4 at m4 hres
  have p4 : v4.phys = Mem.copy (Mem.copy v.phys (videoMem cur) video 4096) video (videoMem new) 4096 := by
    rw [← hv4, ← p1]
    show v3.phys = _
    rw [← hv3, ← hv2]
  rw [v4.home_enter new] at m4
  rw [hres]
  refine ⟨m4.of_tables rfl rfl, hnew, fun t off hoff => ?_⟩
  show v4.phys _ = a.page t off
  rw [← h.page t off hoff, p4, ← v4.home_enter new, hcur]
  exact v.switch_copies (hcur ▸ hcn) t hoff

end Refines

/-- One step of the code is one step of the private screens. -/
lemma step_refines {v v' : Video} {i : VideoInput} {a : Screens} (h : Refines v a)
    (hst : videoSystem.step v i = some v') :
    ∃ a', screensSystem.step a i = some a' ∧ Refines v' a' := by
  cases i with
  | kernelStore t off b =>
    cases hst
    refine ⟨_, rfl, ?_⟩
    have hpa := Video.Maps.kernelPa (t := t) h.mapped off.isLt
    simp only [Video.store, hpa]
    exact h.store off.isLt
  | userStore t off b =>
    cases hst
    refine ⟨_, rfl, ?_⟩
    have hpa := Video.Maps.userPa (t := t) h.mapped off.isLt
    simp only [Video.userStore, hpa]
    exact h.store off.isLt
  | switchTerminals term =>
    cases hst
    refine ⟨_, rfl, ?_⟩
    by_cases hlt : term.toNat < 3
    · rw [dif_pos hlt]
      by_cases hne : v.curTerminal.val ≠ term.toNat
      · exact h.switch hlt hne
      · -- the terminal is displayed already: neither machine moves
        have hcur : (⟨term.toNat, hlt⟩ : TermId) = a.cur := by
          rw [← h.cur]
          exact Fin.ext (not_not.mp hne).symm
        have hsame : v.switchTerminals term = v := by
          unfold Video.switchTerminals
          rw [dif_neg (fun hc => hne hc.2)]
        rw [hsame, hcur]
        exact h
    · rw [dif_neg hlt]
      have hsame : v.switchTerminals term = v := by
        unfold Video.switchTerminals
        rw [dif_neg (fun hc => hlt hc.1)]
      rw [hsame]
      exact h

/-- A switch keeps the tables in order. -/
lemma Video.Mapped.switch {v : Video} (h : v.Mapped) (term : UInt8) : (v.switchTerminals term).Mapped := by
  have hrefines : Refines v ⟨fun t off => v.phys (v.home t + off), v.curTerminal⟩ :=
    ⟨h, rfl, fun _ _ _ => rfl⟩
  obtain ⟨_, _, h'⟩ := step_refines (i := .switchTerminals term) hrefines rfl
  exact h'.mapped

/-- In the abstract machine every page is the private page of its terminal, and the last switch decides which one is
displayed. -/
lemma screensSystem_run (a : Screens) (is : List VideoInput) :
    ∃ b, screensSystem.run a is = some b ∧ b.page = (fun t => privatePage t (a.page t) is) ∧
      b.cur = lastShown a.cur is := by
  induction is generalizing a with
  | nil => exact ⟨a, rfl, rfl, rfl⟩
  | cons i is ih =>
    cases i with
    | kernelStore u off b | userStore u off b =>
      obtain ⟨c, hc, hp, hcur⟩ := ih { a with
        page := Function.update a.page u (Function.update (a.page u) off b) }
      refine ⟨c, System.run_cons.mpr ⟨_, rfl, hc⟩, ?_, hcur⟩
      rw [hp]
      funext t
      simp only [privatePage]
      by_cases h : u = t
      · subst h
        rw [Function.update_self, if_pos rfl]
      · rw [Function.update_of_ne (Ne.symm h), if_neg h]
    | switchTerminals term =>
      obtain ⟨c, hc, hp, hcur⟩ := ih (if h : term.toNat < 3 then { a with cur := ⟨term.toNat, h⟩ } else a)
      refine ⟨c, System.run_cons.mpr ⟨_, rfl, hc⟩, ?_, ?_⟩
      · rw [hp]
        split <;> rfl
      · rw [hcur, lastShown]
        split <;> rfl

/-- Every run of stores and switches has a result. -/
lemma videoSystem_total (v : Video) (is : List VideoInput) :
    ∃ w, videoSystem.run v is = some w := by
  induction is generalizing v with
  | nil => exact ⟨v, rfl⟩
  | cons i is ih =>
    cases i with
    | kernelStore t off b | userStore t off b | switchTerminals term => exact ih _

/-- Terminal switching refines three private screens: after any stores and switches each terminal's
screen is its private page, its two aliases resolve to one frame, the displayed page is the screen
of `cur_terminal`, and that is the terminal last switched to. -/
theorem switch_refines_private_screens (phys : Mem) (is : List VideoInput) :
    ∃ v, videoSystem.run (Video.initKernelPd phys) is = some v ∧
      (∀ t off, off < 4096 →
        v.screen t off = some (privatePage t
          (fun o => phys ((Video.initKernelPd phys).home t + o)) is off)) ∧
      (∀ t off, off < 4096 → v.kernelPa (videoMem t + off) = v.userPa t off) ∧
      (∀ off, off < 4096 → v.screen v.curTerminal off = some (v.phys (video + off))) ∧
      v.curTerminal = lastShown 0 is := by
  obtain ⟨v, hv⟩ := videoSystem_total (Video.initKernelPd phys) is
  have h0 : Refines (Video.initKernelPd phys)
      ⟨fun t o => phys ((Video.initKernelPd phys).home t + o), 0⟩ :=
    ⟨Video.initKernelPd_mapped phys, rfl, fun _ _ _ => rfl⟩
  obtain ⟨b, hb, hR⟩ := System.run_simulation (fun _ _ _ _ hR hst => step_refines hR hst) h0 hv
  obtain ⟨c, hc, hp, hcur⟩ := screensSystem_run
    ⟨fun t o => phys ((Video.initKernelPd phys).home t + o), 0⟩ is
  rw [hb] at hc
  cases hc
  refine ⟨v, hv, ?_, ?_, ?_, hR.cur.trans hcur⟩
  · intro t off hoff
    rw [hR.mapped.screen hoff, hR.page t off hoff, hp]
  · intro t off hoff
    rw [Video.Maps.kernelPa hR.mapped hoff, Video.Maps.userPa hR.mapped hoff]
  · intro off hoff
    rw [hR.mapped.screen hoff]
    simp only [Video.home, if_true]

/-- An `A` written to the hidden terminal 1 is on the displayed page once that terminal is switched to; terminal 3 does not
exist. -/
theorem switch_refines_private_screens_shown :
    ∃ v, videoSystem.run (Video.initKernelPd fun _ => 0)
      [.kernelStore 1 0 65, .switchTerminals 1, .switchTerminals 3] = some v ∧
      v.curTerminal = 1 ∧ v.phys video = 65 := by
  obtain ⟨v, hv, hpage, -, hshown, hcur⟩ := switch_refines_private_screens (fun _ => 0)
    [.kernelStore 1 0 65, .switchTerminals 1, .switchTerminals 3]
  have hone : v.curTerminal = 1 := hcur
  have hscreen := hshown 0 (by decide)
  rw [hone, hpage 1 0 (by decide)] at hscreen
  exact ⟨v, hv, hone, (Option.some.inj hscreen).symm⟩

end Boss
