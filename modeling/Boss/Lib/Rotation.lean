import Mathlib.Data.Fin.Basic
import Mathlib.Data.Fintype.Basic

/-!
# Turns on a cycle

Places on a cycle, some of which want a turn. `ahead p q` is the number of steps forward from `p` to `q`, a full round
when they are the same, and `IsNext A p q` says that `q` is the first place after `p` that wants a turn.

The turn cannot pass over a place that wants it: seen from such a place `w`, it comes closer each time (`IsNext.lt`).
-/

namespace Boss.Lib.Rotation

variable {n : Nat} {A : Fin n → Prop} {p q w x : Fin n}

/-- The number of steps forward from `p` to `q`; a full round from `p` to itself. -/
def ahead (p q : Fin n) : Nat := if q = p then n else (q - p).val

/-- The first place after `p` with `A`. -/
def IsNext (A : Fin n → Prop) (p q : Fin n) : Prop := A q ∧ ∀ x, A x → ahead p q ≤ ahead p x

/-- The distance, with and without going round. -/
lemma ahead_eq (p q : Fin n) : ahead p q = if p < q then q.val - p.val else n + q.val - p.val := by
  rw [ahead]
  by_cases hlt : p < q
  · rw [if_pos hlt, if_neg hlt.ne', Fin.coe_sub_iff_le.mpr hlt.le]
  · rw [if_neg hlt]
    by_cases heq : q = p
    · rw [if_pos heq, heq, Nat.add_sub_cancel]
    · rw [if_neg heq, Fin.coe_sub_iff_lt.mpr (lt_of_le_of_ne (not_lt.mp hlt) heq)]

/-- Nobody is at distance 0: one's own turn comes after a whole round. -/
lemma ahead_pos : 0 < ahead p q := by
  have hp := p.isLt
  rw [ahead_eq]
  split
  · next h => exact Nat.sub_pos_of_lt h
  · omega

/-- Everybody else is less than a round away. -/
lemma ahead_lt (h : q ≠ p) : ahead p q < n := by
  rw [ahead, if_neg h]
  exact (q - p).isLt

/-- From `w` on, one comes to `q` after `p` if one does so from `p` on before coming to `w`. -/
lemma ahead_lt_ahead (hp : p ≠ w) (hq : q ≠ w) (h : ahead p q ≤ ahead p w) : ahead w p < ahead w q := by
  have hpw := Fin.val_ne_of_ne hp
  have hqw := Fin.val_ne_of_ne hq
  have hpn := p.isLt
  have hqn := q.isLt
  have hwn := w.isLt
  simp only [ahead_eq, Fin.lt_def] at h ⊢
  split_ifs at h ⊢ <;> omega

/-- The turn goes to a place that wants it, or comes closer to that place. -/
lemma IsNext.lt (h : IsNext A p q) (hw : A w) (hp : p ≠ w) (hq : q ≠ w) : ahead w p < ahead w q :=
  ahead_lt_ahead hp hq (h.2 w hw)

end Boss.Lib.Rotation
