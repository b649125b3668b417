import Mathlib.Data.List.GetD
import Mathlib.Tactic.Common

/-!
# Text on a grid

The rows of a text on a page of fixed width: a row ends at a break character, which is not shown, and after
`width` characters. A row of exactly `width` characters is followed by a row, if only an empty one, so that
there is always a place for the next character. `shown` is what a window of `height` rows shows of the
rows, the last ones of them, with blanks where there is no character.

The rows of a longer text are found from the last row on (`rowsFrom_append`); the lemmas about `shown` say what one
more character and one more row do to the window.
-/

namespace Boss.Lib.Text
variable {α : Type} {width height y x : Nat} {brk : α → Bool} {blank c : α} {row last text cs : List α}
  {init rows : List (List α)}

/-- The rows of a text that begins behind the characters of `row`. -/
def rowsFrom (width : Nat) (brk : α → Bool) (row : List α) : List α → List (List α)
  | [] => [row]
  | c :: cs =>
    if brk c then row :: rowsFrom width brk [] cs
    else if row.length + 1 = width then (row ++ [c]) :: rowsFrom width brk [] cs
    else rowsFrom width brk (row ++ [c]) cs

/-- The rows of a text. -/
def layout (width : Nat) (brk : α → Bool) (text : List α) : List (List α) := rowsFrom width brk [] text

/-- What the last `height` rows show in row `y` and column `x`. -/
def shown (height : Nat) (blank : α) (rows : List (List α)) (y x : Nat) : α :=
  ((rows.drop (rows.length - height)).getD y []).getD x blank

/-- A text goes on behind its last row, which has room. -/
lemma rowsFrom_append (text : List α) (hrow : row.length < width) : ∃ init last, last.length < width ∧
    ∀ cs, rowsFrom width brk row (text ++ cs) = init ++ rowsFrom width brk last cs := by
  have hzero : ([] : List α).length < width := Nat.zero_lt_of_lt hrow
  induction text generalizing row with
  | nil => exact ⟨[], row, hrow, fun _ => rfl⟩
  | cons c text ih =>
    by_cases hbrk : brk c
    · obtain ⟨init, last, hlast, hall⟩ := ih hzero
      refine ⟨row :: init, last, hlast, fun cs => ?_⟩
      rw [List.cons_append, rowsFrom, if_pos hbrk, hall, List.cons_append]
    by_cases hfull : row.length + 1 = width
    · obtain ⟨init, last, hlast, hall⟩ := ih hzero
      refine ⟨(row ++ [c]) :: init, last, hlast, fun cs => ?_⟩
      rw [List.cons_append, rowsFrom, if_neg hbrk, if_pos hfull, hall, List.cons_append]
    · obtain ⟨init, last, hlast, hall⟩ := @ih (row ++ [c]) (by rw [List.length_append, List.length_singleton]; omega)
      refine ⟨init, last, hlast, fun cs => ?_⟩
      rw [List.cons_append, rowsFrom, if_neg hbrk, if_neg hfull, hall]

/-- An element of a list with one more at its end. -/
lemma getD_snoc {β : Type} {l : List β} {b d : β} {i : Nat} :
    (l ++ [b]).getD i d = if i < l.length then l.getD i d else if i = l.length then b else d := by
  rcases Nat.lt_trichotomy i l.length with hi | hi | hi
  · rw [if_pos hi, List.getD_append _ _ _ _ hi]
  · rw [if_neg (by omega), if_pos hi, hi, List.getD_append_right _ _ _ _ (Nat.le_refl _), Nat.sub_self,
      List.getD_cons_zero]
  · rw [if_neg (by omega), if_neg (by omega), List.getD_eq_default]
    rw [List.length_append, List.length_singleton]
    omega

/-- What is shown in a cell: the last rows are on the screen. -/
lemma shown_eq : shown height blank rows y x = (rows.getD (rows.length - height + y) []).getD x blank := by
  simp only [shown, List.getD_eq_getElem?_getD, List.getElem?_drop]

/-- What is shown when there is one more row. -/
lemma shown_snoc : shown height blank (rows ++ [row]) y x =
    ((rows ++ [row]).getD (rows.length + 1 - height + y) []).getD x blank := by
  rw [shown_eq, List.length_append, List.length_singleton]

/-- A row that is begun while there is room for it below the others. -/
lemma shown_newRow_of_lt (h : rows.length < height) :
    shown height blank (rows ++ [[]]) y x = shown height blank rows y x := by
  have htop : rows.length + 1 - height + y = y := by omega
  have htop' : rows.length - height + y = y := by omega
  rw [shown_snoc, shown_eq, getD_snoc, htop, htop']
  split
  · rfl
  · next hy =>
    have hnone : rows.getD y [] = [] := List.getD_eq_default _ _ (Nat.not_lt.mp hy)
    rw [ite_self, hnone]

/-- A row that is begun below the last one of the window moves the others up. -/
lemma shown_newRow_of_le (h : height ≤ rows.length) (hy : y < height) : shown height blank (rows ++ [[]]) y x =
    if y + 1 < height then shown height blank rows (y + 1) x else blank := by
  have hindex : rows.length + 1 - height + y = rows.length - height + (y + 1) := by omega
  rw [shown_snoc, shown_eq, getD_snoc, hindex]
  by_cases hlast : y + 1 < height
  · rw [if_pos hlast, if_pos (by omega)]
  · rw [if_neg hlast, if_neg (by omega), ite_self]
    rfl

/-- A character at the end of the last row. -/
lemma shown_put (hy : y < height) : shown height blank (init ++ [last ++ [c]]) y x =
    if y = min init.length (height - 1) ∧ x = last.length then c else shown height blank (init ++ [last]) y x := by
  have hrow : init.length + 1 - height + y = init.length ↔ y = min init.length (height - 1) := by omega
  rw [shown_snoc, shown_snoc, getD_snoc, getD_snoc]
  generalize init.length + 1 - height + y = k at *
  rcases Nat.lt_trichotomy k init.length with hk | hk | hk
  · rw [if_pos hk, if_pos hk, if_neg fun h => (Nat.ne_of_lt hk) (hrow.mpr h.1)]
  · have hk' : ¬ k < init.length := by omega
    rw [if_neg hk', if_neg hk', if_pos hk, if_pos hk, getD_snoc]
    rcases Nat.lt_trichotomy x last.length with hx | hx | hx
    · rw [if_pos hx, if_neg (by omega)]
    · rw [if_neg (by omega), if_pos hx, if_pos ⟨hrow.mp hk, hx⟩]
    · have hnone : last.getD x blank = blank := List.getD_eq_default _ _ (Nat.le_of_lt hx)
      rw [if_neg (by omega), if_neg (by omega), if_neg (by omega), hnone]
  · have hk' : ¬ k < init.length := by omega
    have hk'' : ¬ k = init.length := by omega
    rw [if_neg hk', if_neg hk', if_neg hk'', if_neg hk'', if_neg (fun h => hk'' (hrow.mpr h.1))]

end Boss.Lib.Text
