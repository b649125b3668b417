import Mathlib.Data.List.DropRight
import Mathlib.Data.List.Induction
import Mathlib.Tactic.Common

/-!
# Lines of a text

A text is a list and its lines are the pieces between separators (`List.splitOn`). `eachLine` treats the lines one by
one, and the rules say where a text may be cut: behind a separator (`eachLine_append`), and elsewhere if and only if the
two parts of the line that is cut are together treated like the line (`eachLine_append_iff`).

`Bounded n` is for readers with a buffer of `n` bytes: no line is longer, its separator included. Inductions over texts
are by lines (`line_induction`). A reader that does not look at lines gets `pieces` of a fixed size.
-/

namespace Boss.Lib.Lines

variable {α β : Type} [DecidableEq α] {sep : α} {f : List α → List β} {l t t' w : List α} {n : Nat}

/-- What a function makes of the lines, one after another. -/
def eachLine (sep : α) (f : List α → List β) (t : List α) : List β := (t.splitOn sep).flatMap f

/-- Complete lines, each with its separator. -/
def Whole (sep : α) (w : List α) : Prop := w = [] ∨ ∃ v, w = v ++ [sep]

/-- What is behind the last separator. -/
def lastLine (sep : α) (t : List α) : List α := t.rtakeWhile (· != sep)

/-- What is before the first separator. -/
def firstLine (sep : α) (t : List α) : List α := t.takeWhile (· != sep)

/-- No line has more than `n` characters, where a separator counts as part of its line. -/
def Bounded (sep : α) (n : Nat) (t : List α) : Prop :=
  (∀ l ∈ (t.splitOn sep).dropLast, l.length + 1 ≤ n) ∧ ∀ l ∈ (t.splitOn sep).getLast?, l.length ≤ n

omit [DecidableEq α] in
/-- The characters of a line are not separators. -/
lemma ne_of_notMem (h : sep ∉ l) : ∀ x ∈ l, x ≠ sep := fun _ hx e => h (e ▸ hx)

/-- A separator ends the first line. -/
lemma splitOn_line (h : sep ∉ l) : (l ++ sep :: t).splitOn sep = l :: t.splitOn sep :=
  List.splitOnP_append_cons_of_forall_mem (fun x hx => beq_false_of_ne (ne_of_notMem h x hx)) _ (beq_self_eq_true sep) _

/-- Without a separator there is one line. -/
lemma splitOn_last (h : sep ∉ l) : l.splitOn sep = [l] :=
  List.splitOnP_eq_singleton fun x hx => beq_false_of_ne (ne_of_notMem h x hx)

/-- A text is a line, or a line and a text. -/
lemma line_cases (sep : α) (t : List α) : sep ∉ t ∨ ∃ l t', t = l ++ sep :: t' ∧ sep ∉ l := by
  by_cases h : sep ∈ t
  · exact Or.inr (List.eq_append_cons_of_mem h)
  · exact Or.inl h

/-- Texts are built from their last line by putting lines before it. -/
theorem line_induction {motive : List α → Prop} (last : ∀ l, sep ∉ l → motive l)
    (line : ∀ l t, sep ∉ l → motive t → motive (l ++ sep :: t)) (t : List α) : motive t := by
  induction hn : t.length using Nat.strongRecOn generalizing t with
  | ind n ih =>
    rcases line_cases sep t with h | ⟨l, t', rfl, hl⟩
    · exact last t h
    · refine line l t' hl (ih t'.length ?_ t' rfl)
      rw [← hn, List.length_append, List.length_cons]
      omega

/-! ### Treating lines -/

/-- The first line comes first. -/
lemma eachLine_line (h : sep ∉ l) : eachLine sep f (l ++ sep :: t) = f l ++ eachLine sep f t := by
  rw [eachLine, splitOn_line h, List.flatMap_cons]
  rfl

/-- A text of one line. -/
lemma eachLine_last (h : sep ∉ l) : eachLine sep f l = f l := by
  rw [eachLine, splitOn_last h, List.flatMap_singleton]

/-- Nothing comes of an empty text, if nothing comes of an empty line. -/
lemma eachLine_nil (hf : f [] = []) : eachLine sep f [] = [] := (eachLine_last List.not_mem_nil).trans hf

/-- Texts may be cut behind a separator. -/
lemma eachLine_append (hf : f [] = []) (hw : Whole sep w) :
    eachLine sep f (w ++ t) = eachLine sep f w ++ eachLine sep f t := by
  rcases hw with rfl | ⟨v, rfl⟩
  · rw [eachLine_nil hf]
    rfl
  · induction v using line_induction with
    | last l h =>
      rw [List.append_assoc, List.singleton_append, eachLine_line h, eachLine_line h, eachLine_nil hf, List.append_nil]
    | line l v h ih =>
      rw [List.append_assoc l, List.cons_append, List.append_assoc l, List.cons_append, eachLine_line h, eachLine_line h,
        ih, List.append_assoc]

/-- Cut behind its last separator, a text consists of whole lines. -/
lemma whole_rdropWhile : Whole sep (t.rdropWhile (· != sep)) := by
  by_cases hnil : t.rdropWhile (· != sep) = []
  · exact Or.inl hnil
  · have hlast := List.rdropWhile_last_not _ _ hnil
    have hsep : (t.rdropWhile (· != sep)).getLast hnil = sep := by simpa using hlast
    refine Or.inr ⟨(t.rdropWhile (· != sep)).dropLast, ?_⟩
    conv_lhs => rw [← List.dropLast_concat_getLast hnil, hsep]

/-- The last line is a line. -/
lemma sep_notMem_lastLine : sep ∉ lastLine sep t := by
  intro h
  have := List.mem_rtakeWhile_imp h
  simp at this

/-- The last line of a text of one line. -/
lemma lastLine_last (h : sep ∉ l) : lastLine sep l = l :=
  List.rtakeWhile_eq_self_iff.mpr fun x hx => bne_iff_ne.mpr (ne_of_notMem h x hx)

/-- The first line of a text of one line. -/
lemma firstLine_last (h : sep ∉ l) : firstLine sep l = l :=
  List.takeWhile_eq_self_iff.mpr fun x hx => bne_iff_ne.mpr (ne_of_notMem h x hx)

/-- The first line ends at the first separator. -/
lemma firstLine_line (h : sep ∉ l) : firstLine sep (l ++ sep :: t) = l := by
  rw [firstLine, List.takeWhile_append_of_pos fun x hx => bne_iff_ne.mpr (ne_of_notMem h x hx),
    List.takeWhile_cons_of_neg (by simp), List.append_nil]

/-- Complete lines do not change what is behind the last separator. -/
lemma lastLine_line : lastLine sep (l ++ sep :: t) = lastLine sep t := by
  induction t using List.reverseRecOn with
  | nil => exact List.rtakeWhile_concat_neg _ _ _ (by simp)
  | append_singleton t a ih =>
    rw [← List.cons_append, ← List.append_assoc, lastLine, lastLine, List.rtakeWhile_concat, List.rtakeWhile_concat]
    split
    · exact congrArg (· ++ [a]) ih
    · rfl

/-- A text is complete lines and what is behind them. -/
lemma exists_whole (sep : α) (t : List α) : ∃ w, t = w ++ lastLine sep t ∧ Whole sep w :=
  ⟨_, List.rdropWhile_append_rtakeWhile.symm, whole_rdropWhile⟩

/-- Something that is put before a text goes into its first line. -/
lemma eachLine_firstLine (sep : α) (f : List α → List β) (t : List α) :
    ∃ r, ∀ l, sep ∉ l → eachLine sep f (l ++ t) = f (l ++ firstLine sep t) ++ r := by
  rcases line_cases sep t with h | ⟨l', t', rfl, hl'⟩
  · refine ⟨[], fun l hl => ?_⟩
    rw [eachLine_last (List.not_mem_append hl h), firstLine_last h, List.append_nil]
  · refine ⟨eachLine sep f t', fun l hl => ?_⟩
    rw [← List.append_assoc, eachLine_line (List.not_mem_append hl hl'), firstLine_line hl']

/-- A cut matters only for the line that is cut. -/
theorem eachLine_append_iff (hf : f [] = []) : eachLine sep f (t ++ t') = eachLine sep f t ++ eachLine sep f t' ↔
    f (lastLine sep t ++ firstLine sep t') = f (lastLine sep t) ++ f (firstLine sep t') := by
  obtain ⟨w, ht, hw⟩ := exists_whole sep t
  obtain ⟨r, hr⟩ := eachLine_firstLine sep f t'
  have hcut : eachLine sep f (t ++ t') = eachLine sep f w ++ (f (lastLine sep t ++ firstLine sep t') ++ r) := by
    conv_lhs => rw [ht, List.append_assoc, eachLine_append hf hw, hr _ sep_notMem_lastLine]
  have hleft : eachLine sep f t = eachLine sep f w ++ f (lastLine sep t) := by
    conv_lhs => rw [ht, eachLine_append hf hw, eachLine_last sep_notMem_lastLine]
  have hright : eachLine sep f t' = f (firstLine sep t') ++ r := hr [] List.not_mem_nil
  rw [hcut, hleft, hright, List.append_assoc, List.append_cancel_left_eq, ← List.append_assoc,
    List.append_cancel_right_eq]

/-! ### Short lines -/

/-- A bound for a text, by its first line; the separator counts. -/
lemma bounded_line (h : sep ∉ l) : Bounded sep n (l ++ sep :: t) ↔ l.length + 1 ≤ n ∧ Bounded sep n t := by
  have hne : t.splitOn sep ≠ [] := List.splitOn_ne_nil _ _
  have hlast : (l :: t.splitOn sep).getLast? = (t.splitOn sep).getLast? := by
    rw [List.getLast?_cons, List.getLast?_eq_some_getLast hne, Option.getD_some]
  rw [Bounded, splitOn_line h, List.dropLast_cons_of_ne_nil hne, List.forall_mem_cons, and_assoc, hlast]
  rfl

/-- A bound for a text of one line. -/
lemma bounded_last (h : sep ∉ l) : Bounded sep n l ↔ l.length ≤ n := by
  rw [Bounded, splitOn_last h]
  simp

/-- A bound for a text is one for its tail. -/
lemma Bounded.tail {a : α} (h : Bounded sep n (a :: t)) : Bounded sep n t := by
  rcases line_cases sep (a :: t) with hlast | ⟨l, t', ht, hl⟩
  · have hlen : t.length + 1 ≤ n := (bounded_last hlast).mp h
    exact (bounded_last (List.not_mem_of_not_mem_cons hlast)).mpr (by omega)
  · rw [ht] at h
    obtain ⟨hlen, hrest⟩ := (bounded_line hl).mp h
    cases l with
    | nil =>
      cases ht
      exact hrest
    | cons b l =>
      cases ht
      rw [List.length_cons] at hlen
      exact (bounded_line (List.not_mem_of_not_mem_cons hl)).mpr ⟨by omega, hrest⟩

/-- The rest of a text has short lines, wherever it is cut. -/
lemma Bounded.right (h : Bounded sep n (t ++ t')) : Bounded sep n t' := by
  induction t with
  | nil => exact h
  | cons a t ih => exact ih h.tail

/-- A line of `n` characters without a separator is the last one. -/
lemma Bounded.eq_nil (h : Bounded sep n (l ++ t)) (hl : sep ∉ l) (hlen : n ≤ l.length) : t = [] := by
  rcases line_cases sep t with ht | ⟨l', t', rfl, hl'⟩
  · have hle := (bounded_last (List.not_mem_append hl ht)).mp h
    rw [List.length_append] at hle
    exact List.length_eq_zero_iff.mp (by omega)
  · rw [← List.append_assoc] at h
    have hle := ((bounded_line (List.not_mem_append hl hl')).mp h).1
    rw [List.length_append] at hle
    omega

/-! ### Pieces of a fixed size -/

omit [DecidableEq α]

/-- Pieces of `n` elements, and a last one of what is left. -/
def pieces (n : Nat) (t : List α) : List (List α) :=
  (List.range ((t.length + n - 1) / n)).map fun k => (t.drop (n * k)).take n

/-- An empty text has no pieces. -/
lemma pieces_nil : pieces n ([] : List α) = [] := by
  have hzero : (n - 1) / n = 0 := by
    rcases Nat.eq_zero_or_pos n with rfl | hn
    · rfl
    · exact Nat.div_eq_of_lt (by omega)
  rw [pieces, List.length_nil, Nat.zero_add, hzero]
  rfl

/-- The first piece is a full one, or all that is left. -/
lemma pieces_cons (hn : 0 < n) (h : t ≠ []) : pieces n t = t.take n :: pieces n (t.drop n) := by
  have hlen := List.length_pos_iff.mpr h
  have hcount : (t.length + n - 1) / n = ((t.drop n).length + n - 1) / n + 1 := by
    rw [List.length_drop]
    by_cases hle : n ≤ t.length
    · have hsplit : t.length + n - 1 = t.length - n + n - 1 + n := by omega
      rw [hsplit, Nat.add_div_right _ hn]
    · have hzero : t.length - n + n - 1 = n - 1 := by omega
      rw [hzero, Nat.div_eq_of_lt (by omega : n - 1 < n)]
      exact Nat.div_eq_of_lt_le (by omega) (by omega)
  rw [pieces, hcount, List.range_succ_eq_map, List.map_cons, Nat.mul_zero, List.drop_zero, List.map_map, pieces]
  refine congrArg _ (List.map_congr_left fun k _ => ?_)
  rw [Function.comp_apply, List.drop_drop, Nat.mul_succ, Nat.add_comm]

/-- An induction over the pieces. -/
theorem piece_induction {motive : List α → Prop} (hn : 0 < n) (nil : motive [])
    (piece : ∀ t, t ≠ [] → motive (t.drop n) → motive t) (t : List α) : motive t := by
  induction hlen : t.length using Nat.strongRecOn generalizing t with
  | ind m ih =>
    by_cases h : t = []
    · exact h ▸ nil
    · have hpos := List.length_pos_iff.mpr h
      exact piece t h (ih _ (by rw [List.length_drop]; omega) _ rfl)

/-- The pieces make up the text. -/
lemma flatten_pieces (hn : 0 < n) : (pieces n t).flatten = t := by
  induction t using piece_induction hn with
  | nil => rw [pieces_nil]; rfl
  | piece t h ih => rw [pieces_cons hn h, List.flatten_cons, ih, List.take_append_drop]

end Boss.Lib.Lines
