import Mathlib.Data.Fintype.Card
import Mathlib.Data.List.Nodup
import Mathlib.Logic.Function.Basic

/-!
# Singly linked lists

A chain has a head and, for each cell of a pool, a link to the next one. `Lists c l` says that the cells from the head
on are `l` and that the chain ends behind them. There is at most one such list (`Path.unique`) and it has no cell twice
(`Path.nodup`), so that a chain with a list is finite and without cycles.

`push` links a cell in at the front, and `store` changes the place where a link is kept: the head or the link of a cell.
A cell is taken out by storing its link where the link to it was (`Lists.unlink`). A cell that is pushed while it is in
the list closes a cycle, and there is no list any more (`not_lists_push`).
-/

namespace Boss.Lib

variable {ι : Type}

/-- The links from `p` on lead through the cells of the list and end. -/
inductive Path (next : ι → Option ι) : Option ι → List ι → Prop
  | nil : Path next none []
  | cons {i : ι} {l : List ι} : Path next (next i) l → Path next (some i) (i :: l)

/-- A cell that the links from `p` on lead to, whether they end or not. -/
inductive Reaches (next : ι → Option ι) : Option ι → ι → Prop
  | here {i : ι} : Reaches next (some i) i
  | next {i j : ι} : Reaches next (next i) j → Reaches next (some i) j

namespace Path
variable {next next' : ι → Option ι} {p : Option ι} {i : ι} {l l' l₁ l₂ : List ι}

/-- There is one way along the links. -/
lemma unique (h : Path next p l) (h' : Path next p l') : l = l' := by
  induction h generalizing l' with
  | nil =>
    cases h' with
    | nil => rfl
  | cons _ ih =>
    cases h' with
    | cons h' => rw [ih h']

/-- Links of cells that are not in the list do not matter. -/
lemma congr (h : Path next p l) (hnext : ∀ i ∈ l, next' i = next i) : Path next' p l := by
  induction h with
  | nil => exact .nil
  | @cons i l _ ih =>
    have htail := ih fun j hj => hnext j (List.mem_cons_of_mem _ hj)
    rw [← hnext i List.mem_cons_self] at htail
    exact .cons htail

/-- The rest of the list is behind the link of each of its cells. -/
lemma suffix (h : Path next p (l₁ ++ i :: l₂)) : Path next (next i) l₂ := by
  induction l₁ generalizing p with
  | nil =>
    cases h with
    | cons h => exact h
  | cons j l₁ ih =>
    cases h with
    | cons h => exact ih h

/-- A list that ends has no cell twice: the links behind both occurrences would lead through lists of different
lengths. -/
lemma nodup (h : Path next p l) : l.Nodup := by
  induction h with
  | nil => exact List.nodup_nil
  | @cons i l h ih =>
    refine List.nodup_cons.mpr ⟨fun hi => ?_, ih⟩
    obtain ⟨l₁, l₂, rfl⟩ := List.append_of_mem hi
    have hlen := congrArg List.length (h.unique h.suffix)
    rw [List.length_append, List.length_cons] at hlen
    omega

/-- A list that reaches a cell is the same up to there, whatever the link of this cell is. -/
lemma mem_of_congr (h : Path next p (l₁ ++ i :: l₂)) (hnext : ∀ j ∈ l₁, next' j = next j) (h' : Path next' p l) :
    i ∈ l := by
  induction l₁ generalizing p l with
  | nil =>
    cases h with
    | cons _ =>
      cases h' with
      | cons _ => exact List.mem_cons_self
  | cons j l₁ ih =>
    cases h with
    | cons h =>
      cases h' with
      | cons h' =>
        rw [hnext j List.mem_cons_self] at h'
        exact List.mem_cons_of_mem _ (ih h (fun k hk => hnext k (List.mem_cons_of_mem _ hk)) h')

/-- A new link of a cell leads from there on through another list. -/
lemma rewire [DecidableEq ι] {v : Option ι} (h : Path next p (l₁ ++ i :: l₂)) (hv : Path next v l) (hi : i ∉ l₁)
    (hi' : i ∉ l) : Path (Function.update next i v) p (l₁ ++ i :: l) := by
  induction l₁ generalizing p with
  | nil =>
    cases h with
    | cons _ =>
      refine .cons ?_
      rw [Function.update_self]
      exact hv.congr fun j hj => Function.update_of_ne (ne_of_mem_of_not_mem hj hi') _ _
  | cons j l₁ ih =>
    cases h with
    | cons h =>
      refine .cons ?_
      rw [Function.update_of_ne (List.ne_of_not_mem_cons hi).symm]
      exact ih h (List.not_mem_of_not_mem_cons hi)

/-- What is reached is on the way. -/
lemma reaches_iff (h : Path next p l) : Reaches next p i ↔ i ∈ l := by
  induction h with
  | nil =>
    refine ⟨fun h => ?_, fun h => absurd h List.not_mem_nil⟩
    cases h
  | @cons k l _ ih =>
    constructor
    · intro h
      cases h with
      | here => exact List.mem_cons_self
      | next h => exact List.mem_cons_of_mem _ (ih.mp h)
    · intro h
      rcases List.mem_cons.mp h with rfl | h
      · exact .here
      · exact .next (ih.mpr h)

end Path

/-- The head of a list, and the links of the cells. -/
structure Chain (ι : Type) where
  head : Option ι
  next : ι → Option ι

namespace Chain
variable {c : Chain ι} {i : ι} {l l' l₁ l₂ : List ι}

/-- The cells of the list. -/
def Lists (c : Chain ι) (l : List ι) : Prop := Path c.next c.head l

/-- The cell is in the list. -/
def Has (c : Chain ι) (i : ι) : Prop := Reaches c.next c.head i

/-- What is in the chain is listed. -/
lemma Lists.has_iff (h : c.Lists l) : c.Has i ↔ i ∈ l := Path.reaches_iff h

/-- The link at a place: the head, or the link of a cell. -/
def load (c : Chain ι) : Option ι → Option ι
  | none => c.head
  | some i => c.next i

variable [DecidableEq ι]

/-- Change the link at a place. -/
def store (c : Chain ι) (v : Option ι) : Option ι → Chain ι
  | none => { c with head := v }
  | some i => { c with next := Function.update c.next i v }

/-- Link a cell in at the front. -/
def push (c : Chain ι) (i : ι) : Chain ι := ⟨some i, Function.update c.next i c.head⟩

/-- A new element at the head. -/
lemma Lists.push (h : c.Lists l) (hi : i ∉ l) : (c.push i).Lists (i :: l) := by
  refine .cons ?_
  have hhead : (c.push i).next i = c.head := Function.update_self ..
  rw [hhead]
  refine Path.congr h fun j hj => Function.update_of_ne ?_ _ _
  rintro rfl
  exact hi hj

/-- A cell that is linked in twice leads back to itself. -/
lemma not_lists_push (h : c.Lists l) (hi : i ∈ l) : ¬ (c.push i).Lists l' := by
  intro h'
  cases h' with
  | @cons _ l' h' =>
    have hhead : (c.push i).next i = c.head := Function.update_self ..
    rw [hhead] at h'
    obtain ⟨l₁, l₂, rfl, hl₁⟩ := List.eq_append_cons_of_mem hi
    have hmem : i ∈ l' := by
      refine Path.mem_of_congr h (fun j hj => Function.update_of_ne ?_ _ _) h'
      rintro rfl
      exact hl₁ hj
    have hpath : Path (c.push i).next (some i) (i :: l') := .cons (by rw [hhead]; exact h')
    exact (List.nodup_cons.mp hpath.nodup).1 hmem

/-- A cell is taken out of the list where its link is stored in place of the link to it. -/
lemma Lists.unlink (h : c.Lists (l₁ ++ i :: l₂)) : (c.store (c.next i) l₁.getLast?).Lists (l₁ ++ l₂) := by
  rcases List.eq_nil_or_concat l₁ with rfl | ⟨l₁, k, rfl⟩
  · exact Path.suffix h
  · have hrest : Path c.next (c.next i) l₂ := Path.suffix h
    have hnodup := Path.nodup h
    rw [List.concat_eq_append, List.append_assoc] at h hnodup
    obtain ⟨-, htail, hdisj⟩ := List.nodup_append.mp hnodup
    have hk : k ∉ l₁ := fun hk => hdisj k hk k List.mem_cons_self rfl
    have hk' : k ∉ l₂ := fun hk' => (List.nodup_cons.mp htail).1 (List.mem_cons_of_mem _ hk')
    rw [List.concat_eq_append, List.getLast?_concat, List.append_assoc]
    exact Path.rewire h hrest hk hk'

end Chain

end Boss.Lib
