import Boss.Terminal.Reader

/-!
# Index bounds of the input line

Which key presses keep `line_buffer_index` at most `MAX_BUF_INDEX` and every index into `line_buffer` and
`cmd_hist` inside the arrays. Every key but UP and DOWN does. UP and DOWN replace one recalled command by
another: they count the index down by the length of one history row, up by one, and up again by the length
of another, whatever the line holds at that moment. `recallFits` is the exact condition for that to stay
in range; UP further needs a row to take off the line (`upFits`), which it does not have at `cmdCount` 0.

An `Effect` describes a piece of the handler by two functions of the starting index: when the piece stays
in bounds, and the index it then leaves. Effects compose, so the loops and the two keys are computed from
their parts. The console of the machine adds readers on all terminals and a history that may change at any
time; its runs keep the bounds exactly when every UP and DOWN is pressed where it fits.
-/

namespace Boss
open Lib

namespace Handler
variable {h h' h1 h2 : Handler} {ok ok' ok1 ok2 : Nat → Prop} {next next' next1 next2 : Nat → Nat}
variable {row : Mem} {r : Int} {body : Nat → Handler → Handler} {i fuel : Nat} {c : UInt8}

/-! ### The length of a row -/

/-- The column where a history loop stops. -/
def rowScan (row : Mem) : (fuel i : Nat) → Nat
  | 0, i => i
  | fuel + 1, i => if rowGoesOn row i then rowScan row fuel (i + 1) else i

/-- The length of a command of the history, as the history loops see it. -/
def rowLen (row : Mem) : Nat := rowScan row 127 0

/-- The scan goes up. -/
lemma le_rowScan : i ≤ rowScan row fuel i := by
  induction fuel generalizing i with
  | zero => exact Nat.le_refl i
  | succ fuel ih =>
    simp only [rowScan]
    split
    · exact Nat.le_trans (Nat.le_succ i) ih
    · exact Nat.le_refl i

/-- The scan ends with its fuel. -/
lemma rowScan_le : rowScan row fuel i ≤ i + fuel := by
  induction fuel generalizing i with
  | zero => exact Nat.le_refl i
  | succ fuel ih =>
    simp only [rowScan]
    split
    · have := ih (i := i + 1)
      omega
    · omega

/-- A history loop stops where its tests say, whatever its body does. -/
lemma historyLoop_fst : (historyLoop row r body fuel i h).1 = rowScan row fuel i := by
  induction fuel generalizing i h with
  | zero => rfl
  | succ fuel ih =>
    simp only [historyLoop, rowScan]
    split
    · exact ih
    · rfl

/-! ### Effects -/

/-- Every index used so far is in bounds. -/
def Fine (h : Handler) : Prop := ∀ e ∈ h.trace, e.InBounds

/-- Uses are added to the trace and never taken out. -/
def Grows (h h' : Handler) : Prop := h.trace <+: h'.trace

/-- Nothing has been accessed. -/
lemma Grows.refl : Grows h h := List.prefix_refl _

/-- Accesses, and more accesses. -/
lemma Grows.trans (a : Grows h h1) (b : Grows h1 h2) : Grows h h2 := List.IsPrefix.trans a b

/-- The count of commands is no access that is traced. -/
lemma Grows.setCount {v : Nat} (a : Grows h h1) : Grows h (h1.setCount v) := a

/-- The trace is only added to. -/
lemma grows_append {T : Terminal} {l : List Event} : Grows h ⟨T, h.trace ++ l⟩ := List.prefix_append _ _

/-- What came before was in bounds, if all that followed was. -/
lemma Fine.of_grows (hg : Grows h h') (hf : h'.Fine) : h.Fine :=
  fun e he => hf e (List.IsPrefix.subset hg he)

/-- Accesses that are added must be in bounds themselves. -/
lemma fine_append {T : Terminal} {l : List Event} (hf : h.Fine) :
    Fine ⟨T, h.trace ++ l⟩ ↔ ∀ e ∈ l, e.InBounds := by
  constructor
  · intro H e he
    exact H e (List.mem_append_right _ he)
  · intro H e he
    rcases List.mem_append.mp he with he | he
    · exact hf e he
    · exact H e he

/-- From an index `x` in range, the piece from `h` to `h'` stays in bounds exactly when `ok x`, and then
leaves the index `next x`. It does not change the history. -/
structure Effect (h h' : Handler) (ok : Nat → Prop) (next : Nat → Nat) : Prop where
  hist : h'.term.cmdHist = h.term.cmdHist
  grows : Grows h h'
  fine : h.Fine → h.term.lineBufferIndex ≤ maxBufIndex → (h'.Fine ↔ ok h.term.lineBufferIndex)
  index : h.term.lineBufferIndex ≤ maxBufIndex → ok h.term.lineBufferIndex →
    h'.term.lineBufferIndex = next h.term.lineBufferIndex

namespace Effect

/-- Doing nothing is always fine. -/
lemma refl : Effect h h (fun _ => True) id where
  hist := rfl
  grows := Grows.refl
  fine := fun hf _ => ⟨fun _ => trivial, fun _ => hf⟩
  index := fun _ _ => rfl

/-- One piece after another. -/
lemma comp (a : Effect h h1 ok1 next1) (b : Effect h1 h2 ok2 next2)
    (range : ∀ x ≤ maxBufIndex, ok1 x → next1 x ≤ maxBufIndex) :
    Effect h h2 (fun x => ok1 x ∧ ok2 (next1 x)) (fun x => next2 (next1 x)) where
  hist := b.hist.trans a.hist
  grows := a.grows.trans b.grows
  fine := by
    intro hf hx
    constructor
    · intro hf2
      have hf1 := hf2.of_grows b.grows
      have ok1x := (a.fine hf hx).mp hf1
      have e := a.index hx ok1x
      refine ⟨ok1x, ?_⟩
      rw [← e]
      exact (b.fine hf1 (e ▸ range _ hx ok1x)).mp hf2
    · rintro ⟨ok1x, ok2x⟩
      have hf1 := (a.fine hf hx).mpr ok1x
      have e := a.index hx ok1x
      exact (b.fine hf1 (e ▸ range _ hx ok1x)).mpr (e ▸ ok2x)
  index := by
    rintro hx ⟨ok1x, ok2x⟩
    have e := a.index hx ok1x
    rw [b.index (e ▸ range _ hx ok1x) (e ▸ ok2x), e]

/-- Effects are used up to what they say about indices in range. -/
lemma congr (a : Effect h h' ok next) (hok : ∀ x ≤ maxBufIndex, (ok x ↔ ok' x))
    (hnext : ∀ x ≤ maxBufIndex, ok' x → next x = next' x) : Effect h h' ok' next' where
  hist := a.hist
  grows := a.grows
  fine := fun hf hx => (a.fine hf hx).trans (hok _ hx)
  index := fun hx hk => (a.index hx ((hok _ hx).mpr hk)).trans (hnext _ hx hk)

/-- A piece after one that leaves the line index alone. -/
lemma after (b : Effect h1 h2 ok next) (a : Effect h h1 (fun _ => True) id) : Effect h h2 ok next := by
  refine (a.comp b (fun x hx _ => hx)).congr ?_ ?_
  · intro x _
    exact iff_of_eq (true_and _)
  · intro x _ _
    rfl

/-- A piece before one that leaves the line index alone. -/
lemma before (a : Effect h h1 ok next) (b : Effect h1 h2 (fun _ => True) id)
    (range : ∀ x ≤ maxBufIndex, ok x → next x ≤ maxBufIndex) : Effect h h2 ok next := by
  refine (a.comp b range).congr ?_ ?_
  · intro x _
    exact iff_of_eq (and_true _)
  · intro x _ _
    rfl

/-- A piece that uses indices in bounds only and leaves the line index alone. -/
lemma quiet {T : Terminal} {l : List Event} (hist : T.cmdHist = h.term.cmdHist)
    (index : T.lineBufferIndex = h.term.lineBufferIndex) (hl : ∀ e ∈ l, e.InBounds) :
    Effect h ⟨T, h.trace ++ l⟩ (fun _ => True) id where
  hist := hist
  grows := grows_append
  fine := fun hf _ => ⟨fun _ => trivial, fun _ => (fine_append hf).mpr hl⟩
  index := fun _ _ => index

/-- A store to the line index. -/
lemma setIndex (f : Nat → Nat) :
    Effect h (h.setIndex (f h.term.lineBufferIndex)) (fun x => f x ≤ maxBufIndex) f where
  hist := rfl
  grows := grows_append
  fine := by
    intro hf _
    refine (fine_append hf).trans ?_
    simp [Event.InBounds]
  index := fun _ _ => rfl

/-- The line gets longer, up to its bound. -/
lemma incIndex : Effect h h.incIndex (fun x => x + 1 ≤ maxBufIndex) (· + 1) := by
  have e : ∀ x ≤ maxBufIndex, inc32 x = x + 1 := by
    intro x hx
    unfold maxBufIndex at hx
    exact inc32_of_lt (by omega)
  refine (setIndex inc32).congr ?_ ?_
  · intro x hx
    rw [e x hx]
  · intro x hx _
    exact e x hx

/-- The line gets shorter, down to 0. -/
lemma decIndex : Effect h h.decIndex (fun x => 1 ≤ x) (· - 1) := by
  refine (setIndex dec32).congr ?_ ?_
  · intro x hx
    unfold maxBufIndex dec32 at *
    omega
  · intro x hx h1
    unfold maxBufIndex dec32 at *
    omega

/-- A store inside of the line buffer. -/
lemma putLine (hi : i ≤ 127) : Effect h (h.putLine i c) (fun _ => True) id := by
  refine quiet (T := { h.term with lineBuffer := Function.update h.term.lineBuffer i c }) rfl rfl ?_
  intro e he
  cases List.mem_singleton.mp he
  exact hi

/-- Loads inside of the history. -/
lemma readHist {cols : List Nat} (h0 : 0 ≤ r) (h4 : r ≤ 4) (hc : ∀ j ∈ cols, j ≤ 127) :
    Effect h (h.readHist r cols) (fun _ => True) id := by
  apply quiet rfl rfl
  intro e he
  obtain ⟨j, hj, rfl⟩ := List.mem_map.mp he
  exact ⟨h0, h4, hc j hj⟩

/-- The screen is not what is bounded here. -/
lemma draw {f : Terminal → Terminal} (hf : h.term.SameInput (f h.term)) :
    Effect h (h.draw f) (fun _ => True) id := by
  have q := quiet (h := h) (l := []) hf.hist hf.index (by simp)
  rwa [List.append_nil] at q

/-- The count of commands is not what is bounded here. -/
lemma setCount {v : Nat} : Effect h (h.setCount v) (fun _ => True) id := by
  have q := quiet (h := h) (T := { h.term with cmdCount := v }) (l := []) rfl rfl (by simp)
  rwa [List.append_nil] at q

/-- A history loop repeats the effect of its body once for each column of the row. -/
lemma historyLoop {okB : Nat → Prop} {nextB : Nat → Nat} (ok : Nat → Nat → Prop)
    (next : Nat → Nat → Nat) (h0 : 0 ≤ r) (h4 : r ≤ 4)
    (hbody : ∀ i ≤ 126, ∀ h, Effect h (body i h) okB nextB)
    (hrange : ∀ x ≤ maxBufIndex, okB x → nextB x ≤ maxBufIndex)
    (zero : ∀ x ≤ maxBufIndex, ok 0 x ∧ next 0 x = x)
    (succ : ∀ k, ∀ x ≤ maxBufIndex, (ok (k + 1) x ↔ okB x ∧ ok k (nextB x)) ∧
      (ok (k + 1) x → next (k + 1) x = next k (nextB x)))
    (hi : i + fuel ≤ 127) :
    Effect h (Handler.historyLoop row r body fuel i h).2 (ok (rowScan row fuel i - i))
      (next (rowScan row fuel i - i)) := by
  induction fuel generalizing i h with
  | zero =>
    simp only [Handler.historyLoop, rowScan, Nat.sub_self]
    refine refl.congr ?_ ?_
    · intro x hx
      exact ⟨fun _ => (zero x hx).1, fun _ => trivial⟩
    · intro x hx _
      exact (zero x hx).2.symm
  | succ fuel ih =>
    have htest : Effect h (h.readHist r [i, i + 1]) (fun _ => True) id := by
      apply readHist h0 h4
      intro j hj
      simp only [List.mem_cons, List.not_mem_nil, or_false] at hj
      omega
    simp only [Handler.historyLoop, rowScan]
    split
    · have hle : i + 1 ≤ rowScan row fuel (i + 1) := le_rowScan
      have hlen : rowScan row fuel (i + 1) - i = (rowScan row fuel (i + 1) - (i + 1)) + 1 := by omega
      have hiter := (htest.comp (hbody i (by omega) _) (fun x hx _ => hx)).comp
        (ih (i := i + 1) (h := body i (h.readHist r [i, i + 1])) (by omega)) (fun x hx hk => hrange x hx hk.2)
      rw [hlen]
      refine hiter.congr ?_ ?_
      · intro x hx
        simp only [id, true_and]
        exact (succ _ x hx).1.symm
      · intro x hx hk
        exact ((succ _ x hx).2 hk).symm
    · simp only [Nat.sub_self]
      refine htest.congr ?_ ?_
      · intro x hx
        exact ⟨fun _ => (zero x hx).1, fun _ => trivial⟩
      · intro x hx _
        exact (zero x hx).2.symm

/-- A character is taken off the line. -/
lemma eraseBody (hi : i ≤ 126) : Effect h (Handler.eraseBody i h) (fun x => 1 ≤ x) (· - 1) := by
  refine (decIndex.after (putLine (by omega))).before (draw Terminal.termDeleteChar_input) ?_
  intro x hx _
  exact Nat.le_trans (Nat.sub_le x 1) hx

/-- A character of the history is put into the line. -/
lemma showBody (h0 : 0 ≤ r) (h4 : r ≤ 4) (hi : i ≤ 126) :
    Effect h (Handler.showBody row r i h) (fun x => x + 1 ≤ maxBufIndex) (· + 1) := by
  have hread : Effect h (h.readHist r [i]) (fun _ => True) id := by
    apply readHist h0 h4
    intro j hj
    cases List.mem_singleton.mp hj
    omega
  exact ((incIndex.after (putLine (by omega))).after hread).before (draw Terminal.termPutc_input)
    (fun _ _ hk => hk)

/-- Taking row `r` off the line. -/
lemma eraseRow {below : Mem} (h0 : 0 ≤ r) (h4 : r ≤ 4) :
    Effect h (Handler.eraseRow below r h)
      (fun x => rowLen (h.term.cmdHist r.toNat) ≤ x ∧
        x - rowLen (h.term.cmdHist r.toNat) + 1 ≤ maxBufIndex)
      (fun x => x - rowLen (h.term.cmdHist r.toNat) + 1) := by
  have hrow : h.histRow below r = h.term.cmdHist r.toNat := if_neg (by omega)
  have hloop : Effect h
      (Handler.historyLoop (h.term.cmdHist r.toNat) r Handler.eraseBody 127 0 h).2 _ _ :=
    historyLoop (fun k x => k ≤ x) (fun k x => x - k) h0 h4 (fun i hi h => eraseBody hi)
      (by intro x hx _; omega) (by intro x _; omega) (by intro k x _; omega) (by omega)
  have hcol : rowScan (h.term.cmdHist r.toNat) 127 0 ≤ 0 + 127 := rowScan_le
  unfold Handler.eraseRow
  simp only [hrow, historyLoop_fst]
  refine (hloop.comp (incIndex.after (putLine (by omega))) ?_).before
    (draw Terminal.termDeleteChar_input) ?_
  · intro x hx _
    exact Nat.le_trans (Nat.sub_le x _) hx
  · intro x _ hk
    exact hk.2

/-- Putting row `r` on the line. -/
lemma showRow {r : Nat} (h4 : r ≤ 4) :
    Effect h (Handler.showRow r h) (fun x => x + rowLen (h.term.cmdHist r) ≤ maxBufIndex)
      (fun x => x + rowLen (h.term.cmdHist r)) :=
  historyLoop (fun k x => x + k ≤ maxBufIndex) (fun k x => x + k) (by omega) (by omega)
    (fun i hi h => showBody (by omega) (by omega) hi) (fun _ _ hk => hk)
    (by intro x hx; omega) (by intro k x _; omega) (by omega)

end Effect

/-! ### Frames of the history loops -/

/-- A loop that goes on has read two bytes of the row. -/
lemma historyLoop_grows (hb : ∀ i h, Grows h (body i h)) :
    Grows (h.readHist r [i, i + 1]) (historyLoop row r body (fuel + 1) i h).2 := by
  induction fuel generalizing i h with
  | zero =>
    simp only [historyLoop]
    split
    · exact hb _ _
    · exact Grows.refl
  | succ fuel ih =>
    rw [historyLoop]
    split
    · exact (hb _ _).trans (grows_append.trans ih)
    · exact Grows.refl

/-- What the body leaves alone, the loop leaves alone. -/
lemma historyLoop_frame {α : Type} {f : Terminal → α} (hb : ∀ i h, f (body i h).term = f h.term) :
    f (historyLoop row r body fuel i h).2.term = f h.term := by
  induction fuel generalizing i h with
  | zero => rfl
  | succ fuel ih =>
    simp only [historyLoop]
    split
    · exact ih.trans (hb _ _)
    · rfl

/-- Taking off a character leaves the count. -/
lemma eraseBody_count : (eraseBody i h).term.cmdCount = h.term.cmdCount := by
  rw [eraseBody, (draw_input Terminal.termDeleteChar_input).count, decIndex, setIndex_count, putLine_count]

/-- Showing a character leaves the count. -/
lemma showBody_count : (showBody row r i h).term.cmdCount = h.term.cmdCount := by
  rw [showBody, (draw_input Terminal.termPutc_input).count, incIndex, setIndex_count, putLine_count,
    readHist_term]

/-- Taking off a row leaves the count. -/
lemma eraseRow_count {below : Mem} : (eraseRow below r h).term.cmdCount = h.term.cmdCount := by
  have hloop : (historyLoop (h.histRow below r) r eraseBody 127 0 h).2.term.cmdCount =
      h.term.cmdCount := historyLoop_frame fun _ _ => eraseBody_count
  rw [eraseRow, (draw_input Terminal.termDeleteChar_input).count, incIndex, setIndex_count,
    putLine_count, hloop]

/-- Showing a row leaves the count. -/
lemma showRow_count {r : Nat} : (showRow r h).term.cmdCount = h.term.cmdCount :=
  historyLoop_frame fun _ _ => showBody_count

/-- Showing a row is only added to the trace. -/
lemma showRow_grows {r : Nat} : Grows h (showRow r h) := by
  refine grows_append.trans (historyLoop_grows fun i h => ?_)
  exact (grows_append.trans grows_append).trans grows_append

/-- Row -1 is read before anything else happens to it. -/
lemma eraseRow_below {below : Mem} (hr : r < 0) : ¬ (eraseRow below r h).Fine := by
  intro hf
  have hloop : Grows (h.readHist r [0, 0 + 1])
      (historyLoop (h.histRow below r) r eraseBody (126 + 1) 0 h).2 :=
    historyLoop_grows fun i h => grows_append.trans grows_append
  have hrow : Grows (h.readHist r [0, 0 + 1]) (eraseRow below r h) := by
    unfold eraseRow
    exact hloop.trans (grows_append.trans grows_append)
  have hneg := hf (.cmdHist r 0) (List.IsPrefix.subset hrow (by simp [readHist]))
  exact absurd hneg.1 (by omega)

/-! ### The history keys -/

end Handler

namespace Terminal
open Handler

/-- Replacing a recalled command of length `off` by one of length `on` keeps the index `x` in range. -/
def recallFits (off on x : Nat) : Prop := off ≤ x ∧ x - off + 1 + on ≤ maxBufIndex

/-- The row DOWN takes off the line. -/
def downRow (T : Terminal) : Nat := max T.cmdCount 1 - 1

/-- The length of what DOWN puts on the line: the same row again, or nothing after row 0. -/
def downShown (T : Terminal) : Nat :=
  if T.downRow ≠ 0 ∧ T.downRow < 4 then rowLen (T.cmdHist T.downRow) else 0

/-- UP fits: there is a row to take off, and the next one has room. -/
def upFits (T : Terminal) : Prop :=
  1 ≤ T.cmdCount ∧ recallFits (rowLen (T.cmdHist (T.cmdCount - 1))) (rowLen (T.cmdHist T.cmdCount))
    T.lineBufferIndex

/-- DOWN fits. -/
def downFits (T : Terminal) : Prop :=
  recallFits (rowLen (T.cmdHist T.downRow)) T.downShown T.lineBufferIndex

instance (off on x : Nat) : Decidable (recallFits off on x) := instDecidableAnd

instance (T : Terminal) : Decidable T.upFits := instDecidableAnd

instance (T : Terminal) : Decidable T.downFits := inferInstanceAs (Decidable (recallFits _ _ _))

/-- The state of a terminal between interrupts. -/
def Ok (T : Terminal) : Prop := T.lineBufferIndex ≤ maxBufIndex ∧ T.cmdCount ≤ 4

end Terminal

namespace Handler
variable {h : Handler} {below : Mem}

/-- One recalled command off the line, another on it. -/
lemma Effect.recall {h1 h2 : Handler} {off on : Nat}
    (herase : Effect h h1 (fun x => off ≤ x ∧ x - off + 1 ≤ maxBufIndex) (fun x => x - off + 1))
    (hshow : Effect h1 h2 (fun x => x + on ≤ maxBufIndex) (fun x => x + on)) :
    Effect h h2 (Terminal.recallFits off on) (fun x => x - off + 1 + on) := by
  refine (herase.comp hshow (fun x _ hk => hk.2)).congr ?_ ?_
  · intro x _
    unfold Terminal.recallFits
    omega
  · intro x _ _
    rfl

/-- UP, on a line that shows a recalled command: take its row off and put the next one on. -/
lemma keyUp_effect (below : Mem) (h1 : 1 ≤ h.term.cmdCount) (h4 : h.term.cmdCount ≤ 4) :
    Effect h (keyUp below h)
      (Terminal.recallFits (rowLen (h.term.cmdHist (h.term.cmdCount - 1)))
        (rowLen (h.term.cmdHist h.term.cmdCount)))
      (fun x => x - rowLen (h.term.cmdHist (h.term.cmdCount - 1)) + 1 +
        rowLen (h.term.cmdHist h.term.cmdCount)) ∧ (keyUp below h).term.cmdCount ≤ 4 := by
  have hecho : Effect h (h.draw (.termPutc 32)) _ _ := .draw Terminal.termPutc_input
  have hcount : (h.draw (.termPutc 32)).term.cmdCount = h.term.cmdCount :=
    (draw_input Terminal.termPutc_input).count
  unfold keyUp
  generalize h.draw (.termPutc 32) = h0 at hecho hcount ⊢
  simp only [eraseRow_count, showRow_count, hcount]
  have herase : Effect h0 (eraseRow below ((h.term.cmdCount : Int) - 1) h0) _ _ :=
    .eraseRow (by omega) (by omega)
  have hshow : Effect (eraseRow below ((h.term.cmdCount : Int) - 1) h0) _ _ _ := .showRow h4
  have hrow : ((h.term.cmdCount : Int) - 1).toNat = h.term.cmdCount - 1 := by omega
  rw [herase.hist] at hshow
  rw [hecho.hist] at hshow herase
  rw [hrow] at herase
  have hrecall := (herase.recall hshow).after hecho
  split
  · exact ⟨hrecall.before .setCount (fun _ _ hk => hk.2), by assumption⟩
  · refine ⟨hrecall, ?_⟩
    rw [showRow_count, eraseRow_count, hcount]
    exact h4

/-- DOWN takes off the row before the next one, and shows that row again unless it is row 0. -/
lemma keyDown_effect (below : Mem) (h4 : h.term.cmdCount ≤ 4) :
    Effect h (keyDown below h)
      (Terminal.recallFits (rowLen (h.term.cmdHist h.term.downRow)) h.term.downShown)
      (fun x => x - rowLen (h.term.cmdHist h.term.downRow) + 1 + h.term.downShown) ∧
      (keyDown below h).term.cmdCount = h.term.downRow := by
  have hecho : Effect h (h.draw (.termPutc 32)) _ _ := .draw Terminal.termPutc_input
  have hcount : (h.draw (.termPutc 32)).term.cmdCount = h.term.cmdCount :=
    (draw_input Terminal.termPutc_input).count
  have hdown : h.term.downRow = max h.term.cmdCount 1 - 1 := rfl
  unfold keyDown
  generalize h.draw (.termPutc 32) = h0 at hecho hcount ⊢
  -- from here on `cmdCount` is at least 1
  obtain ⟨h1, hh1, hstart, hmax⟩ : ∃ h1, h1 = (if h0.term.cmdCount = 0 then h0.setCount 1 else h0) ∧
      Effect h h1 (fun _ => True) id ∧ h1.term.cmdCount = max h.term.cmdCount 1 := by
    refine ⟨_, rfl, ?_, ?_⟩
    · split
      · exact Effect.setCount.after hecho
      · exact hecho
    · split
      · simp only [setCount]
        omega
      · omega
  simp only [← hh1]
  have herase : Effect h1 (eraseRow below ((h1.term.cmdCount : Int) - 1) h1) _ _ :=
    .eraseRow (by omega) (by omega)
  have hrow : ((h1.term.cmdCount : Int) - 1).toNat = h.term.downRow := by omega
  rw [hstart.hist, hrow] at herase
  have hcount2 : (eraseRow below ((h1.term.cmdCount : Int) - 1) h1).term.cmdCount =
      max h.term.cmdCount 1 := eraseRow_count.trans hmax
  generalize eraseRow below ((h1.term.cmdCount : Int) - 1) h1 = h2 at herase hcount2 ⊢
  have hset := herase.before (Effect.setCount (v := h2.term.cmdCount - 1)) (fun _ _ hk => hk.2)
  have hcount3 : (h2.setCount (h2.term.cmdCount - 1)).term.cmdCount = h.term.downRow := by
    rw [hdown, ← hcount2]
    rfl
  generalize h2.setCount (h2.term.cmdCount - 1) = h3 at hset hcount3 ⊢
  simp only [hcount3]
  split
  · next hc =>
    have hshown : h.term.downShown = rowLen (h.term.cmdHist h.term.downRow) := if_pos hc
    have hshow : Effect h3 (showRow h.term.downRow h3) _ _ := .showRow (by omega)
    rw [hset.hist, hstart.hist] at hshow
    rw [hshown]
    exact ⟨(hset.recall hshow).after hstart, showRow_count.trans hcount3⟩
  · next hc =>
    have hshown : h.term.downShown = 0 := if_neg hc
    rw [hshown]
    exact ⟨hset.after hstart, hcount3⟩

/-! ### The other keys -/

/-- A terminal in order, after uses in bounds only. -/
def Safe (h : Handler) : Prop := h.Fine ∧ h.term.Ok

namespace Safe

/-- More accesses in bounds, and a terminal in order. -/
lemma append {T : Terminal} {l : List Event} (hs : h.Safe) (hl : ∀ e ∈ l, e.InBounds) (hT : T.Ok) :
    Safe ⟨T, h.trace ++ l⟩ :=
  ⟨(fine_append hs.1).mpr hl, hT⟩

/-- A store inside of the line buffer. -/
lemma putLine {i : Nat} {c : UInt8} (hs : h.Safe) (hi : i ≤ 127) : (h.putLine i c).Safe := by
  refine hs.append ?_ hs.2
  intro e he
  cases List.mem_singleton.mp he
  exact hi

/-- An index inside of the line buffer. -/
lemma setIndex {v : Nat} (hs : h.Safe) (hv : v ≤ maxBufIndex) : (h.setIndex v).Safe := by
  refine hs.append ?_ ⟨hv, hs.2.2⟩
  intro e he
  cases List.mem_singleton.mp he
  exact hv

/-- Drawing on the screen. -/
lemma draw {f : Terminal → Terminal} (hs : h.Safe) (hf : h.term.SameInput (f h.term)) :
    (h.draw f).Safe :=
  ⟨hs.1, hf.index.trans_le hs.2.1, hf.count.trans_le hs.2.2⟩

end Safe

/-- ENTER is always safe. -/
lemma keyEnter_safe (hs : h.Safe) : (keyEnter h).Safe := by
  have hcount : (h.setCount 0).Safe := ⟨hs.1, hs.2.1, Nat.zero_le 4⟩
  have hput : ((h.setCount 0).putLine h.term.lineBufferIndex 10).Safe := hcount.putLine hs.2.1
  have htyping : (((h.setCount 0).putLine h.term.lineBufferIndex 10).setTyping false).Safe := hput
  exact htyping.draw Terminal.newRow_input

/-- BACKSPACE is always safe. -/
lemma keyBackspace_safe (hs : h.Safe) : (keyBackspace h).Safe := by
  unfold keyBackspace
  split
  · next hpos =>
    have hdraw : (h.draw .termDeleteChar).Safe := hs.draw Terminal.termDeleteChar_input
    have hle := hs.2.1
    apply hdraw.setIndex
    rw [(draw_input Terminal.termDeleteChar_input).index]
    unfold maxBufIndex dec32 at *
    omega
  · exact hs

/-- Clearing the line is always safe. -/
lemma clearLine_safe {fuel : Nat} (hs : h.Safe) : (clearLine fuel h).Safe := by
  induction fuel generalizing h with
  | zero => exact hs
  | succ fuel ih =>
    unfold clearLine
    split
    · next hpos =>
      have hle := hs.2.1
      apply ih
      apply (hs.putLine hle).setIndex
      simp only [putLine]
      unfold maxBufIndex dec32 at *
      omega
    · exact hs

/-- CTRL-L is always safe. -/
lemma keyReset_safe (hs : h.Safe) : (keyReset h).Safe := by
  have hdraw : (h.draw .termClear).Safe := ⟨hs.1, hs.2⟩
  exact (clearLine_safe hdraw).setIndex (Nat.zero_le _)

/-- A character is always safe: a full line takes no more. -/
lemma keyChar_safe {c : UInt8} (hs : h.Safe) : (keyChar c h).Safe := by
  unfold keyChar
  split
  · next hlt =>
    have hput : (h.putLine h.term.lineBufferIndex c).Safe := hs.putLine (Nat.le_of_lt hlt)
    have hecho : ((h.putLine h.term.lineBufferIndex c).draw (.termPutc c)).Safe :=
      hput.draw Terminal.termPutc_input
    have hdraw := hecho.draw Terminal.scrollCorner_input
    apply hdraw.setIndex
    rw [(draw_input Terminal.scrollCorner_input).index, (draw_input Terminal.termPutc_input).index,
      putLine_index]
    unfold maxBufIndex at hlt ⊢
    rw [inc32_of_lt (by omega)]
    omega
  · exact hs

/-- UP begins by taking off the row it shows. -/
lemma keyUp_grows : Grows ((h.draw (.termPutc 32)).eraseRow below
    (((h.draw (.termPutc 32)).term.cmdCount : Int) - 1)) (keyUp below h) := by
  unfold keyUp
  extract_lets h0 h1 h2
  have hshow : Grows h1 h2 := showRow_grows
  split
  · exact hshow.setCount
  · exact hshow

/-- UP stays in bounds exactly where it fits. -/
lemma keyUp_fine_iff (hs : h.Safe) : (keyUp below h).Fine ↔ h.term.upFits := by
  rcases Nat.eq_zero_or_pos h.term.cmdCount with hc | hc
  · refine iff_of_false ?_ (fun hfit => absurd hfit.1 (by omega))
    intro hf
    have hcount : (h.draw (.termPutc 32)).term.cmdCount = 0 := (draw_input Terminal.termPutc_input).count.trans hc
    exact eraseRow_below (by omega) (hf.of_grows keyUp_grows)
  · refine ((keyUp_effect below hc hs.2.2).1.fine hs.1 hs.2.1).trans ?_
    exact ⟨fun hk => ⟨hc, hk⟩, fun hk => hk.2⟩

/-- UP is safe if the rows fit. -/
lemma keyUp_safe (hs : h.Safe) (hfit : h.term.upFits) : (keyUp below h).Safe := by
  obtain ⟨heff, hcount⟩ := keyUp_effect below hfit.1 hs.2.2
  refine ⟨(keyUp_fine_iff hs).mpr hfit, ?_, hcount⟩
  rw [heff.index hs.2.1 hfit.2]
  exact hfit.2.2

/-- DOWN stays in bounds exactly where it fits. -/
lemma keyDown_fine_iff (hs : h.Safe) : (keyDown below h).Fine ↔ h.term.downFits :=
  (keyDown_effect below hs.2.2).1.fine hs.1 hs.2.1

/-- DOWN is safe if the rows fit. -/
lemma keyDown_safe (hs : h.Safe) (hfit : h.term.downFits) : (keyDown below h).Safe := by
  obtain ⟨heff, hcount⟩ := keyDown_effect below hs.2.2
  have hle := hs.2.2
  refine ⟨(keyDown_fine_iff hs).mpr hfit, ?_, ?_⟩
  · rw [heff.index hs.2.1 hfit]
    exact hfit.2
  · rw [hcount]
    unfold Terminal.downRow
    omega

end Handler

/-! ### The console -/

/-- The driver, a reader for the one process that can read each terminal, and the indices the last step
used. -/
structure Console where
  tty : Tty
  readers : TermId → Reader
  trace : List Event

/-- What happens to the console. -/
inductive ConsoleInput
  | key (k : Press)
  | call (t : TermId) (nbytes : Nat)
  | read (t : TermId)
  | history (t : TermId) (rows : Nat → Mem)

/-- The console as a machine. A process calls `terminal_read` when it has no call pending; `history` is
`execute` storing commands. -/
def consoleSystem : System Console ConsoleInput where
  step c
    | .key k =>
      let (tty, trace) := c.tty.keyIrqHandler k.below k.data
      some { c with tty, trace }
    | .call t nbytes =>
      match c.readers t with
      | .idle => some { c with readers := Function.update c.readers t (.waiting nbytes), trace := [] }
      | _ => none
    | .read t =>
      let (R, h) := (c.readers t).step (c.tty.terminals t)
      some ⟨c.tty.setTerminal t h.term, Function.update c.readers t R, h.trace⟩
    | .history t rows =>
      some { c with tty := c.tty.setTerminal t { c.tty.terminals t with cmdHist := rows }, trace := [] }

namespace Console

/-- After `keyboard_install`, whatever the arrays hold. -/
def install (terminals : TermId → Terminal) : Console :=
  ⟨Tty.keyboardInstall terminals, fun _ => .idle, []⟩

/-- Every line index is in range and the last step used indices in bounds only. -/
def InRange (c : Console) : Prop :=
  (∀ t, (c.tty.terminals t).lineBufferIndex ≤ maxBufIndex) ∧ ∀ e ∈ c.trace, e.InBounds

instance : DecidablePred InRange := fun _ => instDecidableAnd

/-- The displayed terminal. -/
def displayed (c : Console) : Terminal := c.tty.terminals c.tty.curTerminal

/-- A key is pressed where it fits. -/
def Fits (c : Console) : ConsoleInput → Prop
  | .key k => (k.data = 0x48 → c.displayed.upFits) ∧ (k.data = 0x50 → c.displayed.downFits)
  | _ => True

end Console

namespace Tty
variable {s : Tty} {f : Handler → Handler} {below : TermId → Mem} {data scancode : UInt8}

/-- All terminals in order, all uses in bounds. -/
def Safe (r : Tty × List Event) : Prop := (∀ t, (r.1.terminals t).Ok) ∧ ∀ e ∈ r.2, e.InBounds

/-- One terminal is replaced by one in order. -/
lemma setTerminal_ok {t : TermId} {T : Terminal} (hs : ∀ t, (s.terminals t).Ok) (hT : T.Ok) :
    ∀ u, ((s.setTerminal t T).terminals u).Ok := by
  intro u
  simp only [setTerminal, Function.update_apply]
  split
  · exact hT
  · exact hs u

/-- What a key does to the displayed terminal is all it does. -/
lemma onCur_safe (hs : ∀ t, (s.terminals t).Ok)
    (hf : Handler.Safe ⟨s.terminals s.curTerminal, []⟩ →
      (f ⟨s.terminals s.curTerminal, []⟩).Safe) : Safe (s.onCur f) := by
  have h := hf ⟨by simp [Handler.Fine], hs _⟩
  exact ⟨setTerminal_ok hs h.2, h.1⟩

/-- Both ways of a test. -/
lemma Safe.ite {c : Prop} [Decidable c] {a b : Tty × List Event} (ha : c → Safe a)
    (hb : ¬ c → Safe b) : Safe (if c then a else b) := by
  split
  · next h => exact ha h
  · next h => exact hb h

/-- Every key press is safe where it fits. -/
lemma keyPressed_safe (hs : ∀ t, (s.terminals t).Ok)
    (hup : scancode = 0x48 → (s.terminals s.curTerminal).upFits)
    (hdown : scancode = 0x50 → (s.terminals s.curTerminal).downFits) :
    Safe (s.keyPressed below scancode) := by
  have still : ∀ s' : Tty, s'.terminals = s.terminals → Safe (s', []) := by
    intro s' e
    refine ⟨?_, by simp⟩
    intro t
    rw [e]
    exact hs t
  unfold keyPressed
  -- the modifier and lock keys
  refine .ite (fun _ => still _ rfl) fun _ => .ite (fun _ => still _ rfl) fun _ =>
    .ite (fun _ => still _ rfl) fun _ => .ite (fun _ => still _ rfl) fun _ =>
    .ite (fun _ => still _ rfl) fun _ => .ite (fun _ => still _ rfl) fun _ =>
    .ite (fun _ => still _ rfl) fun _ => ?_
  refine .ite (fun _ => onCur_safe hs Handler.keyEnter_safe) fun _ => ?_
  refine .ite (fun _ => onCur_safe hs Handler.keyBackspace_safe) fun _ => ?_
  refine .ite (fun hc => onCur_safe hs fun h => Handler.keyUp_safe h (hup hc)) fun _ => ?_
  refine .ite (fun hc => onCur_safe hs fun h => Handler.keyDown_safe h (hdown hc)) fun _ => ?_
  refine .ite (fun _ => onCur_safe hs Handler.keyReset_safe) fun _ => ?_
  -- the terminal switches
  refine .ite (fun _ => still _ rfl) fun _ => .ite (fun _ => still _ rfl) fun _ =>
    .ite (fun _ => still _ rfl) fun _ => ?_
  exact onCur_safe hs Handler.keyChar_safe

/-- A make code is its own scan code. -/
lemma scancode_of_make (hmake : data &&& 0x80 = 0) : data &&& 0x7F = data :=
  byte_cases (P := fun d => d &&& 0x80 = 0 → d &&& 0x7F = d) (by decide +kernel) data hmake

/-- Every byte from the keyboard is handled safely where it fits. -/
lemma keyIrqHandler_safe (hs : ∀ t, (s.terminals t).Ok)
    (hup : data = 0x48 → (s.terminals s.curTerminal).upFits)
    (hdown : data = 0x50 → (s.terminals s.curTerminal).downFits) :
    Safe (s.keyIrqHandler below data) := by
  unfold keyIrqHandler
  refine .ite (fun hmake => ?_) fun _ => ?_
  · rw [scancode_of_make hmake]
    exact keyPressed_safe hs hup hdown
  · refine ⟨fun t => ?_, by simp⟩
    rw [keyReleased_frame.1]
    exact hs t

/-- The key UP. -/
lemma keyIrqHandler_up : s.keyIrqHandler below 0x48 = s.onCur (.keyUp (below s.curTerminal)) := rfl

/-- The key DOWN. -/
lemma keyIrqHandler_down : s.keyIrqHandler below 0x50 = s.onCur (.keyDown (below s.curTerminal)) := rfl

/-- The accesses of the key are those of its branch. -/
lemma onCur_fine (h : ∀ e ∈ (s.onCur f).2, e.InBounds) : (f ⟨s.terminals s.curTerminal, []⟩).Fine := h

end Tty

/-- The copy and the clearing loop of a read end with the line buffer. -/
def Reader.Ok : Reader → Prop
  | .copying n _ => n ≤ 128
  | .clearing n _ _ => n ≤ 128
  | _ => True

/-- A step of a read is safe on a terminal in order. -/
lemma Reader.step_safe {T : Terminal} {R : Reader} (hT : T.Ok) (hR : R.Ok) :
    (R.step T).1.Ok ∧ (R.step T).2.Safe := by
  have hs : Handler.Safe ⟨T, []⟩ := ⟨by simp [Handler.Fine], hT⟩
  have hinc : inc32 T.lineBufferIndex ≤ 128 := by
    have := hT.1
    unfold maxBufIndex at this
    rw [inc32_of_lt (by omega)]
    omega
  cases R with
  | idle => exact ⟨trivial, hs⟩
  | waiting n =>
    refine ⟨?_, hs⟩
    simp only [step]
    split
    · trivial
    · trivial
  | typing n => exact ⟨trivial, hs.1, hT⟩
  | testing n =>
    refine ⟨?_, hs⟩
    simp only [step]
    split
    · trivial
    · next hle => exact Nat.le_trans (Nat.not_lt.mp hle) hinc
  | clamping => exact ⟨hinc, hs⟩
  | copying n buf =>
    simp only [step]
    split
    · next hlt =>
      refine ⟨hR, hs.append ?_ hT⟩
      intro e he
      cases List.mem_singleton.mp he
      exact Nat.le_of_lt_succ (Nat.lt_of_lt_of_le hlt hR)
    · exact ⟨hR, hs⟩
  | clearing n i buf =>
    simp only [step]
    split
    · next hlt => exact ⟨hR, hs.putLine (Nat.le_of_lt_succ (Nat.lt_of_lt_of_le hlt hR))⟩
    · exact ⟨trivial, hs⟩
  | resetting buf => exact ⟨trivial, hs.setIndex (Nat.zero_le _)⟩
  | returning buf => exact ⟨trivial, hs⟩

namespace Console
variable {c c' : Console} {i : ConsoleInput}

/-- Terminals and readers in order. -/
def Ordered (c : Console) : Prop := (∀ t, (c.tty.terminals t).Ok) ∧ ∀ t, (c.readers t).Ok

/-- One reader is replaced by one in order. -/
lemma Ordered.setReader {t : TermId} {R : Reader} (hc : ∀ t, (c.readers t).Ok) (hR : R.Ok) :
    ∀ u, (Function.update c.readers t R u).Ok := by
  intro u
  simp only [Function.update_apply]
  split
  · exact hR
  · exact hc u

/-- A step where it fits keeps the console in order and in range. -/
lemma step_fits (hc : c.Ordered) (hfit : c.Fits i) (hst : consoleSystem.step c i = some c') :
    c'.Ordered ∧ c'.InRange := by
  have inRange : ∀ c : Console, c.Ordered → (∀ e ∈ c.trace, e.InBounds) → c.Ordered ∧ c.InRange :=
    fun c hc ht => ⟨hc, fun t => (hc.1 t).1, ht⟩
  cases i with
  | key k =>
    obtain ⟨hok, htrace⟩ : Tty.Safe (c.tty.keyIrqHandler k.below k.data) :=
      Tty.keyIrqHandler_safe hc.1 hfit.1 hfit.2
    cases hst
    exact inRange _ ⟨hok, hc.2⟩ htrace
  | call t nbytes =>
    simp only [consoleSystem] at hst
    split at hst
    · cases hst
      exact inRange _ ⟨hc.1, Ordered.setReader hc.2 trivial⟩ (by simp)
    · cases hst
  | read t =>
    obtain ⟨hR, hs⟩ := Reader.step_safe (hc.1 t) (hc.2 t)
    cases hst
    exact inRange _ ⟨Tty.setTerminal_ok hc.1 hs.2, Ordered.setReader hc.2 hR⟩ hs.1
  | history t rows =>
    cases hst
    exact inRange _ ⟨Tty.setTerminal_ok hc.1 (hc.1 t), hc.2⟩ (by simp)

/-- The trace after a key is that of the handler. -/
lemma step_key_trace {k : Press} (hst : consoleSystem.step c (.key k) = some c') :
    c'.trace = (c.tty.keyIrqHandler k.below k.data).2 := by
  cases hst
  rfl

/-- A history key where it does not fit leaves the range. -/
lemma step_unfit (hc : c.Ordered) (hfit : ¬ c.Fits i) (hst : consoleSystem.step c i = some c') : ¬ c'.InRange := by
  cases i with
  | key k =>
    have hcur : Handler.Safe ⟨c.tty.terminals c.tty.curTerminal, []⟩ :=
      ⟨by simp [Handler.Fine], hc.1 _⟩
    rcases Classical.not_and_iff_not_or_not.mp hfit with h | h
    · obtain ⟨hdata, hup⟩ := Classical.not_imp.mp h
      intro hr
      have htrace := hr.2
      rw [step_key_trace hst, hdata, Tty.keyIrqHandler_up] at htrace
      exact hup ((Handler.keyUp_fine_iff hcur).mp (Tty.onCur_fine htrace))
    · obtain ⟨hdata, hdown⟩ := Classical.not_imp.mp h
      intro hr
      have htrace := hr.2
      rw [step_key_trace hst, hdata, Tty.keyIrqHandler_down] at htrace
      exact hdown ((Handler.keyDown_fine_iff hcur).mp (Tty.onCur_fine htrace))
  | call t nbytes => exact absurd trivial hfit
  | read t => exact absurd trivial hfit
  | history t rows => exact absurd trivial hfit

/-- Installed terminals are in order. -/
lemma install_ordered (terminals : TermId → Terminal) : (install terminals).Ordered :=
  ⟨fun _ => ⟨Nat.zero_le _, Nat.zero_le _⟩, fun _ => trivial⟩

/-- Installed terminals are in range. -/
lemma install_inRange (terminals : TermId → Terminal) : (install terminals).InRange :=
  ⟨fun _ => Nat.zero_le _, by simp [install]⟩

end Console

/-- Over any bytes from the keyboard, any reads and any history, the line indices stay in range and every
access in bounds exactly when UP and DOWN are pressed only where they fit. -/
theorem console_inRange_iff_fits (terminals : TermId → Terminal) (is : List ConsoleInput) (c : Console)
    (hr : consoleSystem.run (.install terminals) is = some c) :
    consoleSystem.Always Console.InRange (.install terminals) is ↔
      consoleSystem.Guarded Console.Fits (.install terminals) is :=
  System.always_iff_guarded (fun _ _ _ hc _ hfit hst => Console.step_fits hc hfit hst)
    (fun _ _ _ hc _ hfit hst => Console.step_unfit hc hfit hst)
    (Console.install_ordered terminals) (Console.install_inRange terminals) hr

/-- A key with zeros before the history. -/
def ConsoleInput.plain (data : UInt8) : ConsoleInput := .key ⟨data, fun _ _ => 0⟩

/-- A letter, the command `a` stored by `execute`, DOWN where it takes that letter off, and UP. -/
def recallInputs : List ConsoleInput :=
  [.plain 0x1E, .history 0 fun _ => Function.update (fun _ => 0) 0 97, .plain 0x50, .plain 0x48]

/-- A line that is typed, taken back and recalled. -/
theorem console_inRange_iff_fits_typing :
    ∃ c, consoleSystem.run (.install fun _ => .blank) recallInputs = some c ∧
      (consoleSystem.Always Console.InRange (.install fun _ => .blank) recallInputs ↔
        consoleSystem.Guarded Console.Fits (.install fun _ => .blank) recallInputs) :=
  ⟨_, rfl, console_inRange_iff_fits _ _ _ rfl⟩

/-- UP as the first key reads row -1 of the history; DOWN pressed 128 times on an empty history drives the
line index past its bound. -/
theorem history_keys_leave_range :
    ¬ consoleSystem.Always Console.InRange (.install fun _ => .blank) [.plain 0x48] ∧
      ¬ consoleSystem.Always Console.InRange (.install fun _ => .blank) (List.replicate 128 (.plain 0x50)) := by
  decide +kernel

end Boss
