import BlockVideo.Prediction

/-!
# Rows written to a buffer

A loop that writes the rows of a rectangle to a buffer, their starts `stride` apart, goes through
when the last row ends in the buffer. As rows do not overlap, each place of the rectangle holds what
was written for it, and every other place what it held before (`Run.Written`).
-/

namespace BlockVideo

variable {α : Type} {n w h stride : Nat}

namespace Run

/-- `q` is `v` with the rows of `f` written to it. -/
structure Written (stride : Nat) (f : Fin h → Fin w → α) (v q : Vector α n) : Prop where
  written : ∀ (r : Fin h) (c : Fin w) (hj : r * stride + c < n), q[r.val * stride + c.val] = f r c
  kept : ∀ (j : Nat) (hj : j < n), (∀ (r : Fin h) (c : Fin w), r * stride + c ≠ j) → q[j] = v[j]

structure WrittenTo (stride : Nat) (f : Fin h → Fin w → α) (v : Vector α n) (k : Nat)
    (q : Vector α n) : Prop where
  written : ∀ (r : Fin h), r.val < k → ∀ (c : Fin w) (hj : r * stride + c < n),
    q[r.val * stride + c.val] = f r c
  kept : ∀ (j : Nat) (hj : j < n),
    (∀ (r : Fin h) (c : Fin w), r.val < k → r * stride + c ≠ j) → q[j] = v[j]

theorem WrittenTo.succ {f : Fin h → Fin w → α} {v q : Vector α n} {r : Fin h}
    (ih : WrittenTo stride f v r q) (hw : w ≤ stride) :
    WrittenTo stride f v (r + 1) (overwrite q (r * stride) (f r)) := by
  refine ⟨fun r' hr c hj => ?_, fun j hj hout => ?_⟩
  · have hc := c.isLt
    -- row `r` is the only one that the write meets
    have run : r * stride + 0 ≤ r' * stride + c ∧ r' * stride + c < r * stride + 0 + w ↔
        r'.val = r ∧ 0 ≤ c.val ∧ c.val < 0 + w := RowMajor.mem_run_iff (by omega) (by omega)
    have iff : r * stride ≤ r' * stride + c ∧ r' * stride + c < r * stride + w ↔ r'.val = r := by
      omega
    rw [getElem_overwrite]
    by_cases e : r'.val = r
    · rw [dif_pos (iff.2 e)]
      obtain rfl : r' = r := Fin.ext e
      congr 1
      apply Fin.ext
      simp
    · rw [dif_neg fun h' => e (iff.1 h')]
      exact ih.written r' (by omega) c hj
  · rw [getElem_overwrite, dif_neg, ih.kept j hj fun r' c hr => hout r' c (Nat.lt_succ_of_lt hr)]
    rintro ⟨hl, hu⟩
    exact hout r ⟨j - r * stride, by omega⟩ (Nat.lt_succ_self r) (by simp only; omega)

/-- Rows do not overlap, so a row is as it was until its turn comes. -/
theorem WrittenTo.row_kept {f : Fin h → Fin w → α} {v q : Vector α n} {r : Fin h}
    (done : WrittenTo stride f v r q) (hw : w ≤ stride) (c : Fin w) (hj : r * stride + c < n) :
    q[r.val * stride + c.val] = v[r.val * stride + c.val] := by
  refine done.kept _ hj fun r' c' hr e => ?_
  have := RowMajor.inj (Nat.lt_of_lt_of_le c'.isLt hw) (Nat.lt_of_lt_of_le c.isLt hw) e
  omega

/-- A loop whose steps replace the rows of a rectangle in turn. What a step puts into its row may
depend on what was there. -/
theorem foldlM_replace_of_kept {step : Vector α n → Fin h → Checked (Vector α n)}
    {f : Fin h → Fin w → α} (v : Vector α n)
    (hstep : ∀ u (r : Fin h), (∀ (c : Fin w) (hj : r * stride + c < n),
      u[r.val * stride + c.val] = v[r.val * stride + c.val]) →
      step u r = replace u (r * stride) (f r))
    (hw : w ≤ stride) (fits : HoldsRows n stride w h) :
    ∃ q, (List.finRange h).foldlM step v = .ok q ∧ Written stride f v q := by
  rw [holdsRows_iff] at fits
  obtain ⟨q, hq, done⟩ := foldlM_invariant (WrittenTo stride f v) step v
    ⟨fun _ hr => absurd hr (Nat.not_lt_zero _), fun _ _ _ => rfl⟩ fun r u ih =>
      ⟨_, (hstep u r fun c hj => ih.row_kept hw c hj).trans (replace_eq_ok (fits r r.isLt)),
        ih.succ hw⟩
  exact ⟨q, hq, fun r => done.written r r.isLt,
    fun j hj hout => done.kept j hj fun r c _ => hout r c⟩

theorem foldlM_replace {step : Vector α n → Fin h → Checked (Vector α n)} {f : Fin h → Fin w → α}
    (hstep : ∀ v r, step v r = replace v (r * stride) (f r)) (hw : w ≤ stride)
    (fits : HoldsRows n stride w h) (v : Vector α n) :
    ∃ q, (List.finRange h).foldlM step v = .ok q ∧ Written stride f v q :=
  foldlM_replace_of_kept v (fun u r _ => hstep u r) hw fits

end Run

namespace Tile

variable {v : Vector UInt8 n}

theorem ofBuffer_eq_ok (ok : Run.HoldsRows n stride w h) :
    ∃ t : Tile w h, ofBuffer v stride w h = .ok t ∧
      ∀ c r (hj : r.val * stride + c.val < n), t.get c r = v[r.val * stride + c.val] :=
  ⟨_, dif_pos ok, fun _ _ _ => get_ofFn ..⟩

theorem store_eq_ok (t : Tile w h) (hw : w ≤ stride) (ok : Run.HoldsRows n stride w h) :
    ∃ q, t.store stride v = .ok q ∧ Run.Written stride (fun r c => t.get c r) v q ∧
      ofBuffer q stride w h = .ok t := by
  obtain ⟨q, hq, written⟩ := Run.foldlM_replace (fun _ _ => rfl) hw ok v
  refine ⟨q, hq, written, ?_⟩
  obtain ⟨u, hu, read⟩ := ofBuffer_eq_ok (v := q) ok
  rw [hu]
  congr 1
  apply ext_get
  intro c r
  have hj : r.val * stride + c.val < n := by
    have := Run.holdsRows_iff.1 ok r r.isLt
    omega
  rw [read c r hj, written.written r c hj]

end Tile

end BlockVideo
