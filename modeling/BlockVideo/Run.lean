import BlockVideo.Fault

/-!
# Runs

A run is a stretch of consecutive entries of a vector, given by its start and its length.
`window` and `replace` read and write one and fault when the vector ends first; `overwrite` writes
as much of one as fits. `requireRows` asks for several at once, a stride apart.
-/

namespace BlockVideo.Run

variable {α : Type} {n k : Nat}

def window (v : Vector α n) (start length : Nat) : Checked (Vector α length) :=
  if h : start + length ≤ n then
    .ok (Vector.ofFn fun i => v[start + i.val])
  else
    .error (.runOutside start length n)

/-- `v` with the entries from `start` on replaced by the `k` values of `f`. Values past the end of
`v` are dropped. -/
def overwrite (v : Vector α n) (start : Nat) (f : Fin k → α) : Vector α n :=
  Fin.foldl k (fun acc i => acc.setIfInBounds (start + i.val) (f i)) v

theorem overwrite_succ (v : Vector α n) (start : Nat) (f : Fin (k + 1) → α) :
    overwrite v start f =
      (overwrite v start fun i => f i.castSucc).setIfInBounds (start + k) (f (Fin.last k)) := by
  simp [overwrite, Fin.foldl_succ_last]

theorem getElem_overwrite (v : Vector α n) (start : Nat) (f : Fin k → α) (j : Nat) (hj : j < n) :
    (overwrite v start f)[j] =
      if h : start ≤ j ∧ j < start + k then f ⟨j - start, by omega⟩ else v[j] := by
  induction k with
  | zero =>
    rw [dif_neg (by omega)]
    simp [overwrite]
  | succ k ih =>
    simp only [overwrite_succ, Vector.getElem_setIfInBounds, ih]
    by_cases e : start + k = j
    · subst e
      rw [if_pos rfl, dif_pos (by omega)]
      congr 1
      apply Fin.ext
      simp
    · rw [if_neg e]
      by_cases h : start ≤ j ∧ j < start + k
      · rw [dif_pos h, dif_pos (by omega)]
        rfl
      · rw [dif_neg h, dif_neg (by omega)]

/-- All entries from `start` on give way to those of another vector. -/
theorem getElem_overwrite_rest (v : Vector α n) (start : Nat) (rest : Vector α (n - start))
    (j : Nat) (hj : j < n) : (overwrite v start rest.get)[j] =
      if h : start ≤ j then getElem rest (j - start) (Nat.sub_lt_sub_right h hj) else v[j] := by
  rw [getElem_overwrite]
  by_cases h : start ≤ j
  · rw [dif_pos ⟨h, by omega⟩, dif_pos h]
    rfl
  · rw [dif_neg fun h' => h h'.1, dif_neg h]

/-- `overwrite` for values that have to fit. -/
def replace (v : Vector α n) (start : Nat) (f : Fin k → α) : Checked (Vector α n) :=
  if start + k ≤ n then .ok (overwrite v start f) else .error (.runOutside start k n)

/-- Whether `rows` runs of `length` entries each, which start at `0`, `stride`, `2 * stride`, …, lie
in a vector of `n` entries. The last one decides. -/
def HoldsRows (n stride length rows : Nat) : Prop := rows = 0 ∨ (rows - 1) * stride + length ≤ n

instance (n stride length rows : Nat) : Decidable (HoldsRows n stride length rows) :=
  inferInstanceAs (Decidable (_ ∨ _))

theorem holdsRows_iff {n stride length rows : Nat} :
    HoldsRows n stride length rows ↔ ∀ r, r < rows → r * stride + length ≤ n := by
  constructor
  · rintro (rfl | h) r hr
    · exact absurd hr (Nat.not_lt_zero r)
    · have := Nat.mul_le_mul_right stride (show r ≤ rows - 1 by omega)
      omega
  · intro h
    by_cases h0 : rows = 0
    · exact .inl h0
    · exact .inr (h (rows - 1) (by omega))

def requireRows (n stride length rows : Nat) : Checked Unit :=
  if HoldsRows n stride length rows then .ok ()
  else .error (.runOutside 0 ((rows - 1) * stride + length) n)

theorem requireRows_eq_ok_iff {n stride length rows : Nat} :
    requireRows n stride length rows = .ok () ↔ HoldsRows n stride length rows := by
  unfold requireRows
  split <;> simp_all

theorem window_eq_ok {v : Vector α n} {start : Nat} (h : start + k ≤ n) :
    window v start k = .ok (Vector.ofFn fun i => v[start + i.val]) := dif_pos h

theorem replace_eq_ok {v : Vector α n} {start : Nat} {f : Fin k → α} (h : start + k ≤ n) :
    replace v start f = .ok (overwrite v start f) := if_pos h

theorem window_isOk_iff {v : Vector α n} {start : Nat} :
    (∃ w, window v start k = .ok w) ↔ start + k ≤ n := by
  unfold window
  split <;> simp_all

end BlockVideo.Run
