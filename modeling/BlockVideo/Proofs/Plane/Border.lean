import BlockVideo.Plane.Border

/-!
# What the border holds

A bordered sample, counted from the corner of the border, is the visible sample nearest to it. Each
of the three loops that fill the border has an invariant that says how far it has come:
`extendRow` gives a row both its ends, and `copyRow` the rows above and below their only source.
-/

namespace BlockVideo

theorem foldl_invariant {α : Type} {n : Nat} (invariant : Nat → α → Prop) {f : α → Fin n → α}
    {a : α} (start : invariant 0 a)
    (step : ∀ (i : Fin n) b, invariant i b → invariant (i + 1) (f b i)) :
    invariant n (Fin.foldl n f a) := by
  induction n with
  | zero => exact start
  | succ n ih =>
    rw [Fin.foldl_succ_last]
    exact step (Fin.last n) _ (ih fun i b h => step i.castSucc b h)

/-- The visible place nearest to place `i` of a bordered line with `n` visible places. -/
def nearest (n border i : Nat) : Nat := min (i - border) (n - 1)

theorem nearest_lt {n : Nat} (h : 0 < n) (border i : Nat) : nearest n border i < n := by
  unfold nearest
  omega

/-- The place of `n` that is nearest to `u`. -/
def clampTo (n : Nat) (u : Int) : Nat := (max 0 (min u (n - 1))).toNat

theorem nearest_eq_clampTo {n : Nat} (h : 1 ≤ n) (border i : Nat) :
    nearest n border i = clampTo n (i - border) := by
  unfold nearest clampTo
  omega

namespace Plane

variable {l : Layout}

/-- A sample of a bordered row. Columns and rows count from the corner of the border. -/
def bordered (p : Plane l) (column : Fin (l.width + 2 * l.border))
    (row : Fin (l.height + 2 * l.border)) : UInt8 :=
  getElem p.samples (row * l.stride + column) (Layout.bordered_lt_size column.isLt row.isLt)

theorem get_eq_bordered (p : Plane l) (x : Fin l.width) (y : Fin l.height) :
    p.get x y = p.bordered ⟨x + l.border, by omega⟩ ⟨y + l.border, by omega⟩ := rfl

theorem bordered_overwrite (p : Plane l) {start k : Nat} (f : Fin k → UInt8) (row' first : Nat)
    (hs : start = row' * l.stride + first) (hk : first + k ≤ l.width + 2 * l.border)
    (column : Fin (l.width + 2 * l.border)) (row : Fin (l.height + 2 * l.border)) :
    (⟨Run.overwrite p.samples start f⟩ : Plane l).bordered column row =
      if h : row.val = row' ∧ first ≤ column.val ∧ column.val < first + k then
        f ⟨column - first, by omega⟩
      else p.bordered column row := by
  have hl := l.line_le_stride
  have hc := column.isLt
  have iff : start ≤ row * l.stride + column ∧ row * l.stride + column < start + k ↔
      row.val = row' ∧ first ≤ column.val ∧ column.val < first + k := by
    rw [hs]
    exact RowMajor.mem_run_iff (by omega) (by omega)
  simp only [bordered, Run.getElem_overwrite]
  by_cases h : row.val = row' ∧ first ≤ column.val ∧ column.val < first + k
  · rw [dif_pos h, dif_pos (iff.2 h)]
    congr 1
    apply Fin.ext
    simp only [hs, h.1]
    omega
  · rw [dif_neg h, dif_neg fun h' => h (iff.1 h')]

theorem get_overwrite (p : Plane l) {x y k : Nat} (f : Fin k → UInt8) (hk : x + k ≤ l.width)
    (column : Fin l.width) (row : Fin l.height) :
    (⟨Run.overwrite p.samples (l.index x y) f⟩ : Plane l).get column row =
      if h : row.val = y ∧ x ≤ column.val ∧ column.val < x + k then
        f ⟨column - x, Nat.sub_lt_left_of_lt_add h.2.1 h.2.2⟩
      else p.get column row := by
  refine (p.bordered_overwrite f (y + l.border) (x + l.border) rfl (by omega)
    ⟨column + l.border, by omega⟩ ⟨row + l.border, by omega⟩).trans ?_
  by_cases h : row.val = y ∧ x ≤ column.val ∧ column.val < x + k
  · rw [dif_pos h, dif_pos (by simp only; omega)]
    congr 1
    apply Fin.ext
    simp only
    omega
  · rw [dif_neg h, dif_neg (by simp only; omega)]
    rfl

variable (p : Plane l) (column : Fin (l.width + 2 * l.border))
  (row : Fin (l.height + 2 * l.border))

theorem bordered_copyRow (source target : Fin (l.height + 2 * l.border)) :
    (p.copyRow source target).bordered column row =
      if row = target then p.bordered column source else p.bordered column row := by
  refine (p.bordered_overwrite _ target 0 rfl (by omega) column row).trans ?_
  by_cases h : row = target
  · rw [dif_pos ⟨congrArg Fin.val h, Nat.zero_le _, by omega⟩, if_pos h]
    exact Vector.getElem_ofFn _
  · rw [dif_neg fun h' => h (Fin.ext h'.1), if_neg h]

theorem bordered_extendRow (first last : Fin l.width) (y : Fin l.height) :
    (p.extendRow first last y).bordered column row =
      if row.val = y + l.border then
        if column.val < l.border then p.get first y
        else if l.border + l.width ≤ column.val then p.get last y
        else p.bordered column row
      else p.bordered column row := by
  have left := p.bordered_overwrite (fun _ : Fin l.border => p.get first y) (y + l.border) 0
    (rfl : borderedStart l (y + l.border) = _) (by omega) column row
  have right := bordered_overwrite ⟨Run.overwrite p.samples (borderedStart l (y + l.border))
    fun _ : Fin l.border => p.get first y⟩ (fun _ : Fin l.border => p.get last y) (y + l.border)
    (l.border + l.width) (Nat.add_assoc (borderedStart l (y + l.border)) ..) (by omega) column row
  rw [left] at right
  refine right.trans ?_
  by_cases hr : row.val = y + l.border
  · rw [if_pos hr]
    rcases Nat.lt_or_ge column.val l.border with hc | hc
    · rw [dif_neg (by omega), dif_pos (by omega), if_pos hc]
    · rw [if_neg (Nat.not_lt.2 hc)]
      rcases Nat.lt_or_ge column.val (l.border + l.width) with hc' | hc'
      · rw [dif_neg (by omega), dif_neg (by omega), if_neg (Nat.not_le.2 hc')]
      · rw [dif_pos (by omega), if_pos hc']
  · rw [if_neg hr, dif_neg fun h => hr h.1, dif_neg fun h => hr h.1]

/-- After `k` rows, row `target i` for every `i` below `k`: they have the samples of row `source`,
and the rows that are no target are as before. -/
structure CopiedTo {n : Nat} (source : Nat) (target : Fin n → Nat) (p : Plane l) (k : Nat)
    (q : Plane l) : Prop where
  copied : ∀ (i : Fin n), i.val < k → ∀ row column src, row.val = target i → src.val = source →
    q.bordered column row = p.bordered column src
  kept : ∀ row column, (∀ i, target i ≠ row.val) → q.bordered column row = p.bordered column row

theorem copiedTo_foldl {n : Nat} (source : Fin (l.height + 2 * l.border))
    (target : Fin n → Fin (l.height + 2 * l.border)) (h : ∀ i, (target i).val ≠ source.val) :
    CopiedTo source.val (fun i => (target i).val) p n
      (Fin.foldl n (fun q i => q.copyRow source (target i)) p) := by
  refine foldl_invariant (CopiedTo source.val (fun i => (target i).val) p) ?_ fun k q ih => ?_
  · exact ⟨fun i hi => absurd hi (Nat.not_lt_zero i), fun _ _ _ => rfl⟩
  · refine ⟨fun i hi row column src hr hs => ?_, fun row column hr => ?_⟩
    · obtain rfl : src = source := Fin.ext hs
      rw [bordered_copyRow]
      by_cases e : row = target k
      · rw [if_pos e, ih.kept src column h]
      · rw [if_neg e]
        have hik : i.val ≠ k.val := fun hik => e (Fin.ext (by rw [hr, Fin.ext hik]))
        exact ih.copied i (by omega) row column src hr rfl
    · rw [bordered_copyRow, if_neg fun e => hr k (congrArg Fin.val e.symm), ih.kept row column hr]

/-- After `k` rows: they have both their ends, and the visible samples are as before. -/
structure ExtendedTo (hw : 0 < l.width) (p : Plane l) (k : Nat) (q : Plane l) : Prop where
  visible : ∀ x y, q.get x y = p.get x y
  extended : ∀ (y : Fin l.height), y.val < k → ∀ column,
    q.bordered column ⟨y + l.border, by omega⟩ =
      p.get ⟨nearest l.width l.border column, nearest_lt hw ..⟩ y

theorem extendedTo_foldl (hw : 0 < l.width) :
    ExtendedTo hw p l.height (Fin.foldl l.height (fun q y => q.extendRow ⟨0, hw⟩
      ⟨l.width - 1, Nat.sub_lt hw Nat.one_pos⟩ y) p) := by
  refine foldl_invariant (ExtendedTo hw p) ?_ fun y q ih => ?_
  · exact ⟨fun _ _ => rfl, fun i hi => absurd hi (Nat.not_lt_zero i)⟩
  · refine ⟨fun x y' => ?_, fun y' hy column => ?_⟩
    · rw [← ih.visible, get_eq_bordered, bordered_extendRow]
      simp only
      rw [if_neg (show ¬ x + l.border < l.border by omega),
        if_neg (show ¬ l.border + l.width ≤ x + l.border by omega), ite_self]
      rfl
    · rw [bordered_extendRow]
      by_cases e : y' = y
      · subst e
        rw [if_pos rfl, ih.visible, ih.visible]
        rcases Nat.lt_or_ge column.val l.border with hc | hc
        · rw [if_pos hc]
          congr 1
          apply Fin.ext
          simp only [nearest]
          omega
        · rw [if_neg (Nat.not_lt.2 hc)]
          rcases Nat.lt_or_ge column.val (l.border + l.width) with hc' | hc'
          · rw [if_neg (Nat.not_le.2 hc'), ← ih.visible, get_eq_bordered]
            congr 1
            apply Fin.ext
            simp only [nearest]
            omega
          · rw [if_pos hc']
            congr 1
            apply Fin.ext
            simp only [nearest]
            omega
      · have hne : y'.val ≠ y.val := fun h => e (Fin.ext h)
        rw [if_neg (by simp only; omega)]
        exact ih.extended y' (by omega) column

/-- What the three loops leave in a bordered row: the visible row nearest to it, extended. -/
theorem bordered_of_loops {p q r s : Plane l} (hw : 0 < l.width) (hh : 0 < l.height)
    (sides : ExtendedTo hw p l.height q)
    (above : CopiedTo l.border (fun i : Fin l.border => i.val) q l.border r)
    (below : CopiedTo (l.border + l.height - 1) (fun i : Fin l.border => l.border + l.height + i) r
      l.border s)
    (column : Fin (l.width + 2 * l.border)) (row : Fin (l.height + 2 * l.border)) :
    s.bordered column row = p.get ⟨nearest l.width l.border column, nearest_lt hw ..⟩
      ⟨nearest l.height l.border row, nearest_lt hh ..⟩ := by
  -- the last loop leaves the rows above it alone, and the one before those below it
  have upper {row : Fin (l.height + 2 * l.border)} (hr : row.val < l.border + l.height) :
      s.bordered column row = r.bordered column row :=
    below.kept row column fun i => by omega
  have lower {row : Fin (l.height + 2 * l.border)} (hr : l.border ≤ row.val) :
      r.bordered column row = q.bordered column row :=
    above.kept row column fun i => by omega
  have visible {row : Fin (l.height + 2 * l.border)} (y : Fin l.height)
      (hr : row.val = y + l.border) :
      q.bordered column row = p.get ⟨nearest l.width l.border column, nearest_lt hw ..⟩ y := by
    rw [← sides.extended y y.isLt column]
    congr 1
    exact Fin.ext hr
  have hy : nearest l.height l.border row < l.height := nearest_lt hh ..
  rcases Nat.lt_or_ge row.val l.border with ha | ha
  · have hb : l.border < l.height + 2 * l.border := by omega
    rw [upper (by omega), above.copied ⟨row, ha⟩ ha row column ⟨l.border, hb⟩ rfl rfl]
    refine visible ⟨_, hy⟩ ?_
    simp only [nearest]
    omega
  · rcases Nat.lt_or_ge row.val (l.border + l.height) with hb | hb
    · rw [upper hb, lower ha]
      refine visible ⟨_, hy⟩ ?_
      simp only [nearest]
      omega
    · have hl : l.border + l.height - 1 < l.height + 2 * l.border := by omega
      rw [below.copied ⟨row - (l.border + l.height), by omega⟩ (by simp only; omega) row column
        ⟨l.border + l.height - 1, hl⟩ (by simp only; omega) rfl, lower (by simp only; omega)]
      refine visible ⟨_, hy⟩ ?_
      simp only [nearest]
      omega

/-- The border repeats the nearest visible samples. -/
theorem bordered_extendBorders (hw : 0 < l.width) (hh : 0 < l.height) :
    p.extendBorders.bordered column row =
      p.get ⟨nearest l.width l.border column, nearest_lt hw ..⟩
        ⟨nearest l.height l.border row, nearest_lt hh ..⟩ := by
  unfold extendBorders
  rw [dif_pos ⟨hw, hh⟩]
  have above (q : Plane l) := copiedTo_foldl q ⟨l.border, by omega⟩
    (fun i : Fin l.border => ⟨i, by omega⟩) fun i => Nat.ne_of_lt i.isLt
  have below (q : Plane l) := copiedTo_foldl q ⟨l.border + l.height - 1, by omega⟩
    (fun i : Fin l.border => ⟨l.border + l.height + i, by omega⟩) fun i => by
      simp only
      omega
  exact bordered_of_loops hw hh (p.extendedTo_foldl hw) (above _) (below _) column row

theorem get_setVisible (f : Fin l.width → Fin l.height → UInt8) (x : Fin l.width)
    (y : Fin l.height) : (p.setVisible f).get x y = f x y := by
  have hx := x.isLt
  unfold setVisible
  rw [if_neg (show ¬ l.width = 0 by omega)]
  refine foldl_invariant (fun k (q : Plane l) => ∀ y : Fin l.height, y.val < k → ∀ x,
      q.get x y = f x y) (fun y hy => absurd hy (Nat.not_lt_zero _)) (fun k q ih y hy x => ?_) y
    y.isLt x
  refine (q.get_overwrite (fun x => f x k) (Nat.le_of_eq (Nat.zero_add _)) x y).trans ?_
  by_cases e : y = k
  · subst e
    rw [dif_pos ⟨rfl, Nat.zero_le _, by omega⟩]
    rfl
  · have hne : y.val ≠ k.val := fun h => e (Fin.ext h)
    rw [dif_neg fun h => hne h.1]
    exact ih y (by omega) x

theorem bordered_ofFn {width height border : Nat} (f : Nat → Nat → UInt8) (hw : 0 < width)
    (hh : 0 < height) (column : Fin (width + 2 * border)) (row : Fin (height + 2 * border)) :
    (ofFn width height border f).bordered column row =
      f (nearest width border column) (nearest height border row) :=
  (bordered_extendBorders (l := .owned width height border) _ column row hw hh).trans
    (get_setVisible ..)

end Plane

end BlockVideo
