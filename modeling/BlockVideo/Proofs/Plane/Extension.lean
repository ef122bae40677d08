import BlockVideo.Proofs.Plane.Windows

/-!
# Extended borders

Once the border is extended, the sample at any coordinates of the bordered area is the visible one
at the coordinates held to the visible area (`Plane.sample?_extendBorders`), and there is none
elsewhere. The loops write into bordered rows only (`Plane.KeepsRest`), and what they write depends
on visible samples only, which stay. So a second extension finds nothing to change.
-/

namespace BlockVideo

variable {l : Layout}

def Layout.IsBordered (l : Layout) (i : Nat) : Prop :=
  ∃ column row, column < l.width + 2 * l.border ∧ row < l.height + 2 * l.border ∧
    row * l.stride + column = i

theorem Layout.not_isBordered_padding {column row : Nat} (hc : l.width + 2 * l.border ≤ column)
    (hs : column < l.stride) : ¬ l.IsBordered (row * l.stride + column) := by
  rintro ⟨column', row', hc', -, h⟩
  have := RowMajor.inj (Nat.lt_of_lt_of_le hc' l.line_le_stride) hs h
  omega

theorem clampTo_lt {n : Nat} (h : 1 ≤ n) (u : Int) : clampTo n u < n := by
  unfold clampTo
  omega

namespace Plane

variable {p q r : Plane l}

/-! ## What the loops leave alone -/

/-- Outside the bordered rows, `q` is as `p`. -/
def KeepsRest (p q : Plane l) : Prop :=
  ∀ i (hi : i < l.size), ¬ l.IsBordered i → q.samples[i] = p.samples[i]

theorem KeepsRest.ext (rest : KeepsRest p q)
    (bordered : ∀ column row, q.bordered column row = p.bordered column row) : q = p := by
  suffices q.samples = p.samples by
    cases p
    cases q
    exact congrArg mk this
  apply Vector.ext
  intro i hi
  by_cases h : l.IsBordered i
  · obtain ⟨column, row, hc, hr, rfl⟩ := h
    exact bordered ⟨column, hc⟩ ⟨row, hr⟩
  · exact rest i hi h

theorem KeepsRest.trans (h : KeepsRest p q) (h' : KeepsRest q r) : KeepsRest p r :=
  fun i hi rest => (h' i hi rest).trans (h i hi rest)

theorem keepsRest_overwrite (p : Plane l) {start k : Nat} (f : Fin k → UInt8) {row first : Nat}
    (hr : row < l.height + 2 * l.border) (hs : start = row * l.stride + first)
    (hk : first + k ≤ l.width + 2 * l.border) :
    KeepsRest p ⟨Run.overwrite p.samples start f⟩ := by
  intro i hi rest
  rw [Run.getElem_overwrite, dif_neg fun h => ?_]
  exact rest ⟨i - row * l.stride, row, by omega, hr, by omega⟩

theorem keepsRest_copyRow (p : Plane l) (source target : Fin (l.height + 2 * l.border)) :
    KeepsRest p (p.copyRow source target) :=
  p.keepsRest_overwrite _ target.isLt (Nat.add_zero _).symm (Nat.le_of_eq (Nat.zero_add _))

theorem keepsRest_extendRow (p : Plane l) (first last : Fin l.width) (y : Fin l.height) :
    KeepsRest p (p.extendRow first last y) := by
  have hr : y + l.border < l.height + 2 * l.border := by omega
  have left := p.keepsRest_overwrite (fun _ : Fin l.border => p.get first y) hr
    (Nat.add_zero _).symm (by omega)
  exact left.trans (keepsRest_overwrite _ _ hr (Nat.add_assoc ..) (by omega))

theorem keepsRest_foldl {n : Nat} {step : Plane l → Fin n → Plane l}
    (h : ∀ q i, KeepsRest q (step q i)) (p : Plane l) : KeepsRest p (Fin.foldl n step p) :=
  foldl_invariant (fun _ q => KeepsRest p q) (fun _ _ _ => rfl) fun i q ih => ih.trans (h q i)

theorem keepsRest_extendBorders (p : Plane l) : KeepsRest p p.extendBorders := by
  unfold extendBorders
  split
  · exact ((keepsRest_foldl (fun q y => q.keepsRest_extendRow _ _ y) p).trans
      (keepsRest_foldl (fun q _ => q.keepsRest_copyRow _ _) _)).trans
        (keepsRest_foldl (fun q _ => q.keepsRest_copyRow _ _) _)
  · exact fun _ _ _ => rfl

/-! ## What they leave -/

theorem get_extendBorders (p : Plane l) (x : Fin l.width) (y : Fin l.height) :
    p.extendBorders.get x y = p.get x y := by
  have hx := x.isLt
  have hy := y.isLt
  rw [get_eq_bordered, p.bordered_extendBorders _ _ (by omega) (by omega)]
  congr 1
  · apply Fin.ext
    simp only [nearest]
    omega
  · apply Fin.ext
    simp only [nearest]
    omega

theorem extendBorders_extendBorders (p : Plane l) :
    p.extendBorders.extendBorders = p.extendBorders := by
  by_cases h : 0 < l.width ∧ 0 < l.height
  · refine p.extendBorders.keepsRest_extendBorders.ext fun column row => ?_
    rw [bordered_extendBorders _ _ _ h.1 h.2, bordered_extendBorders _ _ _ h.1 h.2,
      get_extendBorders]
  · have same (q : Plane l) : q.extendBorders = q := dif_neg h
    rw [same, same]

/-- No sample is found outside the bordered area. Where that ends at the greatest word, the test
for it does not tell. -/
theorem sample?_eq_none (p : Plane l) (columns : l.width + l.border < Capacity.limit)
    (rows : l.height + l.border < Capacity.limit) {x y : Int} (h : ¬ l.HasWindow x y 1 1) :
    p.sample? x y = none := by
  have greatest : Int64.maxValue.toInt = Capacity.limit := by decide
  have half : 2 * Capacity.limit < UInt64.size := by decide
  have words : l.InWords x y 1 1 :=
    ⟨by decide, by decide, fun _ => by omega, fun _ => by omega⟩
  rw [sample?, if_neg fun passes => h (words.hasWindow (by omega) (by omega) passes)]

theorem sample?_extendBorders (p : Plane l) (room : l.size ≤ Capacity.limit)
    (columns : l.width + l.border < Capacity.limit) (rows : l.height + l.border < Capacity.limit)
    (hw : 1 ≤ l.width) (hh : 1 ≤ l.height) (x y : Int) :
    p.extendBorders.sample? x y =
      if -(l.border : Int) ≤ x ∧ x < l.width + l.border ∧ -(l.border : Int) ≤ y ∧
          y < l.height + l.border then
        some (p.get ⟨clampTo l.width x, clampTo_lt hw x⟩ ⟨clampTo l.height y, clampTo_lt hh y⟩)
      else none := by
  split
  · next inside =>
    have hx : x + l.border = (x + l.border).toNat := by omega
    have hy : y + l.border = (y + l.border).toNat := by omega
    rw [sample?_eq_bordered _ room ⟨(x + l.border).toNat, by omega⟩
      ⟨(y + l.border).toNat, by omega⟩ hx hy, bordered_extendBorders _ _ _ hw hh]
    simp only [nearest_eq_clampTo hw, nearest_eq_clampTo hh, ← hx, ← hy, Int.add_sub_cancel]
  · next outside =>
    refine p.extendBorders.sample?_eq_none columns rows fun has => outside ?_
    obtain ⟨left, top, right, bottom⟩ := has
    omega

end Plane

/-- An owned buffer that memory can hold has shorter lines than memory: strides are aligned. -/
theorem Layout.owned_lt_limit {width height border : Nat} (hw : 1 ≤ width) (hh : 1 ≤ height)
    (room : (Layout.owned width height border).size ≤ Capacity.limit) :
    width + border < Capacity.limit ∧ height + border < Capacity.limit := by
  have line := le_alignedStride (width + 2 * border)
  have whole : alignedStride (width + 2 * border) % alignment = 0 := Nat.mul_mod_left ..
  have stride := Nat.le_mul_of_pos_right (alignedStride (width + 2 * border))
    (show 0 < height + 2 * border by omega)
  have rows := Nat.mul_le_mul_right (height + 2 * border)
    (show 2 ≤ alignedStride (width + 2 * border) by simp only [alignment] at whole; omega)
  have odd : Capacity.limit % alignment = 31 := by decide
  change alignedStride (width + 2 * border) * (height + 2 * border) ≤ _ at room
  simp only [alignment] at whole odd
  omega

/-- Extending the border of an owned plane with visible samples makes its samples those at held
coordinates, changes neither visible samples nor padding, and has nothing to do the second time. A
plane made from `f` has the values of `f` there. -/
theorem extendBorders_realises_clampTo {width height border : Nat} (hw : 1 ≤ width)
    (hh : 1 ≤ height) (room : (Layout.owned width height border).size ≤ Capacity.limit)
    (p : Plane (.owned width height border)) (f : Nat → Nat → UInt8) :
    (∀ x y : Int, p.extendBorders.sample? x y =
      if -(border : Int) ≤ x ∧ x < width + border ∧ -(border : Int) ≤ y ∧ y < height + border then
        some (p.get ⟨clampTo width x, clampTo_lt hw x⟩ ⟨clampTo height y, clampTo_lt hh y⟩)
      else none) ∧
    (∀ x y, p.extendBorders.get x y = p.get x y) ∧
    (∀ column row, width + 2 * border ≤ column →
      column < (Layout.owned width height border).stride → row < height + 2 * border →
      p.extendBorders.samples[row * (Layout.owned width height border).stride + column]? =
        p.samples[row * (Layout.owned width height border).stride + column]?) ∧
    p.extendBorders.extendBorders = p.extendBorders ∧
    ∃ q, Plane.ofFn? width height border f = .ok q ∧ ∀ x y : Int, q.sample? x y =
      if -(border : Int) ≤ x ∧ x < width + border ∧ -(border : Int) ≤ y ∧ y < height + border then
        some (f (clampTo width x) (clampTo height y))
      else none := by
  obtain ⟨columns, rows⟩ := Layout.owned_lt_limit hw hh room
  have made : Plane.ofFn? width height border f = .ok (Plane.ofFn width height border f) :=
    Plane.ofFn?_eq_ok f (Layout.requireOwned_eq_ok hw hh room)
  refine ⟨p.sample?_extendBorders room columns rows hw hh, p.get_extendBorders,
    fun column row hc hs hr => ?_, p.extendBorders_extendBorders, _, made, fun x y => ?_⟩
  · have hi : row * (Layout.owned width height border).stride + column <
        (Layout.owned width height border).size := RowMajor.number_lt_mul hr hs
    rw [getElem?_pos p.extendBorders.samples _ hi, getElem?_pos p.samples _ hi]
    exact congrArg some (p.keepsRest_extendBorders _ hi (Layout.not_isBordered_padding hc hs))
  · refine (Plane.sample?_extendBorders _ room columns rows hw hh x y).trans ?_
    rw [Plane.get_setVisible]
    rfl

def Plane.counted : Plane (.owned 2 1 3) := ⟨Vector.ofFn fun i => UInt8.ofNat i⟩

theorem extendBorders_counted :
    1 ≤ 2 ∧ 1 ≤ 1 ∧ (Layout.owned 2 1 3).size ≤ Capacity.limit ∧
    Plane.counted.extendBorders.sample? (-3) 3 = some 99 ∧
    Plane.counted.extendBorders.sample? 4 (-3) = some 100 ∧
    Plane.counted.extendBorders.sample? 5 0 = none := by
  have room : (Layout.owned 2 1 3).size ≤ Capacity.limit := by decide
  have samples := (extendBorders_realises_clampTo (by decide) (by decide) room .counted
    fun _ _ => 0).1
  refine ⟨by decide, by decide, room, (samples _ _).trans ?_, (samples _ _).trans ?_,
    (samples _ _).trans ?_⟩
  · decide +kernel
  · decide +kernel
  · rfl

end BlockVideo
