import BlockVideo.Proofs.Plane.Addressing

/-!
# Windows of a plane

The rows of a window that the plane has can be read, and they hold the samples of the window
(`HasWindow.span_eq_samples`).

The test for addressable windows counts in signed words. It refuses no window that the plane has
(`HasWindow.addressable`), but a side from half the range on is taken for a negative number, and a
sum that stops at the greatest word is no longer found too great for a bordered area that ends
there. `hasWindow_iff_addressable` says where the test is right.
-/

namespace BlockVideo

variable {l : Layout} {x y : Int} {width height : Nat}

namespace Layout

namespace HasWindow

theorem exists_bordered (has : l.HasWindow x y width height) (r : Fin height) :
    ∃ (column : Nat) (row : Fin (l.height + 2 * l.border)),
      x + l.border = column ∧ y + r + l.border = row.val ∧
        column + width ≤ l.width + 2 * l.border := by
  obtain ⟨left, top, right, bottom⟩ := has
  have hr := r.isLt
  have hx : x + l.border = (x + l.border).toNat := by omega
  have hy : y + r + l.border = (y + r + l.border).toNat := by omega
  exact ⟨(x + l.border).toNat, ⟨(y + r + l.border).toNat, by omega⟩, hx, hy, by omega⟩

variable (has : l.HasWindow x y width height) (room : l.size ≤ Capacity.limit)
  (rows : 2 * (l.height + l.border) < UInt64.size)

include has room rows

theorem hasRun (r : Fin height) : l.HasRun x (y + r) width := by
  obtain ⟨column, row, hx, hy, hc⟩ := has.exists_bordered r
  exact l.hasRun_of_bordered room rows hx hy hc row.isLt

theorem span_eq_bordered (p : Plane l) (r : Fin height) :
    ∃ (column : Fin width → Fin (l.width + 2 * l.border)) (row : Fin (l.height + 2 * l.border)),
      (∀ i, x + i.val + l.border = (column i).val) ∧ y + r.val + l.border = row.val ∧
      p.span x (y + r) width = .ok (Vector.ofFn fun i => p.bordered (column i) row) := by
  obtain ⟨column, row, hx, hy, hc⟩ := has.exists_bordered r
  refine ⟨fun i => ⟨column + i, by omega⟩, row, fun i => ?_, hy,
    p.span_eq_ok room rows row hx hy hc⟩
  simp only
  omega

theorem span_eq_samples (p : Plane l) (r : Fin height) :
    ∃ run : Vector UInt8 width, p.span x (y + r) width = .ok run ∧
      ∀ i (hi : i < width), p.sample? (x + i) (y + r) = some run[i] := by
  obtain ⟨column, row, hx, hy, span⟩ := has.span_eq_bordered room rows p r
  refine ⟨_, span, fun i hi => ?_⟩
  rw [Vector.getElem_ofFn]
  exact p.sample?_eq_bordered room (column ⟨i, hi⟩) row (hx ⟨i, hi⟩) hy

end HasWindow

/-! ## The test -/

theorem requireAddressable_eq_ok_iff :
    l.requireAddressable x y width height = .ok () ↔ l.addressable x y width height = true := by
  unfold requireAddressable
  split <;> simp_all

/-- A window that the plane has is counted right: bordered lines are shorter than half the range. -/
theorem HasWindow.inWords (has : l.HasWindow x y width height)
    (columns : 2 * (l.width + l.border) < UInt64.size)
    (rows : 2 * (l.height + l.border) < UInt64.size) (room : l.size ≤ Capacity.limit) :
    l.InWords x y width height := by
  obtain ⟨left, top, right, bottom⟩ := has
  have greatest : 2 * Int64.maxValue.toInt + 2 = UInt64.size := by decide
  have lines : 2 * (l.width + 2 * l.border) < UInt64.size ∧
      2 * (l.height + 2 * l.border) < UInt64.size := by
    rcases Nat.eq_zero_or_pos l.border with none | some
    · omega
    · obtain ⟨hw, hh⟩ := l.bordered_le_size (by omega) (by omega)
      have limit : 2 * Capacity.limit < UInt64.size := by decide
      omega
  constructor <;> omega

end Layout

/-- A plane has a window when the window passes the test and is counted right. So the test refuses
no window of the plane, and is exact for sides below half the range, except where a bordered area
ends at the greatest word. The rows of a window that passes and is counted right can be read, and
hold its samples. -/
theorem hasWindow_iff_addressable (columns : 2 * (l.width + l.border) < UInt64.size)
    (rows : 2 * (l.height + l.border) < UInt64.size) (room : l.size ≤ Capacity.limit) (p : Plane l)
    (x y : Int) (width height : Nat) :
    (l.HasWindow x y width height ↔
      l.addressable x y width height = true ∧ l.InWords x y width height) ∧
    (l.requireAddressable x y width height = .ok () → l.InWords x y width height →
      ∀ r : Fin height, ∃ run : Vector UInt8 width, p.span x (y + r) width = .ok run ∧
        ∀ i (hi : i < width), p.sample? (x + i) (y + r) = some run[i]) := by
  refine ⟨⟨fun has => ⟨has.addressable columns rows, has.inWords columns rows room⟩,
    fun ⟨passes, words⟩ => words.hasWindow columns rows passes⟩, fun passes words r => ?_⟩
  have passes := Layout.requireAddressable_eq_ok_iff.1 passes
  exact (words.hasWindow columns rows passes).span_eq_samples room rows p r

theorem hasWindow_owned :
    (2 * (8 + 3) < UInt64.size ∧ 2 * (4 + 3) < UInt64.size ∧
      (Layout.owned 8 4 3).size ≤ Capacity.limit) ∧
    (Layout.owned 8 4 3).HasWindow (-3) (-3) 14 10 ∧
    ∀ (p : Plane (.owned 8 4 3)) (r : Fin 10), ∃ run : Vector UInt8 14,
      p.span (-3) (-3 + r) 14 = .ok run := by
  have room : (Layout.owned 8 4 3).size ≤ Capacity.limit := by decide
  have test (p : Plane (.owned 8 4 3)) :=
    hasWindow_iff_addressable (by decide) (by decide) room p (-3) (-3) 14 10
  have words : (Layout.owned 8 4 3).InWords (-3) (-3) 14 10 :=
    ⟨by decide, by decide, by decide, by decide⟩
  refine ⟨⟨by decide, by decide, room⟩, (test (.constant _ 0)).1.2 ⟨by decide, words⟩,
    fun p r => ?_⟩
  obtain ⟨run, span, -⟩ := (test p).2 rfl words r
  exact ⟨run, span⟩

/-- A window far wider than the plane passes the test, since its width is taken for -1, and its row
cannot be read. -/
theorem addressable_widest :
    ¬ (Layout.owned 8 8 0).HasWindow 0 0 18446744073709551615 1 ∧
    (Layout.owned 8 8 0).addressable 0 0 18446744073709551615 1 = true ∧
    (Layout.owned 8 8 0).requireAddressable 0 0 18446744073709551615 1 = .ok () ∧
    ∀ (p : Plane (.owned 8 8 0)) run, p.span 0 0 18446744073709551615 ≠ .ok run := by
  have passes : (Layout.owned 8 8 0).addressable 0 0 18446744073709551615 1 = true := by decide
  refine ⟨fun has => ?_, passes, Layout.requireAddressable_eq_ok_iff.2 passes,
    fun p run span => absurd (p.hasRun_of_span span).stop (by decide)⟩
  exact absurd has.right (by decide)

end BlockVideo
