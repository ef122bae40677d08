import BlockVideo.Plane.Window
import BlockVideo.Proofs.Plane.Border

/-!
# Addressing a bordered plane

A plane has a window when all of it lies inside the visible area widened by the border
(`Layout.HasWindow`). The test for addressable windows counts in words; `Layout.addressable_iff`
says what it comes to in whole numbers.

In a buffer that memory can hold, sizes and places are their own signed readings, so coordinates
mean what they say: a window inside the bordered area is addressable, and a span inside it has the
bordered samples.
-/

namespace BlockVideo

variable {l : Layout} {x y : Int} {width height : Nat}

namespace Layout

/-- All of the `width` by `height` window at (`x`, `y`) lies in the bordered area. -/
structure HasWindow (l : Layout) (x y : Int) (width height : Nat) : Prop where
  left : -(l.border : Int) ≤ x
  top : -(l.border : Int) ≤ y
  right : x + width ≤ l.width + l.border
  bottom : y + height ≤ l.height + l.border

theorem bordered_le_size (hw : 0 < l.width + 2 * l.border) (hh : 0 < l.height + 2 * l.border) :
    l.width + 2 * l.border ≤ l.size ∧ l.height + 2 * l.border ≤ l.size := by
  have hs := l.line_le_stride
  have he := l.extent_le_size
  rw [extent, if_neg (by omega)] at he
  have := Nat.mul_le_mul_left (l.height + 2 * l.border - 1) (show 1 ≤ l.stride by omega)
  omega

/-! ## The test for addressable windows -/

/-- The sides of a window are their own signed readings, and where the bordered area ends at the
greatest word, the window does not end behind it. -/
structure InWords (l : Layout) (x y : Int) (width height : Nat) : Prop where
  width_lt : 2 * width < UInt64.size
  height_lt : 2 * height < UInt64.size
  right : Int64.maxValue.toInt ≤ l.width + l.border → x + width ≤ Int64.maxValue.toInt
  bottom : Int64.maxValue.toInt ≤ l.height + l.border → y + height ≤ Int64.maxValue.toInt

section Test

variable (columns : 2 * (l.width + l.border) < UInt64.size)
  (rows : 2 * (l.height + l.border) < UInt64.size)

include columns rows

theorem addressable_iff :
    l.addressable x y width height = true ↔
      (-(l.border : Int) ≤ x ∧ -(l.border : Int) ≤ y) ∧
      (x + signed64 width ≤ l.width + l.border ∨ Int64.maxValue.toInt ≤ l.width + l.border) ∧
      (y + signed64 height ≤ l.height + l.border ∨
        Int64.maxValue.toInt ≤ l.height + l.border) := by
  have least : Int64.minValue.toInt = -9223372036854775808 := rfl
  simp only [addressable, Bool.and_eq_true, decide_eq_true_eq]
  rw [signed64_of_lt (show 2 * l.width < UInt64.size by omega),
    signed64_of_lt (show 2 * l.height < UInt64.size by omega),
    saturatingAdd64_le_iff (by omega), saturatingAdd64_le_iff (by omega), and_assoc]

theorem HasWindow.addressable (has : l.HasWindow x y width height) :
    l.addressable x y width height = true := by
  obtain ⟨left, top, right, bottom⟩ := has
  have := signed64_le width
  have := signed64_le height
  exact (addressable_iff columns rows).2 ⟨⟨left, top⟩, .inl (by omega), .inl (by omega)⟩

theorem InWords.hasWindow (words : l.InWords x y width height)
    (passes : l.addressable x y width height = true) : l.HasWindow x y width height := by
  obtain ⟨⟨left, top⟩, right, bottom⟩ := (addressable_iff columns rows).1 passes
  rw [signed64_of_lt words.width_lt] at right
  rw [signed64_of_lt words.height_lt] at bottom
  have greatest : 2 * Int64.maxValue.toInt + 2 = UInt64.size := by decide
  refine ⟨left, top, right.elim id fun ends => ?_, bottom.elim id fun ends => ?_⟩
  · have := words.right ends
    omega
  · have := words.bottom ends
    omega

end Test

/-- In a buffer that memory can hold, bordered lines are their own signed readings. -/
theorem lines_lt_words (room : l.size ≤ Capacity.limit) (hw : 0 < l.width + 2 * l.border)
    (hh : 0 < l.height + 2 * l.border) :
    2 * (l.width + l.border) < UInt64.size ∧ 2 * (l.height + l.border) < UInt64.size := by
  obtain ⟨columns, rows⟩ := l.bordered_le_size hw hh
  have limit : 2 * Capacity.limit < UInt64.size := by decide
  omega

theorem bordered_pos_of_addressable (hw : 0 < width ∧ 2 * width < UInt64.size)
    (hh : 0 < height ∧ 2 * height < UInt64.size)
    (h : l.addressable x y width height = true) :
    0 < l.width + 2 * l.border ∧ 0 < l.height + 2 * l.border := by
  have least : Int64.minValue.toInt = -9223372036854775808 := rfl
  have greatest : Int64.maxValue.toInt = 9223372036854775807 := rfl
  have zero : signed64 0 = 0 := rfl
  simp only [addressable, Bool.and_eq_true, decide_eq_true_eq, saturatingAdd64, least, greatest,
    signed64_of_lt hw.2, signed64_of_lt hh.2] at h
  obtain ⟨⟨⟨left, top⟩, right⟩, bottom⟩ := h
  constructor
  · rcases Nat.eq_zero_or_pos l.width with h0 | h0
    · rw [h0, zero] at right
      omega
    · omega
  · rcases Nat.eq_zero_or_pos l.height with h0 | h0
    · rw [h0, zero] at bottom
      omega
    · omega

/-- An addressable window with samples lies inside the bordered area. Sums that stop at the end of
the range could hide an end beyond it, but only in the largest of all buffers. -/
theorem hasWindow_of_addressable (room : l.size ≤ Capacity.limit)
    (hw : 0 < width ∧ 2 * width < UInt64.size) (hh : 0 < height ∧ 2 * height < UInt64.size)
    (ends : l.size = Capacity.limit →
      x + width ≤ Int64.maxValue.toInt ∧ y + height ≤ Int64.maxValue.toInt)
    (passes : l.addressable x y width height = true) : l.HasWindow x y width height := by
  obtain ⟨hw', hh'⟩ := bordered_pos_of_addressable hw hh passes
  obtain ⟨columns, rows⟩ := l.lines_lt_words room hw' hh'
  obtain ⟨line, lines⟩ := l.bordered_le_size hw' hh'
  have greatest : Int64.maxValue.toInt = Capacity.limit := by decide
  have words : l.InWords x y width height :=
    ⟨hw.2, hh.2, fun h => (ends (by omega)).1, fun h => (ends (by omega)).2⟩
  exact words.hasWindow columns rows passes

theorem ends_of_hasRun (room : l.size ≤ Capacity.limit)
    (hw : 0 < width ∧ 2 * width < UInt64.size) (hh : 0 < height ∧ 2 * height < UInt64.size)
    (h : l.addressable x y width height = true)
    (runs : ∀ r : Fin height, l.HasRun x (y + r) width) :
    x + width ≤ Int64.maxValue.toInt ∧ y + height ≤ Int64.maxValue.toInt := by
  obtain ⟨columns, rows⟩ := bordered_pos_of_addressable hw hh h
  obtain ⟨-, -, first⟩ := runs ⟨0, hh.1⟩
  obtain ⟨-, -, last⟩ := runs ⟨height - 1, by omega⟩
  have stored := l.extent_le_size
  have line := l.line_le_stride
  have least : Int64.minValue.toInt = -9223372036854775808 := rfl
  have greatest : Int64.maxValue.toInt = 9223372036854775807 := rfl
  simp only [addressable, Bool.and_eq_true, decide_eq_true_eq, saturatingAdd64, least, greatest,
    signed64_of_lt hw.2, signed64_of_lt hh.2] at h
  simp only [Capacity.limit, UInt64.size] at room
  simp only [offset] at first last
  rw [extent, if_neg (by omega)] at stored
  obtain ⟨⟨⟨left, top⟩, right⟩, bottom⟩ := h
  rw [greatest]
  by_cases several : 2 ≤ l.height + 2 * l.border
  · -- rows lie behind one another, so the stride is no longer than the buffer
    have stride := Nat.le_mul_of_pos_left l.stride (show 0 < l.height + 2 * l.border - 1 by omega)
    rw [signed64_of_lt (by unfold UInt64.size; omega)] at first last
    have hf : 0 ≤ (y + (0 : Nat) + l.border) * l.stride := Int.mul_nonneg (by omega) (by omega)
    have hl : (y + (height - 1 : Nat) + l.border) * 1 ≤
        (y + (height - 1 : Nat) + l.border) * l.stride :=
      Int.mul_le_mul_of_nonneg_left (by omega) (by omega)
    omega
  · -- a single row, which starts the buffer
    have border : l.border = 0 := by omega
    have height : signed64 l.height = 1 := by
      rw [show l.height = 1 by omega]
      rfl
    rw [height, border] at bottom
    obtain rfl : y = 0 := by omega
    simp only [border, Int.cast_ofNat_Int, Int.add_zero, Int.zero_mul, Int.zero_add] at first
    omega

theorem row_mul_stride (room : l.size ≤ Capacity.limit) {row : Nat}
    (hr : row < l.height + 2 * l.border) :
    row * signed64 l.stride = (row * l.stride : Nat) := by
  have hi := l.bordered_row_le_size hr
  have limit : 2 * Capacity.limit < UInt64.size := by decide
  rcases Nat.eq_zero_or_pos row with rfl | h0
  · simp
  · have := Nat.le_mul_of_pos_left l.stride h0
    rw [signed64_of_lt (by omega)]
    rfl

theorem offset_eq (room : l.size ≤ Capacity.limit) {column row : Nat}
    (hr : row < l.height + 2 * l.border) (hx : x + l.border = column) (hy : y + l.border = row) :
    l.offset x y = (row * l.stride + column : Nat) := by
  rw [offset, hx, hy, l.row_mul_stride room hr]
  rfl

/-- A run inside a bordered row lies in the buffer. Only rows without samples could be too many for
words. -/
theorem hasRun_of_bordered (room : l.size ≤ Capacity.limit)
    (rows : 2 * (l.height + l.border) < UInt64.size) {column row length : Nat}
    (hx : x + l.border = column) (hy : y + l.border = row)
    (hc : column + length ≤ l.width + 2 * l.border) (hr : row < l.height + 2 * l.border) :
    l.HasRun x y length := by
  have last := l.bordered_row_le_size hr
  have place := l.offset_eq room hr hx hy
  have line := l.line_le_stride
  have count : row ≤ row * l.stride ∨ l.border = 0 := by
    rcases Nat.eq_zero_or_pos l.stride with h0 | h0
    · exact .inr (by omega)
    · exact .inl (Nat.le_mul_of_pos_right row h0)
  have limit : 2 * Capacity.limit < UInt64.size := by decide
  have least : 2 * Int64.minValue.toInt = -UInt64.size := by decide
  have greatest : 2 * Int64.maxValue.toInt + 2 = UInt64.size := by decide
  refine ⟨?_, by omega, by omega⟩
  simp only [offsetSteps, List.forall_mem_cons, List.not_mem_nil, false_implies, implies_true,
    and_true, hx, hy, l.row_mul_stride room hr, place, IsWord]
  omega

end Layout

namespace Plane

theorem sample?_eq_bordered (p : Plane l) (room : l.size ≤ Capacity.limit)
    (column : Fin (l.width + 2 * l.border)) (row : Fin (l.height + 2 * l.border))
    (hx : x + l.border = column.val) (hy : y + l.border = row.val) :
    p.sample? x y = some (p.bordered column row) := by
  obtain ⟨columns, rows⟩ := l.lines_lt_words room (by omega) (by omega)
  have has : l.HasWindow x y 1 1 := ⟨by omega, by omega, by omega, by omega⟩
  rw [sample?, if_pos (has.addressable columns rows), l.offset_eq room row.isLt hx hy,
    Int.toNat_natCast]
  exact getElem?_pos ..

theorem span_eq_ok (p : Plane l) (room : l.size ≤ Capacity.limit)
    (rows : 2 * (l.height + l.border) < UInt64.size) {column length : Nat}
    (row : Fin (l.height + 2 * l.border)) (hx : x + l.border = column)
    (hy : y + l.border = row.val) (hc : column + length ≤ l.width + 2 * l.border) :
    p.span x y length = .ok (Vector.ofFn fun i => p.bordered ⟨column + i, by omega⟩ row) := by
  have e := l.offset_eq room row.isLt hx hy
  rw [p.span_of_hasRun (l.hasRun_of_bordered room rows hx hy hc row.isLt)]
  congr 2
  funext i
  simp only [bordered, e, Int.toNat_natCast, Nat.add_assoc]

end Plane

end BlockVideo
