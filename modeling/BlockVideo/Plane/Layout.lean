import BlockVideo.Capacity
import BlockVideo.Error
import BlockVideo.RowMajor
import BlockVideo.Word

/-!
# Plane layouts

A plane of `width` by `height` visible samples lies in a buffer row by row, the starts of two rows
`stride` apart, with `border` more samples on every side. A `Layout` is such an arrangement that
fits: a bordered row is no longer than the stride, and the last bordered row ends within the
buffer's `size`. `Layout.index_lt` and `Layout.index_inj` say that distinct visible samples have
distinct places in the buffer.
-/

namespace BlockVideo

/-- The least size of a buffer for these rows: nothing follows the samples of the last one. -/
def Layout.extent (width height stride border : Nat) : Nat :=
  if height + 2 * border = 0 then 0
  else (height + 2 * border - 1) * stride + (width + 2 * border)

structure Layout where
  width : Nat
  height : Nat
  stride : Nat
  border : Nat
  size : Nat
  line_le_stride : width + 2 * border ≤ stride
  extent_le_size : Layout.extent width height stride border ≤ size
  deriving DecidableEq

namespace Layout

/-- Owned buffers start their rows at multiples of this. -/
def alignment : Nat := 32

def alignedStride (line : Nat) : Nat := (line + (alignment - 1)) / alignment * alignment

theorem stride_ne_zero {l : Layout} (h : 0 < l.width) : l.stride ≠ 0 := by
  have := l.line_le_stride
  omega

theorem le_alignedStride (line : Nat) : line ≤ alignedStride line := by
  simp only [alignedStride, alignment]
  omega

theorem extent_le_mul {width height stride border : Nat} (h : width + 2 * border ≤ stride) :
    extent width height stride border ≤ stride * (height + 2 * border) := by
  unfold extent
  split
  · exact Nat.zero_le _
  · rename_i hne
    obtain ⟨rows, hr⟩ := Nat.exists_eq_succ_of_ne_zero hne
    rw [hr, Nat.succ_sub_one, Nat.mul_succ, Nat.mul_comm]
    omega

/-- The layout of an owned buffer: an aligned stride, and a full stride for every row. -/
def owned (width height border : Nat) : Layout where
  width := width
  height := height
  stride := alignedStride (width + 2 * border)
  border := border
  size := alignedStride (width + 2 * border) * (height + 2 * border)
  line_le_stride := le_alignedStride _
  extent_le_size := extent_le_mul (le_alignedStride _)

/-- Asks for room for an owned buffer. Its rows are counted, and a row is filled up to a whole
stride, before the buffer is asked for. -/
def requireOwned (width height border : Nat) : Checked Unit := do
  Word.requireSizes [width + 2 * border + (alignment - 1), height + 2 * border]
  Capacity.require (owned width height border).size 1

theorem size_le_of_requireOwned {width height border : Nat}
    (room : requireOwned width height border = .ok ()) :
    (owned width height border).size ≤ Capacity.limit := by
  have room := (bind_unit_eq_ok_iff.1 room).2
  rwa [Capacity.require_eq_ok_iff, Nat.mul_one] at room

theorem requireOwned_eq_ok {width height border : Nat} (hw : 1 ≤ width) (hh : 1 ≤ height)
    (room : (owned width height border).size ≤ Capacity.limit) :
    requireOwned width height border = .ok () := by
  have line := le_alignedStride (width + 2 * border)
  have stride := Nat.le_mul_of_pos_right (alignedStride (width + 2 * border))
    (show 0 < height + 2 * border by omega)
  have rows := Nat.le_mul_of_pos_left (height + 2 * border)
    (show 0 < alignedStride (width + 2 * border) by omega)
  change alignedStride (width + 2 * border) * (height + 2 * border) ≤ _ at room
  have words : Word.requireSizes [width + 2 * border + (alignment - 1), height + 2 * border] =
      .ok () := by
    have limit : Capacity.limit + 31 < UInt64.size := by decide
    simp only [Word.requireSizes_eq_ok_iff, List.forall_mem_cons, List.not_mem_nil, false_implies,
      implies_true, and_true, alignment]
    omega
  exact bind_unit_eq_ok_iff.2 ⟨words, Capacity.require_eq_ok_iff.2 (by rwa [Nat.mul_one])⟩

/-- The layout with rows of this stride over a buffer of `size` samples, if they end within it. -/
def within? (width height stride border size : Nat) (hs : width + 2 * border ≤ stride) :
    Checked (Except BufferError { l : Layout // l.size = size }) := do
  Word.requireSizes [height + 2 * border, extent width height stride border]
  if he : extent width height stride border ≤ size then
    return .ok ⟨⟨width, height, stride, border, size, hs, he⟩, rfl⟩
  else
    return .error (.tooSmall (extent width height stride border) size)

/-- A layout over a buffer of `size` samples whose first one is the corner of the border. -/
def bordered? (width height stride border size : Nat) :
    Checked (Except BufferError { l : Layout // l.size = size }) := do
  Word.requireSizes [width + 2 * border]
  if hs : width + 2 * border ≤ stride then
    within? width height stride border size hs
  else
    return .error
      (.invalidParameter s!"stride {stride} cannot hold {width} samples plus {border} border")

def unbordered? (width height stride size : Nat) :
    Checked (Except BufferError { l : Layout // l.size = size }) :=
  if hs : width ≤ stride then
    within? width height stride 0 size hs
  else
    return .error (.invalidParameter s!"stride {stride} smaller than width {width}")

variable (l : Layout)

/-- The place of visible sample (`x`, `y`) in the buffer. -/
def index (x y : Nat) : Nat := (y + l.border) * l.stride + (x + l.border)

def origin : Nat := l.border * l.stride + l.border

variable {l : Layout}

theorem index_eq_origin_add (x y : Nat) : l.index x y = l.origin + (y * l.stride + x) := by
  simp only [index, origin, Nat.add_mul]
  omega

theorem bordered_row_le_size {row : Nat} (hr : row < l.height + 2 * l.border) :
    row * l.stride + (l.width + 2 * l.border) ≤ l.size := by
  have he := l.extent_le_size
  simp only [extent] at he
  rw [if_neg (by omega)] at he
  have := Nat.mul_le_mul_right l.stride (show row ≤ l.height + 2 * l.border - 1 by omega)
  omega

theorem bordered_lt_size {column row : Nat} (hc : column < l.width + 2 * l.border)
    (hr : row < l.height + 2 * l.border) : row * l.stride + column < l.size :=
  Nat.lt_of_lt_of_le (Nat.add_lt_add_left hc _) (bordered_row_le_size hr)

theorem index_lt {x y : Nat} (hx : x < l.width) (hy : y < l.height) : l.index x y < l.size :=
  bordered_lt_size (by omega) (by omega)

theorem bordered_inj {column row column' row' : Nat} (hc : column < l.width + 2 * l.border)
    (hc' : column' < l.width + 2 * l.border)
    (h : row * l.stride + column = row' * l.stride + column') : column = column' ∧ row = row' := by
  have hs := l.line_le_stride
  have := RowMajor.inj (by omega) (by omega) h
  exact ⟨this.2, this.1⟩

theorem index_inj {x y x' y' : Nat} (hx : x < l.width) (hx' : x' < l.width)
    (h : l.index x y = l.index x' y') : x = x' ∧ y = y' := by
  have := bordered_inj (by omega) (by omega) h
  omega

variable (l)

/-- The visible area alone: the buffer from the first visible sample on, without a border. -/
def interior : Layout where
  width := l.width
  height := l.height
  stride := l.stride
  border := 0
  size := l.size - l.origin
  line_le_stride := by have := l.line_le_stride; omega
  extent_le_size := by
    have he := l.extent_le_size
    simp only [extent, origin] at he ⊢
    split
    · exact Nat.zero_le _
    · rename_i h
      rw [if_neg (by omega)] at he
      have := Nat.add_mul (l.height - 1) l.border l.stride
      have := Nat.mul_le_mul_right l.stride
        (show l.height - 1 + l.border ≤ l.height + 2 * l.border - 1 by omega)
      simp only [Nat.mul_zero, Nat.add_zero]
      omega

def text : String :=
  s!"PlaneBuffer \x7b width: {l.width}, height: {l.height}, stride: {l.stride}, " ++
    s!"border: {l.border} \x7d"

end Layout

end BlockVideo
