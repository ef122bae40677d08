import Mathlib.Algebra.Order.Ring.Nat
import BlockVideo.EdgeGrid

/-!
# Usable grids

Sizes make a usable grid when its positions cover no more than a superblock and every position has
a level of its own among the 64 of a superblock (`EdgeGrid.Usable`). That is said of the level index
in whole numbers (`wholeIndex`), while the grid is made by comparing a row stride, and the index of
a level is computed in 64-bit words, which lose what does not fit.

`new?_accepts_usable` says that the comparisons accept the usable sizes and no others, and that
nothing is lost in the numbers of an accepted grid (`EdgeGrid.Numbered`).
-/

namespace BlockVideo.EdgeGrid

/-- The level index of a position, in whole numbers. -/
def wholeIndex (levelShift rowScale row col : Nat) : Nat := row * rowScale * 2 ^ levelShift + col

/-- The same in words of 64 bits, where sums and products wrap and a shift drops bits. -/
def wordIndex (levelShift rowScale row col : Nat) : UInt64 :=
  (UInt64.ofNat row * UInt64.ofNat rowScale) <<< UInt64.ofNat levelShift + UInt64.ofNat col

structure Usable (blockDim steps levelShift rowScale : Nat) : Prop where
  one_le_steps : 1 ≤ steps
  steps_le : steps ≤ 8
  dvd_blockDim : 8 ∣ blockDim
  span_le : 8 * steps ≤ blockDim
  one_le_rowScale : 1 ≤ rowScale
  rowStride_lt : rowScale * 2 ^ levelShift < 2 ^ 64
  index_lt : ∀ row col, row < steps → col < steps → wholeIndex levelShift rowScale row col < 64
  index_inj : ∀ row col row' col', row < steps → col < steps → row' < steps → col' < steps →
    wholeIndex levelShift rowScale row col = wholeIndex levelShift rowScale row' col' →
      row = row' ∧ col = col'

/-- The bits and the level indices of a grid are what they are in whole numbers. -/
structure Numbered (g : EdgeGrid) : Prop where
  shift_lt : g.levelShift < 64
  level : ∀ row col : Fin g.steps,
    g.levelIndex row col = wholeIndex g.levelShift g.rowScale row col
  word : ∀ row col : Fin g.steps,
    (wordIndex g.levelShift g.rowScale row col).toNat = g.levelIndex row col
  bit_inj : ∀ row col row' col' : Fin g.steps, g.bit row col = g.bit row' col' →
    row = row' ∧ col = col'
  bit_onto : ∀ i, i < g.positions ↔ ∃ row col : Fin g.steps, g.bit row col = i
  row : ∀ (row : Fin g.steps) i,
    (g.rowPositions row).has i = true ↔ ∃ col : Fin g.steps, g.bit row col = i
  column : ∀ (col : Fin g.steps) i,
    (g.columnPositions col).has i = true ↔ ∃ row : Fin g.steps, g.bit row col = i
  all : ∀ i, g.all.has i = true ↔ i < g.positions

variable {g : EdgeGrid} {blockDim steps levelShift rowScale row col : Nat}

/-! ## Accepted sizes -/

theorem wholeIndex_eq :
    wholeIndex levelShift rowScale row col = row * (rowScale <<< levelShift) + col := by
  rw [wholeIndex, Nat.shiftLeft_eq, Nat.mul_assoc]

theorem levelIndex_eq_wholeIndex (hr : row < g.steps) :
    g.levelIndex row col = wholeIndex g.levelShift g.rowScale row col := by
  rw [levelIndex_eq hr, wholeIndex_eq]

theorem levelShift_lt (g : EdgeGrid) : g.levelShift < 64 := by
  have hs := g.rowStride_lt
  have hp := Nat.le_mul_of_pos_left (2 ^ g.levelShift) g.one_le_rowScale
  rw [Nat.shiftLeft_eq] at hs
  exact (Nat.pow_lt_pow_iff_right (show 1 < 2 by decide)).1 (Nat.lt_of_le_of_lt hp hs)

theorem new?_eq_ok_iff : new? blockDim steps levelShift rowScale = .ok g ↔
    g.blockDim = blockDim ∧ g.steps = steps ∧ g.levelShift = levelShift ∧
      g.rowScale = rowScale := by
  constructor
  · intro h
    unfold new? at h
    repeat' split at h
    all_goals cases h
    exact ⟨rfl, rfl, rfl, rfl⟩
  · rintro ⟨rfl, rfl, rfl, rfl⟩
    rw [new?, dif_pos ⟨g.one_le_steps, g.steps_le⟩, dif_pos ⟨g.blockDim_mod, g.span_le⟩,
      dif_pos g.one_le_rowScale, if_pos g.levelShift_lt, dif_pos g.rowStride_lt,
      dif_pos g.steps_le_rowStride, dif_pos g.lastLevel_lt]

theorem usable (g : EdgeGrid) : Usable g.blockDim g.steps g.levelShift g.rowScale where
  one_le_steps := g.one_le_steps
  steps_le := g.steps_le
  dvd_blockDim := Nat.dvd_of_mod_eq_zero g.blockDim_mod
  span_le := g.span_le
  one_le_rowScale := g.one_le_rowScale
  rowStride_lt := by
    have := g.rowStride_lt
    rwa [Nat.shiftLeft_eq] at this
  index_lt row col hr hc := levelIndex_eq_wholeIndex hr ▸ levelIndex_lt hr hc
  index_inj row col row' col' hr hc hr' hc' h := by
    rw [← levelIndex_eq_wholeIndex hr, ← levelIndex_eq_wholeIndex hr'] at h
    exact levelIndex_inj hr hc hr' hc' h

namespace Usable

variable (u : Usable blockDim steps levelShift rowScale)

include u

/-- Rows that start closer together than a row is long would share a level. -/
theorem steps_le_rowStride : steps ≤ rowScale <<< levelShift := by
  have pos : 0 < rowScale <<< levelShift := by
    rw [Nat.shiftLeft_eq]
    exact Nat.mul_pos u.one_le_rowScale (Nat.two_pow_pos levelShift)
  refine Nat.le_of_not_lt fun short => ?_
  have shared : wholeIndex levelShift rowScale 1 0 =
      wholeIndex levelShift rowScale 0 (rowScale <<< levelShift) := by
    rw [wholeIndex_eq, wholeIndex_eq, Nat.one_mul, Nat.zero_mul, Nat.add_zero, Nat.zero_add]
  have := u.index_inj 1 0 0 (rowScale <<< levelShift) (by omega) (by omega) (by omega) short shared
  exact Nat.one_ne_zero this.1

theorem exists_grid : ∃ g : EdgeGrid, g.blockDim = blockDim ∧ g.steps = steps ∧
    g.levelShift = levelShift ∧ g.rowScale = rowScale := by
  have := u.one_le_steps
  have last := u.index_lt (steps - 1) (steps - 1) (by omega) (by omega)
  rw [wholeIndex_eq] at last
  exact ⟨⟨blockDim, steps, levelShift, rowScale, u.one_le_steps, u.steps_le,
    Nat.mod_eq_zero_of_dvd u.dvd_blockDim, u.span_le, u.one_le_rowScale,
    (Nat.shiftLeft_eq ..).symm ▸ u.rowStride_lt, u.steps_le_rowStride, last⟩, rfl, rfl, rfl, rfl⟩

end Usable

/-! ## Numbers of positions -/

/-- No step of the computation leaves the range of words. -/
theorem toNat_wordIndex (hr : row < g.steps) (hc : col < g.steps) :
    (wordIndex g.levelShift g.rowScale row col).toNat = g.levelIndex row col := by
  have shift := g.levelShift_lt
  have index := levelIndex_lt hr hc
  rw [levelIndex_eq hr, Nat.shiftLeft_eq, ← Nat.mul_assoc, ← Nat.shiftLeft_eq] at index
  have scaled : row * g.rowScale ≤ (row * g.rowScale) <<< g.levelShift := by
    rw [Nat.shiftLeft_eq]
    exact Nat.le_mul_of_pos_right _ (Nat.two_pow_pos g.levelShift)
  have scale : g.rowScale ≤ g.rowScale <<< g.levelShift := by
    rw [Nat.shiftLeft_eq]
    exact Nat.le_mul_of_pos_right _ (Nat.two_pow_pos g.levelShift)
  have stride := g.rowStride_lt
  have steps := g.steps_le
  unfold UInt64.size at stride
  -- the greatest level index is a word, and no intermediate result exceeds it
  have row64 : row % 2 ^ 64 = row := Nat.mod_eq_of_lt (by omega)
  have scale64 : g.rowScale % 2 ^ 64 = g.rowScale := Nat.mod_eq_of_lt (by omega)
  have shift64 : g.levelShift % 2 ^ 64 % 64 = g.levelShift := by omega
  have scaled64 : row * g.rowScale % 2 ^ 64 = row * g.rowScale := Nat.mod_eq_of_lt (by omega)
  simp only [wordIndex, UInt64.toNat_add, UInt64.toNat_shiftLeft, UInt64.toNat_mul,
    UInt64.toNat_ofNat', row64, scale64, shift64, scaled64]
  rw [levelIndex]
  unfold UInt64.size
  omega

theorem numbered (g : EdgeGrid) : g.Numbered where
  shift_lt := g.levelShift_lt
  level row _ := levelIndex_eq_wholeIndex row.isLt
  word row col := toNat_wordIndex row.isLt col.isLt
  bit_inj row col row' col' h :=
    (bit_inj row.isLt col.isLt row'.isLt col'.isLt h).imp Fin.ext Fin.ext
  bit_onto i := by
    constructor
    · intro h
      obtain ⟨row, col, hr, hc, bit⟩ := exists_bit h
      exact ⟨⟨row, hr⟩, ⟨col, hc⟩, bit⟩
    · rintro ⟨row, col, rfl⟩
      exact bit_lt_positions row.isLt col.isLt
  row row i := by
    rw [mem_rowPositions_iff row.isLt, Fin.exists_iff]
    simp only [exists_prop]
  column col i := by
    rw [mem_columnPositions_iff col.isLt, Fin.exists_iff]
    simp only [exists_prop]
  all i := by
    have := g.positions_le
    rw [all, Positions.has_below, Bool.and_eq_true, decide_eq_true_eq, decide_eq_true_eq]
    omega

/-- Sizes are accepted when they make a usable grid, the accepted grid has just these sizes, and its
positions have the numbers that whole numbers give them. -/
theorem new?_accepts_usable :
    (∀ blockDim steps levelShift rowScale,
      ((∃ g, new? blockDim steps levelShift rowScale = .ok g) ↔
        Usable blockDim steps levelShift rowScale) ∧
      ∀ g, new? blockDim steps levelShift rowScale = .ok g ↔
        g.blockDim = blockDim ∧ g.steps = steps ∧ g.levelShift = levelShift ∧
          g.rowScale = rowScale) ∧
    ∀ g : EdgeGrid, g.Numbered := by
  refine ⟨fun blockDim steps levelShift rowScale => ⟨⟨?_, fun u => ?_⟩, fun g => new?_eq_ok_iff⟩,
    numbered⟩
  · rintro ⟨g, accepted⟩
    obtain ⟨rfl, rfl, rfl, rfl⟩ := new?_eq_ok_iff.1 accepted
    exact g.usable
  · obtain ⟨g, sizes⟩ := u.exists_grid
    exact ⟨g, new?_eq_ok_iff.2 sizes⟩

end BlockVideo.EdgeGrid
