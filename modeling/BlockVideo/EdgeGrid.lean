import BlockVideo.Error
import BlockVideo.RowMajor
import BlockVideo.Subsampling

/-!
# Edge grids

A plane is divided into square superblocks. Each has `steps` edge positions along each axis, eight
samples apart from its upper left corner on; what is left of the superblock carries no edges. The
position in grid row `row` and column `col` has a bit in the position sets and an index in the 64
levels of a superblock. An `EdgeGrid` is a choice of sizes under which those never collide and
never leave their range: `bit_lt`, `bit_inj`, `levelIndex_lt`, `levelIndex_inj`. Rows and columns
are those of positions of the grid, for which no sum, product or shift of a grid overflows.
-/

namespace BlockVideo

inductive GridFlaw where
  | stepsOutOfRange (steps : Nat)
  | blockDimUnfit (blockDim steps : Nat)
  | noRowScale
  | rowStrideOverflow
  | rowsOverlap (rowStride steps : Nat)
  | levelsExceeded
  deriving DecidableEq, Repr

def GridFlaw.message : GridFlaw → String
  | stepsOutOfRange steps => s!"step_max {steps} outside 1..=8"
  | blockDimUnfit blockDim steps =>
    s!"block_dim {blockDim} is not a multiple of 8 covering step_max {steps}"
  | noRowScale => "row_mult must be non-zero"
  | rowStrideOverflow => "level index row stride overflows"
  | rowsOverlap rowStride steps =>
    s!"level index rows overlap: row stride {rowStride} < step_max {steps}"
  | levelsExceeded => "level index exceeds 64 entries"

structure EdgeGrid where
  /-- Samples along a superblock. -/
  blockDim : Nat
  /-- Edge positions along a superblock. -/
  steps : Nat
  /-- Binary zeros appended to a scaled row in the level index. -/
  levelShift : Nat
  /-- Factor of the row in the level index. -/
  rowScale : Nat
  one_le_steps : 1 ≤ steps
  steps_le : steps ≤ 8
  blockDim_mod : blockDim % 8 = 0
  span_le : 8 * steps ≤ blockDim
  one_le_rowScale : 1 ≤ rowScale
  rowStride_lt : rowScale <<< levelShift < UInt64.size
  steps_le_rowStride : steps ≤ rowScale <<< levelShift
  lastLevel_lt : (steps - 1) * (rowScale <<< levelShift) + (steps - 1) < 64
  deriving DecidableEq

namespace EdgeGrid

/-- Samples between two edge positions. -/
def spacing : Nat := 8

/-- The grid of these sizes, or the first thing wrong with them. -/
def new? (blockDim steps levelShift rowScale : Nat) : Except GridFlaw EdgeGrid :=
  if h₁ : 1 ≤ steps ∧ steps ≤ 8 then
    if h₂ : blockDim % 8 = 0 ∧ 8 * steps ≤ blockDim then
      if h₃ : 1 ≤ rowScale then
        if levelShift < 64 then
          if h₄ : rowScale <<< levelShift < UInt64.size then
            if h₅ : steps ≤ rowScale <<< levelShift then
              if h₆ : (steps - 1) * (rowScale <<< levelShift) + (steps - 1) < 64 then
                .ok ⟨blockDim, steps, levelShift, rowScale, h₁.1, h₁.2, h₂.1, h₂.2, h₃, h₄, h₅, h₆⟩
              else .error .levelsExceeded
            else .error (.rowsOverlap (rowScale <<< levelShift) steps)
          else .error .rowStrideOverflow
        else .error .rowStrideOverflow
      else .error .noRowScale
    else .error (.blockDimUnfit blockDim steps)
  else .error (.stepsOutOfRange steps)

/-- Superblocks of 64 samples with eight positions along each axis. -/
def luma : EdgeGrid :=
  ⟨64, 8, 3, 1, by decide, by decide, by decide, by decide, by decide, by decide, by decide,
    by decide⟩

/-- Superblocks of 32 samples with four positions along each axis. -/
def chroma : EdgeGrid :=
  ⟨32, 4, 1, 2, by decide, by decide, by decide, by decide, by decide, by decide, by decide,
    by decide⟩

instance : Inhabited EdgeGrid := ⟨luma⟩

def ofSubsampling : Subsampling → EdgeGrid
  | .full => luma
  | .halved => chroma

variable (g : EdgeGrid)

def positions : Nat := g.steps * g.steps

/-- Samples along a superblock that have edge positions. -/
def span : Nat := g.steps * spacing

/-- Superblocks along `n` samples. The last one may be cut off. -/
def count (n : Nat) : Nat := (n + (g.blockDim - 1)) / g.blockDim

/-- How many of `n` lines meet the edge positions of the superblocks in place `across`. -/
def meeting (n across : Nat) : Nat := min (across * g.blockDim + g.span) n - across * g.blockDim

/-- The bit of a position, a 32-bit number. -/
def bit (row col : Nat) : Nat := (row * g.steps + col) % UInt32.size

/-- The index of a position's level. The shift is one of 64-bit words. -/
def levelIndex (row col : Nat) : Nat := (row * g.rowScale) <<< g.levelShift % UInt64.size + col

def all : Positions := .below g.positions

def rowPositions (row : Nat) : Positions := Positions.below g.steps <<< (row * g.steps)

def columnPositions (col : Nat) : Positions :=
  (List.range g.steps).foldl (fun s row => s ||| .single (g.bit row col)) 0

variable {g}

theorem blockDim_pos : 0 < g.blockDim := by
  have := g.span_le
  have := g.one_le_steps
  omega

theorem bit_eq {row col : Nat} (hr : row < g.steps) (hc : col < g.steps) :
    g.bit row col = row * g.steps + col := by
  have := g.steps_le
  have : row * g.steps ≤ 7 * 8 := Nat.mul_le_mul (by omega) this
  unfold bit UInt32.size
  omega

theorem bit_lt_positions {row col : Nat} (hr : row < g.steps) (hc : col < g.steps) :
    g.bit row col < g.positions := by
  rw [bit_eq hr hc]
  exact RowMajor.number_lt hr hc

theorem bit_inj {row col row' col' : Nat} (hr : row < g.steps) (hc : col < g.steps)
    (hr' : row' < g.steps) (hc' : col' < g.steps) (h : g.bit row col = g.bit row' col') :
    row = row' ∧ col = col' := by
  rw [bit_eq hr hc, bit_eq hr' hc'] at h
  exact RowMajor.inj hc hc' h

theorem exists_bit {i : Nat} (h : i < g.positions) :
    ∃ row col, row < g.steps ∧ col < g.steps ∧ g.bit row col = i := by
  obtain ⟨hc, hr⟩ := RowMajor.lt_of_number_lt h
  refine ⟨_, _, hr, hc, ?_⟩
  rw [bit_eq hr hc, Nat.mul_comm, Nat.div_add_mod]

theorem positions_le : g.positions ≤ 64 := Nat.mul_le_mul g.steps_le g.steps_le

theorem bit_lt {row col : Nat} (hr : row < g.steps) (hc : col < g.steps) : g.bit row col < 64 :=
  Nat.lt_of_lt_of_le (bit_lt_positions hr hc) positions_le

theorem levelIndex_eq {row col : Nat} (hr : row < g.steps) :
    g.levelIndex row col = row * (g.rowScale <<< g.levelShift) + col := by
  have h := Nat.mul_le_mul_right (g.rowScale <<< g.levelShift) (show row ≤ g.steps - 1 by omega)
  have := g.lastLevel_lt
  rw [levelIndex, Nat.shiftLeft_eq, Nat.mul_assoc, ← Nat.shiftLeft_eq,
    Nat.mod_eq_of_lt (by unfold UInt64.size; omega)]

theorem levelIndex_lt {row col : Nat} (hr : row < g.steps) (hc : col < g.steps) :
    g.levelIndex row col < 64 := by
  have h := Nat.mul_le_mul_right (g.rowScale <<< g.levelShift) (show row ≤ g.steps - 1 by omega)
  have := g.lastLevel_lt
  rw [levelIndex_eq hr]
  omega

theorem levelIndex_inj {row col row' col' : Nat} (hr : row < g.steps) (hc : col < g.steps)
    (hr' : row' < g.steps) (hc' : col' < g.steps)
    (h : g.levelIndex row col = g.levelIndex row' col') : row = row' ∧ col = col' := by
  have := g.steps_le_rowStride
  rw [levelIndex_eq hr, levelIndex_eq hr'] at h
  exact RowMajor.inj (by omega) (by omega) h

theorem has_rowPositions {row i : Nat} :
    (g.rowPositions row).has i = true ↔
      i < 64 ∧ row * g.steps ≤ i ∧ i < row * g.steps + g.steps := by
  have := g.steps_le
  simp only [rowPositions, Positions.has, BitVec.getLsbD_shiftLeft]
  rw [← Positions.has, Positions.has_below]
  simp only [Bool.and_eq_true, decide_eq_true_eq, Bool.not_eq_true', decide_eq_false_iff_not]
  omega

theorem has_columnPositions {col i : Nat} :
    (g.columnPositions col).has i = true ↔ i < 64 ∧ ∃ row, row < g.steps ∧ g.bit row col = i := by
  have step (s : Positions) (row : Nat) : (s ||| .single (g.bit row col)).has i = true ↔
      s.has i = true ∨ i < 64 ∧ g.bit row col = i := by
    simp only [Positions.has_or, Positions.has_single, Bool.or_eq_true, Bool.and_eq_true,
      decide_eq_true_eq]
  have empty : Positions.has 0 i = false := Positions.has_zero i
  refine (Positions.foldl_collects_iff (P := fun s => Positions.has s i = true) step _ _).trans ?_
  simp only [empty, List.mem_range, Bool.false_eq_true, false_or, and_left_comm (b := i < 64),
    exists_and_left]

theorem mem_columnPositions_iff {col i : Nat} (hc : col < g.steps) :
    (g.columnPositions col).has i = true ↔ ∃ row, row < g.steps ∧ g.bit row col = i := by
  rw [has_columnPositions]
  refine and_iff_right_of_imp ?_
  rintro ⟨row, hr, rfl⟩
  exact bit_lt hr hc

theorem mem_rowPositions_iff {row i : Nat} (hr : row < g.steps) :
    (g.rowPositions row).has i = true ↔ ∃ col, col < g.steps ∧ g.bit row col = i := by
  rw [has_rowPositions]
  constructor
  · rintro ⟨-, hl, hu⟩
    refine ⟨i - row * g.steps, by omega, ?_⟩
    rw [bit_eq hr (by omega)]
    omega
  · rintro ⟨col, hc, rfl⟩
    have := bit_lt hr hc
    rw [bit_eq hr hc] at *
    omega

theorem lt_span_iff {i : Nat} : i < g.span ↔ i / spacing < g.steps := by
  simp only [span, spacing]
  omega

theorem lt_meeting_iff {n across i : Nat} :
    i < g.meeting n across ↔ i < g.span ∧ across * g.blockDim + i < n := by
  unfold meeting
  omega

theorem count_zero : g.count 0 = 0 := by
  have := g.blockDim_pos
  rw [count, Nat.div_eq_of_lt (by omega)]

theorem div_lt_count {i n : Nat} (h : i < n) : i / g.blockDim < g.count n := by
  have hp : 0 < g.blockDim := blockDim_pos
  rw [count, Nat.div_lt_iff_lt_mul hp]
  have := Nat.lt_div_mul_add hp (a := n + (g.blockDim - 1))
  omega

end EdgeGrid

end BlockVideo
