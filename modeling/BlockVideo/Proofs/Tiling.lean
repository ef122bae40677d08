import Mathlib.Data.List.Forall2
import BlockVideo.Proofs.WriteBack
import BlockVideo.Synthetic

/-!
# The tiling of a plane by blocks

Block `i` of a tiling lies in column `i % columns` and row `i / columns` of a grid of squares, so a
sample is covered by the block whose column and row its coordinates are when divided by the side of
a square (`covers_tilingBlock_iff`). Hence blocks do not meet, and together cover the whole squares
that fit into the plane.

A block within the visible area is predicted from a plane with a border of four samples: filters
read no more than that on any side (`Block.inside_of_within`). So all blocks of a tiling are
predicted, one after the other (`tiling_covers`).
-/

namespace BlockVideo

variable {l : Layout}

/-! ## Lists of requests -/

section Requests

variable {ε α β : Type} {f : α → Except ε β} {as : List α} {bs : List β}

theorem mapM_eq_ok_iff : as.mapM f = .ok bs ↔ List.Forall₂ (fun a b => f a = .ok b) as bs := by
  induction as generalizing bs with
  | nil =>
    rw [List.mapM_nil, List.forall₂_nil_left_iff]
    exact ⟨fun e => (Except.ok.inj e).symm, fun e => e ▸ rfl⟩
  | cons a as ih =>
    simp only [List.mapM_cons, bind_eq_ok_iff, ih, List.forall₂_cons_left_iff]
    constructor
    · rintro ⟨b, hb, bs', hbs, e⟩
      exact ⟨b, bs', hb, hbs, (Except.ok.inj e).symm⟩
    · rintro ⟨b, bs', hb, hbs, rfl⟩
      exact ⟨b, hb, bs', hbs, rfl⟩

theorem exists_mapM_eq_ok (h : ∀ a ∈ as, ∃ b, f a = .ok b) : ∃ bs, as.mapM f = .ok bs := by
  induction as with
  | nil => exact ⟨[], rfl⟩
  | cons a as ih =>
    obtain ⟨b, hb⟩ := h a List.mem_cons_self
    obtain ⟨bs, hbs⟩ := ih fun a' ha => h a' (List.mem_cons_of_mem _ ha)
    exact ⟨b :: bs, mapM_eq_ok_iff.2 (.cons hb (mapM_eq_ok_iff.1 hbs))⟩

end Requests

/-! ## Blocks within the visible area -/

/-- What a filter reads beyond a line: three samples before it and four behind it, at the most. -/
theorem Phase.reach (φ : Phase) : φ.lead ≤ 3 ∧ φ.spread ≤ φ.lead + 4 := by
  unfold lead spread
  split <;> decide

namespace Block

variable {b : Block}

def Covers (b : Block) (u v : Int) : Prop :=
  (b.x ≤ u ∧ u < b.x + b.width) ∧ b.y ≤ v ∧ v < b.y + b.height

theorem inside_of_within (left : 0 ≤ b.x) (top : 0 ≤ b.y) (right : b.x + b.width ≤ l.width)
    (bottom : b.y + b.height ≤ l.height) (border : 4 ≤ l.border) : b.Inside l := by
  have columns := b.phaseX.reach
  have rows := b.phaseY.reach
  constructor <;> simp only [supportX, supportY, supportWidth, supportHeight] <;> omega

end Block

namespace Synthetic

variable {width height size columns rows i column row : Nat} {blocks : List Block}

/-! ## One block -/

theorem flaw?_tilingBlock (least : 1 ≤ size) (most : size ≤ 64) (i column row : Nat) :
    (tilingBlock size i column row).flaw? = none :=
  Block.flaw?_eq_none_iff.2 ⟨least, most, least, most⟩

theorem exists_ediv_eq_iff (least : 1 ≤ size) {z : Int} {n : Nat} :
    (∃ k, k < n ∧ z / size = (k : Nat)) ↔ 0 ≤ z ∧ z < (size * n : Nat) := by
  have hs : (0 : Int) < size := by omega
  rw [← Int.ediv_nonneg_iff_of_pos hs, Nat.mul_comm, Int.natCast_mul, ← Int.ediv_lt_iff_lt_mul hs]
  constructor
  · rintro ⟨k, hk, e⟩
    omega
  · rintro ⟨nonneg, lt⟩
    exact ⟨(z / size).toNat, by omega, by omega⟩

section Place

variable (hx : 2 * (column * size) < UInt64.size) (hy : 2 * (row * size) < UInt64.size)

include hx hy

theorem tilingBlock_place : (tilingBlock size i column row).x = (column * size : Nat) ∧
    (tilingBlock size i column row).y = (row * size : Nat) := by
  simp only [tilingBlock, signed64_of_lt hx, signed64_of_lt hy, and_self]

theorem covers_tilingBlock_iff (least : 1 ≤ size) {u v : Int} :
    (tilingBlock size i column row).Covers u v ↔ u / size = column ∧ v / size = row := by
  have quotient (z : Int) (k : Nat) :
      (((k * size : Nat) : Int) ≤ z ∧ z < (k * size : Nat) + size) ↔ z / size = k := by
    have hs : (0 : Int) < size := by omega
    rw [Int.ediv_eq_iff_of_pos hs]
    push_cast
    rfl
  obtain ⟨x, y⟩ := tilingBlock_place (i := i) hx hy
  rw [Block.Covers, x, y, ← quotient u, ← quotient v]
  rfl

end Place

/-! ## All blocks -/

/-- The blocks of a grid of squares, row by row. -/
def tilingBlocks (size columns rows : Nat) : List Block :=
  RowMajor.cells columns rows (tilingBlock size)

theorem tiling_eq (least : 1 ≤ size) (width height : Nat) :
    tiling width height size = (do
      Capacity.require (width / size * (height / size)) Block.bytes
      return tilingBlocks size (width / size) (height / size)) := by
  rw [tiling, if_neg (Nat.ne_of_gt least)]
  rfl

/-- The places of all blocks of a grid are their own signed readings. -/
def InWords (size columns rows : Nat) : Prop :=
  ∀ column row, column < columns → row < rows →
    2 * (column * size) < UInt64.size ∧ 2 * (row * size) < UInt64.size

/-- So they are when the list of the blocks takes less than a quarter of what a word can count. -/
theorem inWords_of_bytes (most : size ≤ 64)
    (few : 4 * (columns * rows * Block.bytes) < UInt64.size) : InWords size columns rows := by
  intro column row hc hr
  have across := Nat.le_mul_of_pos_right columns (Nat.zero_lt_of_lt hr)
  have down := Nat.le_mul_of_pos_left rows (Nat.zero_lt_of_lt hc)
  have x := Nat.mul_le_mul (show column ≤ columns * rows by omega) most
  have y := Nat.mul_le_mul (show row ≤ columns * rows by omega) most
  simp only [Block.bytes] at few
  omega

section Grid

variable (words : InWords size columns rows) (least : 1 ≤ size)

include words least

theorem pairwise_tilingBlocks :
    (tilingBlocks size columns rows).Pairwise fun b b' =>
      ∀ u v, b.Covers u v → ¬ b'.Covers u v := by
  rw [tilingBlocks, RowMajor.cells, List.pairwise_map]
  refine List.pairwise_lt_range.imp_of_mem fun {i j} hi hj lt u v covers covers' => ?_
  obtain ⟨hc, hr⟩ := RowMajor.lt_of_number_lt (List.mem_range.1 hi)
  obtain ⟨hc', hr'⟩ := RowMajor.lt_of_number_lt (List.mem_range.1 hj)
  obtain ⟨x, y⟩ := words _ _ hc hr
  obtain ⟨x', y'⟩ := words _ _ hc' hr'
  have cell := (covers_tilingBlock_iff x y least).1 covers
  have cell' := (covers_tilingBlock_iff x' y' least).1 covers'
  have column := Int.ofNat.inj (cell.1.symm.trans cell'.1)
  have row := Int.ofNat.inj (cell.2.symm.trans cell'.2)
  rw [← Nat.div_add_mod i columns, ← Nat.div_add_mod j columns, column, row] at lt
  exact Nat.lt_irrefl _ lt

theorem exists_covers_iff {u v : Int} :
    (∃ b ∈ tilingBlocks size columns rows, b.Covers u v) ↔
      (0 ≤ u ∧ u < (size * columns : Nat)) ∧ 0 ≤ v ∧ v < (size * rows : Nat) := by
  rw [← exists_ediv_eq_iff least, ← exists_ediv_eq_iff least]
  constructor
  · rintro ⟨b, mem, covers⟩
    obtain ⟨i, column, row, hc, hr, rfl⟩ := RowMajor.mem_cells mem
    obtain ⟨x, y⟩ := words column row hc hr
    obtain ⟨across, down⟩ := (covers_tilingBlock_iff x y least).1 covers
    exact ⟨⟨column, hc, across⟩, row, hr, down⟩
  · rintro ⟨⟨column, hc, across⟩, row, hr, down⟩
    obtain ⟨x, y⟩ := words column row hc hr
    refine ⟨_, List.mem_of_getElem? (RowMajor.getElem?_cells hc hr), ?_⟩
    exact (covers_tilingBlock_iff x y least).2 ⟨across, down⟩

end Grid

/-! ## Predictions -/

section Plane

variable (least : 1 ≤ size) (room : l.size ≤ Capacity.limit) (right : width ≤ l.width)
  (bottom : height ≤ l.height) (border : 4 ≤ l.border)

include least room right bottom border

theorem inside_tilingBlock (hc : column < width / size) (hr : row < height / size) :
    (tilingBlock size i column row).Inside l := by
  have hx := tile_end_le hc
  have hy := tile_end_le hr
  obtain ⟨line, lines⟩ := l.bordered_le_size (by omega) (by omega)
  have limit : 2 * Capacity.limit < UInt64.size := by decide
  have wordX : 2 * (column * size) < UInt64.size := by omega
  have wordY : 2 * (row * size) < UInt64.size := by omega
  obtain ⟨x, y⟩ := tilingBlock_place (i := i) wordX wordY
  refine Block.inside_of_within ?_ ?_ ?_ ?_ border
  · rw [x]
    exact Int.natCast_nonneg _
  · rw [y]
    exact Int.natCast_nonneg _
  · rw [x]
    exact_mod_cast Nat.le_trans hx right
  · rw [y]
    exact_mod_cast Nat.le_trans hy bottom

theorem exists_predictAll (most : size ≤ 64) (p : Plane l) :
    ∃ tiles, predictAll true (tilingBlocks size (width / size) (height / size)) p = .ok tiles := by
  refine exists_mapM_eq_ok fun b mem => ?_
  obtain ⟨i, column, row, hc, hr, rfl⟩ := RowMajor.mem_cells mem
  have inside := inside_tilingBlock (i := i) least room right bottom border hc hr
  obtain ⟨t, predicted⟩ :=
    inside.exists_predict room (flaw?_tilingBlock least most i column row) true p
  exact ⟨_, bind_eq_ok_iff.2 ⟨t, predicted, rfl⟩⟩

end Plane

/-! ## Tilings -/

/-- The blocks are the squares of a grid of side `size`, row by row. -/
structure Tessellates (size columns rows : Nat) (blocks : List Block) : Prop where
  raster : ∀ column row, column < columns → row < rows → ∃ b,
    blocks[row * columns + column]? = some b ∧ b.x = (column * size : Nat) ∧
      b.y = (row * size : Nat) ∧ b.width = size ∧ b.height = size
  disjoint : blocks.Pairwise fun b b' => ∀ u v, b.Covers u v → ¬ b'.Covers u v
  covered : ∀ u v, (∃ b ∈ blocks, b.Covers u v) ↔
    (0 ≤ u ∧ u < (size * columns : Nat)) ∧ 0 ≤ v ∧ v < (size * rows : Nat)

theorem tessellates (words : InWords size columns rows) (least : 1 ≤ size) :
    Tessellates size columns rows (tilingBlocks size columns rows) where
  raster column row hc hr :=
    have ⟨x, y⟩ := words column row hc hr
    have ⟨across, down⟩ := tilingBlock_place x y
    ⟨_, RowMajor.getElem?_cells hc hr, across, down, rfl, rfl⟩
  disjoint := pairwise_tilingBlocks words least
  covered _ _ := exists_covers_iff words least

/-- The tiling of a plane by squares of side 1 to 64. It fails exactly when there is no room for the
list of its blocks. Else there is one block for each whole square that fits, none has a flaw, and
all are predicted from any plane that is as large and has a border of four samples, each as it is
alone. Where the list takes less than a quarter of what a word can count, the blocks are the squares
row by row, no two of them meet, and together they cover all that whole squares can cover. -/
theorem tiling_covers (least : 1 ≤ size) (most : size ≤ 64) (width height : Nat) :
    ((∃ f, tiling width height size = .error f) ↔
      Capacity.limit < width / size * (height / size) * Block.bytes) ∧
    ∀ blocks, tiling width height size = .ok blocks →
      blocks.length = width / size * (height / size) ∧
      (∀ b ∈ blocks, b.flaw? = none) ∧
      (4 * (blocks.length * Block.bytes) < UInt64.size →
        Tessellates size (width / size) (height / size) blocks) ∧
      ∀ {l : Layout} (p : Plane l), l.size ≤ Capacity.limit → width ≤ l.width →
        height ≤ l.height → 4 ≤ l.border →
        ∃ tiles, predictAll true blocks p = .ok tiles ∧
          List.Forall₂ (fun b tile => ∃ t, predict true b p = .ok t ∧ tile = ⟨b.width, b.height, t⟩)
            blocks tiles := by
  simp only [tiling_eq least, Capacity.require_return_eq_ok_iff]
  refine ⟨Capacity.exists_require_return_eq_error_iff, ?_⟩
  rintro blocks ⟨-, rfl⟩
  refine ⟨RowMajor.length_cells, fun b mem => ?_, fun few => ?_,
    fun p room right bottom border => ?_⟩
  · obtain ⟨i, column, row, -, -, rfl⟩ := RowMajor.mem_cells mem
    exact flaw?_tilingBlock least most i column row
  · rw [tilingBlocks, RowMajor.length_cells] at few
    exact tessellates (inWords_of_bytes most few) least
  · obtain ⟨tiles, predicted⟩ := exists_predictAll least room right bottom border most p
    refine ⟨tiles, predicted, (mapM_eq_ok_iff.1 predicted).imp fun b tile e => ?_⟩
    obtain ⟨t, alone, e⟩ := bind_eq_ok_iff.1 e
    exact ⟨t, alone, (Except.ok.inj e).symm⟩

theorem tiling_covers_ramp :
    1 ≤ 16 ∧ 16 ≤ 64 ∧ ∃ blocks, tiling 40 33 16 = .ok blocks ∧ Tessellates 16 2 2 blocks ∧
      ∃ tiles, predictAll true blocks (Plane.ofFn 40 33 4 fun x y => UInt8.ofNat (x + 3 * y)) =
        .ok tiles ∧ tiles.length = 4 := by
  have least : 1 ≤ 16 := by decide
  have most : 16 ≤ 64 := by decide
  obtain ⟨-, covers⟩ := tiling_covers least most 40 33
  have answered : tiling 40 33 16 = .ok (tilingBlocks 16 2 2) :=
    (tiling_eq least 40 33).trans (Capacity.require_return_eq_ok_iff.2 ⟨by decide, rfl⟩)
  obtain ⟨length, -, tessellates, predicted⟩ := covers _ answered
  obtain ⟨tiles, e, each⟩ := predicted
    (Plane.ofFn 40 33 4 fun x y => UInt8.ofNat (x + 3 * y)) (by decide) (by decide) (by decide)
    (by decide)
  refine ⟨least, most, _, answered, tessellates ?_, tiles, e, each.length_eq.symm.trans length⟩
  rw [length]
  decide

/-- Blocks of one sample on a plane with 2147483648 samples in each line: there is no list of so
many. -/
theorem tiling_endless_eq_fault :
    tiling 2147483648 2147483648 1 = .error (.tooLarge 4611686018427387904 40) := by
  rw [tiling_eq (by decide)]
  decide

end Synthetic

end BlockVideo
