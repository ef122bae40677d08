import Mathlib.Tactic.Ring
import BlockVideo.Proofs.DeblockInPlace
import BlockVideo.Proofs.Destinations
import BlockVideo.Proofs.FirstFlaw
import BlockVideo.Proofs.OuterEdges
import BlockVideo.Synthetic

/-!
# Synthetic edges fit every frame

The edges of a synthetic superblock can be told position by position (`Patterned`): each position
has an edge of its own width on each side that is not a side of the plane. A step of the loop over
the positions adds just the edges of one (`has_addEdges`). So no position has two widths, all
positions are in the grid, and there is nothing on the outer sides: the edges are accepted wherever
levels are at most 63.

When a luma plane is made of 8x8 squares, a halved plane has as many superblocks as it has
(`count_length`). So the entries for both pair up, there is one for every superblock, and a frame is
deblocked with them (`frameEdges_fit_frame`).
-/

namespace BlockVideo.Synthetic

variable {g : EdgeGrid} {m : BlockEdges} {o : Orientation} {w : EdgeWidth} {level : UInt8}
  {width height column row i : Nat}

/-! ## The edges of a superblock -/

/-- The edge of a cell of superblock (`column`, `row`) does not lie on the side of the plane. -/
def Inward (o : Orientation) (column row : Nat) (cell : Nat × Nat) : Prop :=
  0 < (o.cell row column).2 ∨ 0 < (o.cell cell.1 cell.2).2

theorem has_addEdges (cell : Nat × Nat) :
    (((addEdges g column row m cell).edges o).withWidth w).has i = true ↔
      ((m.edges o).withWidth w).has i = true ∨
        (Inward o column row cell ∧ edgeWidth cell.1 cell.2 = w) ∧
          (Positions.single (g.bit cell.1 cell.2)).has i = true := by
  have added (edges : EdgeMap) (inward : Prop) [Decidable inward] (v : EdgeWidth) (j : Nat) :
      ((if inward then edges.set j v else edges).withWidth w).has i = true ↔
        (edges.withWidth w).has i = true ∨
          (inward ∧ v = w) ∧ (Positions.single j).has i = true := by
    split
    · next h => simp [EdgeMap.has_withWidth_set, h]
    · next h => simp [h]
  cases o
  · exact added m.left ..
  · exact added m.above ..

theorem has_inner_addEdges (cell : Nat × Nat) :
    (addEdges g column row m cell).inner.has i = true ↔
      m.inner.has i = true ∨
        (cell.1 + cell.2) % 2 = 1 ∧ (Positions.single (g.bit cell.1 cell.2)).has i = true := by
  simp only [addEdges]
  split
  · next h => rw [Positions.has_or, Bool.or_eq_true, and_iff_right h]
  · next h => simp [h]

theorem exists_cell_iff {P : Nat × Nat → Prop} :
    (∃ cell ∈ (List.range g.steps).flatMap fun r => (List.range g.steps).map fun c => (r, c),
      P cell ∧ (Positions.single (g.bit cell.1 cell.2)).has i = true) ↔
      ∃ r c, r < g.steps ∧ c < g.steps ∧ g.bit r c = i ∧ P (r, c) := by
  simp only [List.mem_flatMap, List.mem_map, List.mem_range, Positions.has_single,
    Bool.and_eq_true, decide_eq_true_eq]
  constructor
  · rintro ⟨_, ⟨r, hr, c, hc, rfl⟩, h, -, e⟩
    exact ⟨r, c, hr, hc, e, h⟩
  · rintro ⟨r, c, hr, hc, rfl, h⟩
    exact ⟨_, ⟨r, hr, c, hc, rfl⟩, h, EdgeGrid.bit_lt hr hc, rfl⟩

/-- The edges of superblock (`column`, `row`), position by position: an edge of its own width on
each side that is not a side of the plane, and for every second position edges through its
middle. -/
structure Patterned (g : EdgeGrid) (level : UInt8) (column row : Nat) (m : BlockEdges) : Prop where
  edges : ∀ o w i, ((m.edges o).withWidth w).has i = true ↔
    ∃ r c, r < g.steps ∧ c < g.steps ∧ g.bit r c = i ∧
      Inward o column row (r, c) ∧ edgeWidth r c = w
  inner : ∀ i, m.inner.has i = true ↔
    ∃ r c, r < g.steps ∧ c < g.steps ∧ g.bit r c = i ∧ (r + c) % 2 = 1
  levels : m.levels = .replicate 64 level

theorem patterned_blockEdges (g : EdgeGrid) (level : UInt8) (column row : Nat) :
    Patterned g level column row (blockEdges g level column row) where
  edges o w i := by
    have uniform : (((BlockEdges.uniform level).edges o).withWidth w).has i = false := by
      cases o <;> cases w <;> exact Positions.has_zero i
    refine (Positions.foldl_collects_iff
      (P := fun m => ((BlockEdges.edges m o).withWidth w).has i = true)
      (fun m cell => has_addEdges cell) _ _).trans ?_
    rw [uniform, Bool.false_eq_true, false_or]
    exact exists_cell_iff (P := fun cell => Inward o column row cell ∧ edgeWidth cell.1 cell.2 = w)
  inner i := by
    have uniform : (BlockEdges.uniform level).inner.has i = false := Positions.has_zero i
    refine (Positions.foldl_collects_iff (P := fun m => (BlockEdges.inner m).has i = true)
      (fun m cell => has_inner_addEdges cell) _ _).trans ?_
    rw [uniform, Bool.false_eq_true, false_or]
    exact exists_cell_iff (P := fun cell => (cell.1 + cell.2) % 2 = 1)
  levels := by
    have keeps (cells : List (Nat × Nat)) :
        ∀ m, (cells.foldl (addEdges g column row) m).levels = m.levels := by
      induction cells with
      | nil => exact fun _ => rfl
      | cons cell cells ih => exact fun m => ih _
    exact keeps ..

namespace Patterned

theorem exists_of_hasEdge (h : Patterned g level column row m) (has : m.HasEdge i) :
    ∃ r c, r < g.steps ∧ c < g.steps ∧ g.bit r c = i := by
  rcases has with ⟨o, w, has⟩ | has
  · obtain ⟨r, c, hr, hc, e, -⟩ := (h.edges o w i).1 has
    exact ⟨r, c, hr, hc, e⟩
  · obtain ⟨r, c, hr, hc, e, -⟩ := (h.inner i).1 has
    exact ⟨r, c, hr, hc, e⟩

theorem wellFormed (h : Patterned g level column row m) (low : level.toNat ≤ 63) :
    m.WellFormed g where
  exclusive o i := by
    rintro ⟨v, w, ne, hv, hw⟩
    obtain ⟨r, c, hr, hc, e, -, rfl⟩ := (h.edges o v i).1 hv
    obtain ⟨r', c', hr', hc', e', -, rfl⟩ := (h.edges o w i).1 hw
    obtain ⟨rfl, rfl⟩ := EdgeGrid.bit_inj hr hc hr' hc' (e.trans e'.symm)
    exact ne rfl
  inside i has := by
    obtain ⟨r, c, hr, hc, rfl⟩ := h.exists_of_hasEdge has
    exact EdgeGrid.bit_lt_positions hr hc
  levels r c tooHigh := by
    have high := tooHigh.2
    simp only [BlockEdges.level, h.levels, Vector.getElem_replicate] at high
    exact absurd low (Nat.not_le.2 high)

theorem flaw?_eq_none (h : Patterned g level column row m) (low : level.toNat ≤ 63) :
    m.flaw? g = none :=
  BlockEdges.flaw?_eq_none_iff_wellFormed.2 (h.wellFormed low)

theorem union_and_firstPositions (h : Patterned g level column row m)
    (first : (o.cell row column).2 = 0) : (m.edges o).union &&& g.firstPositions o = 0 := by
  refine Positions.and_eq_zero_iff.2 fun i has => Bool.eq_false_iff.2 fun has' => ?_
  obtain ⟨w, has⟩ := EdgeMap.has_union.1 has
  obtain ⟨r, c, hr, hc, rfl, inward, -⟩ := (h.edges o w i).1 has
  have step : (o.cell r c).2 = 0 := by
    cases o
    · exact (@EdgeGrid.has_firstPositions g .vertical ⟨r, hr⟩ ⟨c, hc⟩).1 has'
    · exact (@EdgeGrid.has_firstPositions g .horizontal ⟨c, hc⟩ ⟨r, hr⟩).1 has'
  exact inward.elim (fun h => Nat.ne_of_gt h first) fun h => Nat.ne_of_gt h step

theorem borderFlaw?_eq_none (h : Patterned g level column row m) :
    m.borderFlaw? g column row = none :=
  BlockEdges.borderFlaw?_eq_none_iff.2
    ⟨h.union_and_firstPositions (o := .vertical), h.union_and_firstPositions (o := .horizontal)⟩

end Patterned

/-! ## The edges of a frame -/

/-- Where the luma plane is made of 8x8 squares, every plane has as many superblocks as that. -/
theorem count_length (s : Subsampling) {n : Nat} (h : n % 8 = 0) :
    (EdgeGrid.ofSubsampling s).count (s.length n) = EdgeGrid.luma.count n := by
  cases s
  · rw [Subsampling.length_full]
    rfl
  · simp only [EdgeGrid.count, EdgeGrid.ofSubsampling, EdgeGrid.chroma, EdgeGrid.luma,
      Subsampling.length_halved]
    omega

theorem length_mod_four (s : Subsampling) {n : Nat} (h : n % 8 = 0) : s.length n % 4 = 0 := by
  cases s
  · rw [Subsampling.length_full]
    omega
  · rw [Subsampling.length_halved]
    omega

theorem length_pos (s : Subsampling) {n : Nat} (h : 0 < n) : 0 < s.length n := by
  cases s
  · rwa [Subsampling.length_full]
  · rw [Subsampling.length_halved]
    omega

def planeBlocks (g : EdgeGrid) (level : UInt8) (columns rows : Nat) : List BlockEdges :=
  RowMajor.cells columns rows fun _ => blockEdges g level

def frameBlocks (level : UInt8) (columns rows : Nat) : List FrameEdges :=
  RowMajor.cells columns rows fun _ column row =>
    ⟨blockEdges .luma level column row, blockEdges .chroma level column row⟩

theorem map_luma_frameBlocks {columns rows : Nat} :
    (frameBlocks level columns rows).map (·.luma) = planeBlocks .luma level columns rows :=
  RowMajor.map_cells

theorem map_chroma_frameBlocks {columns rows : Nat} :
    (frameBlocks level columns rows).map (·.chroma) = planeBlocks .chroma level columns rows :=
  RowMajor.map_cells

/-- The edges of a frame are a list with an entry for each superblock, if there is room for both of
its parts and for the list. -/
theorem frameEdges_eq (hw : width % 8 = 0) (hh : height % 8 = 0) (level : UInt8) :
    frameEdges width height level = (do
      Capacity.require (EdgeGrid.luma.count width * EdgeGrid.luma.count height) BlockEdges.bytes
      Capacity.require (EdgeGrid.luma.count width * EdgeGrid.luma.count height) FrameEdges.bytes
      return frameBlocks level (EdgeGrid.luma.count width) (EdgeGrid.luma.count height)) := by
  have halved {n : Nat} (h : n % 8 = 0) :
      EdgeGrid.chroma.count (n / 2) = EdgeGrid.luma.count n := by
    rw [← count_length .halved h, Subsampling.length_halved, show (n + 1) / 2 = n / 2 by omega]
    rfl
  rw [frameEdges, planeEdges, planeEdges, halved hw, halved hh]
  generalize EdgeGrid.luma.count width = columns, EdgeGrid.luma.count height = rows
  cases Capacity.require (columns * rows) BlockEdges.bytes with
  | error f => rfl
  | ok _ =>
    change (do
      Capacity.require (min (planeBlocks .luma level columns rows).length
        (planeBlocks .chroma level columns rows).length) FrameEdges.bytes
      return List.zipWith FrameEdges.mk (planeBlocks .luma level columns rows)
        (planeBlocks .chroma level columns rows)) = _
    rw [planeBlocks, planeBlocks, RowMajor.zipWith_cells, RowMajor.length_cells,
      RowMajor.length_cells, Nat.min_self]
    rfl

theorem frameEdges_eq_ok_iff (hw : width % 8 = 0) (hh : height % 8 = 0) {edges : List FrameEdges} :
    frameEdges width height level = .ok edges ↔
      EdgeGrid.luma.count width * EdgeGrid.luma.count height * FrameEdges.bytes ≤
        Capacity.limit ∧
      edges = frameBlocks level (EdgeGrid.luma.count width) (EdgeGrid.luma.count height) := by
  rw [frameEdges_eq hw hh, bind_unit_eq_ok_iff, Capacity.require_return_eq_ok_iff,
    Capacity.require_eq_ok_iff]
  refine and_iff_right_of_imp fun ⟨room, _⟩ => Nat.le_trans (Nat.mul_le_mul_left _ ?_) room
  decide

theorem room_of_area (hw : width % 8 = 0) (hh : height % 8 = 0) (columns : 0 < width)
    (rows : 0 < height) (room : width * height ≤ Capacity.limit) :
    EdgeGrid.luma.count width * EdgeGrid.luma.count height * FrameEdges.bytes ≤ Capacity.limit := by
  -- The last superblock of a line has eight samples or more, all others have 64.
  have samples {n : Nat} (h : n % 8 = 0) (positive : 0 < n) :
      ∃ k, EdgeGrid.luma.count n = k + 1 ∧ 64 * k + 8 ≤ n := by
    simp only [EdgeGrid.count, EdgeGrid.luma]
    exact ⟨(n + 63) / 64 - 1, by omega, by omega⟩
  obtain ⟨j, countW, w⟩ := samples hw columns
  obtain ⟨k, countH, h⟩ := samples hh rows
  have area := (Nat.mul_le_mul w h).trans room
  have expanded : (64 * j + 8) * (64 * k + 8) = 4096 * (j * k) + 512 * j + 512 * k + 64 := by ring
  have entries : (j + 1) * (k + 1) = j * k + j + k + 1 := by ring
  rw [countW, countH, entries, FrameEdges.bytes, BlockEdges.bytes]
  rw [expanded] at area
  have limit : 240 ≤ Capacity.limit := by decide
  omega

/-! ## Deblocking a frame -/

/-- A plane in memory, of the size that goes with `width` by `height` luma samples. -/
structure HoldsPlane (s : Subsampling) (width height : Nat) (l : Layout) : Prop where
  size : s.planeSize width height = .ok (l.width, l.height)
  room : l.size ≤ Capacity.limit

namespace HoldsPlane

variable {l : Layout} {s : Subsampling}

theorem width_eq (holds : HoldsPlane s width height l) : l.width = s.length width :=
  (congrArg Prod.fst (Subsampling.planeSize_eq_ok_iff.1 holds.size).2).symm

theorem height_eq (holds : HoldsPlane s width height l) : l.height = s.length height :=
  (congrArg Prod.snd (Subsampling.planeSize_eq_ok_iff.1 holds.size).2).symm

theorem lanes_fit (holds : HoldsPlane s width height l) (rows : 0 < height) :
    (EdgeGrid.ofSubsampling s).columns l * EdgePlan.listBytes ≤ Capacity.limit := by
  have lines : 0 < l.height := holds.height_eq ▸ length_pos s rows
  have area := (Layout.area_le_size (Nat.le_refl l.width) lines).trans holds.room
  have limit : Capacity.limit = 9223372036854775807 := by decide
  cases s <;>
  · simp only [EdgeGrid.columns, EdgeGrid.count, EdgeGrid.ofSubsampling, EdgeGrid.luma,
      EdgeGrid.chroma, EdgePlan.listBytes]
    omega

/-- A list with a synthetic entry for every superblock is accepted. -/
theorem exists_plan (holds : HoldsPlane s width height l) (hw : width % 8 = 0)
    (hh : height % 8 = 0) (low : level.toNat ≤ 63) :
    ∃ plan, EdgePlan.ofArray? l (EdgeGrid.ofSubsampling s)
      (planeBlocks (EdgeGrid.ofSubsampling s) level (EdgeGrid.luma.count width)
        (EdgeGrid.luma.count height)).toArray = .ok plan := by
  rw [← count_length s hw, ← count_length s hh, ← holds.width_eq, ← holds.height_eq]
  refine EdgePlan.exists_iff.2 ⟨?_, RowMajor.length_cells, fun column row hc hr => ?_⟩
  · exact ⟨holds.width_eq ▸ length_mod_four s hw, holds.height_eq ▸ length_mod_four s hh⟩
  · refine ⟨_, List.getElem?_toArray.trans (RowMajor.getElem?_cells hc hr), ?_⟩
    have patterned := patterned_blockEdges (EdgeGrid.ofSubsampling s) level column row
    exact BlockEdges.flawAt?_eq_none_iff.2
      ⟨patterned.flaw?_eq_none low, patterned.borderFlaw?_eq_none⟩

theorem exists_deblockPlane_eq_ok (holds : HoldsPlane s width height l) (hw : width % 8 = 0)
    (hh : height % 8 = 0) (columns : 0 < width) (rows : 0 < height) (low : level.toNat ≤ 63)
    (table : LevelTable) (p : Plane l) :
    ∃ q, deblockPlane (EdgeGrid.ofSubsampling s) (planeBlocks (EdgeGrid.ofSubsampling s) level
      (EdgeGrid.luma.count width) (EdgeGrid.luma.count height)).toArray table p = .ok q := by
  refine (exists_deblockPlane_eq_ok_iff (holds.width_eq ▸ length_pos s columns)).2
    ⟨?_, holds.lanes_fit rows⟩
  obtain ⟨plan, accepted⟩ := holds.exists_plan hw hh low
  rw [refusal?_deblockPlane, accepted]
  rfl

end HoldsPlane

/-- One entry for each superblock of the luma plane, row by row, and as many as there are on a
chroma plane. Both parts of an entry are those of its place, and are accepted there. -/
structure FitsFrame (width height : Nat) (level : UInt8) (edges : List FrameEdges) : Prop where
  luma_count : edges.length = EdgeGrid.luma.count width * EdgeGrid.luma.count height
  chroma_count : ∃ columns rows, Subsampling.halved.planeSize width height = .ok (columns, rows) ∧
    edges.length = EdgeGrid.chroma.count columns * EdgeGrid.chroma.count rows
  accepted : ∀ column row, column < EdgeGrid.luma.count width → row < EdgeGrid.luma.count height →
    ∃ m, edges[row * EdgeGrid.luma.count width + column]? = some m ∧
      (Patterned .luma level column row m.luma ∧ m.luma.flaw? .luma = none ∧
        m.luma.borderFlaw? .luma column row = none) ∧
      Patterned .chroma level column row m.chroma ∧ m.chroma.flaw? .chroma = none ∧
        m.chroma.borderFlaw? .chroma column row = none

/-- A frame with room for its edges is small enough for its chroma planes to have a size. -/
theorem halved_words (columns : 0 < width) (rows : 0 < height)
    (room : EdgeGrid.luma.count width * EdgeGrid.luma.count height * FrameEdges.bytes ≤
      Capacity.limit) :
    width + 1 <<< Subsampling.halved.shift < UInt64.size ∧
      height + 1 <<< Subsampling.halved.shift < UInt64.size := by
  have blocks {n : Nat} (positive : 0 < n) :
      0 < EdgeGrid.luma.count n ∧ n ≤ 64 * EdgeGrid.luma.count n := by
    simp only [EdgeGrid.count, EdgeGrid.luma]
    omega
  obtain ⟨someColumns, w⟩ := blocks columns
  obtain ⟨someRows, h⟩ := blocks rows
  have across := Nat.le_mul_of_pos_right (EdgeGrid.luma.count width) someRows
  have down := Nat.le_mul_of_pos_left (EdgeGrid.luma.count height) someColumns
  have limit : Capacity.limit + 2 < UInt64.size := by decide
  simp only [FrameEdges.bytes, BlockEdges.bytes, Subsampling.shift] at room ⊢
  omega

theorem fitsFrame_frameBlocks (hw : width % 8 = 0) (hh : height % 8 = 0) (columns : 0 < width)
    (rows : 0 < height) (low : level.toNat ≤ 63)
    (room : EdgeGrid.luma.count width * EdgeGrid.luma.count height * FrameEdges.bytes ≤
      Capacity.limit) :
    FitsFrame width height level
      (frameBlocks level (EdgeGrid.luma.count width) (EdgeGrid.luma.count height)) where
  luma_count := RowMajor.length_cells
  chroma_count := by
    have across := count_length .halved hw
    have down := count_length .halved hh
    exact ⟨_, _, Subsampling.planeSize_eq_ok_iff.2 ⟨halved_words columns rows room, rfl⟩,
      RowMajor.length_cells.trans (congrArg₂ (· * ·) across.symm down.symm)⟩
  accepted column row hc hr :=
    have luma := patterned_blockEdges .luma level column row
    have chroma := patterned_blockEdges .chroma level column row
    ⟨_, RowMajor.getElem?_cells hc hr,
      ⟨luma, luma.flaw?_eq_none low, luma.borderFlaw?_eq_none⟩,
      chroma, chroma.flaw?_eq_none low, chroma.borderFlaw?_eq_none⟩

/-- The synthetic edges of a frame of whole 8x8 squares, with a level that filters know. There are
none exactly when there is no room for a list with one entry for each superblock. Else they fit the
frame. For planes that are in memory there always are edges, and the planes are deblocked with
them. -/
theorem frameEdges_fit_frame (hw : width % 8 = 0) (hh : height % 8 = 0) (columns : 0 < width)
    (rows : 0 < height) (low : level.toNat ≤ 63) :
    ((∃ f, frameEdges width height level = .error f) ↔ Capacity.limit <
      EdgeGrid.luma.count width * EdgeGrid.luma.count height * FrameEdges.bytes) ∧
    (∀ edges, frameEdges width height level = .ok edges → FitsFrame width height level edges) ∧
    ∀ {luma cb cr : Layout}, HoldsPlane .full width height luma →
      HoldsPlane .halved width height cb → HoldsPlane .halved width height cr →
      ∀ (table : LevelTable) (f : Frame luma cb cr),
        ∃ edges, frameEdges width height level = .ok edges ∧
          ∃ q, deblockFrame .luma .chroma edges.toArray table f = .ok q := by
  simp only [exists_error_iff, frameEdges_eq_ok_iff hw hh, exists_and_left, exists_eq, and_true,
    Nat.not_le]
  refine ⟨trivial, ?_, ?_⟩
  · rintro edges ⟨room, rfl⟩
    exact fitsFrame_frameBlocks hw hh columns rows low room
  · intro luma cb cr holds holdsCb holdsCr table f
    have area : width * height ≤ luma.size := by
      have width_eq := holds.width_eq.trans (Subsampling.length_full width)
      have height_eq := holds.height_eq.trans (Subsampling.length_full height)
      exact Layout.area_le_size (Nat.le_of_eq width_eq.symm) (Nat.le_of_eq height_eq.symm)
    refine ⟨_, ⟨room_of_area hw hh columns rows (area.trans holds.room), rfl⟩, ?_⟩
    obtain ⟨p, hp⟩ := holds.exists_deblockPlane_eq_ok hw hh columns rows low table f.luma
    obtain ⟨p', hp'⟩ := holdsCb.exists_deblockPlane_eq_ok hw hh columns rows low table f.cb
    obtain ⟨p'', hp''⟩ := holdsCr.exists_deblockPlane_eq_ok hw hh columns rows low table f.cr
    refine ⟨⟨p, p', p''⟩, deblockFrame_eq_ok_iff.2 ?_⟩
    rw [deblockLuma, deblockChroma, deblockChroma, List.map_toArray, List.map_toArray,
      map_luma_frameBlocks, map_chroma_frameBlocks]
    exact ⟨hp, hp', hp''⟩

theorem frameEdges_fit_ramp :
    72 % 8 = 0 ∧ 40 % 8 = 0 ∧ (32 : UInt8).toNat ≤ 63 ∧
    HoldsPlane .full 72 40 (.owned 72 40 0) ∧ HoldsPlane .halved 72 40 (.owned 36 20 0) ∧
    ∃ edges, frameEdges 72 40 32 = .ok edges ∧ FitsFrame 72 40 32 edges ∧ edges.length = 2 ∧
      ∃ q, deblockFrame .luma .chroma edges.toArray .standard
        (⟨.ofFn 72 40 0 fun x y => UInt8.ofNat (x + 3 * y), .constant _ 90, .constant _ 160⟩ :
          Frame (.owned 72 40 0) (.owned 36 20 0) (.owned 36 20 0)) = .ok q := by
  have columns : 72 % 8 = 0 := by decide
  have rows : 40 % 8 = 0 := by decide
  have low : (32 : UInt8).toNat ≤ 63 := by decide
  have luma : HoldsPlane .full 72 40 (.owned 72 40 0) := ⟨rfl, by decide⟩
  have chroma : HoldsPlane .halved 72 40 (.owned 36 20 0) := ⟨rfl, by decide⟩
  obtain ⟨-, fits, deblocked⟩ := frameEdges_fit_frame columns rows (by decide) (by decide) low
  obtain ⟨edges, answered, result⟩ := deblocked luma chroma chroma .standard
    ⟨.ofFn 72 40 0 fun x y => UInt8.ofNat (x + 3 * y), .constant _ 90, .constant _ 160⟩
  have fit := fits edges answered
  exact ⟨columns, rows, low, luma, chroma, edges, answered, fit, fit.luma_count, result⟩

theorem frameEdges_endless_eq_fault :
    34359738368 % 8 = 0 ∧ 68719476736 % 8 = 0 ∧
    frameEdges 34359738368 68719476736 32 = .error (.tooLarge 576460752303423488 120) := by
  refine ⟨by decide, by decide, ?_⟩
  rw [frameEdges_eq (by decide) (by decide)]
  decide

end BlockVideo.Synthetic
