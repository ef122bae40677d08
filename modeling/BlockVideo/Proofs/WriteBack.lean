import BlockVideo.MotionVector
import BlockVideo.Proofs.Parts
import BlockVideo.Proofs.SupportWindow
import BlockVideo.Proofs.Plane.Lines

/-!
# Tiles written back

A tile is copied row by row over the visible samples of its area, and nothing else of the buffer
changes (`PlacedTile.exists_mosaic`). What a list of tiles leaves, if their areas do not meet, can
be told sample by sample and without their order (`Mosaic`), and there is only one plane like that
(`Mosaic.unique`). So the tiles can be written in any order.

A block that is not displaced predicts just the samples it lies on, whatever its bank. The tiles of
a plane, predicted like that and written back in their places, are the plane again.
-/

namespace BlockVideo

/-! ## Areas -/

namespace Part

variable {w h : Nat}

theorem has_place (a : Part w h) (c : Fin a.width) (r : Fin a.height) : a.Has (a.x + c) (a.y + r) :=
  ⟨⟨Nat.le_add_right .., Nat.add_lt_add_left c.isLt _⟩, Nat.le_add_right ..,
    Nat.add_lt_add_left r.isLt _⟩

theorem Has.exists_place {a : Part w h} {c r : Nat} (has : a.Has c r) :
    ∃ (i : Fin a.width) (j : Fin a.height), a.x + i = c ∧ a.y + j = r :=
  ⟨⟨c - a.x, Nat.sub_lt_left_of_lt_add has.1.1 has.1.2⟩,
    ⟨r - a.y, Nat.sub_lt_left_of_lt_add has.2.1 has.2.2⟩,
    Nat.add_sub_cancel' has.1.1, Nat.add_sub_cancel' has.2.1⟩

def Disjoint (a a' : Part w h) : Prop := ∀ c r, a.Has c r → ¬ a'.Has c r

theorem Disjoint.symm {a a' : Part w h} (h : a.Disjoint a') : a'.Disjoint a :=
  fun c r has has' => h c r has' has

end Part

/-- A tile with the area of a plane that it is meant for. -/
structure PlacedTile (l : Layout) where
  area : Part l.width l.height
  tile : Tile area.width area.height

variable {l l' : Layout}

def writeTiles (tiles : List (PlacedTile l)) (q : Plane l) : Outcome (Plane l) :=
  tiles.foldlM (fun q s => s.tile.writeTo q s.area.x s.area.y) q

/-! ## What is left -/

/-- In `r`, every area has the samples of its tile, and all else is as in `q`: the other visible
samples, and the buffer off the visible area. -/
structure Mosaic (tiles : List (PlacedTile l)) (q r : Plane l) : Prop where
  inside : ∀ s ∈ tiles, ∀ (c : Fin s.area.width) (row : Fin s.area.height),
    r.get ⟨s.area.x + c, s.area.column_lt c⟩ ⟨s.area.y + row, s.area.row_lt row⟩ = s.tile.get c row
  outside : ∀ (c : Fin l.width) (row : Fin l.height), (∀ s ∈ tiles, ¬ s.area.Has c row) →
    r.get c row = q.get c row
  off : q.AgreeOff r

namespace Mosaic

variable {tiles tiles' : List (PlacedTile l)} {q q' r r' : Plane l} {s : PlacedTile l}

theorem get_of_has (mosaic : Mosaic tiles q r) (hs : s ∈ tiles) (c : Fin l.width)
    (row : Fin l.height) (has : s.area.Has c row) :
    ∃ i j, s.area.x + i.val = c ∧ s.area.y + j.val = row ∧ r.get c row = s.tile.get i j := by
  obtain ⟨i, j, hi, hj⟩ := has.exists_place
  refine ⟨i, j, hi, hj, (congrArg₂ r.get ?_ ?_).trans (mosaic.inside s hs i j)⟩
  · exact Fin.ext hi.symm
  · exact Fin.ext hj.symm

theorem unique (mosaic : Mosaic tiles q r) (mosaic' : Mosaic tiles' q r')
    (same : ∀ s, s ∈ tiles ↔ s ∈ tiles') : r = r' := by
  refine Plane.ext_get (fun c row => ?_) (mosaic.off.symm.trans mosaic'.off)
  -- a sample is that of a tile over it in both planes, or that of `q` in both
  by_cases covered : ∃ s ∈ tiles, s.area.Has c row
  · obtain ⟨s, hs, has⟩ := covered
    obtain ⟨i, j, hi, hj, read⟩ := mosaic.get_of_has hs c row has
    obtain ⟨i', j', hi', hj', read'⟩ := mosaic'.get_of_has ((same s).1 hs) c row has
    obtain rfl : i = i' := Fin.ext (by omega)
    obtain rfl : j = j' := Fin.ext (by omega)
    rw [read, read']
  · have free : ∀ s ∈ tiles, ¬ s.area.Has c row := fun s hs has => covered ⟨s, hs, has⟩
    rw [mosaic.outside c row free, mosaic'.outside c row fun s hs => free s ((same s).2 hs)]

theorem nil (q : Plane l) : Mosaic [] q q :=
  ⟨fun _ hs => absurd hs List.not_mem_nil, fun _ _ _ => rfl, .refl q⟩

theorem cons (first : Mosaic [s] q q') (rest : Mosaic tiles q' r)
    (apart : ∀ t ∈ tiles, s.area.Disjoint t.area) : Mosaic (s :: tiles) q r := by
  refine ⟨fun t ht c row => ?_, fun c row free => ?_, first.off.trans rest.off⟩
  · rcases List.mem_cons.1 ht with rfl | ht
    · rw [rest.outside _ _ fun u hu => apart u hu _ _ (t.area.has_place c row)]
      exact first.inside t List.mem_cons_self c row
    · exact rest.inside t ht c row
  · rw [rest.outside c row fun t ht => free t (List.mem_cons_of_mem _ ht)]
    exact first.outside c row fun t ht =>
      free t ((List.mem_singleton.1 ht) ▸ List.mem_cons_self)

end Mosaic

/-! ## Writing -/

theorem Plane.agreeOff_overwrite (q : Plane l) {x y k : Nat} (f : Fin k → UInt8)
    (hx : x + k ≤ l.width) (hy : y < l.height) :
    q.AgreeOff ⟨Run.overwrite q.samples (l.index x y) f⟩ := by
  intro i hi off
  rw [Run.getElem_overwrite, dif_neg fun h => off ⟨x + (i - l.index x y), y, by omega, hy, ?_⟩]
  simp only [Layout.index] at h ⊢
  omega

namespace PlacedTile

variable (s : PlacedTile l) (q : Plane l)

/-- `r` is `q` with the first `k` rows of the tile written to its area. -/
structure WrittenTo (k : Nat) (r : Plane l) : Prop where
  inside : ∀ (c : Fin s.area.width) (row : Fin s.area.height), row.val < k →
    r.get ⟨s.area.x + c, s.area.column_lt c⟩ ⟨s.area.y + row, s.area.row_lt row⟩ = s.tile.get c row
  outside : ∀ (c : Fin l.width) (row : Fin l.height), ¬ s.area.Has c row → r.get c row = q.get c row
  off : q.AgreeOff r

variable {s q} in
theorem WrittenTo.succ {k : Fin s.area.height} {r : Plane l} (done : s.WrittenTo q k r) :
    s.WrittenTo q (k + 1) ⟨Run.overwrite r.samples (l.index s.area.x (s.area.y + k))
      (s.tile.rows.get k).get⟩ := by
  have right := s.area.right_le
  have hk := k.isLt
  refine ⟨fun c row hr => ?_, fun c row free => ?_,
    done.off.trans (r.agreeOff_overwrite _ right (s.area.row_lt k))⟩
  · have hc := c.isLt
    rw [r.get_overwrite _ right]
    by_cases e : row = k
    · subst e
      rw [dif_pos ⟨rfl, by simp only; omega⟩]
      congr 1
      apply Fin.ext
      simp
    · have other : row.val ≠ k.val := fun h => e (Fin.ext h)
      rw [dif_neg fun h => other (Nat.add_left_cancel h.1)]
      exact done.inside c row (by omega)
  · rw [r.get_overwrite _ right, dif_neg fun h => free ⟨h.2, by omega⟩]
    exact done.outside c row free

theorem exists_mosaic : ∃ r, s.tile.writeTo q s.area.x s.area.y = .ok r ∧ Mosaic [s] q r := by
  have right := s.area.right_le
  have bottom := s.area.bottom_le
  obtain ⟨r, hr, done⟩ := foldlM_invariant (s.WrittenTo q)
    (fun q k => q.setRow s.area.x (s.area.y + k) (s.tile.rows.get k)) q
    ⟨fun _ _ h => absurd h (Nat.not_lt_zero _), fun _ _ _ => rfl, .refl q⟩
    fun k r done => ⟨_, (if_pos (s.area.row_lt k)).trans (if_pos right), done.succ⟩
  refine ⟨r, ?_, fun t ht c row => ?_, fun c row free => ?_, done.off⟩
  · rw [Tile.writeTo, if_pos ⟨right, bottom⟩, hr]
    rfl
  · obtain rfl := List.mem_singleton.1 ht
    exact done.inside c row row.isLt
  · exact done.outside c row (free s List.mem_cons_self)

end PlacedTile

/-- Tiles whose areas do not meet are all written. -/
theorem exists_mosaic_writeTiles {tiles : List (PlacedTile l)}
    (disjoint : tiles.Pairwise fun s t => s.area.Disjoint t.area) (q : Plane l) :
    ∃ r, writeTiles tiles q = .ok r ∧ Mosaic tiles q r := by
  induction tiles generalizing q with
  | nil => exact ⟨q, rfl, .nil q⟩
  | cons s tiles ih =>
    obtain ⟨apart, disjoint⟩ := List.pairwise_cons.1 disjoint
    obtain ⟨q', write, first⟩ := s.exists_mosaic q
    obtain ⟨r, writes, rest⟩ := ih disjoint q'
    exact ⟨r, bind_eq_ok_iff.2 ⟨q', write, writes⟩, first.cons rest apart⟩

theorem writeTiles_eq_of_perm {tiles tiles' : List (PlacedTile l)} (perm : tiles'.Perm tiles)
    (disjoint : tiles.Pairwise fun s t => s.area.Disjoint t.area) (q : Plane l) :
    writeTiles tiles' q = writeTiles tiles q := by
  have disjoint' := (perm.pairwise_iff fun h => Part.Disjoint.symm h).2 disjoint
  obtain ⟨r, writes, mosaic⟩ := exists_mosaic_writeTiles disjoint q
  obtain ⟨r', writes', mosaic'⟩ := exists_mosaic_writeTiles disjoint' q
  rw [writes, writes', mosaic'.unique mosaic fun s => perm.mem_iff]

/-! ## Blocks that are not displaced -/

namespace Block

theorem displaced_zero (x y : Int) (width height : Nat) (s : Subsampling) (bank : Bank) :
    displaced x y width height .zero s bank = (whole x y width height).withBank bank := by
  have still : MotionVector.zero.sixteenths s = (0, 0) := by cases s <;> rfl
  have sample (z : Int) : (16 * z + 0) / 16 = z ∧ Phase.ofSixteenths (16 * z + 0) = .zero := by
    refine ⟨by omega, Fin.ext ?_⟩
    simp only [Phase.ofSixteenths, Phase.zero]
    omega
  simp only [displaced, split_eq, still, sample, whole, withBank]

variable {b : Block} {p : Plane l}

theorem predicted_of_zero (hx : b.phaseX = .zero) (hy : b.phaseY = .zero) {F : Int → Int → Int}
    {c r : Nat} (hl : 0 ≤ F (b.x + c) (b.y + r)) (hu : F (b.x + c) (b.y + r) ≤ 255) :
    b.predicted F c r = F (b.x + c) (b.y + r) := by
  have middle (z : Int) (i : Nat) : z + i + (3 : Nat) - 3 = z + i := by omega
  have across : ((b.bank.kernel 0).weigh fun j => F (b.x + c + j - 3) (b.y + r)) =
      F (b.x + c) (b.y + r) := by
    refine (Kernel.weigh_zero b.bank ?_ ?_).trans ?_
    all_goals simp only [middle, hl, hu]
  rw [predicted, hx, hy]
  refine (Kernel.weigh_zero b.bank ?_ ?_).trans ?_
  all_goals simp only [middle, Phase.zero, across, hl, hu]

end Block

/-- The visible samples of a rectangle. -/
def Plane.cut (p : Plane l) {x y w h : Nat} (right : x + w ≤ l.width) (bottom : y + h ≤ l.height) :
    Tile w h :=
  .ofFn fun c r => p.get ⟨x + c, Nat.lt_of_lt_of_le (Nat.add_lt_add_left c.isLt _) right⟩
    ⟨y + r, Nat.lt_of_lt_of_le (Nat.add_lt_add_left r.isLt _) bottom⟩

theorem predict_of_zero (room : l.size ≤ Capacity.limit) (p : Plane l) {b : Block}
    (size : b.flaw? = none) (hx : b.phaseX = .zero) (hy : b.phaseY = .zero) {x y : Nat}
    (left : b.x = x) (top : b.y = y) (right : x + b.width ≤ l.width)
    (bottom : y + b.height ≤ l.height) (checked : Bool) :
    predict checked b p = .ok (p.cut right bottom) := by
  obtain ⟨hw, -, hh, -⟩ := Block.flaw?_eq_none_iff.1 size
  obtain ⟨F, reads⟩ := p.exists_reads
  have inside : b.Inside l := by
    obtain ⟨columns, rows⟩ := b.support_of_zero
    obtain ⟨supportX, supportWidth⟩ := columns hx
    obtain ⟨supportY, supportHeight⟩ := rows hy
    constructor <;> omega
  refine Block.predict_eq_ok_of_predicted room reads size inside fun c r => ?_
  have sample : F (b.x + c) (b.y + r) = (p.get ⟨x + c, by omega⟩ ⟨y + r, by omega⟩).toNat := by
    rw [Plane.get_eq_bordered, reads, left, top]
    congr 1 <;> simp only <;> omega
  have byte := (p.get ⟨x + c, by omega⟩ ⟨y + r, by omega⟩).toNat_lt
  rw [Plane.cut, Tile.get_ofFn, Block.predicted_of_zero hx hy (by omega) (by omega), sample]

/-! ## All tiles of a plane -/

/-- Tile (column, row) of a plane, as a block that is not displaced. -/
def tileBlock (w h : Nat) (s : Subsampling) (bank : Bank) (cell : Nat × Nat) : Block :=
  .displaced (cell.1 * w : Nat) (cell.2 * h : Nat) w h .zero s bank

/-- Predicts the tiles of a plane and copies each to its own place in another one, in turn. -/
def copyTiles (checked : Bool) (w h : Nat) (s : Subsampling) (bank : Bank)
    (cells : List (Fin (l.width / w) × Fin (l.height / h))) (p : Plane l) (q : Plane l') :
    Outcome (Plane l') :=
  cells.foldlM (fun q cell => do
    let t ← predict checked (tileBlock w h s bank (cell.1, cell.2)) p
    t.writeTo q (cell.1 * w) (cell.2 * h)) q

theorem tile_end_le {n size i : Nat} (h : i < n / size) : i * size + size ≤ n := by
  have := Nat.mul_le_mul_right size (Nat.succ_le_of_lt h)
  rw [Nat.succ_mul] at this
  exact Nat.le_trans this (Nat.div_mul_le_self n size)

theorem tile_eq_div {size i c : Nat} (h : i * size ≤ c ∧ c < i * size + size) : i = c / size :=
  (Nat.div_eq_of_lt_le h.1 (by rw [Nat.succ_mul]; exact h.2)).symm

/-- Tiles of `w` by `h` samples divide two planes of the same visible size. -/
structure Tiled (l l' : Layout) (w h : Nat) : Prop where
  width_eq : l'.width = l.width
  height_eq : l'.height = l.height
  width : 1 ≤ w ∧ w ≤ 64
  height : 1 ≤ h ∧ h ≤ 64
  width_dvd : w ∣ l.width
  height_dvd : h ∣ l.height

namespace Tiled

variable {w h : Nat} (tiled : Tiled l l' w h) (p : Plane l)

def placed (cell : Fin (l.width / w) × Fin (l.height / h)) : PlacedTile l' where
  area :=
    { x := cell.1 * w
      y := cell.2 * h
      width := w
      height := h
      one_le_width := tiled.width.1
      one_le_height := tiled.height.1
      right_le := Nat.le_trans (tile_end_le cell.1.isLt) (Nat.le_of_eq tiled.width_eq.symm)
      bottom_le := Nat.le_trans (tile_end_le cell.2.isLt) (Nat.le_of_eq tiled.height_eq.symm) }
  tile := p.cut (tile_end_le cell.1.isLt) (tile_end_le cell.2.isLt)

theorem disjoint_placed {cell cell' : Fin (l.width / w) × Fin (l.height / h)} (ne : cell ≠ cell') :
    (tiled.placed p cell).area.Disjoint (tiled.placed p cell').area := by
  intro c r has has'
  refine ne (Prod.ext (Fin.ext ?_) (Fin.ext ?_))
  · exact (tile_eq_div has.1).trans (tile_eq_div has'.1).symm
  · exact (tile_eq_div has.2).trans (tile_eq_div has'.2).symm

theorem copyTiles_eq (room : l.size ≤ Capacity.limit) (checked : Bool) (s : Subsampling)
    (bank : Bank) (cells : List (Fin (l.width / w) × Fin (l.height / h))) (q : Plane l') :
    copyTiles checked w h s bank cells p q = writeTiles (cells.map (tiled.placed p)) q := by
  have step (q : Plane l') (cell : Fin (l.width / w) × Fin (l.height / h)) :
      (do
        let t ← predict checked (tileBlock w h s bank (cell.1, cell.2)) p
        t.writeTo q (cell.1 * w) (cell.2 * h)) =
      (tiled.placed p cell).tile.writeTo q (cell.1 * w) (cell.2 * h) := by
    have size : (tileBlock w h s bank (cell.1, cell.2)).flaw? = none :=
      Block.flaw?_eq_none_iff.2 ⟨tiled.width.1, tiled.width.2, tiled.height⟩
    have still := Block.displaced_zero (cell.1 * w : Nat) (cell.2 * h : Nat) w h s bank
    rw [predict_of_zero room p size (congrArg Block.phaseX still) (congrArg Block.phaseY still)
      (congrArg Block.x still) (congrArg Block.y still) (tile_end_le cell.1.isLt)
      (tile_end_le cell.2.isLt) checked]
    rfl
  rw [writeTiles, List.foldlM_map, copyTiles]
  simp only [step]
  rfl

theorem get?_of_mosaic {cells : List (Fin (l.width / w) × Fin (l.height / h))}
    (all : ∀ cell, cell ∈ cells) {q r : Plane l'}
    (mosaic : Mosaic (cells.map (tiled.placed p)) q r) (x y : Nat) : r.get? x y = p.get? x y := by
  have sameW := tiled.width_eq
  have sameH := tiled.height_eq
  by_cases visible : x < l.width ∧ y < l.height
  · obtain ⟨hx, hy⟩ := visible
    -- the tile that the sample falls into is among the written ones
    have column := Nat.div_lt_div_of_lt_of_dvd tiled.width_dvd hx
    have row := Nat.div_lt_div_of_lt_of_dvd tiled.height_dvd hy
    have placed := List.mem_map_of_mem (f := tiled.placed p) (all (⟨x / w, column⟩, ⟨y / h, row⟩))
    have has : (tiled.placed p (⟨x / w, column⟩, ⟨y / h, row⟩)).area.Has x y :=
      ⟨⟨Nat.div_mul_le_self x w, Nat.lt_div_mul_add tiled.width.1⟩,
        Nat.div_mul_le_self y h, Nat.lt_div_mul_add tiled.height.1⟩
    have inW : x < l'.width := by omega
    have inH : y < l'.height := by omega
    obtain ⟨i, j, hi, hj, read⟩ := mosaic.get_of_has placed ⟨x, inW⟩ ⟨y, inH⟩ has
    rw [r.get?_eq_some inW inH, p.get?_eq_some hx hy, read]
    congr 1
    refine (Tile.get_ofFn ..).trans ?_
    congr 1
    · exact Fin.ext hi
    · exact Fin.ext hj
  · rw [p.get?_eq_none visible, r.get?_eq_none (by omega)]

end Tiled

/-- Tiles whose areas do not meet can be written in any order: every area gets the samples of its
tile, and nothing else of the buffer changes. Where tiles divide a plane, their predictions without
motion, each written back to its place in a plane of the same size, are the plane again, whatever
the bank. -/
theorem writeTiles_reconstructs (room : l.size ≤ Capacity.limit) (p : Plane l) (q : Plane l') :
    (∀ tiles : List (PlacedTile l'), (tiles.Pairwise fun s t => s.area.Disjoint t.area) →
      ∃ r, Mosaic tiles q r ∧ ∀ tiles', tiles'.Perm tiles → writeTiles tiles' q = .ok r) ∧
    ∀ w h, Tiled l l' w h → ∀ (checked : Bool) (s : Subsampling) (bank : Bank)
      (cells : List (Fin (l.width / w) × Fin (l.height / h))), cells.Nodup →
      (∀ cell, cell ∈ cells) → ∃ r, copyTiles checked w h s bank cells p q = .ok r ∧
        (∀ x y, r.get? x y = p.get? x y) ∧ q.AgreeOff r := by
  refine ⟨fun tiles disjoint => ?_, fun w h tiled checked s bank cells once all => ?_⟩
  · obtain ⟨r, writes, mosaic⟩ := exists_mosaic_writeTiles disjoint q
    exact ⟨r, mosaic, fun tiles' perm => (writeTiles_eq_of_perm perm disjoint q).trans writes⟩
  · have disjoint : (cells.map (tiled.placed p)).Pairwise fun s t => s.area.Disjoint t.area :=
      List.pairwise_map.2 (once.imp fun ne => tiled.disjoint_placed p ne)
    obtain ⟨r, writes, mosaic⟩ := exists_mosaic_writeTiles disjoint q
    exact ⟨r, (tiled.copyTiles_eq p room checked s bank cells q).trans writes,
      tiled.get?_of_mosaic p all mosaic, mosaic.off⟩

def leftward :
    List (Fin ((Layout.owned 8 4 3).width / 4) × Fin ((Layout.owned 8 4 3).height / 4)) :=
  [(⟨1, by decide⟩, ⟨0, by decide⟩), (⟨0, by decide⟩, ⟨0, by decide⟩)]

theorem copyTiles_leftward :
    (Layout.owned 8 4 3).size ≤ Capacity.limit ∧ Tiled (.owned 8 4 3) (.owned 8 4 0) 4 4 ∧
    leftward.Nodup ∧ (∀ cell, cell ∈ leftward) ∧
    ∃ r : Plane (.owned 8 4 0),
      copyTiles true 4 4 .halved .sharp leftward (Plane.ofFn 8 4 3 ramp) (.constant _ 0) = .ok r ∧
      ∀ x y, r.get? x y = (Plane.ofFn 8 4 3 ramp).get? x y := by
  have room : (Layout.owned 8 4 3).size ≤ Capacity.limit := by decide
  have tiled : Tiled (.owned 8 4 3) (.owned 8 4 0) 4 4 :=
    ⟨rfl, rfl, by decide, by decide, by decide, by decide⟩
  have once : leftward.Nodup := by decide
  have all : ∀ column row, (column, row) ∈ leftward := by decide
  obtain ⟨-, reconstructs⟩ := writeTiles_reconstructs room (Plane.ofFn 8 4 3 ramp)
    (.constant (.owned 8 4 0) 0)
  obtain ⟨r, copied, same, -⟩ := reconstructs 4 4 tiled true .halved .sharp leftward once
    fun (column, row) => all column row
  exact ⟨room, tiled, once, fun (column, row) => all column row, r, copied, same⟩

end BlockVideo
