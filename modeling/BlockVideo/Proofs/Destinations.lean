import BlockVideo.Proofs.PredictInPlace

/-!
# Where a prediction goes

The rows of a block are resampled without a look at their destination (`Block.resampled`), so
`predict`, `predictInto` and `predictMeanInto` have the same tile to give away. The first keeps it
as it is, the others put its rows into a destination or take the mean with what is there, and leave
the gaps between the rows and all that follows the last one alone (`Run.Written`, `Run.Averaged`).

The rows of a plane lie a stride apart too. What follows a visible sample in its buffer is a
destination for a block, and a tile that is written to the plane takes the same places there.
-/

namespace BlockVideo

variable {n w h stride : Nat}

/-! ## Rows -/

namespace Run

section Written

variable {α : Type} {f g : Fin h → Fin w → α} {v u q q' : Vector α n}

theorem Written.unique (written : Written stride f v q) (written' : Written stride f v q') :
    q = q' := by
  apply Vector.ext
  intro j hj
  by_cases covered : ∃ (r : Fin h) (c : Fin w), r * stride + c = j
  · obtain ⟨r, c, rfl⟩ := covered
    rw [written.written r c hj, written'.written r c hj]
  · have free : ∀ (r : Fin h) (c : Fin w), r * stride + c ≠ j := fun r c e => covered ⟨r, c, e⟩
    rw [written.kept j hj free, written'.kept j hj free]

/-- Rows that are written over others leave nothing of them. -/
theorem Written.over_iff (below : Written stride g v u) :
    Written stride f u q ↔ Written stride f v q := by
  constructor
  · intro rows
    exact ⟨rows.written, fun j hj free => (rows.kept j hj free).trans (below.kept j hj free)⟩
  · intro rows
    exact ⟨rows.written, fun j hj free => (rows.kept j hj free).trans (below.kept j hj free).symm⟩

end Written

variable {v u q : Vector UInt8 n} {t t' : Tile w h}

/-- `q` is `v` with the mean of both in the place of each row of the tile. The sums do not wrap. -/
structure Averaged (stride : Nat) (t : Tile w h) (v q : Vector UInt8 n) : Prop where
  averaged : ∀ (r : Fin h) (c : Fin w) (hj : r * stride + c < n),
    q[r.val * stride + c.val].toNat =
      (v[r.val * stride + c.val].toNat + (t.get c r).toNat + 1) / 2
  kept : ∀ (j : Nat) (hj : j < n), (∀ (r : Fin h) (c : Fin w), r * stride + c ≠ j) → q[j] = v[j]

theorem averaged_iff
    (old : ∀ c r (hj : r.val * stride + c.val < n), t.get c r = v[r.val * stride + c.val]) :
    Averaged stride t' v q ↔ Written stride (fun r c => mean (t.get c r) (t'.get c r)) v q := by
  constructor
  · intro means
    refine ⟨fun r c hj => UInt8.toNat_inj.1 ?_, means.kept⟩
    rw [means.averaged r c hj, toNat_mean, old c r hj]
  · intro means
    refine ⟨fun r c hj => ?_, means.kept⟩
    rw [means.written r c hj, toNat_mean, old c r hj]

/-- Where a tile has been written, the mean with another one does not depend on what was there. -/
theorem Written.averaged_iff (below : Written stride (fun r c => t.get c r) v u) :
    Averaged stride t' u q ↔ Written stride (fun r c => mean (t.get c r) (t'.get c r)) v q :=
  (Run.averaged_iff fun c r hj => (below.written r c hj).symm).trans below.over_iff

end Run

namespace Tile

variable {v q : Vector UInt8 n}

theorem store_eq_ok_iff (t : Tile w h) (hw : w ≤ stride) (ok : Run.HoldsRows n stride w h) :
    t.store stride v = .ok q ↔ Run.Written stride (fun r c => t.get c r) v q := by
  obtain ⟨q', store, written, -⟩ := t.store_eq_ok (v := v) hw ok
  rw [store]
  constructor
  · rintro ⟨⟩
    exact written
  · intro written'
    rw [written.unique written']

theorem blend_eq_ok_iff (t : Tile w h) (hw : w ≤ stride) (ok : Run.HoldsRows n stride w h) :
    t.blend stride v = .ok q ↔ Run.Averaged stride t v q := by
  obtain ⟨old, -, read⟩ := ofBuffer_eq_ok (v := v) ok
  have step (u : Vector UInt8 n) (r : Fin h) (same : ∀ (c : Fin w) (hj : r * stride + c < n),
      u[r.val * stride + c.val] = v[r.val * stride + c.val]) :
      (do
        let row ← Run.window u (r * stride) w
        Run.replace u (r * stride) fun c : Fin w => mean (row.get c) (t.get c r)) =
      Run.replace u (r * stride) fun c => mean (old.get c r) (t.get c r) := by
    have fits : r * stride + w ≤ n := Run.holdsRows_iff.1 ok r r.isLt
    rw [Run.window_eq_ok fits]
    refine congrArg (Run.replace u (r * stride)) (funext fun c => congrArg (mean · _) ?_)
    rw [read c r (by omega), ← same c (by omega)]
    exact Vector.getElem_ofFn c.isLt
  obtain ⟨q', loop, written⟩ := Run.foldlM_replace_of_kept v step hw ok
  rw [Run.averaged_iff read, blend, loop]
  constructor
  · rintro ⟨⟩
    exact written
  · intro written'
    rw [written.unique written']

end Tile

/-! ## The tile of a block -/

variable {l l' : Layout} {checked checked' : Bool} {b b' : Block} {p : Plane l} {p' : Plane l'}
  {dst q : Vector UInt8 n}

namespace Block

/-- Both passes, up to the destination. -/
def resampled (b : Block) (p : Plane l) : Checked (Tile b.width b.height) := do
  let scratch ← b.acrossRows p
  let rows ← Tile.ofBuffer scratch b.width b.width b.supportHeight
  return b.downColumns rows

theorem convolve_eq (b : Block) (p : Plane l) (stride : Nat) (dst : Vector UInt8 n) :
    b.convolve p stride dst = b.resampled p >>= fun t => t.store stride dst := by
  simp only [convolve, resampled, bind_assoc, pure_bind]

theorem convolve_meanInto_eq (size : b.flaw? = none)
    (holds : Run.HoldsRows n stride b.width b.height) :
    (do
      let block ← b.convolve p b.width (Vector.replicate (maxSide * maxSide) 0)
      meanInto dst stride block b.width b.width b.height) =
    b.resampled p >>= fun t => t.blend stride dst := by
  obtain ⟨hw, -⟩ := flaw?_eq_none_iff.1 size
  have most := holdsRows_block size
  rw [convolve_eq]
  rcases b.resampled p with f | t
  · rfl
  · obtain ⟨block, store, -, back⟩ :=
      t.store_eq_ok (v := .replicate (maxSide * maxSide) 0) (Nat.le_refl _) most
    change (t.store b.width _ >>= _) = t.blend stride dst
    rw [store]
    change meanInto dst stride block b.width b.width b.height = _
    rw [meanInto, Run.requireRows_eq_ok_iff.2 holds, Run.requireRows_eq_ok_iff.2 most, back]
    exact if_neg (by omega)

end Block

theorem predict_eq (room : b.width * b.height ≤ Capacity.limit) :
    predict checked b p = b.requireOn checked l >>= fun _ => Outcome.ofChecked (b.resampled p) := by
  have capacity : Capacity.require (b.width * b.height) 1 = .ok () := by
    rwa [Capacity.require_eq_ok_iff, Nat.mul_one]
  rw [predict, capacity, predictInto]
  rcases admitted : b.requireOn checked l with s | _
  · rfl
  · have rows := Nat.le_of_eq (Block.rows_eq_area (Block.flaw?_of_requireOn admitted))
    have destination := requireDestination_eq_ok_iff.2 ⟨Nat.le_refl b.width, rows⟩
    rw [destination, Block.convolve_eq]
    rcases b.resampled p with f | t
    · rfl
    · obtain ⟨data, store, -, back⟩ := t.store_eq_ok
        (v := .replicate (b.width * b.height) 0) (Nat.le_refl _) (.inr rows)
      change Outcome.ofChecked (t.store b.width _) >>= _ = _
      rw [store]
      change Outcome.ofChecked (Tile.ofBuffer data b.width b.width b.height) = _
      rw [back]
      rfl

theorem predict_eq_ok_iff {t : Tile b.width b.height} :
    predict checked b p = .ok t ↔ b.requireOn checked l = .ok () ∧ b.resampled p = .ok t := by
  by_cases room : b.width * b.height ≤ Capacity.limit
  · rw [predict_eq room, bind_unit_eq_ok_iff, Outcome.ofChecked_eq_ok_iff]
  · -- such a block is too large, and there is no room for it either
    constructor
    · intro predicted
      have required := (bind_unit_eq_ok_iff.1 predicted).1
      have required := Capacity.require_eq_ok_iff.1 (Outcome.ofChecked_eq_ok_iff.1 required)
      exact absurd (Nat.mul_one (b.width * b.height) ▸ required) room
    · rintro ⟨admitted, -⟩
      obtain ⟨-, hw, -, hh⟩ := Block.flaw?_eq_none_iff.1 (Block.flaw?_of_requireOn admitted)
      exact absurd (Nat.le_trans (Nat.mul_le_mul hw hh) (by decide)) room

theorem predictInto_eq_ok_iff :
    predictInto checked b p stride dst = .ok q ↔
      (b.width ≤ stride ∧ (b.height - 1) * stride + b.width ≤ n) ∧
      ∃ t, predict checked b p = .ok t ∧ Run.Written stride (fun r c => t.get c r) dst q := by
  simp only [predictInto, bind_unit_eq_ok_iff, Outcome.ofChecked_eq_ok_iff,
    requireDestination_eq_ok_iff, predict_eq_ok_iff, Block.convolve_eq]
  constructor
  · rintro ⟨admitted, fits, passes⟩
    obtain ⟨t, resampled, store⟩ := bind_eq_ok_iff.1 passes
    exact ⟨fits, t, ⟨admitted, resampled⟩, (t.store_eq_ok_iff fits.1 (.inr fits.2)).1 store⟩
  · rintro ⟨fits, t, ⟨admitted, resampled⟩, written⟩
    exact ⟨admitted, fits, bind_eq_ok_iff.2
      ⟨t, resampled, (t.store_eq_ok_iff fits.1 (.inr fits.2)).2 written⟩⟩

theorem predictMeanInto_eq_ok_iff :
    predictMeanInto checked b p stride dst = .ok q ↔
      (b.width ≤ stride ∧ (b.height - 1) * stride + b.width ≤ n) ∧
      ∃ t, predict checked b p = .ok t ∧ Run.Averaged stride t dst q := by
  simp only [predictMeanInto, bind_unit_eq_ok_iff, Outcome.ofChecked_eq_ok_iff,
    requireDestination_eq_ok_iff, predict_eq_ok_iff]
  constructor
  · rintro ⟨admitted, fits, means⟩
    rw [Block.convolve_meanInto_eq (Block.flaw?_of_requireOn admitted) (.inr fits.2)] at means
    obtain ⟨t, resampled, blend⟩ := bind_eq_ok_iff.1 means
    exact ⟨fits, t, ⟨admitted, resampled⟩, (t.blend_eq_ok_iff fits.1 (.inr fits.2)).1 blend⟩
  · rintro ⟨fits, t, ⟨admitted, resampled⟩, averaged⟩
    refine ⟨admitted, fits, ?_⟩
    rw [Block.convolve_meanInto_eq (Block.flaw?_of_requireOn admitted) (.inr fits.2)]
    exact bind_eq_ok_iff.2 ⟨t, resampled, (t.blend_eq_ok_iff fits.1 (.inr fits.2)).2 averaged⟩

/-! ## Planes as destinations -/

namespace Plane

/-- The buffer from visible sample (`x`, `y`) on. -/
def slice (p : Plane l) (x y : Nat) : Vector UInt8 (l.size - l.index x y) :=
  p.samples.drop (l.index x y)

/-- The plane with other samples in its buffer from visible sample (`x`, `y`) on. -/
def withSlice (p : Plane l) (x y : Nat) (v : Vector UInt8 (l.size - l.index x y)) : Plane l :=
  ⟨Run.overwrite p.samples (l.index x y) v.get⟩

variable {x y : Nat}

theorem getElem_withSlice (p : Plane l) (v : Vector UInt8 (l.size - l.index x y)) (j : Nat)
    (hj : j < l.size) :
    (p.withSlice x y v).samples[j] =
      if h : l.index x y ≤ j then
        getElem v (j - l.index x y) (Nat.sub_lt_sub_right h hj)
      else p.samples[j] :=
  Run.getElem_overwrite_rest p.samples (l.index x y) v j hj

theorem withSlice_slice (p : Plane l) : p.withSlice x y (p.slice x y) = p := by
  refine congrArg Plane.mk (Vector.ext fun j hj => ?_)
  refine (p.getElem_withSlice _ j hj).trans ?_
  split
  · next h =>
    refine (Vector.getElem_drop _).trans ?_
    simp only [Nat.add_sub_cancel' h]
  · rfl

theorem withSlice_overwrite (p : Plane l) (v : Vector UInt8 (l.size - l.index x y)) (start : Nat)
    {k : Nat} (f : Fin k → UInt8) : p.withSlice x y (Run.overwrite v start f) =
      ⟨Run.overwrite (p.withSlice x y v).samples (l.index x y + start) f⟩ := by
  refine congrArg Plane.mk (Vector.ext fun j hj => ?_)
  refine (p.getElem_withSlice _ j hj).trans ?_
  rw [Run.getElem_overwrite, getElem_withSlice]
  by_cases h : l.index x y ≤ j
  · rw [dif_pos h, dif_pos h, Run.getElem_overwrite]
    have same : start ≤ j - l.index x y ∧ j - l.index x y < start + k ↔
        l.index x y + start ≤ j ∧ j < l.index x y + start + k := by omega
    by_cases covered : start ≤ j - l.index x y ∧ j - l.index x y < start + k
    · rw [dif_pos covered, dif_pos (same.1 covered)]
      congr 2
      omega
    · rw [dif_neg covered, dif_neg fun h' => covered (same.2 h')]
  · rw [dif_neg h, dif_neg (by omega), dif_neg h]

end Plane

namespace Layout

variable {x y : Nat}

theorem index_add_row (l : Layout) (x y r : Nat) :
    l.index x (y + r) = l.index x y + r * l.stride := by
  simp only [index, Nat.add_mul]
  omega

theorem index_add_le_size (right : x + w ≤ l.width) (hy : y < l.height) :
    l.index x y + w ≤ l.size := by
  have := l.bordered_row_le_size (show y + l.border < l.height + 2 * l.border by omega)
  simp only [index]
  omega

theorem slice_fits (right : x + w ≤ l.width) (bottom : y + h ≤ l.height) (hh : 1 ≤ h) :
    w ≤ l.stride ∧ (h - 1) * l.stride + w ≤ l.size - l.index x y := by
  have := l.line_le_stride
  have last := index_add_le_size right (show y + (h - 1) < l.height by omega)
  rw [index_add_row] at last
  omega

theorem area_le_size (right : w ≤ l.width) (bottom : h ≤ l.height) : w * h ≤ l.size := by
  rcases Nat.eq_zero_or_pos h with rfl | hh
  · exact Nat.zero_le _
  · have := l.line_le_stride
    have last := l.bordered_row_le_size (show h - 1 < l.height + 2 * l.border by omega)
    have rows := Nat.mul_le_mul_left (h - 1) (show w ≤ l.stride by omega)
    rw [← RowMajor.pred_mul_add hh]
    omega

end Layout

/-- To copy a tile over a plane is to store it from its corner on, rows a stride apart. -/
theorem Tile.writeTo_eq (t : Tile w h) (p : Plane l) {x y : Nat} (right : x + w ≤ l.width)
    (bottom : y + h ≤ l.height) :
    t.writeTo p x y =
      Outcome.ofChecked do return p.withSlice x y (← t.store l.stride (p.slice x y)) := by
  have step (v : Vector UInt8 (l.size - l.index x y)) (r : Fin h) :
      (p.withSlice x y v).setRow x (y + r) (t.rows.get r) =
        do return p.withSlice x y (← Run.replace v (r * l.stride) fun c => t.get c r) := by
    have hr := r.isLt
    have row := l.index_add_row x y r
    have fits := Layout.index_add_le_size right (show y + r < l.height by omega)
    rw [Plane.setRow, if_pos (by omega), if_pos right, Run.replace_eq_ok (by omega), row]
    exact congrArg Except.ok (p.withSlice_overwrite v (r * l.stride) _).symm
  rw [writeTo, if_pos ⟨right, bottom⟩, store]
  have loop : (List.finRange h).foldlM (fun (q : Plane l) (r : Fin h) =>
      q.setRow x (y + r) (t.rows.get r)) (p.withSlice x y (p.slice x y)) = _ :=
    foldlM_map_state step (List.finRange h) (p.slice x y)
  rw [p.withSlice_slice] at loop
  exact congrArg Outcome.ofChecked loop

/-- To predict a block and copy it over a plane is to predict it into the slice at its corner. -/
theorem predict_writeTo (room : l'.size ≤ Capacity.limit) (checked : Bool) (b : Block)
    (p : Plane l) (q : Plane l') {x y : Nat} (right : x + b.width ≤ l'.width)
    (bottom : y + b.height ≤ l'.height) :
    (do (← predict checked b p).writeTo q x y) =
      do return q.withSlice x y (← predictInto checked b p l'.stride (q.slice x y)) := by
  have area := Nat.le_trans
    (Layout.area_le_size (Nat.le_of_add_left_le right) (Nat.le_of_add_left_le bottom)) room
  rw [predict_eq area, predictInto]
  rcases admitted : b.requireOn checked l with s | _
  · rfl
  · obtain ⟨-, -, hh, -⟩ := Block.flaw?_eq_none_iff.1 (Block.flaw?_of_requireOn admitted)
    have destination := requireDestination_eq_ok_iff.2 (Layout.slice_fits right bottom hh)
    rw [destination, Block.convolve_eq]
    rcases b.resampled p with f | t
    · rfl
    · refine (t.writeTo_eq q right bottom).trans ?_
      rw [Outcome.ofChecked_bind]
      rfl

/-! ## Two references -/

theorem predictMeanInto_swap (hw : b'.width = b.width) (hh : b'.height = b.height)
    (compound : (do
      let once ← predictInto checked b p stride dst
      predictMeanInto checked' b' p' stride once) = .ok q) :
    (do
      let once ← predictInto checked' b' p' stride dst
      predictMeanInto checked b p stride once) = .ok q := by
  obtain ⟨m, first, second⟩ := bind_eq_ok_iff.1 compound
  obtain ⟨fits, t, predicted, below⟩ := predictInto_eq_ok_iff.1 first
  obtain ⟨fits', t', predicted', means⟩ := predictMeanInto_eq_ok_iff.1 second
  obtain ⟨x, y, width, height, phaseX, phaseY, bank⟩ := b
  obtain ⟨x', y', width', height', phaseX', phaseY', bank'⟩ := b'
  obtain rfl : width' = width := hw
  obtain rfl : height' = height := hh
  obtain ⟨m', -, below', -⟩ := t'.store_eq_ok (v := dst) fits.1 (.inr fits.2)
  have means' : Run.Averaged stride t m' q := by
    rw [below'.averaged_iff]
    simp only [mean_comm (t'.get _ _)]
    exact below.averaged_iff.1 means
  exact bind_eq_ok_iff.2 ⟨m', predictInto_eq_ok_iff.2 ⟨fits', t', predicted', below'⟩,
    predictMeanInto_eq_ok_iff.2 ⟨fits, t, predicted, means'⟩⟩

/-- A block goes to a destination that holds its rows, as the tile that `predict` gives or as the
mean with it, and nothing but its rows changes. To predict it into the slice of a plane is to copy
the tile over the plane. Of two references, it makes no difference which one comes first. -/
theorem destinations_agree (checked : Bool) (b : Block) (p : Plane l) :
    (∀ (stride n : Nat) (dst q : Vector UInt8 n),
      (predictInto checked b p stride dst = .ok q ↔
        (b.width ≤ stride ∧ (b.height - 1) * stride + b.width ≤ n) ∧
        ∃ t, predict checked b p = .ok t ∧ Run.Written stride (fun r c => t.get c r) dst q) ∧
      (predictMeanInto checked b p stride dst = .ok q ↔
        (b.width ≤ stride ∧ (b.height - 1) * stride + b.width ≤ n) ∧
        ∃ t, predict checked b p = .ok t ∧ Run.Averaged stride t dst q)) ∧
    (∀ (l' : Layout) (q : Plane l') (x y : Nat), l'.size ≤ Capacity.limit →
      x + b.width ≤ l'.width → y + b.height ≤ l'.height →
      (do (← predict checked b p).writeTo q x y) =
        do return q.withSlice x y (← predictInto checked b p l'.stride (q.slice x y))) ∧
    ∀ (l' : Layout) (checked' : Bool) (b' : Block) (p' : Plane l'), b'.width = b.width →
      b'.height = b.height → ∀ (stride n : Nat) (dst q : Vector UInt8 n),
      (do
        let once ← predictInto checked b p stride dst
        predictMeanInto checked' b' p' stride once) = .ok q ↔
      (do
        let once ← predictInto checked' b' p' stride dst
        predictMeanInto checked b p stride once) = .ok q :=
  ⟨fun _ _ _ _ => ⟨predictInto_eq_ok_iff, predictMeanInto_eq_ok_iff⟩,
    fun _ q _ _ room right bottom => predict_writeTo room checked b p q right bottom,
    fun _ _ _ _ hw hh _ _ _ _ =>
      ⟨predictMeanInto_swap hw hh, predictMeanInto_swap hw.symm hh.symm⟩⟩

theorem destinations_agree_filling :
    ((Layout.owned 8 4 3).size ≤ Capacity.limit ∧ 1 + Block.filling.width ≤ 8 ∧
      1 + Block.filling.height ≤ 4) ∧
    (∃ t q, predict true .filling (Plane.ofFn 8 4 3 ramp) = .ok t ∧
      predictInto true .filling (Plane.ofFn 8 4 3 ramp) 8 (Vector.replicate 23 9) = .ok q ∧
      Run.Written 8 (fun r c => t.get c r) (Vector.replicate 23 9) q) ∧
    (do (← predict true .filling (Plane.ofFn 8 4 3 ramp)).writeTo (Plane.ofFn 8 4 3 ramp) 1 1) =
      (do return (Plane.ofFn 8 4 3 ramp).withSlice 1 1 (← predictInto true .filling
        (Plane.ofFn 8 4 3 ramp) (Layout.owned 8 4 3).stride
        ((Plane.ofFn 8 4 3 ramp).slice 1 1))) ∧
    ∀ dst q : Vector UInt8 23,
      (do
        let once ← predictInto true .filling (Plane.ofFn 8 4 3 ramp) 8 dst
        predictMeanInto false (Block.filling.withBank .smooth) (Plane.constant (.owned 8 8 4) 7) 8
          once) = .ok q ↔
      (do
        let once ← predictInto false (Block.filling.withBank .smooth)
          (Plane.constant (.owned 8 8 4) 7) 8 dst
        predictMeanInto true .filling (Plane.ofFn 8 4 3 ramp) 8 once) = .ok q := by
  have room : (Layout.owned 8 4 3).size ≤ Capacity.limit := by decide
  obtain ⟨F, reads⟩ := (Plane.ofFn 8 4 3 ramp).exists_reads
  obtain ⟨t, predicted, -⟩ := Block.predict_eq_ok (b := .filling) room reads
    ⟨by decide, by decide, by decide, by decide⟩ (by decide) true
  obtain ⟨into, slices, swap⟩ := destinations_agree true .filling (Plane.ofFn 8 4 3 ramp)
  have fits : Block.filling.width ≤ 8 ∧ (Block.filling.height - 1) * 8 + Block.filling.width ≤ 23 :=
    by decide
  obtain ⟨q, -, written, -⟩ := t.store_eq_ok (v := Vector.replicate 23 9) fits.1 (.inr fits.2)
  exact ⟨⟨room, by decide, by decide⟩,
    ⟨t, q, predicted, (into 8 23 _ q).1.2 ⟨fits, t, predicted, written⟩, written⟩,
    slices _ _ 1 1 room (by decide) (by decide),
    swap _ false (Block.filling.withBank .smooth) (.constant _ 7) rfl rfl 8 23⟩

end BlockVideo
