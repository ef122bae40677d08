import BlockVideo.Proofs.PlanFits
import BlockVideo.Proofs.TransposedEdges

/-!
# Transposed planes

The pass over horizontal edges is the pass over vertical edges of the transposed plane, with the
superblocks transposed as well: each in itself, and their list as a whole. Neither the order in
which lanes are filtered nor where they are cut shows (`deblockPass_transpose`).
-/

namespace BlockVideo

variable {l l' : Layout} {g : EdgeGrid} {table : LevelTable} {blocks : Array BlockEdges}

/-! ## Lists of superblocks -/

/-- `columns` by `rows` superblocks, transposed. Superblock (`column`, `row`) goes to
(`row`, `column`). -/
def transposeBlocks (g : EdgeGrid) (columns rows : Nat) (blocks : Array BlockEdges) :
    Array BlockEdges :=
  Array.ofFn fun i : Fin blocks.size =>
    (blocks.getD (i % rows * columns + i / rows) .none).transpose g

theorem size_transposeBlocks (columns rows : Nat) :
    (transposeBlocks g columns rows blocks).size = blocks.size := Array.size_ofFn

theorem getElem?_transposeBlocks {columns rows column row : Nat} (hs : blocks.size = columns * rows)
    (hc : column < columns) (hr : row < rows) :
    (transposeBlocks g columns rows blocks)[column * rows + row]? =
      (blocks[row * columns + column]?).map (·.transpose g) := by
  have h : row * columns + column < blocks.size := hs ▸ RowMajor.number_lt_mul hr hc
  have h' : column * rows + row < blocks.size := hs ▸ RowMajor.number_lt hc hr
  rw [Array.getElem?_eq_getElem h, Array.getElem?_eq_getElem (by rwa [size_transposeBlocks])]
  simp only [transposeBlocks, Array.getElem_ofFn, RowMajor.mod_eq column hr,
    RowMajor.div_eq column hr, Array.getD, dif_pos h, Option.map_some]
  rfl

namespace EdgePlan

/-- Superblocks have a plan when the transposed ones have, on a plane with width and height
exchanged. -/
theorem exists_transpose_iff (hw : l'.width = l.height) (hh : l'.height = l.width) :
    (∃ plan, ofArray? l' g (transposeBlocks g (g.columns l) (g.rows l) blocks) = .ok plan) ↔
      ∃ plan, ofArray? l g blocks = .ok plan := by
  have columns : g.columns l' = g.rows l := congrArg g.count hw
  have rows : g.rows l' = g.columns l := congrArg g.count hh
  have aligned : l'.Aligned ↔ l.Aligned := by
    unfold Layout.Aligned
    rw [hw, hh]
    exact and_comm
  rw [exists_iff, exists_iff, size_transposeBlocks, aligned, columns, rows,
    Nat.mul_comm (g.rows l)]
  refine and_congr_right fun _ => and_congr_right fun size => ?_
  constructor
  · intro h column row hc hr
    obtain ⟨m', hm, hf⟩ := h row column hr hc
    rw [getElem?_transposeBlocks size hc hr] at hm
    obtain ⟨m, hm', rfl⟩ := Option.map_eq_some_iff.1 hm
    exact ⟨m, hm', BlockEdges.flawAt?_transpose_eq_none_iff.1 hf⟩
  · intro h row column hr hc
    obtain ⟨m, hm, hf⟩ := h column row hc hr
    rw [getElem?_transposeBlocks size hc hr, hm]
    exact ⟨_, rfl, BlockEdges.flawAt?_transpose_eq_none_iff.2 hf⟩

variable {plan : EdgePlan l g} {plan' : EdgePlan l' g}

theorem block_transpose
    (h : plan'.blocks.toArray = transposeBlocks g (g.columns l) (g.rows l) plan.blocks.toArray)
    (columns : g.columns l' = g.rows l) {column row : Nat} (hc : column < g.columns l)
    (hr : row < g.rows l) (hr' : row < g.columns l') (hc' : column < g.rows l') :
    plan'.block ⟨row, hr'⟩ ⟨column, hc'⟩ = (plan.block ⟨column, hc⟩ ⟨row, hr⟩).transpose g := by
  have e := plan'.getElem?_blocks ⟨row, hr'⟩ ⟨column, hc'⟩
  simp only [h, columns] at e
  rw [getElem?_transposeBlocks plan.blocks.size_toArray hc hr,
    plan.getElem?_blocks ⟨column, hc⟩ ⟨row, hr⟩] at e
  exact (Option.some.inj e).symm

end EdgePlan

/-! ## Planes -/

theorem flatMap_finRange_congr {α : Type} {n n' : Nat} (h : n = n') {f : Fin n → List α}
    {f' : Fin n' → List α} (hf : ∀ k hk hk', f ⟨k, hk⟩ = f' ⟨k, hk'⟩) :
    (List.finRange n).flatMap f = (List.finRange n').flatMap f' := by
  subst h
  congr 1
  funext k
  exact hf k k.isLt k.isLt

theorem EdgePlan.edgesOn_transpose {plan : EdgePlan l g} {plan' : EdgePlan l' g}
    (h : plan'.blocks.toArray = transposeBlocks g (g.columns l) (g.rows l) plan.blocks.toArray)
    (hw : l'.width = l.height) {i : Fin (l.lineCount .horizontal)}
    {i' : Fin (l'.lineCount .vertical)} (hi : i'.val = i.val) :
    plan'.edgesOn table .vertical i' = plan.edgesOn table .horizontal i := by
  have counts : g.count (l'.lineLength .vertical) = g.count (l.lineLength .horizontal) :=
    congrArg g.count hw
  refine flatMap_finRange_congr counts fun along ha ha' => ?_
  have block : plan'.blockOn .vertical i' ⟨along, ha⟩ =
      (plan.blockOn .horizontal i ⟨along, ha'⟩).transpose g := by
    have hr : i.val / g.blockDim < g.rows l' := hi ▸ EdgeGrid.div_lt_count i'.isLt
    refine Eq.trans ?_ (block_transpose h counts (EdgeGrid.div_lt_count i.isLt) ha' ha hr)
    exact congrArg (plan'.block ⟨along, ha⟩) (Fin.ext (congrArg (· / g.blockDim) hi))
  rw [block, BlockEdges.edgesOn_transpose, hi]
  exact congrArg (BlockEdges.edgesOn _ g table _ _ _ _) hw

namespace Plane

/-- The visible samples of `p'` are those of `p` with columns and rows exchanged. -/
structure IsTranspose (p : Plane l) (p' : Plane l') : Prop where
  width : l'.width = l.height
  height : l'.height = l.width
  get : ∀ x y, p'.get? y x = p.get? x y

theorem getElem?_line_vertical (p : Plane l) (x : Nat) (y : Fin (l.lineCount .vertical)) :
    (p.line .vertical y).toArray[x]? = p.get? x y := by
  rw [Vector.getElem?_toArray]
  rcases Nat.lt_or_ge x (l.lineLength .vertical) with hx | hx
  · rw [Vector.getElem?_eq_getElem hx, getElem_line]
    exact (p.get?_eq_some hx y.isLt).symm
  · rw [Vector.getElem?_eq_none hx]
    exact (p.get?_eq_none fun h => Nat.not_lt.2 hx h.1).symm

theorem getElem?_line_horizontal (p : Plane l) (x : Fin (l.lineCount .horizontal)) (y : Nat) :
    (p.line .horizontal x).toArray[y]? = p.get? x y := by
  rw [Vector.getElem?_toArray]
  rcases Nat.lt_or_ge y (l.lineLength .horizontal) with hy | hy
  · rw [Vector.getElem?_eq_getElem hy, getElem_line]
    exact (p.get?_eq_some x.isLt hy).symm
  · rw [Vector.getElem?_eq_none hy]
    exact (p.get?_eq_none fun h => Nat.not_lt.2 hy h.2).symm

theorem isTranspose_iff {p : Plane l} {p' : Plane l'} (hw : l'.width = l.height)
    (hh : l'.height = l.width) :
    p.IsTranspose p' ↔ ∀ (i : Fin (l.lineCount .horizontal)) (i' : Fin (l'.lineCount .vertical)),
      i'.val = i.val → (p'.line .vertical i').toArray = (p.line .horizontal i).toArray := by
  constructor
  · intro h i i' hi
    apply Array.ext_getElem?
    intro y
    rw [getElem?_line_vertical, getElem?_line_horizontal, hi, h.get]
  · refine fun h => ⟨hw, hh, fun x y => ?_⟩
    rcases Nat.lt_or_ge x l.width with hx | hx
    · have hx' : x < l'.height := hh ▸ hx
      rw [← getElem?_line_vertical p' y ⟨x, hx'⟩, ← getElem?_line_horizontal p ⟨x, hx⟩ y,
        h ⟨x, hx⟩ ⟨x, hx'⟩ rfl]
    · rw [get?_eq_none p' fun h' => Nat.not_lt.2 hx (hh ▸ h'.2),
        get?_eq_none p fun h' => Nat.not_lt.2 hx h'.1]

theorem exists_isTranspose (p : Plane l) (hw : l'.width = l.height) (hh : l'.height = l.width) :
    ∃ p' : Plane l', p.IsTranspose p' := by
  have hl : l'.lineCount .vertical = l.lineCount .horizontal := hh
  have hn : l.lineLength .horizontal = l'.lineLength .vertical := hw.symm
  obtain ⟨p', h, -⟩ := (constant l' 0).exists_lines fun i' =>
    (p.line .horizontal (i'.cast hl)).cast hn
  refine ⟨p', (isTranspose_iff hw hh).2 fun i i' hi => ?_⟩
  obtain rfl : i'.cast hl = i := Fin.ext hi
  rw [h, Vector.toArray_cast]

end Plane

theorem Edge.applyAll_toArray {n n' : Nat} {es : List Edge} (hn : n' = n) {v w : Vector UInt8 n}
    {v' w' : Vector UInt8 n'} (hv : v'.toArray = v.toArray) (h : applyAll es v = .ok w)
    (h' : applyAll es v' = .ok w') : w'.toArray = w.toArray := by
  subst hn
  obtain rfl := Vector.toArray_inj.1 hv
  rw [h] at h'
  cases h'
  rfl

/-- Superblocks are accepted for a plane exactly when the transposed ones are for the transposed
plane. Then the pass over the vertical edges of the transposed plane goes through, and gives the
transposed result of the pass over the horizontal edges. -/
theorem deblockPass_transpose (blocks : Array BlockEdges) (table : LevelTable) {p : Plane l}
    {p' : Plane l'} (h : p.IsTranspose p') (hh : 0 < l.height) :
    ((∃ plan, EdgePlan.ofArray? l' g
        (transposeBlocks g (g.columns l) (g.rows l) blocks) = .ok plan) ↔
      ∃ plan, EdgePlan.ofArray? l g blocks = .ok plan) ∧
    ∀ plan, EdgePlan.ofArray? l g blocks = .ok plan → ∃ (q : Plane l) (q' : Plane l'),
      deblockPass g blocks table .horizontal p =
        Outcome.ofChecked (do EdgePlan.requireCut l g .horizontal; return q) ∧
      deblockPass g (transposeBlocks g (g.columns l) (g.rows l) blocks) table .vertical p' =
        .ok q' ∧
      q.IsTranspose q' := by
  refine ⟨EdgePlan.exists_transpose_iff h.width h.height, fun plan accepted => ?_⟩
  obtain ⟨plan', accepted'⟩ :=
    (EdgePlan.exists_transpose_iff h.width h.height).2 ⟨plan, accepted⟩
  have hb := EdgePlan.ofArray?_eq_ok_iff.1 accepted'
  rw [← EdgePlan.ofArray?_eq_ok_iff.1 accepted] at hb
  obtain ⟨q, hq⟩ := plan.exists_filtered table .horizontal p
  obtain ⟨q', hq'⟩ := plan'.exists_filtered table .vertical p'
  refine ⟨q, q', EdgePlan.deblockPass_eq accepted hq, ?_, ?_⟩
  · rw [EdgePlan.deblockPass_eq accepted' hq', EdgePlan.requireCut_vertical (h.width ▸ hh)]
    rfl
  · refine (Plane.isTranspose_iff h.width h.height).2 fun i i' hi => ?_
    have result := hq'.line i'
    rw [EdgePlan.edgesOn_transpose hb h.width hi] at result
    exact Edge.applyAll_toArray h.width ((Plane.isTranspose_iff h.width h.height).1 h i i' hi)
      (hq.line i) result

theorem deblockPass_corner_transpose :
    ∃ p' : Plane (.owned 44 44 4), (Plane.constant (.owned 44 44 0) 7).IsTranspose p' ∧
      0 < (Layout.owned 44 44 0).height ∧
      EdgePlan.ofArray? _ _ EdgePlan.corner.blocks.toArray = .ok .corner ∧
      ∃ (q : Plane (.owned 44 44 0)) (q' : Plane (.owned 44 44 4)),
        deblockPass .sparse EdgePlan.corner.blocks.toArray .standard .horizontal (.constant _ 7) =
          Outcome.ofChecked (do
            EdgePlan.requireCut (.owned 44 44 0) .sparse .horizontal
            return q) ∧
        deblockPass .sparse (transposeBlocks .sparse 2 2 EdgePlan.corner.blocks.toArray) .standard
          .vertical p' = .ok q' ∧
        q.IsTranspose q' := by
  obtain ⟨p', h⟩ : ∃ p' : Plane (.owned 44 44 4),
      (Plane.constant (.owned 44 44 0) 7).IsTranspose p' := Plane.exists_isTranspose _ rfl rfl
  have accepted := EdgePlan.ofArray?_eq_ok_iff.2 (rfl : EdgePlan.corner.blocks.toArray = _)
  exact ⟨p', h, by decide, accepted,
    (deblockPass_transpose _ .standard h (by decide)).2 _ accepted⟩

end BlockVideo
