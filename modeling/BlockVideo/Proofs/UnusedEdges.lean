import BlockVideo.Proofs.DeblockInPlace

/-!
# What deblocking does not look at

A list of superblocks holds more than deblocking asks for. A position beyond the right or the lower
end of the plane can have edges, which no line meets; a position without an edge has a level, which
selects nothing; and some of the 64 levels belong to no position at all.

Two superblocks agree at a position when they have the same edges there and, if there are any, the
same level (`BlockEdges.AgreeAt`). Lists that agree at every position on the plane have the same
edges on every line (`EdgePlan.edgesOn_congr`), so that deblocking with one or the other ends in the
same way and leaves the same samples (`deblockPlane_eq_of_agree`).
-/

namespace BlockVideo

open InPlace

variable {l : Layout} {g : EdgeGrid} {o : Orientation} {table table' : LevelTable}

/-! ## Positions on the plane -/

namespace EdgeGrid

/-- The upper left sample of a position of superblock (`column`, `row`) is one of the plane. -/
def OnPlane (g : EdgeGrid) (l : Layout) (column row r c : Nat) : Prop :=
  column * g.blockDim + spacing * c < l.width ∧ row * g.blockDim + spacing * r < l.height

instance (l : Layout) (column row r c : Nat) : Decidable (g.OnPlane l column row r c) :=
  inferInstanceAs (Decidable (_ ∧ _))

theorem onPlane_cell {superblock along : Nat} {across step : Fin g.steps}
    (across_lt : superblock * g.blockDim + spacing * across < l.lineCount o)
    (along_lt : along * g.blockDim + spacing * step < l.lineLength o) :
    g.OnPlane l (o.cell superblock along).2 (o.cell superblock along).1 (o.cell across step).1
      (o.cell across step).2 := by
  cases o with
  | vertical => exact ⟨along_lt, across_lt⟩
  | horizontal => exact ⟨across_lt, along_lt⟩

end EdgeGrid

/-! ## Agreement -/

/-- At the position in grid row `r` and column `c`, two superblocks have the same edges, and the
same level if they have any. -/
structure BlockEdges.AgreeAt (m m' : BlockEdges) (g : EdgeGrid) (r c : Fin g.steps) : Prop where
  width : ∀ o, (m.edges o).widthAt (g.bit r c) = (m'.edges o).widthAt (g.bit r c)
  inner : m.inner.has (g.bit r c) = m'.inner.has (g.bit r c)
  level : m.used.has (g.bit r c) = true → m.level g r c = m'.level g r c

instance (m m' : BlockEdges) (r c : Fin g.steps) : Decidable (m.AgreeAt m' g r c) :=
  decidable_of_iff
    ((m.left.widthAt (g.bit r c) = m'.left.widthAt (g.bit r c) ∧
        m.above.widthAt (g.bit r c) = m'.above.widthAt (g.bit r c)) ∧
      m.inner.has (g.bit r c) = m'.inner.has (g.bit r c) ∧
      (m.used.has (g.bit r c) = true → m.level g r c = m'.level g r c))
    ⟨fun ⟨⟨left, above⟩, inner, level⟩ => ⟨fun o => o.casesOn left above, inner, level⟩,
      fun h => ⟨⟨h.width .vertical, h.width .horizontal⟩, h.inner, h.level⟩⟩

namespace EdgePlan

/-- Two plans agree at every position on the plane. -/
def AgreeOnPlane (plan plan' : EdgePlan l g) : Prop :=
  ∀ column row (r c : Fin g.steps), g.OnPlane l column.val row.val r c →
    (plan.block column row).AgreeAt (plan'.block column row) g r c

instance (plan plan' : EdgePlan l g) : Decidable (plan.AgreeOnPlane plan') :=
  inferInstanceAs (Decidable (∀ _ _ (_ _ : Fin g.steps), _ → _))

/-- Two tables have the same thresholds for the levels of all positions on the plane that have an
edge. -/
def SameThresholds (plan : EdgePlan l g) (table table' : LevelTable) : Prop :=
  ∀ column row (r c : Fin g.steps), g.OnPlane l column.val row.val r c →
    (plan.block column row).used.has (g.bit r c) = true →
      table.get? ((plan.block column row).level g r c).toNat =
        table'.get? ((plan.block column row).level g r c).toNat

end EdgePlan

/-! ## Edges -/

namespace BlockEdges

variable {m m' : BlockEdges}

/-- The thresholds of a position are looked up even if it has no edges, but then no edge gets
them. -/
theorem edgesAt_congr {across step : Fin g.steps} {position length : Nat}
    (agree : position < length → m.AgreeAt m' g (o.cell across step).1 (o.cell across step).2)
    (thresholds : position < length →
      m.used.has (g.bit (o.cell across step).1 (o.cell across step).2) = true →
        table.entry (m.level g (o.cell across step).1 (o.cell across step).2) =
          table'.entry (m'.level g (o.cell across step).1 (o.cell across step).2)) :
    m.edgesAt g table o across step position length =
      m'.edgesAt g table' o across step position length := by
  rcases Nat.lt_or_ge position length with inside | outside
  · have agree := agree inside
    have thresholds := thresholds inside
    generalize hc : o.cell across step = cell at agree thresholds
    obtain ⟨r, c⟩ := cell
    simp only [edgesAt, hc, if_neg (Nat.not_le.2 inside), ← agree.width o, ← agree.inner]
    congr 1
    · cases hw : (m.edges o).widthAt (g.bit r c) with
      | none => rfl
      | some w => simp only [thresholds (has_used_of_withWidth (EdgeMap.has_withWidth hw))]
    · by_cases asked : m.inner.has (g.bit r c) = true
      · rw [thresholds (has_used_of_inner asked)]
      · rw [if_neg fun h => asked h.1, if_neg fun h => asked h.1]
  · rw [m.edgesAt_of_le outside, m'.edgesAt_of_le outside]

end BlockEdges

namespace EdgePlan

variable {plan plan' : EdgePlan l g}

section Line

variable {i : Fin (l.lineCount o)} {along : Fin (g.count (l.lineLength o))} {r c : Fin g.steps}
  (onPlane : g.OnPlane l (o.cell (i / g.blockDim) along.val).2 (o.cell (i / g.blockDim) along.val).1
    r c)

include onPlane

theorem agreeAt_blockOn (agree : plan.AgreeOnPlane plan') :
    (plan.blockOn o i along).AgreeAt (plan'.blockOn o i along) g r c := by
  cases o with
  | vertical => exact agree along ⟨_, EdgeGrid.div_lt_count i.isLt⟩ r c onPlane
  | horizontal => exact agree ⟨_, EdgeGrid.div_lt_count i.isLt⟩ along r c onPlane

theorem entry_blockOn (same : plan.SameThresholds table table')
    (used : (plan.blockOn o i along).used.has (g.bit r c) = true) :
    table.entry ((plan.blockOn o i along).level g r c) =
      table'.entry ((plan.blockOn o i along).level g r c) := by
  have found : table.get? ((plan.blockOn o i along).level g r c).toNat =
      table'.get? ((plan.blockOn o i along).level g r c).toNat := by
    cases o with
    | vertical => exact same along ⟨_, EdgeGrid.div_lt_count i.isLt⟩ r c onPlane used
    | horizontal => exact same ⟨_, EdgeGrid.div_lt_count i.isLt⟩ along r c onPlane used
  have flaw := plan.flaw?_blockOn i along
  rw [BlockEdges.get?_level flaw used, BlockEdges.get?_level flaw used] at found
  exact Except.ok.inj found

end Line

theorem edgesOn_congr (agree : plan.AgreeOnPlane plan') (same : plan.SameThresholds table table')
    (o : Orientation) : plan.edgesOn table o = plan'.edgesOn table' o := by
  funext i
  simp only [edgesOn, BlockEdges.edgesOn_div]
  congr 1
  funext along
  split
  · next meets =>
    -- line `i` meets the position, so the position starts on this line or in front of it
    have starts : i / g.blockDim * g.blockDim +
        EdgeGrid.spacing * (i % g.blockDim / EdgeGrid.spacing) < l.lineCount o :=
      calc _ ≤ i / g.blockDim * g.blockDim + i % g.blockDim :=
            Nat.add_le_add_left (Nat.mul_div_le ..) _
        _ = i := Nat.div_add_mod' ..
        _ < l.lineCount o := i.isLt
    simp only [BlockEdges.edgesAlong]
    congr 1
    funext step
    have onPlane (inside : along * g.blockDim + EdgeGrid.spacing * step < l.lineLength o) :
        g.OnPlane l (o.cell (i / g.blockDim) along.val).2 (o.cell (i / g.blockDim) along.val).1
          (o.cell ⟨_, meets⟩ step).1 (o.cell ⟨_, meets⟩ step).2 :=
      EdgeGrid.onPlane_cell starts inside
    refine BlockEdges.edgesAt_congr (fun inside => agreeAt_blockOn (onPlane inside) agree)
      fun inside used => ?_
    rw [← (agreeAt_blockOn (onPlane inside) agree).level used]
    exact entry_blockOn (onPlane inside) same used
  · rfl

/-! ## Planes -/

theorem exec_passesInPlace_congr (edges : ∀ o, plan.edgesOn table o = plan'.edgesOn table' o)
    (p : Plane l) : (plan.passesInPlace table).exec p = (plan'.passesInPlace table').exec p := by
  obtain ⟨q, hv⟩ := plan.exists_filtered table .vertical p
  obtain ⟨r, hh⟩ := plan.exists_filtered table .horizontal q
  unfold passesInPlace
  rw [exec_bind, exec_bind, exec_passInPlace hv, exec_passInPlace (edges .vertical ▸ hv)]
  cases requireCut l g .vertical with
  | error f => rfl
  | ok => exact (exec_passInPlace hh).trans (exec_passInPlace (edges .horizontal ▸ hh)).symm

end EdgePlan

/-- Lists that agree at all positions on the plane, with tables that have the same thresholds for
the levels in use there, give the same result. Done in place, both leave the same samples, even if
they are stopped by the cut. -/
theorem deblockPlane_eq_of_agree {blocks blocks' : Array BlockEdges} {plan plan' : EdgePlan l g}
    (accepted : EdgePlan.ofArray? l g blocks = .ok plan)
    (accepted' : EdgePlan.ofArray? l g blocks' = .ok plan') (agree : plan.AgreeOnPlane plan')
    (same : plan.SameThresholds table table') (p : Plane l) :
    (∃ r,
      deblockPlane g blocks table p = Outcome.ofChecked (do
        EdgePlan.requireCut l g .vertical
        EdgePlan.requireCut l g .horizontal
        return r) ∧
      deblockPlane g blocks' table' p = Outcome.ofChecked (do
        EdgePlan.requireCut l g .vertical
        EdgePlan.requireCut l g .horizontal
        return r)) ∧
    (deblockPlaneInPlace g blocks table).exec p =
      (deblockPlaneInPlace g blocks' table').exec p := by
  have edges := EdgePlan.edgesOn_congr agree same
  constructor
  · obtain ⟨q, hv⟩ := plan.exists_filtered table .vertical p
    obtain ⟨r, hh⟩ := plan.exists_filtered table .horizontal q
    exact ⟨r, EdgePlan.deblockPlane_eq_of_cuts accepted hv hh,
      EdgePlan.deblockPlane_eq_of_cuts accepted' (edges .vertical ▸ hv) (edges .horizontal ▸ hh)⟩
  · rw [deblockPlaneInPlace, deblockPlaneInPlace, accepted, accepted']
    exact EdgePlan.exec_passesInPlace_congr edges p

theorem Layout.aligned_corner : (Layout.owned 44 44 0).Aligned := by decide

/-- `corner` with edges beyond the right and the lower end of the plane, and with levels that are
none. -/
def EdgePlan.cluttered : EdgePlan (.owned 44 44 0) .sparse where
  blocks :=
    #v[{ BlockEdges.none with
        inner := 1, levels := (Vector.replicate 64 200).setIfInBounds 0 32 },
      { BlockEdges.uniform 32 with left := ⟨19, 0, 0⟩, inner := 1 },
      { BlockEdges.uniform 63 with above := ⟨1, 0, 0⟩, inner := 9 },
      { BlockEdges.uniform 63 with left := ⟨1, 0, 0⟩, above := ⟨1, 4, 0⟩ }]
  aligned := Layout.aligned_corner
  accepted := by decide

theorem deblockPlane_cluttered_eq_corner :
    EdgePlan.ofArray? _ _ EdgePlan.corner.blocks.toArray = .ok .corner ∧
    EdgePlan.ofArray? _ _ EdgePlan.cluttered.blocks.toArray = .ok .cluttered ∧
    EdgePlan.corner.AgreeOnPlane .cluttered ∧
    EdgePlan.corner.SameThresholds .standard
      (.ofEntries (LevelTable.standard.entries.set 10 ⟨0, 0, 0⟩)) ∧
    ∀ p : Plane (.owned 44 44 0), ∃ r,
      deblockPlane .sparse EdgePlan.corner.blocks.toArray .standard p = .ok r ∧
      deblockPlane .sparse EdgePlan.cluttered.blocks.toArray
        (.ofEntries (LevelTable.standard.entries.set 10 ⟨0, 0, 0⟩)) p = .ok r := by
  have accepted := EdgePlan.ofArray?_eq_ok_iff.2 (rfl : EdgePlan.corner.blocks.toArray = _)
  have accepted' := EdgePlan.ofArray?_eq_ok_iff.2 (rfl : EdgePlan.cluttered.blocks.toArray = _)
  have agree : EdgePlan.corner.AgreeOnPlane .cluttered := by decide
  have same : EdgePlan.corner.SameThresholds .standard
      (.ofEntries (LevelTable.standard.entries.set 10 ⟨0, 0, 0⟩)) := by
    have levels : ∀ column row (r c : Fin EdgeGrid.sparse.steps),
        ((EdgePlan.corner.block column row).level .sparse r c).toNat ≠ 10 := by
      decide
    intro column row r c _ _
    simp only [LevelTable.get?, LevelTable.ofEntries,
      Vector.getElem_set_ne _ _ (levels column row r c).symm]
  refine ⟨accepted, accepted', agree, same, fun p => ?_⟩
  obtain ⟨⟨r, hr, hr'⟩, -⟩ := deblockPlane_eq_of_agree accepted accepted' agree same p
  rw [EdgePlan.requireCut_corner, EdgePlan.requireCut_corner] at hr hr'
  exact ⟨r, hr, hr'⟩

end BlockVideo
