import BlockVideo.Proofs.Answered

/-!
# Edges on the outer sides

Superblocks may come with edges on the left and upper side of the plane, where nothing is to be
filtered: a list of them is refused. One way to deal with such edges is to skip them while
filtering. The other one is to take them out of the list first, with
`BlockEdges.withoutOuterEdges`.

The edges that are taken out are those in front of the first sample of a line, no more and no fewer
(`edgesAt_withoutOuterEdges`). So the list that is left is accepted, and deblocking with it does
what skipping the edges does (`deblockPlane_withoutOuterEdges`).
-/

namespace BlockVideo

/-! ## Positions -/

namespace EdgeGrid

variable {g : EdgeGrid}

def firstPositions (g : EdgeGrid) : Orientation → Positions
  | .vertical => g.columnPositions 0
  | .horizontal => g.rowPositions 0

theorem has_firstPositions {o : Orientation} {across step : Fin g.steps} :
    (g.firstPositions o).has (g.bit (o.cell across step).1 (o.cell across step).2) = true ↔
      step.val = 0 := by
  cases o with
  | vertical =>
    refine (mem_columnPositions_iff g.one_le_steps).trans
      ⟨?_, fun h => ⟨across, across.isLt, h ▸ rfl⟩⟩
    rintro ⟨row, hr, h⟩
    exact (bit_inj hr g.one_le_steps across.isLt step.isLt h).2.symm
  | horizontal =>
    refine (mem_rowPositions_iff g.one_le_steps).trans
      ⟨?_, fun h => ⟨across, across.isLt, h ▸ rfl⟩⟩
    rintro ⟨col, hc, h⟩
    exact (bit_inj g.one_le_steps hc step.isLt across.isLt h).1.symm

end EdgeGrid

/-! ## Superblocks -/

namespace BlockEdges

variable {m : BlockEdges} {g : EdgeGrid} {table : LevelTable} {o : Orientation} {column row : Nat}

theorem edges_withoutOuterEdges :
    (m.withoutOuterEdges g column row).edges o =
      if (o.cell row column).2 = 0 then (m.edges o).clear (g.firstPositions o) else m.edges o := by
  cases o <;> rfl

theorem withoutOuterEdges_idem :
    (m.withoutOuterEdges g column row).withoutOuterEdges g column row =
      m.withoutOuterEdges g column row := by
  unfold withoutOuterEdges
  congr 1
  · split
    · exact EdgeMap.clear_clear ..
    · rfl
  · split
    · exact EdgeMap.clear_clear ..
    · rfl

theorem withoutOuterEdges_eq_self (hc : 0 < column) (hr : 0 < row) :
    m.withoutOuterEdges g column row = m := by
  rw [withoutOuterEdges, if_neg (Nat.ne_of_gt hc), if_neg (Nat.ne_of_gt hr)]

/-- `m'` is what is left of the edges `m` of superblock (`column`, `row`): all but the edges on the
left side of the plane and those on its upper side. -/
structure LosesOuterEdges (m m' : BlockEdges) (g : EdgeGrid) (column row : Nat) : Prop where
  left : ∀ w i, (m'.left.withWidth w).has i = true ↔
    (m.left.withWidth w).has i = true ∧ ¬ (column = 0 ∧ ∃ r, r < g.steps ∧ g.bit r 0 = i)
  above : ∀ w i, (m'.above.withWidth w).has i = true ↔
    (m.above.withWidth w).has i = true ∧ ¬ (row = 0 ∧ ∃ c, c < g.steps ∧ g.bit 0 c = i)
  inner : m'.inner = m.inner
  levels : m'.levels = m.levels

theorem losesOuterEdges (m : BlockEdges) (g : EdgeGrid) (column row : Nat) :
    m.LosesOuterEdges (m.withoutOuterEdges g column row) g column row := by
  refine ⟨fun w i => ?_, fun w i => ?_, rfl, rfl⟩
  · rw [← EdgeGrid.mem_columnPositions_iff g.one_le_steps]
    by_cases h : column = 0 <;> simp [withoutOuterEdges, h, EdgeMap.has_withWidth_clear]
  · rw [← EdgeGrid.mem_rowPositions_iff g.one_le_steps]
    by_cases h : row = 0 <;> simp [withoutOuterEdges, h, EdgeMap.has_withWidth_clear]

theorem overlaps_withoutOuterEdges (h : (m.edges o).overlaps = 0) :
    ((m.withoutOuterEdges g column row).edges o).overlaps = 0 := by
  rw [edges_withoutOuterEdges]
  split
  · rw [EdgeMap.overlaps_clear, h]
    exact BitVec.zero_and
  · exact h

theorem has_union_of_withoutOuterEdges {i : Nat}
    (h : ((m.withoutOuterEdges g column row).edges o).union.has i = true) :
    (m.edges o).union.has i = true := by
  rw [edges_withoutOuterEdges] at h
  split at h
  · rw [EdgeMap.union_clear, Positions.has_without, Bool.and_eq_true] at h
    exact h.1
  · exact h

theorem has_used_of_withoutOuterEdges {i : Nat}
    (h : (m.withoutOuterEdges g column row).used.has i = true) : m.used.has i = true := by
  simp only [used, Positions.has_or, Bool.or_eq_true] at h ⊢
  rcases h with (h | h) | h
  · exact .inl (.inl (has_union_of_withoutOuterEdges (o := .vertical) h))
  · exact .inl (.inr (has_union_of_withoutOuterEdges (o := .horizontal) h))
  · exact .inr h

theorem flaw?_withoutOuterEdges (h : m.flaw? g = .none) :
    (m.withoutOuterEdges g column row).flaw? g = .none := by
  obtain ⟨overlaps, inside, level⟩ := flaw?_eq_none_iff.1 h
  refine flaw?_eq_none_iff.2 ⟨fun o => overlaps_withoutOuterEdges (overlaps o),
    Positions.without_eq_zero_iff.2 fun i hi => ?_, fun r c hi => ?_⟩
  · exact Positions.without_eq_zero_iff.1 inside i (has_used_of_withoutOuterEdges hi)
  · exact level r c (has_used_of_withoutOuterEdges hi)

theorem borderFlaw?_withoutOuterEdges :
    (m.withoutOuterEdges g column row).borderFlaw? g column row = .none := by
  have cleared (edges : EdgeMap) (s : Positions) : (edges.clear s).union &&& s = 0 := by
    rw [EdgeMap.union_clear, BitVec.and_assoc]
    simp
  refine borderFlaw?_eq_none_iff.2 ⟨fun h => ?_, fun h => ?_⟩
  · rw [withoutOuterEdges, if_pos h]
    exact cleared ..
  · rw [withoutOuterEdges, if_pos h]
    exact cleared ..

theorem flawAt?_withoutOuterEdges (h : m.flaw? g = .none) :
    (m.withoutOuterEdges g column row).flawAt? g column row = .none :=
  flawAt?_eq_none_iff.2 ⟨flaw?_withoutOuterEdges h, borderFlaw?_withoutOuterEdges⟩

theorem position_eq_zero_iff {along : Nat} {step : Fin g.steps} :
    along * g.blockDim + EdgeGrid.spacing * step = 0 ↔ along = 0 ∧ step.val = 0 := by
  have := g.blockDim_pos
  rw [Nat.add_eq_zero_iff, Nat.mul_eq_zero, Nat.mul_eq_zero]
  simp only [EdgeGrid.spacing]
  omega

variable {across step : Fin g.steps} {position length : Nat}

theorem widthAt_withoutOuterEdges (m : BlockEdges) (across : Fin g.steps)
    (h : position = (o.cell row column).2 * g.blockDim + EdgeGrid.spacing * step) :
    ((m.withoutOuterEdges g column row).edges o).widthAt
        (g.bit (o.cell across step).1 (o.cell across step).2) =
      if position = 0 then .none
      else (m.edges o).widthAt (g.bit (o.cell across step).1 (o.cell across step).2) := by
  simp only [h, position_eq_zero_iff, edges_withoutOuterEdges]
  by_cases outer : (o.cell row column).2 = 0
  · simp only [outer, if_true, true_and, EdgeMap.widthAt_clear, EdgeGrid.has_firstPositions]
  · simp only [outer, if_false, false_and]

/-- The edges taken out are those in front of the first sample of a line. -/
theorem edgesAt_withoutOuterEdges
    (h : position = (o.cell row column).2 * g.blockDim + EdgeGrid.spacing * step) :
    (m.withoutOuterEdges g column row).edgesAt g table o across step position length =
      (m.edgesAt g table o across step position length).filter fun e => 0 < e.position := by
  have width := m.widthAt_withoutOuterEdges across h
  have level (r c : Fin g.steps) :
      (m.withoutOuterEdges g column row).level g r c = m.level g r c := rfl
  have inner : (m.withoutOuterEdges g column row).inner = m.inner := rfl
  generalize hc : o.cell across step = cell at width
  obtain ⟨r, c⟩ := cell
  simp only [edgesAt, hc, width, level, inner]
  split
  · rfl
  · rw [List.filter_append]
    -- The edge through the middle of a position is never at the start of a line.
    congr 1
    · rcases Nat.eq_zero_or_pos position with first | first
      · cases (m.edges o).widthAt (g.bit r c) <;> simp [first]
      · cases (m.edges o).widthAt (g.bit r c) <;> simp [first, Nat.ne_of_gt first]
    · split <;> simp [innerOffset]

theorem edgesOn_withoutOuterEdges {i : Nat} :
    (m.withoutOuterEdges g column row).edgesOn g table o (o.cell row column).1
        (o.cell row column).2 i length =
      (m.edgesOn g table o (o.cell row column).1 (o.cell row column).2 i length).filter
        fun e => 0 < e.position := by
  unfold edgesOn
  split
  · simp only [edgesAlong, List.filter_flatMap]
    congr 1
    funext step
    exact edgesAt_withoutOuterEdges rfl
  · rfl

end BlockEdges

/-! ## Planes -/

variable {l : Layout} {g : EdgeGrid} {table : LevelTable} {o : Orientation}
  {blocks : Array BlockEdges}

def withoutOuterEdges (l : Layout) (g : EdgeGrid) (blocks : Array BlockEdges) : Array BlockEdges :=
  blocks.mapIdx fun i m => m.withoutOuterEdges g (i % g.columns l) (i / g.columns l)

theorem getElem?_withoutOuterEdges {column row : Nat} (hc : column < g.columns l) :
    (withoutOuterEdges l g blocks)[row * g.columns l + column]? =
      (blocks[row * g.columns l + column]?).map (·.withoutOuterEdges g column row) := by
  rw [withoutOuterEdges, Array.getElem?_mapIdx, RowMajor.mod_eq row hc, RowMajor.div_eq row hc]

/-- Superblocks that have no flaw but outer edges are accepted without these. -/
theorem exists_plan_withoutOuterEdges (aligned : l.Aligned)
    (size : blocks.size = g.columns l * g.rows l) (sound : ∀ m ∈ blocks, m.flaw? g = none) :
    ∃ plan, EdgePlan.ofArray? l g (withoutOuterEdges l g blocks) = .ok plan := by
  refine EdgePlan.exists_iff.2 ⟨aligned, ?_, fun column row hc hr => ?_⟩
  · rw [withoutOuterEdges, Array.size_mapIdx, size]
  · have h : row * g.columns l + column < blocks.size := size ▸ RowMajor.number_lt_mul hr hc
    rw [getElem?_withoutOuterEdges hc, Array.getElem?_eq_getElem h]
    exact ⟨_, rfl, BlockEdges.flawAt?_withoutOuterEdges (sound _ (Array.getElem_mem h))⟩

/-- The superblock in place `across` and `along`, of a list that need not be accepted. -/
def blockListed (l : Layout) (g : EdgeGrid) (blocks : Array BlockEdges) (o : Orientation)
    (across along : Nat) : BlockEdges :=
  blocks.getD ((o.cell across along).1 * g.columns l + (o.cell across along).2) .none

def edgesListed (l : Layout) (g : EdgeGrid) (blocks : Array BlockEdges) (table : LevelTable)
    (o : Orientation) (i : Fin (l.lineCount o)) : List Edge :=
  (List.finRange (g.count (l.lineLength o))).flatMap
      fun along : Fin (g.count (l.lineLength o)) =>
    (blockListed l g blocks o (i / g.blockDim) along).edgesOn g table o (i / g.blockDim) along i
      (l.lineLength o)

def edgesListedInside (l : Layout) (g : EdgeGrid) (blocks : Array BlockEdges) (table : LevelTable)
    (o : Orientation) (i : Fin (l.lineCount o)) : List Edge :=
  (edgesListed l g blocks table o i).filter fun e => 0 < e.position

theorem EdgePlan.blockOn_eq_blockListed (plan : EdgePlan l g) (i : Fin (l.lineCount o))
    (along : Fin (g.count (l.lineLength o))) :
    plan.blockOn o i along = blockListed l g plan.blocks.toArray o (i / g.blockDim) along := by
  have listed (column : Fin (g.columns l)) (row : Fin (g.rows l)) :
      plan.blocks.toArray.getD (row * g.columns l + column) .none = plan.block column row := by
    rw [Array.getD_eq_getD_getElem?, plan.getElem?_blocks, Option.getD_some]
  cases o with
  | vertical => exact (listed along ⟨_, EdgeGrid.div_lt_count i.isLt⟩).symm
  | horizontal => exact (listed ⟨_, EdgeGrid.div_lt_count i.isLt⟩ along).symm

theorem EdgePlan.edgesOn_eq_edgesListed (plan : EdgePlan l g) (i : Fin (l.lineCount o)) :
    plan.edgesOn table o i = edgesListed l g plan.blocks.toArray table o i := by
  simp only [EdgePlan.edgesOn, edgesListed, plan.blockOn_eq_blockListed]

theorem blockListed_withoutOuterEdges (size : blocks.size = g.columns l * g.rows l)
    {across along : Nat} (ha : across < g.count (l.lineCount o))
    (hl : along < g.count (l.lineLength o)) :
    blockListed l g (withoutOuterEdges l g blocks) o across along =
      (blockListed l g blocks o across along).withoutOuterEdges g (o.cell across along).2
        (o.cell across along).1 := by
  have cell : (o.cell across along).2 < g.columns l ∧ (o.cell across along).1 < g.rows l := by
    cases o with
    | vertical => exact ⟨hl, ha⟩
    | horizontal => exact ⟨ha, hl⟩
  have h : (o.cell across along).1 * g.columns l + (o.cell across along).2 < blocks.size :=
    size ▸ RowMajor.number_lt_mul cell.2 cell.1
  simp only [blockListed, Array.getD_eq_getD_getElem?, getElem?_withoutOuterEdges cell.1,
    Array.getElem?_eq_getElem h, Option.map_some, Option.getD_some]

theorem edgesListed_withoutOuterEdges (size : blocks.size = g.columns l * g.rows l)
    (i : Fin (l.lineCount o)) :
    edgesListed l g (withoutOuterEdges l g blocks) table o i =
      edgesListedInside l g blocks table o i := by
  rw [edgesListedInside, edgesListed, edgesListed, List.filter_flatMap]
  congr 1
  funext along
  rw [blockListed_withoutOuterEdges size (EdgeGrid.div_lt_count i.isLt) along.isLt]
  cases o with
  | vertical => exact BlockEdges.edgesOn_withoutOuterEdges
  | horizontal => exact BlockEdges.edgesOn_withoutOuterEdges

/-! ## Skipping -/

/-- Filters the listed edges of each row, from left to right, and then those of each column, from
top to bottom. Skips edges on the left and upper side of the plane. -/
def skipOuterEdges (g : EdgeGrid) (blocks : Array BlockEdges) (table : LevelTable) (p : Plane l) :
    Checked (Plane l) := do
  let q ← filterLineByLine g .vertical (edgesListedInside l g blocks table .vertical) p
  filterLineByLine g .horizontal (edgesListedInside l g blocks table .horizontal) q

theorem edgesListedInside_of_gap {i : Fin (l.lineCount o)}
    (h : ¬ i.val % g.blockDim < 8 * g.steps) : edgesListedInside l g blocks table o i = [] := by
  have gap : edgesListed l g blocks table o i = [] := List.flatMap_eq_nil_iff.2 fun along _ => by
    rw [BlockEdges.edgesOn_div, dif_neg]
    simp only [EdgeGrid.spacing]
    omega
  rw [edgesListedInside, gap, List.filter_nil]

theorem skipOuterEdges_eq_ok_iff {p r : Plane l} :
    skipOuterEdges g blocks table p = .ok r ↔
      ∃ q, Filtered .vertical (edgesListedInside l g blocks table .vertical) p q ∧
        Filtered .horizontal (edgesListedInside l g blocks table .horizontal) q r := by
  simp only [skipOuterEdges, bind_eq_ok_iff,
    filterLineByLine_eq_ok_iff fun i => edgesListedInside_of_gap]

/-- Superblocks that have no flaw but edges on the outer sides of the plane are accepted without
these, and deblocking with what is left of them does what skipping the edges does, as long as there
is room for the list of the lanes. Nothing but edges on the outer sides is lost, whatever the
superblock; once they are, nothing else is, and inside the plane nothing is. -/
theorem deblockPlane_withoutOuterEdges (aligned : l.Aligned) (hw : 0 < l.width)
    (size : blocks.size = g.columns l * g.rows l) (sound : ∀ m ∈ blocks, m.flaw? g = none)
    (table : LevelTable) (p : Plane l) :
    (∃ plan, EdgePlan.ofArray? l g (withoutOuterEdges l g blocks) = .ok plan) ∧
    (∃ r, skipOuterEdges g blocks table p = .ok r ∧
      (g.columns l * EdgePlan.listBytes ≤ Capacity.limit →
        deblockPlane g (withoutOuterEdges l g blocks) table p = .ok r) ∧
      (Capacity.limit < g.columns l * EdgePlan.listBytes →
        deblockPlane g (withoutOuterEdges l g blocks) table p =
          .error (.fault (.tooLarge (g.columns l) EdgePlan.listBytes)))) ∧
    ∀ (m : BlockEdges) (column row : Nat),
      m.LosesOuterEdges (m.withoutOuterEdges g column row) g column row ∧
      (m.withoutOuterEdges g column row).withoutOuterEdges g column row =
        m.withoutOuterEdges g column row ∧
      (0 < column → 0 < row → m.withoutOuterEdges g column row = m) := by
  obtain ⟨plan, accepted⟩ := exists_plan_withoutOuterEdges aligned size sound
  have edges (o : Orientation) : plan.edgesOn table o = edgesListedInside l g blocks table o := by
    funext i
    rw [plan.edgesOn_eq_edgesListed, EdgePlan.ofArray?_eq_ok_iff.1 accepted,
      edgesListed_withoutOuterEdges size]
  obtain ⟨q, hv⟩ := plan.exists_filtered table .vertical p
  obtain ⟨r, hh⟩ := plan.exists_filtered table .horizontal q
  have skipped : skipOuterEdges g blocks table p = .ok r :=
    skipOuterEdges_eq_ok_iff.2 ⟨q, edges .vertical ▸ hv, edges .horizontal ▸ hh⟩
  refine ⟨⟨plan, accepted⟩, ⟨r, skipped, fun room => ?_, fun wide => ?_⟩, fun m column row =>
    ⟨m.losesOuterEdges g column row, BlockEdges.withoutOuterEdges_idem,
      BlockEdges.withoutOuterEdges_eq_self⟩⟩
  · have cut : EdgePlan.requireCut l g .horizontal = .ok () :=
      EdgePlan.requireCut_eq_ok_iff.2 ⟨Layout.stride_ne_zero hw, fun _ => room⟩
    rw [EdgePlan.deblockPlane_eq accepted hw hv hh, cut]
    rfl
  · exact (deblockPlane_eq_fault_iff hw).2 ⟨⟨plan, accepted⟩, wide, rfl⟩

def everyEdge : Array BlockEdges :=
  .replicate 4
    { BlockEdges.uniform 32 with left := ⟨0, 511, 0⟩, above := ⟨0, 511, 0⟩, inner := 511 }

theorem deblockPlane_everyEdge_withoutOuterEdges :
    (Layout.owned 44 44 0).Aligned ∧ 0 < (Layout.owned 44 44 0).width ∧
    everyEdge.size =
      EdgeGrid.sparse.columns (.owned 44 44 0) * EdgeGrid.sparse.rows (.owned 44 44 0) ∧
    (∀ m ∈ everyEdge, m.flaw? .sparse = none) ∧
    ∀ p : Plane (.owned 44 44 0),
      deblockPlane .sparse everyEdge .standard p =
        .error (.refused (.outerEdge .vertical 0 0)) ∧
      ∃ r, skipOuterEdges .sparse everyEdge .standard p = .ok r ∧
        deblockPlane .sparse (withoutOuterEdges (.owned 44 44 0) .sparse everyEdge) .standard p =
          .ok r := by
  have sound : ∀ m ∈ everyEdge, m.flaw? .sparse = none := by
    intro m hm
    rw [(Array.mem_replicate.1 hm).2]
    decide
  refine ⟨by decide, by decide, rfl, sound, fun p => ⟨rfl, ?_⟩⟩
  obtain ⟨-, ⟨r, skipped, deblocked, -⟩, -⟩ :=
    deblockPlane_withoutOuterEdges (by decide) (by decide) rfl sound .standard p
  exact ⟨r, skipped, deblocked (by decide)⟩

theorem skipOuterEdges_of_no_rows (h : l.height = 0) (p : Plane l) :
    skipOuterEdges g blocks table p = .ok p := by
  -- There are no rows, and columns without samples have no edges.
  have noEdges : ∀ o i, edgesListedInside l g blocks table o i = [] := by
    intro o i
    cases o with
    | vertical => exact absurd (Nat.lt_of_lt_of_eq i.isLt h) (Nat.not_lt_zero i.val)
    | horizontal =>
      have listed : edgesListed l g blocks table .horizontal i = [] :=
        List.flatMap_eq_nil_iff.2 fun _ _ => BlockEdges.edgesOn_of_eq_zero _ _ _ _ h
      rw [edgesListedInside, listed, List.filter_nil]
  have same (o : Orientation) : Filtered o (edgesListedInside l g blocks table o) p p := by
    rw [funext (noEdges o)]
    exact Filtered.nil_iff.2 rfl
  exact skipOuterEdges_eq_ok_iff.2 ⟨p, same .vertical, same .horizontal⟩

/-- With too many lanes, deblocking such a plane meets a fault. -/
theorem deblockPlane_endless_withoutOuterEdges :
    Layout.endless.Aligned ∧ 0 < Layout.endless.width ∧
    (#[] : Array BlockEdges).size =
      EdgeGrid.chroma.columns .endless * EdgeGrid.chroma.rows .endless ∧
    (∀ m ∈ (#[] : Array BlockEdges), m.flaw? .chroma = none) ∧
    skipOuterEdges .chroma #[] .standard (.constant .endless 1) = .ok (.constant .endless 1) ∧
    ¬ ∃ r, deblockPlane .chroma (withoutOuterEdges .endless .chroma #[]) .standard
      (.constant .endless 1) = .ok r := by
  have accepted := EdgePlan.ofArray?_noBlocks (l := .endless) (g := .chroma) (by decide) (.inr rfl)
  have columns : EdgeGrid.chroma.columns .endless = 576460752303423486 := by decide
  have fault : deblockPlane .chroma (withoutOuterEdges .endless .chroma #[]) .standard
      (.constant .endless 1) = .error (.fault (.tooLarge 576460752303423486 24)) := by
    refine (deblockPlane_eq_fault_iff (by decide)).2 ⟨⟨_, accepted⟩, ?_⟩
    rw [columns]
    exact ⟨by decide, rfl⟩
  refine ⟨by decide, by decide, by decide, fun m hm => absurd hm (Array.not_mem_empty m),
    skipOuterEdges_of_no_rows rfl _, ?_⟩
  rintro ⟨r, h⟩
  rw [fault] at h
  cases h

end BlockVideo
