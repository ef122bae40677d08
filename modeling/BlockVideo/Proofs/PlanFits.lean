import BlockVideo.Proofs.PlanEdges

/-!
# Accepted edges fit

The edges of an accepted superblock fit their lines. The first samples of a line have no edge in
front of them that a filter could cross, since the outer side of the plane has none; the last ones
are enough, since lines have whole 4x4 blocks and a wide edge gives way in front of the last one.
So an accepted plan is filtered without a fault.
-/

namespace BlockVideo

variable {l : Layout} {g : EdgeGrid} {table : LevelTable} {o : Orientation}

namespace BlockEdges

variable {m : BlockEdges} {length : Nat}

theorem mem_edgesAt {across step : Fin g.steps} {position : Nat} {e : Edge} :
    e ∈ m.edgesAt g table o across step position length ↔
      position < length ∧
        ((∃ w, (m.edges o).widthAt (g.bit (o.cell across step).1 (o.cell across step).2) = some w ∧
            e = ⟨position, w.fit position length,
              table.entry (m.level g (o.cell across step).1 (o.cell across step).2)⟩) ∨
          m.inner.has (g.bit (o.cell across step).1 (o.cell across step).2) = true ∧
            position + innerOffset < length ∧
            e = ⟨position + innerOffset, .narrow,
              table.entry (m.level g (o.cell across step).1 (o.cell across step).2)⟩) := by
  generalize hc : o.cell across step = c
  obtain ⟨row, col⟩ := c
  simp only [edgesAt, hc]
  split
  · next h => exact iff_of_false List.not_mem_nil fun h' => absurd h'.1 (Nat.not_lt.2 h)
  · next h =>
    rw [List.mem_append]
    refine Iff.trans (or_congr ?_ ?_) (and_iff_right (Nat.lt_of_not_le h)).symm
    · cases (m.edges o).widthAt (g.bit row col) <;> simp
    · split
      · next h' => simp [h']
      · next h' => exact iff_of_false List.not_mem_nil fun h'' => h' ⟨h''.1, h''.2.1⟩

theorem widthAt_outer {sb along : Nat}
    (h : m.borderFlaw? g (o.cell sb along).2 (o.cell sb along).1 = .none) (ha : along = 0)
    (across : Fin g.steps) {step : Fin g.steps} (hs : step.val = 0) :
    (m.edges o).widthAt (g.bit (o.cell across step).1 (o.cell across step).2) = .none := by
  obtain ⟨hl, hu⟩ := borderFlaw?_eq_none_iff.1 h
  have hb := EdgeGrid.bit_lt (o.cell across step).1.isLt (o.cell across step).2.isLt
  rw [← Option.not_isSome_iff_eq_none, EdgeMap.isSome_widthAt]
  intro hm
  cases o
  · refine Bool.eq_false_iff.1 (Positions.and_eq_zero_iff.1 (hl ha) _ hm) ?_
    refine EdgeGrid.has_columnPositions.2 ⟨hb, across, across.isLt, ?_⟩
    exact congrArg _ hs.symm
  · refine Bool.eq_false_iff.1 (Positions.and_eq_zero_iff.1 (hu ha) _ hm) ?_
    refine EdgeGrid.has_rowPositions.2 ⟨hb, ?_⟩
    have := across.isLt
    change _ ≤ g.bit step across ∧ g.bit step across < _
    rw [EdgeGrid.bit_eq step.isLt across.isLt, hs]
    omega

theorem position_dvd (along : Nat) (step : Fin g.steps) :
    8 ∣ along * g.blockDim + EdgeGrid.spacing * step := by
  refine Nat.dvd_add ?_ (Nat.dvd_mul_right 8 _)
  exact Nat.dvd_trans (Nat.dvd_of_mod_eq_zero g.blockDim_mod) (Nat.dvd_mul_left ..)

theorem edgesAlong_fits {sb along : Nat}
    (h : m.borderFlaw? g (o.cell sb along).2 (o.cell sb along).1 = .none) (aligned : length % 4 = 0)
    (across : Fin g.steps) : ∀ e ∈ m.edgesAlong g table o across along length, e.Fits length := by
  intro e he
  obtain ⟨step, -, he⟩ := List.mem_flatMap.1 he
  obtain ⟨hlt, ⟨w, hw, rfl⟩ | ⟨-, hin, rfl⟩⟩ := mem_edgesAt.1 he
  all_goals have hd := position_dvd (g := g) along step
  · have outer : ¬ (along = 0 ∧ step.val = 0) := by
      rintro ⟨h0, hs⟩
      rw [widthAt_outer h h0 across hs] at hw
      cases hw
    have hpos : 0 < along * g.blockDim + EdgeGrid.spacing * step := by
      rcases Nat.eq_zero_or_pos along with h0 | h0
      · have : step.val ≠ 0 := fun hs => outer ⟨h0, hs⟩
        simp only [EdgeGrid.spacing]
        omega
      · exact Nat.lt_of_lt_of_le (Nat.mul_pos h0 EdgeGrid.blockDim_pos)
          (Nat.le_add_right ..)
    constructor <;> simp only [EdgeWidth.fit] <;> cases w <;> split <;>
      simp only [EdgeWidth.reach] at * <;> omega
  · simp only [innerOffset] at hin
    constructor <;> simp only [EdgeWidth.reach, innerOffset] <;> omega

theorem edgesOn_fits {sb along : Nat}
    (h : m.borderFlaw? g (o.cell sb along).2 (o.cell sb along).1 = .none) (aligned : length % 4 = 0)
    (i : Nat) : ∀ e ∈ m.edgesOn g table o sb along i length, e.Fits length := by
  unfold edgesOn
  split
  · exact edgesAlong_fits h aligned _
  · exact fun e he => absurd he List.not_mem_nil

end BlockEdges

theorem Layout.Aligned.lineLength {l : Layout} (h : l.Aligned) (o : Orientation) :
    l.lineLength o % 4 = 0 := by
  cases o
  · exact h.1
  · exact h.2

/-- Superblocks of 40 samples with edge positions on the first 24. -/
def EdgeGrid.sparse : EdgeGrid :=
  ⟨40, 3, 0, 5, by decide, by decide, by decide, by decide, by decide, by decide, by decide,
    by decide⟩

namespace EdgePlan

variable (plan : EdgePlan l g)

theorem flawAt?_block (column : Fin (g.columns l)) (row : Fin (g.rows l)) :
    (plan.block column row).flawAt? g column row = none := by
  have := plan.accepted ⟨_, RowMajor.number_lt_mul row.isLt column.isLt⟩
  simp only [RowMajor.mod_eq _ column.isLt, RowMajor.div_eq _ column.isLt] at this
  exact this

theorem getElem?_blocks (column : Fin (g.columns l)) (row : Fin (g.rows l)) :
    plan.blocks.toArray[row.val * g.columns l + column.val]? = some (plan.block column row) := by
  have h := RowMajor.number_lt_mul row.isLt column.isLt
  rw [Array.getElem?_eq_getElem (by rwa [plan.blocks.size_toArray])]
  rfl

theorem exists_iff {blocks : Array BlockEdges} :
    (∃ plan, ofArray? l g blocks = .ok plan) ↔
      l.Aligned ∧ blocks.size = g.columns l * g.rows l ∧
        ∀ column row, column < g.columns l → row < g.rows l →
          ∃ m, blocks[row * g.columns l + column]? = some m ∧ m.flawAt? g column row = none := by
  constructor
  · rintro ⟨plan, h⟩
    rw [ofArray?_eq_ok_iff] at h
    subst h
    refine ⟨plan.aligned, plan.blocks.size_toArray, fun column row hc hr => ?_⟩
    exact ⟨_, plan.getElem?_blocks ⟨column, hc⟩ ⟨row, hr⟩,
      plan.flawAt?_block ⟨column, hc⟩ ⟨row, hr⟩⟩
  · rintro ⟨aligned, size, h⟩
    refine ⟨⟨⟨blocks, size⟩, aligned, fun ⟨i, hi⟩ => ?_⟩, ofArray?_eq_ok_iff.2 rfl⟩
    obtain ⟨hc, hr⟩ := RowMajor.lt_of_number_lt hi
    obtain ⟨m, hm, hf⟩ := h _ _ hc hr
    rw [Nat.div_add_mod', Array.getElem?_eq_getElem (by rwa [size])] at hm
    cases hm
    exact hf

theorem borderFlaw?_blockAlong (across : Fin (g.count (l.lineCount o)))
    (along : Fin (g.count (l.lineLength o))) :
    (plan.blockAlong o across along).borderFlaw? g (o.cell across.val along.val).2
      (o.cell across.val along.val).1 = none := by
  cases o
  · exact (BlockEdges.flawAt?_eq_none_iff.1 (plan.flawAt?_block along across)).2
  · exact (BlockEdges.flawAt?_eq_none_iff.1 (plan.flawAt?_block across along)).2

theorem edgesOn_fits (i : Fin (l.lineCount o)) :
    ∀ e ∈ plan.edgesOn table o i, e.Fits (l.lineLength o) := by
  intro e he
  obtain ⟨along, -, he⟩ := List.mem_flatMap.1 he
  exact BlockEdges.edgesOn_fits (plan.borderFlaw?_blockAlong _ along)
    (plan.aligned.lineLength o) i e he

theorem exists_filtered (table : LevelTable) (o : Orientation) (p : Plane l) :
    ∃ q, Filtered o (plan.edgesOn table o) p q :=
  Filtered.exists_of_fits plan.edgesOn_fits p

variable {plan}

/-- Nothing but the cut of the plane can stop a pass. -/
theorem pass_eq {p q : Plane l} (h : Filtered o (plan.edgesOn table o) p q) :
    plan.pass table o p = (do requireCut l g o; return q) := by
  cases hc : requireCut l g o with
  | error f =>
    unfold pass
    rw [hc]
    rfl
  | ok => exact plan.pass_eq_ok_iff.2 ⟨hc, h⟩

theorem requireCut_vertical (h : 0 < l.width) : requireCut l g .vertical = .ok () :=
  requireCut_eq_ok_iff.2 ⟨Layout.stride_ne_zero h, nofun⟩

/-- Four superblocks on a plane that ends four samples into the last ones, with wide edges at both
seams. -/
def corner : EdgePlan (.owned 44 44 0) .sparse where
  blocks :=
    #v[{ BlockEdges.uniform 32 with inner := 1 },
      { BlockEdges.uniform 32 with left := ⟨1, 0, 0⟩, inner := 1 },
      { BlockEdges.uniform 63 with above := ⟨1, 0, 0⟩, inner := 1 },
      { BlockEdges.uniform 63 with left := ⟨1, 0, 0⟩, above := ⟨1, 0, 0⟩ }]
  aligned := by decide
  accepted := by decide

theorem requireCut_corner : requireCut (.owned 44 44 0) .sparse o = .ok () :=
  requireCut_eq_ok_iff.2 ⟨by decide, fun _ => by decide⟩

variable {blocks : Array BlockEdges}

theorem deblockPass_eq (accepted : ofArray? l g blocks = .ok plan) {p q : Plane l}
    (h : Filtered o (plan.edgesOn table o) p q) :
    deblockPass g blocks table o p = Outcome.ofChecked (do requireCut l g o; return q) := by
  rw [← pass_eq h, deblockPass, accepted]
  rfl

theorem passes_eq {p q r : Plane l} (hv : Filtered .vertical (plan.edgesOn table .vertical) p q)
    (hh : Filtered .horizontal (plan.edgesOn table .horizontal) q r) :
    plan.passes table p =
      (do requireCut l g .vertical; requireCut l g .horizontal; return r) := by
  rw [passes, pass_eq hv, ← pass_eq hh]
  cases requireCut l g .vertical <;> rfl

theorem deblockPlane_eq_of_cuts (accepted : ofArray? l g blocks = .ok plan) {p q r : Plane l}
    (hv : Filtered .vertical (plan.edgesOn table .vertical) p q)
    (hh : Filtered .horizontal (plan.edgesOn table .horizontal) q r) :
    deblockPlane g blocks table p =
      Outcome.ofChecked (do requireCut l g .vertical; requireCut l g .horizontal; return r) := by
  rw [← passes_eq hv hh, deblockPlane, accepted]
  rfl

theorem deblockPlane_eq (accepted : ofArray? l g blocks = .ok plan) (hw : 0 < l.width)
    {p q r : Plane l} (hv : Filtered .vertical (plan.edgesOn table .vertical) p q)
    (hh : Filtered .horizontal (plan.edgesOn table .horizontal) q r) :
    deblockPlane g blocks table p =
      Outcome.ofChecked (do requireCut l g .horizontal; return r) := by
  rw [deblockPlane_eq_of_cuts accepted hv hh, requireCut_vertical hw]
  rfl

end EdgePlan

end BlockVideo
