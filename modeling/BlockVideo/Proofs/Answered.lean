import BlockVideo.Proofs.Requests

/-!
# Deblocking answers

A request is answered when it ends with a result or with a refusal, and not with a fault. Once the
checks pass, all that a superblock asks for can be done: filters stay on their lines, and every
position, level and entry of the table is there to be looked up (`BlockEdges.InRange`). So
deblocking a plane that has columns is answered whatever edges it is given, with one exception: a
plane can be so wide that there is no room for the list of its lanes (`deblock_fault_iff`).
-/

namespace BlockVideo

variable {l : Layout} {g : EdgeGrid} {table : LevelTable} {o : Orientation}

/-! ## What the checks promise -/

/-- What superblock (`column`, `row`) of a plane asks for can be done. -/
structure BlockEdges.InRange (m : BlockEdges) (l : Layout) (g : EdgeGrid) (table : LevelTable)
    (o : Orientation) (column row : Nat) : Prop where
  /-- The filter of every edge on every line sees samples of that line only. -/
  fits : ∀ i, ∀ e ∈ m.edgesOn g table o (o.cell row column).1 (o.cell row column).2 i
    (l.lineLength o), e.Fits (l.lineLength o)
  /-- Every position has a bit in the sets of positions. -/
  bit : ∀ r c : Fin g.steps, g.bit r c < 64
  /-- Every position has a level. -/
  levelIndex : ∀ r c : Fin g.steps, g.levelIndex r c < 64
  /-- The level of every position with an edge is one of the table. -/
  found : ∀ r c : Fin g.steps, m.used.has (g.bit r c) = true →
    table.get? (m.level g r c).toNat = .ok (table.entry (m.level g r c))

theorem BlockEdges.inRange {m : BlockEdges} {column row : Nat} (aligned : l.Aligned)
    (accepted : m.flawAt? g column row = .none) : m.InRange l g table o column row := by
  obtain ⟨flaw, border⟩ := flawAt?_eq_none_iff.1 accepted
  refine ⟨fun i => edgesOn_fits ?_ (aligned.lineLength o) i,
    fun r c => EdgeGrid.bit_lt r.isLt c.isLt,
    fun r c => EdgeGrid.levelIndex_lt r.isLt c.isLt, fun r c => get?_level flaw⟩
  cases o
  · exact border
  · exact border

/-! ## Answers -/

theorem BlockEdges.filterLines_total {m : BlockEdges} {column row : Nat}
    (flaw : superblockFlaw? l g m column row = .none) (table : LevelTable) (p : Plane l) :
    ∃ q, m.filterLines g table o (o.cell row column).1 (o.cell row column).2 (Nat.le_refl _) p =
      .ok q := by
  obtain ⟨aligned, -, -, accepted⟩ := superblockFlaw?_eq_none_iff.1 flaw
  have inRange : m.InRange l g table o column row := BlockEdges.inRange aligned accepted
  obtain ⟨q, hq⟩ := Filtered.exists_of_fits (fun i => inRange.fits i) p
  exact ⟨q, (m.filterLines_eq_ok_iff _ rfl).2 hq⟩

theorem deblockSuperblock_answered (m : BlockEdges) (table : LevelTable) (o : Orientation)
    (column row : Nat) (p : Plane l) :
    (deblockSuperblock g m table o column row p).Answered :=
  .unlessFlawed fun flaw => .ofChecked (BlockEdges.filterLines_total flaw table p)

namespace EdgePlan

/-- How the cut of a plane ends. A plane whose rows start zero samples apart has no columns, so
there is always room for its lanes. -/
theorem requireCut_eq :
    requireCut l g o =
      if l.stride = 0 then .error .emptyStride
      else if o = .horizontal ∧ Capacity.limit < g.columns l * listBytes then
        .error (.tooLarge (g.columns l) listBytes)
      else .ok () := by
  by_cases stride : l.stride = 0
  · have columns : g.columns l * listBytes ≤ Capacity.limit := by
      have line := l.line_le_stride
      have width : l.width = 0 := by omega
      rw [EdgeGrid.columns, width, EdgeGrid.count_zero, Nat.zero_mul]
      exact Nat.zero_le _
    have starts : l.rowStarts = .error .emptyStride := if_pos stride
    rw [if_pos stride, requireCut, starts]
    cases o
    · rfl
    · rw [if_pos rfl, Capacity.require_eq_ok_iff.2 columns]
      rfl
  · rw [if_neg stride]
    split
    · next many =>
      rw [requireCut, if_pos many.1, Capacity.require, if_neg (Nat.not_le.2 many.2)]
      rfl
    · next few =>
      exact requireCut_eq_ok_iff.2 ⟨stride, fun h => Nat.le_of_not_lt fun many => few ⟨h, many⟩⟩

theorem requireCut_eq_error_iff (hw : 0 < l.width) {f : Fault} :
    requireCut l g o = .error f ↔
      o = .horizontal ∧ Capacity.limit < g.columns l * listBytes ∧
        f = .tooLarge (g.columns l) listBytes := by
  rw [requireCut_eq, if_neg (Layout.stride_ne_zero hw)]
  split
  · next many =>
    simp only [many.1, many.2, true_and, Except.error.injEq]
    exact eq_comm
  · next few => exact iff_of_false nofun fun h => few ⟨h.1, h.2.1⟩

variable {plan : EdgePlan l g}

theorem pass_eq_error_iff {p : Plane l} {f : Fault} :
    plan.pass table o p = .error f ↔ requireCut l g o = .error f := by
  obtain ⟨q, hq⟩ := plan.exists_filtered table o p
  rw [pass_eq hq]
  cases requireCut l g o <;> simp [bind, Except.bind, pure, Except.pure]

theorem passes_eq_error_iff (hw : 0 < l.width) {p : Plane l} {f : Fault} :
    plan.passes table p = .error f ↔ requireCut l g .horizontal = .error f := by
  obtain ⟨q, hq⟩ := plan.exists_filtered table .vertical p
  have first : plan.pass table .vertical p = .ok q :=
    plan.pass_eq_ok_iff.2 ⟨requireCut_vertical hw, hq⟩
  rw [passes, first]
  exact plan.pass_eq_error_iff (p := q)

end EdgePlan

theorem deblockPass_eq_fault_iff (hw : 0 < l.width) {blocks : Array BlockEdges} {p : Plane l}
    {f : Fault} :
    deblockPass g blocks table o p = .error (.fault f) ↔
      (∃ plan, EdgePlan.ofArray? l g blocks = .ok plan) ∧ o = .horizontal ∧
        Capacity.limit < g.columns l * EdgePlan.listBytes ∧
        f = .tooLarge (g.columns l) EdgePlan.listBytes := by
  rw [deblockPass, Outcome.ofExcept_bind_eq_fault_iff]
  simp only [Outcome.ofChecked_eq_fault_iff, EdgePlan.pass_eq_error_iff,
    EdgePlan.requireCut_eq_error_iff hw, exists_and_right]

theorem deblockPlane_eq_fault_iff (hw : 0 < l.width) {blocks : Array BlockEdges} {p : Plane l}
    {f : Fault} :
    deblockPlane g blocks table p = .error (.fault f) ↔
      (∃ plan, EdgePlan.ofArray? l g blocks = .ok plan) ∧
        Capacity.limit < g.columns l * EdgePlan.listBytes ∧
        f = .tooLarge (g.columns l) EdgePlan.listBytes := by
  rw [deblockPlane, Outcome.ofExcept_bind_eq_fault_iff]
  simp only [Outcome.ofChecked_eq_fault_iff, EdgePlan.passes_eq_error_iff hw,
    EdgePlan.requireCut_eq_error_iff hw, exists_and_right, true_and]

/-- Deblocking a plane that has columns is answered. Only the pass over horizontal edges can meet a
fault, and only one: with accepted edges, when there is no room for a list of the lanes. Accepted
edges are in range, on their own and as those of a whole plane. -/
theorem deblock_fault_iff (hw : 0 < l.width) (g : EdgeGrid) (table : LevelTable) (p : Plane l) :
    (∀ m o column row, (deblockSuperblock g m table o column row p).Answered) ∧
    (∀ blocks o f, deblockPass g blocks table o p = .error (.fault f) ↔
      (∃ plan, EdgePlan.ofArray? l g blocks = .ok plan) ∧ o = .horizontal ∧
        Capacity.limit < g.columns l * EdgePlan.listBytes ∧
        f = .tooLarge (g.columns l) EdgePlan.listBytes) ∧
    (∀ blocks f, deblockPlane g blocks table p = .error (.fault f) ↔
      (∃ plan, EdgePlan.ofArray? l g blocks = .ok plan) ∧
        Capacity.limit < g.columns l * EdgePlan.listBytes ∧
        f = .tooLarge (g.columns l) EdgePlan.listBytes) ∧
    (∀ m o column row, superblockFlaw? l g m column row = none →
      m.InRange l g table o column row ∧
        ∃ q, deblockSuperblock g m table o column row p = .ok q) ∧
    ∀ blocks plan, EdgePlan.ofArray? l g blocks = .ok plan →
      (∀ (column : Fin (g.columns l)) (row : Fin (g.rows l)),
        row * g.columns l + column < blocks.size ∧
        ∀ o, (plan.block column row).InRange l g table o column row) ∧
      ∀ o i, ∀ e ∈ plan.edgesOn table o i, e.Fits (l.lineLength o) := by
  refine ⟨fun m o column row => deblockSuperblock_answered m table o column row p,
    fun _ _ _ => deblockPass_eq_fault_iff hw, fun _ _ => deblockPlane_eq_fault_iff hw,
    fun m o column row flaw => ?_,
    fun blocks plan accepted => ⟨fun column row => ⟨?_, fun o => ?_⟩, fun o i => ?_⟩⟩
  · obtain ⟨aligned, -, -, accepted⟩ := superblockFlaw?_eq_none_iff.1 flaw
    obtain ⟨q, hq⟩ := BlockEdges.filterLines_total (o := o) flaw table p
    refine ⟨BlockEdges.inRange aligned accepted, q, ?_⟩
    rw [deblockSuperblock, flaw]
    exact Outcome.ofChecked_eq_ok_iff.2 hq
  · rw [← EdgePlan.ofArray?_eq_ok_iff.1 accepted, plan.blocks.size_toArray]
    exact RowMajor.number_lt_mul row.isLt column.isLt
  · exact BlockEdges.inRange plan.aligned (plan.flawAt?_block column row)
  · exact plan.edgesOn_fits i

theorem deblock_corner_answered :
    0 < (Layout.owned 44 44 0).width ∧
    EdgePlan.ofArray? _ _ EdgePlan.corner.blocks.toArray = .ok .corner ∧
    ∀ p : Plane (.owned 44 44 0),
      (deblockPass .sparse EdgePlan.corner.blocks.toArray .standard .horizontal p).Answered ∧
      (deblockPlane .sparse EdgePlan.corner.blocks.toArray .standard p).Answered := by
  have room : ¬ Capacity.limit < EdgeGrid.sparse.columns (.owned 44 44 0) * EdgePlan.listBytes := by
    decide
  refine ⟨by decide, EdgePlan.ofArray?_eq_ok_iff.2 rfl, fun p => ?_⟩
  obtain ⟨-, pass, plane, -⟩ := deblock_fault_iff (by decide) .sparse .standard p
  exact ⟨fun f h => room ((pass _ _ f).1 h).2.2.1, fun f h => room ((plane _ f).1 h).2.1⟩

theorem EdgeGrid.no_blocks (empty : l.width = 0 ∨ l.height = 0) : g.columns l * g.rows l = 0 := by
  rcases empty with h | h
  · rw [columns, h, count_zero, Nat.zero_mul]
  · rw [rows, h, count_zero, Nat.mul_zero]

def EdgePlan.noBlocks (aligned : l.Aligned) (empty : l.width = 0 ∨ l.height = 0) :
    EdgePlan l g where
  blocks := ⟨#[], (EdgeGrid.no_blocks empty).symm⟩
  aligned := aligned
  accepted := fun i =>
    absurd (Nat.lt_of_lt_of_eq i.isLt (EdgeGrid.no_blocks empty)) (Nat.not_lt_zero i.val)

theorem EdgePlan.ofArray?_noBlocks (aligned : l.Aligned) (empty : l.width = 0 ∨ l.height = 0) :
    ofArray? l g #[] = .ok (noBlocks aligned empty) :=
  ofArray?_eq_ok_iff.2 rfl

/-- A plane of 2^64 - 64 columns and no rows. -/
def Layout.endless : Layout := .owned 18446744073709551552 0 0

/-- It has no superblocks, but too many lanes. -/
theorem deblockPlane_endless_eq_fault :
    0 < Layout.endless.width ∧
    deblockPlane .chroma #[] .standard (.constant .endless 0) =
      .error (.fault (.tooLarge 576460752303423486 24)) := by
  have accepted := EdgePlan.ofArray?_noBlocks (l := .endless) (g := .chroma) (by decide) (.inr rfl)
  have columns : EdgeGrid.chroma.columns .endless = 576460752303423486 := by decide
  refine ⟨by decide, (deblockPlane_eq_fault_iff (by decide)).2 ⟨⟨_, accepted⟩, ?_⟩⟩
  rw [columns]
  exact ⟨by decide, rfl⟩

end BlockVideo
