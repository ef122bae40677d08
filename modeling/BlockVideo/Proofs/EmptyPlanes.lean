import BlockVideo.Proofs.Answered
import BlockVideo.Proofs.Superblocks

/-!
# Planes without samples

A plane without columns or without rows has no superblocks. It is accepted with an empty list of
edges, and no edge of it is filtered. What is left of a pass is the cut of the plane, and that is
all that can go wrong (`deblock_empty`): rows that start zero samples apart are not cut, and lanes
are listed even where they have no rows. Calls for the superblocks of such a plane, of which there
are none, cut nothing and leave every plane as it is.
-/

namespace BlockVideo

variable {l : Layout}

theorem Plane.AgreeOff.eq_of_empty {p q : Plane l} (h : p.AgreeOff q)
    (empty : l.width = 0 ∨ l.height = 0) : p = q := by
  refine Plane.ext_get (fun x y => ?_) h
  have := x.isLt
  have := y.isLt
  omega

/-- A plane without samples has no superblocks, and is accepted with an empty list of edges. Calls
for its superblocks leave it as it is. So do both passes and the deblocking of the plane, unless its
rows start zero samples apart, or it has no rows and more lanes than a list can hold. -/
theorem deblock_empty (aligned : l.Aligned) (empty : l.width = 0 ∨ l.height = 0) (g : EdgeGrid)
    (table : LevelTable) (p : Plane l) :
    g.columns l * g.rows l = 0 ∧
    (∃ plan : EdgePlan l g, EdgePlan.ofArray? l g #[] = .ok plan ∧
      ∀ o order, deblockSuperblocks plan table o order p = .ok p) ∧
    (∀ o, deblockPass g #[] table o p =
      if l.stride = 0 then .error (.fault .emptyStride)
      else if o = .horizontal ∧ Capacity.limit < g.columns l * EdgePlan.listBytes then
        .error (.fault (.tooLarge (g.columns l) EdgePlan.listBytes))
      else .ok p) ∧
    deblockPlane g #[] table p =
      if l.stride = 0 then .error (.fault .emptyStride)
      else if Capacity.limit < g.columns l * EdgePlan.listBytes then
        .error (.fault (.tooLarge (g.columns l) EdgePlan.listBytes))
      else .ok p := by
  have accepted := EdgePlan.ofArray?_noBlocks (g := g) aligned empty
  have same (o : Orientation) :
      Filtered o ((EdgePlan.noBlocks (g := g) aligned empty).edgesOn table o) p p := by
    obtain ⟨q, hq⟩ := (EdgePlan.noBlocks (g := g) aligned empty).exists_filtered table o p
    rwa [← hq.off.eq_of_empty empty] at hq
  refine ⟨EdgeGrid.no_blocks empty, ⟨_, accepted, fun o order => ?_⟩, fun o => ?_, ?_⟩
  · cases order with
    | nil => rfl
    | cons s _ =>
      have number := RowMajor.number_lt_mul s.2.isLt s.1.isLt
      exact absurd (EdgeGrid.no_blocks empty) (Nat.ne_of_gt (Nat.zero_lt_of_lt number))
  · rw [EdgePlan.deblockPass_eq accepted (same o), EdgePlan.requireCut_eq]
    split
    · rfl
    · split <;> rfl
  · rw [EdgePlan.deblockPlane_eq_of_cuts accepted (same _) (same _), EdgePlan.requireCut_eq,
      EdgePlan.requireCut_eq]
    split
    · rfl
    · simp only [reduceCtorEq, false_and, true_and, if_false]
      split <;> rfl

/-- A plane of eight empty rows, in a border of two samples. -/
theorem deblock_empty_framed :
    (Layout.owned 0 8 2).Aligned ∧ ((Layout.owned 0 8 2).width = 0 ∨
      (Layout.owned 0 8 2).height = 0) ∧
    ∀ p : Plane (.owned 0 8 2), (∀ o, deblockPass .luma #[] .standard o p = .ok p) ∧
      deblockPlane .luma #[] .standard p = .ok p := by
  have aligned : (Layout.owned 0 8 2).Aligned := by decide
  refine ⟨aligned, .inl rfl, fun p => ?_⟩
  obtain ⟨-, -, pass, plane⟩ := deblock_empty aligned (.inl rfl) .luma .standard p
  refine ⟨fun o => (pass o).trans ?_, plane⟩
  cases o <;> rfl

/-- Without the border, its rows start zero samples apart. It is accepted, and then not cut. -/
theorem deblock_unframed_eq_fault :
    (Layout.owned 0 8 0).Aligned ∧ (Layout.owned 0 8 0).width = 0 ∧
    (∃ plan : EdgePlan (.owned 0 8 0) .luma, EdgePlan.ofArray? _ _ #[] = .ok plan) ∧
    (∀ o, deblockPass .luma #[] .standard o (.constant (.owned 0 8 0) 1) =
      .error (.fault .emptyStride)) ∧
    deblockPlane .luma #[] .standard (.constant (.owned 0 8 0) 1) =
      .error (.fault .emptyStride) := by
  have aligned : (Layout.owned 0 8 0).Aligned := by decide
  refine ⟨aligned, rfl, ⟨_, EdgePlan.ofArray?_noBlocks aligned (.inl rfl)⟩, fun o => ?_, rfl⟩
  cases o <;> rfl

end BlockVideo
