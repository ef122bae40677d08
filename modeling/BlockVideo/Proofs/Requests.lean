import BlockVideo.Proofs.PlanFits

/-!
# Requested edges

What a list of superblocks asks for, line by line and without a loop. Line `i` meets one position of
every superblock along it and step; a position asks for an edge where it starts when it has a width,
and for a narrow one in its middle when it is an inner position, as far as the line reaches
(`EdgePlan.Requests`).

Deblocking filters exactly the requested edges, each once, and those of a line from its start to its
end (`deblockPlane_eq_requests`).
-/

namespace BlockVideo

variable {l : Layout} {g : EdgeGrid} {table : LevelTable} {o : Orientation}

/-! ## Edges in order -/

namespace BlockEdges

variable {m : BlockEdges} {length : Nat}

theorem position_of_mem_edgesAt {across step : Fin g.steps} {position : Nat} {e : Edge}
    (h : e ∈ m.edgesAt g table o across step position length) :
    position ≤ e.position ∧ e.position < position + EdgeGrid.spacing := by
  obtain ⟨-, ⟨w, -, rfl⟩ | ⟨-, -, rfl⟩⟩ := mem_edgesAt.1 h <;>
    simp only [innerOffset, EdgeGrid.spacing] <;> omega

theorem edgesAt_ascending (across step : Fin g.steps) (position : Nat) :
    (m.edgesAt g table o across step position length).Pairwise (·.position < ·.position) := by
  unfold edgesAt
  simp only
  split
  · exact List.Pairwise.nil
  · refine List.pairwise_append.2 ⟨?_, ?_, fun e he f hf => ?_⟩
    · split
      · exact List.pairwise_singleton ..
      · exact List.Pairwise.nil
    · split
      · exact List.pairwise_singleton ..
      · exact List.Pairwise.nil
    · have hf : f.position = position + innerOffset := by
        split at hf
        · rw [List.mem_singleton.1 hf]
        · exact absurd hf List.not_mem_nil
      have he : e.position = position := by
        split at he
        · rw [List.mem_singleton.1 he]
        · exact absurd he List.not_mem_nil
      rw [he, hf]
      exact Nat.lt_add_of_pos_right (by decide)

theorem position_of_mem_edgesAlong {across : Fin g.steps} {along : Nat} {e : Edge}
    (h : e ∈ m.edgesAlong g table o across along length) :
    along * g.blockDim ≤ e.position ∧ e.position < (along + 1) * g.blockDim := by
  obtain ⟨step, -, h⟩ := List.mem_flatMap.1 h
  have hp := position_of_mem_edgesAt h
  have := step.isLt
  have := g.span_le
  rw [Nat.succ_mul]
  simp only [EdgeGrid.spacing] at hp
  omega

theorem edgesAlong_ascending (across : Fin g.steps) (along : Nat) :
    (m.edgesAlong g table o across along length).Pairwise (·.position < ·.position) := by
  refine List.pairwise_flatMap.2 ⟨fun step _ => edgesAt_ascending across step _, ?_⟩
  refine (List.pairwise_lt_finRange _).imp fun {a b} hab e he f hf => ?_
  have he := position_of_mem_edgesAt he
  have hf := position_of_mem_edgesAt hf
  simp only [EdgeGrid.spacing] at he hf
  omega

/-! ## What well-formed edges mean -/

theorem has_used_of_withWidth {w : EdgeWidth} {i : Nat}
    (h : ((m.edges o).withWidth w).has i = true) : m.used.has i = true :=
  has_used.2 (.inl ⟨o, w, h⟩)

theorem has_used_of_inner {i : Nat} (h : m.inner.has i = true) : m.used.has i = true :=
  has_used.2 (.inr h)

theorem get?_level (h : m.flaw? g = .none) {row col : Fin g.steps}
    (hu : m.used.has (g.bit row col) = true) :
    table.get? (m.level g row col).toNat = .ok (table.entry (m.level g row col)) :=
  table.get?_eq_entry _ ((flaw?_eq_none_iff.1 h).2.2 row col hu)

end BlockEdges

/-- On lines of whole 4x4 blocks only wide edges give way. -/
theorem EdgeWidth.fit_eq (w : EdgeWidth) {position length : Nat} (hp : 8 ∣ position)
    (hl : length % 4 = 0) (h : position < length) :
    w.fit position length = if w = .wide ∧ length < position + 8 then .medium else w := by
  have core : ¬ length < position + 4 := by omega
  cases w with
  | narrow => exact (if_neg core).trans (if_neg (by simp)).symm
  | medium => exact (if_neg core).trans (if_neg (by simp)).symm
  | wide =>
    rw [fit]
    exact if_congr (and_iff_right rfl).symm rfl rfl

namespace EdgePlan

variable (plan : EdgePlan l g)

theorem mem_edgesOn {i : Fin (l.lineCount o)} {e : Edge} :
    e ∈ plan.edgesOn table o i ↔
      ∃ (across : Fin g.steps) (along : Fin (g.count (l.lineLength o))),
        i % g.blockDim / EdgeGrid.spacing = across ∧
          e ∈ (plan.blockOn o i along).edgesAlong g table o across along (l.lineLength o) := by
  simp only [edgesOn, BlockEdges.edgesOn_div, List.mem_flatMap, List.mem_finRange, true_and]
  constructor
  · rintro ⟨along, he⟩
    split at he
    · next h => exact ⟨⟨_, h⟩, along, rfl, he⟩
    · exact absurd he List.not_mem_nil
  · rintro ⟨⟨_, h⟩, along, rfl, he⟩
    exact ⟨along, by rw [dif_pos h]; exact he⟩

theorem edgesOn_ascending (i : Fin (l.lineCount o)) :
    (plan.edgesOn table o i).Pairwise (·.position < ·.position) := by
  simp only [edgesOn, BlockEdges.edgesOn_div]
  refine List.pairwise_flatMap.2 ⟨fun along _ => ?_, ?_⟩
  · split
    · exact BlockEdges.edgesAlong_ascending _ along
    · exact List.Pairwise.nil
  · refine (List.pairwise_lt_finRange _).imp fun {a b} hab e he f hf => ?_
    split at he
    · next h =>
      rw [dif_pos h] at hf
      have he := (BlockEdges.position_of_mem_edgesAlong he).2
      have hf := (BlockEdges.position_of_mem_edgesAlong hf).1
      have := Nat.mul_le_mul_right g.blockDim (Nat.succ_le_of_lt (Fin.lt_def.1 hab))
      exact Nat.lt_of_lt_of_le he (Nat.le_trans this hf)
    · exact absurd he List.not_mem_nil

/-! ## Requests -/

/-- Edge `e` is asked for on line `i`. -/
inductive Requests (table : LevelTable) (o : Orientation) (i : Fin (l.lineCount o)) : Edge → Prop
  /-- A position asks for an edge where it starts, of the width in whose set it is. With fewer than
  eight samples left a wide edge becomes a medium one. -/
  | main {across step : Fin g.steps} {along : Fin (g.count (l.lineLength o))} {position : Nat}
      {w : EdgeWidth} {thresholds : Thresholds}
      (meets : i % g.blockDim / EdgeGrid.spacing = across)
      (starts : position = along * g.blockDim + EdgeGrid.spacing * step)
      (inside : position < l.lineLength o)
      (asked : (((plan.blockOn o i along).edges o).withWidth w).has
        (g.bit (o.cell across step).1 (o.cell across step).2) = true)
      (found : table.get?
        ((plan.blockOn o i along).level g (o.cell across step).1 (o.cell across step).2).toNat =
          .ok thresholds) :
      Requests table o i
        ⟨position, if w = .wide ∧ l.lineLength o < position + 8 then .medium else w, thresholds⟩
  /-- An inner position asks for a narrow edge in its middle as well. -/
  | inner {across step : Fin g.steps} {along : Fin (g.count (l.lineLength o))} {position : Nat}
      {thresholds : Thresholds}
      (meets : i % g.blockDim / EdgeGrid.spacing = across)
      (starts : position = along * g.blockDim + EdgeGrid.spacing * step)
      (inside : position + 4 < l.lineLength o)
      (asked : (plan.blockOn o i along).inner.has
        (g.bit (o.cell across step).1 (o.cell across step).2) = true)
      (found : table.get?
        ((plan.blockOn o i along).level g (o.cell across step).1 (o.cell across step).2).toNat =
          .ok thresholds) :
      Requests table o i ⟨position + 4, .narrow, thresholds⟩

theorem flaw?_blockOn (i : Fin (l.lineCount o)) (along : Fin (g.count (l.lineLength o))) :
    (plan.blockOn o i along).flaw? g = none := by
  cases o
  · exact (BlockEdges.flawAt?_eq_none_iff.1 (plan.flawAt?_block along _)).1
  · exact (BlockEdges.flawAt?_eq_none_iff.1 (plan.flawAt?_block _ along)).1

/-- The edges of a plan are the ones that its superblocks ask for. -/
theorem mem_edgesOn_iff {i : Fin (l.lineCount o)} {e : Edge} :
    e ∈ plan.edgesOn table o i ↔ plan.Requests table o i e := by
  rw [mem_edgesOn]
  have flaw := plan.flaw?_blockOn i
  -- without overlaps, the width that a position has is the one that is asked for
  have overlaps along := (BlockEdges.flaw?_eq_none_iff.1 (flaw along)).1 o
  have aligned := plan.aligned.lineLength o
  constructor
  · rintro ⟨across, along, meets, he⟩
    obtain ⟨step, -, he⟩ := List.mem_flatMap.1 he
    obtain ⟨inside, ⟨w, hw, rfl⟩ | ⟨asked, inside, rfl⟩⟩ := BlockEdges.mem_edgesAt.1 he
    · have asked := (EdgeMap.widthAt_eq_some_iff (overlaps along)).1 hw
      rw [EdgeWidth.fit_eq w (BlockEdges.position_dvd ..) aligned inside]
      exact .main meets rfl inside asked
        (BlockEdges.get?_level (flaw along) (BlockEdges.has_used_of_withWidth asked))
    · exact .inner meets rfl inside asked
        (BlockEdges.get?_level (flaw along) (BlockEdges.has_used_of_inner asked))
  · rintro (@⟨across, step, along, position, w, t, meets, rfl, inside, asked, found⟩ |
      @⟨across, step, along, position, t, meets, rfl, inside, asked, found⟩)
    · rw [BlockEdges.get?_level (flaw along) (BlockEdges.has_used_of_withWidth asked)] at found
      cases found
      rw [← EdgeWidth.fit_eq w (BlockEdges.position_dvd ..) aligned inside]
      refine ⟨across, along, meets, List.mem_flatMap.2 ⟨step, List.mem_finRange _, ?_⟩⟩
      exact BlockEdges.mem_edgesAt.2
        ⟨inside, .inl ⟨w, (EdgeMap.widthAt_eq_some_iff (overlaps along)).2 asked, rfl⟩⟩
    · rw [BlockEdges.get?_level (flaw along) (BlockEdges.has_used_of_inner asked)] at found
      cases found
      refine ⟨across, along, meets, List.mem_flatMap.2 ⟨step, List.mem_finRange _, ?_⟩⟩
      exact BlockEdges.mem_edgesAt.2 ⟨by omega, .inr ⟨asked, inside, rfl⟩⟩

end EdgePlan

/-! ## The flat reference -/

/-- Filters the edges given for a line, for one line that meets edge positions after the other. -/
def filterLineByLine (g : EdgeGrid) (o : Orientation) (edges : Fin (l.lineCount o) → List Edge)
    (p : Plane l) : Checked (Plane l) :=
  ((List.finRange (l.lineCount o)).filter fun i => i.val % g.blockDim < 8 * g.steps).foldlM
    (fun q i => q.editLine o i (Edge.applyAll (edges i))) p

theorem filterLineByLine_eq_ok_iff {edges : Fin (l.lineCount o) → List Edge}
    (h : ∀ i, ¬ i.val % g.blockDim < 8 * g.steps → edges i = []) {p q : Plane l} :
    filterLineByLine g o edges p = .ok q ↔ Filtered o edges p q := by
  rw [filterLineByLine, Filtered.foldlM_eq_ok_iff fun _ _ _ _ => Plane.editLine_eq_ok_iff]
  apply iff_of_eq
  congr 1
  funext i
  by_cases hi : i.val % g.blockDim < 8 * g.steps
  · rw [flatMap_eq_of_unique ((List.nodup_finRange _).filter _)
      (List.mem_filter.2 ⟨List.mem_finRange i, decide_eq_true hi⟩)]
    · exact if_pos rfl
    · exact fun k hk => if_neg (Ne.symm hk)
  · rw [h i hi]
    refine List.flatMap_eq_nil_iff.2 fun k hk => ?_
    split
    · next e => rw [← e, h i hi]
    · rfl

/-- Deblocking a plane filters the requested edges of each row, from left to right, and then those
of each column, from top to bottom. -/
theorem deblockPlane_eq_requests {blocks : Array BlockEdges} {plan : EdgePlan l g}
    (accepted : EdgePlan.ofArray? l g blocks = .ok plan) (hw : 0 < l.width) (table : LevelTable)
    (p : Plane l) :
    ∃ edges : (o : Orientation) → Fin (l.lineCount o) → List Edge,
      (∀ o i, (edges o i).Pairwise (·.position < ·.position) ∧
        ∀ e, e ∈ edges o i ↔ plan.Requests table o i e) ∧
      ∃ q r, filterLineByLine g .vertical (edges .vertical) p = .ok q ∧
        filterLineByLine g .horizontal (edges .horizontal) q = .ok r ∧
        deblockPlane g blocks table p =
          Outcome.ofChecked (do EdgePlan.requireCut l g .horizontal; return r) := by
  have outside : ∀ o i, ¬ i.val % g.blockDim < 8 * g.steps → plan.edgesOn table o i = [] := by
    intro o i hi
    refine List.flatMap_eq_nil_iff.2 fun along _ => ?_
    rw [BlockEdges.edgesOn_div, dif_neg]
    simp only [EdgeGrid.spacing]
    omega
  obtain ⟨q, hv⟩ := plan.exists_filtered table .vertical p
  obtain ⟨r, hh⟩ := plan.exists_filtered table .horizontal q
  exact ⟨plan.edgesOn table, fun o i => ⟨plan.edgesOn_ascending i, fun e => plan.mem_edgesOn_iff⟩,
    q, r, (filterLineByLine_eq_ok_iff (outside _)).2 hv,
    (filterLineByLine_eq_ok_iff (outside _)).2 hh, EdgePlan.deblockPlane_eq accepted hw hv hh⟩

theorem deblockPlane_corner_eq_requests :
    EdgePlan.ofArray? _ _ EdgePlan.corner.blocks.toArray = .ok .corner ∧
    0 < (Layout.owned 44 44 0).width ∧
    ∃ edges : (o : Orientation) → Fin ((Layout.owned 44 44 0).lineCount o) → List Edge,
      (∀ o i, (edges o i).Pairwise (·.position < ·.position) ∧
        ∀ e, e ∈ edges o i ↔ EdgePlan.corner.Requests .standard o i e) ∧
      ∃ q r, filterLineByLine .sparse .vertical (edges .vertical) (.constant _ 7) = .ok q ∧
        filterLineByLine .sparse .horizontal (edges .horizontal) q = .ok r ∧
        deblockPlane .sparse EdgePlan.corner.blocks.toArray .standard (.constant _ 7) =
          Outcome.ofChecked (do
            EdgePlan.requireCut (.owned 44 44 0) .sparse .horizontal
            return r) :=
  have accepted := EdgePlan.ofArray?_eq_ok_iff.2 rfl
  ⟨accepted, by decide,
    deblockPlane_eq_requests accepted (by decide) .standard (.constant _ 7)⟩

end BlockVideo
