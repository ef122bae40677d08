import BlockVideo.Proofs.FilterFormula
import BlockVideo.Proofs.Requests

/-!
# What deblocking leaves alone

A filter sees more samples than it changes: at most two, three or seven on each side of its edge,
by its width (`EdgeWidth.margin`). So a sample keeps its value when it is nearer than that to none
of the edges on its row and on its column. That holds for one edge (`Edge.apply_keeps`), hence for
the edges of a line in turn, for a pass, and for both passes (`deblockPlane_keeps`). Samples that
are not visible are never changed.
-/

namespace BlockVideo

/-- Samples on each side of an edge that a filter can change. -/
def EdgeWidth.margin : EdgeWidth → Nat
  | narrow => 2
  | medium => 3
  | wide => 7

theorem EdgeWidth.margin_lt_reach (w : EdgeWidth) : w.margin < w.reach := by cases w <;> decide

theorem EdgeWidth.margin_le (w : EdgeWidth) : w.margin ≤ 7 := by cases w <;> decide

/-- Sample `j` is so near to the edge that filtering it can change the sample. -/
def Edge.Touches (e : Edge) (j : Nat) : Prop :=
  e.position ≤ j + e.width.margin ∧ j < e.position + e.width.margin

instance (e : Edge) (j : Nat) : Decidable (e.Touches j) := inferInstanceAs (Decidable (_ ∧ _))

/-! ## Edges of a line -/

theorem Around.filtered_of_far (s : Around) {w : EdgeWidth} (t : Thresholds) {z : Int}
    (far : ¬ (-w.margin ≤ z ∧ z < w.margin)) : s.filtered w t z = s z := by
  have far2 : ¬ (-2 ≤ z ∧ z < 2) := by
    cases w <;> simp only [EdgeWidth.margin] at far <;> omega
  unfold filtered
  split
  · rfl
  · split
    · next wide =>
      rw [wide.1] at far
      exact if_neg far
    · split
      · next notNarrow =>
        refine if_neg ?_
        have := notNarrow.1
        cases w <;> simp only [EdgeWidth.margin] at far
        · contradiction
        · omega
        · omega
      · simp only [correct]
        rw [if_neg (by omega), if_neg (by omega), if_neg (by omega), if_neg (by omega)]

namespace Edge

variable {n : Nat}

theorem fits_of_apply {e : Edge} {line v : Vector UInt8 n} (h : e.apply line = .ok v) :
    e.Fits n := by
  unfold apply at h
  split at h
  · next before =>
    obtain ⟨around, hw, -⟩ := bind_eq_ok_iff.1 h
    have := Run.window_isOk_iff.1 ⟨around, hw⟩
    exact ⟨before, by omega⟩
  · cases h

theorem apply_on {e : Edge} {s : Around} {line : Vector UInt8 n} (h : s.On line (-e.position))
    (fits : e.Fits n) :
    ∃ v, e.apply line = .ok v ∧ (s.filtered e.width e.thresholds).On v (-e.position) := by
  have before := fits.before
  have behind := fits.behind
  have place : -(e.position : Int) + (e.position - e.width.reach : Nat) = -e.width.reach := by omega
  obtain ⟨around, hw, on⟩ := h.window (k := 2 * e.width.reach) (by omega) place
  obtain ⟨part, hp, onPart⟩ := EdgeFilter.filter_on on (Nat.le_refl _) e.thresholds
  simp only [apply, if_pos before, hw, hp, bind, Except.bind]
  refine h.replace onPart (by omega) place fun z hz => s.filtered_of_far _ fun near => hz ?_
  have := e.width.margin_lt_reach
  omega

theorem apply_keeps {e : Edge} {samples v : Vector UInt8 n} (h : e.apply samples = .ok v) {j : Nat}
    (hj : j < n) (far : ¬ e.Touches j) : v[j] = samples[j] := by
  obtain ⟨v', hv', on⟩ := apply_on (Around.ofLine_on samples e.position) (fits_of_apply h)
  obtain rfl : v = v' := Except.ok.inj (h.symm.trans hv')
  have kept := on j hj
  rw [Around.filtered_of_far, ← Around.ofLine_on samples e.position j hj] at kept
  · exact UInt8.toNat_inj.1 (Int.ofNat.inj kept)
  · unfold Touches at far
    omega

theorem applyAll_keeps {es : List Edge} {samples v : Vector UInt8 n}
    (h : applyAll es samples = .ok v) {j : Nat} (hj : j < n)
    (far : ∀ e ∈ es, ¬ e.Touches j) : v[j] = samples[j] := by
  induction es generalizing samples with
  | nil =>
    cases h
    rfl
  | cons e es ih =>
    obtain ⟨u, hu, hv⟩ := bind_eq_ok_iff.1 h
    rw [ih hv fun f hf => far f (List.mem_cons_of_mem _ hf),
      apply_keeps hu hj (far e List.mem_cons_self)]

end Edge

/-! ## Planes -/

variable {l : Layout} {g : EdgeGrid} {o : Orientation} {table : LevelTable} {p q : Plane l}

theorem Filtered.keeps {edges : Fin (l.lineCount o) → List Edge} (h : Filtered o edges p q)
    {i : Fin (l.lineCount o)} {j : Nat} (hj : j < l.lineLength o)
    (far : ∀ e ∈ edges i, ¬ e.Touches j) : (q.line o i)[j] = (p.line o i)[j] :=
  Edge.applyAll_keeps (h.line i) hj far

/-- Where the edges of superblock (`column`, `row`) can change samples: as far as the superblock has
edge positions, and along the lines from seven samples in front of it on. -/
def EdgeGrid.Reaches (g : EdgeGrid) (column row x y : Nat) : Orientation → Prop
  | .vertical => (column * g.blockDim ≤ x + 7 ∧ x < column * g.blockDim + g.span) ∧
      row * g.blockDim ≤ y ∧ y < row * g.blockDim + g.span
  | .horizontal => (column * g.blockDim ≤ x ∧ x < column * g.blockDim + g.span) ∧
      row * g.blockDim ≤ y + 7 ∧ y < row * g.blockDim + g.span

theorem BlockEdges.touches_of_mem_edgesOn {m : BlockEdges} {across along i j length : Nat}
    {e : Edge} (he : e ∈ m.edgesOn g table o across along i length) (touches : e.Touches j) :
    (across * g.blockDim ≤ i ∧ i < across * g.blockDim + g.span) ∧
      along * g.blockDim ≤ j + 7 ∧ j < along * g.blockDim + g.span := by
  unfold edgesOn at he
  split at he
  · next meets =>
    obtain ⟨step, -, he⟩ := List.mem_flatMap.1 he
    have hi := EdgeGrid.lt_span_iff.2 meets.2
    have hs := step.isLt
    refine ⟨⟨meets.1, by omega⟩, ?_⟩
    obtain ⟨-, ⟨w, -, rfl⟩ | ⟨-, -, rfl⟩⟩ := BlockEdges.mem_edgesAt.1 he
    · have := (w.fit (along * g.blockDim + EdgeGrid.spacing * step) length).margin_le
      simp only [Edge.Touches, EdgeGrid.span, EdgeGrid.spacing] at *
      omega
    · simp only [Edge.Touches, EdgeWidth.margin, innerOffset, EdgeGrid.span,
        EdgeGrid.spacing] at *
      omega
  · exact absurd he List.not_mem_nil

theorem deblockSuperblock_filtered {m : BlockEdges} {column row : Nat}
    (h : deblockSuperblock g m table o column row p = .ok q) :
    Filtered o (fun i => m.edgesOn g table o (o.cell row column).1 (o.cell row column).2 i
      (l.lineLength o)) p q := by
  obtain ⟨_, -, h⟩ := bind_eq_ok_iff.1 h
  exact (m.filterLines_eq_ok_iff _ rfl).1 (Outcome.ofChecked_eq_ok_iff.1 h)

/-- Deblocking changes visible samples only, and of those only the ones near to an edge that is
asked for on their row or on their column. A call for one superblock keeps to the superblock and
seven samples in front of it. -/
theorem deblockPlane_keeps (hw : 0 < l.width) (g : EdgeGrid) (table : LevelTable) (p : Plane l) :
    (∀ blocks plan, EdgePlan.ofArray? l g blocks = .ok plan → ∃ r,
      deblockPlane g blocks table p =
        Outcome.ofChecked (do EdgePlan.requireCut l g .horizontal; return r) ∧
      (∀ (x : Fin l.width) (y : Fin l.height),
        (∀ e, plan.Requests table .vertical y e → ¬ e.Touches x) →
        (∀ e, plan.Requests table .horizontal x e → ¬ e.Touches y) → r.get x y = p.get x y) ∧
      p.AgreeOff r) ∧
    ∀ m o column row q, deblockSuperblock g m table o column row p = .ok q →
      (∀ (x : Fin l.width) (y : Fin l.height), ¬ g.Reaches column row x y o →
        q.get x y = p.get x y) ∧ p.AgreeOff q := by
  constructor
  · intro blocks plan accepted
    obtain ⟨q, hv⟩ := plan.exists_filtered table .vertical p
    obtain ⟨r, hh⟩ := plan.exists_filtered table .horizontal q
    refine ⟨r, EdgePlan.deblockPlane_eq accepted hw hv hh, fun x y row column => ?_,
      hv.off.trans hh.off⟩
    calc r.get x y
      _ = (r.line .horizontal x)[y.val] := (r.getElem_column x y.isLt).symm
      _ = (q.line .horizontal x)[y.val] :=
        hh.keeps y.isLt fun e he => column e (plan.mem_edgesOn_iff.1 he)
      _ = q.get x y := q.getElem_column x y.isLt
      _ = (q.line .vertical y)[x.val] := (q.getElem_row y x.isLt).symm
      _ = (p.line .vertical y)[x.val] :=
        hv.keeps x.isLt fun e he => row e (plan.mem_edgesOn_iff.1 he)
      _ = p.get x y := p.getElem_row y x.isLt
  · intro m o column row q h
    have filtered := deblockSuperblock_filtered h
    refine ⟨fun x y outside => ?_, filtered.off⟩
    cases o with
    | vertical =>
      refine (q.getElem_row y x.isLt).symm.trans (.trans ?_ (p.getElem_row y x.isLt))
      exact filtered.keeps x.isLt fun e he touches =>
        outside (BlockEdges.touches_of_mem_edgesOn he touches).symm
    | horizontal =>
      refine (q.getElem_column x y.isLt).symm.trans (.trans ?_ (p.getElem_column x y.isLt))
      exact filtered.keeps y.isLt fun e he touches =>
        outside (BlockEdges.touches_of_mem_edgesOn he touches)

/-- Row 4 has edges in front of columns 4 and 40, the second one of medium width; column 20 has
none. -/
theorem deblockPlane_corner_keeps :
    0 < (Layout.owned 44 44 0).width ∧
    ∀ p : Plane (.owned 44 44 0), ∃ r,
      deblockPlane .sparse EdgePlan.corner.blocks.toArray .standard p = .ok r ∧
      r.get ⟨20, by decide⟩ ⟨4, by decide⟩ = p.get ⟨20, by decide⟩ ⟨4, by decide⟩ := by
  refine ⟨by decide, fun p => ?_⟩
  have accepted := EdgePlan.ofArray?_eq_ok_iff.2 (rfl : EdgePlan.corner.blocks.toArray = _)
  obtain ⟨r, hr, keeps, -⟩ := (deblockPlane_keeps (by decide) _ .standard p).1 _ _ accepted
  rw [EdgePlan.requireCut_corner] at hr
  have row : ∀ e ∈ EdgePlan.corner.edgesOn .standard .vertical ⟨4, by decide⟩, ¬ e.Touches 20 := by
    decide
  have column : ∀ e ∈ EdgePlan.corner.edgesOn .standard .horizontal ⟨20, by decide⟩,
      ¬ e.Touches 4 := by
    decide
  exact ⟨r, hr, keeps _ _ (fun e he => row e (EdgePlan.corner.mem_edgesOn_iff.2 he))
    fun e he => column e (EdgePlan.corner.mem_edgesOn_iff.2 he)⟩

end BlockVideo
