import BlockVideo.Proofs.DeblockInPlace
import BlockVideo.Proofs.Footprint
import BlockVideo.Proofs.Plane.Border

/-!
# Constant lines

A line whose samples are all equal is a fixed point of every filter: its means are the sample again,
and a step of zero is rounded to zero on both sides (`Around.filtered_of_constant`). So it is one of
every edge that fits it, of any number of edges in turn, and of a pass whose lines are all like it,
whatever the edges and their thresholds are (`Filtered.of_constant`).
-/

namespace BlockVideo

/-! ## Filters -/

namespace Around

variable {s : Around} {a : Int}

theorem smooth_of_constant {half shift : Nat} (hs : 2 ^ shift = 2 * (half + 1))
    (h : ∀ z, -(half : Int) - 1 ≤ z → z ≤ half → s z = a) : s.smooth half shift = s := by
  funext z
  rw [smooth]
  split
  · next near =>
    have center : s z = a := h z (by omega) (by omega)
    have repeats (y : Int) : s.repeated half y = a := h _ (by omega) (by omega)
    have total : s.windowTotal half z = (2 * (half + 1) : Nat) * a := by
      have count : 2 * (half + 1) = 2 * half + 1 + 1 := by omega
      simp only [windowTotal, repeats, center, Finset.sum_const, Finset.card_range, nsmul_eq_mul]
      rw [count, Nat.cast_add_one (2 * half + 1), Int.add_mul, Int.one_mul]
    have rounding : ((half : Int) + 1) / (2 * (half + 1) : Nat) = 0 :=
      Int.ediv_eq_zero_of_lt (by omega) (by omega)
    rw [total, center, Int.shiftRight_eq_div_pow, hs, Int.add_comm,
      Int.add_mul_ediv_left _ _ (by omega), rounding, Int.zero_add]
  · rfl

theorem correct_of_constant {high : Prop} [Decidable high] (range : 0 ≤ a ∧ a ≤ 255)
    (h : ∀ z, -2 ≤ z → z < 2 → s z = a) : s.correct high = s := by
  have same (z : Int) (hl : -2 ≤ z) (hu : z < 2) : s.signed z = a - 128 :=
    congrArg (· - 128) (h z hl hu)
  have p1 : s.signed.p 1 = a - 128 := same _ (by decide) (by decide)
  have p0 : s.signed.p 0 = a - 128 := same _ (by decide) (by decide)
  have q0 : s.signed.q 0 = a - 128 := same _ (by decide) (by decide)
  have q1 : s.signed.q 1 = a - 128 := same _ (by decide) (by decide)
  have step : s.step high = 0 := by
    simp only [Around.step, p1, p0, q0, q1, Int.sub_self]
    split <;> rfl
  -- the two roundings of the step, by 4 and by 3, both stay below the divisor
  have down : s.down high = 0 := by
    rw [Around.down, step]
    rfl
  have up : s.up high = 0 := by
    rw [Around.up, step]
    rfl
  have outer : s.outer high = 0 := by
    rw [Around.outer, down]
    rfl
  have back : EdgeFilter.hold (a - 128) + 128 = a := by
    unfold EdgeFilter.hold
    omega
  funext z
  by_cases near : -2 ≤ z ∧ z < 2
  · simp only [correct, p1, p0, q0, q1, up, down, outer, Int.add_zero, Int.sub_zero, back,
      h z near.1 near.2, ite_self]
  · rw [correct, if_neg (by omega), if_neg (by omega), if_neg (by omega), if_neg (by omega)]

theorem filtered_of_constant {w : EdgeWidth} (t : Thresholds) (range : 0 ≤ a ∧ a ≤ 255)
    (h : ∀ z, -(w.reach : Int) ≤ z → z < w.reach → s z = a) : s.filtered w t = s := by
  have hr := w.four_le_reach
  unfold filtered
  split
  · rfl
  · split
    · next wide =>
      have reach : w.reach = 8 := congrArg EdgeWidth.reach wide.1
      exact smooth_of_constant rfl fun z hl hu => h z (by omega) (by omega)
    · split
      · exact smooth_of_constant rfl fun z hl hu => h z (by omega) (by omega)
      · exact correct_of_constant range fun z hl hu => h z (by omega) (by omega)

end Around

/-! ## Edges of a line -/

namespace Edge

variable {n : Nat}

theorem apply_replicate {e : Edge} (fits : e.Fits n) (a : UInt8) :
    e.apply (Vector.replicate n a) = .ok (Vector.replicate n a) := by
  have on := Around.ofLine_on (Vector.replicate n a) e.position
  obtain ⟨v, hv, onResult⟩ := apply_on on fits
  have constant : ∀ z, -(e.width.reach : Int) ≤ z → z < e.width.reach →
      Around.ofLine (Vector.replicate n a) e.position z = a.toNat := by
    intro z hl hu
    have before := fits.before
    have behind := fits.behind
    rw [Around.ofLine, dif_pos (by omega), Vector.getElem_replicate]
  have range : 0 ≤ (a.toNat : Int) ∧ (a.toNat : Int) ≤ 255 := by
    have := a.toNat_lt
    omega
  rw [Around.filtered_of_constant e.thresholds range constant] at onResult
  rw [hv, onResult.unique on]

theorem applyAll_replicate {es : List Edge} (fits : ∀ e ∈ es, e.Fits n) (a : UInt8) :
    applyAll es (Vector.replicate n a) = .ok (Vector.replicate n a) := by
  induction es with
  | nil => rfl
  | cons e es ih =>
    rw [applyAll, List.foldlM_cons, apply_replicate (fits e List.mem_cons_self)]
    exact ih fun f hf => fits f (List.mem_cons_of_mem _ hf)

end Edge

/-! ## Planes -/

variable {l : Layout} {g : EdgeGrid} {o : Orientation} {table : LevelTable} {p : Plane l}

/-- The samples of each line are all equal. -/
def Plane.ConstantAlong (p : Plane l) (o : Orientation) : Prop :=
  ∀ i, ∃ a, p.line o i = Vector.replicate _ a

theorem Plane.constantAlong_of_same
    (h : ∀ i j j' (hj : j < l.lineLength o) (hj' : j' < l.lineLength o),
      (p.line o i)[j] = (p.line o i)[j']) : p.ConstantAlong o := by
  intro i
  rcases Nat.eq_zero_or_pos (l.lineLength o) with h0 | first
  · exact ⟨0, Vector.ext fun j hj => absurd hj (by omega)⟩
  · refine ⟨(p.line o i)[0], Vector.ext fun j hj => ?_⟩
    rw [Vector.getElem_replicate]
    exact h i j 0 hj first

theorem Plane.constantAlong_vertical (h : ∀ x x' y, p.get x y = p.get x' y) :
    p.ConstantAlong .vertical :=
  constantAlong_of_same fun y x x' hx hx' =>
    (p.getElem_row y hx).trans ((h ⟨x, hx⟩ ⟨x', hx'⟩ y).trans (p.getElem_row y hx').symm)

theorem Plane.constantAlong_horizontal (h : ∀ x y y', p.get x y = p.get x y') :
    p.ConstantAlong .horizontal :=
  constantAlong_of_same fun x y y' hy hy' =>
    (p.getElem_column x hy).trans ((h x ⟨y, hy⟩ ⟨y', hy'⟩).trans (p.getElem_column x hy').symm)

theorem Filtered.of_constant {edges : Fin (l.lineCount o) → List Edge}
    (fits : ∀ i, ∀ e ∈ edges i, e.Fits (l.lineLength o)) (h : p.ConstantAlong o) :
    Filtered o edges p p := by
  refine ⟨fun i => ?_, .refl p⟩
  obtain ⟨a, constant⟩ := h i
  rw [constant]
  exact Edge.applyAll_replicate (fits i) a

/-! ## Passes -/

namespace EdgePlan

variable {plan : EdgePlan l g}

theorem filtered_of_constant (plan : EdgePlan l g) (table : LevelTable) (h : p.ConstantAlong o) :
    Filtered o (plan.edgesOn table o) p p :=
  .of_constant plan.edgesOn_fits h

theorem ofChecked_requireCut (hw : 0 < l.width) (p : Plane l) :
    Outcome.ofChecked (do requireCut l g .horizontal; return p) =
      if g.columns l * listBytes ≤ Capacity.limit then .ok p
      else .error (.fault (.tooLarge (g.columns l) listBytes)) := by
  rw [requireCut_eq, if_neg (Layout.stride_ne_zero hw)]
  by_cases room : g.columns l * listBytes ≤ Capacity.limit
  · rw [if_neg fun wide => absurd room (Nat.not_le.2 wide.2), if_pos room]
    rfl
  · rw [if_pos ⟨rfl, Nat.lt_of_not_le room⟩, if_neg room]
    rfl

/-- A pass that changes no line leaves the plane as it is, also when the cut stops it. -/
theorem exec_passInPlace_same (h : Filtered o (plan.edgesOn table o) p p) :
    ((plan.passInPlace table o).exec p).2 = p := by
  rw [exec_passInPlace h]
  cases requireCut l g o <;> rfl

theorem exec_passesInPlace_same (hw : 0 < l.width)
    (hv : Filtered .vertical (plan.edgesOn table .vertical) p p)
    (hh : Filtered .horizontal (plan.edgesOn table .horizontal) p p) :
    ((plan.passesInPlace table).exec p).2 = p := by
  rw [passesInPlace, InPlace.exec_bind, exec_passInPlace hv, requireCut_vertical hw]
  exact exec_passInPlace_same hh

end EdgePlan

/-- The pass over vertical edges leaves a plane of constant rows as it is, the pass over horizontal
edges one of constant columns, and deblocking a constant plane, whatever edges are accepted and
whatever the thresholds are. Only the list of the lanes can be too large, and then the samples stay
too. -/
theorem deblock_constant {blocks : Array BlockEdges} {plan : EdgePlan l g} (hw : 0 < l.width)
    (accepted : EdgePlan.ofArray? l g blocks = .ok plan) (table : LevelTable) (p : Plane l) :
    ((∀ x x' y, p.get x y = p.get x' y) → deblockPass g blocks table .vertical p = .ok p) ∧
    ((∀ x y y', p.get x y = p.get x y') →
      deblockPass g blocks table .horizontal p =
        (if g.columns l * EdgePlan.listBytes ≤ Capacity.limit then .ok p
        else .error (.fault (.tooLarge (g.columns l) EdgePlan.listBytes))) ∧
      ((deblockPassInPlace g blocks table .horizontal).exec p).2 = p) ∧
    ((∃ a, ∀ x y, p.get x y = a) →
      deblockPlane g blocks table p =
        (if g.columns l * EdgePlan.listBytes ≤ Capacity.limit then .ok p
        else .error (.fault (.tooLarge (g.columns l) EdgePlan.listBytes))) ∧
      ((deblockPlaneInPlace g blocks table).exec p).2 = p) := by
  refine ⟨fun rows => ?_, fun columns => ?_, fun ⟨a, all⟩ => ?_⟩
  · have same := plan.filtered_of_constant table (Plane.constantAlong_vertical rows)
    rw [EdgePlan.deblockPass_eq accepted same, EdgePlan.requireCut_vertical hw]
    rfl
  · have same := plan.filtered_of_constant table (Plane.constantAlong_horizontal columns)
    rw [EdgePlan.deblockPass_eq accepted same, EdgePlan.ofChecked_requireCut hw,
      deblockPassInPlace, accepted]
    exact ⟨rfl, EdgePlan.exec_passInPlace_same same⟩
  · have sameV := plan.filtered_of_constant table
      (Plane.constantAlong_vertical fun x x' y => (all x y).trans (all x' y).symm)
    have sameH := plan.filtered_of_constant table
      (Plane.constantAlong_horizontal fun x y y' => (all x y).trans (all x y').symm)
    rw [EdgePlan.deblockPlane_eq accepted hw sameV sameH, EdgePlan.ofChecked_requireCut hw,
      deblockPlaneInPlace, accepted]
    exact ⟨rfl, EdgePlan.exec_passesInPlace_same hw sameV sameH⟩

theorem deblock_constant_corner :
    0 < (Layout.owned 44 44 0).width ∧
    EdgePlan.ofArray? _ _ EdgePlan.corner.blocks.toArray = .ok .corner ∧
    ∀ (p : Plane (.owned 44 44 0)) (f : Nat → UInt8) (a : UInt8),
      deblockPass .sparse EdgePlan.corner.blocks.toArray .standard .vertical
        (p.setVisible fun _ y => f y) = .ok (p.setVisible fun _ y => f y) ∧
      deblockPass .sparse EdgePlan.corner.blocks.toArray .standard .horizontal
        (p.setVisible fun x _ => f x) = .ok (p.setVisible fun x _ => f x) ∧
      deblockPlane .sparse EdgePlan.corner.blocks.toArray .standard (p.setVisible fun _ _ => a) =
        .ok (p.setVisible fun _ _ => a) := by
  have accepted : EdgePlan.ofArray? _ _ EdgePlan.corner.blocks.toArray = .ok .corner :=
    EdgePlan.ofArray?_eq_ok_iff.2 rfl
  have room : EdgeGrid.sparse.columns (.owned 44 44 0) * EdgePlan.listBytes ≤ Capacity.limit := by
    decide
  have fixed := deblock_constant (by decide) accepted .standard
  refine ⟨by decide, accepted, fun p f a => ⟨?_, ?_, ?_⟩⟩
  · exact (fixed _).1 fun x x' y => by rw [Plane.get_setVisible, Plane.get_setVisible]
  · have pass := (fixed (p.setVisible fun x _ => f x)).2.1 fun x y y' => by
      rw [Plane.get_setVisible, Plane.get_setVisible]
    rw [pass.1, if_pos room]
  · have plane := (fixed (p.setVisible fun _ _ => a)).2.2 ⟨a, Plane.get_setVisible _ _⟩
    rw [plane.1, if_pos room]

/-- A plane that has columns and no rows is constant. The pass over its horizontal edges has no list
of lanes that is small enough. -/
theorem deblockPass_endless_eq_fault :
    0 < Layout.endless.width ∧
    (∃ plan, EdgePlan.ofArray? .endless .chroma #[] = .ok plan) ∧
    (∀ x y y', (Plane.constant .endless 1).get x y = (Plane.constant .endless 1).get x y') ∧
    deblockPass .chroma #[] .standard .horizontal (.constant .endless 1) =
      .error (.fault (.tooLarge 576460752303423486 24)) := by
  have accepted := EdgePlan.ofArray?_noBlocks (l := .endless) (g := .chroma) (by decide) (.inr rfl)
  have columns : EdgeGrid.chroma.columns .endless = 576460752303423486 := by decide
  refine ⟨by decide, ⟨_, accepted⟩, fun x y y' => y.elim0, ?_⟩
  refine (deblockPass_eq_fault_iff (by decide)).2 ⟨⟨_, accepted⟩, rfl, ?_⟩
  rw [columns]
  exact ⟨by decide, rfl⟩

end BlockVideo
