import BlockVideo.Deblock
import BlockVideo.Proofs.Filtered

/-!
# The edges of a plan, line by line

`EdgePlan.edgesOn` lists the edges that a line meets, from its start to its end. The loops of a pass
visit rows, lanes, superblocks and columns in different orders, but each line gets just these edges
in this order (`pass_eq_ok_iff`), and a superblock on its own gives each line its share of them
(`filterLines_eq_ok_iff`).
-/

namespace BlockVideo

theorem flatMap_eq_of_unique {α β : Type} {as : List α} {f : α → List β} {a : α} (nodup : as.Nodup)
    (ha : a ∈ as) (h : ∀ k, k ≠ a → f k = []) : as.flatMap f = f a := by
  obtain ⟨s, t, rfl⟩ := List.append_of_mem ha
  obtain ⟨-, ht, hd⟩ := List.nodup_append.1 nodup
  have hs : s.flatMap f = [] := List.flatMap_eq_nil_iff.2 fun k hk =>
    h k (hd k hk a List.mem_cons_self)
  have ht : t.flatMap f = [] := List.flatMap_eq_nil_iff.2 fun k hk =>
    h k fun e => (List.nodup_cons.1 ht).1 (e ▸ hk)
  rw [List.flatMap_append, List.flatMap_cons, hs, ht, List.nil_append, List.append_nil]

variable {l : Layout} {g : EdgeGrid} {table : LevelTable} {o : Orientation}

namespace BlockEdges

/-- The edges that the superblock in place `across` and `along` has on line `i`. -/
def edgesOn (m : BlockEdges) (g : EdgeGrid) (table : LevelTable) (o : Orientation)
    (across along i length : Nat) : List Edge :=
  if h : across * g.blockDim ≤ i ∧ (i - across * g.blockDim) / EdgeGrid.spacing < g.steps then
    m.edgesAlong g table o ⟨_, h.2⟩ along length
  else []

/-- The loop over the lines of a superblock, as long as it takes in all that meet edge positions. -/
theorem filterLines_eq_ok_iff (m : BlockEdges) {across lines : Nat} (along : Nat)
    (h : lines = g.meeting (l.lineCount o) across) {p q : Plane l} :
    m.filterLines g table o across along (Nat.le_of_eq h) p = .ok q ↔
      Filtered o (fun i => m.edgesOn g table o across along i (l.lineLength o)) p q := by
  rw [filterLines, Filtered.foldlM_eq_ok_iff fun _ _ _ _ => Plane.editLine_eq_ok_iff]
  apply iff_of_eq
  congr 1
  funext i
  by_cases hm : across * g.blockDim ≤ i ∧ (i - across * g.blockDim) / EdgeGrid.spacing < g.steps
  · have hi : i - across * g.blockDim < lines := by
      rw [h, EdgeGrid.lt_meeting_iff, EdgeGrid.lt_span_iff]
      have := i.isLt
      omega
    rw [flatMap_eq_of_unique (List.nodup_finRange _) (List.mem_finRange ⟨_, hi⟩)]
    · rw [if_pos (Fin.ext (by simp only; omega)), edgesOn, dif_pos hm]
    · intro k hk
      rw [if_neg]
      rintro rfl
      exact hk (Fin.ext (by simp only; omega))
  · rw [edgesOn, dif_neg hm]
    refine List.flatMap_eq_nil_iff.2 fun k _ => if_neg ?_
    rintro rfl
    have hk := EdgeGrid.lt_meeting_iff.1 (Nat.lt_of_lt_of_le k.isLt (Nat.le_of_eq h))
    refine hm ⟨Nat.le_add_right .., ?_⟩
    simp only [Nat.add_sub_cancel_left]
    exact EdgeGrid.lt_span_iff.1 hk.1

theorem edgesAt_of_le (m : BlockEdges) {across along : Fin g.steps} {position length : Nat}
    (h : length ≤ position) : m.edgesAt g table o across along position length = [] := by
  cases o <;> exact if_pos h

theorem edgesOn_of_eq_zero (m : BlockEdges) (across along i : Nat) {length : Nat}
    (h : length = 0) : m.edgesOn g table o across along i length = [] := by
  unfold edgesOn
  split
  · exact List.flatMap_eq_nil_iff.2 fun _ _ => m.edgesAt_of_le (h ▸ Nat.zero_le _)
  · rfl

theorem edgesOn_div (m : BlockEdges) (along i length : Nat) :
    m.edgesOn g table o (i / g.blockDim) along i length =
      if h : i % g.blockDim / EdgeGrid.spacing < g.steps then
        m.edgesAlong g table o ⟨_, h⟩ along length
      else [] := by
  have e : i - i / g.blockDim * g.blockDim = i % g.blockDim := by
    rw [Nat.mul_comm, ← Nat.mod_eq_sub]
  simp only [edgesOn, e, Nat.div_mul_le_self, true_and]

theorem edgesOn_of_ne (m : BlockEdges) {across i : Nat} (along length : Nat)
    (h : across ≠ i / g.blockDim) : m.edgesOn g table o across along i length = [] := by
  refine dif_neg fun hm => h ?_
  have hs := EdgeGrid.lt_span_iff.2 hm.2
  have := g.span_le
  simp only [EdgeGrid.span, EdgeGrid.spacing] at hs
  exact (Nat.div_eq_of_lt_le hm.1 (by rw [Nat.succ_mul]; omega)).symm

end BlockEdges

theorem Edge.applyAll_flatMap {α : Type} {n : Nat} (f : α → List Edge) (as : List α)
    (line : Vector UInt8 n) :
    as.foldlM (fun v a => applyAll (f a) v) line = applyAll (as.flatMap f) line := by
  induction as generalizing line with
  | nil => rfl
  | cons a as ih =>
    rw [List.foldlM_cons, List.flatMap_cons, applyAll_append]
    exact congrArg _ (funext ih)

namespace EdgePlan

variable (plan : EdgePlan l g)

/-- The superblock in place `across` and `along`, counted across and along the lines. -/
def blockAlong : (o : Orientation) →
    Fin (g.count (l.lineCount o)) → Fin (g.count (l.lineLength o)) → BlockEdges
  | .vertical, across, along => plan.block along across
  | .horizontal, across, along => plan.block across along

def blockOn (o : Orientation) (i : Fin (l.lineCount o)) (along : Fin (g.count (l.lineLength o))) :
    BlockEdges :=
  plan.blockAlong o ⟨i / g.blockDim, EdgeGrid.div_lt_count i.isLt⟩ along

/-- All edges on line `i`, in the order in which the line meets them. -/
def edgesOn (table : LevelTable) (o : Orientation) (i : Fin (l.lineCount o)) : List Edge :=
  (List.finRange (g.count (l.lineLength o))).flatMap fun along =>
    (plan.blockOn o i along).edgesOn g table o (i / g.blockDim) along i (l.lineLength o)

theorem edgesOn_of_lineLength_eq_zero (h : l.lineLength o = 0) (i : Fin (l.lineCount o)) :
    plan.edgesOn table o i = [] :=
  List.flatMap_eq_nil_iff.2 fun _ _ => BlockEdges.edgesOn_of_eq_zero _ _ _ _ h

theorem filterRow_eq_ok_iff (y : Fin (l.lineCount .vertical)) {p q : Plane l} :
    plan.filterRow table y p = .ok q ↔
      Filtered .vertical (fun i => if i = y then plan.edgesOn table .vertical y else []) p q := by
  unfold filterRow
  split
  · next h =>
    simp only [Edge.applyAll_flatMap, Plane.editLine_eq_ok_iff, edgesOn, BlockEdges.edgesOn_div,
      dif_pos h]
    rfl
  · next h =>
    have : plan.edgesOn table .vertical y = [] := List.flatMap_eq_nil_iff.2 fun _ _ => by
      rw [BlockEdges.edgesOn_div, dif_neg h]
    simp only [this, ite_self, Filtered.nil_iff, Except.ok.injEq]

theorem filterRows_eq_ok_iff {p q : Plane l} :
    plan.filterRows table p = .ok q ↔ Filtered .vertical (plan.edgesOn table .vertical) p q := by
  refine (Filtered.foldlM_eq_ok_iff (fun (y : Fin l.cutRows) _ _ _ =>
    plan.filterRow_eq_ok_iff ⟨y, Nat.lt_of_lt_of_le y.isLt (Nat.min_le_left ..)⟩) p q).trans ?_
  apply iff_of_eq
  congr 1
  funext i
  rcases Nat.eq_zero_or_pos (l.lineLength .vertical) with h0 | hw
  · rw [plan.edgesOn_of_lineLength_eq_zero h0]
    refine List.flatMap_eq_nil_iff.2 fun k _ => ?_
    rw [plan.edgesOn_of_lineLength_eq_zero h0, ite_self]
  · have hi : i < l.cutRows := by
      rw [Layout.cutRows_eq hw]
      exact i.isLt
    rw [flatMap_eq_of_unique (List.nodup_finRange _) (List.mem_finRange ⟨i, hi⟩)]
    · exact if_pos rfl
    · intro k hk
      rw [if_neg]
      rintro rfl
      exact hk rfl

theorem filterLane_eq_ok_iff (column : Fin (g.columns l)) {p q : Plane l} :
    plan.filterLane table column p = .ok q ↔
      Filtered .horizontal (fun i => (List.finRange (g.rows l)).flatMap fun row =>
        (plan.block column row).edgesOn g table .horizontal column row i l.height) p q :=
  Filtered.foldlM_eq_ok_iff (fun row _ _ _ =>
    (plan.block column row).filterLines_eq_ok_iff row (g.laneWidth_eq l.width column)) p q

theorem filterLanes_eq_ok_iff {p q : Plane l} :
    plan.filterLanes table p = .ok q ↔
      Filtered .horizontal (plan.edgesOn table .horizontal) p q := by
  unfold filterLanes
  split
  · next h =>
    have : plan.edgesOn table .horizontal = fun _ => [] :=
      funext (plan.edgesOn_of_lineLength_eq_zero h)
    rw [this, Filtered.nil_iff, Except.ok.injEq]
  · refine (Filtered.foldlM_eq_ok_iff
      (fun column _ _ _ => plan.filterLane_eq_ok_iff column) p q).trans ?_
    apply iff_of_eq
    congr 1
    funext i
    have hi : i / g.blockDim < g.columns l := EdgeGrid.div_lt_count i.isLt
    rw [flatMap_eq_of_unique (List.nodup_finRange _) (List.mem_finRange ⟨_, hi⟩)]
    · rfl
    · intro k hk
      refine List.flatMap_eq_nil_iff.2 fun _ _ => BlockEdges.edgesOn_of_ne _ _ _ fun e => ?_
      exact hk (Fin.ext e)

/-- A pass goes through when the plane can be cut, and filters on each line the edges that the line
meets, in their order. -/
theorem pass_eq_ok_iff {p q : Plane l} :
    plan.pass table o p = .ok q ↔
      requireCut l g o = .ok () ∧ Filtered o (plan.edgesOn table o) p q := by
  unfold pass
  rw [bind_eq_ok_iff]
  cases o
  · simp only [filterRows_eq_ok_iff]
    exact ⟨fun ⟨_, h⟩ => h, fun h => ⟨_, h⟩⟩
  · simp only [filterLanes_eq_ok_iff]
    exact ⟨fun ⟨_, h⟩ => h, fun h => ⟨_, h⟩⟩

end EdgePlan

end BlockVideo
