import BlockVideo.Proofs.PlanFits

/-!
# Work units

A pass falls into units that workers can take from each other: the rows of the plane when vertical
edges are filtered, its lanes when horizontal ones are. A unit reads and writes lines of its own
(`EdgePlan.Confined`), and every line belongs to one unit. So the units can be taken in any order,
and even their edges can be mixed as long as those of a line stay in order
(`deblockPass_eq_of_perm`).
-/

namespace BlockVideo

variable {l : Layout} {g : EdgeGrid} {table : LevelTable} {o : Orientation}

/-- How many units a pass has. -/
def workUnits (l : Layout) (g : EdgeGrid) : Orientation → Nat
  | .vertical => l.height
  | .horizontal => g.columns l

/-- The unit that a line belongs to. -/
def unitOf (g : EdgeGrid) : (o : Orientation) → Fin (l.lineCount o) → Fin (workUnits l g o)
  | .vertical, y => y
  | .horizontal, x => ⟨x / g.blockDim, EdgeGrid.div_lt_count x.isLt⟩

namespace EdgePlan

/-- Filters the edges of one unit. -/
def filterUnit (plan : EdgePlan l g) (table : LevelTable) :
    (o : Orientation) → Fin (workUnits l g o) → Plane l → Checked (Plane l)
  | .vertical, y, p => plan.filterRow table y p
  | .horizontal, column, p => plan.filterLane table column p

/-- What a unit makes of two planes that agree on its lines agrees on its lines, and nothing else of
a plane changes. -/
structure Confined (g : EdgeGrid) (o : Orientation) (u : Fin (workUnits l g o))
    (unit : Plane l → Checked (Plane l)) : Prop where
  reads : ∀ {p p' q q'}, unit p = .ok q → unit p' = .ok q' →
    (∀ i, unitOf g o i = u → p.line o i = p'.line o i) →
      ∀ i, unitOf g o i = u → q.line o i = q'.line o i
  keeps : ∀ {p q}, unit p = .ok q →
    (∀ i, unitOf g o i ≠ u → q.line o i = p.line o i) ∧ p.AgreeOff q

variable (plan : EdgePlan l g)

theorem filterUnit_eq_ok_iff (u : Fin (workUnits l g o)) {p q : Plane l} :
    plan.filterUnit table o u p = .ok q ↔
      Filtered o (fun i => if unitOf g o i = u then plan.edgesOn table o i else []) p q := by
  cases o with
  | vertical =>
    refine (plan.filterRow_eq_ok_iff u).trans (iff_of_eq ?_)
    congr 1
    funext i
    by_cases h : i = u
    · subst h
      rfl
    · exact (if_neg h).trans (if_neg h).symm
  | horizontal =>
    refine (plan.filterLane_eq_ok_iff u).trans (iff_of_eq ?_)
    congr 1
    funext i
    by_cases h : unitOf g .horizontal i = u
    · subst h
      rw [if_pos rfl]
      rfl
    · rw [if_neg h]
      refine List.flatMap_eq_nil_iff.2 fun _ _ => BlockEdges.edgesOn_of_ne _ _ _ fun e => h ?_
      exact Fin.ext e.symm

theorem confined_filterUnit (u : Fin (workUnits l g o)) :
    Confined g o u (plan.filterUnit table o u) := by
  constructor
  · intro p p' q q' h h' agree i hi
    have hq := (plan.filterUnit_eq_ok_iff u |>.1 h).line i
    have hq' := (plan.filterUnit_eq_ok_iff u |>.1 h').line i
    rw [agree i hi, hq'] at hq
    exact (Except.ok.inj hq).symm
  · intro p q h
    have filtered := plan.filterUnit_eq_ok_iff u |>.1 h
    refine ⟨fun i hi => ?_, filtered.off⟩
    have hq := filtered.line i
    rw [if_neg hi] at hq
    exact (Except.ok.inj hq).symm

/-- Units in any order filter on each line the edges that the line meets. -/
theorem foldlM_filterUnit_eq_ok_iff {order : List (Fin (workUnits l g o))}
    (perm : order.Perm (List.finRange _)) {p q : Plane l} :
    order.foldlM (fun q u => plan.filterUnit table o u q) p = .ok q ↔
      Filtered o (plan.edgesOn table o) p q := by
  rw [Filtered.foldlM_eq_ok_iff fun u _ _ _ => plan.filterUnit_eq_ok_iff u]
  apply iff_of_eq
  congr 1
  funext i
  -- line `i` belongs to one unit, and that one occurs once
  have member : unitOf g o i ∈ order := perm.mem_iff.2 (List.mem_finRange _)
  rw [flatMap_eq_of_unique (perm.nodup_iff.2 (List.nodup_finRange _)) member, if_pos rfl]
  exact fun u hu => if_neg (Ne.symm hu)

/-- So do single edges, in any order that keeps to the order of each line. -/
theorem foldlM_edges_eq_ok_iff {steps : List (Fin (l.lineCount o) × Edge)}
    (merge : ∀ i, (steps.filter (·.1 = i)).map (·.2) = plan.edgesOn table o i) {p q : Plane l} :
    steps.foldlM (fun q s => q.editLine o s.1 (Edge.applyAll [s.2])) p = .ok q ↔
      Filtered o (plan.edgesOn table o) p q := by
  rw [Filtered.foldlM_eq_ok_iff fun _ _ _ _ => Plane.editLine_eq_ok_iff]
  apply iff_of_eq
  congr 1
  funext i
  rw [← merge i]
  clear merge
  induction steps with
  | nil => rfl
  | cons s steps ih =>
    rw [List.flatMap_cons, ih]
    by_cases h : s.1 = i
    · simp [h]
    · simp [h, Ne.symm h]

theorem filter_edges_line_by_line (i : Fin (l.lineCount o)) :
    (((List.finRange (l.lineCount o)).flatMap fun k =>
      (plan.edgesOn table o k).map (k, ·)).filter (·.1 = i)).map (·.2) =
        plan.edgesOn table o i := by
  have share : ∀ k, ((plan.edgesOn table o k).map (k, ·)).filter (·.1 = i) =
      if k = i then (plan.edgesOn table o k).map (k, ·) else [] := fun k => by
    split
    · next h => exact List.filter_eq_self.2 (by simp [h])
    · next h => exact List.filter_eq_nil_iff.2 (by simp [h])
  rw [List.filter_flatMap, flatMap_eq_of_unique (List.nodup_finRange _) (List.mem_finRange i)]
  · rw [share, if_pos rfl, List.map_map]
    exact List.map_id _
  · exact fun k hk => (share k).trans (if_neg hk)

end EdgePlan

/-- The units of a pass are independent. Taken in any order they never stop, and do what the pass
does once it has cut the plane: every line becomes what a function of this line alone makes of it.
So do their edges, in any mixture that keeps those of a line in order. And no unit reads or writes
what another one writes. -/
theorem deblockPass_eq_of_perm {blocks : Array BlockEdges} {plan : EdgePlan l g}
    (accepted : EdgePlan.ofArray? l g blocks = .ok plan) (table : LevelTable) (o : Orientation) :
    (∃ f : Fin (l.lineCount o) → Vector UInt8 (l.lineLength o) → Vector UInt8 (l.lineLength o),
      ∀ order : List (Fin (workUnits l g o)), order.Perm (List.finRange _) → ∀ p : Plane l, ∃ q,
        order.foldlM (fun q u => plan.filterUnit table o u q) p = .ok q ∧
        deblockPass g blocks table o p =
          Outcome.ofChecked (do EdgePlan.requireCut l g o; return q) ∧
        (∀ i, q.line o i = f i (p.line o i)) ∧ p.AgreeOff q) ∧
    (∀ steps : List (Fin (l.lineCount o) × Edge),
      (∀ i, (steps.filter (·.1 = i)).map (·.2) = plan.edgesOn table o i) → ∀ p : Plane l, ∃ q,
        steps.foldlM (fun q s => q.editLine o s.1 (Edge.applyAll [s.2])) p = .ok q ∧
        deblockPass g blocks table o p =
          Outcome.ofChecked (do EdgePlan.requireCut l g o; return q)) ∧
    ∀ u, EdgePlan.Confined g o u (plan.filterUnit table o u) := by
  have fits : ∀ i, ∀ e ∈ plan.edgesOn table o i, e.Fits (l.lineLength o) := plan.edgesOn_fits
  choose f hf using fun i => Edge.applyAll_total (fits i)
  refine ⟨⟨f, fun order perm p => ?_⟩, fun steps merge p => ?_, plan.confined_filterUnit⟩
  · obtain ⟨q, hq⟩ := plan.exists_filtered table o p
    refine ⟨q, (plan.foldlM_filterUnit_eq_ok_iff perm).2 hq, EdgePlan.deblockPass_eq accepted hq,
      fun i => ?_, hq.off⟩
    have result := hq.line i
    rw [hf] at result
    exact (Except.ok.inj result).symm
  · obtain ⟨q, hq⟩ := plan.exists_filtered table o p
    exact ⟨q, (plan.foldlM_edges_eq_ok_iff merge).2 hq, EdgePlan.deblockPass_eq accepted hq⟩

theorem deblockPass_corner_eq_of_reverse :
    EdgePlan.ofArray? _ _ EdgePlan.corner.blocks.toArray = .ok .corner ∧
    ∀ p : Plane (.owned 44 44 0), ∃ q,
      (List.finRange (workUnits (.owned 44 44 0) .sparse .horizontal)).reverse.foldlM
        (fun q u => EdgePlan.corner.filterUnit .standard .horizontal u q) p = .ok q ∧
      ((List.finRange _).flatMap fun i =>
          (EdgePlan.corner.edgesOn .standard .horizontal i).map (i, ·)).foldlM
        (fun q s => q.editLine .horizontal s.1 (Edge.applyAll [s.2])) p = .ok q ∧
      deblockPass .sparse EdgePlan.corner.blocks.toArray .standard .horizontal p = .ok q := by
  have accepted := EdgePlan.ofArray?_eq_ok_iff.2 (rfl : EdgePlan.corner.blocks.toArray = _)
  have cut : EdgePlan.requireCut (.owned 44 44 0) .sparse .horizontal = .ok () :=
    EdgePlan.requireCut_eq_ok_iff.2 ⟨by decide, fun _ => by decide⟩
  refine ⟨accepted, fun p => ?_⟩
  obtain ⟨⟨f, units⟩, edges, -⟩ := deblockPass_eq_of_perm accepted .standard .horizontal
  obtain ⟨q, hq, pass, -⟩ := units _ (List.reverse_perm _) p
  obtain ⟨r, hr, pass'⟩ := edges _ EdgePlan.corner.filter_edges_line_by_line p
  rw [cut] at pass pass'
  obtain rfl : q = r := Except.ok.inj (pass.symm.trans pass')
  exact ⟨q, hq, hr, pass⟩

end BlockVideo
