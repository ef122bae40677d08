import BlockVideo.Proofs.Footprint

/-!
# Bounded look-ahead

A filtered sample depends on everything in front of it, as each edge looks at samples that earlier
edges have changed, but on fewer than fifteen samples behind it. An edge that can change sample `k`
or one in front of it looks no further than sample `k + 14`, and so two lines that agree that far
still do after such an edge (`Edge.apply_agree`). The edges of a line are filtered from its start to
its end, so those behind come when all of these are done, and they leave the samples up to `k` alone
(`Edge.applyAll_agree`). Hence rows of a plane can be given out fourteen rows after they came in
(`deblockPlane_lookAhead`).
-/

namespace BlockVideo

variable {n : Nat}

def AgreeUpTo (k : Nat) (s s' : Vector UInt8 n) : Prop :=
  ∀ j (hj : j < n), j ≤ k → s[j] = s'[j]

namespace Edge

variable {s s' v v' : Vector UInt8 n}

theorem apply_agree {e : Edge} (h : e.apply s = .ok v) (h' : e.apply s' = .ok v') {k : Nat}
    (near : e.position + e.width.reach ≤ k + 1) (agree : AgreeUpTo k s s') :
    AgreeUpTo k v v' := by
  have before := (fits_of_apply h).before
  have behind := (fits_of_apply h).behind
  have fits : e.position - e.width.reach + 2 * e.width.reach ≤ n := by omega
  have same : Run.window s (e.position - e.width.reach) (2 * e.width.reach) =
      Run.window s' (e.position - e.width.reach) (2 * e.width.reach) := by
    rw [Run.window_eq_ok fits, Run.window_eq_ok fits]
    congr 1
    apply Vector.ext
    intro i hi
    rw [Vector.getElem_ofFn, Vector.getElem_ofFn]
    exact agree _ _ (by omega)
  simp only [apply, if_pos before] at h h'
  rw [same] at h
  obtain ⟨around, hw, h⟩ := bind_eq_ok_iff.1 h
  obtain ⟨part, hp, h⟩ := bind_eq_ok_iff.1 h
  simp only [hw, hp, bind, Except.bind] at h'
  rw [Run.replace_eq_ok fits] at h h'
  cases h
  cases h'
  intro j hj hk
  rw [Run.getElem_overwrite, Run.getElem_overwrite]
  split
  · rfl
  · exact agree j hj hk

theorem applyAll_agree {es : List Edge} (ascending : es.Pairwise (·.position < ·.position))
    (h : applyAll es s = .ok v) (h' : applyAll es s' = .ok v') {k : Nat}
    (agree : AgreeUpTo (k + 14) s s') : AgreeUpTo k v v' := by
  induction es generalizing s s' with
  | nil =>
    cases h
    cases h'
    exact fun j hj hk => agree j hj (by omega)
  | cons e es ih =>
    obtain ⟨behind, ascending⟩ := List.pairwise_cons.1 ascending
    -- the first edge that leaves the samples up to `k` alone is followed by others that do
    by_cases near : e.position ≤ k + 7
    · obtain ⟨u, hu, hv⟩ := bind_eq_ok_iff.1 h
      obtain ⟨u', hu', hv'⟩ := bind_eq_ok_iff.1 h'
      have := e.width.reach_le
      exact ih ascending hv hv' (apply_agree hu hu' (by omega) agree)
    · have far : ∀ f ∈ e :: es, k + 7 < f.position := fun f hf => by
        rcases List.mem_cons.1 hf with rfl | hf
        · omega
        · have := behind f hf
          omega
      intro j hj hk
      have alone : ∀ f ∈ e :: es, ¬ f.Touches j := fun f hf touches => by
        have := far f hf
        have := f.width.margin_le
        have := touches.1
        omega
      rw [applyAll_keeps h hj alone, applyAll_keeps h' hj alone]
      exact agree j hj (by omega)

end Edge

/-! ## Planes -/

variable {l : Layout} {g : EdgeGrid} {o : Orientation} {p p' q q' : Plane l}

/-- Two planes agree on the columns, or on the rows, up to number `k`: as far as `k` along the lines
that cross edges of this orientation. -/
def Plane.AgreeUpTo (k : Nat) (p p' : Plane l) : Orientation → Prop
  | .vertical => ∀ (x : Fin l.width) (y : Fin l.height), x.val ≤ k → p.get x y = p'.get x y
  | .horizontal => ∀ (x : Fin l.width) (y : Fin l.height), y.val ≤ k → p.get x y = p'.get x y

namespace Plane

theorem agreeUpTo_iff_along {k : Nat} :
    AgreeUpTo k p p' o ↔ ∀ i, BlockVideo.AgreeUpTo k (p.line o i) (p'.line o i) := by
  cases o with
  | vertical =>
    constructor
    · intro h y x hx hk
      rw [p.getElem_row y hx, p'.getElem_row y hx]
      exact h ⟨x, hx⟩ y hk
    · intro h x y hk
      rw [← p.getElem_row y x.isLt, ← p'.getElem_row y x.isLt]
      exact h y x x.isLt hk
  | horizontal =>
    constructor
    · intro h x y hy hk
      rw [p.getElem_column x hy, p'.getElem_column x hy]
      exact h x ⟨y, hy⟩ hk
    · intro h x y hk
      rw [← p.getElem_column x y.isLt, ← p'.getElem_column x y.isLt]
      exact h x y y.isLt hk

theorem agreeUpTo_iff_across {k : Nat} :
    AgreeUpTo k p p' o.swap ↔
      ∀ i : Fin (l.lineCount o), i.val ≤ k → p.line o i = p'.line o i := by
  cases o with
  | vertical =>
    constructor
    · intro h y hk
      apply Vector.ext
      intro x hx
      rw [p.getElem_row y hx, p'.getElem_row y hx]
      exact h ⟨x, hx⟩ y hk
    · intro h x y hk
      rw [← p.getElem_row y x.isLt, ← p'.getElem_row y x.isLt]
      exact congrArg (fun line => getElem line x.val x.isLt) (h y hk)
  | horizontal =>
    constructor
    · intro h x hk
      apply Vector.ext
      intro y hy
      rw [p.getElem_column x hy, p'.getElem_column x hy]
      exact h x ⟨y, hy⟩ hk
    · intro h x y hk
      rw [← p.getElem_column x y.isLt, ← p'.getElem_column x y.isLt]
      exact congrArg (fun line => getElem line y.val y.isLt) (h x hk)

end Plane

namespace Filtered

variable {edges : Fin (l.lineCount o) → List Edge}

theorem agree_along (h : Filtered o edges p q) (h' : Filtered o edges p' q')
    (ascending : ∀ i, (edges i).Pairwise (·.position < ·.position)) {k : Nat}
    (agree : p.AgreeUpTo (k + 14) p' o) : q.AgreeUpTo k q' o :=
  Plane.agreeUpTo_iff_along.2 fun i =>
    Edge.applyAll_agree (ascending i) (h.line i) (h'.line i) (Plane.agreeUpTo_iff_along.1 agree i)

theorem agree_across (h : Filtered o edges p q) (h' : Filtered o edges p' q') {k : Nat}
    (agree : p.AgreeUpTo k p' o.swap) : q.AgreeUpTo k q' o.swap :=
  Plane.agreeUpTo_iff_across.2 fun i hk => by
    have result := h.line i
    rw [Plane.agreeUpTo_iff_across.1 agree i hk, h'.line i] at result
    exact (Except.ok.inj result).symm

end Filtered

/-- Of two planes with the same edges, either both are stopped by the same cut or both are
deblocked. Where they agree on the rows up to `k + 14`, the results agree on those up to `k`, and so
for columns. -/
theorem deblockPlane_lookAhead {blocks : Array BlockEdges} {plan : EdgePlan l g}
    (accepted : EdgePlan.ofArray? l g blocks = .ok plan) (table : LevelTable) (p p' : Plane l) :
    ∃ r r',
      deblockPlane g blocks table p = Outcome.ofChecked (do
        EdgePlan.requireCut l g .vertical
        EdgePlan.requireCut l g .horizontal
        return r) ∧
      deblockPlane g blocks table p' = Outcome.ofChecked (do
        EdgePlan.requireCut l g .vertical
        EdgePlan.requireCut l g .horizontal
        return r') ∧
      ∀ o k, p.AgreeUpTo (k + 14) p' o → r.AgreeUpTo k r' o := by
  obtain ⟨q, hv⟩ := plan.exists_filtered table .vertical p
  obtain ⟨r, hh⟩ := plan.exists_filtered table .horizontal q
  obtain ⟨q', hv'⟩ := plan.exists_filtered table .vertical p'
  obtain ⟨r', hh'⟩ := plan.exists_filtered table .horizontal q'
  refine ⟨r, r', EdgePlan.deblockPlane_eq_of_cuts accepted hv hh,
    EdgePlan.deblockPlane_eq_of_cuts accepted hv' hh', fun o k agree => ?_⟩
  cases o with
  | vertical =>
    have first : q.AgreeUpTo k q' .vertical := hv.agree_along hv' plan.edgesOn_ascending agree
    exact hh.agree_across hh' first
  | horizontal =>
    have first : q.AgreeUpTo (k + 14) q' .horizontal := hv.agree_across hv' agree
    exact hh.agree_along hh' plan.edgesOn_ascending first

theorem deblockPlane_corner_lookAhead :
    EdgePlan.ofArray? _ _ EdgePlan.corner.blocks.toArray = .ok .corner ∧
    ∃ r r' : Plane (.owned 44 44 0),
      deblockPlane .sparse EdgePlan.corner.blocks.toArray .standard (.constant _ 7) = .ok r ∧
      deblockPlane .sparse EdgePlan.corner.blocks.toArray .standard
        ((Plane.constant _ 7).setLine .vertical ⟨40, by decide⟩ (.replicate _ 90)) = .ok r' ∧
      r.AgreeUpTo 25 r' .horizontal := by
  have accepted := EdgePlan.ofArray?_eq_ok_iff.2 (rfl : EdgePlan.corner.blocks.toArray = _)
  obtain ⟨r, r', hr, hr', agree⟩ := deblockPlane_lookAhead accepted .standard (.constant _ 7)
    ((Plane.constant _ 7).setLine .vertical ⟨40, by decide⟩ (.replicate _ 90))
  rw [EdgePlan.requireCut_corner, EdgePlan.requireCut_corner] at hr hr'
  refine ⟨accepted, r, r', hr, hr', agree .horizontal 25 ?_⟩
  refine Plane.agreeUpTo_iff_across (o := .vertical).2 fun i hi => ?_
  refine (Plane.line_setLine_of_ne _ _ fun h => ?_).symm
  have := congrArg Fin.val h
  simp only at this
  omega

end BlockVideo
