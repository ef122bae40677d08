import Mathlib.Data.List.Sort
import BlockVideo.Proofs.PlanFits

/-!
# Deblocking superblock by superblock

A plane can be deblocked by calls for its superblocks, first all for the vertical edges and then all
for the horizontal ones. A call looks at samples that other calls write, so the order matters, but
only along a line: a `Schedule` visits the superblocks of one superblock row from left to right when
vertical edges are filtered, and those of one superblock column from top to bottom when horizontal
ones are. Nothing is said about superblocks that share no line, and there the order does not show:
every schedule gives each line its edges in the order in which the line meets them
(`Schedule.flatMap_share`), which is all that the passes over the plane do.
-/

namespace BlockVideo

theorem flatMap_filter {α β : Type} {f : α → List β} {keep : α → Bool}
    (h : ∀ a, keep a = false → f a = []) (as : List α) :
    (as.filter keep).flatMap f = as.flatMap f := by
  induction as with
  | nil => rfl
  | cons a as ih =>
    rw [List.flatMap_cons, ← ih]
    cases hk : keep a with
    | false => rw [List.filter_cons_of_neg (by simp [hk]), h a hk, List.nil_append]
    | true => rw [List.filter_cons_of_pos hk, List.flatMap_cons]

/-- The entries that are kept come in the order of their numbers, and every number occurs: then a
walk over the entries is a walk over the numbers. -/
theorem flatMap_eq_finRange {α β : Type} {n : Nat} {as : List α} {f : α → List β}
    {f' : Fin n → List β} (keep : α → Bool) (number : α → Fin n)
    (ascending : (as.filter keep).Pairwise fun a b => number a < number b)
    (complete : ∀ k, ∃ a ∈ as, keep a = true ∧ number a = k)
    (dropped : ∀ a, keep a = false → f a = [])
    (kept : ∀ a, keep a = true → f a = f' (number a)) :
    as.flatMap f = (List.finRange n).flatMap f' := by
  have sorted : ((as.filter keep).map number).Pairwise (· < ·) := List.pairwise_map.2 ascending
  have numbers : (as.filter keep).map number = List.finRange n := by
    refine sorted.eq_of_mem_iff (List.pairwise_lt_finRange n) fun k => ?_
    refine iff_of_true ?_ (List.mem_finRange k)
    obtain ⟨a, ha, hk, rfl⟩ := complete k
    exact List.mem_map_of_mem (List.mem_filter.2 ⟨ha, hk⟩)
  rw [← flatMap_filter dropped, ← numbers, List.flatMap_map, List.flatMap_def, List.flatMap_def]
  exact congrArg _ (List.map_congr_left fun a ha => kept a (List.mem_filter.1 ha).2)

variable {l : Layout} {g : EdgeGrid} {table : LevelTable} {o : Orientation}

def superblockPlace : (o : Orientation) → Fin (g.columns l) × Fin (g.rows l) →
    Fin (g.count (l.lineCount o)) × Fin (g.count (l.lineLength o))
  | .vertical, (column, row) => (row, column)
  | .horizontal, (column, row) => (column, row)

theorem exists_superblockPlace
    (t : Fin (g.count (l.lineCount o)) × Fin (g.count (l.lineLength o))) :
    ∃ s, superblockPlace o s = t := by
  cases o
  · exact ⟨(t.2, t.1), rfl⟩
  · exact ⟨t, rfl⟩

/-- Where two superblocks share lines, the first one is met first on them. -/
def Ascends : Orientation → Fin (g.columns l) × Fin (g.rows l) →
    Fin (g.columns l) × Fin (g.rows l) → Prop
  | .vertical, s, t => s.2 = t.2 → s.1 < t.1
  | .horizontal, s, t => s.1 = t.1 → s.2 < t.2

instance : (o : Orientation) → (s t : Fin (g.columns l) × Fin (g.rows l)) →
    Decidable (Ascends o s t)
  | .vertical, s, t => inferInstanceAs (Decidable (s.2 = t.2 → s.1 < t.1))
  | .horizontal, s, t => inferInstanceAs (Decidable (s.1 = t.1 → s.2 < t.2))

theorem ascends_iff {s t : Fin (g.columns l) × Fin (g.rows l)} :
    Ascends o s t ↔ ((superblockPlace o s).1 = (superblockPlace o t).1 →
      (superblockPlace o s).2 < (superblockPlace o t).2) := by
  cases o <;> rfl

/-- An order of the superblocks (column, row) of a plane: each of them occurs, and of two places in
the order that share lines the earlier one is met first on them. So none of them occurs twice. -/
structure Schedule (l : Layout) (g : EdgeGrid) (o : Orientation) where
  order : List (Fin (g.columns l) × Fin (g.rows l))
  complete : ∀ s, s ∈ order
  ascending : order.Pairwise (Ascends o)

def rasterOrder (l : Layout) (g : EdgeGrid) : List (Fin (g.columns l) × Fin (g.rows l)) :=
  (List.finRange (g.rows l)).flatMap fun row =>
    (List.finRange (g.columns l)).map fun column => (column, row)

def Schedule.raster (l : Layout) (g : EdgeGrid) (o : Orientation) : Schedule l g o where
  order := rasterOrder l g
  complete := fun (column, row) => by
    simp [rasterOrder]
  ascending := by
    refine List.pairwise_flatMap.2 ⟨fun row _ => List.pairwise_map.2 ?_, ?_⟩
    · refine (List.pairwise_lt_finRange _).imp fun {a b} h => ?_
      cases o
      · exact fun _ => h
      · exact fun e => absurd e (Fin.ne_of_lt h)
    · refine (List.pairwise_lt_finRange _).imp fun {a b} h s hs t ht => ?_
      obtain ⟨c, -, rfl⟩ := List.mem_map.1 hs
      obtain ⟨d, -, rfl⟩ := List.mem_map.1 ht
      cases o
      · exact fun e => absurd e (Fin.ne_of_lt h)
      · exact fun _ => h

def deblockSuperblocks (plan : EdgePlan l g) (table : LevelTable) (o : Orientation)
    (order : List (Fin (g.columns l) × Fin (g.rows l))) (p : Plane l) : Outcome (Plane l) :=
  order.foldlM (fun q s => deblockSuperblock g (plan.block s.1 s.2) table o s.1 s.2 q) p

namespace EdgePlan

variable (plan : EdgePlan l g)

/-- The edges that superblock (column, row) has on line `i`. -/
def share (table : LevelTable) (o : Orientation) (s : Fin (g.columns l) × Fin (g.rows l))
    (i : Fin (l.lineCount o)) : List Edge :=
  (plan.blockAlong o (superblockPlace o s).1 (superblockPlace o s).2).edgesOn g table o
    (superblockPlace o s).1 (superblockPlace o s).2 i (l.lineLength o)

theorem superblockFlaw?_block (column : Fin (g.columns l)) (row : Fin (g.rows l)) :
    superblockFlaw? l g (plan.block column row) column row = none := by
  have := column.isLt
  have := row.isLt
  rw [superblockFlaw?, if_neg (not_not_intro plan.aligned), if_neg (by omega)]
  exact plan.flawAt?_block column row

theorem deblockSuperblock_eq_ok_iff (s : Fin (g.columns l) × Fin (g.rows l)) {p q : Plane l} :
    deblockSuperblock g (plan.block s.1 s.2) table o s.1 s.2 p = .ok q ↔
      Filtered o (plan.share table o s) p q := by
  rw [deblockSuperblock, plan.superblockFlaw?_block]
  refine Outcome.ofChecked_eq_ok_iff.trans ((BlockEdges.filterLines_eq_ok_iff _ _ rfl).trans ?_)
  cases o <;> rfl

end EdgePlan

/-- A schedule gives each line the edges that it meets, in their order. -/
theorem Schedule.flatMap_share (schedule : Schedule l g o) (plan : EdgePlan l g)
    (i : Fin (l.lineCount o)) :
    (schedule.order.flatMap fun s => plan.share table o s i) = plan.edgesOn table o i := by
  have hi : i / g.blockDim < g.count (l.lineCount o) := EdgeGrid.div_lt_count i.isLt
  -- the superblocks through line `i` are in place `i / blockDim`, and numbered by where they follow
  have through {s} (hs : decide ((superblockPlace o s).1.val = i / g.blockDim) = true) :
      (superblockPlace o s).1 = ⟨i / g.blockDim, hi⟩ := Fin.ext (of_decide_eq_true hs)
  refine flatMap_eq_finRange (fun s => decide ((superblockPlace o s).1.val = i / g.blockDim))
    (fun s => (superblockPlace o s).2) ?_ (fun along => ?_) (fun s hs => ?_) (fun s hs => ?_)
  · refine List.Pairwise.imp_of_mem (fun ha hb h => ascends_iff.1 h ?_)
      (schedule.ascending.filter _)
    exact (through (List.mem_filter.1 ha).2).trans (through (List.mem_filter.1 hb).2).symm
  · obtain ⟨s, hs⟩ := exists_superblockPlace (l := l) (g := g) (o := o) (⟨_, hi⟩, along)
    exact ⟨s, schedule.complete s, by rw [hs, decide_eq_true_iff], by rw [hs]⟩
  · exact BlockEdges.edgesOn_of_ne _ _ _ (of_decide_eq_false hs)
  · rw [EdgePlan.share, through hs]
    rfl

theorem Schedule.deblockSuperblocks_eq_ok_iff (schedule : Schedule l g o) (plan : EdgePlan l g)
    {p q : Plane l} :
    deblockSuperblocks plan table o schedule.order p = .ok q ↔
      Filtered o (plan.edgesOn table o) p q := by
  rw [deblockSuperblocks,
    Filtered.foldlM_eq_ok_iff fun s _ _ _ => plan.deblockSuperblock_eq_ok_iff s]
  simp only [schedule.flatMap_share]

/-- Deblocking by superblocks, in any two schedules, never stops and gives the plane that one
deblocking of the plane gives, or its two passes in turn, unless those find no room for the list of
lanes. The raster order is a schedule for both orientations. -/
theorem deblockSuperblocks_eq_deblockPlane {blocks : Array BlockEdges} {plan : EdgePlan l g}
    (accepted : EdgePlan.ofArray? l g blocks = .ok plan) (hw : 0 < l.width)
    (vertical : Schedule l g .vertical) (horizontal : Schedule l g .horizontal)
    (table : LevelTable) (p : Plane l) :
    (∃ q r, deblockSuperblocks plan table .vertical vertical.order p = .ok q ∧
      deblockSuperblocks plan table .horizontal horizontal.order q = .ok r ∧
      deblockPlane g blocks table p =
        Outcome.ofChecked (do EdgePlan.requireCut l g .horizontal; return r) ∧
      (deblockPass g blocks table .vertical p >>= deblockPass g blocks table .horizontal) =
        deblockPlane g blocks table p) ∧
    ∀ o, ∃ raster : Schedule l g o, raster.order = rasterOrder l g := by
  obtain ⟨q, hv⟩ := plan.exists_filtered table .vertical p
  obtain ⟨r, hh⟩ := plan.exists_filtered table .horizontal q
  refine ⟨⟨q, r, (vertical.deblockSuperblocks_eq_ok_iff plan).2 hv,
    (horizontal.deblockSuperblocks_eq_ok_iff plan).2 hh, ?_, ?_⟩, fun o => ⟨.raster l g o, rfl⟩⟩
  · exact EdgePlan.deblockPlane_eq accepted hw hv hh
  · rw [EdgePlan.deblockPlane_eq accepted hw hv hh, EdgePlan.deblockPass_eq accepted hv,
      EdgePlan.requireCut_vertical hw]
    exact EdgePlan.deblockPass_eq accepted hh

def Schedule.bottomUp : Schedule (.owned 44 44 0) .sparse .vertical where
  order := (List.finRange _).reverse.flatMap fun row =>
    (List.finRange _).map fun column => (column, row)
  complete := fun s => by simp
  ascending := by decide

def Schedule.leftward : Schedule (.owned 44 44 0) .sparse .horizontal where
  order := (List.finRange _).reverse.flatMap fun column =>
    (List.finRange _).map fun row => (column, row)
  complete := fun s => by simp
  ascending := by decide

theorem deblockSuperblocks_corner :
    EdgePlan.ofArray? _ _ EdgePlan.corner.blocks.toArray = .ok .corner ∧
    0 < (Layout.owned 44 44 0).width ∧
    ∃ q r, deblockSuperblocks .corner .standard .vertical Schedule.bottomUp.order
        (.constant _ 7) = .ok q ∧
      deblockSuperblocks .corner .standard .horizontal Schedule.leftward.order q = .ok r ∧
      deblockPlane .sparse EdgePlan.corner.blocks.toArray .standard (.constant _ 7) =
        Outcome.ofChecked (do EdgePlan.requireCut (.owned 44 44 0) .sparse .horizontal; return r) :=
  have accepted := EdgePlan.ofArray?_eq_ok_iff.2 rfl
  have ⟨q, r, hv, hh, h, _⟩ := (deblockSuperblocks_eq_deblockPlane accepted (by decide)
    .bottomUp .leftward .standard (.constant _ 7)).1
  ⟨accepted, by decide, q, r, hv, hh, h⟩

end BlockVideo
