import BlockVideo.InPlace
import BlockVideo.Proofs.Answered

/-!
# Deblocking in place

The same checks and the same loops, but every line is written to the plane as soon as it is
filtered. All checks still come first, so a refusal leaves the plane as it was. That holds for a
frame too: it is refused for its first plane that deblocking would refuse on its own, and then none
of its planes has changed (`deblockFrame_all_or_nothing`).
-/

namespace BlockVideo

open InPlace

variable {l : Layout} {g : EdgeGrid} {table : LevelTable} {o : Orientation}

/-! ## One line at a time -/

namespace EdgeGrid

variable {across : Nat} (i : Fin (g.meeting (l.lineCount o) across))

theorem step_lt_of_meeting : i.val / spacing < g.steps :=
  lt_span_iff.1 (lt_meeting_iff.1 i.isLt).1

theorem line_lt_of_meeting : across * g.blockDim + i.val < l.lineCount o :=
  (lt_meeting_iff.1 i.isLt).2

end EdgeGrid

namespace BlockEdges

def filterLine (m : BlockEdges) (g : EdgeGrid) (table : LevelTable) (o : Orientation)
    (across along : Nat) (i : Fin (g.meeting (l.lineCount o) across)) (p : Plane l) :
    Checked (Plane l) :=
  p.editLine o ⟨_, EdgeGrid.line_lt_of_meeting i⟩ <| Edge.applyAll <|
    m.edgesAlong g table o ⟨_, EdgeGrid.step_lt_of_meeting i⟩ along (l.lineLength o)

def filterLinesInPlace (m : BlockEdges) (g : EdgeGrid) (table : LevelTable) (o : Orientation)
    (across along : Nat) : InPlace (Plane l) Unit :=
  (List.finRange (g.meeting (l.lineCount o) across)).forM fun i =>
    write (m.filterLine g table o across along i)

theorem filterLinesInPlace_realizes (m : BlockEdges) (across along : Nat) {lines : Nat}
    (h : lines = g.meeting (l.lineCount o) across) :
    (m.filterLinesInPlace g table o across along).Realizes fun p =>
      Outcome.ofChecked (m.filterLines g table o across along (Nat.le_of_eq h) p) := by
  subst h
  exact Realizes.forM (fun i => .write (m.filterLine g table o across along i)) _

end BlockEdges

namespace EdgePlan

variable (plan : EdgePlan l g)

def filterRowsInPlace (table : LevelTable) : InPlace (Plane l) Unit :=
  (List.finRange l.cutRows).forM fun y =>
    write (plan.filterRow table (y.castLE (Nat.min_le_left ..)))

def filterLanesInPlace (table : LevelTable) : InPlace (Plane l) Unit :=
  if l.height = 0 then pure ()
  else (List.finRange (g.columns l)).forM fun column => (List.finRange (g.rows l)).forM fun row =>
    (plan.block column row).filterLinesInPlace g table .horizontal column row

def passInPlace (table : LevelTable) (o : Orientation) : InPlace (Plane l) Unit := do
  ofOutcome (Outcome.ofChecked (requireCut l g o))
  match o with
  | .vertical => plan.filterRowsInPlace table
  | .horizontal => plan.filterLanesInPlace table

def passesInPlace (table : LevelTable) : InPlace (Plane l) Unit := do
  plan.passInPlace table .vertical
  plan.passInPlace table .horizontal

theorem filterRowsInPlace_realizes :
    (plan.filterRowsInPlace table).Realizes fun p =>
      Outcome.ofChecked (plan.filterRows table p) :=
  Realizes.forM (fun _ => .write _) _

theorem filterLanesInPlace_realizes :
    (plan.filterLanesInPlace table).Realizes fun p =>
      Outcome.ofChecked (plan.filterLanes table p) := by
  unfold filterLanesInPlace filterLanes
  split
  · exact .pure
  · exact Realizes.forM (fun column => Realizes.forM (fun row =>
      (plan.block column row).filterLinesInPlace_realizes column row
        (g.laneWidth_eq l.width column)) _) _

theorem passInPlace_realizes (o : Orientation) :
    (plan.passInPlace table o).Realizes fun p => Outcome.ofChecked (plan.pass table o p) := by
  unfold passInPlace pass
  simp only [Outcome.ofChecked_bind]
  refine .checked fun _ => ?_
  cases o
  · exact plan.filterRowsInPlace_realizes
  · exact plan.filterLanesInPlace_realizes

theorem passesInPlace_realizes :
    (plan.passesInPlace table).Realizes fun p => Outcome.ofChecked (plan.passes table p) :=
  (plan.passInPlace_realizes .vertical).andThen (plan.passInPlace_realizes .horizontal)

variable {plan}

/-- A pass that is stopped by the cut has not written anything. -/
theorem exec_passInPlace {p q : Plane l} (h : Filtered o (plan.edgesOn table o) p q) :
    (plan.passInPlace table o).exec p =
      match requireCut l g o with
      | .ok _ => (.ok (), q)
      | .error f => (.error (.fault f), p) := by
  cases hc : requireCut l g o with
  | ok =>
    have pass : plan.pass table o p = .ok q := plan.pass_eq_ok_iff.2 ⟨hc, h⟩
    exact (plan.passInPlace_realizes o).done (Outcome.ofChecked_eq_ok_iff.2 pass)
  | error f =>
    unfold passInPlace
    rw [hc]
    rfl

end EdgePlan

/-! ## Requests -/

def deblockSuperblockInPlace (g : EdgeGrid) (m : BlockEdges) (table : LevelTable) (o : Orientation)
    (column row : Nat) : InPlace (Plane l) Unit := do
  ofOutcome (Outcome.unlessFlawed (superblockFlaw? l g m column row))
  let (across, along) := o.cell row column
  m.filterLinesInPlace g table o across along

def deblockPassInPlace (g : EdgeGrid) (blocks : Array BlockEdges) (table : LevelTable)
    (o : Orientation) : InPlace (Plane l) Unit := do
  let plan ← ofOutcome (Outcome.ofExcept (EdgePlan.ofArray? l g blocks))
  plan.passInPlace table o

def deblockPlaneInPlace (g : EdgeGrid) (blocks : Array BlockEdges) (table : LevelTable) :
    InPlace (Plane l) Unit := do
  let plan ← ofOutcome (Outcome.ofExcept (EdgePlan.ofArray? l g blocks))
  plan.passesInPlace table

def deblockFrameInPlace {luma cb cr : Layout} (lumaGrid chromaGrid : EdgeGrid)
    (edges : Array FrameEdges) (table : LevelTable) : InPlace (Frame luma cb cr) Unit := do
  let lumaPlan ← ofOutcome (Outcome.ofExcept
    (EdgePlan.ofArray? luma lumaGrid (edges.map (·.luma))))
  let cbPlan ← ofOutcome (Outcome.ofExcept (EdgePlan.ofArray? cb chromaGrid (edges.map (·.chroma))))
  let crPlan ← ofOutcome (Outcome.ofExcept (EdgePlan.ofArray? cr chromaGrid (edges.map (·.chroma))))
  onPart (·.luma) (fun f p => { f with luma := p }) (lumaPlan.passesInPlace table)
  onPart (·.cb) (fun f p => { f with cb := p }) (cbPlan.passesInPlace table)
  onPart (·.cr) (fun f p => { f with cr := p }) (crPlan.passesInPlace table)

theorem deblockSuperblockInPlace_realizes (m : BlockEdges) (column row : Nat) :
    (deblockSuperblockInPlace g m table o column row).Realizes fun p : Plane l =>
      deblockSuperblock g m table o column row p :=
  .checked fun _ => m.filterLinesInPlace_realizes _ _ rfl

theorem deblockPassInPlace_realizes (blocks : Array BlockEdges) :
    (deblockPassInPlace g blocks table o).Realizes fun p : Plane l =>
      deblockPass g blocks table o p :=
  .checked fun plan => plan.passInPlace_realizes o

theorem deblockPlaneInPlace_realizes (blocks : Array BlockEdges) :
    (deblockPlaneInPlace g blocks table).Realizes fun p : Plane l =>
      deblockPlane g blocks table p :=
  .checked fun plan => plan.passesInPlace_realizes

theorem deblockFrameInPlace_realizes {luma cb cr : Layout} (lumaGrid chromaGrid : EdgeGrid)
    (edges : Array FrameEdges) :
    (deblockFrameInPlace lumaGrid chromaGrid edges table).Realizes fun f : Frame luma cb cr =>
      deblockFrame lumaGrid chromaGrid edges table f := by
  refine .checked fun lumaPlan => .checked fun cbPlan => .checked fun crPlan => ?_
  have one_by_one (f : Frame luma cb cr) :
      (do return ⟨← lumaPlan.passes table f.luma, ← cbPlan.passes table f.cb,
        ← crPlan.passes table f.cr⟩ : Checked (Frame luma cb cr)) =
      (do
        let f ← (do return { f with luma := ← lumaPlan.passes table f.luma })
        let f ← (do return { f with cb := ← cbPlan.passes table f.cb })
        return { f with cr := ← crPlan.passes table f.cr }) := by
    simp only [bind_assoc, pure_bind]
  simp only [one_by_one]
  exact lumaPlan.passesInPlace_realizes.onPart.andThen
    (cbPlan.passesInPlace_realizes.onPart.andThen crPlan.passesInPlace_realizes.onPart)

/-! ## Frames -/

def deblockLuma (g : EdgeGrid) (edges : Array FrameEdges) (table : LevelTable) (p : Plane l) :
    Outcome (Plane l) :=
  deblockPlane g (edges.map (·.luma)) table p

def deblockChroma (g : EdgeGrid) (edges : Array FrameEdges) (table : LevelTable) (p : Plane l) :
    Outcome (Plane l) :=
  deblockPlane g (edges.map (·.chroma)) table p

theorem refusal?_deblockPlane {blocks : Array BlockEdges} {p : Plane l} :
    (deblockPlane g blocks table p).refusal? =
      (Outcome.ofExcept (EdgePlan.ofArray? l g blocks)).refusal? :=
  Outcome.refusal?_ofExcept_bind ..

/-- An accepted plane is deblocked, unless there is no room for the list of its lanes. -/
theorem exists_deblockPlane_eq_ok_iff (hw : 0 < l.width) {blocks : Array BlockEdges}
    {p : Plane l} :
    (∃ q, deblockPlane g blocks table p = .ok q) ↔
      (deblockPlane g blocks table p).refusal? = none ∧
        g.columns l * EdgePlan.listBytes ≤ Capacity.limit := by
  have fault := not_congr (Outcome.exists_fault_iff (x := deblockPlane g blocks table p))
  simp only [deblockPlane_eq_fault_iff hw] at fault
  rw [refusal?_deblockPlane] at fault ⊢
  cases accepted : EdgePlan.ofArray? l g blocks with
  | error e =>
    have refused : deblockPlane g blocks table p = .error (.refused e) := by
      rw [deblockPlane, accepted]
      rfl
    simp [refused, Outcome.ofExcept, Outcome.refusal?]
  | ok plan => simpa [accepted, Outcome.ofExcept, Outcome.refusal?] using fault.symm

variable {luma cb cr : Layout} {lumaGrid chromaGrid : EdgeGrid} {edges : Array FrameEdges}
  {f : Frame luma cb cr}

theorem deblockFrame_eq_ok_iff {q : Frame luma cb cr} :
    deblockFrame lumaGrid chromaGrid edges table f = .ok q ↔
      deblockLuma lumaGrid edges table f.luma = .ok q.luma ∧
      deblockChroma chromaGrid edges table f.cb = .ok q.cb ∧
      deblockChroma chromaGrid edges table f.cr = .ok q.cr := by
  simp only [deblockFrame, deblockLuma, deblockChroma, deblockPlane, bind_eq_ok_iff,
    Outcome.ofExcept_eq_ok_iff, Outcome.ofChecked_eq_ok_iff]
  constructor
  · rintro ⟨lumaPlan, hluma, cbPlan, hcb, crPlan, hcr, p, hp, p', hp', p'', hp'', e⟩
    cases e
    exact ⟨⟨lumaPlan, hluma, hp⟩, ⟨cbPlan, hcb, hp'⟩, ⟨crPlan, hcr, hp''⟩⟩
  · rintro ⟨⟨lumaPlan, hluma, hp⟩, ⟨cbPlan, hcb, hp'⟩, ⟨crPlan, hcr, hp''⟩⟩
    exact ⟨lumaPlan, hluma, cbPlan, hcb, crPlan, hcr, _, hp, _, hp', _, hp'', rfl⟩

theorem refusal?_deblockFrame :
    (deblockFrame lumaGrid chromaGrid edges table f).refusal? =
      ((deblockLuma lumaGrid edges table f.luma).refusal? <|>
        (deblockChroma chromaGrid edges table f.cb).refusal? <|>
        (deblockChroma chromaGrid edges table f.cr).refusal?) := by
  simp only [deblockLuma, deblockChroma, refusal?_deblockPlane, deblockFrame]
  cases EdgePlan.ofArray? luma lumaGrid (edges.map (·.luma)) with
  | error e => rfl
  | ok lumaPlan =>
    cases EdgePlan.ofArray? cb chromaGrid (edges.map (·.chroma)) with
    | error e => rfl
    | ok cbPlan => exact Outcome.refusal?_ofExcept_bind ..

/-- Deblocking a frame of planes that have columns gives what deblocking gives for each plane on its
own. It is refused when one of them is, for the first one in order, and it meets a fault only when
none is refused and for one of them there is no room for the list of its lanes. In place, a refusal
leaves all three planes as they were, as it does for a plane, a pass and a superblock. -/
theorem deblockFrame_all_or_nothing (hluma : 0 < luma.width) (hcb : 0 < cb.width)
    (hcr : 0 < cr.width) (lumaGrid chromaGrid : EdgeGrid) (edges : Array FrameEdges)
    (table : LevelTable) (f : Frame luma cb cr) :
    (∀ q, deblockFrame lumaGrid chromaGrid edges table f = .ok q ↔
      deblockLuma lumaGrid edges table f.luma = .ok q.luma ∧
      deblockChroma chromaGrid edges table f.cb = .ok q.cb ∧
      deblockChroma chromaGrid edges table f.cr = .ok q.cr) ∧
    (deblockFrame lumaGrid chromaGrid edges table f).refusal? =
      ((deblockLuma lumaGrid edges table f.luma).refusal? <|>
        (deblockChroma chromaGrid edges table f.cb).refusal? <|>
        (deblockChroma chromaGrid edges table f.cr).refusal?) ∧
    ((∃ x, deblockFrame lumaGrid chromaGrid edges table f = .error (.fault x)) ↔
      (deblockFrame lumaGrid chromaGrid edges table f).refusal? = none ∧
        (Capacity.limit < lumaGrid.columns luma * EdgePlan.listBytes ∨
          Capacity.limit < chromaGrid.columns cb * EdgePlan.listBytes ∨
          Capacity.limit < chromaGrid.columns cr * EdgePlan.listBytes)) ∧
    (deblockFrameInPlace lumaGrid chromaGrid edges table).Realizes (fun f : Frame luma cb cr =>
      deblockFrame lumaGrid chromaGrid edges table f) ∧
    ∀ (l : Layout) (g : EdgeGrid),
      (∀ blocks, (deblockPlaneInPlace g blocks table).Realizes fun p : Plane l =>
        deblockPlane g blocks table p) ∧
      (∀ blocks o, (deblockPassInPlace g blocks table o).Realizes fun p : Plane l =>
        deblockPass g blocks table o p) ∧
      ∀ m o column row, (deblockSuperblockInPlace g m table o column row).Realizes
        fun p : Plane l => deblockSuperblock g m table o column row p := by
  refine ⟨fun q => deblockFrame_eq_ok_iff, refusal?_deblockFrame, ?_,
    deblockFrameInPlace_realizes lumaGrid chromaGrid edges, fun l g =>
      ⟨deblockPlaneInPlace_realizes, fun blocks o => deblockPassInPlace_realizes blocks,
        fun m o => deblockSuperblockInPlace_realizes m⟩⟩
  have result : (∃ q, deblockFrame lumaGrid chromaGrid edges table f = .ok q) ↔
      (∃ p, deblockLuma lumaGrid edges table f.luma = .ok p) ∧
      (∃ p, deblockChroma chromaGrid edges table f.cb = .ok p) ∧
      ∃ p, deblockChroma chromaGrid edges table f.cr = .ok p := by
    simp only [deblockFrame_eq_ok_iff]
    exact ⟨fun ⟨q, h, h', h''⟩ => ⟨⟨_, h⟩, ⟨_, h'⟩, ⟨_, h''⟩⟩,
      fun ⟨⟨p, h⟩, ⟨p', h'⟩, ⟨p'', h''⟩⟩ => ⟨⟨p, p', p''⟩, h, h', h''⟩⟩
  rw [Outcome.exists_fault_iff, result, refusal?_deblockFrame]
  simp only [deblockLuma, deblockChroma, exists_deblockPlane_eq_ok_iff hluma,
    exists_deblockPlane_eq_ok_iff hcb, exists_deblockPlane_eq_ok_iff hcr,
    Option.orElse_eq_orElse, Option.orElse_eq_or, Option.or_eq_none_iff]
  grind

def cornerEdges : Array FrameEdges := EdgePlan.corner.blocks.toArray.map fun m => ⟨m, m⟩

theorem deblockFrame_corner_refused :
    0 < (Layout.owned 44 44 0).width ∧ 0 < (Layout.owned 8 8 0).width ∧
    ∀ f : Frame (.owned 44 44 0) (.owned 44 44 0) (.owned 8 8 0),
      deblockFrame .sparse .sparse cornerEdges .standard f =
        .error (.refused (.maskCount 1 4)) ∧
      (deblockFrameInPlace .sparse .sparse cornerEdges .standard).exec f =
        (.error (.refused (.maskCount 1 4)), f) := by
  refine ⟨by decide, by decide, fun f => ?_⟩
  obtain ⟨-, refusal, -, inPlace, -⟩ := deblockFrame_all_or_nothing (by decide) (by decide)
    (by decide) .sparse .sparse cornerEdges .standard f
  have luma : cornerEdges.map (·.luma) = EdgePlan.corner.blocks.toArray := by
    simp [cornerEdges, Function.comp_def]
  have chroma : cornerEdges.map (·.chroma) = EdgePlan.corner.blocks.toArray := by
    simp [cornerEdges, Function.comp_def]
  have accepted : EdgePlan.ofArray? _ _ EdgePlan.corner.blocks.toArray = .ok .corner :=
    EdgePlan.ofArray?_eq_ok_iff.2 rfl
  have count : EdgePlan.ofArray? (.owned 8 8 0) .sparse EdgePlan.corner.blocks.toArray =
      .error (.maskCount 1 4) := rfl
  have refused : deblockFrame .sparse .sparse cornerEdges .standard f =
      .error (.refused (.maskCount 1 4)) := by
    rw [← Outcome.refusal?_eq_some_iff, refusal, deblockLuma, deblockChroma, deblockChroma, luma,
      chroma, refusal?_deblockPlane, refusal?_deblockPlane, refusal?_deblockPlane, accepted, count]
    rfl
  exact ⟨refused, inPlace.refused refused⟩

/-- With a chroma plane that has too many lanes, a frame meets a fault though none of its planes is
refused. -/
theorem deblockFrame_endless_eq_fault :
    0 < (Layout.owned 8 0 0).width ∧ 0 < Layout.endless.width ∧
    (deblockLuma .luma #[] .standard (.constant (.owned 8 0 0) 1)).refusal? = none ∧
    (deblockChroma .chroma #[] .standard (.constant .endless 1)).refusal? = none ∧
    (deblockChroma .chroma #[] .standard (.constant (.owned 8 0 0) 1)).refusal? = none ∧
    ∃ x, deblockFrame .luma .chroma #[] .standard
      (⟨.constant _ 1, .constant _ 1, .constant _ 1⟩ :
        Frame (.owned 8 0 0) .endless (.owned 8 0 0)) = .error (.fault x) := by
  have accepted {l : Layout} {g : EdgeGrid} (aligned : l.Aligned) (h : l.height = 0) (p : Plane l) :
      (deblockPlane g #[] .standard p).refusal? = none := by
    rw [refusal?_deblockPlane, EdgePlan.ofArray?_noBlocks aligned (.inr h)]
    rfl
  have luma : (deblockLuma .luma #[] .standard (.constant (.owned 8 0 0) 1)).refusal? = none := by
    rw [deblockLuma, Array.map_empty]
    exact accepted (by decide) rfl _
  have cb : (deblockChroma .chroma #[] .standard (.constant .endless 1)).refusal? = none := by
    rw [deblockChroma, Array.map_empty]
    exact accepted (by decide) rfl _
  have cr : (deblockChroma .chroma #[] .standard (.constant (.owned 8 0 0) 1)).refusal? = none := by
    rw [deblockChroma, Array.map_empty]
    exact accepted (by decide) rfl _
  refine ⟨by decide, by decide, luma, cb, cr, Outcome.exists_fault_iff.2 ⟨?_, ?_⟩⟩
  · rw [refusal?_deblockFrame, luma, cb, cr]
    rfl
  · rintro ⟨q, hq⟩
    have hcb := (exists_deblockPlane_eq_ok_iff (by decide)).1 ⟨_, (deblockFrame_eq_ok_iff.1 hq).2.1⟩
    exact absurd hcb.2 (by decide)

end BlockVideo
