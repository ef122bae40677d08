import BlockVideo.EdgePlan
import BlockVideo.Outcome
import BlockVideo.Plane.Rows

/-!
# Deblocking

A pass filters the edges of one orientation. Vertical edges are filtered row by row, each row from
left to right through its superblocks. Horizontal edges are filtered lane by lane: a lane is a
column of superblocks, and its superblocks are filtered from top to bottom, each column by column.
A plane is deblocked by a pass over the vertical edges and then one over the horizontal edges; a
frame by deblocking its three planes. `deblockSuperblock` filters the edges of a single superblock.

Everything is checked before the first sample changes.
-/

namespace BlockVideo

namespace EdgeGrid

variable (g : EdgeGrid)

/-- The columns of lane `column` that meet edge positions: of the `blockDim` columns of a lane, or
fewer in the last one, those within the span. -/
def laneWidth (width column : Nat) : Nat :=
  min (min g.blockDim (width - column * g.blockDim)) g.span

theorem laneWidth_eq (width column : Nat) : g.laneWidth width column = g.meeting width column := by
  have : g.span ≤ g.blockDim := by
    have := g.span_le
    simp only [span, spacing]
    omega
  simp only [laneWidth, meeting]
  omega

end EdgeGrid

/-- Filters the edges of the superblock in place `across` and `along`, counted across and along the
lines, on the first `lines` of its lines. -/
def BlockEdges.filterLines {l : Layout} (m : BlockEdges) (g : EdgeGrid) (table : LevelTable)
    (o : Orientation) (across along : Nat) {lines : Nat}
    (h : lines ≤ g.meeting (l.lineCount o) across) (p : Plane l) : Checked (Plane l) :=
  (List.finRange lines).foldlM (fun q (i : Fin lines) =>
    have meets := EdgeGrid.lt_meeting_iff.1 (Nat.lt_of_lt_of_le i.isLt h)
    q.editLine o ⟨across * g.blockDim + i, meets.2⟩ <| Edge.applyAll <|
      m.edgesAlong g table o ⟨i / EdgeGrid.spacing, EdgeGrid.lt_span_iff.1 meets.1⟩ along
        (l.lineLength o)) p

namespace EdgePlan

variable {l : Layout} {g : EdgeGrid}

/-- The bytes of an empty list: where it starts, how long it is, how long it can get. -/
def listBytes : Nat := 24

/-- Asks for the cuts that a pass works on: the rows of the plane and, for horizontal edges, a list
of row pieces for every superblock column. -/
def requireCut (l : Layout) (g : EdgeGrid) (o : Orientation) : Checked Unit := do
  if o = .horizontal then Capacity.require (g.columns l) listBytes
  let _ ← l.rowStarts

theorem requireCut_eq_ok_iff {o : Orientation} :
    requireCut l g o = .ok () ↔
      l.stride ≠ 0 ∧ (o = .horizontal → g.columns l * listBytes ≤ Capacity.limit) := by
  cases o <;> by_cases h : l.stride = 0 <;>
    by_cases hc : g.columns l * listBytes ≤ Capacity.limit <;>
    simp [requireCut, Layout.rowStarts, Capacity.require, h, hc, bind, Except.bind, pure,
      Except.pure]

/-- Filters the edges on row `y`. Only the rows that meet edge positions have any. -/
def filterRow (plan : EdgePlan l g) (table : LevelTable) (y : Fin l.height) (p : Plane l) :
    Checked (Plane l) :=
  if h : y % g.blockDim / EdgeGrid.spacing < g.steps then
    p.editLine .vertical y fun row =>
      (List.finRange (g.columns l)).foldlM (fun row column =>
        let m := plan.block column ⟨y / g.blockDim, EdgeGrid.div_lt_count y.isLt⟩
        Edge.applyAll (m.edgesAlong g table .vertical ⟨_, h⟩ column l.width) row) row
  else .ok p

def filterRows (plan : EdgePlan l g) (table : LevelTable) (p : Plane l) : Checked (Plane l) :=
  (List.finRange l.cutRows).foldlM (fun q (y : Fin l.cutRows) =>
    plan.filterRow table ⟨y, Nat.lt_of_lt_of_le y.isLt (Nat.min_le_left ..)⟩ q) p

def filterLane (plan : EdgePlan l g) (table : LevelTable) (column : Fin (g.columns l))
    (p : Plane l) : Checked (Plane l) :=
  (List.finRange (g.rows l)).foldlM (fun q row =>
    (plan.block column row).filterLines g table .horizontal column row
      (Nat.le_of_eq (g.laneWidth_eq l.width column)) q) p

/-- Filters the lanes, left to right. Lanes without samples are left alone. -/
def filterLanes (plan : EdgePlan l g) (table : LevelTable) (p : Plane l) : Checked (Plane l) :=
  if l.height = 0 then .ok p
  else (List.finRange (g.columns l)).foldlM (fun q column => plan.filterLane table column q) p

/-- One pass. The plane is cut first. -/
def pass (plan : EdgePlan l g) (table : LevelTable) (o : Orientation) (p : Plane l) :
    Checked (Plane l) := do
  requireCut l g o
  match o with
  | .vertical => plan.filterRows table p
  | .horizontal => plan.filterLanes table p

/-- Both passes; the second reads what the first has written. -/
def passes (plan : EdgePlan l g) (table : LevelTable) (p : Plane l) : Checked (Plane l) := do
  plan.pass table .horizontal (← plan.pass table .vertical p)

end EdgePlan

variable {l : Layout}

def deblockPass (g : EdgeGrid) (blocks : Array BlockEdges) (table : LevelTable) (o : Orientation)
    (p : Plane l) : Outcome (Plane l) := do
  let plan ← Outcome.ofExcept (EdgePlan.ofArray? l g blocks)
  Outcome.ofChecked (plan.pass table o p)

def deblockPlane (g : EdgeGrid) (blocks : Array BlockEdges) (table : LevelTable) (p : Plane l) :
    Outcome (Plane l) := do
  let plan ← Outcome.ofExcept (EdgePlan.ofArray? l g blocks)
  Outcome.ofChecked (plan.passes table p)

def superblockFlaw? (l : Layout) (g : EdgeGrid) (m : BlockEdges) (column row : Nat) :
    Option Error :=
  if ¬ l.Aligned then some (.unaligned l.width l.height)
  else if g.columns l ≤ column ∨ g.rows l ≤ row then
    some (.plane s!"superblock ({column}, {row}) outside {g.columns l}x{g.rows l} grid")
  else m.flawAt? g column row

theorem superblockFlaw?_eq_none_iff {g : EdgeGrid} {m : BlockEdges} {column row : Nat} :
    superblockFlaw? l g m column row = none ↔
      l.Aligned ∧ column < g.columns l ∧ row < g.rows l ∧ m.flawAt? g column row = none := by
  unfold superblockFlaw?
  by_cases aligned : l.Aligned
  · by_cases outside : g.columns l ≤ column ∨ g.rows l ≤ row
    · rw [if_neg (not_not_intro aligned), if_pos outside]
      exact iff_of_false nofun fun ⟨_, hc, hr, _⟩ => by omega
    · rw [if_neg (not_not_intro aligned), if_neg outside]
      exact ⟨fun h => ⟨aligned, by omega, by omega, h⟩, fun h => h.2.2.2⟩
  · rw [if_pos aligned]
    exact iff_of_false nofun fun h => aligned h.1

/-- Filters the edges of one orientation of superblock (`column`, `row`). -/
def deblockSuperblock (g : EdgeGrid) (m : BlockEdges) (table : LevelTable) (o : Orientation)
    (column row : Nat) (p : Plane l) : Outcome (Plane l) := do
  Outcome.unlessFlawed (superblockFlaw? l g m column row)
  let (across, along) := o.cell row column
  Outcome.ofChecked (m.filterLines g table o across along (Nat.le_refl _) p)

structure Frame (luma cb cr : Layout) where
  luma : Plane luma
  cb : Plane cb
  cr : Plane cr
  deriving DecidableEq

/-- Deblocks a frame. All three planes are checked before the first one is filtered. -/
def deblockFrame {luma cb cr : Layout} (lumaGrid chromaGrid : EdgeGrid) (edges : Array FrameEdges)
    (table : LevelTable) (f : Frame luma cb cr) : Outcome (Frame luma cb cr) := do
  let lumaPlan ← Outcome.ofExcept (EdgePlan.ofArray? luma lumaGrid (edges.map (·.luma)))
  let cbPlan ← Outcome.ofExcept (EdgePlan.ofArray? cb chromaGrid (edges.map (·.chroma)))
  let crPlan ← Outcome.ofExcept (EdgePlan.ofArray? cr chromaGrid (edges.map (·.chroma)))
  Outcome.ofChecked do
    return ⟨← lumaPlan.passes table f.luma, ← cbPlan.passes table f.cb,
      ← crPlan.passes table f.cr⟩

end BlockVideo
