import BlockVideo.BlockEdges
import BlockVideo.Plane.Line

/-!
# Edge plans

An edge plan is the edges of all superblocks of a plane, row by row, accepted as a whole: the plane
is made of 4x4 blocks, each superblock has its edges, and none of them has a flaw. `Edge` is one
edge of a line: where it is crossed, how wide the filter is, and with which thresholds.
-/

namespace BlockVideo

structure Edge where
  /-- The first sample behind the edge. -/
  position : Nat
  width : EdgeWidth
  thresholds : Thresholds
  deriving DecidableEq, Repr

/-- The width that fits a line of `length` samples. A wide edge in front of the last four samples
becomes a medium one. -/
def EdgeWidth.fit (w : EdgeWidth) (position length : Nat) : EdgeWidth :=
  if length < position + w.reach then .medium else w

def Edge.apply {n : Nat} (e : Edge) (line : Vector UInt8 n) : Checked (Vector UInt8 n) :=
  if e.width.reach ≤ e.position then do
    let start := e.position - e.width.reach
    let around ← Run.window line start (2 * e.width.reach)
    let filtered ← EdgeFilter.filter e.width e.thresholds around
    Run.replace line start filtered.get
  else .error (.runOutside ((e.position : Int) - e.width.reach) (2 * e.width.reach) n)

def Edge.applyAll {n : Nat} (es : List Edge) (line : Vector UInt8 n) : Checked (Vector UInt8 n) :=
  es.foldlM (fun s e => e.apply s) line

/-- From the middle of a position to its edge. -/
def innerOffset : Nat := 4

/-- Row and column, from the places across and along the lines. The same exchange leads back. -/
def Orientation.cell {α : Type} (across along : α) : Orientation → α × α
  | vertical => (across, along)
  | horizontal => (along, across)

namespace BlockEdges

/-- The edges that a superblock has at one of its positions, on a line of `length` samples that
meets the position at `position`: the edge of the position, then the one through its middle. -/
def edgesAt (m : BlockEdges) (g : EdgeGrid) (table : LevelTable) (o : Orientation)
    (across along : Fin g.steps) (position length : Nat) : List Edge :=
  let (row, col) := o.cell across along
  let thresholds := table.entry (m.level g row col)
  if length ≤ position then []
  else
    (match (m.edges o).widthAt (g.bit row col) with
      | some w => [⟨position, w.fit position length, thresholds⟩]
      | .none => []) ++
    if m.inner.has (g.bit row col) ∧ position + innerOffset < length then
      [⟨position + innerOffset, .narrow, thresholds⟩]
    else []

/-- The edges that a superblock has on a line of `length` samples which meets its positions in place
`across`. The superblock is number `along` on that line. -/
def edgesAlong (m : BlockEdges) (g : EdgeGrid) (table : LevelTable) (o : Orientation)
    (across : Fin g.steps) (along length : Nat) : List Edge :=
  (List.finRange g.steps).flatMap fun step =>
    m.edgesAt g table o across step (along * g.blockDim + EdgeGrid.spacing * step) length

end BlockEdges

/-- Planes are filtered in whole 4x4 blocks. -/
def Layout.Aligned (l : Layout) : Prop := l.width % 4 = 0 ∧ l.height % 4 = 0

instance (l : Layout) : Decidable l.Aligned := inferInstanceAs (Decidable (_ ∧ _))

namespace EdgeGrid

def columns (g : EdgeGrid) (l : Layout) : Nat := g.count l.width

def rows (g : EdgeGrid) (l : Layout) : Nat := g.count l.height

end EdgeGrid

structure EdgePlan (l : Layout) (g : EdgeGrid) where
  blocks : Vector BlockEdges (g.columns l * g.rows l)
  aligned : l.Aligned
  accepted : ∀ i : Fin (g.columns l * g.rows l),
    (blocks.get i).flawAt? g (i % g.columns l) (i / g.columns l) = none

namespace EdgePlan

/-- The plan of these edges, or their first flaw: of the plane, of their number, or of the first
superblock that has one. -/
def ofArray? (l : Layout) (g : EdgeGrid) (blocks : Array BlockEdges) :
    Except Error (EdgePlan l g) :=
  if ha : l.Aligned then
    if hc : blocks.size = g.columns l * g.rows l then
      let blocks : Vector BlockEdges (g.columns l * g.rows l) := ⟨blocks, hc⟩
      match hf : (List.finRange (g.columns l * g.rows l)).findSome? fun i =>
          (blocks.get i).flawAt? g (i % g.columns l) (i / g.columns l) with
      | some e => .error e
      | none => .ok ⟨blocks, ha, fun i => List.findSome?_eq_none_iff.1 hf i (List.mem_finRange i)⟩
    else .error (.maskCount (g.columns l * g.rows l) blocks.size)
  else .error (.unaligned l.width l.height)

variable {l : Layout} {g : EdgeGrid}

theorem ofArray?_eq_ok_iff {blocks : Array BlockEdges} {plan : EdgePlan l g} :
    ofArray? l g blocks = .ok plan ↔ plan.blocks.toArray = blocks := by
  constructor
  · intro h
    unfold ofArray? at h
    split at h
    · split at h
      · simp only at h
        split at h
        · cases h
        · cases h
          rfl
      · cases h
    · cases h
  · rintro rfl
    unfold ofArray?
    rw [dif_pos plan.aligned, dif_pos plan.blocks.size_toArray]
    simp only
    split
    · next e h =>
      obtain ⟨i, -, hi⟩ := List.exists_of_findSome?_eq_some h
      rw [plan.accepted i] at hi
      cases hi
    · rfl

def block (plan : EdgePlan l g) (column : Fin (g.columns l)) (row : Fin (g.rows l)) : BlockEdges :=
  getElem plan.blocks (row * g.columns l + column) (RowMajor.number_lt_mul row.isLt column.isLt)

end EdgePlan

end BlockVideo
