import BlockVideo.EdgeGrid
import BlockVideo.EdgeMap
import BlockVideo.Fault

/-!
# The edges of a superblock

For one plane of one superblock: the width of the vertical edge on the left of each position and of
the horizontal edge above it, the positions that also have edges through their middle, and the
filter level of each position.

Well-formed edges have at most one width at a position and orientation, keep to the positions of
the grid, and have levels below 64 wherever there is an edge. On the left and upper side of the
plane there is nothing to filter against, so no edge may be asked for there.
-/

namespace BlockVideo

structure BlockEdges where
  left : EdgeMap
  above : EdgeMap
  /-- The positions with edges through their middle, in both orientations. -/
  inner : Positions
  levels : Vector UInt8 64
  deriving DecidableEq

namespace BlockEdges

/-- What the edges of a superblock take in a list: seven position sets and the levels. -/
def bytes : Nat := 7 * 8 + 64

def uniform (level : UInt8) : BlockEdges := ⟨.empty, .empty, 0, .replicate 64 level⟩

def none : BlockEdges := uniform 0

instance : Inhabited BlockEdges := ⟨none⟩

def edges (m : BlockEdges) : Orientation → EdgeMap
  | .vertical => m.left
  | .horizontal => m.above

def modifyEdges (m : BlockEdges) (o : Orientation) (f : EdgeMap → EdgeMap) : BlockEdges :=
  match o with
  | .vertical => { m with left := f m.left }
  | .horizontal => { m with above := f m.above }

def setLevel (m : BlockEdges) (i : Nat) (level : UInt8) : Checked BlockEdges :=
  if h : i < 64 then .ok { m with levels := m.levels.set i level } else .error (.levelOutside i)

def used (m : BlockEdges) : Positions := m.left.union ||| m.above.union ||| m.inner

/-- There is an edge at position `i`: on one of its sides, or through its middle. -/
def HasEdge (m : BlockEdges) (i : Nat) : Prop :=
  (∃ o w, ((m.edges o).withWidth w).has i = true) ∨ m.inner.has i = true

theorem has_used {m : BlockEdges} {i : Nat} : m.used.has i = true ↔ m.HasEdge i := by
  simp only [used, Positions.has_or, Bool.or_eq_true, EdgeMap.has_union, HasEdge]
  refine or_congr ⟨?_, ?_⟩ Iff.rfl
  · rintro (⟨w, h⟩ | ⟨w, h⟩)
    · exact ⟨.vertical, w, h⟩
    · exact ⟨.horizontal, w, h⟩
  · rintro ⟨o, w, h⟩
    cases o
    · exact .inl ⟨w, h⟩
    · exact .inr ⟨w, h⟩

/-- The level of a position. -/
def level (m : BlockEdges) (g : EdgeGrid) (row col : Fin g.steps) : UInt8 :=
  getElem m.levels (g.levelIndex row col) (EdgeGrid.levelIndex_lt row.isLt col.isLt)

/-! ## Flaws -/

def overlapFlaw? (m : BlockEdges) (o : Orientation) : Option Error :=
  if (m.edges o).overlaps = 0 then .none
  else some (.overlappingWidths o (m.edges o).overlaps)

def gridFlaw? (m : BlockEdges) (g : EdgeGrid) : Option Error :=
  if m.used &&& ~~~g.all = 0 then .none
  else some (.outsideGrid g.positions (m.used &&& ~~~g.all))

def levelFlawAt? (m : BlockEdges) (g : EdgeGrid) (row col : Fin g.steps) : Option Error :=
  if m.used.has (g.bit row col) ∧ 64 ≤ (m.level g row col).toNat then
    some (.filterLevel (m.level g row col).toNat (g.levelIndex row col))
  else .none

/-- The first flaw of the edges on their own; levels are looked at row by row. -/
def flaw? (m : BlockEdges) (g : EdgeGrid) : Option Error :=
  m.overlapFlaw? .vertical <|> m.overlapFlaw? .horizontal <|> m.gridFlaw? g <|>
    (List.finRange g.steps).findSome? fun row =>
      (List.finRange g.steps).findSome? fun col => m.levelFlawAt? g row col

/-- An edge on the left side of superblock column 0, or else on the upper side of row 0. -/
def borderFlaw? (m : BlockEdges) (g : EdgeGrid) (column row : Nat) : Option Error :=
  if column = 0 ∧ m.left.union &&& g.columnPositions 0 ≠ 0 then
    some (.outerEdge .vertical column row)
  else if row = 0 ∧ m.above.union &&& g.rowPositions 0 ≠ 0 then
    some (.outerEdge .horizontal column row)
  else .none

/-- The first flaw of the edges as those of superblock (`column`, `row`). -/
def flawAt? (m : BlockEdges) (g : EdgeGrid) (column row : Nat) : Option Error :=
  m.flaw? g <|> m.borderFlaw? g column row

theorem overlapFlaw?_eq_none_iff {m : BlockEdges} {o : Orientation} :
    m.overlapFlaw? o = .none ↔ (m.edges o).overlaps = 0 := by
  unfold overlapFlaw?
  split <;> simp_all

theorem gridFlaw?_eq_none_iff {m : BlockEdges} {g : EdgeGrid} :
    m.gridFlaw? g = .none ↔ m.used &&& ~~~g.all = 0 := by
  unfold gridFlaw?
  split <;> simp_all

theorem levelFlawAt?_eq_none_iff {m : BlockEdges} {g : EdgeGrid} {row col : Fin g.steps} :
    m.levelFlawAt? g row col = .none ↔
      (m.used.has (g.bit row col) = true → (m.level g row col).toNat < 64) := by
  unfold levelFlawAt?
  split
  · next h => exact iff_of_false (by simp) fun h' => absurd (h' h.1) (Nat.not_lt.2 h.2)
  · next h => exact iff_of_true rfl fun h' => Nat.lt_of_not_le fun h'' => h ⟨h', h''⟩

theorem flaw?_eq_none_iff {m : BlockEdges} {g : EdgeGrid} :
    m.flaw? g = .none ↔
      (∀ o, (m.edges o).overlaps = 0) ∧ m.used &&& ~~~g.all = 0 ∧
        ∀ row col : Fin g.steps,
          m.used.has (g.bit row col) = true → (m.level g row col).toNat < 64 := by
  simp only [flaw?, Option.orElse_eq_orElse, Option.orElse_eq_or, Option.or_eq_none_iff,
    overlapFlaw?_eq_none_iff, gridFlaw?_eq_none_iff, List.findSome?_eq_none_iff,
    levelFlawAt?_eq_none_iff, List.mem_finRange, true_implies]
  exact ⟨fun ⟨hv, hh, h⟩ => ⟨fun o => by cases o <;> assumption, h⟩,
    fun ⟨ho, h⟩ => ⟨ho .vertical, ho .horizontal, h⟩⟩

theorem borderFlaw?_eq_none_iff {m : BlockEdges} {g : EdgeGrid} {column row : Nat} :
    m.borderFlaw? g column row = .none ↔
      (column = 0 → m.left.union &&& g.columnPositions 0 = 0) ∧
        (row = 0 → m.above.union &&& g.rowPositions 0 = 0) := by
  unfold borderFlaw?
  split
  · simp_all
  · split <;> simp_all

theorem flawAt?_eq_none_iff {m : BlockEdges} {g : EdgeGrid} {column row : Nat} :
    m.flawAt? g column row = .none ↔
      m.flaw? g = .none ∧ m.borderFlaw? g column row = .none := by
  simp only [flawAt?, Option.orElse_eq_orElse, Option.orElse_eq_or, Option.or_eq_none_iff]

/-- Drops the edges that would lie on the left and upper side of the plane. -/
def withoutOuterEdges (m : BlockEdges) (g : EdgeGrid) (column row : Nat) : BlockEdges :=
  { m with
    left := if column = 0 then m.left.clear (g.columnPositions 0) else m.left
    above := if row = 0 then m.above.clear (g.rowPositions 0) else m.above }

end BlockEdges

/-- The edges of one superblock of a frame. Both chroma planes share theirs. -/
structure FrameEdges where
  luma : BlockEdges
  chroma : BlockEdges
  deriving DecidableEq, Inhabited

def FrameEdges.bytes : Nat := 2 * BlockEdges.bytes

end BlockVideo
