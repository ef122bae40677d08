import BlockVideo.Proofs.PlanEdges

/-!
# Transposed edges

Rows and columns of the edge grid change places: position (`row`, `col`) goes to (`col`, `row`), and
the vertical edges of a superblock become horizontal ones and back. Bits and levels that belong to
no position of the grid stay where they are.

Transposed edges are as well-formed as the edges were, and they give a line of the other orientation
the same edges (`edgesOn_transpose`).
-/

namespace BlockVideo

variable {g : EdgeGrid} {o : Orientation} {table : LevelTable}

/-! ## Position sets -/

namespace Positions

def ofFn (f : Nat → Bool) : Positions :=
  (BitVec.ofBoolListLE (List.ofFn fun i : Fin 64 => f i.val)).cast (by simp)

theorem has_ofFn (f : Nat → Bool) {i : Nat} (h : i < 64) : (ofFn f).has i = f i := by
  simp only [has, ofFn, BitVec.getLsbD_cast, BitVec.getLsbD_ofBoolListLE]
  rw [List.getD_eq_getElem?_getD, List.getElem?_ofFn, dif_pos h, Option.getD_some]

end Positions

namespace EdgeGrid

/-- The bit with which bit `i` changes places. -/
def exchange (g : EdgeGrid) (i : Nat) : Nat :=
  if i < g.positions then i % g.steps * g.steps + i / g.steps else i

theorem exchange_of_le {i : Nat} (h : g.positions ≤ i) : g.exchange i = i :=
  if_neg (Nat.not_lt.2 h)

theorem exchange_bit {row col : Nat} (hr : row < g.steps) (hc : col < g.steps) :
    g.exchange (g.bit row col) = g.bit col row := by
  rw [exchange, if_pos (bit_lt_positions hr hc), bit_eq hr hc, bit_eq hc hr,
    RowMajor.mod_eq row hc, RowMajor.div_eq row hc]

theorem exchange_exchange (i : Nat) : g.exchange (g.exchange i) = i := by
  rcases Nat.lt_or_ge i g.positions with h | h
  · obtain ⟨row, col, hr, hc, rfl⟩ := exists_bit h
    rw [exchange_bit hr hc, exchange_bit hc hr]
  · rw [exchange_of_le h, exchange_of_le h]

theorem exchange_lt_positions {i : Nat} : g.exchange i < g.positions ↔ i < g.positions := by
  rcases Nat.lt_or_ge i g.positions with h | h
  · refine iff_of_true ?_ h
    obtain ⟨row, col, hr, hc, rfl⟩ := exists_bit h
    rw [exchange_bit hr hc]
    exact bit_lt_positions hc hr
  · rw [exchange_of_le h]

end EdgeGrid

namespace Positions

def transpose (s : Positions) (g : EdgeGrid) : Positions := ofFn fun i => s.has (g.exchange i)

theorem has_transpose (s : Positions) (i : Nat) :
    (s.transpose g).has i = s.has (g.exchange i) := by
  rcases Nat.lt_or_ge i 64 with h | h
  · exact has_ofFn _ h
  · rw [EdgeGrid.exchange_of_le (Nat.le_trans g.positions_le h), has_of_ge _ h, has_of_ge _ h]

theorem transpose_transpose (s : Positions) : (s.transpose g).transpose g = s :=
  ext_has fun i _ => by simp only [has_transpose, EdgeGrid.exchange_exchange]

theorem transpose_or (s t : Positions) :
    (s ||| t).transpose g = s.transpose g ||| t.transpose g :=
  ext_has fun i _ => by simp only [has_transpose, has_or]

theorem transpose_and (s t : Positions) :
    (s &&& t).transpose g = s.transpose g &&& t.transpose g :=
  ext_has fun i _ => by simp only [has_transpose, has_and]

theorem transpose_eq_zero_iff {s : Positions} : s.transpose g = 0 ↔ s = 0 := by
  simp only [eq_zero_iff, has_transpose]
  constructor
  · intro h i
    rw [← EdgeGrid.exchange_exchange (g := g) i]
    exact h _
  · exact fun h i => h _

end Positions

namespace EdgeGrid

theorem transpose_all : g.all.transpose g = g.all := by
  refine Positions.ext_has fun i hi => ?_
  rw [Positions.has_transpose, all, Positions.has_below, Positions.has_below]
  rcases Nat.lt_or_ge i g.positions with h | h
  · have h' := exchange_lt_positions.2 h
    have hi' : g.exchange i < 64 := Nat.lt_of_lt_of_le h' g.positions_le
    simp only [h, hi, h', hi', decide_true]
  · rw [exchange_of_le h]

theorem transpose_columnPositions {col : Nat} (hc : col < g.steps) :
    (g.columnPositions col).transpose g = g.rowPositions col := by
  refine Positions.ext_has fun i hi => Bool.eq_iff_iff.2 ?_
  rw [Positions.has_transpose, has_columnPositions, has_rowPositions]
  constructor
  · rintro ⟨-, row, hr, e⟩
    have hb : g.bit col row = i := by rw [← exchange_bit hr hc, e, exchange_exchange]
    rw [bit_eq hc hr] at hb
    omega
  · rintro ⟨-, hl, hu⟩
    have hr : i - col * g.steps < g.steps := by omega
    have hb : g.bit col (i - col * g.steps) = i := by
      rw [bit_eq hc hr]
      omega
    rw [← hb, exchange_bit hc hr]
    exact ⟨bit_lt hr hc, _, hr, rfl⟩

end EdgeGrid

/-! ## Superblocks -/

namespace EdgeMap

def transpose (m : EdgeMap) (g : EdgeGrid) : EdgeMap :=
  ⟨m.wide.transpose g, m.medium.transpose g, m.narrow.transpose g⟩

theorem widthAt_transpose (m : EdgeMap) (i : Nat) :
    (m.transpose g).widthAt i = m.widthAt (g.exchange i) := by
  simp only [widthAt, transpose, Positions.has_transpose]

theorem union_transpose (m : EdgeMap) : (m.transpose g).union = m.union.transpose g := by
  simp only [union, transpose, Positions.transpose_or]

theorem overlaps_transpose (m : EdgeMap) : (m.transpose g).overlaps = m.overlaps.transpose g := by
  simp only [overlaps, transpose, Positions.transpose_or, Positions.transpose_and]

end EdgeMap

namespace BlockEdges

def transpose (m : BlockEdges) (g : EdgeGrid) : BlockEdges where
  left := m.above.transpose g
  above := m.left.transpose g
  inner := m.inner.transpose g
  levels := Vector.ofFn fun i =>
    let stride := g.rowScale <<< g.levelShift
    if h : i / stride < g.steps ∧ i % stride < g.steps then m.level g ⟨_, h.2⟩ ⟨_, h.1⟩
    else m.levels.get i

variable (m : BlockEdges)

theorem edges_transpose (o : Orientation) :
    (m.transpose g).edges o = (m.edges o.swap).transpose g := by
  cases o <;> rfl

theorem level_transpose (row col : Fin g.steps) :
    (m.transpose g).level g row col = m.level g col row := by
  have hs := g.steps_le_rowStride
  have hc := col.isLt
  simp only [level, transpose, Vector.getElem_ofFn]
  have hd := RowMajor.div_eq row.val (show col.val < g.rowScale <<< g.levelShift by omega)
  have hm := RowMajor.mod_eq row.val (show col.val < g.rowScale <<< g.levelShift by omega)
  rw [← EdgeGrid.levelIndex_eq row.isLt] at hd hm
  rw [dif_pos (by rw [hd, hm]; exact ⟨row.isLt, col.isLt⟩)]
  simp only [hd, hm]

theorem used_transpose : (m.transpose g).used = m.used.transpose g := by
  simp only [used, Positions.transpose_or, ← EdgeMap.union_transpose]
  rw [BitVec.or_comm (m.left.transpose g).union]
  rfl

variable {m}

theorem flaw?_transpose_eq_none_iff : (m.transpose g).flaw? g = .none ↔ m.flaw? g = .none := by
  simp only [flaw?_eq_none_iff, edges_transpose, EdgeMap.overlaps_transpose,
    Positions.transpose_eq_zero_iff, level_transpose, used_transpose, Positions.has_transpose]
  refine and_congr ?_ (and_congr ?_ ?_)
  · exact ⟨fun h o => o.swap_swap ▸ h o.swap, fun h o => h o.swap⟩
  · simp only [Positions.without_eq_zero_iff, Positions.has_transpose]
    have hall : ∀ i, g.all.has (g.exchange i) = g.all.has i := fun i => by
      rw [← Positions.has_transpose, EdgeGrid.transpose_all]
    constructor
    · intro h i hi
      rw [← hall]
      exact h _ (by rwa [EdgeGrid.exchange_exchange])
    · intro h i hi
      rw [← hall]
      exact h _ hi
  · constructor
    · intro h row col hu
      exact h col row (by rwa [EdgeGrid.exchange_bit col.isLt row.isLt])
    · intro h row col hu
      exact h col row (by rwa [EdgeGrid.exchange_bit row.isLt col.isLt] at hu)

theorem borderFlaw?_transpose_eq_none_iff {column row : Nat} :
    (m.transpose g).borderFlaw? g row column = .none ↔ m.borderFlaw? g column row = .none := by
  have hr : (g.columnPositions 0).transpose g = g.rowPositions 0 :=
    EdgeGrid.transpose_columnPositions g.one_le_steps
  have hc : (g.rowPositions 0).transpose g = g.columnPositions 0 := by
    rw [← hr, Positions.transpose_transpose]
  rw [borderFlaw?_eq_none_iff, borderFlaw?_eq_none_iff, and_comm]
  simp only [transpose, EdgeMap.union_transpose]
  rw [← hr, ← Positions.transpose_and, Positions.transpose_eq_zero_iff, hr, ← hc,
    ← Positions.transpose_and, Positions.transpose_eq_zero_iff, hc]

theorem flawAt?_transpose_eq_none_iff {column row : Nat} :
    (m.transpose g).flawAt? g row column = .none ↔ m.flawAt? g column row = .none := by
  rw [flawAt?_eq_none_iff, flawAt?_eq_none_iff, flaw?_transpose_eq_none_iff,
    borderFlaw?_transpose_eq_none_iff]

/-! ## Edges of a line -/

theorem edgesAt_transpose (across along : Fin g.steps) (position length : Nat) :
    (m.transpose g).edgesAt g table o across along position length =
      m.edgesAt g table o.swap across along position length := by
  cases o <;>
    simp only [edgesAt, Orientation.cell, edges_transpose, EdgeMap.widthAt_transpose,
      level_transpose, EdgeGrid.exchange_bit across.isLt along.isLt,
      EdgeGrid.exchange_bit along.isLt across.isLt] <;>
    simp only [transpose, Positions.has_transpose, EdgeGrid.exchange_bit across.isLt along.isLt,
      EdgeGrid.exchange_bit along.isLt across.isLt] <;>
    rfl

/-- Transposed edges cross a line of the other orientation where the edges did. -/
theorem edgesOn_transpose (across along i length : Nat) :
    (m.transpose g).edgesOn g table o across along i length =
      m.edgesOn g table o.swap across along i length := by
  simp only [edgesOn, edgesAlong, edgesAt_transpose]

end BlockEdges

end BlockVideo
