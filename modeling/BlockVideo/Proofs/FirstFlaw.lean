import Mathlib.Data.List.FinRange
import BlockVideo.BlockEdges

/-!
# The first flaw of the edges of a superblock

Whether edges are well-formed can be told position by position, without the words that hold the
sets (`BlockEdges.WellFormed`): no position has two widths for one orientation, edges are asked for
inside the grid only, and the levels of positions with edges are at most 63.

Edges that are not well-formed have a first flaw (`BlockEdges.FirstFlaw`). Two widths come before
positions outside the grid, the left sides before the upper ones, and either flaw names all of its
positions. Levels come last, and of those only the first is named, row by row.
`flaw?_reports_firstFlaw` says that the check finds just that.
-/

namespace BlockVideo

variable {i : Nat}

namespace Positions

theorem ne_zero_iff {s : Positions} : s ≠ 0 ↔ ∃ i, s.has i = true := by
  rw [Ne, eq_zero_iff, not_forall]
  simp only [Bool.not_eq_false]

/-- A check that names the positions of a set, if it has any. -/
theorem report_eq_some_iff {s : Positions} {P : Nat → Prop} {report : Positions → Error} {e : Error}
    (mem : ∀ i, s.has i = true ↔ P i) :
    (if s = 0 then Option.none else some (report s)) = some e ↔
      ∃ bits, e = report bits ∧ (∃ i, P i) ∧ ∀ i, bits.has i = true ↔ P i := by
  simp only [← mem, ← ne_zero_iff]
  split
  · next empty => simp [empty]
  · next some =>
    constructor
    · intro h
      cases h
      exact ⟨s, rfl, some, fun _ => Iff.rfl⟩
    · rintro ⟨bits, rfl, -, same⟩
      have : bits = s := ext_has fun i _ => Bool.eq_iff_iff.2 (same i)
      rw [this]

end Positions

/-! ## Position by position -/

namespace EdgeMap

variable {m : EdgeMap}

def Contested (m : EdgeMap) (i : Nat) : Prop :=
  ∃ v w, v ≠ w ∧ (m.withWidth v).has i = true ∧ (m.withWidth w).has i = true

theorem has_overlaps : m.overlaps.has i = true ↔ m.Contested i := by
  simp only [overlaps, Positions.has_or, Positions.has_and, Bool.or_eq_true, Bool.and_eq_true]
  constructor
  · rintro ((⟨h, h'⟩ | ⟨h, h'⟩) | ⟨h, h'⟩)
    · exact ⟨.wide, .medium, by decide, h, h'⟩
    · exact ⟨.wide, .narrow, by decide, h, h'⟩
    · exact ⟨.medium, .narrow, by decide, h, h'⟩
  · rintro ⟨v, w, ne, h, h'⟩
    cases v <;> cases w <;> simp_all [withWidth]

theorem overlaps_eq_zero_iff : m.overlaps = 0 ↔ ∀ i, ¬ m.Contested i := by
  simp only [Positions.eq_zero_iff, ← has_overlaps, Bool.not_eq_true]

end EdgeMap

namespace BlockEdges

variable {m : BlockEdges} {g : EdgeGrid} {e : Error}

/-- The position in grid row `row` and column `col` has an edge, and a level above 63. -/
def LevelTooHigh (m : BlockEdges) (g : EdgeGrid) (row col : Fin g.steps) : Prop :=
  m.HasEdge (g.bit row col) ∧ 63 < (m.level g row col).toNat

structure WellFormed (m : BlockEdges) (g : EdgeGrid) : Prop where
  exclusive : ∀ o i, ¬ (m.edges o).Contested i
  inside : ∀ i, m.HasEdge i → i < g.positions
  levels : ∀ row col, ¬ m.LevelTooHigh g row col

/-- What edges that are not well-formed are refused for. -/
inductive FirstFlaw (m : BlockEdges) (g : EdgeGrid) : Error → Prop
  | left {bits : Positions} (found : ∃ i, m.left.Contested i)
      (exact : ∀ i, bits.has i = true ↔ m.left.Contested i) :
      FirstFlaw m g (.overlappingWidths .vertical bits)
  | above {bits : Positions} (before : ∀ i, ¬ m.left.Contested i)
      (found : ∃ i, m.above.Contested i)
      (exact : ∀ i, bits.has i = true ↔ m.above.Contested i) :
      FirstFlaw m g (.overlappingWidths .horizontal bits)
  | outside {bits : Positions} (before : ∀ o i, ¬ (m.edges o).Contested i)
      (found : ∃ i, m.HasEdge i ∧ g.positions ≤ i)
      (exact : ∀ i, bits.has i = true ↔ m.HasEdge i ∧ g.positions ≤ i) :
      FirstFlaw m g (.outsideGrid g.positions bits)
  | level {row col : Fin g.steps} (before : ∀ o i, ¬ (m.edges o).Contested i)
      (inside : ∀ i, m.HasEdge i → i < g.positions) (found : m.LevelTooHigh g row col)
      (first : ∀ row' col', row' < row ∨ row' = row ∧ col' < col → ¬ m.LevelTooHigh g row' col') :
      FirstFlaw m g (.filterLevel (m.level g row col).toNat (g.levelIndex row col))

/-! ## The checks -/

theorem overlapFlaw?_eq_some_iff {o : Orientation} :
    m.overlapFlaw? o = some e ↔ ∃ bits, e = .overlappingWidths o bits ∧
      (∃ i, (m.edges o).Contested i) ∧ ∀ i, bits.has i = true ↔ (m.edges o).Contested i :=
  Positions.report_eq_some_iff fun _ => EdgeMap.has_overlaps

theorem has_used_without_all :
    (m.used &&& ~~~g.all).has i = true ↔ m.HasEdge i ∧ g.positions ≤ i := by
  rw [Positions.has_without, EdgeGrid.all, Positions.has_below, Bool.and_eq_true, has_used]
  refine and_congr_right fun h => ?_
  have : i < 64 := Nat.lt_of_not_le fun hi => by
    rw [← has_used, Positions.has_of_ge _ hi] at h
    cases h
  simp [this]

theorem gridFlaw?_eq_some_iff :
    m.gridFlaw? g = some e ↔ ∃ bits, e = .outsideGrid g.positions bits ∧
      (∃ i, m.HasEdge i ∧ g.positions ≤ i) ∧
        ∀ i, bits.has i = true ↔ m.HasEdge i ∧ g.positions ≤ i :=
  Positions.report_eq_some_iff fun _ => has_used_without_all

theorem gridFlaw?_eq_none_iff_inside :
    m.gridFlaw? g = .none ↔ ∀ i, m.HasEdge i → i < g.positions := by
  rw [gridFlaw?_eq_none_iff, Positions.eq_zero_iff]
  simp only [← Bool.not_eq_true, has_used_without_all, not_and, Nat.not_le]

theorem levelFlawAt?_eq_some_iff {row col : Fin g.steps} :
    m.levelFlawAt? g row col = some e ↔ m.LevelTooHigh g row col ∧
      e = .filterLevel (m.level g row col).toNat (g.levelIndex row col) := by
  rw [levelFlawAt?, LevelTooHigh, ← has_used]
  split
  · next h => simp only [Option.some.injEq, eq_comm, true_and, h, Nat.lt_iff_add_one_le]
  · next h => simp only [reduceCtorEq, false_iff, not_and]; exact fun h' => absurd h' h

theorem levelFlawAt?_eq_none_iff_not {row col : Fin g.steps} :
    m.levelFlawAt? g row col = .none ↔ ¬ m.LevelTooHigh g row col := by
  rw [levelFlawAt?_eq_none_iff, LevelTooHigh, ← has_used, not_and, Nat.not_lt, Nat.lt_succ_iff]

theorem levelFlaw_eq_some_iff :
    ((List.finRange g.steps).findSome? fun row =>
      (List.finRange g.steps).findSome? fun col => m.levelFlawAt? g row col) = some e ↔
      ∃ row col, (m.LevelTooHigh g row col ∧
        e = .filterLevel (m.level g row col).toNat (g.levelIndex row col)) ∧
        ∀ row' col', row' < row ∨ row' = row ∧ col' < col → ¬ m.LevelTooHigh g row' col' := by
  simp only [← Fin.findSome?_eq_findSome?_finRange, Fin.findSome?_eq_some_iff,
    Fin.findSome?_eq_none_iff, levelFlawAt?_eq_some_iff, levelFlawAt?_eq_none_iff_not]
  constructor
  · rintro ⟨row, ⟨col, found, inRow⟩, above⟩
    refine ⟨row, col, found, fun row' col' => ?_⟩
    rintro (h | ⟨rfl, h⟩)
    · exact above row' h col'
    · exact inRow col' h
  · rintro ⟨row, col, found, first⟩
    exact ⟨row, ⟨col, found, fun col' h => first row col' (.inr ⟨rfl, h⟩)⟩,
      fun row' h col' => first row' col' (.inl h)⟩

theorem flaw?_eq_none_iff_wellFormed : m.flaw? g = .none ↔ m.WellFormed g := by
  simp only [flaw?_eq_none_iff, ← gridFlaw?_eq_none_iff, ← levelFlawAt?_eq_none_iff,
    EdgeMap.overlaps_eq_zero_iff, gridFlaw?_eq_none_iff_inside, levelFlawAt?_eq_none_iff_not]
  exact ⟨fun ⟨exclusive, inside, levels⟩ => ⟨exclusive, inside, levels⟩,
    fun ⟨exclusive, inside, levels⟩ => ⟨exclusive, inside, levels⟩⟩

theorem flaw?_eq_some_iff_firstFlaw : m.flaw? g = some e ↔ m.FirstFlaw g e := by
  simp only [flaw?, Option.orElse_eq_orElse, Option.orElse_eq_or, Option.or_eq_some_iff,
    overlapFlaw?_eq_some_iff, overlapFlaw?_eq_none_iff, EdgeMap.overlaps_eq_zero_iff,
    gridFlaw?_eq_some_iff, gridFlaw?_eq_none_iff_inside, levelFlaw_eq_some_iff]
  constructor
  · rintro (⟨bits, rfl, found, exact⟩ | ⟨left, ⟨bits, rfl, found, exact⟩ | ⟨above, rest⟩⟩)
    · exact .left found exact
    · exact .above left found exact
    · have exclusive : ∀ o i, ¬ (m.edges o).Contested i := fun o => by
        cases o <;> assumption
      rcases rest with ⟨bits, rfl, found, exact⟩ | ⟨inside, row, col, ⟨found, rfl⟩, first⟩
      · exact .outside exclusive found exact
      · exact .level exclusive inside found first
  · intro h
    cases h with
    | left found exact => exact .inl ⟨_, rfl, found, exact⟩
    | above left found exact => exact .inr ⟨left, .inl ⟨_, rfl, found, exact⟩⟩
    | outside exclusive found exact =>
      exact .inr ⟨exclusive .vertical, .inr ⟨exclusive .horizontal, .inl ⟨_, rfl, found, exact⟩⟩⟩
    | level exclusive inside found first =>
      exact .inr ⟨exclusive .vertical, .inr ⟨exclusive .horizontal,
        .inr ⟨inside, _, _, ⟨found, rfl⟩, first⟩⟩⟩

/-- The check passes the well-formed edges and no others, and refuses the others for their first
flaw. -/
theorem flaw?_reports_firstFlaw (m : BlockEdges) (g : EdgeGrid) :
    (m.flaw? g = .none ↔ m.WellFormed g) ∧ ∀ e, m.flaw? g = some e ↔ m.FirstFlaw g e :=
  ⟨flaw?_eq_none_iff_wellFormed, fun _ => flaw?_eq_some_iff_firstFlaw⟩

end BlockEdges

end BlockVideo
