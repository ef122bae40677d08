import BlockVideo.EdgeFilter
import BlockVideo.Positions

/-!
# Edge maps

An edge map says which filter width each position of a superblock has, if any, for the edges of one
orientation. It keeps the positions of each width as a set. A position in several sets has the
greatest of its widths; such positions are the overlaps of the map.
-/

namespace BlockVideo

structure EdgeMap where
  wide : Positions
  medium : Positions
  narrow : Positions
  deriving DecidableEq

namespace EdgeMap

def empty : EdgeMap := ⟨0, 0, 0⟩

instance : Inhabited EdgeMap := ⟨empty⟩

def widthAt (m : EdgeMap) (i : Nat) : Option EdgeWidth :=
  if m.wide.has i then some .wide
  else if m.medium.has i then some .medium
  else if m.narrow.has i then some .narrow
  else none

def withWidth (m : EdgeMap) : EdgeWidth → Positions
  | .wide => m.wide
  | .medium => m.medium
  | .narrow => m.narrow

def set (m : EdgeMap) (i : Nat) : EdgeWidth → EdgeMap
  | .wide => { m with wide := m.wide ||| .single i }
  | .medium => { m with medium := m.medium ||| .single i }
  | .narrow => { m with narrow := m.narrow ||| .single i }

def clear (m : EdgeMap) (s : Positions) : EdgeMap :=
  ⟨m.wide &&& ~~~s, m.medium &&& ~~~s, m.narrow &&& ~~~s⟩

/-- The positions that have a width. -/
def union (m : EdgeMap) : Positions := m.wide ||| m.medium ||| m.narrow

/-- The positions that have several. -/
def overlaps (m : EdgeMap) : Positions :=
  (m.wide &&& m.medium) ||| (m.wide &&& m.narrow) ||| (m.medium &&& m.narrow)

theorem isSome_widthAt (m : EdgeMap) (i : Nat) : (m.widthAt i).isSome = m.union.has i := by
  simp only [widthAt, union, Positions.has_or]
  cases m.wide.has i <;> cases m.medium.has i <;> cases m.narrow.has i <;> rfl

theorem has_union {m : EdgeMap} {i : Nat} :
    m.union.has i = true ↔ ∃ w, (m.withWidth w).has i = true := by
  simp only [union, Positions.has_or, Bool.or_eq_true]
  constructor
  · rintro ((h | h) | h)
    · exact ⟨.wide, h⟩
    · exact ⟨.medium, h⟩
    · exact ⟨.narrow, h⟩
  · rintro ⟨w, h⟩
    cases w <;> simp_all [withWidth]

/-- Without overlaps the width of a position is the one whose set it is in. -/
theorem widthAt_eq_some_iff {m : EdgeMap} (h : m.overlaps = 0) {i : Nat} {w : EdgeWidth} :
    m.widthAt i = some w ↔ (m.withWidth w).has i = true := by
  have hi : m.overlaps.has i = false := Positions.eq_zero_iff.1 h i
  simp only [overlaps, Positions.has_or, Positions.has_and] at hi
  unfold widthAt
  cases w <;> simp only [withWidth] <;> cases hw : m.wide.has i <;> cases hm : m.medium.has i <;>
    cases hn : m.narrow.has i <;> simp_all

theorem has_withWidth {m : EdgeMap} {i : Nat} {w : EdgeWidth} (h : m.widthAt i = some w) :
    (m.withWidth w).has i = true := by
  unfold widthAt at h
  split at h
  · next wide =>
    cases h
    exact wide
  · split at h
    · next medium =>
      cases h
      exact medium
    · split at h
      · next narrow =>
        cases h
        exact narrow
      · cases h

theorem widthAt_clear (m : EdgeMap) (s : Positions) (i : Nat) :
    (m.clear s).widthAt i = if s.has i then none else m.widthAt i := by
  simp only [widthAt, clear, Positions.has_without]
  cases s.has i <;> simp

theorem has_withWidth_set (m : EdgeMap) (j : Nat) (v w : EdgeWidth) (i : Nat) :
    ((m.set j v).withWidth w).has i =
      ((m.withWidth w).has i || (decide (v = w) && (Positions.single j).has i)) := by
  cases v <;> cases w <;> simp [set, withWidth, Positions.has_or]

theorem has_withWidth_clear (m : EdgeMap) (s : Positions) (w : EdgeWidth) (i : Nat) :
    ((m.clear s).withWidth w).has i = ((m.withWidth w).has i && !s.has i) := by
  cases w <;> exact Positions.has_without ..

theorem clear_clear (m : EdgeMap) (s : Positions) : (m.clear s).clear s = m.clear s := by
  simp only [clear, BitVec.and_assoc, BitVec.and_self]

theorem union_clear (m : EdgeMap) (s : Positions) : (m.clear s).union = m.union &&& ~~~s := by
  refine Positions.ext_has fun i _ => ?_
  simp only [union, clear, Positions.has_or, Positions.has_without]
  cases s.has i <;> simp

theorem overlaps_clear (m : EdgeMap) (s : Positions) :
    (m.clear s).overlaps = m.overlaps &&& ~~~s := by
  refine Positions.ext_has fun i hi => ?_
  simp only [overlaps, clear, Positions.has, BitVec.getLsbD_or, BitVec.getLsbD_and,
    BitVec.getLsbD_not, hi, decide_true, Bool.true_and]
  cases s.getLsbD i <;> simp

end EdgeMap

end BlockVideo
