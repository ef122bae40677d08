import BlockVideo.Orientation
import BlockVideo.Plane.Basic

/-!
# Lines of a plane

Edges of one orientation are crossed along lines: vertical edges along rows, horizontal edges along
columns. Line `i` has the samples (`0`, `i`), (`1`, `i`), … or (`i`, `0`), (`i`, `1`), …

Lines of one orientation do not meet, so a write to one is read back from it (`line_setLine`) and
from no other (`line_setLine_of_ne`), and it stays on the line (`samples_setLine`).
-/

namespace BlockVideo

namespace Layout

variable (l : Layout)

def lineCount : Orientation → Nat
  | .vertical => l.height
  | .horizontal => l.width

def lineLength : Orientation → Nat
  | .vertical => l.width
  | .horizontal => l.height

/-- The place of sample `j` of line `i` in the buffer. -/
def place : Orientation → Nat → Nat → Nat
  | .vertical, i, j => l.index j i
  | .horizontal, i, j => l.index i j

variable {l}

theorem place_lt {o : Orientation} {i j : Nat} (hi : i < l.lineCount o) (hj : j < l.lineLength o) :
    l.place o i j < l.size := by
  cases o
  · exact index_lt hj hi
  · exact index_lt hi hj

theorem place_inj {o : Orientation} {i j i' j' : Nat} (hi : i < l.lineCount o)
    (hj : j < l.lineLength o) (hi' : i' < l.lineCount o) (hj' : j' < l.lineLength o)
    (h : l.place o i j = l.place o i' j') : i = i' ∧ j = j' := by
  cases o
  · exact (index_inj hj hj' h).symm
  · exact index_inj hi hi' h

end Layout

namespace Plane

section Scatter

variable {α : Type} {n k : Nat}

/-- `v` with entry `place j` replaced by `f j`, for every `j` in turn. -/
def scatter (v : Vector α n) (place : Fin k → Fin n) (f : Fin k → α) : Vector α n :=
  Fin.foldl k (fun s j => s.set (place j) (f j) (place j).isLt) v

theorem scatter_succ (v : Vector α n) (place : Fin (k + 1) → Fin n) (f : Fin (k + 1) → α) :
    scatter v place f =
      (scatter v (fun j => place j.castSucc) fun j => f j.castSucc).set (place (Fin.last k))
        (f (Fin.last k)) (place (Fin.last k)).isLt := by
  simp only [scatter, Fin.foldl_succ_last]

theorem getElem_scatter_of_ne {v : Vector α n} {place : Fin k → Fin n} {f : Fin k → α} {i : Nat}
    (hi : i < n) (h : ∀ j, (place j).val ≠ i) : (scatter v place f)[i] = v[i] := by
  induction k with
  | zero => simp [scatter]
  | succ k ih =>
    simp only [scatter_succ, Vector.getElem_set, if_neg (h (Fin.last k))]
    exact ih fun j => h j.castSucc

theorem getElem_scatter {v : Vector α n} {place : Fin k → Fin n} {f : Fin k → α}
    (inj : ∀ a b, place a = place b → a = b) (j : Fin k) :
    getElem (scatter v place f) (place j).val (place j).isLt = f j := by
  induction k with
  | zero => exact j.elim0
  | succ k ih =>
    simp only [scatter_succ, Vector.getElem_set]
    by_cases e : place (Fin.last k) = place j
    · rw [if_pos (congrArg Fin.val e), inj _ _ e]
    · rw [if_neg fun h => e (Fin.ext h)]
      have hj : j ≠ Fin.last k := fun h => e (congrArg place h.symm)
      obtain ⟨j, rfl⟩ := Fin.exists_castSucc_eq.2 hj
      exact ih (fun a b h => Fin.castSucc_inj.1 (inj _ _ h)) j

end Scatter

variable {l : Layout}

def line (p : Plane l) (o : Orientation) (i : Fin (l.lineCount o)) :
    Vector UInt8 (l.lineLength o) :=
  Vector.ofFn fun j => getElem p.samples (l.place o i j) (Layout.place_lt i.isLt j.isLt)

def setLine (p : Plane l) (o : Orientation) (i : Fin (l.lineCount o))
    (v : Vector UInt8 (l.lineLength o)) : Plane l :=
  ⟨scatter p.samples (fun j => ⟨l.place o i j, Layout.place_lt i.isLt j.isLt⟩) v.get⟩

theorem line_setLine (p : Plane l) (o : Orientation) (i : Fin (l.lineCount o))
    (v : Vector UInt8 (l.lineLength o)) : (p.setLine o i v).line o i = v := by
  apply Vector.ext
  intro j hj
  simp only [line, setLine, Vector.getElem_ofFn]
  refine (getElem_scatter (fun a b h => ?_) ⟨j, hj⟩).trans rfl
  exact Fin.ext (Layout.place_inj i.isLt a.isLt i.isLt b.isLt (congrArg Fin.val h)).2

theorem line_setLine_of_ne (p : Plane l) {o : Orientation} {i k : Fin (l.lineCount o)}
    (v : Vector UInt8 (l.lineLength o)) (h : i ≠ k) : (p.setLine o i v).line o k = p.line o k := by
  apply Vector.ext
  intro j hj
  simp only [line, setLine, Vector.getElem_ofFn]
  refine getElem_scatter_of_ne _ fun a e => h ?_
  exact Fin.ext (Layout.place_inj i.isLt a.isLt k.isLt hj e).1

theorem samples_setLine (p : Plane l) {o : Orientation} {i : Fin (l.lineCount o)}
    (v : Vector UInt8 (l.lineLength o)) {k : Nat} (hk : k < l.size)
    (h : ∀ j : Fin (l.lineLength o), l.place o i j ≠ k) :
    (p.setLine o i v).samples[k] = p.samples[k] :=
  getElem_scatter_of_ne hk h

def editLine (p : Plane l) (o : Orientation) (i : Fin (l.lineCount o))
    (f : Vector UInt8 (l.lineLength o) → Checked (Vector UInt8 (l.lineLength o))) :
    Checked (Plane l) := do
  return p.setLine o i (← f (p.line o i))

theorem editLine_eq_ok {p : Plane l} {o : Orientation} {i : Fin (l.lineCount o)}
    {f : Vector UInt8 (l.lineLength o) → Checked (Vector UInt8 (l.lineLength o))}
    {v : Vector UInt8 (l.lineLength o)} (h : f (p.line o i) = .ok v) :
    p.editLine o i f = .ok (p.setLine o i v) := by
  rw [editLine, h]
  rfl

end Plane

end BlockVideo
