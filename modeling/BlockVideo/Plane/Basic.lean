import BlockVideo.Plane.Layout
import BlockVideo.Run

/-!
# Planes

`Plane l` is a buffer laid out as `l` says, border and padding included. The operations of this
module work on the visible samples, `get` and `set` one at a time and `row` and `setRow` along a
row; `get_set` and `samples_set` say that a write changes one visible sample and nothing else.
-/

namespace BlockVideo

structure Plane (l : Layout) where
  samples : Vector UInt8 l.size
  deriving DecidableEq

abbrev SomePlane := (l : Layout) × Plane l

namespace Plane

variable {l : Layout}

def constant (l : Layout) (v : UInt8) : Plane l := ⟨Vector.replicate l.size v⟩

/-- The samples of a caller, the first of them the corner of the border. -/
def bordered? (samples : Array UInt8) (width height stride border : Nat) :
    Checked (Except BufferError SomePlane) := do
  return (← Layout.bordered? width height stride border samples.size).map fun ⟨l, h⟩ =>
    ⟨l, ⟨⟨samples, h.symm⟩⟩⟩

/-- The samples of a caller, the first of them visible. -/
def unbordered? (samples : Array UInt8) (width height stride : Nat) :
    Checked (Except BufferError SomePlane) := do
  return (← Layout.unbordered? width height stride samples.size).map fun ⟨l, h⟩ =>
    ⟨l, ⟨⟨samples, h.symm⟩⟩⟩

def get (p : Plane l) (x : Fin l.width) (y : Fin l.height) : UInt8 :=
  getElem p.samples (l.index x y) (Layout.index_lt x.isLt y.isLt)

def get? (p : Plane l) (x y : Nat) : Option UInt8 :=
  if h : x < l.width ∧ y < l.height then some (p.get ⟨x, h.1⟩ ⟨y, h.2⟩) else none

theorem get?_eq_some (p : Plane l) {x y : Nat} (hx : x < l.width) (hy : y < l.height) :
    p.get? x y = some (p.get ⟨x, hx⟩ ⟨y, hy⟩) := dif_pos ⟨hx, hy⟩

theorem get?_eq_none (p : Plane l) {x y : Nat} (h : ¬ (x < l.width ∧ y < l.height)) :
    p.get? x y = none := dif_neg h

def set (p : Plane l) (x : Fin l.width) (y : Fin l.height) (v : UInt8) : Plane l :=
  ⟨p.samples.set (l.index x y) v (Layout.index_lt x.isLt y.isLt)⟩

theorem get_set (p : Plane l) (x x' : Fin l.width) (y y' : Fin l.height) (v : UInt8) :
    (p.set x y v).get x' y' = if x = x' ∧ y = y' then v else p.get x' y' := by
  simp only [get, set, Vector.getElem_set]
  by_cases h : l.index x y = l.index x' y'
  · have := Layout.index_inj x.isLt x'.isLt h
    rw [if_pos h, if_pos ⟨Fin.ext this.1, Fin.ext this.2⟩]
  · rw [if_neg h, if_neg]
    rintro ⟨rfl, rfl⟩
    exact h rfl

theorem samples_set (p : Plane l) (x : Fin l.width) (y : Fin l.height) (v : UInt8) {i : Nat}
    (hi : i < l.size) (h : l.index x y ≠ i) : (p.set x y v).samples[i] = p.samples[i] := by
  simp only [set, Vector.getElem_set, if_neg h]

def row (p : Plane l) (y : Nat) : Checked (Vector UInt8 l.width) :=
  if h : y < l.height then .ok (Vector.ofFn fun x => p.get x ⟨y, h⟩)
  else .error (.rowOutside y l.height)

/-- Writes `values` into row `y` from column `x` on. The row has to hold all of them. -/
def setRow {k : Nat} (p : Plane l) (x y : Nat) (values : Vector UInt8 k) : Checked (Plane l) :=
  if y < l.height then
    if x + k ≤ l.width then .ok ⟨Run.overwrite p.samples (l.index x y) values.get⟩
    else .error (.runOutside x k l.width)
  else .error (.rowOutside y l.height)

/-- The visible area alone, as a plane of its own without a border. -/
def interior (p : Plane l) : Plane l.interior := ⟨p.samples.drop l.origin⟩

theorem get_interior (p : Plane l) (x : Fin l.width) (y : Fin l.height) :
    p.interior.get x y = p.get x y := by
  have h : l.origin + l.interior.index x y = l.index x y := by
    simp [Layout.index_eq_origin_add, Layout.origin, Layout.interior]
  refine (Vector.getElem_drop _).trans ?_
  simp only [h]
  rfl

end Plane

end BlockVideo
