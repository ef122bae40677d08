import BlockVideo.Block
import BlockVideo.Subsampling

/-!
# Motion vectors

A motion vector counts eighths of a luma sample, rows first. On a plane it becomes a displacement
in sixteenths of that plane's samples, which a block splits into whole samples and a phase.
Positions are words of 64 bits, with the phase in the low 32 of them; those of blocks near enough to
the first sample fit.
-/

namespace BlockVideo

structure MotionVector where
  row : Int16
  col : Int16
  deriving DecidableEq, Repr

namespace MotionVector

def zero : MotionVector := ⟨0, 0⟩

def isZero (v : MotionVector) : Bool := v.row == 0 && v.col == 0

def saturate (z : Int) : Int16 :=
  Int16.ofInt (max Int16.minValue.toInt (min z Int16.maxValue.toInt))

def add (v w : MotionVector) : MotionVector :=
  ⟨saturate (v.row.toInt + w.row.toInt), saturate (v.col.toInt + w.col.toInt)⟩

/-- Sixteenths of a plane's sample in an eighth of a luma sample. -/
def scale : Subsampling → Int
  | .full => 2
  | .halved => 1

/-- The displacement on a plane, in sixteenths of its samples, as row and column. -/
def sixteenths (v : MotionVector) (s : Subsampling) : Int × Int :=
  (v.row.toInt * scale s, v.col.toInt * scale s)

/-- A quarter of `sum`, rounded to the nearest whole; a half goes away from zero. -/
def quarter (sum : Int) : Int := (if sum < 0 then sum - 2 else sum + 2).tdiv 4

def average (a b c d : MotionVector) : MotionVector :=
  ⟨Int16.ofInt (quarter (a.row.toInt + b.row.toInt + c.row.toInt + d.row.toInt)),
    Int16.ofInt (quarter (a.col.toInt + b.col.toInt + c.col.toInt + d.col.toInt))⟩

end MotionVector

namespace Block

/-- The sample at or before a position that is given in sixteenths, and the phase behind it, which
is read off the low 32 bits. -/
def split (position : Int) : Int × Phase :=
  (position >>> (4 : Nat), .ofLowBits (Int32.ofInt position))

theorem split_eq (position : Int) : split position = (position / 16, .ofSixteenths position) := by
  rw [split, Phase.ofLowBits_ofInt, Int.shiftRight_eq_div_pow]
  rfl

/-- The block at (`x`, `y`) of a plane, displaced by a motion vector. -/
def displaced (x y : Int) (width height : Nat) (v : MotionVector) (s : Subsampling) (bank : Bank) :
    Block :=
  let rows := split (16 * y + (v.sixteenths s).1)
  let columns := split (16 * x + (v.sixteenths s).2)
  ⟨columns.1, rows.1, width, height, columns.2, rows.2, bank⟩

def displaced? (x y : Int) (width height : Nat) (v : MotionVector) (s : Subsampling) (bank : Bank) :
    Checked Block := do
  Word.requireCoordinates
    [16 * x, 16 * x + (v.sixteenths s).2, 16 * y, 16 * y + (v.sixteenths s).1]
  return displaced x y width height v s bank

end Block

end BlockVideo
