import BlockVideo.Run
import BlockVideo.Sample
import BlockVideo.Thresholds

/-!
# The edge filter

A line of samples crosses an edge in its middle. Four samples on each side are its core, written
`p3 p2 p1 p0 | q0 q1 q2 q3`; a wide filter sees four more on each side.

An edge is filtered only when it is active: neighbours within a side differ little, and so do the
two sides. Then the width and the flatness of the line choose one of three filters: a long smoothing
of the whole line, a short smoothing of the core, or a correction of the samples next to the edge.
-/

namespace BlockVideo

inductive EdgeWidth where
  | narrow
  | medium
  | wide
  deriving DecidableEq, Repr

namespace EdgeWidth

def all : List EdgeWidth := [narrow, medium, wide]

def name : EdgeWidth → String
  | narrow => "Narrow"
  | medium => "Medium"
  | wide => "Wide"

/-- Samples seen on each side of the edge. -/
def reach : EdgeWidth → Nat
  | narrow | medium => 4
  | wide => 8

def taps : EdgeWidth → Nat
  | narrow => 4
  | medium => 8
  | wide => 16

theorem four_le_reach (w : EdgeWidth) : 4 ≤ w.reach := by cases w <;> decide

theorem reach_le (w : EdgeWidth) : w.reach ≤ 8 := by cases w <;> decide

end EdgeWidth

namespace EdgeFilter

/-- The samples of a core by number: `p 0` to `p 3` in front of the edge, counted away from it, and
`q 0` to `q 3` behind it. -/
structure Numbers (s : Vector UInt8 8) (p q : Nat → Int) : Prop where
  p3 : (s[0].toNat : Int) = p 3
  p2 : (s[1].toNat : Int) = p 2
  p1 : (s[2].toNat : Int) = p 1
  p0 : (s[3].toNat : Int) = p 0
  q0 : (s[4].toNat : Int) = q 0
  q1 : (s[5].toNat : Int) = q 1
  q2 : (s[6].toNat : Int) = q 2
  q3 : (s[7].toNat : Int) = q 3

def active (t : Thresholds) (s : Vector UInt8 8) : Bool :=
  decide (absDiff s[0] s[1] ≤ t.interior) && decide (absDiff s[1] s[2] ≤ t.interior) &&
    decide (absDiff s[2] s[3] ≤ t.interior) && decide (absDiff s[5] s[4] ≤ t.interior) &&
    decide (absDiff s[6] s[5] ≤ t.interior) && decide (absDiff s[7] s[6] ≤ t.interior) &&
    decide (absDiff s[3] s[4] * 2 + absDiff s[2] s[5] / 2 ≤ t.edge)

/-- A large step right beside the edge, on either side. -/
def highVariance (threshold : Nat) (s : Vector UInt8 8) : Bool :=
  decide (threshold < absDiff s[2] s[3]) || decide (threshold < absDiff s[5] s[4])

/-- The rest of the core is within 1 of the sample at the edge, on both sides. -/
def flat (s : Vector UInt8 8) : Bool :=
  decide (absDiff s[0] s[3] ≤ 1) && decide (absDiff s[1] s[3] ≤ 1) &&
    decide (absDiff s[2] s[3] ≤ 1) && decide (absDiff s[5] s[4] ≤ 1) &&
    decide (absDiff s[6] s[4] ≤ 1) && decide (absDiff s[7] s[4] ≤ 1)

/-- So are the four samples beyond the core, on both sides. -/
def flatOutside (s : Vector UInt8 16) : Bool :=
  decide (absDiff s[0] s[7] ≤ 1) && decide (absDiff s[1] s[7] ≤ 1) &&
    decide (absDiff s[2] s[7] ≤ 1) && decide (absDiff s[3] s[7] ≤ 1) &&
    decide (absDiff s[12] s[8] ≤ 1) && decide (absDiff s[13] s[8] ≤ 1) &&
    decide (absDiff s[14] s[8] ≤ 1) && decide (absDiff s[15] s[8] ≤ 1)

/-! ## Smoothing -/

/-- The sum of the `2 * half + 1` samples around place `i`, the ends of the line repeated as often
as needed, with the sample itself counted once more. -/
def windowSum (half : Nat) (s : Vector UInt8 (2 * half + 2)) (i : Fin (2 * half + 2)) : Nat :=
  (List.finRange (2 * half + 1)).foldl (fun sum k =>
    sum + (getElem s (min (i.val + k.val - half) (2 * half + 1)) (by omega)).toNat) (s.get i).toNat

/-- Replaces every sample but the two ends by the rounded mean of the window around it. -/
def smooth (half : Nat) (s : Vector UInt8 (2 * half + 2)) : Vector UInt8 (2 * half + 2) :=
  Vector.ofFn fun i =>
    if i.val = 0 ∨ i.val = 2 * half + 1 then s.get i
    else UInt8.ofNat ((windowSum half s i + (half + 1)) / (2 * (half + 1)))

/-! ## Correction -/

def toSigned (a : UInt8) : Int := a.toNat - 128

def hold (z : Int) : Int := max (-128) (min z 127)

def ofSigned (z : Int) : UInt8 := UInt8.ofNat (z + 128).toNat

/-- Moves the samples at the edge towards each other, and the next ones by half as much unless
their variance is high. -/
def correct (high : Bool) (s : Vector UInt8 8) : Vector UInt8 8 :=
  let p1 := toSigned s[2]
  let p0 := toSigned s[3]
  let q0 := toSigned s[4]
  let q1 := toSigned s[5]
  let outer := if high then hold (p1 - q1) else 0
  let step := hold (outer + 3 * (q0 - p0))
  let down := hold (step + 4) / 8
  let up := hold (step + 3) / 8
  let half := (down + 1) / 2
  #v[s[0], s[1],
    if high then s[2] else ofSigned (hold (p1 + half)),
    ofSigned (hold (p0 + up)),
    ofSigned (hold (q0 - down)),
    if high then s[5] else ofSigned (hold (q1 - half)),
    s[6], s[7]]

/-! ## The filter -/

variable {n : Nat}

/-- Filters an active edge. Only a wide filter on a flat core looks beyond the core. -/
def filterActive (w : EdgeWidth) (variance : Nat) (line : Vector UInt8 n) :
    Checked (Vector UInt8 n) := do
  let start := w.reach - 4
  let core ← Run.window line start 8
  if w ≠ .narrow ∧ flat core then
    if w = .wide then
      let whole ← Run.window line 0 16
      if flatOutside whole then
        return ← Run.replace line 0 (smooth 7 whole).get
    Run.replace line start (smooth 3 core).get
  else
    Run.replace line start (correct (highVariance variance core) core).get

/-- Filters the edge that lies `w.reach` samples into a line. -/
def filter (w : EdgeWidth) (t : Thresholds) (line : Vector UInt8 n) : Checked (Vector UInt8 n) := do
  let core ← Run.window line (w.reach - 4) 8
  if active t core then filterActive w t.variance line else return line

theorem filter_eq_of_core {w : EdgeWidth} {line : Vector UInt8 n} {core : Vector UInt8 8}
    (h : Run.window line (w.reach - 4) 8 = .ok core) (t : Thresholds) :
    filter w t line = if active t core then filterActive w t.variance line else .ok line := by
  rw [filter, h]
  rfl

end EdgeFilter

end BlockVideo
