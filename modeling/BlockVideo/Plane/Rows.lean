import BlockVideo.Plane.Basic

/-!
# Cutting a plane into rows

The buffer from the first visible sample on is cut every `stride` samples; the first `height`
pieces, trimmed to the width, are the visible rows. A stride of zero cuts nothing and is a fault.
-/

namespace BlockVideo

/-- How many visible rows the cut yields. Only planes of no width can run out of pieces. -/
def Layout.cutRows (l : Layout) : Nat :=
  min l.height ((l.size - l.origin + (l.stride - 1)) / l.stride)

theorem Layout.cutRows_eq {l : Layout} (h : 0 < l.width) : l.cutRows = l.height := by
  have hs := l.line_le_stride
  have he := l.extent_le_size
  apply Nat.min_eq_left
  rw [Nat.le_div_iff_mul_le (by omega)]
  by_cases h0 : l.height = 0
  · rw [h0, Nat.zero_mul]
    exact Nat.zero_le _
  · rw [Layout.extent, if_neg (by omega)] at he
    have := Nat.mul_le_mul_right l.stride
      (show l.border + (l.height - 1) ≤ l.height + 2 * l.border - 1 by omega)
    rw [Nat.add_mul] at this
    have : l.height * l.stride = (l.height - 1) * l.stride + l.stride := by
      rw [← Nat.succ_mul, Nat.succ_eq_add_one, Nat.sub_add_cancel (by omega)]
    simp only [Layout.origin]
    omega

/-- Where the visible rows start, top to bottom. -/
def Layout.rowStarts (l : Layout) : Checked (List Nat) :=
  if l.stride = 0 then .error .emptyStride
  else .ok ((List.range l.cutRows).map fun y => l.origin + y * l.stride)

namespace Plane

variable {l : Layout}

def rows (p : Plane l) : Checked (List (Vector UInt8 l.width)) := do
  (← l.rowStarts).mapM fun start => Run.window p.samples start l.width

/-- Replaces row `y` by what `f y` makes of it, for every visible row. -/
def editRows (f : Nat → Vector UInt8 l.width → Vector UInt8 l.width) (p : Plane l) :
    Checked (Plane l) := do
  (← l.rowStarts).zipIdx.foldlM (fun q (start, y) => do
    let row ← Run.window q.samples start l.width
    return ⟨Run.overwrite q.samples start (f y row).get⟩) p

def mapRows (f : Nat → UInt8 → UInt8) (p : Plane l) : Checked (Plane l) :=
  p.editRows fun y row => row.map (f y)

end Plane

end BlockVideo
