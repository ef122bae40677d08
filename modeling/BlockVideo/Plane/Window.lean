import BlockVideo.Plane.Basic

/-!
# Signed addressing

Coordinates count from the first visible sample, so the border lies at negative columns and rows.
A window is addressable when it lies inside the visible area widened by the border. The test works
on signed 64-bit words: a size is read as the word with its bits, and sums stop at the ends of the
range. The sides of a widened area are words in every buffer that memory can hold.

`span` is not held to the addressable area: it faults only outside the buffer, or where words cannot
reach.
-/

namespace BlockVideo

namespace Layout

variable (l : Layout)

/-- Whether the `width` by `height` window at (`x`, `y`) is addressable. -/
def addressable (x y : Int) (width height : Nat) : Bool :=
  decide (-(l.border : Int) ≤ x) && decide (-(l.border : Int) ≤ y) &&
    decide (saturatingAdd64 x (signed64 width) ≤ signed64 l.width + l.border) &&
    decide (saturatingAdd64 y (signed64 height) ≤ signed64 l.height + l.border)

def requireAddressable (x y : Int) (width height : Nat) : Except BufferError Unit :=
  if l.addressable x y width height then .ok () else .error (.windowOutside x y width height)

/-- Where sample (`x`, `y`) would lie, counted from the start of the buffer. The stride is read as a
signed word too, so rows can lie backwards where no row is stored behind another. -/
def offset (x y : Int) : Int := (y + l.border) * signed64 l.stride + (x + l.border)

/-- The coordinates of a sample and all that is computed from them for its offset. -/
def offsetSteps (x y : Int) : List Int :=
  [x, y, y + l.border, (y + l.border) * signed64 l.stride, x + l.border, l.offset x y]

/-- Words lead to sample (`x`, `y`), and `length` samples from there on lie in the buffer. -/
structure HasRun (x y : Int) (length : Nat) : Prop where
  words : ∀ z ∈ l.offsetSteps x y, IsWord z
  start : 0 ≤ l.offset x y
  stop : (l.offset x y).toNat + length ≤ l.size

end Layout

namespace Plane

variable {l : Layout}

/-- The sample at (`x`, `y`), if it is addressable. -/
def sample? (p : Plane l) (x y : Int) : Option UInt8 :=
  if l.addressable x y 1 1 then p.samples[(l.offset x y).toNat]? else none

/-- The `length` samples that lie in the buffer from (`x`, `y`) on. -/
def span (p : Plane l) (x y : Int) (length : Nat) : Checked (Vector UInt8 length) := do
  Word.requireCoordinates (l.offsetSteps x y)
  if h : 0 ≤ l.offset x y ∧ (l.offset x y).toNat + length ≤ l.size then
    return Vector.ofFn fun i =>
      getElem p.samples ((l.offset x y).toNat + i) (by have := h.2; omega)
  else
    throw (.runOutside (l.offset x y) length l.size)

theorem span_of_hasRun (p : Plane l) {x y : Int} {length : Nat} (run : l.HasRun x y length) :
    p.span x y length = .ok (Vector.ofFn fun i =>
      getElem p.samples ((l.offset x y).toNat + i) (by have := run.stop; omega)) := by
  rw [span, Word.requireCoordinates_eq_ok_iff.2 run.words]
  exact dif_pos ⟨run.start, run.stop⟩

theorem hasRun_of_span (p : Plane l) {x y : Int} {length : Nat} {run : Vector UInt8 length}
    (h : p.span x y length = .ok run) : l.HasRun x y length := by
  obtain ⟨words, read⟩ := bind_unit_eq_ok_iff.1 h
  split at read
  · next inside => exact ⟨Word.requireCoordinates_eq_ok_iff.1 words, inside.1, inside.2⟩
  · cases read

end Plane

end BlockVideo
