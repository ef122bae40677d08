import BlockVideo.Block
import BlockVideo.Capacity
import BlockVideo.Outcome
import BlockVideo.Plane.Window
import BlockVideo.Tile

/-!
# Prediction

To predict a block, its support window is resampled twice; each pass rounds to samples. The first
pass takes the rows of the window one by one and puts what they become into a scratch buffer, one
behind the other. The second pass runs down the columns of the scratch buffer and writes the rows
of the block into a destination, where they lie `stride` apart. `predict` has a destination of its
own and reads the block back as a tile, `predictInto` stores to the destination of a caller, and
`predictMeanInto` takes the mean with what is there. All checks come before the first write.

With `checked` off, a window may leave the addressable area as long as it stays in the buffer. A
request that passes its checks has all of its sizes in words: they are not above those of a buffer.
So the sizes of a destination are asked for only where they are told in a refusal.
-/

namespace BlockVideo

namespace Block

def windowFlaw? (b : Block) (l : Layout) : Option Error :=
  if l.addressable b.supportX b.supportY b.supportWidth b.supportHeight then none
  else some (.referenceOutside b.supportX b.supportY b.supportWidth b.supportHeight)

def requireOn (b : Block) (checked : Bool) (l : Layout) : Outcome Unit := do
  Outcome.unlessFlawed b.flaw?
  if checked then
    Outcome.ofChecked b.requireSupport
    Outcome.unlessFlawed (b.windowFlaw? l)

end Block

namespace Tile

variable {w h n : Nat}

/-- The tile whose rows start at `0`, `stride`, `2 * stride`, … of a buffer. -/
def ofBuffer (v : Vector UInt8 n) (stride w h : Nat) : Checked (Tile w h) :=
  if ok : Run.HoldsRows n stride w h then
    .ok (ofFn fun c r => getElem v (r * stride + c) (by
      have := Run.holdsRows_iff.1 ok r r.isLt
      omega))
  else .error (.runOutside 0 ((h - 1) * stride + w) n)

def store (t : Tile w h) (stride : Nat) (dst : Vector UInt8 n) : Checked (Vector UInt8 n) :=
  (List.finRange h).foldlM (fun dst (r : Fin h) =>
    Run.replace dst (r * stride) fun c => t.get c r) dst

def blend (t : Tile w h) (stride : Nat) (dst : Vector UInt8 n) : Checked (Vector UInt8 n) :=
  (List.finRange h).foldlM (fun dst (r : Fin h) => do
    let old ← Run.window dst (r * stride) w
    Run.replace dst (r * stride) fun c : Fin w => mean (old.get c) (t.get c r)) dst

/-- Copies the tile over the visible samples of a plane, its corner to (`x`, `y`). -/
def writeTo {l : Layout} (t : Tile w h) (p : Plane l) (x y : Nat) : Outcome (Plane l) :=
  if x + w ≤ l.width ∧ y + h ≤ l.height then
    .ofChecked ((List.finRange h).foldlM (fun q (r : Fin h) => q.setRow x (y + r) (t.rows.get r)) p)
  else
    let needed := (y + h) * l.stride
    let available := l.height * l.stride
    .refuse [x + w, y + h, needed, available] (.destinationShort needed available)

end Tile

/-- Takes the mean of a `width` by `height` area of `dst` with one of `src`, into `dst`. Rows
without samples change nothing, but they have to lie in the buffers like any others. -/
def meanInto {n m : Nat} (dst : Vector UInt8 n) (dstStride : Nat) (src : Vector UInt8 m)
    (srcStride width height : Nat) : Checked (Vector UInt8 n) := do
  Run.requireRows n dstStride width height
  Run.requireRows m srcStride width height
  if width = 0 then return dst
  (← Tile.ofBuffer src srcStride width height).blend dstStride dst

/-- A destination holds whole rows, and the last one ends within it. -/
def requireDestination (width height stride size : Nat) : Outcome Unit :=
  let needed := (height - 1) * stride + width
  if width ≤ stride ∧ needed ≤ size then .ok ()
  else .refuse [needed] (.destinationShort needed size)

variable {l : Layout} {n : Nat}

namespace Block

/-- What the scratch buffer holds: the rows of the largest window, shortened to those of a block. -/
def scratchSize : Nat := maxSide * (maxSide + Kernel.taps - 1)

/-- The first pass: resamples the rows of the support window into a scratch buffer of zeros. -/
def acrossRows (b : Block) (p : Plane l) : Checked (Vector UInt8 scratchSize) :=
  (List.finRange b.supportHeight).foldlM (fun scratch (r : Fin b.supportHeight) => do
    let row ← p.span b.supportX (b.supportY + r) b.supportWidth
    Run.replace scratch (r * b.width) (b.bank.resample b.phaseX row).get) (Vector.replicate _ 0)

def downColumns (b : Block) (rows : Tile b.width b.supportHeight) : Tile b.width b.height :=
  (rows.transpose.mapRows (b.bank.resample b.phaseY)).transpose

def convolve (b : Block) (p : Plane l) (stride : Nat) (dst : Vector UInt8 n) :
    Checked (Vector UInt8 n) := do
  let scratch ← b.acrossRows p
  let rows ← Tile.ofBuffer scratch b.width b.width b.supportHeight
  (b.downColumns rows).store stride dst

end Block

def predictInto (checked : Bool) (b : Block) (p : Plane l) (stride : Nat) (dst : Vector UInt8 n) :
    Outcome (Vector UInt8 n) := do
  b.requireOn checked l
  requireDestination b.width b.height stride n
  Outcome.ofChecked (b.convolve p stride dst)

/-- Used for the second of two references. The prediction goes into a buffer for the largest block
first, without gaps between its rows. -/
def predictMeanInto (checked : Bool) (b : Block) (p : Plane l) (stride : Nat)
    (dst : Vector UInt8 n) : Outcome (Vector UInt8 n) := do
  b.requireOn checked l
  requireDestination b.width b.height stride n
  Outcome.ofChecked do
    let block ← b.convolve p b.width (Vector.replicate (Block.maxSide * Block.maxSide) 0)
    meanInto dst stride block b.width b.width b.height

/-- The prediction of a block as a tile. Room for the tile is asked for first. -/
def predict (checked : Bool) (b : Block) (p : Plane l) : Outcome (Tile b.width b.height) := do
  Outcome.ofChecked (Capacity.require (b.width * b.height) 1)
  b.requireOn checked l
  let data ← predictInto checked b p b.width (Vector.replicate (b.width * b.height) 0)
  Outcome.ofChecked (Tile.ofBuffer data b.width b.width b.height)

def predictAll (checked : Bool) (blocks : List Block) (p : Plane l) : Outcome (List SomeTile) :=
  blocks.mapM fun b => do return ⟨b.width, b.height, ← predict checked b p⟩

end BlockVideo
