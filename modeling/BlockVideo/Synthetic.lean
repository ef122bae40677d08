import BlockVideo.Block
import BlockVideo.BlockEdges
import BlockVideo.Plane.Border
import BlockVideo.Word

/-!
# Synthetic input

Planes, blocks and edges of any size for trying the library out: a textured plane, a plane of flat
8x8 squares, a tiling by blocks that runs through phases and banks, and edges that run through the
widths.
-/

namespace BlockVideo.Synthetic

def resolutions : List (Nat × Nat × String) := [(1920, 1080, "1080p"), (1280, 720, "720p")]

/-- A border that holds every read of a block that lies within the plane. -/
def referenceBorder : Nat := 80

def texture (x y : Nat) : Nat := x * 7 + y * 3 + (x ^^^ y) % 13

def texturedPlane (width height border : Nat) : Checked (Plane (.owned width height border)) := do
  Layout.requireOwned width height border
  if 0 < width then
    for y in List.range height do
      Word.requireSizes ((List.range width).map fun x => texture x y)
  return .ofFn width height border fun x y => UInt8.ofNat (texture x y)

/-- Neighbouring squares differ so little that every edge between them is active. -/
def squaresPlane (width height : Nat) : Checked (Plane (.owned width height 0)) :=
  Plane.ofFn? width height 0 fun x y => UInt8.ofNat (96 + (x / 8 * 5 + y / 8 * 3) % 5 * 2)

/-- Block `i` of a tiling, `column` blocks from the left and `row` from the top. Its place is a size
read as a coordinate. -/
def tilingBlock (size i column row : Nat) : Block where
  x := signed64 (column * size)
  y := signed64 (row * size)
  width := size
  height := size
  phaseX := ⟨i % 16, by omega⟩
  phaseY := ⟨i * 5 % 16, by omega⟩
  bank := #v[Bank.regular, .smooth, .sharp, .bilinear][i % 4]

/-- The whole blocks of side `size` that fit into a plane, row by row. -/
def tiling (width height size : Nat) : Checked (List Block) := do
  if size = 0 then throw .emptyBlock
  let columns := width / size
  let count := columns * (height / size)
  Capacity.require count Block.bytes
  return (List.range count).map fun i => tilingBlock size i (i % columns) (i / columns)

def edgeWidth (row col : Nat) : EdgeWidth :=
  #v[EdgeWidth.wide, .medium, .narrow][(row + col) % 3]

/-- Adds the edges of one position, but for those on the side of the plane. -/
def addEdges (g : EdgeGrid) (column row : Nat) (m : BlockEdges) (cell : Nat × Nat) : BlockEdges :=
  let (r, c) := cell
  let i := g.bit r c
  { m with
    left := if 0 < column ∨ 0 < c then m.left.set i (edgeWidth r c) else m.left
    above := if 0 < row ∨ 0 < r then m.above.set i (edgeWidth r c) else m.above
    inner := if (r + c) % 2 = 1 then m.inner ||| .single i else m.inner }

def blockEdges (g : EdgeGrid) (level : UInt8) (column row : Nat) : BlockEdges :=
  ((List.range g.steps).flatMap fun r => (List.range g.steps).map fun c => (r, c)).foldl
    (addEdges g column row) (.uniform level)

def planeEdges (width height : Nat) (level : UInt8) (g : EdgeGrid) : Checked (List BlockEdges) := do
  let columns := g.count width
  let count := columns * g.count height
  Capacity.require count BlockEdges.bytes
  return (List.range count).map fun i => blockEdges g level (i % columns) (i / columns)

/-- The edges of a frame whose chroma planes are halved. Both parts are made before there is room
for the pairs. -/
def frameEdges (width height : Nat) (level : UInt8) : Checked (List FrameEdges) := do
  let luma ← planeEdges width height level .luma
  let chroma ← planeEdges (width / 2) (height / 2) level .chroma
  Capacity.require (min luma.length chroma.length) FrameEdges.bytes
  return List.zipWith FrameEdges.mk luma chroma

end BlockVideo.Synthetic
