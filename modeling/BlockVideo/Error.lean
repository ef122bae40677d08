import BlockVideo.Orientation
import BlockVideo.Positions

/-!
# Refusals

`BufferError` is what the sample buffers refuse, `Error` what prediction and edge filtering refuse.
Each is a cause, worded by `message`. Either kind can be carried where the other is expected:
`Error.ofBuffer` keeps the two causes that both sides know, `BufferError.ofError` keeps the words.
-/

namespace BlockVideo

inductive BufferError where
  | invalidParameter (reason : String)
  | tooSmall (needed available : Nat)
  | windowOutside (x y : Int) (width height : Nat)
  | processing (reason : String)
  | configuration (reason : String)
  deriving DecidableEq, Repr

namespace BufferError

def message : BufferError → String
  | invalidParameter reason => s!"Invalid parameter: {reason}"
  | tooSmall needed available => s!"Buffer too small: need {needed} bytes, have {available}"
  | windowOutside x y width height =>
    s!"Window {width}x{height} at ({x}, {y}) is outside the addressable plane area"
  | processing reason => s!"DSP error: {reason}"
  | configuration reason => s!"Configuration error: {reason}"

def isShortage : BufferError → Bool
  | tooSmall .. | windowOutside .. => true
  | _ => false

end BufferError

inductive Error where
  | blockDimensions (width height : Nat)
  | phase (value : Nat)
  | filterBank (value : Nat)
  /-- A level above 63 that an edge position uses. -/
  | filterLevel (level position : Nat)
  /-- A level above 63 that was looked up. -/
  | unknownLevel (level : Nat)
  | sharpness (value : Nat)
  /-- Positions with two widths at once. -/
  | overlappingWidths (orientation : Orientation) (bits : Positions)
  /-- Positions beyond the `positions` of the grid. -/
  | outsideGrid (positions : Nat) (bits : Positions)
  /-- An edge on the left or upper side of the plane. -/
  | outerEdge (orientation : Orientation) (column row : Nat)
  | grid (reason : String)
  | unaligned (width height : Nat)
  | maskCount (expected actual : Nat)
  | destinationShort (needed available : Nat)
  | referenceOutside (x y : Int) (width height : Nat)
  | plane (reason : String)
  | workers (reason : String)
  deriving DecidableEq, Repr

namespace Error

def message : Error → String
  | blockDimensions width height =>
    s!"Invalid block dimensions: {width}x{height} (supported 1..=64)"
  | phase value => s!"Invalid sub-pixel phase: {value} (expected 0..16)"
  | filterBank value => s!"Invalid interpolation filter bank: {value}"
  | filterLevel level position => s!"Invalid filter level {level} at mask position {position}"
  | unknownLevel level =>
    s!"Filter level {level} outside the threshold table (expected 0..=63)"
  | sharpness value => s!"Invalid sharpness: {value} (expected 0..=7)"
  | overlappingWidths orientation bits =>
    s!"Overlapping filter widths on {orientation.name} edges: 0x{bits.hexDigits}"
  | outsideGrid positions bits =>
    s!"Mask bits outside the {positions}-position grid: 0x{bits.hexDigits}"
  | outerEdge orientation column row =>
    s!"{orientation.name} edge requested on plane border in superblock ({column}, {row})"
  | grid reason => s!"Invalid grid configuration: {reason}"
  | unaligned width height => s!"Plane dimensions {width}x{height} are not multiples of 4"
  | maskCount expected actual => s!"Expected {expected} superblock mask sets, got {actual}"
  | destinationShort needed available =>
    s!"Destination too small: need {needed} bytes, have {available}"
  | referenceOutside x y width height =>
    s!"Reference window {width}x{height} at ({x}, {y}) is out of bounds"
  | plane reason => s!"Invalid plane: {reason}"
  | workers reason => s!"Thread pool error: {reason}"

/-- A read outside the reference plane. -/
def isOutside : Error → Bool
  | referenceOutside .. => true
  | _ => false

/-- A malformed request: anything but a bounds violation or missing workers. -/
def isMalformed : Error → Bool
  | referenceOutside .. | workers _ => false
  | _ => true

def ofBuffer : BufferError → Error
  | .windowOutside x y width height => referenceOutside x y width height
  | .tooSmall needed available => destinationShort needed available
  | e => plane e.message

end Error

def BufferError.ofError (e : Error) : BufferError := .processing e.message

theorem Error.isMalformed_eq (e : Error) :
    e.isMalformed = (!e.isOutside && !(e matches .workers _)) := by
  cases e <;> rfl

end BlockVideo
