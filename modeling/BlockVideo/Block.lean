import BlockVideo.Bank
import BlockVideo.Word

/-!
# Blocks

A block asks for `width` by `height` samples of a reference plane, from (`x`, `y`) on, moved right
and down by a phase. Its support window is what the filters read: the block itself, and three
samples before and four after it along each axis that has a phase.
-/

namespace BlockVideo

structure Block where
  x : Int
  y : Int
  width : Nat
  height : Nat
  phaseX : Phase
  phaseY : Phase
  bank : Bank
  deriving DecidableEq, Repr

namespace Block

def maxSide : Nat := 64

/-- What a block takes in a list: four words, and a fifth for the phases and the bank. -/
def bytes : Nat := 40

/-- A block at whole samples, with the regular bank. -/
def whole (x y : Int) (width height : Nat) : Block := ⟨x, y, width, height, .zero, .zero, .regular⟩

def withPhase? (b : Block) (phaseX phaseY : Nat) : Except Error Block := do
  let phaseX ← Phase.ofNat? phaseX
  let phaseY ← Phase.ofNat? phaseY
  return { b with phaseX, phaseY }

def withBank (b : Block) (bank : Bank) : Block := { b with bank }

/-- A block has one to 64 samples along each axis. Its phases need no check, their type has no
others. -/
def flaw? (b : Block) : Option Error :=
  if b.width = 0 ∨ b.height = 0 ∨ maxSide < b.width ∨ maxSide < b.height then
    some (.blockDimensions b.width b.height)
  else none

theorem flaw?_eq_none_iff {b : Block} :
    b.flaw? = none ↔ 1 ≤ b.width ∧ b.width ≤ 64 ∧ 1 ≤ b.height ∧ b.height ≤ 64 := by
  unfold flaw? maxSide
  split
  · simp only [reduceCtorEq, false_iff]
    omega
  · simp only [true_iff]
    omega

/-- The corner of the support window. -/
def supportX (b : Block) : Int := b.x - b.phaseX.lead

def supportY (b : Block) : Int := b.y - b.phaseY.lead

def supportWidth (b : Block) : Nat := b.width + b.phaseX.spread

def supportHeight (b : Block) : Nat := b.height + b.phaseY.spread

def requireSupport (b : Block) : Checked Unit := do
  Word.requireCoordinates [b.supportX, b.supportY]
  Word.requireSizes [b.supportWidth, b.supportHeight]

end Block

end BlockVideo
