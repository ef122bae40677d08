/-!
# Orientation of edges

A vertical edge is crossed by walking along a row, a horizontal edge by walking down a column.
-/

namespace BlockVideo

inductive Orientation where
  | vertical
  | horizontal
  deriving DecidableEq, Repr

namespace Orientation

def name : Orientation → String
  | vertical => "vertical"
  | horizontal => "horizontal"

def swap : Orientation → Orientation
  | vertical => horizontal
  | horizontal => vertical

theorem swap_swap (o : Orientation) : o.swap.swap = o := by cases o <;> rfl

end Orientation

end BlockVideo
