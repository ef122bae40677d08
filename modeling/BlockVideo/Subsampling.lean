import BlockVideo.Word

/-!
# Chroma subsampling

How a plane of a frame relates to the luma plane: at full resolution, or with every second column
and every second row.
-/

namespace BlockVideo

inductive Subsampling where
  | full
  | halved
  deriving DecidableEq, Repr, Inhabited

namespace Subsampling

/-- Halvings of an axis. Both axes are halved alike. -/
def shift : Subsampling → Nat
  | full => 0
  | halved => 1

/-- Samples along an axis that has `n` luma samples; an odd one out keeps a sample. -/
def length (s : Subsampling) (n : Nat) : Nat := (n + (1 <<< s.shift - 1)) >>> s.shift

/-- The size of a plane that goes with `width` by `height` luma samples. Each axis is filled up to
whole samples of the plane first, by one more than is needed. -/
def planeSize (s : Subsampling) (width height : Nat) : Checked (Nat × Nat) := do
  Word.requireSizes [width + 1 <<< s.shift, height + 1 <<< s.shift]
  return (s.length width, s.length height)

theorem planeSize_eq_ok_iff {s : Subsampling} {width height : Nat} {size : Nat × Nat} :
    s.planeSize width height = .ok size ↔
      (width + 1 <<< s.shift < UInt64.size ∧ height + 1 <<< s.shift < UInt64.size) ∧
        (s.length width, s.length height) = size := by
  simp only [planeSize, bind_unit_eq_ok_iff, Word.requireSizes_eq_ok_iff, List.forall_mem_cons,
    List.not_mem_nil, false_implies, implies_true, and_true]
  exact and_congr_right fun _ => ⟨fun h => Except.ok.inj h, fun h => congrArg Except.ok h⟩

theorem length_full (n : Nat) : full.length n = n := by simp [length, shift]

theorem length_halved (n : Nat) : halved.length n = (n + 1) / 2 := rfl

end Subsampling

end BlockVideo
