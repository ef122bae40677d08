import BlockVideo.MotionVector

/-!
# Displaced blocks

A displaced block lies at exactly the sixteenth of a sample that the motion vector points to. Its
corner is the sample at or before that position and its phase the rest, for negative positions too
(`Block.split_exact`), and no other corner and phase come to that position (`Block.split_unique`).
As long as the position is a word of 64 bits, words find the same corner and phase
(`Block.splitWord_eq`).

So a vector that is longer by whole samples moves the block by whole samples, and a vector moves a
block of a full plane twice as far as it moves one of a halved plane.
-/

namespace BlockVideo

namespace MotionVector

/-- What a sample of a plane counts in a motion vector. -/
def sample : Subsampling → Int
  | .full => 8
  | .halved => 16

theorem sample_mul_scale (s : Subsampling) : sample s * scale s = 16 := by cases s <;> rfl

theorem sixteenths_bounds (v : MotionVector) (s : Subsampling) :
    (v.sixteenths s).1.natAbs ≤ 65536 ∧ (v.sixteenths s).2.natAbs ≤ 65536 := by
  have rowL := v.row.le_toInt
  have rowU := v.row.toInt_lt
  have colL := v.col.le_toInt
  have colU := v.col.toInt_lt
  cases s <;> simp only [sixteenths, scale] <;> omega

end MotionVector

namespace Block

open MotionVector

/-! ## Positions -/

/-- The corner of `b` lies `col` sixteenths behind the first column of a plane, and `row` sixteenths
below its first row. -/
structure SplitsAt (b : Block) (col row : Int) : Prop where
  x : 16 * b.x + b.phaseX.val = col
  y : 16 * b.y + b.phaseY.val = row

theorem split_exact (position : Int) :
    16 * (split position).1 + (split position).2.val = position := by
  simp only [split_eq, Phase.ofSixteenths]
  omega

theorem split_unique {position z : Int} {φ : Phase} (h : 16 * z + φ.val = position) :
    split position = (z, φ) := by
  have hφ := φ.isLt
  rw [split_eq]
  refine Prod.ext ?_ (Fin.ext ?_)
  · simp only
    omega
  · simp only [Phase.ofSixteenths]
    omega

theorem SplitsAt.unique {b b' : Block} {col row : Int} (h : b.SplitsAt col row)
    (h' : b'.SplitsAt col row) :
    (b'.x, b'.phaseX) = (b.x, b.phaseX) ∧ (b'.y, b'.phaseY) = (b.y, b.phaseY) :=
  ⟨(split_unique h'.x).symm.trans (split_unique h.x),
    (split_unique h'.y).symm.trans (split_unique h.y)⟩

theorem split_add (position i : Int) :
    split (position + 16 * i) = ((split position).1 + i, (split position).2) := by
  have exact := split_exact position
  exact split_unique (by omega)

/-! ## Words -/

/-- `split` in words: the position is a word of 64 bits, which is shifted for the sample and cut to
32 bits for the phase. -/
def splitWord (origin offset : Int64) : Int64 × Phase :=
  let position := origin * 16 + offset
  (position >>> (4 : Int64), .ofLowBits position.toInt32)

theorem toInt_shiftRight_four (w : Int64) : (w >>> (4 : Int64)).toInt = w.toInt >>> (4 : Nat) := by
  have shifted : (w >>> (4 : Int64)).toBitVec = w.toBitVec.sshiftRight 4 := by
    rw [Int64.toBitVec_shiftRight]
    rfl
  exact (congrArg BitVec.toInt shifted).trans BitVec.toInt_sshiftRight

/-- Nothing wraps as long as the position is a word. -/
theorem splitWord_eq {origin offset : Int} (word : IsWord (16 * origin + offset)) :
    (splitWord (.ofInt origin) (.ofInt offset)).1.toInt = (split (16 * origin + offset)).1 ∧
    (splitWord (.ofInt origin) (.ofInt offset)).2 = (split (16 * origin + offset)).2 := by
  have least : Int64.minValue.toInt = -9223372036854775808 := rfl
  have greatest : Int64.maxValue.toInt = 9223372036854775807 := rfl
  obtain ⟨lower, upper⟩ := word
  have position : Int64.ofInt origin * 16 + Int64.ofInt offset =
      Int64.ofInt (16 * origin + offset) := by
    rw [Int64.ofInt_add, Int.mul_comm, Int64.ofInt_mul]
    rfl
  have exact : (Int64.ofInt (16 * origin + offset)).toInt = 16 * origin + offset :=
    Int64.toInt_ofInt_of_le (by omega) (by omega)
  simp only [splitWord, position, toInt_shiftRight_four, exact, Int64.toInt32_ofInt, split,
    and_self]

theorem isWord_of_near {origin offset : Int} (near : 64 * origin.natAbs < UInt64.size)
    (small : offset.natAbs ≤ 65536) : IsWord (16 * origin + offset) := by
  have size : UInt64.size = 18446744073709551616 := rfl
  have least : Int64.minValue.toInt = -9223372036854775808 := rfl
  have greatest : Int64.maxValue.toInt = 9223372036854775807 := rfl
  constructor <;> omega

theorem isWord_sixteen_mul {z : Int} (near : 32 * z.natAbs < UInt64.size) : IsWord (16 * z) := by
  have least : 2 * Int64.minValue.toInt = -UInt64.size := by decide
  have greatest : 2 * Int64.maxValue.toInt + 2 = UInt64.size := by decide
  have size : UInt64.size % 32 = 0 := by decide
  constructor <;> omega

/-- Words split the two positions that lie `offsets`, row and column, from (`x`, `y`) into the
corner and the phases of `b`. -/
structure FoundInWords (b : Block) (x y : Int) (offsets : Int × Int) : Prop where
  columns : (splitWord (.ofInt x) (.ofInt offsets.2)).1.toInt = b.x ∧
    (splitWord (.ofInt x) (.ofInt offsets.2)).2 = b.phaseX
  rows : (splitWord (.ofInt y) (.ofInt offsets.1)).1.toInt = b.y ∧
    (splitWord (.ofInt y) (.ofInt offsets.1)).2 = b.phaseY

/-! ## Displaced blocks -/

section Displaced

variable (x y : Int) (width height : Nat) (v : MotionVector) (s : Subsampling) (bank : Bank)

theorem displaced_splitsAt :
    (displaced x y width height v s bank).SplitsAt (16 * x + v.col.toInt * scale s)
      (16 * y + v.row.toInt * scale s) :=
  ⟨split_exact _, split_exact _⟩

variable {x y s} in
theorem displaced?_eq_ok (columns : IsWord (16 * x) ∧ IsWord (16 * x + (v.sixteenths s).2))
    (rows : IsWord (16 * y) ∧ IsWord (16 * y + (v.sixteenths s).1)) :
    displaced? x y width height v s bank = .ok (displaced x y width height v s bank) := by
  refine bind_unit_eq_ok_iff.2 ⟨Word.requireCoordinates_eq_ok_iff.2 ?_, rfl⟩
  simpa only [List.forall_mem_cons, List.not_mem_nil, false_implies, implies_true, and_true,
    and_assoc] using And.intro columns rows

theorem displaced_add {v' : MotionVector} {i j : Int}
    (right : v'.col.toInt = v.col.toInt + i * sample s)
    (down : v'.row.toInt = v.row.toInt + j * sample s) :
    displaced x y width height v' s bank =
      { displaced x y width height v s bank with
        x := (displaced x y width height v s bank).x + i
        y := (displaced x y width height v s bank).y + j } := by
  have longer (z a k : Int) :
      16 * z + (a + k * sample s) * scale s = 16 * z + a * scale s + 16 * k := by
    rw [Int.add_mul, Int.mul_assoc, sample_mul_scale]
    omega
  simp only [displaced, sixteenths, right, down, longer, split_add]

end Displaced

theorem flaw?_ne_phase (b : Block) (value : Nat) : b.flaw? ≠ some (.phase value) := by
  unfold flaw?
  split <;> nofun

theorem withPhase?_self (b : Block) : b.withPhase? b.phaseX.val b.phaseY.val = .ok b := by
  have accepts (φ : Phase) : Phase.ofNat? φ.val = .ok φ := dif_pos φ.isLt
  rw [withPhase?, accepts, accepts]
  rfl

/-- Displacing a block within `2 ^ 58` samples of the first one is exact: the corner and the phases
are those of the position that the vector points to, and no others are. Words find them too, and the
checks have nothing against the phases. Longer by whole samples, the vector moves the corner on by
as many. A block that lies twice as far on a full plane ends up twice as far as on a halved one; it
may lie beyond `2 ^ 58` samples, and words find it as long as its position is one. -/
theorem displaced_exact (width height : Nat) (v : MotionVector) (bank : Bank) {x y : Int}
    (hx : 64 * x.natAbs < UInt64.size) (hy : 64 * y.natAbs < UInt64.size) :
    (∀ s, let b := displaced x y width height v s bank
      displaced? x y width height v s bank = .ok b ∧
      b.SplitsAt (16 * x + v.col.toInt * scale s) (16 * y + v.row.toInt * scale s) ∧
      (∀ b' : Block,
        b'.SplitsAt (16 * x + v.col.toInt * scale s) (16 * y + v.row.toInt * scale s) →
        (b'.x, b'.phaseX) = (b.x, b.phaseX) ∧ (b'.y, b'.phaseY) = (b.y, b.phaseY)) ∧
      b.FoundInWords x y (v.sixteenths s) ∧
      (∀ value, b.flaw? ≠ some (.phase value)) ∧
      b.withPhase? b.phaseX.val b.phaseY.val = .ok b ∧
      ∀ (v' : MotionVector) (i j : Int), v'.col.toInt = v.col.toInt + i * sample s →
        v'.row.toInt = v.row.toInt + j * sample s →
        displaced x y width height v' s bank = { b with x := b.x + i, y := b.y + j }) ∧
    ∀ (width' height' : Nat) (bank' : Bank),
      let full := displaced (2 * x) (2 * y) width' height' v .full bank'
      let halved := displaced x y width height v .halved bank
      full.SplitsAt (2 * (16 * halved.x + halved.phaseX.val))
        (2 * (16 * halved.y + halved.phaseY.val)) ∧
      (IsWord (16 * full.x + full.phaseX.val) → IsWord (16 * full.y + full.phaseY.val) →
        displaced? (2 * x) (2 * y) width' height' v .full bank' = .ok full ∧
          full.FoundInWords (2 * x) (2 * y) (v.sixteenths .full)) := by
  refine ⟨fun s => ?_, fun width' height' bank' => ?_⟩
  · have lies := displaced_splitsAt x y width height v s bank
    obtain ⟨rows, columns⟩ := v.sixteenths_bounds s
    have column := isWord_of_near hx columns
    have row := isWord_of_near hy rows
    exact ⟨displaced?_eq_ok width height v bank ⟨isWord_sixteen_mul (by omega), column⟩
        ⟨isWord_sixteen_mul (by omega), row⟩, lies, fun b' lies' => lies.unique lies',
      ⟨splitWord_eq column, splitWord_eq row⟩, flaw?_ne_phase _, withPhase?_self _,
      fun v' i j => displaced_add x y width height v s bank⟩
  · intro full halved
    have lies : full.SplitsAt _ _ := displaced_splitsAt (2 * x) (2 * y) width' height' v .full bank'
    have lies' : halved.SplitsAt _ _ := displaced_splitsAt x y width height v .halved bank
    have twice (z a : Int) :
        16 * (2 * z) + a * scale .full = 2 * (16 * z + a * scale .halved) := by
      simp only [scale]
      omega
    refine ⟨by rwa [lies'.x, lies'.y, ← twice, ← twice], fun column row => ?_⟩
    rw [lies.x] at column
    rw [lies.y] at row
    exact ⟨displaced?_eq_ok width' height' v bank' ⟨isWord_sixteen_mul (by omega), column⟩
      ⟨isWord_sixteen_mul (by omega), row⟩, splitWord_eq column, splitWord_eq row⟩

/-- A position that is negative and needs more than 32 bits, and a vector to the left and down. -/
theorem displaced_exact_far :
    64 * (-5000000001 : Int).natAbs < UInt64.size ∧ 64 * (8 : Int).natAbs < UInt64.size ∧
    displaced (-5000000001) 8 4 4 ⟨48, -17⟩ .halved .regular =
      ⟨-5000000003, 11, 4, 4, .ofSixteenths 15, .zero, .regular⟩ ∧
    displaced (-5000000001) 8 4 4 ⟨48, -1⟩ .halved .regular =
      ⟨-5000000002, 11, 4, 4, .ofSixteenths 15, .zero, .regular⟩ ∧
    (displaced (-10000000002) 16 8 8 ⟨48, -17⟩ .full .sharp).SplitsAt (-160000000066) 352 := by
  have hx : 64 * (-5000000001 : Int).natAbs < UInt64.size := by decide
  have hy : 64 * (8 : Int).natAbs < UInt64.size := by decide
  obtain ⟨each, twice⟩ := displaced_exact 4 4 ⟨48, -17⟩ .regular hx hy
  obtain ⟨-, -, -, -, -, -, longer⟩ := each .halved
  have here : displaced (-5000000001) 8 4 4 ⟨48, -17⟩ .halved .regular =
      ⟨-5000000003, 11, 4, 4, .ofSixteenths 15, .zero, .regular⟩ := by decide
  refine ⟨hx, hy, here, ?_, ?_⟩
  · rw [longer ⟨48, -1⟩ 1 0 (by decide) (by decide), here]
    rfl
  · have luma := (twice 8 8 .sharp).1
    rw [here] at luma
    exact luma

end Block

end BlockVideo
