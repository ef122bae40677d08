import Mathlib.Algebra.BigOperators.Group.List.Basic
import BlockVideo.MotionVector

/-!
# The mean of four vectors

The mean takes a quarter of the sum of each component, to the nearest whole number, and away from
zero where two are as near (`RoundedMean`). A rounded mean lies among what it is the mean of, so it
is a component again and nothing wraps, at the ends of the range too
(`MotionVector.average_roundedMean`). Sums do not depend on the order, and a quarter of a larger sum
is no smaller, and that of the opposite sum is the opposite.
-/

namespace BlockVideo

/-- `m` is the whole number nearest to a quarter of the sum of four, or that one of the two nearest
which is farther from zero, and it lies among the four. -/
structure RoundedMean (a b c d m : Int) : Prop where
  nearest : ∀ k, (4 * m - (a + b + c + d)).natAbs ≤ (4 * k - (a + b + c + d)).natAbs
  away : ∀ k, k ≠ m →
    (4 * k - (a + b + c + d)).natAbs = (4 * m - (a + b + c + d)).natAbs → k.natAbs < m.natAbs
  least_le : min (min a b) (min c d) ≤ m
  le_greatest : m ≤ max (max a b) (max c d)

namespace MotionVector

/-! ## Quarters -/

theorem quarter_cases (sum : Int) :
    0 ≤ sum ∧ quarter sum = (sum + 2) / 4 ∨ sum < 0 ∧ quarter sum = -((2 - sum) / 4) := by
  unfold quarter
  by_cases negative : sum < 0
  · rw [if_pos negative, ← Int.neg_sub 2 sum, Int.neg_tdiv, Int.tdiv_eq_ediv_of_nonneg (by omega)]
    exact .inr ⟨negative, rfl⟩
  · rw [if_neg negative, Int.tdiv_eq_ediv_of_nonneg (by omega)]
    exact .inl ⟨Int.not_lt.1 negative, rfl⟩

theorem quarter_neg (sum : Int) : quarter (-sum) = -quarter sum := by
  have value := quarter_cases sum
  have opposite := quarter_cases (-sum)
  omega

theorem quarter_mono {sum sum' : Int} (h : sum ≤ sum') : quarter sum ≤ quarter sum' := by
  have value := quarter_cases sum
  have value' := quarter_cases sum'
  omega

theorem quarter_roundedMean (a b c d : Int) : RoundedMean a b c d (quarter (a + b + c + d)) := by
  have value := quarter_cases (a + b + c + d)
  generalize quarter (a + b + c + d) = m at value
  constructor
  · intro k
    omega
  · intro k other tie
    omega
  · omega
  · omega

/-! ## Words -/

theorem toInt_ofInt_quarter (a b c d : Int16) :
    (Int16.ofInt (quarter (a.toInt + b.toInt + c.toInt + d.toInt))).toInt =
      quarter (a.toInt + b.toInt + c.toInt + d.toInt) := by
  have among := quarter_roundedMean a.toInt b.toInt c.toInt d.toInt
  have least := among.least_le
  have greatest := among.le_greatest
  have lower (n : Int16) : -2 ^ 15 ≤ n.toInt := n.le_toInt
  have upper (n : Int16) : n.toInt < 2 ^ 15 := n.toInt_lt
  have := lower a; have := lower b; have := lower c; have := lower d
  have := upper a; have := upper b; have := upper c; have := upper d
  exact Int16.toInt_ofInt_of_le (by omega) (by omega)

variable {part : MotionVector → Int16}

theorem toInt_average (component : part ∈ [row, col]) (a b c d : MotionVector) :
    (part (average a b c d)).toInt =
      quarter ((part a).toInt + (part b).toInt + (part c).toInt + (part d).toInt) := by
  simp only [List.mem_cons, List.not_mem_nil, or_false] at component
  rcases component with rfl | rfl
  · exact toInt_ofInt_quarter ..
  · exact toInt_ofInt_quarter ..

variable (a b c d : MotionVector)

theorem average_perm {a' b' c' d' : MotionVector} (perm : [a', b', c', d'].Perm [a, b, c, d]) :
    average a' b' c' d' = average a b c d := by
  have same (part : MotionVector → Int16) :
      (part a').toInt + (part b').toInt + (part c').toInt + (part d').toInt =
        (part a).toInt + (part b).toInt + (part c).toInt + (part d).toInt := by
    have sums := (perm.map fun v => (part v).toInt).sum_eq
    simp only [List.map_cons, List.map_nil, List.sum_cons, List.sum_nil] at sums
    omega
  rw [average, average, same row, same col]

/-- Each component of the mean is the rounded mean of the components, as a number. Larger
components give no smaller one, opposite components the opposite one, and the order of the vectors
does not count. -/
theorem average_rounds :
    (∀ part ∈ [row, col],
      RoundedMean (part a).toInt (part b).toInt (part c).toInt (part d).toInt
        (part (average a b c d)).toInt ∧
      (∀ a' b' c' d' : MotionVector, (part a).toInt ≤ (part a').toInt →
        (part b).toInt ≤ (part b').toInt → (part c).toInt ≤ (part c').toInt →
        (part d).toInt ≤ (part d').toInt →
        (part (average a b c d)).toInt ≤ (part (average a' b' c' d')).toInt) ∧
      ∀ a' b' c' d' : MotionVector, (part a').toInt = -(part a).toInt →
        (part b').toInt = -(part b).toInt → (part c').toInt = -(part c).toInt →
        (part d').toInt = -(part d).toInt →
        (part (average a' b' c' d')).toInt = -(part (average a b c d)).toInt) ∧
    ∀ a' b' c' d', [a', b', c', d'].Perm [a, b, c, d] →
      average a' b' c' d' = average a b c d := by
  refine ⟨fun part component => ⟨?_, fun a' b' c' d' ha hb hc hd => ?_,
    fun a' b' c' d' ha hb hc hd => ?_⟩, fun a' b' c' d' => average_perm a b c d⟩
  · rw [toInt_average component]
    exact quarter_roundedMean ..
  · rw [toInt_average component, toInt_average component]
    exact quarter_mono (by omega)
  · have opposite : -(part a).toInt + -(part b).toInt + -(part c).toInt + -(part d).toInt =
        -((part a).toInt + (part b).toInt + (part c).toInt + (part d).toInt) := by omega
    rw [toInt_average component, toInt_average component, ha, hb, hc, hd, opposite, quarter_neg]

/-- A half away from zero in both directions, and the two ends of the range. -/
theorem average_rounds_halves :
    row ∈ [row, col] ∧ col ∈ [row, col] ∧
    average ⟨1, -32768⟩ ⟨1, -32768⟩ .zero ⟨0, 32767⟩ = ⟨1, -8192⟩ ∧
    RoundedMean 1 1 0 0 1 ∧ RoundedMean (-32768) (-32768) 0 32767 (-8192) ∧
    average ⟨0, 32767⟩ ⟨1, -32768⟩ .zero ⟨1, -32768⟩ = ⟨1, -8192⟩ ∧
    (average ⟨-1, 5⟩ ⟨-1, 5⟩ .zero .zero).row.toInt = -1 ∧
    1 ≤ (average ⟨32767, 0⟩ ⟨32767, 0⟩ ⟨32767, 0⟩ ⟨32767, 0⟩).row.toInt := by
  obtain ⟨parts, ordered⟩ := average_rounds ⟨1, -32768⟩ ⟨1, -32768⟩ .zero ⟨0, 32767⟩
  obtain ⟨rows, larger, opposite⟩ := parts row (by simp)
  obtain ⟨columns, -, -⟩ := parts col (by simp)
  have value : average ⟨1, -32768⟩ ⟨1, -32768⟩ .zero ⟨0, 32767⟩ = ⟨1, -8192⟩ := by decide
  rw [value] at rows columns larger opposite ordered
  refine ⟨by simp, by simp, value, rows, columns, ordered _ _ _ _ ?_, ?_, ?_⟩
  · decide
  · exact opposite _ _ _ _ (by decide) (by decide) (by decide) (by decide)
  · exact larger _ _ _ _ (by decide) (by decide) (by decide) (by decide)

end MotionVector

end BlockVideo
