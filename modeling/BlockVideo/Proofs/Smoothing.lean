import Mathlib.Algebra.BigOperators.Intervals
import Mathlib.Algebra.Order.BigOperators.Group.Finset
import BlockVideo.Proofs.ConstantLines

/-!
# The shape of a smoothed line

A mean grows with the samples of its window (`Around.smooth_le`). So a line that is nowhere above
another stays so (`Around.smooth_mono`), and the bounds of a line hold after smoothing, because a
line of one value is a fixed point. A rising line keeps rising: the window of a later place is
nowhere below that of an earlier one, and the ends, which stay, bound the rest
(`Around.smooth_rises`).

Read backwards, the window around a place is the window around its counterpart
(`Around.smooth_mirror`). So a falling line, which rises backwards, keeps falling. All this is said
of places first, in whole numbers, and then of lines (`EdgeFilter.smooth_keeps_shape`).
-/

namespace BlockVideo

namespace Around

variable {s s' : Around} {half shift : Nat} {z z' : Int}

/-- `s` is nowhere above `s'` in the `half + 1` places on each side of the edge. -/
def AtMost (half : Nat) (s s' : Around) : Prop :=
  ∀ z, -(half : Int) - 1 ≤ z → z ≤ half → s z ≤ s' z

/-- `s` never falls in these places. -/
def Rises (half : Nat) (s : Around) : Prop :=
  ∀ y, -(half : Int) - 1 ≤ y → y ≤ half → ∀ z, -(half : Int) - 1 ≤ z → z ≤ half →
    y ≤ z → s y ≤ s z

def mirror (s : Around) : Around := fun z => s (-1 - z)

/-! ## Comparison of windows -/

theorem smooth_of_end (h : ¬ (-(half : Int) ≤ z ∧ z < half)) : s.smooth half shift z = s z :=
  if_neg h

/-- A mean is at most another when its window is, sample by sample. -/
theorem smooth_le (inner : -(half : Int) ≤ z ∧ z < half) (inner' : -(half : Int) ≤ z' ∧ z' < half)
    (window : ∀ k : Nat, s.repeated half (z - half + k) ≤ s'.repeated half (z' - half + k))
    (center : s z ≤ s' z') : s.smooth half shift z ≤ s'.smooth half shift z' := by
  have total : s.windowTotal half z ≤ s'.windowTotal half z' :=
    Int.add_le_add (Finset.sum_le_sum fun k _ => window k) center
  rw [smooth, smooth, if_pos inner, if_pos inner', Int.shiftRight_eq_div_pow,
    Int.shiftRight_eq_div_pow]
  exact Int.ediv_le_ediv (Int.natCast_pos.2 (Nat.two_pow_pos shift)) (Int.add_le_add_right total _)

theorem smooth_mono (h : AtMost half s s') :
    AtMost half (s.smooth half shift) (s'.smooth half shift) := by
  intro z lower upper
  have center := h z lower upper
  by_cases inner : -(half : Int) ≤ z ∧ z < half
  · exact smooth_le inner inner (fun k => h _ (by omega) (by omega)) center
  · rwa [smooth_of_end inner, smooth_of_end inner]

section Bounds

variable (hs : 2 ^ shift = 2 * (half + 1))

include hs

theorem smooth_level (a : Int) : smooth (fun _ => a) half shift = fun _ => a :=
  smooth_of_constant hs fun _ _ _ => rfl

theorem smooth_above {low : Int} (h : AtMost half (fun _ => low) s) :
    AtMost half (fun _ => low) (s.smooth half shift) :=
  smooth_level hs low ▸ smooth_mono h

theorem smooth_below {high : Int} (h : AtMost half s fun _ => high) :
    AtMost half (s.smooth half shift) fun _ => high :=
  smooth_level hs high ▸ smooth_mono h

theorem smooth_rises (h : s.Rises half) : (s.smooth half shift).Rises half := by
  intro y lower upper z lower' upper' le
  -- an end is not a mean: it is compared with the rest as a bound on the line
  by_cases first : y = -(half : Int) - 1
  · rw [smooth_of_end (z := y) (by omega)]
    have low : AtMost half (fun _ => s y) s := fun x hl hu => h y lower upper x hl hu (by omega)
    exact smooth_above hs low z lower' upper'
  by_cases last : z = half
  · rw [smooth_of_end (z := z) (by omega)]
    have high : AtMost half s fun _ => s z := fun x hl hu => h x hl hu z lower' upper' (by omega)
    exact smooth_below hs high y lower upper
  · refine smooth_le (by omega) (by omega) (fun k => ?_) (h y lower upper z lower' upper' le)
    exact h _ (by omega) (by omega) _ (by omega) (by omega) (by omega)

end Bounds

/-! ## Reading backwards -/

theorem repeated_mirror (s : Around) (half : Nat) (z : Int) :
    s.mirror.repeated half z = s.repeated half (-1 - z) := by
  simp only [repeated, mirror]
  congr 1
  omega

theorem windowTotal_mirror (s : Around) (half : Nat) (z : Int) :
    s.mirror.windowTotal half z = s.windowTotal half (-1 - z) := by
  unfold windowTotal
  -- the window is summed from its other end
  rw [← Finset.sum_range_reflect]
  refine congrArg₂ (· + ·) (Finset.sum_congr rfl fun k inside => ?_) rfl
  rw [repeated_mirror]
  congr 1
  have := Finset.mem_range.1 inside
  omega

theorem smooth_mirror (s : Around) (half shift : Nat) :
    s.mirror.smooth half shift = (s.smooth half shift).mirror := by
  funext z
  by_cases inner : -(half : Int) ≤ z ∧ z < half
  · rw [mirror, smooth, smooth, if_pos inner, if_pos (by omega), windowTotal_mirror]
  · rw [smooth_of_end inner, mirror, mirror, smooth_of_end (by omega)]

/-! ## Lines -/

theorem On.mirror {n : Nat} {v : Vector UInt8 n} {start : Int} (on : s.On v start) :
    s.mirror.On v.reverse (-start - n) := by
  intro i hi
  rw [Vector.getElem_reverse, on]
  refine congrArg s ?_
  omega

theorem forall_place_iff {P : Int → Prop} :
    (∀ z, -(half : Int) - 1 ≤ z → z ≤ half → P z) ↔
      ∀ i : Fin (2 * half + 2), P (-half - 1 + i.val) := by
  refine ⟨fun h i => h _ (by omega) (by omega), fun h z lower upper => ?_⟩
  have place := h ⟨(z + half + 1).toNat, by omega⟩
  rwa [show -(half : Int) - 1 + (z + half + 1).toNat = z by omega] at place

section Lines

variable {v v' : Vector UInt8 (2 * half + 2)}

theorem exists_on (v : Vector UInt8 (2 * half + 2)) : ∃ s : Around, s.On v (-half - 1) := by
  refine ⟨ofLine v (half + 1), fun i hi => (ofLine_on v (half + 1) i hi).trans ?_⟩
  congr 1
  omega

theorem On.eq_get (on : s.On v (-half - 1)) (i : Fin (2 * half + 2)) :
    s (-half - 1 + i.val) = (v.get i).toNat := (on i i.isLt).symm

theorem On.le_iff (on : s.On v (-half - 1)) (on' : s'.On v' (-half - 1))
    (i j : Fin (2 * half + 2)) :
    s (-half - 1 + i.val) ≤ s' (-half - 1 + j.val) ↔ v.get i ≤ v'.get j := by
  rw [on.eq_get, on'.eq_get, Int.ofNat_le, UInt8.le_iff_toNat_le]

theorem atMost_iff (on : s.On v (-half - 1)) (on' : s'.On v' (-half - 1)) :
    AtMost half s s' ↔ ∀ i, v.get i ≤ v'.get i :=
  forall_place_iff.trans (forall_congr' fun i => on.le_iff on' i i)

/-- Bounds on a line, as lines with one value. -/
theorem bounds_iff {low high : UInt8} (on : s.On v (-half - 1)) :
    (AtMost half (fun _ => low.toNat) s ∧ AtMost half s fun _ => high.toNat) ↔
      ∀ i, low ≤ v.get i ∧ v.get i ≤ high := by
  rw [AtMost, AtMost, forall_place_iff, forall_place_iff, ← forall_and]
  refine forall_congr' fun i => ?_
  rw [on.eq_get, Int.ofNat_le, Int.ofNat_le, UInt8.le_iff_toNat_le, UInt8.le_iff_toNat_le]

end Lines

end Around

namespace EdgeFilter

open Around

variable {n : Nat}

def Rising (v : Vector UInt8 n) : Prop := ∀ i j : Fin n, i.val ≤ j.val → v.get i ≤ v.get j

def Falling (v : Vector UInt8 n) : Prop := ∀ i j : Fin n, i.val ≤ j.val → v.get j ≤ v.get i

instance (v : Vector UInt8 n) : Decidable (Rising v) :=
  inferInstanceAs (Decidable (∀ i j : Fin n, i.val ≤ j.val → v.get i ≤ v.get j))

instance (v : Vector UInt8 n) : Decidable (Falling v) :=
  inferInstanceAs (Decidable (∀ i j : Fin n, i.val ≤ j.val → v.get j ≤ v.get i))

theorem rising_reverse_iff {v : Vector UInt8 n} : Rising v.reverse ↔ Falling v := by
  have back (i : Fin n) : v.reverse.get i = v.get i.rev := by
    refine (Vector.getElem_reverse i.isLt).trans (congrArg v.get (Fin.ext ?_))
    simp only [Fin.val_rev]
    omega
  constructor
  · intro h i j le
    have := h j.rev i.rev (by simp only [Fin.val_rev]; omega)
    rwa [back, back, Fin.rev_rev, Fin.rev_rev] at this
  · intro h i j le
    rw [back, back]
    exact h j.rev i.rev (by simp only [Fin.val_rev]; omega)

section Shape

variable {half shift : Nat} {v v' : Vector UInt8 (2 * half + 2)} {s : Around}

theorem rises_iff (on : s.On v (-half - 1)) : s.Rises half ↔ Rising v :=
  forall_place_iff.trans <| forall_congr' fun i => forall_place_iff.trans <|
    forall_congr' fun j => imp_congr (by omega) (on.le_iff on i j)

variable (hs : 2 ^ shift = 2 * (half + 1))

include hs

theorem smooth_between {low high : UInt8} (h : ∀ i, low ≤ v.get i ∧ v.get i ≤ high) :
    ∀ i, low ≤ (smooth half v).get i ∧ (smooth half v).get i ≤ high := by
  obtain ⟨s, on⟩ := exists_on v
  obtain ⟨above, below⟩ := (bounds_iff on).2 h
  exact (bounds_iff (smooth_on on hs)).1 ⟨smooth_above hs above, smooth_below hs below⟩

theorem smooth_atMost (h : ∀ i, v.get i ≤ v'.get i) :
    ∀ i, (smooth half v).get i ≤ (smooth half v').get i := by
  obtain ⟨s, on⟩ := exists_on v
  obtain ⟨s', on'⟩ := exists_on v'
  exact (atMost_iff (smooth_on on hs) (smooth_on on' hs)).1
    (smooth_mono ((atMost_iff on on').2 h))

theorem smooth_reverse (v : Vector UInt8 (2 * half + 2)) :
    smooth half v.reverse = (smooth half v).reverse := by
  obtain ⟨s, on⟩ := exists_on v
  have start : -(-(half : Int) - 1) - (2 * half + 2 : Nat) = -half - 1 := by omega
  have backwards : s.mirror.On v.reverse (-half - 1) := start ▸ on.mirror
  have result : (s.smooth half shift).mirror.On (smooth half v).reverse (-half - 1) :=
    start ▸ (smooth_on on hs).mirror
  rw [← smooth_mirror] at result
  exact (smooth_on backwards hs).unique result

theorem smooth_rising (h : Rising v) : Rising (smooth half v) := by
  obtain ⟨s, on⟩ := exists_on v
  exact (rises_iff (smooth_on on hs)).1 (smooth_rises hs ((rises_iff on).2 h))

theorem smooth_falling (h : Falling v) : Falling (smooth half v) := by
  rw [← rising_reverse_iff, ← smooth_reverse hs]
  exact smooth_rising hs (rising_reverse_iff.2 h)

end Shape

/-- Smoothing keeps every sample within all bounds on the line, and the mean in an inner place is a
byte, so nothing of it is cut. The ends stay. The reversed line is smoothed to the reversed result,
and a line that is nowhere above another stays so. A line that never falls still never falls, and
one that never rises still never rises. -/
theorem smooth_keeps_shape {half shift : Nat} (hs : 2 ^ shift = 2 * (half + 1))
    (v : Vector UInt8 (2 * half + 2)) :
    (∀ low high, (∀ i, low ≤ v.get i ∧ v.get i ≤ high) →
      ∀ i, low ≤ (smooth half v).get i ∧ (smooth half v).get i ≤ high) ∧
    (∀ i : Fin (2 * half + 2), ¬ (i.val = 0 ∨ i.val = 2 * half + 1) →
      ((smooth half v).get i).toNat = (windowSum half v i + (half + 1)) >>> shift) ∧
    (∀ i : Fin (2 * half + 2), i.val = 0 ∨ i.val = 2 * half + 1 →
      (smooth half v).get i = v.get i) ∧
    smooth half v.reverse = (smooth half v).reverse ∧
    (∀ v' : Vector UInt8 (2 * half + 2), (∀ i, v.get i ≤ v'.get i) →
      ∀ i, (smooth half v).get i ≤ (smooth half v').get i) ∧
    (Rising v → Rising (smooth half v)) ∧
    (Falling v → Falling (smooth half v)) := by
  refine ⟨fun low high => smooth_between hs, fun i inner => ?_, fun i atEnd => ?_,
    smooth_reverse hs v, fun v' => smooth_atMost hs, smooth_rising hs, smooth_falling hs⟩
  · rw [toNat_smooth v i inner, Nat.shiftRight_eq_div_pow, hs]
  · exact (Vector.getElem_ofFn i.isLt).trans (if_pos atEnd)

def slopeLine : Vector UInt8 (2 * 3 + 2) := #v[0, 8, 16, 24, 32, 40, 48, 56]

def stairLine : Vector UInt8 (2 * 7 + 2) := .ofFn fun i => if i.val < 8 then 0 else 16

theorem smooth_slopeLine_stairLine :
    2 ^ 3 = 2 * (3 + 1) ∧ (∀ i, 0 ≤ slopeLine.get i ∧ slopeLine.get i ≤ 56) ∧ Rising slopeLine ∧
    smooth 3 slopeLine = #v[0, 11, 17, 24, 32, 39, 45, 56] ∧
    (∀ i, 0 ≤ (smooth 3 slopeLine).get i ∧ (smooth 3 slopeLine).get i ≤ 56) ∧
    Rising (smooth 3 slopeLine) ∧
    2 ^ 4 = 2 * (7 + 1) ∧ Falling stairLine.reverse ∧
    smooth 7 stairLine.reverse = (smooth 7 stairLine).reverse ∧
    smooth 7 stairLine = #v[0, 1, 2, 3, 4, 5, 6, 7, 9, 10, 11, 12, 13, 14, 15, 16] ∧
    Falling (smooth 7 stairLine.reverse) := by
  have short : 2 ^ 3 = 2 * (3 + 1) := rfl
  have long : 2 ^ 4 = 2 * (7 + 1) := rfl
  obtain ⟨between, -, -, -, -, rising, -⟩ := smooth_keeps_shape short slopeLine
  obtain ⟨-, -, -, reverse, -⟩ := smooth_keeps_shape long stairLine
  obtain ⟨-, -, -, -, -, -, falling⟩ := smooth_keeps_shape long stairLine.reverse
  have slope : Rising slopeLine := by decide
  have bounds : ∀ i, 0 ≤ slopeLine.get i ∧ slopeLine.get i ≤ 56 := by decide
  have stair : Falling stairLine.reverse := by
    rw [← rising_reverse_iff, Vector.reverse_reverse]
    decide
  exact ⟨short, bounds, slope, rfl, between 0 56 bounds, rising slope, long, stair, reverse, rfl,
    falling stair⟩

end EdgeFilter

end BlockVideo
