import Mathlib.Algebra.BigOperators.Fin
import BlockVideo.EdgeFilter

/-!
# The edge filters by their formulas

`Around` numbers the samples on both sides of an edge by their place, `q0 q1 q2 …` from 0 up and
`p0 p1 p2 …` from -1 down, and says what a filter leaves in each place: the conditions on the
differences of samples, the means over 15 and over 7 places with the outermost samples repeated,
and the correction in signed bytes, every step of it held to the range of a signed byte.

The filter of a line works on runs of 8 and 16 samples. `On` ties a run to the places that it takes
up, and then each test and each of the three filters is its formula (`filter_eq_formula`).
-/

namespace BlockVideo

/-- Samples around an edge, by place. -/
abbrev Around := Int → Int

namespace Around

/-- Around place `edge` of a line. -/
def ofLine {n : Nat} (samples : Vector UInt8 n) (edge : Nat) : Around := fun z =>
  if h : (edge + z).toNat < n then samples[(edge + z).toNat].toNat else 0

variable (s : Around)

/-- Sample `i` in front of the edge, counted away from it. -/
def p (i : Nat) : Int := s (-1 - i)

/-- Sample `i` behind the edge. -/
def q (i : Nat) : Int := s i

/-! ## Conditions -/

def Active (t : Thresholds) : Prop :=
  (∀ i ∈ [0, 1, 2], (s.p (i + 1) - s.p i).natAbs ≤ t.interior ∧
    (s.q (i + 1) - s.q i).natAbs ≤ t.interior) ∧
  2 * (s.p 0 - s.q 0).natAbs + (s.p 1 - s.q 1).natAbs / 2 ≤ t.edge

/-- The samples of these numbers are within 1 of the one at the edge, on both sides. -/
def Close (numbers : List Nat) : Prop :=
  ∀ i ∈ numbers, (s.p i - s.p 0).natAbs ≤ 1 ∧ (s.q i - s.q 0).natAbs ≤ 1

def Flat : Prop := s.Close [1, 2, 3]

def FlatOutside : Prop := s.Close [4, 5, 6, 7]

def HighVariance (threshold : Nat) : Prop :=
  threshold < (s.p 1 - s.p 0).natAbs ∨ threshold < (s.q 1 - s.q 0).natAbs

instance (t : Thresholds) : Decidable (s.Active t) := inferInstanceAs (Decidable (_ ∧ _))

instance (numbers : List Nat) : Decidable (s.Close numbers) :=
  inferInstanceAs (Decidable (∀ i ∈ numbers, _))

instance : Decidable s.Flat := inferInstanceAs (Decidable (s.Close _))

instance : Decidable s.FlatOutside := inferInstanceAs (Decidable (s.Close _))

instance (threshold : Nat) : Decidable (s.HighVariance threshold) :=
  inferInstanceAs (Decidable (_ ∨ _))

/-! ## Smoothing -/

/-- The sample in place `z`, where the sample `half + 1` places from the edge is repeated on. -/
def repeated (half : Nat) (z : Int) : Int := s (max (-half - 1) (min z half))

/-- The `2 * half + 1` samples around place `z`, and the one in place `z` again. -/
def windowTotal (half : Nat) (z : Int) : Int :=
  (∑ k ∈ Finset.range (2 * half + 1), s.repeated half (z - half + k)) + s z

/-- Means in the `half` places on each side of the edge. -/
def smooth (half shift : Nat) : Around := fun z =>
  if -half ≤ z ∧ z < half then (s.windowTotal half z + (half + 1)) >>> shift else s z

/-! ## Correction -/

def signed : Around := fun z => s z - 128

/-- How far the samples at the edge lie apart, and the next ones too where the variance is high. -/
def step (high : Prop) [Decidable high] : Int :=
  EdgeFilter.hold ((if high then EdgeFilter.hold (s.signed.p 1 - s.signed.q 1) else 0) +
    3 * (s.signed.q 0 - s.signed.p 0))

/-- What `q0` is lowered by. -/
def down (high : Prop) [Decidable high] : Int := EdgeFilter.hold (s.step high + 4) >>> (3 : Nat)

/-- What `p0` is raised by. -/
def up (high : Prop) [Decidable high] : Int := EdgeFilter.hold (s.step high + 3) >>> (3 : Nat)

/-- What `q1` is lowered and `p1` raised by. -/
def outer (high : Prop) [Decidable high] : Int := (s.down high + 1) >>> (1 : Nat)

def correct (high : Prop) [Decidable high] : Around := fun z =>
  if z = -1 then EdgeFilter.hold (s.signed.p 0 + s.up high) + 128
  else if z = 0 then EdgeFilter.hold (s.signed.q 0 - s.down high) + 128
  else if z = -2 ∧ ¬ high then EdgeFilter.hold (s.signed.p 1 + s.outer high) + 128
  else if z = 1 ∧ ¬ high then EdgeFilter.hold (s.signed.q 1 - s.outer high) + 128
  else s z

/-- What the filter of a width leaves in each place. -/
def filtered (w : EdgeWidth) (t : Thresholds) : Around :=
  if ¬ s.Active t then s
  else if w = .wide ∧ s.Flat ∧ s.FlatOutside then s.smooth 7 4
  else if w ≠ .narrow ∧ s.Flat then s.smooth 3 3
  else s.correct (s.HighVariance t.variance)

/-! ## Runs of samples -/

variable {n k : Nat} {s}

/-- `v` holds the samples from place `start` on. -/
def On (s : Around) (v : Vector UInt8 n) (start : Int) : Prop :=
  ∀ i (hi : i < n), (v[i].toNat : Int) = s (start + i)

theorem ofLine_on (line : Vector UInt8 n) (edge : Nat) : (ofLine line edge).On line (-edge) := by
  intro i hi
  have e : ((edge : Int) + (-edge + i)).toNat = i := by omega
  simp only [ofLine, e, dif_pos hi]

theorem On.unique {v v' : Vector UInt8 n} {a : Int} (h : s.On v a) (h' : s.On v' a) : v = v' :=
  Vector.ext fun i hi => UInt8.toNat_inj.1 (Int.ofNat.inj ((h i hi).trans (h' i hi).symm))

theorem On.window {v : Vector UInt8 n} {a b : Int} {start : Nat} (h : s.On v a)
    (fits : start + k ≤ n) (hb : a + start = b) :
    ∃ part, Run.window v start k = .ok part ∧ s.On part b := by
  refine ⟨_, Run.window_eq_ok fits, fun i hi => ?_⟩
  rw [Vector.getElem_ofFn, h (start + i) (by omega)]
  congr 1
  omega

theorem core_place (w : EdgeWidth) : -(w.reach : Int) + (w.reach - 4 : Nat) = -4 := by
  have := w.four_le_reach
  omega

theorem On.core {w : EdgeWidth} {v : Vector UInt8 n} (h : s.On v (-w.reach))
    (fits : w.reach + 4 ≤ n) :
    ∃ core : Vector UInt8 8, Run.window v (w.reach - 4) 8 = .ok core ∧ s.On core (-4) := by
  have := w.four_le_reach
  exact h.window (by omega) (core_place w)

theorem On.replace {s' : Around} {v : Vector UInt8 n} {part : Vector UInt8 k} {a b : Int}
    {start : Nat} (h : s.On v a) (h' : s'.On part b) (fits : start + k ≤ n) (hb : a + start = b)
    (around : ∀ z, ¬ (b ≤ z ∧ z < b + k) → s' z = s z) :
    ∃ q, Run.replace v start part.get = .ok q ∧ s'.On q a := by
  refine ⟨_, Run.replace_eq_ok fits, fun i hi => ?_⟩
  rw [Run.getElem_overwrite]
  split
  · refine (h' (i - start) (by omega)).trans ?_
    congr 1
    omega
  · rw [h i hi, around _ (by omega)]

end Around

namespace EdgeFilter

open Around

variable {s : Around} {n : Nat}

/-! ## Tests -/

theorem absDiff_eq {a b : UInt8} {x y : Int} (ha : (a.toNat : Int) = x) (hb : (b.toNat : Int) = y) :
    absDiff a b = (x - y).natAbs := by
  unfold absDiff
  omega

section Core

variable {core : Vector UInt8 8}

theorem numbers (h : s.On core (-4)) : Numbers core s.p s.q :=
  ⟨h 0 _, h 1 _, h 2 _, h 3 _, h 4 _, h 5 _, h 6 _, h 7 _⟩

theorem active_iff (h : s.On core (-4)) {t : Thresholds} : active t core = true ↔ s.Active t := by
  obtain ⟨p3, p2, p1, p0, q0, q1, q2, q3⟩ := numbers h
  simp only [active, Active, absDiff_eq p3 p2, absDiff_eq p2 p1, absDiff_eq p1 p0,
    absDiff_eq q1 q0, absDiff_eq q2 q1, absDiff_eq q3 q2, absDiff_eq p0 q0, absDiff_eq p1 q1,
    Bool.and_eq_true, decide_eq_true_eq, List.forall_mem_cons, Nat.mul_comm 2]
  grind

theorem highVariance_iff (h : s.On core (-4)) {threshold : Nat} :
    highVariance threshold core = true ↔ s.HighVariance threshold := by
  obtain ⟨-, -, p1, p0, q0, q1, -, -⟩ := numbers h
  simp only [highVariance, HighVariance, absDiff_eq p1 p0, absDiff_eq q1 q0, Bool.or_eq_true,
    decide_eq_true_eq]

theorem flat_iff (h : s.On core (-4)) : flat core = true ↔ s.Flat := by
  obtain ⟨p3, p2, p1, p0, q0, q1, q2, q3⟩ := numbers h
  simp only [flat, Flat, Close, absDiff_eq p3 p0, absDiff_eq p2 p0, absDiff_eq p1 p0,
    absDiff_eq q1 q0, absDiff_eq q2 q0, absDiff_eq q3 q0, Bool.and_eq_true, decide_eq_true_eq,
    List.forall_mem_cons]
  grind

end Core

theorem flatOutside_iff {whole : Vector UInt8 16} (h : s.On whole (-8)) :
    flatOutside whole = true ↔ s.FlatOutside := by
  have p0 : (whole[7].toNat : Int) = s.p 0 := h 7 _
  have q0 : (whole[8].toNat : Int) = s.q 0 := h 8 _
  have p7 : (whole[0].toNat : Int) = s.p 7 := h 0 _
  have p6 : (whole[1].toNat : Int) = s.p 6 := h 1 _
  have p5 : (whole[2].toNat : Int) = s.p 5 := h 2 _
  have p4 : (whole[3].toNat : Int) = s.p 4 := h 3 _
  have q4 : (whole[12].toNat : Int) = s.q 4 := h 12 _
  have q5 : (whole[13].toNat : Int) = s.q 5 := h 13 _
  have q6 : (whole[14].toNat : Int) = s.q 6 := h 14 _
  have q7 : (whole[15].toNat : Int) = s.q 7 := h 15 _
  simp only [flatOutside, FlatOutside, Close, absDiff_eq p7 p0, absDiff_eq p6 p0, absDiff_eq p5 p0,
    absDiff_eq p4 p0, absDiff_eq q4 q0, absDiff_eq q5 q0, absDiff_eq q6 q0, absDiff_eq q7 q0,
    Bool.and_eq_true, decide_eq_true_eq, List.forall_mem_cons]
  grind

/-! ## Smoothing -/

theorem foldl_add_le {α : Type} (f : α → Nat) {bound : Nat} (h : ∀ a, f a ≤ bound) (as : List α)
    (total : Nat) : as.foldl (fun sum a => sum + f a) total ≤ total + as.length * bound := by
  induction as generalizing total with
  | nil => simp
  | cons a as ih =>
    have := ih (total + f a)
    have := h a
    rw [List.foldl_cons, List.length_cons, Nat.succ_mul]
    omega

theorem windowSum_le {half : Nat} (v : Vector UInt8 (2 * half + 2)) (i : Fin (2 * half + 2)) :
    windowSum half v i ≤ 255 * (2 * half + 2) := by
  have bound (a : UInt8) : a.toNat ≤ 255 := Nat.le_of_lt_succ a.toNat_lt
  have := foldl_add_le (fun k : Fin (2 * half + 1) =>
    (getElem v (min (i.val + k.val - half) (2 * half + 1)) (by omega)).toNat) (fun _ => bound _)
    (List.finRange _) (v.get i).toNat
  have := bound (v.get i)
  rw [List.length_finRange] at *
  unfold windowSum
  omega

theorem foldl_add_eq_sum {m : Nat} (f : Fin m → Nat) (total : Nat) :
    (List.finRange m).foldl (fun sum k => sum + f k) total = (∑ k, f k) + total := by
  induction m with
  | zero => simp
  | succ m ih =>
    rw [List.finRange_succ_last, List.foldl_append, List.foldl_map, ih fun k => f k.castSucc,
      Fin.sum_univ_castSucc, List.foldl_cons, List.foldl_nil, Nat.add_right_comm]

variable {half : Nat} {v : Vector UInt8 (2 * half + 2)}

theorem windowSum_eq (h : s.On v (-half - 1)) (i : Fin (2 * half + 2)) :
    (windowSum half v i : Int) = s.windowTotal half (-half - 1 + i) := by
  unfold windowSum windowTotal
  rw [foldl_add_eq_sum, Finset.sum_range]
  push_cast
  refine congrArg₂ (· + ·) (Finset.sum_congr rfl fun k _ => ?_) (h i i.isLt)
  rw [h, repeated]
  congr 1
  omega

theorem toNat_smooth (v : Vector UInt8 (2 * half + 2)) (i : Fin (2 * half + 2))
    (inner : ¬ (i.val = 0 ∨ i.val = 2 * half + 1)) : ((smooth half v).get i).toNat =
      (windowSum half v i + (half + 1)) / (2 * (half + 1)) := by
  have total := windowSum_le v i
  have small : (windowSum half v i + (half + 1)) / (2 * (half + 1)) < 256 :=
    Nat.div_lt_of_lt_mul (by omega)
  have mean : (smooth half v).get i =
      UInt8.ofNat ((windowSum half v i + (half + 1)) / (2 * (half + 1))) :=
    (Vector.getElem_ofFn i.isLt).trans (if_neg inner)
  rw [mean, UInt8.toNat_ofNat', Nat.mod_eq_of_lt small]

theorem smooth_on {shift : Nat} (h : s.On v (-half - 1)) (hs : 2 ^ shift = 2 * (half + 1)) :
    (s.smooth half shift).On (EdgeFilter.smooth half v) (-half - 1) := by
  intro i hi
  by_cases ends : i = 0 ∨ i = 2 * half + 1
  · simp only [EdgeFilter.smooth, Around.smooth, Vector.getElem_ofFn]
    rw [if_pos ends, if_neg (by omega)]
    exact h i hi
  · refine (congrArg Nat.cast (toNat_smooth v ⟨i, hi⟩ ends)).trans ?_
    rw [Around.smooth, if_pos (by omega), ← windowSum_eq h ⟨i, hi⟩, Int.shiftRight_eq_div_pow, hs]
    rfl

/-! ## Correction -/

theorem toNat_ofSigned_hold (z : Int) : ((ofSigned (hold z)).toNat : Int) = hold z + 128 := by
  unfold ofSigned hold
  rw [UInt8.toNat_ofNat']
  omega

variable {core : Vector UInt8 8} {high : Bool} {High : Prop} [Decidable High]

theorem toSigned_eq {a : UInt8} {z : Int} (h : (a.toNat : Int) = z) : toSigned a = z - 128 :=
  congrArg (· - 128) h

/-- The corrected core holds the corrected samples: those at the edge, the next ones where the
variance is low, and the others as they were. -/
theorem correct_on (h : s.On core (-4)) (hh : high = true ↔ High) :
    (s.correct High).On (EdgeFilter.correct high core) (-4) := by
  obtain ⟨-, -, p1, p0, q0, q1, -, -⟩ := numbers h
  have p1 : toSigned core[2] = s.signed.p 1 := toSigned_eq p1
  have p0 : toSigned core[3] = s.signed.p 0 := toSigned_eq p0
  have q0 : toSigned core[4] = s.signed.q 0 := toSigned_eq q0
  have q1 : toSigned core[5] = s.signed.q 1 := toSigned_eq q1
  have cases_eq {α : Type} (a b : α) : (if high then a else b) = if High then a else b :=
    if_congr hh rfl rfl
  have corrected : EdgeFilter.correct high core =
      #v[core[0], core[1],
        if High then core[2] else ofSigned (hold (s.signed.p 1 + s.outer High)),
        ofSigned (hold (s.signed.p 0 + s.up High)),
        ofSigned (hold (s.signed.q 0 - s.down High)),
        if High then core[5] else ofSigned (hold (s.signed.q 1 - s.outer High)),
        core[6], core[7]] := by
    simp only [EdgeFilter.correct, p1, p0, q0, q1, cases_eq, Around.outer, Around.up, Around.down,
      Around.step, Int.shiftRight_eq_div_pow]
    rfl
  rw [corrected]
  have value := toNat_ofSigned_hold
  intro i hi
  match i, hi with
  | 0, _ => exact h 0 _
  | 1, _ => exact h 1 _
  | 2, _ =>
    by_cases hv : High
    · simpa [Around.correct, hv] using h 2 (by decide)
    · simpa [Around.correct, hv] using value _
  | 3, _ => exact value _
  | 4, _ => exact value _
  | 5, _ =>
    by_cases hv : High
    · simpa [Around.correct, hv] using h 5 (by decide)
    · simpa [Around.correct, hv] using value _
  | 6, _ => exact h 6 _
  | 7, _ => exact h 7 _

/-! ## The filter -/

/-- Where smoothing does not come into question, the core is corrected, and nothing beyond it is
looked at. -/
theorem filterActive_corrects {w : EdgeWidth} {line : Vector UInt8 n} (h : s.On line (-w.reach))
    (fits : w.reach + 4 ≤ n) (unflat : ¬ (w ≠ .narrow ∧ s.Flat)) (variance : Nat) :
    ∃ v, filterActive w variance line = .ok v ∧
      (s.correct (s.HighVariance variance)).On v (-w.reach) := by
  have hr := w.four_le_reach
  obtain ⟨core, hcore, onCore⟩ := h.core fits
  simp only [filterActive, hcore, bind, Except.bind, flat_iff onCore, if_neg unflat]
  refine h.replace (correct_on onCore (highVariance_iff onCore)) (by omega) (core_place w)
    fun z hz => ?_
  simp only [Around.correct]
  rw [if_neg (by omega), if_neg (by omega), if_neg (by omega), if_neg (by omega)]

theorem filterActive_on {w : EdgeWidth} {line : Vector UInt8 n} (h : s.On line (-w.reach))
    (fits : 2 * w.reach ≤ n) {t : Thresholds} (active : s.Active t) :
    ∃ v, filterActive w t.variance line = .ok v ∧ (s.filtered w t).On v (-w.reach) := by
  have hr := w.four_le_reach
  rw [filtered, if_neg (not_not_intro active)]
  -- a flat core gets the short filter, unless the edge is wide and flat outside too
  by_cases flat : w ≠ .narrow ∧ s.Flat
  · obtain ⟨core, hcore, onCore⟩ := h.core (show w.reach + 4 ≤ n by omega)
    have short : ∃ v, Run.replace line (w.reach - 4) (EdgeFilter.smooth 3 core).get = .ok v ∧
        (s.smooth 3 3).On v (-w.reach) :=
      h.replace (smooth_on onCore rfl) (by omega) (core_place w) fun z hz => if_neg (by omega)
    simp only [filterActive, hcore, bind, Except.bind, flat_iff onCore, if_pos flat]
    by_cases wide : w = .wide
    · subst wide
      have place : -8 + ((0 : Nat) : Int) = -8 := rfl
      obtain ⟨whole, hwhole, onWhole⟩ := h.window (k := 16) fits place
      simp only [if_true, hwhole, flatOutside_iff onWhole, flat.2, true_and]
      by_cases outside : s.FlatOutside
      · rw [if_pos outside, if_pos outside]
        have long : (s.smooth 7 4).On (EdgeFilter.smooth 7 whole) (-8) := smooth_on onWhole rfl
        exact h.replace long fits place fun z hz => if_neg (by omega)
      · rw [if_neg outside, if_neg outside]
        exact short
    · rw [if_neg wide, if_neg fun all => wide all.1]
      exact short
  · have notWide : ¬ (w = .wide ∧ s.Flat ∧ s.FlatOutside) := by
      rintro ⟨rfl, hf, -⟩
      exact flat ⟨nofun, hf⟩
    rw [if_neg notWide, if_neg flat]
    exact filterActive_corrects h (by omega) flat _

/-- A filtered line holds the filtered samples. The core has to lie on the line, and the rest only
where the core is active and flat. -/
theorem filter_on_of_core {w : EdgeWidth} {line : Vector UInt8 n} (h : s.On line (-w.reach))
    (core : w.reach + 4 ≤ n) {t : Thresholds} (rest : s.Active t → s.Flat → 2 * w.reach ≤ n) :
    ∃ v, filter w t line = .ok v ∧ (s.filtered w t).On v (-w.reach) := by
  obtain ⟨samples, taken, onCore⟩ := h.core core
  simp only [filter_eq_of_core taken, active_iff onCore]
  by_cases active : s.Active t
  · rw [if_pos active]
    by_cases flat : s.Flat
    · exact filterActive_on h (rest active flat) active
    · rw [filtered, if_neg (not_not_intro active), if_neg fun all => flat all.2.1,
        if_neg fun all => flat all.2]
      exact filterActive_corrects h core (fun all => flat all.2) _
  · rw [if_neg active, filtered, if_pos active]
    exact ⟨line, rfl, h⟩

theorem filter_on {w : EdgeWidth} {line : Vector UInt8 n} (h : s.On line (-w.reach))
    (fits : 2 * w.reach ≤ n) (t : Thresholds) :
    ∃ v, filter w t line = .ok v ∧ (s.filtered w t).On v (-w.reach) := by
  have hr := w.four_le_reach
  exact filter_on_of_core h (by omega) fun _ _ => fits

/-- Filtering leaves in every place of a line what the formulas say. -/
theorem filter_eq_formula {w : EdgeWidth} (line : Vector UInt8 n) (fits : 2 * w.reach ≤ n)
    (t : Thresholds) :
    ∃ v, filter w t line = .ok v ∧ ∀ i (hi : i < n),
      (v[i].toNat : Int) = (ofLine line w.reach).filtered w t (i - w.reach) := by
  obtain ⟨v, hv, on⟩ := filter_on (ofLine_on line w.reach) fits t
  refine ⟨v, hv, fun i hi => (on i hi).trans ?_⟩
  congr 1
  omega

def stepLine : Vector UInt8 18 :=
  .ofFn fun i => if i.val < 8 then 0 else if i.val < 16 then 16 else 99

theorem filter_stepLine :
    2 * EdgeWidth.wide.reach ≤ 18 ∧ ∃ v, filter .wide ⟨40, 10, 2⟩ stepLine = .ok v ∧
      v[1].toNat = 1 ∧ v[7].toNat = 7 ∧ v[8].toNat = 9 ∧ v[14].toNat = 15 ∧ v[16].toNat = 99 := by
  obtain ⟨v, hv, read⟩ := filter_eq_formula (w := .wide) stepLine (by decide) ⟨40, 10, 2⟩
  have value (i : Nat) (hi : i < 18) {a : Nat}
      (ha : (ofLine stepLine 8).filtered .wide ⟨40, 10, 2⟩ (i - 8) = a) : v[i].toNat = a :=
    Int.ofNat.inj ((read i hi).trans ha)
  exact ⟨by decide, v, hv, value 1 _ (by decide), value 7 _ (by decide), value 8 _ (by decide),
    value 14 _ (by decide), value 16 _ (by decide)⟩

end EdgeFilter

end BlockVideo
