import BlockVideo.Proofs.FilterFormula

/-!
# Corrections where the variance is low

With low variance, a correction moves the two samples at the edge towards each other by three
eighths of the step between them, held to a signed byte first and rounded in two ways. Both amounts
have the sign of the step, and together they are no more than the step, whatever its size
(`Around.up_down_of_rising`, `Around.up_down_of_falling`). So the samples stay between what they
were and do not pass each other, and nothing is lost when they become bytes again
(`Around.correct_contracts`).
-/

namespace BlockVideo

namespace Around

/-- The samples at the edge of `s'` lie between those of `s`, in the same order. -/
structure Contracts (s s' : Around) : Prop where
  p_between : min (s.p 0) (s.q 0) ≤ s'.p 0 ∧ s'.p 0 ≤ max (s.p 0) (s.q 0)
  q_between : min (s.p 0) (s.q 0) ≤ s'.q 0 ∧ s'.q 0 ≤ max (s.p 0) (s.q 0)
  rising : s.p 0 ≤ s.q 0 → s'.p 0 ≤ s'.q 0
  falling : s.q 0 ≤ s.p 0 → s'.q 0 ≤ s'.p 0

theorem Contracts.step_le {s s' : Around} (h : s.Contracts s') :
    (s'.p 0 - s'.q 0).natAbs ≤ (s.p 0 - s.q 0).natAbs := by
  obtain ⟨hp, hq, rising, falling⟩ := h
  rcases Int.le_total (s.p 0) (s.q 0) with up | down
  · have := rising up
    omega
  · have := falling down
    omega

theorem Contracts.of_eq {s s' s'' : Around} (h : s.Contracts s') (hp : s''.p 0 = s'.p 0)
    (hq : s''.q 0 = s'.q 0) : s.Contracts s'' := by
  obtain ⟨pBetween, qBetween, rising, falling⟩ := h
  rw [← hp] at pBetween rising falling
  rw [← hq] at qBetween rising falling
  exact ⟨pBetween, qBetween, rising, falling⟩

variable {s : Around} {high : Prop} [Decidable high]

theorem step_of_low (low : ¬ high) : s.step high = EdgeFilter.hold (3 * (s.q 0 - s.p 0)) := by
  have difference : s.signed.q 0 - s.signed.p 0 = s.q 0 - s.p 0 := by
    simp only [signed, p, q]
    omega
  rw [step, if_neg low, difference, Int.zero_add]

theorem up_down_of_rising (low : ¬ high) (rising : s.p 0 ≤ s.q 0) :
    0 ≤ s.up high ∧ 0 ≤ s.down high ∧ s.up high + s.down high ≤ s.q 0 - s.p 0 := by
  simp only [up, down, step_of_low low, Int.shiftRight_eq_div_pow, EdgeFilter.hold]
  omega

theorem up_down_of_falling (low : ¬ high) (falling : s.q 0 ≤ s.p 0) :
    s.up high ≤ 0 ∧ s.down high ≤ 0 ∧ s.q 0 - s.p 0 ≤ s.up high + s.down high := by
  simp only [up, down, step_of_low low, Int.shiftRight_eq_div_pow, EdgeFilter.hold]
  omega

/-- As long as a corrected sample is a byte, it is not held back. -/
theorem correct_p (high : Prop) [Decidable high] (hl : 0 ≤ s.p 0 + s.up high)
    (hu : s.p 0 + s.up high ≤ 255) : (s.correct high).p 0 = s.p 0 + s.up high := by
  have corrected : (s.correct high).p 0 = EdgeFilter.hold (s.p 0 - 128 + s.up high) + 128 := rfl
  rw [corrected, EdgeFilter.hold]
  omega

theorem correct_q (high : Prop) [Decidable high] (hl : 0 ≤ s.q 0 - s.down high)
    (hu : s.q 0 - s.down high ≤ 255) : (s.correct high).q 0 = s.q 0 - s.down high := by
  have corrected : (s.correct high).q 0 = EdgeFilter.hold (s.q 0 - 128 - s.down high) + 128 := rfl
  rw [corrected, EdgeFilter.hold]
  omega

theorem correct_contracts (low : ¬ high) (hp : 0 ≤ s.p 0 ∧ s.p 0 ≤ 255)
    (hq : 0 ≤ s.q 0 ∧ s.q 0 ≤ 255) : s.Contracts (s.correct high) := by
  rcases Int.le_total (s.p 0) (s.q 0) with rising | falling
  · obtain ⟨up, down, both⟩ := up_down_of_rising low rising
    have hp' := correct_p high (s := s) (by omega) (by omega)
    have hq' := correct_q high (s := s) (by omega) (by omega)
    constructor <;> omega
  · obtain ⟨up, down, both⟩ := up_down_of_falling low falling
    have hp' := correct_p high (s := s) (by omega) (by omega)
    have hq' := correct_q high (s := s) (by omega) (by omega)
    constructor <;> omega

variable {n : Nat}

theorem ofLine_eq_of_on {v : Vector UInt8 n} {edge : Nat} (h : s.On v (-edge)) {z : Int}
    (before : -(edge : Int) ≤ z) (behind : edge + z < n) : ofLine v edge z = s z := by
  have hi : (edge + z).toNat < n := by omega
  rw [ofLine, dif_pos hi, h _ hi]
  congr 1
  omega

theorem ofLine_range (v : Vector UInt8 n) (edge : Nat) (z : Int) :
    0 ≤ ofLine v edge z ∧ ofLine v edge z ≤ 255 := by
  unfold ofLine
  split
  · next h =>
    have := v[(edge + z).toNat].toNat_lt
    omega
  · exact ⟨Int.le_refl 0, by decide⟩

end Around

namespace EdgeFilter

open Around

/-- An active edge that is not smoothed, on a line with its core at least, is corrected. When the
variance is low, the samples at the edge then lie between what they were, in the same order and no
further apart. -/
theorem filter_contracts {n : Nat} {w : EdgeWidth} (line : Vector UInt8 n)
    (fits : w.reach + 4 ≤ n) {t : Thresholds} (active : (ofLine line w.reach).Active t)
    (unflat : w = .narrow ∨ ¬ (ofLine line w.reach).Flat)
    (low : ¬ (ofLine line w.reach).HighVariance t.variance) :
    ∃ v, filter w t line = .ok v ∧ (ofLine line w.reach).Contracts (ofLine v w.reach) ∧
      ((ofLine v w.reach).p 0 - (ofLine v w.reach).q 0).natAbs ≤
        ((ofLine line w.reach).p 0 - (ofLine line w.reach).q 0).natAbs := by
  have hr := w.four_le_reach
  have on := ofLine_on line w.reach
  have place : -(w.reach : Int) + (w.reach - 4 : Nat) = -4 := by omega
  obtain ⟨core, hcore, onCore⟩ := on.window (k := 8) (by omega) place
  obtain ⟨v, hv, onResult⟩ :=
    filterActive_corrects on fits (fun flat => unflat.elim flat.1 (· flat.2)) t.variance
  have contracts : (ofLine line w.reach).Contracts _ :=
    correct_contracts low (ofLine_range line w.reach _) (ofLine_range line w.reach _)
  have same : (ofLine line w.reach).Contracts (ofLine v w.reach) :=
    contracts.of_eq (ofLine_eq_of_on onResult (by omega) (by omega))
      (ofLine_eq_of_on onResult (by omega) (by omega))
  refine ⟨v, ?_, same, same.step_le⟩
  rw [filter, hcore]
  simp only [bind, Except.bind, (active_iff onCore).2 active, if_true]
  exact hv

def fallLine : Vector UInt8 12 := #v[0, 0, 0, 0, 96, 98, 100, 100, 95, 95, 93, 91]

theorem filter_contracts_fallLine :
    EdgeWidth.wide.reach + 4 ≤ 12 ∧ (ofLine fallLine 8).Active ⟨40, 10, 2⟩ ∧
    ¬ (ofLine fallLine 8).Flat ∧ ¬ (ofLine fallLine 8).HighVariance 2 ∧
    ∃ v, filter .wide ⟨40, 10, 2⟩ fallLine = .ok v ∧
      v = #v[0, 0, 0, 0, 96, 98, 99, 98, 97, 96, 93, 91] ∧
      (ofLine fallLine 8).Contracts (ofLine v 8) := by
  obtain ⟨v, hv, contracts, -⟩ := filter_contracts (w := .wide) fallLine (by decide)
    (t := ⟨40, 10, 2⟩) (by decide) (.inr (by decide)) (by decide)
  refine ⟨by decide, by decide, by decide, by decide, v, hv, ?_, contracts⟩
  exact Except.ok.inj (hv.symm.trans rfl)

end EdgeFilter

end BlockVideo
