import Mathlib.Algebra.BigOperators.Fin
import Mathlib.Algebra.Order.BigOperators.Group.Finset
import BlockVideo.Proofs.LocallyConstant
import BlockVideo.Proofs.Parts
import BlockVideo.Proofs.SupportWindow

/-!
# Bilinear prediction

A kernel of the bilinear bank weighs two samples, the one at its place and the next, with taps that
are not negative. A resampled line therefore grows with the two samples that are mixed
(`Bank.resample_bilinear_mono`), and so does a block, which mixes up to four samples of the
reference for each of its own (`Block.Mixes`, `Block.resampled_mono`).

A block of a plane with one value everywhere has that value. Compared with such blocks, a predicted
sample lies between all bounds on those that it mixes, and no others count (`predict_bilinear`).
-/

namespace BlockVideo

variable {l l' : Layout} {p : Plane l} {p' : Plane l'} {b : Block} {u v : Int}

/-! ## What is mixed -/

/-- The samples of a line that are mixed for the one that lies a phase behind place `z`. -/
def Phase.Mixes (φ : Phase) (z u : Int) : Prop := u = z ∨ φ ≠ .zero ∧ u = z + 1

def Block.Mixes (b : Block) (c r : Nat) (u v : Int) : Prop :=
  b.phaseX.Mixes (b.x + c) u ∧ b.phaseY.Mixes (b.y + r) v

theorem Phase.Mixes.combines {φ : Phase} {z : Int} (mixes : φ.Mixes z u) : φ.Combines z u := by
  unfold Combines
  rcases mixes with rfl | ⟨some, rfl⟩
  · split <;> omega
  · rw [if_neg some]
    omega

theorem Block.Mixes.sees {c : Fin b.width} {r : Fin b.height} (mixes : b.Mixes c r u v) :
    b.Sees u v :=
  Combines.sees ⟨mixes.1.combines, mixes.2.combines⟩

/-! ## Kernels -/

namespace Kernel

theorem round_mono {x y : Int} (h : x ≤ y) : round x ≤ round y := by
  have quotient := Int.ediv_le_ediv (c := unit) (by decide) (Int.add_le_add_right h (unit / 2))
  rw [UInt8.le_iff_toNat_le, round, round, toNat_clip, toNat_clip]
  omega

variable {k : Kernel}

theorem dot_eq_sum (s : Fin 8 → Int) : k.dot s = ∑ j, k.get j * s j := by
  rw [dot_eq, Fin.sum_univ_eight]

/-- Without negative taps, a weighted sum grows with the numbers that have a weight. -/
theorem dot_mono (nonneg : ∀ j, 0 ≤ k.get j) {s t : Fin 8 → Int}
    (h : ∀ j, k.get j ≠ 0 → s j ≤ t j) : k.dot s ≤ k.dot t := by
  have term (j : Fin 8) : k.get j * s j ≤ k.get j * t j := by
    by_cases none : k.get j = 0
    · simp only [none, Int.zero_mul, Int.le_refl]
    · exact Int.mul_le_mul_of_nonneg_left (h j none) (nonneg j)
  rw [dot_eq_sum, dot_eq_sum]
  exact Finset.sum_le_sum fun j _ => term j

theorem apply_mono (nonneg : ∀ j, 0 ≤ k.get j) {s t : Fin 8 → UInt8}
    (h : ∀ j, k.get j ≠ 0 → s j ≤ t j) : k.apply s ≤ k.apply t :=
  round_mono (dot_mono nonneg fun j some => Int.ofNat_le.2 (UInt8.le_iff_toNat_le.1 (h j some)))

end Kernel

namespace Bank

theorem kernel_bilinear_nonneg (φ : Phase) (j : Fin 8) : 0 ≤ (bilinear.kernel φ).get j := by
  revert φ j
  decide

theorem kernel_bilinear_ne_zero {φ : Phase} {j : Fin 8} (h : (bilinear.kernel φ).get j ≠ 0) :
    j.val = 3 ∨ j.val = 4 := by
  revert φ j
  decide

/-! ## Lines -/

theorem resample_bilinear_mono (φ : Phase) {n : Nat} {s s' : Vector UInt8 (n + φ.spread)} (x : Int)
    {i : Fin n}
    (h : ∀ j (hj : j < n + φ.spread), φ.Mixes (x + i) (x - φ.lead + j) → s[j] ≤ s'[j]) :
    (bilinear.resample φ s).get i ≤ (bilinear.resample φ s').get i := by
  by_cases zero : φ = .zero
  · rw [get_resample_of_zero _ s i zero, get_resample_of_zero _ s' i zero]
    refine h i _ (.inl ?_)
    have lead : φ.lead = 0 := if_pos zero
    rw [lead]
    omega
  · rw [get_resample_of_ne _ s i zero, get_resample_of_ne _ s' i zero]
    refine Kernel.apply_mono (kernel_bilinear_nonneg φ) fun j weighs => h _ _ ?_
    have lead : φ.lead = 3 := if_neg zero
    rw [lead]
    rcases kernel_bilinear_ne_zero weighs with hj | hj
    · exact .inl (by omega)
    · exact .inr ⟨zero, by omega⟩

end Bank

/-! ## Planes -/

theorem Plane.stored?_constant {a s : UInt8} (h : (Plane.constant l a).stored? u v = some s) :
    s = a := by
  obtain ⟨_, read⟩ := Vector.getElem?_eq_some_iff.1 h
  exact read.symm.trans (Vector.getElem_replicate _)

namespace Block

theorem exists_stored {t : Tile b.width b.height} (resampled : b.resampled p = .ok t)
    (sees : b.Sees u v) : ∃ a, p.stored? u v = some a := by
  obtain ⟨scratch, across, -⟩ := bind_eq_ok_iff.1 resampled
  obtain ⟨row, span⟩ := exists_spans across
  obtain ⟨⟨left, right⟩, top, bottom⟩ := sees
  have read := p.stored?_of_span (span ⟨(v - b.supportY).toNat, by omega⟩)
    (show (u - b.supportX).toNat < b.supportWidth by omega)
  rw [show b.supportX + (u - b.supportX).toNat = u by omega,
    show b.supportY + (v - b.supportY).toNat = v by omega] at read
  exact ⟨_, read⟩

theorem exists_resampled (size : b.flaw? = none) {t : Tile b.width b.height}
    (resampled : b.resampled p = .ok t) (q : Plane l) : ∃ u, b.resampled q = .ok u := by
  obtain ⟨scratch, across, -⟩ := bind_eq_ok_iff.1 resampled
  obtain ⟨row, span⟩ := exists_spans across
  have rows (r : Fin b.supportHeight) :
      ∃ row, q.span b.supportX (b.supportY + r.val) b.supportWidth = .ok row :=
    ⟨_, q.span_of_hasRun (p.hasRun_of_span (span r))⟩
  choose row' span' using rows
  obtain ⟨_, resampled', -⟩ := resampled_eq_ok_of_spans size span'
  exact ⟨_, resampled'⟩

theorem exists_level (size : b.flaw? = none) {t : Tile b.width b.height}
    (resampled : b.resampled p = .ok t) (a : UInt8) :
    ∃ level, b.resampled (.constant l a) = .ok level ∧ ∀ c r, level.get c r = a := by
  obtain ⟨level, hl⟩ := exists_resampled size resampled (.constant l a)
  refine ⟨level, hl, fun c r => resampled_of_constant size hl fun u v combines => ?_⟩
  obtain ⟨s, stored⟩ := exists_stored hl combines.sees
  rw [stored, Plane.stored?_constant stored]

section Resampled

variable {t : Tile b.width b.height} {t' : Tile b.width b.height} {c : Fin b.width}
  {r : Fin b.height} (bilinear : b.bank = .bilinear) (size : b.flaw? = none)
  (resampled : b.resampled p = .ok t)

include bilinear size resampled

/-- A sample of the block grows with those that it mixes: the first pass carries this to the rows
that the second pass mixes. -/
theorem resampled_mono (resampled' : b.resampled p' = .ok t')
    (h : ∀ u v a a', b.Mixes c r u v → p.stored? u v = some a → p'.stored? u v = some a' →
      a ≤ a') : t.get c r ≤ t'.get c r := by
  obtain ⟨scratch, across, -⟩ := bind_eq_ok_iff.1 resampled
  obtain ⟨scratch', across', -⟩ := bind_eq_ok_iff.1 resampled'
  obtain ⟨row, span⟩ := exists_spans across
  obtain ⟨row', span'⟩ := exists_spans across'
  obtain ⟨rows, passes, get⟩ := resampled_eq_ok_of_spans size span
  obtain ⟨rows', passes', get'⟩ := resampled_eq_ok_of_spans size span'
  cases resampled.symm.trans passes
  cases resampled'.symm.trans passes'
  rw [get_downColumns, get_downColumns, bilinear]
  refine Bank.resample_bilinear_mono b.phaseY b.y fun k hk inColumn => ?_
  change rows.transpose.get ⟨k, hk⟩ c ≤ rows'.transpose.get ⟨k, hk⟩ c
  rw [Tile.get_transpose, Tile.get_transpose, get, get', bilinear]
  refine Bank.resample_bilinear_mono b.phaseX b.x fun j hj inRow => ?_
  exact h _ _ _ _ ⟨inRow, inColumn⟩ (p.stored?_of_span (span ⟨k, hk⟩) hj)
    (p'.stored?_of_span (span' ⟨k, hk⟩) hj)

theorem resampled_congr (resampled' : b.resampled p' = .ok t')
    (h : ∀ u v, b.Mixes c r u v → p.stored? u v = p'.stored? u v) : t.get c r = t'.get c r := by
  refine UInt8.le_antisymm ?_ ?_
  · refine resampled_mono bilinear size resampled resampled' fun u v a a' mixes ha ha' => ?_
    exact UInt8.le_of_eq (Option.some.inj (ha.symm.trans ((h u v mixes).trans ha')))
  · refine resampled_mono bilinear size resampled' resampled fun u v a a' mixes ha ha' => ?_
    exact UInt8.le_of_eq (Option.some.inj (ha.symm.trans ((h u v mixes).symm.trans ha')))

/-- Bounds on the samples that are mixed hold for the one that is made of them. -/
theorem resampled_between {low high : UInt8}
    (h : ∀ u v a, b.Mixes c r u v → p.stored? u v = some a → low ≤ a ∧ a ≤ high) :
    low ≤ t.get c r ∧ t.get c r ≤ high := by
  -- compare with the planes that are `low` and `high` everywhere
  obtain ⟨bottom, hb, lowest⟩ := exists_level size resampled low
  obtain ⟨top, ht, highest⟩ := exists_level size resampled high
  constructor
  · rw [← lowest c r]
    refine resampled_mono bilinear size hb resampled fun u v a a' mixes ha ha' => ?_
    rw [Plane.stored?_constant ha]
    exact (h u v a' mixes ha').1
  · rw [← highest c r]
    refine resampled_mono bilinear size resampled ht fun u v a a' mixes ha ha' => ?_
    rw [Plane.stored?_constant ha']
    exact (h u v a mixes ha).2

end Resampled

theorem Inside.sample?_eq_stored? (inside : b.Inside l) (room : l.size ≤ Capacity.limit)
    (p : Plane l) (sees : b.Sees u v) : p.sample? u v = p.stored? u v := by
  obtain ⟨left, top, right, bottom⟩ := inside
  obtain ⟨⟨hl, hr⟩, ht, hb⟩ := sees
  obtain ⟨columns, rows⟩ := l.lines_lt_words room (by omega) (by omega)
  have has : l.HasWindow u v 1 1 := ⟨by omega, by omega, by omega, by omega⟩
  exact if_pos (has.addressable columns rows)

end Block

/-- A sample that is predicted with the bilinear bank keeps to all bounds on the up to four samples
that it mixes, and depends on no others. Planes of one layout predict the same blocks, and where
one has greater samples in the support window of a block, its prediction has too. What is stored in
the window of a block that passes the test can be sampled, and blocks whose window lies inside the
bordered area are predicted. -/
theorem predict_bilinear (bilinear : b.bank = .bilinear) (checked : Bool) (p : Plane l) :
    (∀ t, predict checked b p = .ok t →
      (∀ (c : Fin b.width) (r : Fin b.height),
        (∀ u v, b.Mixes c r u v → ∃ a, p.stored? u v = some a) ∧
        (∀ low high, (∀ u v a, b.Mixes c r u v → p.stored? u v = some a → low ≤ a ∧ a ≤ high) →
          low ≤ t.get c r ∧ t.get c r ≤ high) ∧
        ∀ {l' : Layout} (p' : Plane l') checked' t', predict checked' b p' = .ok t' →
          (∀ u v, b.Mixes c r u v → p.stored? u v = p'.stored? u v) → t.get c r = t'.get c r) ∧
      (∀ p' : Plane l, ∃ t', predict checked b p' = .ok t' ∧
        ((∀ u v a a', b.Sees u v → p.stored? u v = some a → p'.stored? u v = some a' → a ≤ a') →
          ∀ c r, t.get c r ≤ t'.get c r)) ∧
      (l.size ≤ Capacity.limit → checked = true →
        ∀ u v, b.Sees u v → p.sample? u v = p.stored? u v)) ∧
    (l.size ≤ Capacity.limit → b.flaw? = none → b.Inside l →
      ∃ t, predict checked b p = .ok t) := by
  refine ⟨fun t predicted => ?_, fun room size inside => inside.exists_predict room size checked p⟩
  obtain ⟨admitted, resampled⟩ := predict_eq_ok_iff.1 predicted
  have size := Block.flaw?_of_requireOn admitted
  refine ⟨fun c r => ⟨fun u v mixes => Block.exists_stored resampled mixes.sees, fun low high =>
    Block.resampled_between bilinear size resampled, fun p' checked' t' predicted' => ?_⟩,
    fun p' => ?_, fun room on u v sees => ?_⟩
  · exact Block.resampled_congr bilinear size resampled (predict_eq_ok_iff.1 predicted').2
  · obtain ⟨t', resampled'⟩ := Block.exists_resampled size resampled p'
    refine ⟨t', predict_eq_ok_iff.2 ⟨admitted, resampled'⟩, fun grows c r => ?_⟩
    refine Block.resampled_mono bilinear size resampled resampled' fun u v a a' mixes => ?_
    exact grows u v a a' mixes.sees
  · subst on
    exact (Block.inside_of_predict room predicted).2.sample?_eq_stored? room p sees

/-- The one sample of `Block.between` mixes the fourth and the fifth of its row, 1 and 5, and none
of the greater ones behind them. -/
theorem predict_bilinear_between :
    (Block.between.withBank .bilinear).bank = .bilinear ∧
    8 ≤ Capacity.limit ∧ (Block.between.withBank .bilinear).flaw? = none ∧
    (Block.between.withBank .bilinear).Inside ⟨8, 1, 8, 0, 8, by decide, by decide⟩ ∧
    ∃ t, predict true (Block.between.withBank .bilinear) .bareRow = .ok t ∧
      (∀ c r, 1 ≤ t.get c r ∧ t.get c r ≤ 5) ∧
      ∃ t', predict true (Block.between.withBank .bilinear)
          (.constant ⟨8, 1, 8, 0, 8, by decide, by decide⟩ 255) = .ok t' ∧
        ∀ c r, t.get c r ≤ t'.get c r := by
  have inside : (Block.between.withBank .bilinear).Inside ⟨8, 1, 8, 0, 8, by decide, by decide⟩ :=
    ⟨by decide, by decide, by decide, by decide⟩
  obtain ⟨sample, accepted⟩ := predict_bilinear (b := Block.between.withBank .bilinear) rfl true
    .bareRow
  obtain ⟨t, predicted⟩ := accepted (by decide) (by decide) inside
  obtain ⟨one, whole, -⟩ := sample t predicted
  obtain ⟨t', predicted', grows⟩ := whole (.constant _ 255)
  refine ⟨rfl, by decide, by decide, inside, t, predicted, fun c r => ?_, t', predicted',
    grows fun u v a a' sees stored stored' => ?_⟩
  · refine (one c r).2.1 1 5 fun u v a mixes stored => ?_
    have hc : (c : Nat) = 0 := Nat.lt_one_iff.1 c.isLt
    have hr : (r : Nat) = 0 := Nat.lt_one_iff.1 r.isLt
    obtain ⟨column, row⟩ := mixes
    rw [hc] at column
    rw [hr] at row
    obtain rfl : v = 0 := row.elim id fun h => absurd rfl h.1
    rcases column with rfl | ⟨-, rfl⟩
    · cases stored
      decide
    · cases stored
      decide
  · rw [Plane.stored?_constant stored', UInt8.le_iff_toNat_le]
    exact Nat.le_of_lt_succ a.toNat_lt

end BlockVideo
