import BlockVideo.Proofs.PredictInPlace

/-!
# What prediction looks at

The samples of its support window are all that a block gets from a plane. Two planes, however they
are laid out, that have the same samples there give the same rows to the first pass
(`span_eq_of_agree`), and nothing after it looks at a plane. So the block has the same prediction on
both, and is written in the same way to a destination (`predict_eq_of_agree`).

Along an axis without a phase the window is the block itself.
-/

namespace BlockVideo

open InPlace

variable {l l' : Layout} {p : Plane l} {p' : Plane l'} {b : Block}

namespace Block

/-- Two planes have the same samples in the support window of a block. -/
def AgreeOnWindow (b : Block) (p : Plane l) (p' : Plane l') : Prop :=
  ∀ u v : Int, b.supportX ≤ u ∧ u < b.supportX + b.supportWidth →
    b.supportY ≤ v ∧ v < b.supportY + b.supportHeight → p.sample? u v = p'.sample? u v

theorem agreeOnWindow_iff : b.AgreeOnWindow p p' ↔
    ∀ (i : Fin b.supportWidth) (r : Fin b.supportHeight),
      p.sample? (b.supportX + i) (b.supportY + r) =
        p'.sample? (b.supportX + i) (b.supportY + r) := by
  constructor
  · intro agree i r
    exact agree _ _ (by omega) (by omega)
  · intro agree u v hu hv
    have hi : b.supportX + (u - b.supportX).toNat = u := by omega
    have hr : b.supportY + (v - b.supportY).toNat = v := by omega
    have := agree ⟨(u - b.supportX).toNat, by omega⟩ ⟨(v - b.supportY).toNat, by omega⟩
    rwa [hi, hr] at this

instance (b : Block) (p : Plane l) (p' : Plane l') : Decidable (b.AgreeOnWindow p p') :=
  decidable_of_iff _ agreeOnWindow_iff.symm

theorem span_eq_of_agree (room : l.size ≤ Capacity.limit) (room' : l'.size ≤ Capacity.limit)
    (size : b.flaw? = none) (inside : b.Inside l) (inside' : b.Inside l')
    (agree : b.AgreeOnWindow p p') (r : Fin b.supportHeight) :
    p.span b.supportX (b.supportY + r) b.supportWidth =
      p'.span b.supportX (b.supportY + r) b.supportWidth := by
  obtain ⟨row, span, read⟩ :=
    inside.hasWindow.span_eq_samples room (inside.lines_lt_words room size).2 p r
  obtain ⟨row', span', read'⟩ :=
    inside'.hasWindow.span_eq_samples room' (inside'.lines_lt_words room' size).2 p' r
  have : row = row' := by
    apply Vector.ext
    intro i hi
    have same := agreeOnWindow_iff.1 agree ⟨i, hi⟩ r
    rw [read i hi, read' i hi] at same
    exact Option.some.inj same
  rw [span, span', this]

theorem acrossRows_eq_of_agree (room : l.size ≤ Capacity.limit) (room' : l'.size ≤ Capacity.limit)
    (size : b.flaw? = none) (inside : b.Inside l) (inside' : b.Inside l')
    (agree : b.AgreeOnWindow p p') : b.acrossRows p = b.acrossRows p' := by
  simp only [acrossRows, span_eq_of_agree room room' size inside inside' agree]

theorem support_of_zero (b : Block) :
    (b.phaseX = .zero → b.supportX = b.x ∧ b.supportWidth = b.width) ∧
      (b.phaseY = .zero → b.supportY = b.y ∧ b.supportHeight = b.height) := by
  constructor <;> intro h
  · simp [supportX, supportWidth, h, Phase.zero, Phase.lead, Phase.spread]
  · simp [supportY, supportHeight, h, Phase.zero, Phase.lead, Phase.spread]

end Block

/-- Planes with the same samples in the support window of a block, both of which have all of it,
give the same prediction of the block. They are mixed into a destination in the same way. -/
theorem predict_eq_of_agree (room : l.size ≤ Capacity.limit) (room' : l'.size ≤ Capacity.limit)
    (size : b.flaw? = none) (inside : b.Inside l) (inside' : b.Inside l')
    (agree : b.AgreeOnWindow p p') (checked checked' : Bool) :
    (∃ t, predict checked b p = .ok t ∧ predict checked' b p' = .ok t) ∧
    (∀ (stride n : Nat) (dst : Vector UInt8 n),
      predictInto checked b p stride dst = predictInto checked' b p' stride dst ∧
      predictMeanInto checked b p stride dst = predictMeanInto checked' b p' stride dst ∧
      (predictIntoInPlace checked b p stride).exec dst =
        (predictIntoInPlace checked' b p' stride).exec dst ∧
      (predictMeanIntoInPlace checked b p stride).exec dst =
        (predictMeanIntoInPlace checked' b p' stride).exec dst) ∧
    (b.phaseX = .zero → b.supportX = b.x ∧ b.supportWidth = b.width) ∧
    (b.phaseY = .zero → b.supportY = b.y ∧ b.supportHeight = b.height) := by
  have admitted := inside.requireOn_eq_ok room size checked
  have admitted' := inside'.requireOn_eq_ok room' size checked'
  have rows := Block.acrossRows_eq_of_agree room room' size inside inside' agree
  have passes (stride n : Nat) (dst : Vector UInt8 n) :
      b.convolve p stride dst = b.convolve p' stride dst := by
    simp only [Block.convolve, rows]
  refine ⟨?_, fun stride n dst => ⟨?_, ?_, ?_, ?_⟩, b.support_of_zero⟩
  · obtain ⟨F, reads⟩ := p.exists_reads
    obtain ⟨t, predicted, -⟩ := Block.predict_eq_ok room reads inside size checked
    refine ⟨t, predicted, ?_⟩
    rw [← predicted]
    simp only [predict, predictInto, admitted, admitted', passes]
  · simp only [predictInto, admitted, admitted', passes]
  · simp only [predictMeanInto, admitted, admitted', passes]
  · simp only [predictIntoInPlace, admitted, admitted', Block.convolveInPlace, rows]
  · simp only [predictMeanIntoInPlace, admitted, admitted', passes]

def Block.between : Block := ⟨3, 0, 1, 1, .half, .zero, .regular⟩

def Plane.bareRow : Plane ⟨8, 1, 8, 0, 8, by decide, by decide⟩ := ⟨#v[3, 1, 4, 1, 5, 9, 2, 6]⟩

/-- The same samples, the last of them in the border. -/
def Plane.framedRow : Plane ⟨7, 1, 9, 1, 27, by decide, by decide⟩ :=
  ⟨#v[90, 90, 90, 90, 90, 90, 90, 90, 90,
      90, 3, 1, 4, 1, 5, 9, 2, 6,
      90, 90, 90, 90, 90, 90, 90, 90, 90]⟩

theorem predict_between_eq_of_agree :
    8 ≤ Capacity.limit ∧ 27 ≤ Capacity.limit ∧ Block.between.flaw? = none ∧
    Block.between.Inside ⟨8, 1, 8, 0, 8, by decide, by decide⟩ ∧
    Block.between.Inside ⟨7, 1, 9, 1, 27, by decide, by decide⟩ ∧
    Block.between.AgreeOnWindow Plane.bareRow Plane.framedRow ∧
    ∃ t, predict true .between .bareRow = .ok t ∧ predict false .between .framedRow = .ok t := by
  have inside : Block.between.Inside ⟨8, 1, 8, 0, 8, by decide, by decide⟩ :=
    ⟨by decide, by decide, by decide, by decide⟩
  have inside' : Block.between.Inside ⟨7, 1, 9, 1, 27, by decide, by decide⟩ :=
    ⟨by decide, by decide, by decide, by decide⟩
  have agree : Block.between.AgreeOnWindow Plane.bareRow Plane.framedRow := by decide
  exact ⟨by decide, by decide, by decide, inside, inside', agree,
    (predict_eq_of_agree (by decide) (by decide) (by decide) inside inside' agree true false).1⟩

end BlockVideo
