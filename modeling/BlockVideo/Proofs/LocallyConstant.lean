import BlockVideo.Proofs.Destinations
import BlockVideo.Proofs.Plane.Extension

/-!
# Constant surroundings

A predicted sample combines eight columns and eight rows of the reference, or one where there is no
phase (`Block.Combines`). Where these samples are all equal, so is the prediction: the taps of every
kernel add up to one, and the mean of equal samples is rounded to the sample again. The first pass
turns each of the rows that count into the constant, and the second pass finds nothing else in the
column. Samples around them, and what they come to elsewhere in the block, do not matter.

A block may be predicted without the test of its window, so what counts is what the buffer holds in
the addressed place (`Plane.stored?`). Addressable samples are just that.
-/

namespace BlockVideo

variable {l : Layout} {p : Plane l} {b : Block} {a : UInt8} {u v : Int}

/-! ## What is combined -/

/-- The samples of a line that are combined for the one that lies a phase behind place `z`. -/
def Phase.Combines (φ : Phase) (z u : Int) : Prop :=
  if φ = .zero then u = z else z - 3 ≤ u ∧ u ≤ z + 4

namespace Block

def Combines (b : Block) (c r : Nat) (u v : Int) : Prop :=
  b.phaseX.Combines (b.x + c) u ∧ b.phaseY.Combines (b.y + r) v

def Sees (b : Block) (u v : Int) : Prop :=
  (b.supportX ≤ u ∧ u < b.supportX + b.supportWidth) ∧
    b.supportY ≤ v ∧ v < b.supportY + b.supportHeight

end Block

theorem Phase.Combines.mem_support {φ : Phase} {n : Nat} {x : Int} {i : Fin n}
    (combines : φ.Combines (x + i) u) :
    x - φ.lead ≤ u ∧ u < x - φ.lead + (n + φ.spread : Nat) := by
  have hi := i.isLt
  unfold Combines at combines
  split at combines
  · next zero =>
    subst zero
    simp only [zero, lead, spread, if_true]
    omega
  · next h =>
    have lead : φ.lead = 3 := if_neg h
    rw [lead, spread_of_ne h]
    omega

theorem Block.Combines.sees {c : Fin b.width} {r : Fin b.height} (combines : b.Combines c r u v) :
    b.Sees u v :=
  ⟨combines.1.mem_support, combines.2.mem_support⟩

/-! ## Lines -/

/-- Samples count for a resampled one only if they are combined for it. -/
theorem Bank.resample_of_constant (b : Bank) (φ : Phase) {n : Nat}
    {s : Vector UInt8 (n + φ.spread)} (x : Int) {i : Fin n}
    (h : ∀ j (hj : j < n + φ.spread), φ.Combines (x + i) (x - φ.lead + j) → s[j] = a) :
    (b.resample φ s).get i = a := by
  by_cases zero : φ = .zero
  · rw [b.get_resample_of_zero s i zero]
    refine h i _ ?_
    have lead : φ.lead = 0 := if_pos zero
    rw [Phase.Combines, if_pos zero, lead]
    omega
  · have lead : φ.lead = 3 := if_neg zero
    have constant : (fun j : Fin 8 => getElem s (i.val + j.val) (Phase.add_lt_spread zero i j)) =
        fun _ => a := by
      funext j
      refine h _ _ ?_
      rw [Phase.Combines, if_neg zero, lead]
      omega
    rw [b.get_resample_of_ne s i zero, constant]
    exact Kernel.apply_const (b.weight_kernel φ) a

/-! ## Planes -/

namespace Plane

/-- What the buffer holds where (`u`, `v`) is addressed. -/
def stored? (p : Plane l) (u v : Int) : Option UInt8 := p.samples[(l.offset u v).toNat]?

theorem stored?_of_sample? (h : p.sample? u v = some a) : p.stored? u v = some a := by
  unfold sample? at h
  split at h
  · exact h
  · cases h

theorem stored?_of_span {x y : Int} {length : Nat} {run : Vector UInt8 length}
    (h : p.span x y length = .ok run) {i : Nat} (hi : i < length) :
    p.stored? (x + i) y = some run[i] := by
  have run := p.hasRun_of_span h
  rw [p.span_of_hasRun run] at h
  cases h
  obtain ⟨-, start, stop⟩ := run
  have place : (l.offset (x + i) y).toNat = (l.offset x y).toNat + i := by
    simp only [Layout.offset] at start ⊢
    omega
  rw [stored?, place, Vector.getElem_ofFn]
  exact getElem?_pos ..

end Plane

/-! ## Blocks -/

namespace Block

theorem resampled_eq_ok_of_spans (size : b.flaw? = none)
    {row : Fin b.supportHeight → Vector UInt8 b.supportWidth}
    (span : ∀ r, p.span b.supportX (b.supportY + r.val) b.supportWidth = .ok (row r)) :
    ∃ rows : Tile b.width b.supportHeight, b.resampled p = .ok (b.downColumns rows) ∧
      ∀ c r, rows.get c r = (b.bank.resample b.phaseX (row r)).get c := by
  obtain ⟨scratch, rows, hs, hr, get⟩ := acrossRows_eq_ok_of_spans size span
  refine ⟨rows, ?_, get⟩
  rw [resampled, hs]
  change (Tile.ofBuffer scratch b.width b.width b.supportHeight >>= _) = _
  rw [hr]
  rfl

theorem resampled_of_constant (size : b.flaw? = none) {t : Tile b.width b.height}
    (resampled : b.resampled p = .ok t) {c : Fin b.width} {r : Fin b.height}
    (constant : ∀ u v, b.Combines c r u v → p.stored? u v = some a) : t.get c r = a := by
  obtain ⟨scratch, across, -⟩ := bind_eq_ok_iff.1 resampled
  obtain ⟨row, span⟩ := exists_spans across
  obtain ⟨rows, passes, get⟩ := resampled_eq_ok_of_spans size span
  cases resampled.symm.trans passes
  rw [get_downColumns]
  refine b.bank.resample_of_constant b.phaseY b.y fun k hk inColumn => ?_
  refine (rows.get_transpose ⟨k, hk⟩ c).trans ((get c ⟨k, hk⟩).trans ?_)
  refine b.bank.resample_of_constant b.phaseX b.x fun j hj inRow => ?_
  have read := p.stored?_of_span (span ⟨k, hk⟩) hj
  exact Option.some.inj (read.symm.trans (constant _ _ ⟨inRow, inColumn⟩))

end Block

/-- A predicted sample has the value that the reference has in all samples that are combined for
it, whatever surrounds them. So a block has the value that its window has everywhere. Blocks whose
window lies inside the bordered area are predicted. -/
theorem predict_of_constant (checked : Bool) (b : Block) (p : Plane l) :
    (∀ t, predict checked b p = .ok t →
      (∀ (c : Fin b.width) (r : Fin b.height) a,
        (∀ u v, b.Combines c r u v → p.stored? u v = some a) → t.get c r = a) ∧
      (∀ (c : Fin b.width) (r : Fin b.height) a,
        (∀ u v, b.Combines c r u v → p.sample? u v = some a) → t.get c r = a) ∧
      ∀ a, (∀ u v, b.Sees u v → p.stored? u v = some a) → t = .ofFn fun _ _ => a) ∧
    (l.size ≤ Capacity.limit → b.flaw? = none → b.Inside l →
      (∃ t, predict checked b p = .ok t) ∧
      ∀ a, (∀ u v, b.Sees u v → p.sample? u v = some a) →
        predict checked b p = .ok (.ofFn fun _ _ => a)) := by
  have sample {t : Tile b.width b.height} (h : predict checked b p = .ok t) {c : Fin b.width}
      {r : Fin b.height} {a : UInt8}
      (constant : ∀ u v, b.Combines c r u v → p.stored? u v = some a) : t.get c r = a := by
    obtain ⟨admitted, resampled⟩ := predict_eq_ok_iff.1 h
    exact Block.resampled_of_constant (Block.flaw?_of_requireOn admitted) resampled constant
  have block {t : Tile b.width b.height} (h : predict checked b p = .ok t) {a : UInt8}
      (constant : ∀ u v, b.Sees u v → p.stored? u v = some a) : t = .ofFn fun _ _ => a := by
    refine Tile.ext_get fun c r => (sample h fun u v hc => constant u v hc.sees).trans ?_
    exact (Tile.get_ofFn (fun _ _ => a) c r).symm
  refine ⟨fun t h => ⟨fun c r a => sample h, fun c r a constant => ?_, fun a => block h⟩,
    fun room size inside => ?_⟩
  · exact sample h fun u v hc => Plane.stored?_of_sample? (constant u v hc)
  · obtain ⟨F, reads⟩ := p.exists_reads
    obtain ⟨t, h, -⟩ := Block.predict_eq_ok room reads inside size checked
    refine ⟨⟨t, h⟩, fun a constant => ?_⟩
    rw [h, block h fun u v sees => Plane.stored?_of_sample? (constant u v sees)]

/-- The first column of `Block.filling` combines no more than the first five columns of the plane
and its border, so the ramp in the other columns does not count. -/
theorem predict_filling_first_column (a : UInt8) :
    ∃ t, predict true .filling (Plane.ofFn 8 4 3 fun x y => if x ≤ 4 then a else ramp x y) =
      .ok t ∧ ∀ (c : Fin Block.filling.width) r, c.val = 0 → t.get c r = a := by
  have inside : Block.filling.Inside (.owned 8 4 3) :=
    ⟨by decide, by decide, by decide, by decide⟩
  obtain ⟨predicted, exists_tile⟩ := predict_of_constant true .filling
    (Plane.ofFn 8 4 3 fun x y => if x ≤ 4 then a else ramp x y)
  obtain ⟨⟨t, h⟩, -⟩ := exists_tile (by decide) (by decide) inside
  refine ⟨t, h, fun c r first => (predicted t h).2.1 c r a fun u v combines => ?_⟩
  obtain ⟨⟨left, -⟩, top, bottom⟩ := combines.sees
  have right : u ≤ 4 := by
    have := combines.1
    rw [Phase.Combines, if_neg (by decide), first] at this
    exact this.2
  have bordered : -(3 : Int) ≤ u ∧ u < 8 + 3 ∧ -(3 : Int) ≤ v ∧ v < 4 + 3 :=
    ⟨left, by omega, top, bottom⟩
  have near : clampTo 8 u ≤ 4 := by
    unfold clampTo
    omega
  refine (Plane.sample?_extendBorders _ (by decide) (by decide) (by decide) (by decide) (by decide)
    u v).trans ?_
  rw [Plane.get_setVisible]
  exact (if_pos bordered).trans (congrArg some (if_pos near))

end BlockVideo
