import Mathlib.Tactic.Choose
import BlockVideo.Proofs.Plane.Windows
import BlockVideo.Proofs.RowWrites

/-!
# What a prediction is

A predicted sample is a weighted sum of weighted sums, each rounded and held to the range of a
sample (`Block.predicted`). That is so for every phase: at phase zero the taps pick the sample
itself, which is what copying does, so the smaller support window makes no difference.
-/

namespace BlockVideo

/-! ## Weighted sums -/

namespace Kernel

/-- A weighted sum of eight numbers, rounded and held to the range of a sample. -/
def weigh (k : Kernel) (s : Fin 8 → Int) : Int := max 0 (min ((k.dot s + 64) >>> (7 : Nat)) 255)

theorem weigh_eq (k : Kernel) (s : Fin 8 → Int) :
    k.weigh s = max 0 (min ((k.dot s + 64) / 128) 255) := by
  rw [weigh, Int.shiftRight_eq_div_pow]
  rfl

theorem toNat_apply (k : Kernel) (s : Fin 8 → UInt8) :
    ((k.apply s).toNat : Int) = k.weigh fun j => (s j).toNat := by
  rw [apply, round, toNat_clip, weigh_eq]
  simp only [show unit = 128 from rfl]
  omega

theorem dot_zero (b : Bank) (s : Fin 8 → Int) :
    (b.kernel 0).dot s = 128 * s ⟨3, by decide⟩ := by
  rw [Bank.kernel_zero, dot_eq]
  change 0 * s 0 + 0 * s 1 + 0 * s 2 + 128 * s 3 + 0 * s 4 + 0 * s 5 + 0 * s 6 + 0 * s 7 = _
  simp only [Int.zero_mul, Int.zero_add, Int.add_zero]
  rfl

theorem weigh_zero (b : Bank) {s : Fin 8 → Int} (hl : 0 ≤ s ⟨3, by decide⟩)
    (hu : s ⟨3, by decide⟩ ≤ 255) : (b.kernel 0).weigh s = s ⟨3, by decide⟩ := by
  rw [weigh_eq, dot_zero]
  omega

end Kernel

theorem Bank.toNat_resample (b : Bank) (φ : Phase) {n : Nat} {s : Vector UInt8 (n + φ.spread)}
    {F : Int → Int} {x : Int}
    (hs : ∀ i (hi : i < n + φ.spread), (s[i].toNat : Int) = F (x - φ.lead + i)) (i : Fin n) :
    (((b.resample φ s).get i).toNat : Int) = (b.kernel φ).weigh fun j => F (x + i + j - 3) := by
  by_cases h : φ = 0
  · subst h
    have hi := hs i (by omega)
    rw [show x - (0 : Phase).lead + i = x + i + (3 : Nat) - 3 by simp [Phase.lead]] at hi
    have := (s[i.val]).toNat_lt
    rw [b.get_resample_of_zero s i rfl, hi]
    refine (Kernel.weigh_zero b (s := fun j => F (x + i + j - 3)) ?_ ?_).symm
    · exact hi ▸ Int.natCast_nonneg _
    · exact hi ▸ Int.ofNat_le.2 (Nat.le_of_lt_succ this)
  · have lead : (φ.lead : Int) = 3 := by
      rw [Phase.lead, if_neg h]
      rfl
    rw [b.get_resample_of_ne s i h, Kernel.toNat_apply]
    congr 1
    funext j
    rw [hs, lead]
    congr 1
    omega

/-! ## The two passes -/

variable {l : Layout} {p : Plane l} {F : Int → Int → Int}

/-- `F` tells the bordered samples of a plane by their coordinates. -/
def Plane.Reads (p : Plane l) (F : Int → Int → Int) : Prop :=
  ∀ column row, ((p.bordered column row).toNat : Int) = F (column - l.border) (row - l.border)

theorem Plane.exists_reads (p : Plane l) : ∃ F, p.Reads F := by
  refine ⟨fun u v =>
    if h : (u + l.border).toNat < l.width + 2 * l.border ∧
        (v + l.border).toNat < l.height + 2 * l.border then
      (p.bordered ⟨_, h.1⟩ ⟨_, h.2⟩).toNat
    else 0, fun column row => ?_⟩
  simp only [Int.sub_add_cancel, Int.toNat_natCast]
  rw [dif_pos ⟨column.isLt, row.isLt⟩]

theorem requireDestination_eq_ok_iff {width height stride size : Nat} :
    requireDestination width height stride size = .ok () ↔
      width ≤ stride ∧ (height - 1) * stride + width ≤ size := by
  unfold requireDestination
  simp only
  split
  · next fits => exact iff_of_true rfl fits
  · next fails => exact iff_of_false Outcome.refuse_ne_ok fails

namespace Block

variable {b : Block}

/-- What a block predicts in column `c` and row `r` from the samples `F`. -/
def predicted (b : Block) (F : Int → Int → Int) (c r : Nat) : Int :=
  (b.bank.kernel b.phaseY).weigh fun k =>
    (b.bank.kernel b.phaseX).weigh fun j => F (b.x + c + j - 3) (b.y + r + k - 3)

/-- The support window of a block lies inside the bordered area. -/
structure Inside (b : Block) (l : Layout) : Prop where
  left : -(l.border : Int) ≤ b.supportX
  top : -(l.border : Int) ≤ b.supportY
  right : b.supportX + b.supportWidth ≤ l.width + l.border
  bottom : b.supportY + b.supportHeight ≤ l.height + l.border

theorem Inside.hasWindow (inside : b.Inside l) :
    l.HasWindow b.supportX b.supportY b.supportWidth b.supportHeight :=
  ⟨inside.left, inside.top, inside.right, inside.bottom⟩

/-- A block has samples, so a bordered area that holds its support window has some as well. -/
theorem Inside.lines_lt_words (inside : b.Inside l) (room : l.size ≤ Capacity.limit)
    (size : b.flaw? = none) :
    2 * (l.width + l.border) < UInt64.size ∧ 2 * (l.height + l.border) < UInt64.size := by
  obtain ⟨hw, -, hh, -⟩ := flaw?_eq_none_iff.1 size
  obtain ⟨left, top, right, bottom⟩ := inside
  simp only [supportWidth, supportHeight] at right bottom
  exact l.lines_lt_words room (by omega) (by omega)

theorem span_support (room : l.size ≤ Capacity.limit) (reads : p.Reads F) (inside : b.Inside l)
    (size : b.flaw? = none) (r : Fin b.supportHeight) :
    ∃ row : Vector UInt8 b.supportWidth,
      p.span b.supportX (b.supportY + r) b.supportWidth = .ok row ∧
      ∀ i (hi : i < b.supportWidth),
        (row[i].toNat : Int) = F (b.supportX + i) (b.supportY + r) := by
  have rows := (inside.lines_lt_words room size).2
  obtain ⟨column, row, hx, hy, span⟩ := inside.hasWindow.span_eq_bordered room rows p r
  refine ⟨_, span, fun i hi => ?_⟩
  rw [Vector.getElem_ofFn, reads, ← hx ⟨i, hi⟩, ← hy, Int.add_sub_cancel, Int.add_sub_cancel]

theorem holdsRows_scratch (size : b.flaw? = none) :
    Run.HoldsRows scratchSize b.width b.width b.supportHeight := by
  obtain ⟨-, hw, -, hh⟩ := flaw?_eq_none_iff.1 size
  refine Run.holdsRows_iff.2 fun r hr => ?_
  have hs : b.supportHeight ≤ 71 := Nat.add_le_add hh b.phaseY.spread_le
  have := Nat.mul_le_mul (show r + 1 ≤ 71 by omega) hw
  rw [Nat.succ_mul] at this
  exact this

theorem holdsRows_block (size : b.flaw? = none) :
    Run.HoldsRows (maxSide * maxSide) b.width b.width b.height := by
  obtain ⟨-, hw, -, hh⟩ := flaw?_eq_none_iff.1 size
  refine .inr ?_
  have := Nat.mul_le_mul (show b.height - 1 ≤ 63 by omega) hw
  unfold maxSide
  omega

theorem rows_eq_area (size : b.flaw? = none) :
    (b.height - 1) * b.width + b.width = b.width * b.height := by
  obtain ⟨-, -, hh, -⟩ := flaw?_eq_none_iff.1 size
  exact RowMajor.pred_mul_add hh

theorem exists_spans {scratch : Vector UInt8 scratchSize} (h : b.acrossRows p = .ok scratch) :
    ∃ row : Fin b.supportHeight → Vector UInt8 b.supportWidth,
      ∀ r, p.span b.supportX (b.supportY + r.val) b.supportWidth = .ok (row r) := by
  have each (r : Fin b.supportHeight) :
      ∃ row, p.span b.supportX (b.supportY + r.val) b.supportWidth = .ok row := by
    obtain ⟨_, _, step⟩ := exists_step_of_foldlM h (List.mem_finRange r)
    obtain ⟨row, span, -⟩ := bind_eq_ok_iff.1 step
    exact ⟨row, span⟩
  choose row span using each
  exact ⟨row, span⟩

/-- With all rows of the support window the first pass goes through, and leaves each of them
resampled. -/
theorem acrossRows_eq_ok_of_spans (size : b.flaw? = none)
    {row : Fin b.supportHeight → Vector UInt8 b.supportWidth}
    (span : ∀ r, p.span b.supportX (b.supportY + r.val) b.supportWidth = .ok (row r)) :
    ∃ scratch rows, b.acrossRows p = .ok scratch ∧
      Tile.ofBuffer scratch b.width b.width b.supportHeight = .ok rows ∧
      ∀ c r, rows.get c r = (b.bank.resample b.phaseX (row r)).get c := by
  have step (v : Vector UInt8 scratchSize) (r : Fin b.supportHeight) :
      (do let row ← p.span b.supportX (b.supportY + r) b.supportWidth
          Run.replace v (r * b.width) (b.bank.resample b.phaseX row).get) =
        Run.replace v (r * b.width) (b.bank.resample b.phaseX (row r)).get := by
    rw [span r]
    rfl
  have holds := holdsRows_scratch size
  obtain ⟨scratch, hs, written⟩ := Run.foldlM_replace step (Nat.le_refl _) holds (.replicate _ 0)
  obtain ⟨rows, hr, get⟩ := Tile.ofBuffer_eq_ok (v := scratch) holds
  refine ⟨scratch, rows, hs, hr, fun c r => ?_⟩
  have hj : r.val * b.width + c.val < scratchSize := by
    have := Run.holdsRows_iff.1 holds r r.isLt
    omega
  rw [get c r hj, written.written r c hj]

theorem acrossRows_eq_ok (room : l.size ≤ Capacity.limit) (reads : p.Reads F)
    (inside : b.Inside l) (size : b.flaw? = none) :
    ∃ scratch rows, b.acrossRows p = .ok scratch ∧
      Tile.ofBuffer scratch b.width b.width b.supportHeight = .ok rows ∧
      ∀ c r, ((rows.get c r).toNat : Int) =
        (b.bank.kernel b.phaseX).weigh fun j => F (b.x + c + j - 3) (b.supportY + r) := by
  choose row span read using span_support room reads inside size
  obtain ⟨scratch, rows, hs, hr, get⟩ := acrossRows_eq_ok_of_spans size span
  refine ⟨scratch, rows, hs, hr, fun c r => ?_⟩
  rw [get]
  exact b.bank.toNat_resample b.phaseX (F := fun u => F u (b.supportY + r)) (read r) c

theorem get_downColumns (rows : Tile b.width b.supportHeight) (c : Fin b.width)
    (r : Fin b.height) :
    (b.downColumns rows).get c r =
      (b.bank.resample b.phaseY (rows.transpose.rows.get c)).get r :=
  (Tile.get_transpose ..).trans (Tile.get_mapRows ..)

theorem toNat_downColumns {rows : Tile b.width b.supportHeight} {G : Int → Int} {c : Fin b.width}
    (h : ∀ r, ((rows.get c r).toNat : Int) = G (b.supportY + r.val)) (r : Fin b.height) :
    (((b.downColumns rows).get c r).toNat : Int) =
      (b.bank.kernel b.phaseY).weigh fun k => G (b.y + r + k - 3) := by
  rw [get_downColumns]
  refine b.bank.toNat_resample b.phaseY (fun i hi => ?_) r
  have entry : (rows.transpose.rows.get c).get ⟨i, hi⟩ = rows.get c ⟨i, hi⟩ :=
    rows.get_transpose ⟨i, hi⟩ c
  exact (congrArg (fun a : UInt8 => (a.toNat : Int)) entry).trans (h ⟨i, hi⟩)

/-- Both passes go through, and leave the predicted samples in the rows of the destination and the
rest of it as it was. -/
theorem convolve_eq_ok (room : l.size ≤ Capacity.limit) (reads : p.Reads F) (inside : b.Inside l)
    (size : b.flaw? = none) {n stride : Nat} (dst : Vector UInt8 n) (hs : b.width ≤ stride)
    (holds : Run.HoldsRows n stride b.width b.height) :
    ∃ (t : Tile b.width b.height) (q : Vector UInt8 n),
      (∀ c r, ((t.get c r).toNat : Int) = b.predicted F c r) ∧ b.convolve p stride dst = .ok q ∧
        Run.Written stride (fun r c => t.get c r) dst q ∧
        Tile.ofBuffer q stride b.width b.height = .ok t := by
  obtain ⟨scratch, rows, hscratch, hrows, read⟩ := acrossRows_eq_ok room reads inside size
  obtain ⟨q, hq, written, back⟩ := (b.downColumns rows).store_eq_ok (v := dst) hs holds
  refine ⟨b.downColumns rows, q, fun c r => ?_, ?_, written, back⟩
  · exact toNat_downColumns (G := fun v => (b.bank.kernel b.phaseX).weigh fun j =>
      F (b.x + c + j - 3) v) (read c) r
  · rw [convolve, hscratch]
    change (Tile.ofBuffer scratch b.width b.width b.supportHeight >>= _) = _
    rw [hrows]
    exact hq

/-! ### Checks -/

theorem windowFlaw?_eq_none_iff : b.windowFlaw? l = none ↔
    l.addressable b.supportX b.supportY b.supportWidth b.supportHeight = true := by
  unfold windowFlaw?
  split <;> simp_all

theorem requireOn_eq_ok_iff {checked : Bool} :
    b.requireOn checked l = .ok () ↔ b.flaw? = none ∧ (checked = true → b.requireSupport = .ok () ∧
      l.addressable b.supportX b.supportY b.supportWidth b.supportHeight = true) := by
  rw [requireOn, Outcome.unlessFlawed_bind_eq_ok_iff, ← windowFlaw?_eq_none_iff]
  refine and_congr_right fun _ => ?_
  cases checked
  · exact iff_of_true rfl nofun
  · have last : Outcome.unlessFlawed (b.windowFlaw? l) = .ok () ↔ b.windowFlaw? l = none := by
      cases b.windowFlaw? l <;> simp [Outcome.unlessFlawed]
    simp only [if_true, bind_unit_eq_ok_iff, Outcome.ofChecked_eq_ok_iff, last, true_implies]

theorem flaw?_of_requireOn {checked : Bool} (h : b.requireOn checked l = .ok ()) : b.flaw? = none :=
  (requireOn_eq_ok_iff.1 h).1

theorem requireSupport_eq_ok (size : b.flaw? = none) (x : IsWord b.supportX)
    (y : IsWord b.supportY) : b.requireSupport = .ok () := by
  obtain ⟨-, hw, -, hh⟩ := flaw?_eq_none_iff.1 size
  have columns := b.phaseX.spread_le
  have rows := b.phaseY.spread_le
  refine bind_unit_eq_ok_iff.2 ⟨Word.requireCoordinates_eq_ok_iff.2 ?_,
    Word.requireSizes_eq_ok_iff.2 ?_⟩
  · simpa using ⟨x, y⟩
  · simp only [supportWidth, supportHeight, UInt64.size, List.forall_mem_cons, List.not_mem_nil,
      false_implies, implies_true, and_true]
    omega

theorem Inside.requireOn_eq_ok (inside : b.Inside l) (room : l.size ≤ Capacity.limit)
    (size : b.flaw? = none) (checked : Bool) : b.requireOn checked l = .ok () := by
  obtain ⟨columns, rows⟩ := inside.lines_lt_words room size
  have has := inside.hasWindow
  obtain ⟨left, top, right, bottom⟩ := inside
  have least : 2 * Int64.minValue.toInt = -UInt64.size := by decide
  have greatest : 2 * Int64.maxValue.toInt + 2 = UInt64.size := by decide
  have words : IsWord b.supportX ∧ IsWord b.supportY := by
    simp only [IsWord]
    omega
  exact requireOn_eq_ok_iff.2 ⟨size, fun _ =>
    ⟨requireSupport_eq_ok size words.1 words.2, has.addressable columns rows⟩⟩

theorem predict_eq_ok (room : l.size ≤ Capacity.limit) (reads : p.Reads F) (inside : b.Inside l)
    (size : b.flaw? = none) (checked : Bool) :
    ∃ t, predict checked b p = .ok t ∧
      ∀ c r, ((t.get c r).toNat : Int) = b.predicted F c r := by
  obtain ⟨-, hw, -, hh⟩ := flaw?_eq_none_iff.1 size
  have area := Nat.mul_le_mul hw hh
  have rows := rows_eq_area size
  obtain ⟨t, q, read, hq, -, back⟩ := convolve_eq_ok room reads inside size
    (.replicate (b.width * b.height) 0) (Nat.le_refl _) (.inr (Nat.le_of_eq rows))
  have destination : requireDestination b.width b.height b.width (b.width * b.height) = .ok () :=
    requireDestination_eq_ok_iff.2 ⟨Nat.le_refl _, Nat.le_of_eq rows⟩
  have capacity : Capacity.require (b.width * b.height) 1 = .ok () := by
    rw [Capacity.require_eq_ok_iff, Nat.mul_one]
    exact Nat.le_trans area (by decide)
  have admitted := inside.requireOn_eq_ok room size checked
  refine ⟨t, ?_, read⟩
  rw [predict, capacity, admitted, predictInto, admitted, destination, hq]
  change Outcome.ofChecked (Tile.ofBuffer q b.width b.width b.height) = _
  rw [back]
  rfl

theorem Inside.exists_predict (inside : b.Inside l) (room : l.size ≤ Capacity.limit)
    (size : b.flaw? = none) (checked : Bool) (p : Plane l) : ∃ t, predict checked b p = .ok t := by
  obtain ⟨F, reads⟩ := p.exists_reads
  obtain ⟨t, predicted, -⟩ := predict_eq_ok room reads inside size checked
  exact ⟨t, predicted⟩

end Block

/-! ## Planes made from a function -/

/-- A block whose support window lies inside the bordered area of a plane made from `f` is
predicted, and each of its samples is the rounded weighted sum of the rounded weighted sums of what
`f` has nearest to each place. -/
theorem predict_ofFn {f : Nat → Nat → UInt8} {width height border : Nat}
    {p : Plane (.owned width height border)} {b : Block}
    (made : Plane.ofFn? width height border f = .ok p) (hw : 1 ≤ width) (hh : 1 ≤ height)
    (size : 1 ≤ b.width ∧ b.width ≤ 64 ∧ 1 ≤ b.height ∧ b.height ≤ 64)
    (inside : -(border : Int) ≤ b.supportX ∧ -(border : Int) ≤ b.supportY ∧
      b.supportX + b.supportWidth ≤ width + border ∧
      b.supportY + b.supportHeight ≤ height + border) :
    ∃ t, predict true b p = .ok t ∧ ∀ c r, ((t.get c r).toNat : Int) =
      b.predicted (fun u v => (f (clampTo width u) (clampTo height v)).toNat) c r := by
  obtain ⟨_, room, made⟩ := bind_eq_ok_iff.1 made
  cases made
  have room := Layout.size_le_of_requireOwned room
  have reads : (Plane.ofFn width height border f).Reads
      fun u v => (f (clampTo width u) (clampTo height v)).toNat := fun column row => by
    change _ = ((f (clampTo width (column.val - border)) (clampTo height (row.val - border))).toNat
      : Int)
    rw [← nearest_eq_clampTo hw, ← nearest_eq_clampTo hh]
    exact congrArg (fun a : UInt8 => (a.toNat : Int)) (Plane.bordered_ofFn f hw hh column row)
  obtain ⟨left, top, right, bottom⟩ := inside
  exact Block.predict_eq_ok room reads ⟨left, top, right, bottom⟩
    (Block.flaw?_eq_none_iff.2 size) true

/-- A block whose support window fills the bordered area of an 8 by 4 plane with a border of 3. -/
def Block.filling : Block := ⟨0, 0, 7, 3, .half, .half, .sharp⟩

def ramp (x y : Nat) : UInt8 := UInt8.ofNat (7 * x + 13 * y)

theorem predict_ofFn_filling :
    Plane.ofFn? 8 4 3 ramp = .ok (Plane.ofFn 8 4 3 ramp) ∧
    (1 ≤ Block.filling.width ∧ Block.filling.width ≤ 64 ∧
      1 ≤ Block.filling.height ∧ Block.filling.height ≤ 64) ∧
    (-((3 : Nat) : Int) ≤ Block.filling.supportX ∧ -((3 : Nat) : Int) ≤ Block.filling.supportY ∧
      Block.filling.supportX + Block.filling.supportWidth ≤ (8 : Nat) + (3 : Nat) ∧
      Block.filling.supportY + Block.filling.supportHeight ≤ (4 : Nat) + (3 : Nat)) ∧
    ∃ t, predict true .filling (Plane.ofFn 8 4 3 ramp) = .ok t ∧
      ∀ c r, ((t.get c r).toNat : Int) = Block.filling.predicted
        (fun u v => (ramp (clampTo 8 u) (clampTo 4 v)).toNat) c r := by
  have made : Plane.ofFn? 8 4 3 ramp = .ok (Plane.ofFn 8 4 3 ramp) :=
    Plane.ofFn?_eq_ok ramp rfl
  refine ⟨made, by decide, by decide, ?_⟩
  exact predict_ofFn made (by decide) (by decide) (by decide) (by decide)

end BlockVideo
