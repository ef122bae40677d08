import BlockVideo.InPlace
import BlockVideo.Proofs.Prediction

/-!
# Prediction answers, in place

An addressable support window lies inside the bordered area, so once a block and its destination
have passed their checks, all that a prediction reads and writes is there (`Block.Contained`). The
rows of the block are written to the destination one by one, and the first of them after the last
check. So a prediction is answered, and a refusal leaves the destination as it was
(`predictInto_answered`).
-/

namespace BlockVideo

open InPlace

variable {w h n m stride : Nat}

/-! ## Tiles -/

namespace Tile

def storeInPlace (t : Tile w h) (stride : Nat) : InPlace (Vector UInt8 n) Unit :=
  (List.finRange h).forM fun r =>
    write fun dst => Run.replace dst (r * stride) fun c => t.get c r

def blendInPlace (t : Tile w h) (stride : Nat) : InPlace (Vector UInt8 n) Unit :=
  (List.finRange h).forM fun r => write fun dst => do
    let old ← Run.window dst (r * stride) w
    Run.replace dst (r * stride) fun c : Fin w => mean (old.get c) (t.get c r)

theorem storeInPlace_realizes (t : Tile w h) :
    (t.storeInPlace stride).Realizes fun dst : Vector UInt8 n =>
      Outcome.ofChecked (t.store stride dst) :=
  Realizes.forM (fun _ => .write _) _

theorem blendInPlace_realizes (t : Tile w h) :
    (t.blendInPlace stride).Realizes fun dst : Vector UInt8 n =>
      Outcome.ofChecked (t.blend stride dst) :=
  Realizes.forM (fun _ => .write _) _

theorem blend_total (t : Tile w h) (holds : Run.HoldsRows n stride w h) (dst : Vector UInt8 n) :
    ∃ q, t.blend stride dst = .ok q := by
  refine foldlM_total (fun r _ v => ?_) dst
  have fits : r * stride + w ≤ n := Run.holdsRows_iff.1 holds r r.isLt
  rw [Run.window_eq_ok fits]
  exact ⟨_, Run.replace_eq_ok fits⟩

end Tile

def meanIntoInPlace (dstStride : Nat) (src : Vector UInt8 m) (srcStride width height : Nat) :
    InPlace (Vector UInt8 n) Unit := do
  ofOutcome (Outcome.ofChecked (Run.requireRows n dstStride width height))
  ofOutcome (Outcome.ofChecked (Run.requireRows m srcStride width height))
  if width = 0 then pure ()
  else
    let tile ← ofOutcome (Outcome.ofChecked (Tile.ofBuffer src srcStride width height))
    tile.blendInPlace dstStride

theorem meanIntoInPlace_realizes (dstStride : Nat) (src : Vector UInt8 m)
    (srcStride width height : Nat) :
    (meanIntoInPlace dstStride src srcStride width height).Realizes fun dst : Vector UInt8 n =>
      Outcome.ofChecked (meanInto dst dstStride src srcStride width height) := by
  unfold meanIntoInPlace meanInto
  simp only [Outcome.ofChecked_bind]
  refine .checked fun _ => .checked fun _ => ?_
  split
  · exact .pure
  · simp only [Outcome.ofChecked_bind]
    exact .checked fun tile => tile.blendInPlace_realizes

theorem meanInto_total {dstStride srcStride width height : Nat} (src : Vector UInt8 m)
    (hd : Run.HoldsRows n dstStride width height) (hs : Run.HoldsRows m srcStride width height)
    (dst : Vector UInt8 n) : ∃ q, meanInto dst dstStride src srcStride width height = .ok q := by
  obtain ⟨tile, htile, -⟩ := Tile.ofBuffer_eq_ok (v := src) hs
  obtain ⟨q, hq⟩ := tile.blend_total hd dst
  unfold meanInto
  rw [Run.requireRows_eq_ok_iff.2 hd, Run.requireRows_eq_ok_iff.2 hs, htile]
  by_cases h0 : width = 0
  · exact ⟨dst, by simp [h0, bind, Except.bind, pure, Except.pure]⟩
  · exact ⟨q, by simp [h0, bind, Except.bind, hq]⟩

/-! ## Blocks -/

variable {l : Layout} {b : Block}

theorem requireDestination_answered {width height stride size : Nat}
    (last : (height - 1) * stride + width < UInt64.size) :
    (requireDestination width height stride size).Answered := by
  unfold requireDestination
  simp only
  split
  · exact nofun
  · intro f h
    obtain ⟨needed, listed, large⟩ := Outcome.exists_refuse_eq_fault_iff.1 ⟨f, h⟩
    cases List.mem_singleton.1 listed
    omega

namespace Block

/-- All that a prediction touches is there, with a plane laid out as `l` and a destination of `n`
samples whose rows start `stride` apart. -/
structure Contained (b : Block) (l : Layout) (stride n : Nat) : Prop where
  /-- The rows of the support window lie in the buffer of the plane. -/
  reads : ∀ r : Fin b.supportHeight,
    l.HasRun b.supportX (b.supportY + r) b.supportWidth
  /-- The scratch buffer holds what the first pass makes of them. -/
  scratch : Run.HoldsRows scratchSize b.width b.width b.supportHeight
  /-- A buffer for the largest block holds the block. -/
  block : Run.HoldsRows (maxSide * maxSide) b.width b.width b.height
  /-- The destination holds the rows of the block. -/
  writes : Run.HoldsRows n stride b.width b.height

theorem requireOn_answered (checked : Bool) (corner : IsWord b.supportX ∧ IsWord b.supportY) :
    (b.requireOn checked l).Answered := by
  refine .unlessFlawed fun size => ?_
  cases checked
  · exact nofun
  · exact .bind (.ofChecked ⟨(), requireSupport_eq_ok size corner.1 corner.2⟩)
      fun _ _ => Outcome.answered_unlessFlawed _

theorem support_sides (size : b.flaw? = none) :
    (0 < b.supportWidth ∧ 2 * b.supportWidth < UInt64.size) ∧
      0 < b.supportHeight ∧ 2 * b.supportHeight < UInt64.size := by
  obtain ⟨hw1, hw64, hh1, hh64⟩ := flaw?_eq_none_iff.1 size
  have hx := b.phaseX.spread_le
  have hy := b.phaseY.spread_le
  unfold supportWidth supportHeight UInt64.size
  omega

theorem inside_of_requireOn (room : l.size ≤ Capacity.limit)
    (ends : l.size = Capacity.limit → b.supportX + b.supportWidth ≤ Int64.maxValue.toInt ∧
      b.supportY + b.supportHeight ≤ Int64.maxValue.toInt)
    (h : b.requireOn true l = .ok ()) : b.Inside l := by
  obtain ⟨size, checks⟩ := requireOn_eq_ok_iff.1 h
  obtain ⟨hw, hh⟩ := support_sides size
  obtain ⟨left, top, right, bottom⟩ := l.hasWindow_of_addressable room hw hh ends
    (checks rfl).2
  exact ⟨left, top, right, bottom⟩

theorem contained (room : l.size ≤ Capacity.limit) (inside : b.Inside l) (size : b.flaw? = none)
    (destination : requireDestination b.width b.height stride n = .ok ()) :
    b.Contained l stride n :=
  ⟨inside.hasWindow.hasRun room (inside.lines_lt_words room size).2, holdsRows_scratch size,
    holdsRows_block size, .inr (requireDestination_eq_ok_iff.1 destination).2⟩

/-! ## Answers -/

section Total

variable (room : l.size ≤ Capacity.limit) (inside : b.Inside l) (size : b.flaw? = none)
  (destination : requireDestination b.width b.height stride n = .ok ()) (p : Plane l)
  (dst : Vector UInt8 n)

include room inside size

theorem convolve_total (hs : b.width ≤ stride) (holds : Run.HoldsRows n stride b.width b.height) :
    ∃ q, b.convolve p stride dst = .ok q := by
  obtain ⟨F, reads⟩ := p.exists_reads
  obtain ⟨t, q, -, hq, -⟩ := convolve_eq_ok room reads inside size dst hs holds
  exact ⟨q, hq⟩

include destination

/-- A block that has passed its checks is predicted into a destination that has. -/
theorem predictInto_total : ∃ q, b.convolve p stride dst = .ok q :=
  convolve_total room inside size p dst (requireDestination_eq_ok_iff.1 destination).1
    (contained room inside size destination).writes

theorem predictMeanInto_total :
    ∃ q, (do
      let block ← b.convolve p b.width (Vector.replicate (maxSide * maxSide) 0)
      meanInto dst stride block b.width b.width b.height) = .ok q := by
  have contained := contained room inside size destination
  obtain ⟨block, hblock⟩ := convolve_total room inside size p
    (.replicate (maxSide * maxSide) 0) (Nat.le_refl _) contained.block
  obtain ⟨q, hq⟩ := meanInto_total block contained.writes contained.block dst
  exact ⟨q, bind_eq_ok_iff.2 ⟨block, hblock, hq⟩⟩

end Total

def convolveInPlace (b : Block) (p : Plane l) (stride : Nat) : InPlace (Vector UInt8 n) Unit := do
  let scratch ← ofOutcome (Outcome.ofChecked (b.acrossRows p))
  let rows ← ofOutcome (Outcome.ofChecked
    (Tile.ofBuffer scratch b.width b.width b.supportHeight))
  (b.downColumns rows).storeInPlace stride

theorem convolveInPlace_realizes (b : Block) (p : Plane l) :
    (b.convolveInPlace p stride).Realizes fun dst : Vector UInt8 n =>
      Outcome.ofChecked (b.convolve p stride dst) := by
  unfold convolveInPlace convolve
  simp only [Outcome.ofChecked_bind]
  exact .checked fun _ => .checked fun rows => (b.downColumns rows).storeInPlace_realizes

end Block

def predictIntoInPlace (checked : Bool) (b : Block) (p : Plane l) (stride : Nat) :
    InPlace (Vector UInt8 n) Unit := do
  ofOutcome (b.requireOn checked l)
  ofOutcome (requireDestination b.width b.height stride n)
  b.convolveInPlace p stride

def predictMeanIntoInPlace (checked : Bool) (b : Block) (p : Plane l) (stride : Nat) :
    InPlace (Vector UInt8 n) Unit := do
  ofOutcome (b.requireOn checked l)
  ofOutcome (requireDestination b.width b.height stride n)
  let block ← ofOutcome (Outcome.ofChecked
    (b.convolve p b.width (Vector.replicate (Block.maxSide * Block.maxSide) 0)))
  meanIntoInPlace stride block b.width b.width b.height

theorem predictIntoInPlace_realizes (checked : Bool) (b : Block) (p : Plane l) :
    (predictIntoInPlace checked b p stride).Realizes fun dst : Vector UInt8 n =>
      predictInto checked b p stride dst :=
  .checked fun _ => .checked fun _ => b.convolveInPlace_realizes p

theorem predictMeanIntoInPlace_realizes (checked : Bool) (b : Block) (p : Plane l) :
    (predictMeanIntoInPlace checked b p stride).Realizes fun dst : Vector UInt8 n =>
      predictMeanInto checked b p stride dst := by
  unfold predictMeanIntoInPlace predictMeanInto
  simp only [Outcome.ofChecked_bind]
  exact .checked fun _ => .checked fun _ => .checked fun block =>
    meanIntoInPlace_realizes stride block b.width b.width b.height

/-- With its window checked, a block is predicted into a destination, or refused, as long as the
corner of its window and the size that it needs are words: once the checks have passed, all it needs
is there. Done in place, a refusal leaves the destination as it was. Only in the largest of all
buffers the far sides of the window have to be words as well. -/
theorem predictInto_answered (room : l.size ≤ Capacity.limit) {b : Block}
    (ends : l.size = Capacity.limit → b.supportX + b.supportWidth ≤ Int64.maxValue.toInt ∧
      b.supportY + b.supportHeight ≤ Int64.maxValue.toInt) (p : Plane l) (stride n : Nat) :
    (IsWord b.supportX ∧ IsWord b.supportY → (b.height - 1) * stride + b.width < UInt64.size →
      ∀ dst : Vector UInt8 n, (predictInto true b p stride dst).Answered ∧
        (predictMeanInto true b p stride dst).Answered) ∧
    (b.requireOn true l = .ok () → requireDestination b.width b.height stride n = .ok () →
      b.Contained l stride n ∧ ∀ dst : Vector UInt8 n,
        (∃ q, predictInto true b p stride dst = .ok q) ∧
        ∃ q, predictMeanInto true b p stride dst = .ok q) ∧
    (predictIntoInPlace true b p stride).Realizes (fun dst : Vector UInt8 n =>
      predictInto true b p stride dst) ∧
    (predictMeanIntoInPlace true b p stride).Realizes (fun dst : Vector UInt8 n =>
      predictMeanInto true b p stride dst) := by
  have size (admitted : b.requireOn true l = .ok ()) := Block.flaw?_of_requireOn admitted
  have inside := Block.inside_of_requireOn room ends
  refine ⟨fun corner last dst => ⟨?_, ?_⟩, fun admitted destination =>
      ⟨Block.contained room (inside admitted) (size admitted) destination, fun dst => ⟨?_, ?_⟩⟩,
    predictIntoInPlace_realizes true b p, predictMeanIntoInPlace_realizes true b p⟩
  · exact .bind (Block.requireOn_answered true corner) fun _ admitted =>
      .bind (requireDestination_answered last) fun _ destination => .ofChecked
        (Block.predictInto_total room (inside admitted) (size admitted) destination p dst)
  · exact .bind (Block.requireOn_answered true corner) fun _ admitted =>
      .bind (requireDestination_answered last) fun _ destination => .ofChecked
        (Block.predictMeanInto_total room (inside admitted) (size admitted) destination p dst)
  · obtain ⟨q, hq⟩ :=
      Block.predictInto_total room (inside admitted) (size admitted) destination p dst
    rw [predictInto, admitted, destination, hq]
    exact ⟨q, rfl⟩
  · obtain ⟨q, hq⟩ :=
      Block.predictMeanInto_total room (inside admitted) (size admitted) destination p dst
    rw [predictMeanInto, admitted, destination, hq]
    exact ⟨q, rfl⟩

theorem predictInto_filling_answered :
    (Layout.owned 8 4 3).size < Capacity.limit ∧
    Block.filling.Contained (.owned 8 4 3) 8 23 ∧
    ∀ dst : Vector UInt8 22,
      (predictInto true .filling (Plane.ofFn 8 4 3 ramp) 8 dst).Answered ∧
      (predictIntoInPlace true .filling (Plane.ofFn 8 4 3 ramp) 8).exec dst =
        (.error (.refused (.destinationShort 23 22)), dst) := by
  have room : (Layout.owned 8 4 3).size < Capacity.limit := by decide
  have answered := predictInto_answered (b := .filling) (Nat.le_of_lt room)
    (fun h => absurd h (Nat.ne_of_lt room)) (Plane.ofFn 8 4 3 ramp) 8
  have admitted : Block.filling.requireOn true (.owned 8 4 3) = .ok () := rfl
  obtain ⟨contained, -⟩ := (answered 23).2.1 admitted rfl
  exact ⟨room, contained, fun dst =>
    ⟨((answered 22).1 (by decide) (by decide) dst).1, (answered 22).2.2.1.refused rfl⟩⟩

end BlockVideo
