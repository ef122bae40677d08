import BlockVideo.Proofs.Destinations

/-!
# Destinations that are too short

A refused destination comes with two sizes, what the block needs and what there is. The first is
the greater one when the last row does not end in the destination. But rows that do not fit side by
side are refused in the same words: those that start less than a row apart, and those of a tile that
ends behind the right side of a plane. They are told sizes that need not be a shortage
(`destinationShort_iff`). Where a size is none, there is a fault instead of a refusal.
-/

namespace BlockVideo

/-! ## Destinations of samples -/

section Destination

variable {width height stride size : Nat}

theorem not_fits_iff : ¬ (width ≤ stride ∧ (height - 1) * stride + width ≤ size) ↔
    size < (height - 1) * stride + width ∨ stride < width := by
  omega

theorem requireDestination_eq_refused_iff {e : Error} :
    requireDestination width height stride size = .error (.refused e) ↔
      e = .destinationShort ((height - 1) * stride + width) size ∧
        (height - 1) * stride + width < UInt64.size ∧
        (size < (height - 1) * stride + width ∨ stride < width) := by
  rw [← not_fits_iff, requireDestination]
  split
  · next fits => exact iff_of_false nofun fun h => h.2.2 fits
  · next fails =>
    rw [Outcome.refuse_eq_refused_iff, List.forall_mem_singleton]
    exact and_congr_right fun _ => (and_iff_left fails).symm

theorem exists_requireDestination_eq_fault_iff :
    (∃ f, requireDestination width height stride size = .error (.fault f)) ↔
      UInt64.size ≤ (height - 1) * stride + width ∧
        (size < (height - 1) * stride + width ∨ stride < width) := by
  rw [← not_fits_iff, requireDestination]
  split
  · next fits => exact iff_of_false (fun ⟨_, h⟩ => nomatch h) fun h => h.2 fits
  · next fails =>
    rw [Outcome.exists_refuse_eq_fault_iff]
    simp only [List.mem_singleton, exists_eq_left, and_iff_left fails]

end Destination

variable {α : Type} {l l' : Layout} {checked : Bool} {b : Block} {p : Plane l}
  {n stride needed available : Nat}

namespace Block

theorem requireOn_ne_destinationShort :
    b.requireOn checked l ≠ .error (.refused (.destinationShort needed available)) := by
  rw [requireOn, Ne, Outcome.unlessFlawed_bind_eq_refused_iff]
  rintro (flaw | ⟨-, window⟩)
  · unfold flaw? at flaw
    split at flaw <;> cases flaw
  · split at window
    · rcases bind_eq_error_iff.1 window with support | ⟨_, _, window⟩
      · exact Outcome.ofChecked_ne_refused support
      · unfold windowFlaw? at window
        split at window <;> cases window
    · cases window

section Checks

variable {x : Checked α}

/-- How the checks of a block and of its destination end, whatever comes after them. -/
theorem checks_eq_destinationShort_iff :
    (do
      b.requireOn checked l
      requireDestination b.width b.height stride n
      Outcome.ofChecked x) = .error (.refused (.destinationShort needed available)) ↔
      b.requireOn checked l = .ok () ∧
        (needed = (b.height - 1) * stride + b.width ∧ available = n) ∧
        needed < UInt64.size ∧ (available < needed ∨ stride < b.width) := by
  simp only [bind_eq_error_iff, requireOn_ne_destinationShort, false_or,
    requireDestination_eq_refused_iff, Outcome.ofChecked_ne_refused, and_false, exists_false,
    or_false, Error.destinationShort.injEq]
  constructor
  · rintro ⟨_, admitted, ⟨rfl, rfl⟩, short⟩
    exact ⟨admitted, ⟨rfl, rfl⟩, short⟩
  · rintro ⟨admitted, ⟨rfl, rfl⟩, short⟩
    exact ⟨(), admitted, ⟨rfl, rfl⟩, short⟩

theorem checks_eq_fault (admitted : b.requireOn checked l = .ok ())
    (large : UInt64.size ≤ (b.height - 1) * stride + b.width)
    (short : n < (b.height - 1) * stride + b.width ∨ stride < b.width) :
    ∃ f, (do
      b.requireOn checked l
      requireDestination b.width b.height stride n
      Outcome.ofChecked x) = .error (.fault f) := by
  obtain ⟨f, fault⟩ := exists_requireDestination_eq_fault_iff.2 ⟨large, short⟩
  exact ⟨f, bind_eq_error_iff.2 (.inr ⟨(), admitted, bind_eq_error_iff.2 (.inl fault)⟩)⟩

end Checks

end Block

/-! ## Planes -/

namespace Tile

variable {w h x y : Nat}

theorem exists_writeTo (t : Tile w h) (q : Plane l') (right : x + w ≤ l'.width)
    (bottom : y + h ≤ l'.height) : ∃ q', t.writeTo q x y = .ok q' := by
  have loop : ∃ q', (List.finRange h).foldlM (fun (u : Plane l') (r : Fin h) =>
      u.setRow x (y + r) (t.rows.get r)) q = .ok q' :=
    foldlM_total (fun r _ u => ⟨_, (if_pos (by omega)).trans (if_pos right)⟩) q
  obtain ⟨q', copied⟩ := loop
  rw [writeTo, if_pos ⟨right, bottom⟩]
  exact ⟨q', Outcome.ofChecked_eq_ok_iff.2 copied⟩

theorem writeTo_eq_destinationShort_iff (hw : 0 < w) (t : Tile w h) (q : Plane l') :
    t.writeTo q x y = .error (.refused (.destinationShort needed available)) ↔
      (needed = (y + h) * l'.stride ∧ available = l'.height * l'.stride) ∧
        (∀ m ∈ [x + w, y + h, needed, available], m < UInt64.size) ∧
        (available < needed ∨ l'.width < x + w) := by
  by_cases inside : x + w ≤ l'.width ∧ y + h ≤ l'.height
  · obtain ⟨q', copied⟩ := t.exists_writeTo q inside.1 inside.2
    rw [copied]
    refine iff_of_false nofun ?_
    rintro ⟨⟨rfl, rfl⟩, -, short | short⟩
    · have := Nat.lt_of_mul_lt_mul_right short
      omega
    · omega
  · have bottom : l'.height * l'.stride < (y + h) * l'.stride ∨ l'.width < x + w := by
      rcases Nat.eq_zero_or_pos l'.stride with h0 | hs
      · -- no plane with columns has its rows start zero samples apart
        have := l'.line_le_stride
        omega
      · rw [Nat.mul_lt_mul_right hs]
        omega
    rw [writeTo, if_neg inside]
    simp only
    rw [Outcome.refuse_eq_refused_iff, Error.destinationShort.injEq]
    constructor
    · rintro ⟨⟨rfl, rfl⟩, words⟩
      exact ⟨⟨rfl, rfl⟩, words, bottom⟩
    · rintro ⟨⟨rfl, rfl⟩, words, -⟩
      exact ⟨⟨rfl, rfl⟩, words⟩

theorem exists_writeTo_eq_fault_iff (t : Tile w h) (q : Plane l') :
    (∃ f, t.writeTo q x y = .error (.fault f)) ↔
      (l'.width < x + w ∨ l'.height < y + h) ∧
        ∃ m ∈ [x + w, y + h, (y + h) * l'.stride, l'.height * l'.stride], UInt64.size ≤ m := by
  by_cases inside : x + w ≤ l'.width ∧ y + h ≤ l'.height
  · obtain ⟨q', copied⟩ := t.exists_writeTo q inside.1 inside.2
    rw [copied]
    exact iff_of_false (fun ⟨_, h⟩ => nomatch h) fun ⟨outside, _⟩ => by omega
  · rw [writeTo, if_neg inside]
    simp only
    rw [Outcome.exists_refuse_eq_fault_iff]
    exact (and_iff_right (by omega)).symm

end Tile

/-- When a destination is refused, and with which sizes. The sizes are a shortage unless the rows
start less than a row apart, or the tile ends behind the right side of the plane. A destination that
is too short for sizes in words is met with a fault. -/
theorem destinationShort_iff (checked : Bool) (b : Block) (p : Plane l) :
    (∀ (stride n : Nat) (dst : Vector UInt8 n) (needed available : Nat),
      (predictInto checked b p stride dst =
          .error (.refused (.destinationShort needed available)) ↔
        b.requireOn checked l = .ok () ∧
          (needed = (b.height - 1) * stride + b.width ∧ available = n) ∧
          needed < UInt64.size ∧ (available < needed ∨ stride < b.width)) ∧
      (predictMeanInto checked b p stride dst =
          .error (.refused (.destinationShort needed available)) ↔
        b.requireOn checked l = .ok () ∧
          (needed = (b.height - 1) * stride + b.width ∧ available = n) ∧
          needed < UInt64.size ∧ (available < needed ∨ stride < b.width))) ∧
    (∀ (stride n : Nat) (dst : Vector UInt8 n), b.requireOn checked l = .ok () →
      UInt64.size ≤ (b.height - 1) * stride + b.width →
      n < (b.height - 1) * stride + b.width ∨ stride < b.width →
      (∃ f, predictInto checked b p stride dst = .error (.fault f)) ∧
        ∃ f, predictMeanInto checked b p stride dst = .error (.fault f)) ∧
    ∀ (w h : Nat) (t : Tile w h) (l' : Layout) (q : Plane l') (x y : Nat), 0 < w →
      (∀ needed available : Nat,
        t.writeTo q x y = .error (.refused (.destinationShort needed available)) ↔
          (needed = (y + h) * l'.stride ∧ available = l'.height * l'.stride) ∧
            (∀ m ∈ [x + w, y + h, needed, available], m < UInt64.size) ∧
            (available < needed ∨ l'.width < x + w)) ∧
      ((∃ f, t.writeTo q x y = .error (.fault f)) ↔
        (l'.width < x + w ∨ l'.height < y + h) ∧
          ∃ m ∈ [x + w, y + h, (y + h) * l'.stride, l'.height * l'.stride],
            UInt64.size ≤ m) :=
  ⟨fun _ _ _ _ _ => ⟨Block.checks_eq_destinationShort_iff, Block.checks_eq_destinationShort_iff⟩,
    fun _ _ _ admitted large short =>
      ⟨Block.checks_eq_fault admitted large short, Block.checks_eq_fault admitted large short⟩,
    fun _ _ t _ q _ _ hw => ⟨fun _ _ => t.writeTo_eq_destinationShort_iff hw q,
      t.exists_writeTo_eq_fault_iff q⟩⟩

theorem destinationShort_whole :
    (Block.whole 0 0 8 8).requireOn true (.owned 8 8 0) = .ok () ∧
    predictInto true (.whole 0 0 8 8) (Plane.constant (.owned 8 8 0) 5) 8 (.replicate 63 0) =
      .error (.refused (.destinationShort 64 63)) ∧
    (∃ f, predictInto true (.whole 0 0 8 8) (Plane.constant (.owned 8 8 0) 5) 9223372036854775808
      (.replicate 8 0) = .error (.fault f)) ∧
    0 < 4 ∧ (Tile.ofFn fun _ _ => 5 : Tile 4 4).writeTo (Plane.constant (.owned 8 8 0) 5) 4 5 =
      .error (.refused (.destinationShort (9 * 32) (8 * 32))) := by
  have admitted : (Block.whole 0 0 8 8).requireOn true (.owned 8 8 0) = .ok () := rfl
  obtain ⟨into, large, writes⟩ :=
    destinationShort_iff true (.whole 0 0 8 8) (Plane.constant (.owned 8 8 0) 5)
  exact ⟨admitted, (into 8 63 (.replicate 63 0) 64 63).1.2 ⟨admitted, by decide⟩,
    (large 9223372036854775808 8 (.replicate 8 0) admitted (by decide) (by decide)).1, by decide,
    ((writes 4 4 (.ofFn fun _ _ => 5) _ _ 4 5 (by decide)).1 _ _).2 (by decide)⟩

/-- Eight rows that start seven samples apart are said to need 57 samples where there are 64, and a
tile that is one column too far to the right is said to need four rows where there are eight. -/
theorem destinationShort_of_overlap :
    predictInto true (.whole 0 0 8 8) (Plane.constant (.owned 8 8 0) 5) 7 (.replicate 64 0) =
      .error (.refused (.destinationShort 57 64)) ∧
    predictMeanInto true (.whole 0 0 8 8) (Plane.constant (.owned 8 8 0) 5) 7 (.replicate 64 0) =
      .error (.refused (.destinationShort 57 64)) ∧
    (Tile.ofFn fun _ _ => 5 : Tile 4 4).writeTo (Plane.constant (.owned 8 8 0) 5) 5 0 =
      .error (.refused (.destinationShort (4 * 32) (8 * 32))) ∧
    ¬ 64 < 57 ∧ ¬ 8 * 32 < 4 * 32 :=
  ⟨Block.checks_eq_destinationShort_iff.2 ⟨rfl, by decide⟩,
    Block.checks_eq_destinationShort_iff.2 ⟨rfl, by decide⟩,
    (Tile.writeTo_eq_destinationShort_iff (by decide) _ _).2 (by decide), by decide, by decide⟩

end BlockVideo
