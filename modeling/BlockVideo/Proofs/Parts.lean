import BlockVideo.Proofs.Destinations

/-!
# Blocks in parts

The support window of a part of a block lies inside that of the block, and a predicted sample
depends on its own place and on the phases alone (`Block.predicted_part`). So a block that has been
predicted is predicted in parts too, and each part is what the block has in its place
(`predict_part`). How the block is divided makes no difference: parts that cover it, put together
one by one, are its prediction.
-/

namespace BlockVideo

variable {w h : Nat} {l : Layout} {p : Plane l} {b : Block}

/-- A rectangle of samples of a `w` by `h` area. -/
structure Part (w h : Nat) where
  x : Nat
  y : Nat
  width : Nat
  height : Nat
  one_le_width : 1 ≤ width
  one_le_height : 1 ≤ height
  right_le : x + width ≤ w
  bottom_le : y + height ≤ h

namespace Part

def Has (q : Part w h) (c r : Nat) : Prop :=
  (q.x ≤ c ∧ c < q.x + q.width) ∧ q.y ≤ r ∧ r < q.y + q.height

instance (q : Part w h) (c r : Nat) : Decidable (q.Has c r) :=
  inferInstanceAs (Decidable ((_ ∧ _) ∧ _ ∧ _))

theorem column_lt (q : Part w h) (c : Fin q.width) : q.x + c < w :=
  Nat.lt_of_lt_of_le (Nat.add_lt_add_left c.isLt _) q.right_le

theorem row_lt (q : Part w h) (r : Fin q.height) : q.y + r < h :=
  Nat.lt_of_lt_of_le (Nat.add_lt_add_left r.isLt _) q.bottom_le

end Part

/-! ## Tiles -/

namespace Tile

def part (t : Tile w h) (q : Part w h) : Tile q.width q.height :=
  ofFn fun c r => t.get ⟨q.x + c, q.column_lt c⟩ ⟨q.y + r, q.row_lt r⟩

theorem get_part (t : Tile w h) (q : Part w h) (c : Fin q.width) (r : Fin q.height) :
    (t.part q).get c r = t.get ⟨q.x + c, q.column_lt c⟩ ⟨q.y + r, q.row_lt r⟩ := get_ofFn ..

def setPart (t : Tile w h) (q : Part w h) (s : Tile q.width q.height) : Tile w h :=
  ofFn fun c r =>
    if inside : q.Has c r then
      s.get ⟨c - q.x, Nat.sub_lt_left_of_lt_add inside.1.1 inside.1.2⟩
        ⟨r - q.y, Nat.sub_lt_left_of_lt_add inside.2.1 inside.2.2⟩
    else t.get c r

theorem get_setPart_part (t u : Tile w h) (q : Part w h) (c : Fin w) (r : Fin h) :
    (u.setPart q (t.part q)).get c r = if q.Has c r then t.get c r else u.get c r := by
  rw [setPart, get_ofFn]
  by_cases inside : q.Has c r
  · rw [dif_pos inside, if_pos inside, get_part]
    congr 1
    · exact Fin.ext (Nat.add_sub_cancel' inside.1.1)
    · exact Fin.ext (Nat.add_sub_cancel' inside.2.1)
  · rw [dif_neg inside, if_neg inside]

theorem get_foldl_setPart (t : Tile w h) (parts : List (Part w h)) (u : Tile w h) (c : Fin w)
    (r : Fin h) :
    (parts.foldl (fun u q => u.setPart q (t.part q)) u).get c r =
      if ∃ q ∈ parts, q.Has c r then t.get c r else u.get c r := by
  induction parts generalizing u with
  | nil => simp
  | cons q parts ih =>
    rw [List.foldl_cons, ih, get_setPart_part]
    by_cases here : q.Has c r
    · rw [if_pos here, ite_self, if_pos ⟨q, List.mem_cons_self, here⟩]
    · simp only [List.mem_cons, exists_eq_or_imp, here, false_or, if_false]

end Tile

/-! ## Blocks -/

namespace Block

def part (b : Block) (q : Part b.width b.height) : Block :=
  { b with x := b.x + q.x, y := b.y + q.y, width := q.width, height := q.height }

theorem flaw?_part (size : b.flaw? = none) (q : Part b.width b.height) :
    (b.part q).flaw? = none := by
  have := q.right_le
  have := q.bottom_le
  obtain ⟨-, hw, -, hh⟩ := flaw?_eq_none_iff.1 size
  exact flaw?_eq_none_iff.2 ⟨q.one_le_width, show q.width ≤ 64 by omega, q.one_le_height,
    show q.height ≤ 64 by omega⟩

theorem Inside.part (inside : b.Inside l) (q : Part b.width b.height) : (b.part q).Inside l := by
  have := q.right_le
  have := q.bottom_le
  obtain ⟨left, top, right, bottom⟩ := inside
  simp only [supportX, supportWidth] at left right
  simp only [supportY, supportHeight] at top bottom
  constructor <;> simp only [Block.part, supportX, supportWidth, supportY, supportHeight] <;> omega

theorem predicted_part (F : Int → Int → Int) (q : Part b.width b.height) (c r : Nat) :
    (b.part q).predicted F c r = b.predicted F (q.x + c) (q.y + r) := by
  simp only [predicted, part, Int.natCast_add, Int.add_assoc]

/-- A block that has been predicted has passed its checks, and the rows of its support window were
there to be read, so that it lies inside the bordered area. -/
theorem inside_of_predict (room : l.size ≤ Capacity.limit) {t : Tile b.width b.height}
    (accepted : predict true b p = .ok t) : b.flaw? = none ∧ b.Inside l := by
  obtain ⟨admitted, resampled⟩ := predict_eq_ok_iff.1 accepted
  obtain ⟨scratch, across, -⟩ := bind_eq_ok_iff.1 resampled
  have runs (r : Fin b.supportHeight) :
      l.HasRun b.supportX (b.supportY + r) b.supportWidth := by
    obtain ⟨row, span⟩ := exists_spans across
    exact p.hasRun_of_span (span r)
  obtain ⟨size, checks⟩ := requireOn_eq_ok_iff.1 admitted
  obtain ⟨hw, hh⟩ := support_sides size
  exact ⟨size,
    inside_of_requireOn room (fun _ => l.ends_of_hasRun room hw hh (checks rfl).2 runs) admitted⟩

variable {F : Int → Int → Int}

theorem predicted_of_predict (room : l.size ≤ Capacity.limit) (reads : p.Reads F)
    {t : Tile b.width b.height} (accepted : predict true b p = .ok t) :
    b.flaw? = none ∧ b.Inside l ∧ ∀ c r, ((t.get c r).toNat : Int) = b.predicted F c r := by
  obtain ⟨size, inside⟩ := inside_of_predict room accepted
  obtain ⟨u, hu, predicted⟩ := predict_eq_ok room reads inside size true
  obtain rfl : u = t := Except.ok.inj (hu.symm.trans accepted)
  exact ⟨size, inside, predicted⟩

theorem predict_eq_ok_of_predicted (room : l.size ≤ Capacity.limit) (reads : p.Reads F)
    (size : b.flaw? = none) (inside : b.Inside l) {checked : Bool} {t : Tile b.width b.height}
    (samples : ∀ c r, ((t.get c r).toNat : Int) = b.predicted F c r) :
    predict checked b p = .ok t := by
  obtain ⟨u, hu, predicted⟩ := predict_eq_ok room reads inside size checked
  have same : u = t := Tile.ext_get fun c r =>
    UInt8.toNat_inj.1 (Int.ofNat.inj ((predicted c r).trans (samples c r).symm))
  rw [hu, same]

theorem predict_part_eq_ok (room : l.size ≤ Capacity.limit) {t : Tile b.width b.height}
    (accepted : predict true b p = .ok t) (q : Part b.width b.height) :
    predict true (b.part q) p = .ok (t.part q) := by
  obtain ⟨F, reads⟩ := p.exists_reads
  obtain ⟨size, inside, whole⟩ := predicted_of_predict room reads accepted
  refine predict_eq_ok_of_predicted room reads (flaw?_part size q) (inside.part q) fun c r => ?_
  calc (((t.part q).get c r).toNat : Int)
      _ = (t.get ⟨_, q.column_lt c⟩ ⟨_, q.row_lt r⟩).toNat :=
        congrArg (fun a : UInt8 => (a.toNat : Int)) (t.get_part q c r)
      _ = b.predicted F (q.x + c) (q.y + r) := whole ⟨_, q.column_lt c⟩ ⟨_, q.row_lt r⟩
      _ = (b.part q).predicted F c r := (predicted_part F q c r).symm

/-- Predicts parts of a block one by one and puts each in its place. -/
def predictParts (b : Block) (parts : List (Part b.width b.height)) (p : Plane l)
    (u : Tile b.width b.height) : Outcome (Tile b.width b.height) :=
  parts.foldlM (fun u q => do return u.setPart q (← predict true (b.part q) p)) u

theorem predictParts_eq {t : Tile b.width b.height}
    (predicted : ∀ q, predict true (b.part q) p = .ok (t.part q))
    (parts : List (Part b.width b.height)) (u : Tile b.width b.height) :
    b.predictParts parts p u = .ok (parts.foldl (fun u q => u.setPart q (t.part q)) u) := by
  have step (u : Tile b.width b.height) (q : Part b.width b.height) :
      (do return u.setPart q (← predict true (b.part q) p) : Outcome _) =
        pure (u.setPart q (t.part q)) := by
    rw [predicted]
    rfl
  simp only [predictParts, step]
  exact List.foldlM_pure ..

end Block

/-- Every part of a block that is predicted is predicted too, and its prediction is that part of the
prediction of the block. Parts that cover the block give all of it, whatever they are put into. -/
theorem predict_part (room : l.size ≤ Capacity.limit) {t : Tile b.width b.height}
    (accepted : predict true b p = .ok t) :
    (∀ q : Part b.width b.height, predict true (b.part q) p = .ok (t.part q)) ∧
    ∀ parts : List (Part b.width b.height),
      (∀ c r, c < b.width → r < b.height → ∃ q ∈ parts, q.Has c r) →
      ∀ u, b.predictParts parts p u = .ok t := by
  have predicted := Block.predict_part_eq_ok room accepted
  refine ⟨predicted, fun parts cover u => ?_⟩
  rw [Block.predictParts_eq predicted]
  congr 1
  refine Tile.ext_get fun c r => ?_
  rw [Tile.get_foldl_setPart, if_pos (cover c r c.isLt r.isLt)]

theorem predict_part_filling :
    (Layout.owned 8 4 3).size ≤ Capacity.limit ∧
    ∃ t, predict true .filling (Plane.ofFn 8 4 3 ramp) = .ok t ∧
      predict true ⟨3, 0, 4, 3, .half, .half, .sharp⟩ (Plane.ofFn 8 4 3 ramp) =
        .ok (t.part ⟨3, 0, 4, 3, by decide, by decide, by decide, by decide⟩) ∧
      Block.filling.predictParts
        [⟨0, 0, 3, 3, by decide, by decide, by decide, by decide⟩,
          ⟨3, 0, 4, 3, by decide, by decide, by decide, by decide⟩]
        (Plane.ofFn 8 4 3 ramp) (.ofFn fun _ _ => 0) = .ok t := by
  have room : (Layout.owned 8 4 3).size ≤ Capacity.limit := by decide
  obtain ⟨F, reads⟩ := (Plane.ofFn 8 4 3 ramp).exists_reads
  obtain ⟨t, accepted, -⟩ := Block.predict_eq_ok (b := .filling) room reads
    ⟨by decide, by decide, by decide, by decide⟩ (by decide) true
  obtain ⟨part, whole⟩ := predict_part room accepted
  refine ⟨room, t, accepted, part ⟨3, 0, 4, 3, by decide, by decide, by decide, by decide⟩,
    whole _ (fun c r hc hr => ?_) _⟩
  rcases Nat.lt_or_ge c 3 with h | h
  · exact ⟨_, List.mem_cons_self, ⟨Nat.zero_le c, h⟩, Nat.zero_le r, hr⟩
  · exact ⟨_, List.mem_cons_of_mem _ List.mem_cons_self, ⟨h, hc⟩, Nat.zero_le r, hr⟩

end BlockVideo
