import BlockVideo.Orientation
import BlockVideo.Proofs.Parts

/-!
# Mirrored prediction

A vertical mirror exchanges left and right, a horizontal one top and bottom. What lies `φ` behind a
sample lies as far before it in the mirror, so a block with a phase counts from the sample one
further on, and its phase from there to the whole. The kernels of such two phases are each other's
taps back to front (`Bank.kernel_rev`), and the window with three samples before and four after is
turned into itself (`Kernel.weigh_mirror`). So a block that is predicted from a plane is predicted
from the mirrored plane, where the mirror shows it, and its prediction is mirrored as well
(`predict_mirror`).
-/

namespace BlockVideo

/-! ## Phases -/

namespace Phase

/-- What is left of a whole sample. Nothing is left of it at phase zero. -/
def mirror (φ : Phase) : Phase := .ofSixteenths (16 - φ.val)

/-- Whether a place with this phase counts from another sample in the mirror. -/
def carry (φ : Phase) : Nat := if φ = .zero then 0 else 1

theorem mirror_zero : mirror .zero = .zero := by decide

theorem val_add_mirror {φ : Phase} (h : φ ≠ .zero) : φ.val + φ.mirror.val = 16 := by
  revert φ
  decide

theorem carry_mirror (φ : Phase) : φ.mirror.carry = φ.carry := by
  revert φ
  decide

theorem lead_eq (φ : Phase) : φ.lead = 3 * φ.carry := by
  revert φ
  decide

theorem spread_eq (φ : Phase) : φ.spread = 7 * φ.carry := by
  revert φ
  decide

end Phase

namespace Kernel

theorem dot_rev {k k' : Kernel} (h : ∀ j, k.get j = k'.get j.rev) (s : Fin 8 → Int) :
    k.dot s = k'.dot fun j => s j.rev := by
  simp only [dot_eq, h]
  change k'.get 7 * s 0 + k'.get 6 * s 1 + k'.get 5 * s 2 + k'.get 4 * s 3 + k'.get 3 * s 4 +
      k'.get 2 * s 5 + k'.get 1 * s 6 + k'.get 0 * s 7 =
    k'.get 0 * s 7 + k'.get 1 * s 6 + k'.get 2 * s 5 + k'.get 3 * s 4 + k'.get 4 * s 3 +
      k'.get 5 * s 2 + k'.get 6 * s 1 + k'.get 7 * s 0
  ac_rfl

/-- A phase of a line weighs what the mirrored phase weighs of the line read backwards. -/
theorem weigh_mirror (b : Bank) (φ : Phase) (G : Int → Int) (z : Int) :
    ((b.kernel φ.mirror).weigh fun j => G (z + φ.carry - j + 3)) =
      (b.kernel φ).weigh fun j => G (z + j - 3) := by
  have dots : ((b.kernel φ.mirror).dot fun j => G (z + φ.carry - j + 3)) =
      (b.kernel φ).dot fun j => G (z + j - 3) := by
    by_cases h : φ = .zero
    · -- all but the sample in the middle count nothing, and it stays in its place
      subst h
      have middle (s : Fin 8 → Int) : (b.kernel .zero).dot s = 128 * s ⟨3, by decide⟩ :=
        dot_zero b s
      rw [Phase.mirror_zero, middle, middle, Phase.carry, if_pos rfl]
      congr 2
      simp only
      omega
    · rw [dot_rev (b.kernel_rev (Nat.add_comm .. ▸ Phase.val_add_mirror h))]
      congr 1
      funext j
      congr 1
      rw [Phase.carry, if_neg h, Fin.val_rev]
      omega
  rw [weigh, dots, weigh]

end Kernel

/-! ## Planes -/

variable {l l' : Layout} {o : Orientation}

namespace Layout

def mirrorColumn (l : Layout) (o : Orientation) (u : Int) : Int :=
  match o with
  | .vertical => l.width - 1 - u
  | .horizontal => u

def mirrorRow (l : Layout) (o : Orientation) (v : Int) : Int :=
  match o with
  | .vertical => v
  | .horizontal => l.height - 1 - v

theorem HasWindow.exists_place {u v : Int} (has : l.HasWindow u v 1 1) :
    ∃ (column : Fin (l.width + 2 * l.border)) (row : Fin (l.height + 2 * l.border)),
      u + l.border = column.val ∧ v + l.border = row.val := by
  obtain ⟨left, top, right, bottom⟩ := has
  exact ⟨⟨(u + l.border).toNat, by omega⟩, ⟨(v + l.border).toNat, by omega⟩,
    by simp only; omega, by simp only; omega⟩

theorem HasWindow.mirror {u v : Int} (has : l.HasWindow u v 1 1) (o : Orientation) :
    l.HasWindow (l.mirrorColumn o u) (l.mirrorRow o v) 1 1 := by
  obtain ⟨left, top, right, bottom⟩ := has
  cases o <;> constructor <;> simp only [mirrorColumn, mirrorRow] <;> omega

end Layout

namespace Plane

variable {p : Plane l} {p' : Plane l'} {F : Int → Int → Int}

/-- `p'` is `p` in a mirror, border included, however the two are laid out. -/
structure IsMirror (o : Orientation) (p : Plane l) (p' : Plane l') : Prop where
  width : l'.width = l.width
  height : l'.height = l.height
  border : l'.border = l.border
  sample : ∀ u v, l.HasWindow u v 1 1 →
    p'.sample? u v = p.sample? (l.mirrorColumn o u) (l.mirrorRow o v)

theorem sample?_of_hasWindow (room : l.size ≤ Capacity.limit) (reads : p.Reads F) {u v : Int}
    (has : l.HasWindow u v 1 1) : ∃ a, p.sample? u v = some a ∧ (a.toNat : Int) = F u v := by
  obtain ⟨column, row, hu, hv⟩ := has.exists_place
  refine ⟨_, p.sample?_eq_bordered room column row hu hv, ?_⟩
  rw [reads, ← hu, ← hv, Int.add_sub_cancel, Int.add_sub_cancel]

theorem IsMirror.reads (mirror : p.IsMirror o p') (room : l.size ≤ Capacity.limit)
    (room' : l'.size ≤ Capacity.limit) (reads : p.Reads F) :
    p'.Reads fun u v => F (l.mirrorColumn o u) (l.mirrorRow o v) := by
  obtain ⟨width, height, border, sample⟩ := mirror
  intro column row
  have has : l.HasWindow (column - l'.border) (row - l'.border) 1 1 :=
    ⟨by omega, by omega, by omega, by omega⟩
  obtain ⟨a, seen, value⟩ := sample?_of_hasWindow room reads (has.mirror o)
  have shown := p'.sample?_eq_bordered (x := column - l'.border) (y := row - l'.border) room' column
    row (by omega) (by omega)
  rw [sample _ _ has, seen] at shown
  rw [← Option.some.inj shown, value]

theorem exists_bordered (l : Layout)
    (f : Fin (l.width + 2 * l.border) → Fin (l.height + 2 * l.border) → UInt8) :
    ∃ p : Plane l, ∀ column row, p.bordered column row = f column row := by
  refine ⟨⟨Vector.ofFn fun k =>
    if h : k.val % l.stride < l.width + 2 * l.border ∧
        k.val / l.stride < l.height + 2 * l.border then
      f ⟨_, h.1⟩ ⟨_, h.2⟩
    else 0⟩, fun column row => ?_⟩
  have hc := Nat.lt_of_lt_of_le column.isLt l.line_le_stride
  simp only [bordered, Vector.getElem_ofFn, RowMajor.mod_eq row.val hc, RowMajor.div_eq row.val hc]
  exact dif_pos ⟨column.isLt, row.isLt⟩

/-- Every plane has a mirrored one. -/
theorem exists_isMirror (room : l.size ≤ Capacity.limit) (p : Plane l) (o : Orientation) :
    ∃ p' : Plane l, p.IsMirror o p' := by
  obtain ⟨p', chosen⟩ := exists_bordered l fun column row =>
    match o with
    | .vertical => p.bordered column.rev row
    | .horizontal => p.bordered column row.rev
  refine ⟨p', rfl, rfl, rfl, fun u v has => ?_⟩
  obtain ⟨column, row, hu, hv⟩ := has.exists_place
  rw [p'.sample?_eq_bordered room column row hu hv, chosen]
  cases o
  · refine (p.sample?_eq_bordered room column.rev row ?_ hv).symm
    rw [Fin.val_rev, Layout.mirrorColumn]
    omega
  · refine (p.sample?_eq_bordered room column row.rev hu ?_).symm
    rw [Fin.val_rev, Layout.mirrorRow]
    omega

end Plane

/-! ## Tiles and blocks -/

namespace Tile

variable {w h : Nat}

def mirror (o : Orientation) (t : Tile w h) : Tile w h :=
  ofFn fun c r =>
    match o with
    | .vertical => t.get c.rev r
    | .horizontal => t.get c r.rev

theorem get_mirror (t : Tile w h) (c : Fin w) (r : Fin h) : (t.mirror o).get c r =
    match o with
    | .vertical => t.get c.rev r
    | .horizontal => t.get c r.rev := get_ofFn ..

end Tile

/-- Where `length` places from `z` on, moved by `φ`, begin when a line of `n` places is mirrored. -/
def mirrorStart (n length : Nat) (z : Int) (φ : Phase) : Int := n - z - length - φ.carry

/-- Reading from where the mirrored places begin is reading backwards from where they end. -/
theorem sub_mirrorStart (n : Nat) {length : Nat} (z : Int) (φ : Phase) (c : Fin length) (j : Nat) :
    n - 1 - (mirrorStart n length z φ + c + j - 3) = z + c.rev + φ.carry - j + 3 := by
  rw [mirrorStart, Fin.val_rev]
  omega

namespace Block

variable {b : Block} {p : Plane l} {p' : Plane l'}

/-- The block that the mirror shows, seen in a plane that is laid out as `l`. -/
def mirror (o : Orientation) (b : Block) (l : Layout) : Block :=
  { b with
    x := match o with
      | .vertical => mirrorStart l.width b.width b.x b.phaseX
      | .horizontal => b.x
    y := match o with
      | .vertical => b.y
      | .horizontal => mirrorStart l.height b.height b.y b.phaseY
    phaseX := match o with
      | .vertical => b.phaseX.mirror
      | .horizontal => b.phaseX
    phaseY := match o with
      | .vertical => b.phaseY
      | .horizontal => b.phaseY.mirror }

theorem flaw?_mirror (o : Orientation) (b : Block) (l : Layout) : (b.mirror o l).flaw? = b.flaw? :=
  rfl

theorem Inside.mirror (inside : b.Inside l) (o : Orientation) : (b.mirror o l).Inside l := by
  obtain ⟨left, top, right, bottom⟩ := inside
  simp only [supportX, supportWidth, Phase.lead_eq, Phase.spread_eq] at left right
  simp only [supportY, supportHeight, Phase.lead_eq, Phase.spread_eq] at top bottom
  cases o <;> constructor <;>
    simp only [Block.mirror, mirrorStart, supportX, supportWidth, supportY, supportHeight,
      Phase.lead_eq, Phase.spread_eq, Phase.carry_mirror] <;>
    omega

theorem predicted_mirror (b : Block) (l : Layout) (F : Int → Int → Int) (c : Fin b.width)
    (r : Fin b.height) : (b.mirror o l).predicted
      (fun u v => F (l.mirrorColumn o u) (l.mirrorRow o v)) c r =
    match o with
    | .vertical => b.predicted F c.rev r
    | .horizontal => b.predicted F c r.rev := by
  cases o
  · simp only [predicted, mirror, Layout.mirrorColumn, Layout.mirrorRow, sub_mirrorStart]
    congr 1
    funext k
    exact Kernel.weigh_mirror b.bank b.phaseX (fun u => F u (b.y + r + k - 3)) (b.x + c.rev)
  · simp only [predicted, mirror, Layout.mirrorColumn, Layout.mirrorRow, sub_mirrorStart]
    exact Kernel.weigh_mirror b.bank b.phaseY (fun v =>
      (b.bank.kernel b.phaseX).weigh fun j => F (b.x + c + j - 3) v) (b.y + r.rev)

theorem Inside.of_isMirror (mirror : p.IsMirror o p') (inside : b.Inside l) : b.Inside l' := by
  obtain ⟨width, height, border, -⟩ := mirror
  obtain ⟨left, top, right, bottom⟩ := inside
  constructor <;> omega

end Block

/-- A block that is predicted from a plane is predicted from the mirrored plane, in the place where
the mirror shows it, and its prediction is mirrored too. -/
theorem predict_mirror (room : l.size ≤ Capacity.limit) (room' : l'.size ≤ Capacity.limit)
    {p : Plane l} {p' : Plane l'} (mirror : p.IsMirror o p') {b : Block}
    {t : Tile b.width b.height} (accepted : predict true b p = .ok t) :
    predict true (b.mirror o l) p' = .ok (t.mirror o) := by
  obtain ⟨F, reads⟩ := p.exists_reads
  obtain ⟨size, inside, samples⟩ := Block.predicted_of_predict room reads accepted
  refine Block.predict_eq_ok_of_predicted (b := b.mirror o l) room'
    (mirror.reads room room' reads) ((b.flaw?_mirror o l).trans size)
    ((inside.mirror o).of_isMirror mirror) fun (c : Fin b.width) (r : Fin b.height) => ?_
  refine Eq.trans ?_ (b.predicted_mirror l F c r).symm
  refine (congrArg (fun a : UInt8 => (a.toNat : Int)) (t.get_mirror c r)).trans ?_
  cases o
  · exact samples c.rev r
  · exact samples c r.rev

/-- Five sixteenths behind the second column are eleven behind the fifth of eight, for a block of
two columns seen in the mirror. -/
theorem predict_mirror_ramp :
    (Layout.owned 8 4 3).size ≤ Capacity.limit ∧
    ∃ (p' : Plane (.owned 8 4 3)) (t : Tile 2 3),
      (Plane.ofFn 8 4 3 ramp).IsMirror .vertical p' ∧
      predict true ⟨1, 0, 2, 3, .ofSixteenths 5, .ofSixteenths 3, .sharp⟩
        (Plane.ofFn 8 4 3 ramp) = .ok t ∧
      predict true ⟨4, 0, 2, 3, .ofSixteenths 11, .ofSixteenths 3, .sharp⟩ p' =
        .ok (t.mirror .vertical) := by
  have room : (Layout.owned 8 4 3).size ≤ Capacity.limit := by decide
  obtain ⟨F, reads⟩ := (Plane.ofFn 8 4 3 ramp).exists_reads
  obtain ⟨p', mirror⟩ := Plane.exists_isMirror room (Plane.ofFn 8 4 3 ramp) .vertical
  obtain ⟨t, accepted, -⟩ := Block.predict_eq_ok
    (b := ⟨1, 0, 2, 3, .ofSixteenths 5, .ofSixteenths 3, .sharp⟩) room
    reads ⟨by decide, by decide, by decide, by decide⟩ (by decide) true
  exact ⟨room, p', t, mirror, accepted, predict_mirror room room mirror accepted⟩

end BlockVideo
