import Mathlib.Data.List.FinRange
import BlockVideo.Plane.Rows
import BlockVideo.Proofs.Plane.Addressing
import BlockVideo.Proofs.Plane.Lines

/-!
# One sample, many accessors

A visible sample is found in four ways: at its place in the buffer, in a row that is cut out of it,
in the list of all rows, and by its signed coordinates. The visible area can be taken as a plane of
its own, `interior`, where the same samples have other places; `withInterior` is the buffer after
such a plane has been written to.

All accessors find the same sample (`ReadAs`), all ways to write it come to `set` (`WrittenAs`), and
the rows of the list do not meet (`CutAt`). `accessors_agree` puts this together for every layout
that has columns.
-/

namespace BlockVideo

variable {l : Layout}

/-! ## Places -/

namespace Layout

theorem origin_add_index (x y : Nat) : l.origin + l.interior.index x y = l.index x y := by
  simp [index_eq_origin_add, origin, interior]

theorem index_row_add (x y : Nat) : l.index 0 y + x = l.index x y := by
  simp only [index]
  omega

theorem index_row_add_width_le {y y' : Nat} (h : y < y') :
    l.index 0 y + l.width ≤ l.index 0 y' := by
  have := l.line_le_stride
  have := Nat.mul_le_mul_right l.stride (show y + l.border + 1 ≤ y' + l.border by omega)
  rw [Nat.succ_mul] at this
  simp only [index]
  omega

theorem index_row_add_width_le_size (hw : 0 < l.width) {y : Nat} (hy : y < l.height) :
    l.index 0 y + l.width ≤ l.size := by
  have := l.index_lt (show l.width - 1 < l.width by omega) hy
  rw [← index_row_add] at this
  omega

/-- A plane that has columns is cut at the starts of all its rows. -/
theorem rowStarts_eq (hw : 0 < l.width) :
    l.rowStarts = .ok ((List.finRange l.height).map fun y : Fin l.height => l.index 0 y) := by
  rw [rowStarts, if_neg (stride_ne_zero hw), cutRows_eq hw, ← List.map_coe_finRange_eq_range,
    List.map_map]
  congr 2
  funext y
  simp [index_eq_origin_add]

end Layout

namespace Plane

/-! ## Rows -/

/-- The plane is cut into runs from `starts` on, one for each visible row, that lie in the buffer
and do not meet. -/
structure CutAt (p : Plane l) (starts : List Nat) : Prop where
  starts_eq : l.rowStarts = .ok starts
  rows_eq : ∃ rows, p.rows = .ok rows ∧ rows.length = l.height
  inside : ∀ start ∈ starts, start + l.width ≤ l.size
  disjoint : starts.Pairwise fun a b => a + l.width ≤ b

def visibleRow (p : Plane l) (y : Fin l.height) : Vector UInt8 l.width := p.line .vertical y

theorem getElem_visibleRow (p : Plane l) (x : Fin l.width) (y : Fin l.height) :
    getElem (p.visibleRow y) x.val x.isLt = p.get x y := p.getElem_row y x.isLt

theorem row_eq (p : Plane l) (y : Fin l.height) : p.row y = .ok (p.visibleRow y) := dif_pos y.isLt

theorem window_row (p : Plane l) (hw : 0 < l.width) (y : Fin l.height) :
    Run.window p.samples (l.index 0 y) l.width = .ok (p.visibleRow y) := by
  rw [Run.window_eq_ok (Layout.index_row_add_width_le_size hw y.isLt)]
  congr 2
  funext x
  simp only [Layout.index_row_add]
  rfl

theorem rows_eq (p : Plane l) (hw : 0 < l.width) :
    p.rows = .ok ((List.finRange l.height).map p.visibleRow) := by
  have row (y : Fin l.height) : Run.window p.samples (l.index 0 y) l.width =
      pure (p.visibleRow y) := p.window_row hw y
  rw [rows, Layout.rowStarts_eq hw]
  refine List.mapM_map.trans ?_
  simp only [Function.comp_def, row]
  exact List.mapM_pure

theorem exists_cutAt (p : Plane l) (hw : 0 < l.width) : ∃ starts, p.CutAt starts := by
  refine ⟨_, Layout.rowStarts_eq hw, ⟨_, p.rows_eq hw, ?_⟩, fun start h => ?_, ?_⟩
  · rw [List.length_map, List.length_finRange]
  · obtain ⟨y, -, rfl⟩ := List.mem_map.1 h
    exact Layout.index_row_add_width_le_size hw y.isLt
  · exact List.pairwise_map.2
      ((List.pairwise_lt_finRange _).imp fun h => Layout.index_row_add_width_le h)

theorem set_eq_setIfInBounds {α : Type} {n : Nat} (v : Vector α n) {i : Nat} (a : α) (hi : i < n) :
    v.set i a hi = v.setIfInBounds i a := by
  apply Vector.ext
  intro j hj
  rw [Vector.getElem_set, Vector.getElem_setIfInBounds]

def setVisibleRow (p : Plane l) (y : Fin l.height) (row : Vector UInt8 l.width) : Plane l :=
  p.setLine .vertical y row

theorem visibleRow_setVisibleRow (p : Plane l) (y y' : Fin l.height) (row : Vector UInt8 l.width) :
    (p.setVisibleRow y row).visibleRow y' = if y = y' then row else p.visibleRow y' := by
  split
  · next h =>
    subst h
    exact p.line_setLine .vertical y row
  · next h => exact p.line_setLine_of_ne (o := .vertical) row h

theorem overwrite_row (p : Plane l) (y : Fin l.height) (row : Vector UInt8 l.width) :
    (⟨Run.overwrite p.samples (l.index 0 y) row.get⟩ : Plane l) = p.setVisibleRow y row := by
  have place (x : Fin l.width) : l.index 0 y + x = l.index x y := Layout.index_row_add x y
  simp only [Run.overwrite, setVisibleRow, setLine, scatter, place]
  congr 2
  funext s x
  exact (set_eq_setIfInBounds ..).symm

section Edit

variable (f : Nat → Vector UInt8 l.width → Vector UInt8 l.width)

def replaceRows (ys : List (Fin l.height)) (p : Plane l) : Plane l :=
  ys.foldl (fun q y => q.setVisibleRow y (f y (q.visibleRow y))) p

theorem agreeOff_replaceRows (ys : List (Fin l.height)) (p : Plane l) :
    AgreeOff p (p.replaceRows f ys) := by
  induction ys generalizing p with
  | nil => exact AgreeOff.refl p
  | cons y ys ih => exact (p.agreeOff_setLine (o := .vertical) y _).trans (ih _)

theorem visibleRow_replaceRows {ys : List (Fin l.height)} (once : ys.Nodup) (p : Plane l)
    (y : Fin l.height) :
    (p.replaceRows f ys).visibleRow y =
      if y ∈ ys then f y (p.visibleRow y) else p.visibleRow y := by
  induction ys generalizing p with
  | nil => exact (if_neg List.not_mem_nil).symm
  | cons y' ys ih =>
    obtain ⟨fresh, once⟩ := List.nodup_cons.1 once
    have rest := ih once (p.setVisibleRow y' (f y' (p.visibleRow y')))
    rw [visibleRow_setVisibleRow] at rest
    refine rest.trans ?_
    by_cases h : y' = y
    · subst h
      rw [if_neg fresh, if_pos rfl, if_pos List.mem_cons_self]
    · rw [if_neg h]
      simp only [List.mem_cons, Ne.symm h, false_or]

theorem editRows_eq (p : Plane l) (hw : 0 < l.width) :
    p.editRows f = .ok (p.replaceRows f (List.finRange l.height)) := by
  have numbered : ((List.finRange l.height).map fun y : Fin l.height => l.index 0 y).zipIdx =
      (List.finRange l.height).map fun y : Fin l.height => (l.index 0 y, y.val) := by
    apply List.ext_getElem <;> simp
  have step (q : Plane l) (y : Fin l.height) :
      (do
        let row ← Run.window q.samples (l.index 0 y) l.width
        return (⟨Run.overwrite q.samples (l.index 0 y) (f y row).get⟩ : Plane l) : Checked _) =
        pure (q.setVisibleRow y (f y (q.visibleRow y))) := by
    rw [q.window_row hw]
    exact congrArg Except.ok (overwrite_row ..)
  rw [editRows, Layout.rowStarts_eq hw]
  change List.foldlM _ p (List.zipIdx _) = _
  rw [numbered, List.foldlM_map]
  simp only [step]
  exact List.foldlM_pure ..

end Edit

/-! ## Reading -/

/-- Every accessor finds `v` at (`x`, `y`). -/
structure ReadAs (p : Plane l) (x : Fin l.width) (y : Fin l.height) (v : UInt8) : Prop where
  get? : p.get? x y = some v
  row : ∃ row, p.row y = .ok row ∧ row.get x = v
  rows : ∃ rows row, p.rows = .ok rows ∧ rows[y.val]? = some row ∧ row.get x = v
  sample? : p.sample? x y = some v
  span : p.span x y 1 = .ok #v[v]

theorem span_one_eq (p : Plane l) (room : l.size ≤ Capacity.limit) (x : Fin l.width)
    (y : Fin l.height) : p.span x y 1 = .ok #v[p.get x y] := by
  have hx := x.isLt
  have hy := y.isLt
  obtain ⟨-, rows⟩ := l.lines_lt_words room (by omega) (by omega)
  have column : (x : Int) + l.border = (x + l.border : Nat) := rfl
  rw [p.span_eq_ok room rows ⟨y + l.border, by omega⟩ column rfl (by omega)]
  rfl

theorem readAs_get (p : Plane l) (hw : 0 < l.width) (room : l.size ≤ Capacity.limit)
    (x : Fin l.width) (y : Fin l.height) : p.ReadAs x y (p.get x y) where
  get? := p.get?_eq_some x.isLt y.isLt
  row := ⟨_, p.row_eq y, p.getElem_visibleRow x y⟩
  rows := ⟨_, _, p.rows_eq hw, by simp, p.getElem_visibleRow x y⟩
  sample? := p.sample?_eq_bordered room ⟨x + l.border, by omega⟩ ⟨y + l.border, by omega⟩ rfl rfl
  span := p.span_one_eq room x y

/-! ## Writing -/

/-- Every way to write `v` to (`x`, `y`) leads from `p` to `q`. -/
structure WrittenAs (p : Plane l) (x : Fin l.width) (y : Fin l.height) (v : UInt8) (q : Plane l) :
    Prop where
  row : p.setRow x y #v[v] = .ok q
  rows : p.editRows (fun y' row => if y' = y.val then row.set x v x.isLt else row) = .ok q

theorem setRow_eq (p : Plane l) (x : Fin l.width) (y : Fin l.height) (v : UInt8) :
    p.setRow x y #v[v] = .ok (p.set x y v) := by
  rw [setRow, if_pos y.isLt, if_pos (Nat.succ_le_of_lt x.isLt), set, set_eq_setIfInBounds]
  rfl

theorem visibleRow_set (p : Plane l) (x : Fin l.width) (y y' : Fin l.height) (v : UInt8) :
    (p.set x y v).visibleRow y' =
      if y'.val = y.val then (p.visibleRow y').set x v x.isLt else p.visibleRow y' := by
  apply Vector.ext
  intro x' hx'
  have before := p.getElem_visibleRow ⟨x', hx'⟩ y'
  have after := (p.set x y v).getElem_visibleRow ⟨x', hx'⟩ y'
  rw [get_set] at after
  by_cases hy : y'.val = y.val
  · obtain rfl := Fin.ext hy
    simp only [after, Fin.ext_iff, and_true, if_pos, Vector.getElem_set, before]
  · have hy' : y ≠ y' := fun h => hy (congrArg Fin.val h.symm)
    simp only [after, hy', and_false, if_false, if_neg hy, before]

theorem agreeOff_set (p : Plane l) (x : Fin l.width) (y : Fin l.height) (v : UInt8) :
    AgreeOff p (p.set x y v) := fun _ hk off =>
  (p.samples_set x y v hk fun e => off ⟨x, y, x.isLt, y.isLt, e⟩).symm

theorem writtenAs_set (p : Plane l) (hw : 0 < l.width) (x : Fin l.width) (y : Fin l.height)
    (v : UInt8) : p.WrittenAs x y v (p.set x y v) where
  row := p.setRow_eq x y v
  rows := by
    rw [p.editRows_eq _ hw]
    congr 1
    refine ext_lines .vertical (fun y' => ?_)
      ((p.agreeOff_replaceRows _ _).symm.trans (p.agreeOff_set x y v))
    have replaced := p.visibleRow_replaceRows
      (fun y' row => if y' = y.val then row.set x v x.isLt else row)
      (List.nodup_finRange l.height) y'
    exact replaced.trans ((if_pos (List.mem_finRange y')).trans (p.visibleRow_set x y y' v).symm)

/-! ## The visible area as a plane of its own -/

/-- The buffer with the visible area as in `q`. -/
def withInterior (p : Plane l) (q : Plane l.interior) : Plane l :=
  ⟨Run.overwrite p.samples l.origin q.samples.get⟩

theorem samples_withInterior (p : Plane l) (q : Plane l.interior) {k : Nat} (hk : k < l.size) :
    (p.withInterior q).samples[k] =
      if h : l.origin ≤ k then
        getElem q.samples (k - l.origin) (Nat.sub_lt_sub_right h hk)
      else p.samples[k] :=
  Run.getElem_overwrite_rest p.samples l.origin q.samples k hk

theorem withInterior_set (p : Plane l) (x : Fin l.width) (y : Fin l.height) (v : UInt8) :
    p.withInterior (p.interior.set x y v) = p.set x y v := by
  have samples : (p.withInterior (p.interior.set x y v)).samples = (p.set x y v).samples := by
    apply Vector.ext
    intro k hk
    have place := l.origin_add_index x y
    rw [samples_withInterior]
    by_cases h : l.origin ≤ k
    · have same : l.interior.index x y = k - l.origin ↔ l.index x y = k := by omega
      have kept : getElem p.interior.samples (k - l.origin) (Nat.sub_lt_sub_right h hk) =
          p.samples[k] := by
        refine (Vector.getElem_drop _).trans ?_
        simp only [Nat.add_sub_cancel' h]
      rw [dif_pos h]
      simp only [set, Vector.getElem_set, same]
      exact if_congr Iff.rfl rfl kept
    · rw [dif_neg h]
      exact (p.samples_set x y v hk (by omega)).symm
  exact congrArg Plane.mk samples

/-- Whatever accessor is used, on the plane or on its visible area, it finds the sample that is
stored, a write to a sample changes that one and nothing else of the buffer, and the rows are cut
out one by one and do not meet. -/
theorem accessors_agree (hw : 0 < l.width) (room : l.size ≤ Capacity.limit) (p : Plane l) :
    (∀ x y, p.ReadAs x y (p.get x y) ∧ p.interior.ReadAs x y (p.get x y)) ∧
    ((∃ starts, p.CutAt starts) ∧ ∃ starts, p.interior.CutAt starts) ∧
    ∀ x y v, ∃ q, p.WrittenAs x y v q ∧
      (∃ r, p.interior.WrittenAs x y v r ∧ p.withInterior r = q) ∧
      (∃ r, p.interior.interior.WrittenAs x y v r ∧
        p.withInterior (p.interior.withInterior r) = q) ∧
      q.get x y = v ∧
      ∀ k (hk : k < l.size), k ≠ l.index x y → q.samples[k] = p.samples[k] := by
  refine ⟨fun x y => ⟨p.readAs_get hw room x y, ?_⟩,
    ⟨p.exists_cutAt hw, p.interior.exists_cutAt hw⟩, fun x y v => ?_⟩
  · rw [← p.get_interior]
    exact p.interior.readAs_get hw (Nat.le_trans (Nat.sub_le ..) room) x y
  · have once := p.withInterior_set x y v
    have twice : p.withInterior (p.interior.withInterior (p.interior.interior.set x y v)) =
        p.set x y v := (congrArg p.withInterior (p.interior.withInterior_set x y v)).trans once
    refine ⟨p.set x y v, p.writtenAs_set hw x y v,
      ⟨_, p.interior.writtenAs_set hw x y v, once⟩,
      ⟨_, p.interior.interior.writtenAs_set hw x y v, twice⟩, ?_, fun k hk other => ?_⟩
    · rw [get_set, if_pos ⟨rfl, rfl⟩]
    · exact p.samples_set x y v hk other.symm

def leastSlice : Plane ⟨3, 2, 5, 0, 8, by decide, by decide⟩ :=
  ⟨#v[10, 11, 12, 13, 14, 15, 16, 17]⟩

theorem accessors_agree_leastSlice :
    unbordered? #[10, 11, 12, 13, 14, 15, 16, 17] 3 2 5 = .ok (.ok ⟨_, leastSlice⟩) ∧
    0 < 3 ∧ 8 ≤ Capacity.limit ∧
    leastSlice.ReadAs ⟨2, by decide⟩ ⟨1, by decide⟩ 17 ∧
    ∃ q, leastSlice.WrittenAs ⟨2, by decide⟩ ⟨1, by decide⟩ 99 q ∧
      ∀ k (hk : k < 8), k ≠ 7 → getElem q.samples k hk = getElem leastSlice.samples k hk := by
  obtain ⟨read, -, write⟩ := accessors_agree (by decide) (by decide) leastSlice
  obtain ⟨q, written, -, -, -, kept⟩ := write ⟨2, by decide⟩ ⟨1, by decide⟩ 99
  exact ⟨rfl, by decide, by decide, (read _ _).1, q, written, kept⟩

end Plane

end BlockVideo
