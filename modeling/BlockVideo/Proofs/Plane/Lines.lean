import BlockVideo.Plane.Line

/-!
# Planes line by line

The lines of one orientation cover the visible samples and do not meet, so a plane is the choice of
its lines together with the samples that are not visible: `ext_lines` says that these determine it,
`exists_lines` that they can be chosen freely.
-/

namespace BlockVideo

def Layout.Visible (l : Layout) (k : Nat) : Prop :=
  ∃ x y, x < l.width ∧ y < l.height ∧ l.index x y = k

theorem Layout.visible_iff_place {l : Layout} (o : Orientation) {k : Nat} :
    l.Visible k ↔ ∃ i j, i < l.lineCount o ∧ j < l.lineLength o ∧ l.place o i j = k := by
  cases o
  · constructor
    · rintro ⟨x, y, hx, hy, e⟩
      exact ⟨y, x, hy, hx, e⟩
    · rintro ⟨y, x, hy, hx, e⟩
      exact ⟨x, y, hx, hy, e⟩
  · exact Iff.rfl

namespace Plane

variable {l : Layout} {o : Orientation}

/-- Two planes agree outside the visible area: on the border and on the padding of rows. -/
def AgreeOff (p q : Plane l) : Prop :=
  ∀ k (hk : k < l.size), ¬ l.Visible k → p.samples[k] = q.samples[k]

theorem AgreeOff.refl (p : Plane l) : AgreeOff p p := fun _ _ _ => rfl

theorem AgreeOff.symm {p q : Plane l} (h : AgreeOff p q) : AgreeOff q p :=
  fun k hk hv => (h k hk hv).symm

theorem AgreeOff.trans {p q r : Plane l} (h : AgreeOff p q) (h' : AgreeOff q r) : AgreeOff p r :=
  fun k hk hv => (h k hk hv).trans (h' k hk hv)

theorem agreeOff_setLine (p : Plane l) (i : Fin (l.lineCount o))
    (v : Vector UInt8 (l.lineLength o)) : AgreeOff p (p.setLine o i v) := by
  intro k hk hv
  refine (p.samples_setLine v hk fun j e => hv ?_).symm
  exact (Layout.visible_iff_place o).2 ⟨i, j, i.isLt, j.isLt, e⟩

theorem getElem_line (p : Plane l) (i : Fin (l.lineCount o)) {j : Nat} (hj : j < l.lineLength o) :
    (p.line o i)[j] = getElem p.samples (l.place o i j) (Layout.place_lt i.isLt hj) := by
  simp only [line, Vector.getElem_ofFn]

theorem getElem_row (p : Plane l) (y : Fin (l.lineCount .vertical)) {x : Nat} (hx : x < l.width) :
    (p.line .vertical y)[x] = p.get ⟨x, hx⟩ y := p.getElem_line y hx

theorem getElem_column (p : Plane l) (x : Fin (l.lineCount .horizontal)) {y : Nat}
    (hy : y < l.height) : (p.line .horizontal x)[y] = p.get x ⟨y, hy⟩ := p.getElem_line x hy

/-- A plane is determined by its lines and by the samples that are not visible. -/
theorem ext_lines (o : Orientation) {p q : Plane l} (hl : ∀ i, p.line o i = q.line o i)
    (ho : AgreeOff p q) : p = q := by
  have : p.samples = q.samples := by
    apply Vector.ext
    intro k hk
    by_cases hv : l.Visible k
    · obtain ⟨i, j, hi, hj, rfl⟩ := (Layout.visible_iff_place o).1 hv
      rw [← p.getElem_line ⟨i, hi⟩ hj, ← q.getElem_line ⟨i, hi⟩ hj, hl]
    · exact ho k hk hv
  cases p
  cases q
  exact congrArg Plane.mk this

theorem ext_get {p q : Plane l} (samples : ∀ x y, p.get x y = q.get x y)
    (off : p.AgreeOff q) : p = q := by
  refine ext_lines .vertical (fun y => Vector.ext fun x hx => ?_) off
  exact (p.getElem_row y hx).trans ((samples ⟨x, hx⟩ y).trans (q.getElem_row y hx).symm)

private def setLines (p : Plane l) (o : Orientation) (v : Fin (l.lineCount o) →
    Vector UInt8 (l.lineLength o)) (is : List (Fin (l.lineCount o))) : Plane l :=
  is.foldl (fun q i => q.setLine o i (v i)) p

private theorem setLines_spec (v : Fin (l.lineCount o) → Vector UInt8 (l.lineLength o))
    (is : List (Fin (l.lineCount o))) (p : Plane l) :
    (∀ k, (k ∈ is ∨ p.line o k = v k) → (setLines p o v is).line o k = v k) ∧
      AgreeOff p (setLines p o v is) := by
  induction is generalizing p with
  | nil => exact ⟨fun k h => h.resolve_left (List.not_mem_nil), AgreeOff.refl p⟩
  | cons i is ih =>
    obtain ⟨hl, ho⟩ := ih (p.setLine o i (v i))
    refine ⟨fun k h => hl k ?_, (p.agreeOff_setLine i _).trans ho⟩
    by_cases e : i = k
    · subst e
      exact .inr (p.line_setLine o i _)
    · rw [p.line_setLine_of_ne _ e]
      exact h.imp_left fun h => (List.mem_cons.1 h).resolve_left fun e' => e e'.symm

theorem exists_lines (p : Plane l) (v : Fin (l.lineCount o) → Vector UInt8 (l.lineLength o)) :
    ∃ q : Plane l, (∀ i, q.line o i = v i) ∧ AgreeOff p q :=
  have h := setLines_spec v (List.finRange _) p
  ⟨_, fun i => h.1 i (.inl (List.mem_finRange i)), h.2⟩

end Plane

end BlockVideo
