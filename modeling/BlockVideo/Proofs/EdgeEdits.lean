import BlockVideo.Proofs.FirstFlaw

/-!
# Edits of an edge map

An edge map is edited by setting widths at positions and by clearing sets of positions. However the
edits follow one another, each width has a history of its own at each position: it stands there when
the map had it or an edit set it, and nothing has cleared the position since (`EdgeMap.Stands`). The
width of a position is the greatest one that stands there, and a position overlaps where several do
(`edited_exact`).

So a map is free of overlaps as long as widths are only set where there is none.
-/

namespace BlockVideo

theorem EdgeWidth.taps_inj {v w : EdgeWidth} (h : v.taps = w.taps) : v = w := by
  cases v <;> cases w <;> simp_all [EdgeWidth.taps]

inductive EdgeEdit where
  | set (i : Fin 64) (w : EdgeWidth)
  | clear (s : Positions)
  deriving DecidableEq

namespace EdgeEdit

def apply (m : EdgeMap) : EdgeEdit → EdgeMap
  | set i w => m.set i w
  | clear s => m.clear s

def Clears (i : Nat) : EdgeEdit → Prop
  | set .. => False
  | clear s => s.has i = true

/-- The edit sets no second width at a position. -/
def Fresh (m : EdgeMap) : EdgeEdit → Prop
  | set i _ => m.widthAt i = none
  | clear _ => True

instance (m : EdgeMap) (e : EdgeEdit) : Decidable (e.Fresh m) :=
  match e with
  | set i _ => inferInstanceAs (Decidable (m.widthAt i = none))
  | clear _ => inferInstanceAs (Decidable True)

/-- One of the edits sets width `w` at position `i`, and none after it clears the position. -/
def Leaves (edits : List EdgeEdit) (i : Fin 64) (w : EdgeWidth) : Prop :=
  ∃ before after, edits = before ++ set i w :: after ∧ ∀ e ∈ after, ¬ e.Clears i

variable {e : EdgeEdit} {edits : List EdgeEdit} {i : Fin 64} {w : EdgeWidth}

theorem not_leaves_nil : ¬ Leaves [] i w := by
  rintro ⟨before, after, eq, -⟩
  exact List.append_ne_nil_of_right_ne_nil before (List.cons_ne_nil _ after) eq.symm

theorem leaves_cons :
    Leaves (e :: edits) i w ↔
      (e = set i w ∧ ∀ e' ∈ edits, ¬ e'.Clears i) ∨ Leaves edits i w := by
  constructor
  · rintro ⟨before, after, eq, kept⟩
    cases before with
    | nil =>
      cases eq
      exact .inl ⟨rfl, kept⟩
    | cons _ before =>
      cases eq
      exact .inr ⟨before, after, rfl, kept⟩
  · rintro (⟨rfl, kept⟩ | ⟨before, after, rfl, kept⟩)
    · exact ⟨[], edits, rfl, kept⟩
    · exact ⟨e :: before, after, rfl, kept⟩

end EdgeEdit

namespace EdgeMap

def edited (m : EdgeMap) (edits : List EdgeEdit) : EdgeMap := edits.foldl EdgeEdit.apply m

/-- Every edit is fresh when its turn comes. -/
def SetsFresh : EdgeMap → List EdgeEdit → Prop
  | _, [] => True
  | m, e :: edits => e.Fresh m ∧ SetsFresh (e.apply m) edits

instance (m : EdgeMap) (edits : List EdgeEdit) : Decidable (m.SetsFresh edits) :=
  go m edits
where
  go (m : EdgeMap) : (edits : List EdgeEdit) → Decidable (m.SetsFresh edits)
    | [] => inferInstanceAs (Decidable True)
    | e :: edits =>
      have := go (e.apply m) edits
      inferInstanceAs (Decidable (_ ∧ _))

/-- Width `w` is at position `i` from the start or by an edit, and has not been cleared since. -/
def Stands (m : EdgeMap) (edits : List EdgeEdit) (i : Fin 64) (w : EdgeWidth) : Prop :=
  ((m.withWidth w).has i = true ∧ ∀ e ∈ edits, ¬ e.Clears i) ∨ EdgeEdit.Leaves edits i w

/-! ## The width of a position -/

section Width

variable {m : EdgeMap} {i : Nat} {w : EdgeWidth}

theorem widthAt_eq_none_iff : m.widthAt i = none ↔ ∀ w, ¬ (m.withWidth w).has i = true := by
  rw [← Option.not_isSome_iff_eq_none, isSome_widthAt, has_union, not_exists]

theorem taps_le_of_widthAt {v : EdgeWidth} (h : m.widthAt i = some w)
    (has : (m.withWidth v).has i = true) : v.taps ≤ w.taps := by
  unfold widthAt at h
  cases v <;> grind [withWidth, EdgeWidth.taps]

/-- The width of a position is the greatest of those that it has. -/
theorem widthAt_eq_some_iff_greatest :
    m.widthAt i = some w ↔ (m.withWidth w).has i = true ∧
      ∀ v, (m.withWidth v).has i = true → v.taps ≤ w.taps := by
  constructor
  · intro h
    exact ⟨has_withWidth h, fun v => taps_le_of_widthAt h⟩
  · rintro ⟨has, greatest⟩
    obtain ⟨v, hv⟩ : ∃ v, m.widthAt i = some v := by
      rw [← Option.isSome_iff_exists, isSome_widthAt, has_union]
      exact ⟨w, has⟩
    have le := greatest v (has_withWidth hv)
    have ge := taps_le_of_widthAt hv has
    rw [hv, EdgeWidth.taps_inj (Nat.le_antisymm le ge)]

end Width

variable {m : EdgeMap} {e : EdgeEdit} {edits : List EdgeEdit} {i : Fin 64} {w : EdgeWidth}

/-! ## One edit -/

theorem has_apply :
    ((e.apply m).withWidth w).has i = true ↔
      e = .set i w ∨ ((m.withWidth w).has i = true ∧ ¬ e.Clears i) := by
  cases e with
  | set j v =>
    simp only [EdgeEdit.apply, EdgeEdit.Clears, has_withWidth_set, Positions.has_single, i.isLt,
      decide_true, Bool.true_and, Bool.or_eq_true, Bool.and_eq_true, decide_eq_true_eq,
      EdgeEdit.set.injEq, ← Fin.ext_iff, not_false_eq_true, and_true]
    exact or_comm.trans (or_congr_left and_comm)
  | clear s => simp [EdgeEdit.apply, EdgeEdit.Clears, has_withWidth_clear]

theorem overlaps_apply (alone : m.overlaps = 0) (fresh : e.Fresh m) :
    (e.apply m).overlaps = 0 := by
  cases e with
  | clear s =>
    rw [EdgeEdit.apply, overlaps_clear, alone]
    exact BitVec.zero_and
  | set j v =>
    rw [overlaps_eq_zero_iff] at alone ⊢
    rintro i ⟨u, w, ne, hu, hw⟩
    simp only [EdgeEdit.apply, has_withWidth_set, Bool.or_eq_true, Bool.and_eq_true,
      decide_eq_true_eq] at hu hw
    -- two widths at `j` are both the new one, since there was none before
    by_cases here : (Positions.single j).has i = true
    · obtain rfl : j.val = i := by
        simp only [Positions.has_single, Bool.and_eq_true, decide_eq_true_eq] at here
        exact here.2
      have none := widthAt_eq_none_iff.1 fresh
      exact ne ((hu.resolve_left (none u)).1.symm.trans (hw.resolve_left (none w)).1)
    · have elsewhere {v' : EdgeWidth} : ¬ (v = v' ∧ (Positions.single j).has i = true) :=
        fun h => here h.2
      exact alone i ⟨u, w, ne, hu.resolve_right elsewhere, hw.resolve_right elsewhere⟩

/-! ## Many edits -/

theorem stands_cons : m.Stands (e :: edits) i w ↔ (e.apply m).Stands edits i w := by
  rw [Stands, Stands, EdgeEdit.leaves_cons, has_apply, List.forall_mem_cons]
  grind

theorem has_edited : ((m.edited edits).withWidth w).has i = true ↔ m.Stands edits i w := by
  induction edits generalizing m with
  | nil => simp [edited, Stands, EdgeEdit.not_leaves_nil]
  | cons e edits ih => exact ih.trans stands_cons.symm

theorem overlaps_edited (alone : m.overlaps = 0) (fresh : m.SetsFresh edits) :
    (m.edited edits).overlaps = 0 := by
  induction edits generalizing m with
  | nil => exact alone
  | cons e edits ih => exact ih (overlaps_apply alone fresh.1) fresh.2

theorem SetsFresh.take (fresh : m.SetsFresh edits) (n : Nat) : m.SetsFresh (edits.take n) := by
  induction edits generalizing m n with
  | nil => rwa [List.take_nil]
  | cons e edits ih =>
    cases n with
    | zero => trivial
    | succ n => exact ⟨fresh.1, ih fresh.2 n⟩

theorem stands_empty : empty.Stands edits i w ↔ EdgeEdit.Leaves edits i w := by
  refine or_iff_right fun h => ?_
  have none : (empty.withWidth w).has i = false := by
    cases w <;> exact Positions.has_zero i
  rw [none] at h
  exact Bool.false_ne_true h.1

/-- After any edits, the width of a position is the greatest one that stands there, the union has
the positions that have a width, and the overlaps are the positions where several stand. Edits of
the empty map that only set widths where there is none never make an overlap, and leave every
position with the width that was set there. -/
theorem edited_exact (m : EdgeMap) (edits : List EdgeEdit) :
    (∀ (i : Fin 64) w, (m.edited edits).widthAt i = some w ↔
      m.Stands edits i w ∧ ∀ v, m.Stands edits i v → v.taps ≤ w.taps) ∧
    (∀ i : Fin 64, (m.edited edits).widthAt i = none ↔ ∀ w, ¬ m.Stands edits i w) ∧
    (∀ i : Fin 64, (m.edited edits).union.has i = true ↔
      ∃ w, (m.edited edits).widthAt i = some w) ∧
    (∀ i : Fin 64, (m.edited edits).overlaps.has i = true ↔
      ∃ v w, v ≠ w ∧ m.Stands edits i v ∧ m.Stands edits i w) ∧
    (empty.SetsFresh edits →
      (∀ n, (empty.edited (edits.take n)).overlaps = 0) ∧ (empty.edited edits).overlaps = 0 ∧
      ∀ (i : Fin 64) w,
        (empty.edited edits).widthAt i = some w ↔ EdgeEdit.Leaves edits i w) := by
  refine ⟨fun i w => ?_, fun i => ?_, fun i => ?_, fun i => ?_, fun fresh => ⟨fun n => ?_, ?_⟩⟩
  · simp only [widthAt_eq_some_iff_greatest, has_edited]
  · simp only [widthAt_eq_none_iff, has_edited]
  · rw [← isSome_widthAt, Option.isSome_iff_exists]
  · simp only [has_overlaps, Contested, has_edited]
  · exact overlaps_edited rfl (fresh.take n)
  · have alone := overlaps_edited rfl fresh
    refine ⟨alone, fun i w => ?_⟩
    rw [widthAt_eq_some_iff alone, has_edited, stands_empty]

def replacingEdits : List EdgeEdit :=
  [.set 9 .wide, .set 10 .medium, .clear (.single 9), .set 9 .narrow]

theorem edited_replacing :
    empty.SetsFresh replacingEdits ∧ (empty.edited replacingEdits).overlaps = 0 ∧
    (empty.edited replacingEdits).widthAt 9 = some .narrow ∧
    (empty.edited replacingEdits).widthAt 10 = some .medium := by
  obtain ⟨-, -, -, -, exact⟩ := edited_exact empty replacingEdits
  have fresh : empty.SetsFresh replacingEdits := by decide
  obtain ⟨-, alone, width⟩ := exact fresh
  refine ⟨fresh, alone, (width 9 .narrow).2 ?_, (width 10 .medium).2 ?_⟩
  · exact ⟨[.set 9 .wide, .set 10 .medium, .clear (.single 9)], [], rfl, by simp⟩
  · refine ⟨[.set 9 .wide], [.clear (.single 9), .set 9 .narrow], rfl, ?_⟩
    simp [EdgeEdit.Clears, Positions.has_single]

end EdgeMap

end BlockVideo
