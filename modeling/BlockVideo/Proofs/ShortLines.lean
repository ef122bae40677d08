import BlockVideo.Proofs.FilterFormula

/-!
# Short lines

A filter takes its core first, and the rest of the line only to smooth all of it. So a line that
ends before the reach of a wide filter can still be filtered: it must hold the core, and the core
must not be active and flat at once. In all other cases the line is too short for what is taken, and
there is no answer (`EdgeFilter.filter_fault_iff`).
-/

namespace BlockVideo

namespace EdgeFilter

open Around

variable {n : Nat} {w : EdgeWidth} {line : Vector UInt8 n} {t : Thresholds}

theorem filter_without_core (short : n < w.reach + 4) :
    filter w t line = .error (.runOutside (w.reach - 4 : Nat) 8 n) := by
  have hr := w.four_le_reach
  have missing : Run.window line (w.reach - 4) 8 = .error (.runOutside (w.reach - 4 : Nat) 8 n) :=
    dif_neg (by omega)
  rw [filter, missing]
  rfl

theorem filter_without_rest (core : w.reach + 4 ≤ n) (short : n < 2 * w.reach)
    (active : (ofLine line w.reach).Active t) (flat : (ofLine line w.reach).Flat) :
    filter w t line = .error (.runOutside 0 16 n) := by
  obtain ⟨samples, taken, onCore⟩ := (ofLine_on line w.reach).core core
  have wide : w = .wide := by
    cases w with
    | narrow | medium => exact absurd (Nat.lt_of_le_of_lt core short) (by decide)
    | wide => rfl
  subst wide
  have missing : Run.window line 0 16 = .error (.runOutside 0 16 n) := dif_neg (Nat.not_le.2 short)
  rw [filter_eq_of_core taken, if_pos ((active_iff onCore).2 active)]
  simp only [filterActive, taken, missing, bind, Except.bind, (flat_iff onCore).2 flat, if_true,
    ne_eq, reduceCtorEq, not_false_eq_true, and_self]

/-- A filter has no answer for a line without a whole core, and for a line that is shorter than its
reach asks for when the core is active and flat. For the narrow and the medium filter, which reach
no further than the core, these are the lines that are too short. -/
theorem filter_fault_iff (w : EdgeWidth) (t : Thresholds) (line : Vector UInt8 n) :
    ((∃ f, filter w t line = .error f) ↔ n < w.reach + 4 ∨
      n < 2 * w.reach ∧ (ofLine line w.reach).Active t ∧ (ofLine line w.reach).Flat) ∧
    (w ≠ .wide → ((∃ f, filter w t line = .error f) ↔ n < 2 * w.reach)) := by
  have fault_iff : (∃ f, filter w t line = .error f) ↔ n < w.reach + 4 ∨
      n < 2 * w.reach ∧ (ofLine line w.reach).Active t ∧ (ofLine line w.reach).Flat := by
    constructor
    · rintro ⟨f, hf⟩
      by_contra answered
      rw [not_or, Nat.not_lt] at answered
      obtain ⟨v, hv, -⟩ := filter_on_of_core (ofLine_on line w.reach) answered.1 fun active flat =>
        Nat.le_of_not_lt fun short => answered.2 ⟨short, active, flat⟩
      cases hv.symm.trans hf
    · rintro (short | ⟨short, active, flat⟩)
      · exact ⟨_, filter_without_core short⟩
      · by_cases core : w.reach + 4 ≤ n
        · exact ⟨_, filter_without_rest core short active flat⟩
        · exact ⟨_, filter_without_core (Nat.lt_of_not_le core)⟩
  refine ⟨fault_iff, fun notWide => fault_iff.trans ?_⟩
  have reach : w.reach = 4 := by
    cases w with
    | narrow | medium => rfl
    | wide => exact absurd rfl notWide
  omega

def levelLine : Vector UInt8 15 := .replicate 15 90

theorem filter_levelLine :
    (∃ f, filter .wide ⟨40, 10, 2⟩ levelLine = .error f) ∧ EdgeWidth.medium ≠ .wide ∧
    ¬ ∃ f, filter .medium ⟨40, 10, 2⟩ levelLine = .error f := by
  have wide := (filter_fault_iff .wide ⟨40, 10, 2⟩ levelLine).1
  have medium := (filter_fault_iff .medium ⟨40, 10, 2⟩ levelLine).2 (by decide)
  exact ⟨wide.2 (.inr ⟨by decide, by decide, by decide⟩), by decide,
    fun fault => absurd (medium.1 fault) (by decide)⟩

def cutLine : Vector UInt8 12 := #v[0, 0, 0, 0, 0, 0, 0, 0, 255, 255, 255, 255]

/-- The line is shorter than the reach of the filter asks for, and it is answered. -/
theorem filter_cutLine_answered :
    filter .wide ⟨100, 10, 5⟩ cutLine = .ok cutLine ∧
    ¬ ((∃ f, filter .wide ⟨100, 10, 5⟩ cutLine = .error f) ↔ 12 < 2 * EdgeWidth.wide.reach) := by
  have answer : filter .wide ⟨100, 10, 5⟩ cutLine = .ok cutLine := rfl
  refine ⟨answer, fun short => ?_⟩
  obtain ⟨f, hf⟩ := short.2 (by decide)
  cases answer.symm.trans hf

end EdgeFilter

end BlockVideo
