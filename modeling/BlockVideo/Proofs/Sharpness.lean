import BlockVideo.Proofs.EdgeFits

/-!
# Sharpness

A sharper frame has tighter bounds. The interior bound falls with the sharpness, the bound on the
step across the edge falls with it, and the bound on the variance is the same
(`Thresholds.forLevel_tightens`). The first two bounds occur in the activity test only, and a core
that passes it under tighter bounds passes it under wider ones. So sharpness decides whether an edge
is filtered, and never how (`EdgeFilter.filter_sharper`).
-/

namespace BlockVideo

namespace Thresholds

/-- `t'` has the tighter bounds on activity, and the same bound on the variance. -/
structure Tightens (t' t : Thresholds) : Prop where
  edge_le : t'.edge ≤ t.edge
  interior_le : t'.interior ≤ t.interior
  variance_eq : t'.variance = t.variance

variable {s s' : Nat}

theorem halvings_le (h : s ≤ s') : halvings s ≤ halvings s' := by
  have step (k : Nat) : (if k < s then 1 else 0) ≤ if k < s' then 1 else 0 := by
    split
    · next hk => exact Nat.le_of_eq (if_pos (Nat.lt_of_lt_of_le hk h)).symm
    · exact Nat.zero_le _
  exact Nat.add_le_add (step 0) (step 4)

/-- The halvings and the cap both lower the bound. An unsharpened frame has no cap. -/
theorem interiorBound_le (level : Nat) (h : s ≤ s') :
    interiorBound level s' ≤ interiorBound level s := by
  have halved : level >>> halvings s' ≤ level >>> halvings s := by
    rw [Nat.shiftRight_eq_div_pow, Nat.shiftRight_eq_div_pow]
    exact Nat.div_le_div_left (Nat.pow_le_pow_right (by decide) (halvings_le h))
      (Nat.two_pow_pos _)
  simp only [interiorBound]
  by_cases plain : 0 < s
  · rw [if_pos plain, if_pos (by omega)]
    omega
  · rw [if_neg plain]
    split <;> omega

theorem forLevel_tightens (level : Nat) (h : s ≤ s') :
    (forLevel level s').Tightens (forLevel level s) := by
  have held : min s maxSharpness ≤ min s' maxSharpness := by omega
  have interior := interiorBound_le (min level (levels - 1)) held
  exact ⟨Nat.add_le_add_left interior _, interior, rfl⟩

end Thresholds

namespace EdgeFilter

variable {t t' : Thresholds} {core : Vector UInt8 8} {n : Nat} {w : EdgeWidth}

theorem active_of_tightens (h : t'.Tightens t) (active' : active t' core = true) :
    active t core = true := by
  obtain ⟨edge, interior, -⟩ := h
  simp only [active, Bool.and_eq_true, decide_eq_true_eq] at active' ⊢
  omega

/-- At a greater sharpness, the filter leaves what it leaves at the smaller one where the core
passes the activity test, and the line as it is elsewhere. What fails the test at the smaller
sharpness fails it at the greater one. -/
theorem filter_sharper (line : Vector UInt8 n) (fits : 2 * w.reach ≤ n) (level : Nat)
    {s s' : Nat} (sharper : s ≤ s') :
    ∃ core v, Run.window line (w.reach - 4) 8 = .ok core ∧
      filter w (.forLevel level s) line = .ok v ∧
      filter w (.forLevel level s') line =
        .ok (if active (.forLevel level s') core then v else line) ∧
      (active (.forLevel level s) core = false → active (.forLevel level s') core = false) := by
  have hr := w.four_le_reach
  have tightens := Thresholds.forLevel_tightens level sharper
  obtain ⟨core, hcore⟩ := Run.window_isOk_iff.2 (show w.reach - 4 + 8 ≤ n by omega)
  obtain ⟨v, hv⟩ := filter_total line fits (.forLevel level s)
  refine ⟨core, v, hcore, hv, ?_, fun inactive => ?_⟩
  · rw [filter_eq_of_core hcore] at hv ⊢
    by_cases active' : active (.forLevel level s') core = true
    · rw [if_pos (active_of_tightens tightens active')] at hv
      rw [if_pos active', if_pos active', tightens.variance_eq, hv]
    · rw [if_neg active', if_neg active']
  · rw [← Bool.not_eq_true] at inactive ⊢
    exact fun active' => inactive (active_of_tightens tightens active')

def rippleLine : Vector UInt8 8 := #v[100, 103, 100, 103, 110, 113, 110, 113]

/-- At level 40 the interior bound is 40, then 6, and 2 at the greatest sharpness. -/
theorem filter_rippleLine :
    2 * EdgeWidth.narrow.reach ≤ 8 ∧ 0 ≤ 3 ∧ 3 ≤ 7 ∧
    ∃ v, v = #v[100, 103, 100, 104, 109, 113, 110, 113] ∧
      filter .narrow (.forLevel 40 0) rippleLine = .ok v ∧
      filter .narrow (.forLevel 40 3) rippleLine = .ok v ∧
      filter .narrow (.forLevel 40 7) rippleLine = .ok rippleLine := by
  obtain ⟨core, v, hcore, soft, medium, -⟩ :=
    filter_sharper (w := .narrow) rippleLine (by decide) 40 (show 0 ≤ 3 by decide)
  obtain ⟨core', u, hcore', -, sharp, -⟩ :=
    filter_sharper (w := .narrow) rippleLine (by decide) 40 (show 3 ≤ 7 by decide)
  have whole : Run.window rippleLine 0 8 = .ok rippleLine := rfl
  cases whole.symm.trans hcore
  cases whole.symm.trans hcore'
  have passes : active (.forLevel 40 3) rippleLine = true := by decide
  have fails : ¬ active (.forLevel 40 7) rippleLine = true := by decide
  rw [if_pos passes] at medium
  rw [if_neg fails] at sharp
  exact ⟨by decide, by decide, by decide, v, Except.ok.inj (soft.symm.trans rfl), soft, medium,
    sharp⟩

end EdgeFilter

end BlockVideo
