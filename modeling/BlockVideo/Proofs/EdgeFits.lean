import BlockVideo.EdgePlan

/-!
# Edges that fit a line

An edge fits a line when the samples that its filter may look at lie on the line, `reach` of them on
each side. An edge that fits is filtered without a fault, and so are any number of them in turn.
-/

namespace BlockVideo

variable {n : Nat}

namespace EdgeFilter

theorem filterActive_total {w : EdgeWidth} {line : Vector UInt8 n} (h : 2 * w.reach ≤ n)
    (variance : Nat) : ∃ v, filterActive w variance line = .ok v := by
  have hr := w.four_le_reach
  simp only [filterActive, Run.window_eq_ok (show w.reach - 4 + 8 ≤ n by omega), bind, Except.bind]
  split
  · split
    · next hw =>
      subst hw
      have h16 : 16 ≤ n := h
      rw [Run.window_eq_ok (show 0 + 16 ≤ n by omega)]
      simp only
      split
      · rw [Run.replace_eq_ok (show 0 + (2 * 7 + 2) ≤ n by omega)]
        exact ⟨_, rfl⟩
      · exact ⟨_, Run.replace_eq_ok (show _ + (2 * 3 + 2) ≤ n by omega)⟩
    · exact ⟨_, Run.replace_eq_ok (show _ + (2 * 3 + 2) ≤ n by omega)⟩
  · exact ⟨_, Run.replace_eq_ok (show _ + 8 ≤ n by omega)⟩

theorem filter_total {w : EdgeWidth} (line : Vector UInt8 n) (h : 2 * w.reach ≤ n)
    (t : Thresholds) : ∃ v, filter w t line = .ok v := by
  have hr := w.four_le_reach
  unfold filter
  rw [Run.window_eq_ok (show w.reach - 4 + 8 ≤ n by omega)]
  simp only [bind, Except.bind]
  split
  · exact filterActive_total h _
  · exact ⟨line, rfl⟩

end EdgeFilter

namespace Edge

/-- The filter of the edge stays on a line of `n` samples. -/
structure Fits (n : Nat) (e : Edge) : Prop where
  before : e.width.reach ≤ e.position
  behind : e.position + e.width.reach ≤ n

theorem Fits.apply {e : Edge} (h : e.Fits n) (s : Vector UInt8 n) : ∃ v, e.apply s = .ok v := by
  have hb := h.before
  have := h.behind
  obtain ⟨v, hv⟩ := EdgeFilter.filter_total (w := e.width) (Vector.ofFn fun i :
    Fin (2 * e.width.reach) => s[e.position - e.width.reach + i.val]) (Nat.le_refl _) e.thresholds
  refine ⟨Run.overwrite s (e.position - e.width.reach) v.get, ?_⟩
  rw [Edge.apply, if_pos hb]
  simp only
  rw [Run.window_eq_ok (by omega), ← Run.replace_eq_ok (by omega)]
  simp only [bind, Except.bind, hv]

theorem applyAll_append (es fs : List Edge) (line : Vector UInt8 n) :
    applyAll (es ++ fs) line = applyAll es line >>= applyAll fs :=
  List.foldlM_append

theorem applyAll_total {es : List Edge} (h : ∀ e ∈ es, e.Fits n) (line : Vector UInt8 n) :
    ∃ v, applyAll es line = .ok v :=
  foldlM_total (fun e he => (h e he).apply) line

end Edge

end BlockVideo
