import Mathlib.Tactic.Choose
import BlockVideo.Proofs.EdgeFits
import BlockVideo.Proofs.Plane.Lines

/-!
# Filtered planes

`Filtered o edges p q`: plane `q` is plane `p` after the edges `edges i` have been filtered on every
line `i`, in turn. What happens to one line does not depend on the others, so the order in which a
loop visits lines does not show: `foldlM_eq_ok_iff` reads a loop off from its steps, and leaves
only the edges that each line gets, in their order.
-/

namespace BlockVideo

variable {l : Layout} {o : Orientation}

/-- `q` is `p` with the edges of every line filtered. -/
structure Filtered (o : Orientation) (edges : Fin (l.lineCount o) → List Edge) (p q : Plane l) :
    Prop where
  line : ∀ i, Edge.applyAll (edges i) (p.line o i) = .ok (q.line o i)
  off : p.AgreeOff q

namespace Filtered

variable {edges edges' : Fin (l.lineCount o) → List Edge} {p q r : Plane l}

theorem nil_iff : Filtered o (fun _ => []) p q ↔ p = q := by
  constructor
  · intro h
    exact Plane.ext_lines o (fun i => Except.ok.inj (h.line i)) h.off
  · rintro rfl
    exact ⟨fun _ => rfl, .refl p⟩

/-- Filtering with two lists of edges is filtering with one and then with the other. -/
theorem append_iff :
    Filtered o (fun i => edges i ++ edges' i) p r ↔
      ∃ q, Filtered o edges p q ∧ Filtered o edges' q r := by
  constructor
  · intro h
    have step : ∀ i, ∃ v, Edge.applyAll (edges i) (p.line o i) = .ok v ∧
        Edge.applyAll (edges' i) v = .ok (r.line o i) := fun i => by
      have e := h.line i
      rw [Edge.applyAll_append] at e
      exact bind_eq_ok_iff.1 e
    choose v hv hv' using step
    obtain ⟨q, hq, off⟩ := p.exists_lines v
    refine ⟨q, ⟨fun i => ?_, off⟩, ⟨fun i => ?_, off.symm.trans h.off⟩⟩
    · rw [hq, hv]
    · rw [hq, hv']
  · rintro ⟨q, h, h'⟩
    refine ⟨fun i => ?_, h.off.trans h'.off⟩
    rw [Edge.applyAll_append]
    exact bind_eq_ok_iff.2 ⟨_, h.line i, h'.line i⟩

theorem exists_of_fits (h : ∀ i, ∀ e ∈ edges i, e.Fits (l.lineLength o)) (p : Plane l) :
    ∃ q, Filtered o edges p q := by
  choose v hv using fun i => Edge.applyAll_total (h i) (p.line o i)
  obtain ⟨q, hq, off⟩ := p.exists_lines v
  exact ⟨q, fun i => by rw [hq, hv], off⟩

end Filtered

theorem Plane.editLine_eq_ok_iff {p q : Plane l} {i : Fin (l.lineCount o)} {es : List Edge} :
    p.editLine o i (Edge.applyAll es) = .ok q ↔
      Filtered o (fun k => if k = i then es else []) p q := by
  constructor
  · intro h
    obtain ⟨v, hv, e⟩ := bind_eq_ok_iff.1 h
    cases e
    refine ⟨fun k => ?_, p.agreeOff_setLine i v⟩
    by_cases hk : k = i
    · subst hk
      rw [if_pos rfl, hv, p.line_setLine]
    · rw [if_neg hk, p.line_setLine_of_ne v (Ne.symm hk)]
      rfl
  · intro h
    have hi := h.line i
    rw [if_pos rfl] at hi
    rw [Plane.editLine_eq_ok hi]
    congr 1
    refine Plane.ext_lines o (fun k => ?_) ((p.agreeOff_setLine i _).symm.trans h.off)
    by_cases hk : k = i
    · subst hk
      exact p.line_setLine o k _
    · have hk' := h.line k
      rw [if_neg hk] at hk'
      rw [p.line_setLine_of_ne _ (Ne.symm hk)]
      exact Except.ok.inj hk'

/-- A loop filters on each line the edges that its steps filter there, in the order of the steps. -/
theorem Filtered.foldlM_eq_ok_iff {α ε : Type} {tasks : List α}
    {step : Plane l → α → Except ε (Plane l)} {edges : α → Fin (l.lineCount o) → List Edge}
    (h : ∀ t ∈ tasks, ∀ p q, step p t = .ok q ↔ Filtered o (edges t) p q) (p q : Plane l) :
    tasks.foldlM step p = .ok q ↔ Filtered o (fun i => tasks.flatMap fun t => edges t i) p q := by
  induction tasks generalizing p with
  | nil =>
    refine Iff.trans ?_ Filtered.nil_iff.symm
    exact ⟨fun e => Except.ok.inj e, fun e => congrArg _ e⟩
  | cons t tasks ih =>
    simp only [List.foldlM_cons, bind_eq_ok_iff, List.flatMap_cons, Filtered.append_iff,
      h t List.mem_cons_self, ih fun u hu => h u (List.mem_cons_of_mem _ hu)]

end BlockVideo
