import BlockVideo.Outcome

/-!
# Work in place

A caller hands over a buffer, and has it back even when the request is stopped. So work in place
leaves a state whatever its end is, and what was written before a stop stays written.

The other modules have functions that give a new state, and none when they stop. `Realizes` ties
work in place to such a function: it ends as the function does and leaves the state that the
function gives, and a refusal leaves the state as it was. How a fault leaves the state is not said.
Work that makes all its checks first and only writes from then on is put together by a few rules:
`Realizes.checked` for checks, `Realizes.andThen`, `Realizes.forM` and `Realizes.onPart` for writes.
-/

namespace BlockVideo

/-- Work on a state of type `σ`. -/
abbrev InPlace (σ : Type) := ExceptT Stop (StateM σ)

namespace InPlace

variable {σ τ α β : Type}

/-- How the work ends, and the state that it leaves. -/
def exec (m : InPlace σ α) (s : σ) : Outcome α × σ := Id.run (StateT.run (ExceptT.run m) s)

/-- Goes on with the value of `x`, and writes nothing. -/
def ofOutcome (x : Outcome α) : InPlace σ α := ExceptT.mk (pure x)

def write (f : σ → Checked σ) : InPlace σ Unit :=
  ExceptT.mk fun s =>
    match f s with
    | .ok t => (.ok (), t)
    | .error e => (.error (.fault e), s)

def onPart (get : σ → τ) (put : σ → τ → σ) (m : InPlace τ α) : InPlace σ α :=
  ExceptT.mk fun s => ((m.exec (get s)).1, put s (m.exec (get s)).2)

theorem exec_onPart (get : σ → τ) (put : σ → τ → σ) (m : InPlace τ α) (s : σ) :
    (onPart get put m).exec s = ((m.exec (get s)).1, put s (m.exec (get s)).2) := rfl

theorem exec_bind (m : InPlace σ α) (k : α → InPlace σ β) (s : σ) :
    exec (m >>= k) s =
      match m.exec s with
      | (.ok a, t) => (k a).exec t
      | (.error e, t) => (.error e, t) := by
  unfold exec ExceptT.run StateT.run Id.run
  simp only [bind, ExceptT.bind, ExceptT.mk, StateT.bind, ExceptT.bindCont]
  rcases m s with ⟨_ | _, _⟩ <;> rfl

theorem exec_bind_of_ok {m : InPlace σ α} {k : α → InPlace σ β} {s t : σ} {a : α}
    (h : m.exec s = (.ok a, t)) : exec (m >>= k) s = (k a).exec t := by
  rw [exec_bind, h]

theorem exec_bind_of_error {m : InPlace σ α} {k : α → InPlace σ β} {s t : σ} {e : Stop}
    (h : m.exec s = (.error e, t)) : exec (m >>= k) s = (.error e, t) := by
  rw [exec_bind, h]

/-- The work ends as `f` does and leaves the state that `f` gives. When it is refused, it leaves the
state as it was. -/
structure Realizes (m : InPlace σ Unit) (f : σ → Outcome σ) : Prop where
  done : ∀ {s t}, f s = .ok t → m.exec s = (.ok (), t)
  refused : ∀ {s e}, f s = .error (.refused e) → m.exec s = (.error (.refused e), s)
  faulted : ∀ {s e}, f s = .error (.fault e) → (m.exec s).1 = .error (.fault e)

namespace Realizes

theorem pure : Realizes (Pure.pure () : InPlace σ Unit) .ok :=
  ⟨fun h => by cases h; rfl, nofun, nofun⟩

theorem write (f : σ → Checked σ) : Realizes (write f) fun s => Outcome.ofChecked (f s) where
  done {s t} h := by
    have h : f s = .ok t := Outcome.ofChecked_eq_ok_iff.1 h
    exact congrArg (fun x => exec (InPlace.write fun _ => x) s) h
  refused h := absurd h Outcome.ofChecked_ne_refused
  faulted {s e} h := by
    have h : f s = .error e := Outcome.ofChecked_eq_fault_iff.1 h
    exact congrArg (fun x => (exec (InPlace.write fun _ => x) s).1) h

theorem checked {x : Outcome α} {k : α → InPlace σ Unit} {f : α → σ → Outcome σ}
    (h : ∀ a, Realizes (k a) (f a)) :
    Realizes (ofOutcome x >>= k) fun s => x >>= fun a => f a s := by
  rcases x with _ | a
  · exact ⟨nofun, fun h => by cases h; rfl, fun h => by cases h; rfl⟩
  · exact ⟨(h a).done, (h a).refused, (h a).faulted⟩

/-- Writes that follow each other. None of them is refused, so nothing has to be taken back. -/
theorem andThen {m m' : InPlace σ Unit} {f g : σ → Checked σ}
    (h : Realizes m fun s => Outcome.ofChecked (f s))
    (h' : Realizes m' fun s => Outcome.ofChecked (g s)) :
    Realizes (do m; m') fun s => Outcome.ofChecked (f s >>= g) where
  done {s t} hs := by
    obtain ⟨u, hu, ht⟩ := bind_eq_ok_iff.1 (Outcome.ofChecked_eq_ok_iff.1 hs)
    rw [exec_bind_of_ok (h.done (Outcome.ofChecked_eq_ok_iff.2 hu))]
    exact h'.done (Outcome.ofChecked_eq_ok_iff.2 ht)
  refused hs := absurd hs Outcome.ofChecked_ne_refused
  faulted {s e} hs := by
    rcases bind_eq_error_iff.1 (Outcome.ofChecked_eq_fault_iff.1 hs) with hu | ⟨u, hu, hg⟩
    · have first := h.faulted (Outcome.ofChecked_eq_fault_iff.2 hu)
      have stopped : m.exec s = (.error (.fault e), (m.exec s).2) := Prod.ext first rfl
      rw [exec_bind_of_error stopped]
    · rw [exec_bind_of_ok (h.done (Outcome.ofChecked_eq_ok_iff.2 hu))]
      exact h'.faulted (Outcome.ofChecked_eq_fault_iff.2 hg)

theorem forM {ι : Type} {m : ι → InPlace σ Unit} {step : σ → ι → Checked σ}
    (h : ∀ t, Realizes (m t) fun s => Outcome.ofChecked (step s t)) (tasks : List ι) :
    Realizes (tasks.forM m) fun s => Outcome.ofChecked (tasks.foldlM step s) := by
  induction tasks with
  | nil => exact pure
  | cons t tasks ih =>
    simp only [List.foldlM_cons]
    exact (h t).andThen ih

theorem onPart {get : σ → τ} {put : σ → τ → σ} {m : InPlace τ Unit} {f : τ → Checked τ}
    (h : Realizes m fun t => Outcome.ofChecked (f t)) :
    Realizes (onPart get put m) fun s => Outcome.ofChecked do return put s (← f (get s)) where
  done {s t} hs := by
    obtain ⟨u, hu, ht⟩ := bind_eq_ok_iff.1 (Outcome.ofChecked_eq_ok_iff.1 hs)
    cases ht
    rw [exec_onPart, h.done (Outcome.ofChecked_eq_ok_iff.2 hu)]
  refused hs := absurd hs Outcome.ofChecked_ne_refused
  faulted {s e} hs := by
    rcases bind_eq_error_iff.1 (Outcome.ofChecked_eq_fault_iff.1 hs) with hu | ⟨u, -, hp⟩
    · rw [exec_onPart]
      exact h.faulted (Outcome.ofChecked_eq_fault_iff.2 hu)
    · cases hp

end Realizes

end InPlace

end BlockVideo
