import BlockVideo.Error
import BlockVideo.Word

/-!
# Outcomes

A request ends with its result, with a refusal, or with a fault. Refusals come first: a check has
type `Option Error`, names the first flaw it finds, and runs before anything is written.
-/

namespace BlockVideo

/-- Why a request has no result. -/
inductive Stop where
  | refused (e : Error)
  | fault (f : Fault)
  deriving DecidableEq, Repr

abbrev Outcome := Except Stop

namespace Outcome

variable {α β : Type}

def unlessFlawed : Option Error → Outcome Unit
  | some e => .error (.refused e)
  | none => .ok ()

def ofExcept : Except Error α → Outcome α
  | .ok a => .ok a
  | .error e => .error (.refused e)

def ofChecked : Checked α → Outcome α
  | .ok a => .ok a
  | .error f => .error (.fault f)

/-- Refuses in words that rest on these sizes. -/
def refuse (sizes : List Nat) (e : Error) : Outcome α := do
  ofChecked (Word.requireSizes sizes)
  .error (.refused e)

/-- Ends with a result or with a refusal. -/
def Answered (x : Outcome α) : Prop := ∀ f, x ≠ .error (.fault f)

def refusal? : Outcome α → Option Error
  | .error (.refused e) => some e
  | _ => none

theorem ofChecked_eq_ok_iff {x : Checked α} {a : α} : ofChecked x = .ok a ↔ x = .ok a := by
  cases x <;> simp [ofChecked]

theorem ofExcept_eq_ok_iff {x : Except Error α} {a : α} : ofExcept x = .ok a ↔ x = .ok a := by
  cases x <;> simp [ofExcept]

theorem ofExcept_bind_eq_fault_iff {x : Except Error α} {k : α → Outcome β} {f : Fault} :
    ofExcept x >>= k = .error (.fault f) ↔ ∃ a, x = .ok a ∧ k a = .error (.fault f) := by
  rw [bind_eq_error_iff]
  cases x <;> simp [ofExcept]

theorem ofChecked_eq_fault_iff {x : Checked α} {f : Fault} :
    ofChecked x = .error (.fault f) ↔ x = .error f := by
  cases x <;> simp [ofChecked]

theorem ofChecked_ne_refused {x : Checked α} {e : Error} : ofChecked x ≠ .error (.refused e) := by
  cases x <;> simp [ofChecked]

theorem unlessFlawed_bind_eq_ok_iff {flaw : Option Error} {k : Unit → Outcome α} {a : α} :
    unlessFlawed flaw >>= k = .ok a ↔ flaw = none ∧ k () = .ok a := by
  cases flaw <;> simp [unlessFlawed, bind, Except.bind]

theorem unlessFlawed_bind_eq_refused_iff {flaw : Option Error} {k : Unit → Outcome α} {e : Error} :
    unlessFlawed flaw >>= k = .error (.refused e) ↔
      flaw = some e ∨ flaw = none ∧ k () = .error (.refused e) := by
  cases flaw <;> simp [unlessFlawed, bind, Except.bind]

theorem ofChecked_bind (x : Checked α) (k : α → Checked β) :
    ofChecked (x >>= k) = ofChecked x >>= fun a => ofChecked (k a) := by
  cases x <;> rfl

theorem refusal?_eq_some_iff {x : Outcome α} {e : Error} :
    x.refusal? = some e ↔ x = .error (.refused e) := by
  rcases x with (_ | _) | _ <;> simp [refusal?]

theorem refusal?_ofChecked (x : Checked α) : (ofChecked x).refusal? = none := by
  cases x <;> rfl

theorem refusal?_ofExcept_bind (x : Except Error α) (k : α → Checked β) :
    (ofExcept x >>= fun a => ofChecked (k a)).refusal? = (ofExcept x).refusal? := by
  cases x with
  | error e => rfl
  | ok a => exact refusal?_ofChecked (k a)

section Refuse

variable {sizes : List Nat} {e : Error}

theorem refuse_ne_ok {a : α} : refuse sizes e ≠ .ok a :=
  fun h => nomatch (bind_unit_eq_ok_iff.1 h).2

theorem refuse_eq_refused_iff {e' : Error} : (refuse sizes e : Outcome α) = .error (.refused e') ↔
    e' = e ∧ ∀ n ∈ sizes, n < UInt64.size := by
  rw [← Word.requireSizes_eq_ok_iff, refuse, bind_eq_error_iff]
  simp only [ofChecked_ne_refused, false_or, ofChecked_eq_ok_iff, Except.error.injEq,
    Stop.refused.injEq]
  exact ⟨fun ⟨_, ok, h⟩ => ⟨h.symm, ok⟩, fun ⟨h, ok⟩ => ⟨(), ok, h.symm⟩⟩

theorem exists_refuse_eq_fault_iff : (∃ f, (refuse sizes e : Outcome α) = .error (.fault f)) ↔
    ∃ n ∈ sizes, UInt64.size ≤ n := by
  rw [← Word.exists_requireSizes_eq_error_iff]
  refine exists_congr fun f => ?_
  rw [refuse, bind_eq_error_iff, ofChecked_eq_fault_iff]
  exact or_iff_left fun ⟨_, _, h⟩ => nomatch h

end Refuse

/-- What is not refused and has no result has met a fault. -/
theorem exists_fault_iff {x : Outcome α} :
    (∃ f, x = .error (.fault f)) ↔ x.refusal? = none ∧ ¬ ∃ a, x = .ok a := by
  rcases x with (_ | _) | _ <;> simp [refusal?]

theorem Answered.ofChecked {x : Checked α} (h : ∃ a, x = .ok a) : (ofChecked x).Answered := by
  obtain ⟨a, rfl⟩ := h
  exact nofun

theorem Answered.bind {x : Outcome α} {k : α → Outcome β} (hx : x.Answered)
    (hk : ∀ a, x = .ok a → (k a).Answered) : (x >>= k).Answered := by
  intro f h
  rcases bind_eq_error_iff.1 h with h | ⟨a, ha, h⟩
  · exact hx f h
  · exact hk a ha f h

theorem answered_unlessFlawed (flaw : Option Error) : (unlessFlawed flaw).Answered := by
  cases flaw <;> exact nofun

theorem Answered.unlessFlawed {flaw : Option Error} {k : Unit → Outcome α}
    (h : flaw = none → (k ()).Answered) : (unlessFlawed flaw >>= k).Answered := by
  cases flaw with
  | some e => exact nofun
  | none => exact h rfl

end Outcome

end BlockVideo
