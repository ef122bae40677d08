/-!
# Faults

A fault is a step that has no answer: a sample taken outside its buffer, a cut into pieces of no
length, or a buffer larger than memory can address. A refused request is different: it is an answer,
and `Error` says which.

The arithmetic of sizes and coordinates is that of a build which checks it: a sum, a difference or
a product that its word cannot hold is a fault. Only a word that is read as one of another kind
wraps. Places inside a buffer are words, and a place that is no word is outside of every buffer, so
a step that ends in a test against the size of a buffer needs no check of its own.
-/

namespace BlockVideo

inductive Fault where
  /-- Row `y` of a plane with `height` rows. -/
  | rowOutside (y height : Nat)
  /-- `length` samples from `start` on, of a buffer that has `size`. -/
  | runOutside (start : Int) (length size : Nat)
  /-- Rows that start zero samples apart. -/
  | emptyStride
  /-- Blocks with sides of no length. -/
  | emptyBlock
  /-- A level for a position that no superblock has. -/
  | levelOutside (index : Nat)
  /-- `count` entries of `bytes` bytes each, more than any buffer can hold. -/
  | tooLarge (count bytes : Nat)
  /-- A result that is no word. -/
  | overflow (value : Int)
  deriving DecidableEq, Repr

abbrev Checked := Except Fault

theorem bind_eq_ok_iff {ε α β : Type} {x : Except ε α} {f : α → Except ε β} {b : β} :
    x >>= f = .ok b ↔ ∃ a, x = .ok a ∧ f a = .ok b := by
  cases x <;> simp [bind, Except.bind]

theorem bind_unit_eq_ok_iff {ε β : Type} {x : Except ε Unit} {f : Unit → Except ε β} {b : β} :
    x >>= f = .ok b ↔ x = .ok () ∧ f () = .ok b :=
  bind_eq_ok_iff.trans ⟨fun ⟨_, h⟩ => h, fun h => ⟨(), h⟩⟩

theorem bind_eq_error_iff {ε α β : Type} {x : Except ε α} {f : α → Except ε β} {e : ε} :
    x >>= f = .error e ↔ x = .error e ∨ ∃ a, x = .ok a ∧ f a = .error e := by
  cases x <;> simp [bind, Except.bind]

theorem exists_error_iff {ε α : Type} {x : Except ε α} :
    (∃ e, x = .error e) ↔ ¬ ∃ a, x = .ok a := by
  cases x <;> simp

theorem foldlM_total {ε α β : Type} {step : β → α → Except ε β} {as : List α}
    (h : ∀ a ∈ as, ∀ b, ∃ c, step b a = .ok c) (b : β) : ∃ c, as.foldlM step b = .ok c := by
  induction as generalizing b with
  | nil => exact ⟨b, rfl⟩
  | cons a as ih =>
    obtain ⟨c, hc⟩ := h a List.mem_cons_self b
    obtain ⟨d, hd⟩ := ih (fun e he => h e (List.mem_cons_of_mem _ he)) c
    exact ⟨d, bind_eq_ok_iff.2 ⟨c, hc, hd⟩⟩

/-- A loop over the numbers below `n` with an invariant, indexed by the number of steps. -/
theorem foldlM_invariant {ε α : Type} {n : Nat} (invariant : Nat → α → Prop)
    (step : α → Fin n → Except ε α) (a : α) (start : invariant 0 a)
    (next : ∀ (i : Fin n) b, invariant i b → ∃ c, step b i = .ok c ∧ invariant (i + 1) c) :
    ∃ c, (List.finRange n).foldlM step a = .ok c ∧ invariant n c := by
  induction n with
  | zero => exact ⟨a, rfl, start⟩
  | succ n ih =>
    obtain ⟨b, hb, done⟩ := ih (fun b i => step b i.castSucc) fun i => next i.castSucc
    obtain ⟨c, hc, last⟩ := next (Fin.last n) b done
    refine ⟨c, ?_, last⟩
    rw [List.finRange_succ_last, List.foldlM_append, List.foldlM_map, hb]
    exact bind_eq_ok_iff.2 ⟨b, rfl, bind_eq_ok_iff.2 ⟨c, hc, rfl⟩⟩

/-- A loop whose states are shown by `g` step by step is shown by `g` as a whole. -/
theorem foldlM_map_state {ε α β γ : Type} {g : β → γ} {step : β → α → Except ε β}
    {step' : γ → α → Except ε γ} (h : ∀ b a, step' (g b) a = do return g (← step b a))
    (as : List α) (b : β) : as.foldlM step' (g b) = do return g (← as.foldlM step b) := by
  induction as generalizing b with
  | nil => rfl
  | cons a as ih =>
    rw [List.foldlM_cons, List.foldlM_cons, h]
    cases step b a with
    | error e => rfl
    | ok c => exact ih c

theorem exists_step_of_foldlM {ε α β : Type} {step : β → α → Except ε β} {as : List α} {b c : β}
    (h : as.foldlM step b = .ok c) {a : α} (ha : a ∈ as) : ∃ s t, step s a = .ok t := by
  induction as generalizing b with
  | nil => cases ha
  | cons a' as ih =>
    obtain ⟨t, first, rest⟩ := bind_eq_ok_iff.1 h
    rcases List.mem_cons.1 ha with rfl | ha
    · exact ⟨b, t, first⟩
    · exact ih rest ha

end BlockVideo
