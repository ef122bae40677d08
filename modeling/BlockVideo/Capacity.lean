import BlockVideo.Fault

/-!
# Capacity

No buffer has more bytes than the greatest signed 64-bit word. Room for a buffer is asked for before
anything is put into it, and asking for more than that is a fault, also where the number of bytes is
no word at all.
-/

namespace BlockVideo.Capacity

/-- The bytes of the largest buffer. -/
def limit : Nat := UInt64.size / 2 - 1

/-- Asks for room for `count` entries of `bytes` bytes each. -/
def require (count bytes : Nat) : Checked Unit :=
  if count * bytes ≤ limit then .ok () else .error (.tooLarge count bytes)

theorem require_eq_ok_iff {count bytes : Nat} :
    require count bytes = .ok () ↔ count * bytes ≤ limit := by
  unfold require
  split <;> simp_all

section Given

variable {α : Type} {count bytes : Nat} {a b : α}

theorem require_return_eq_ok_iff :
    (do require count bytes; return a) = .ok b ↔ count * bytes ≤ limit ∧ b = a := by
  rw [bind_unit_eq_ok_iff, require_eq_ok_iff]
  exact and_congr_right fun _ => ⟨fun e => (Except.ok.inj e).symm, fun e => congrArg _ e.symm⟩

theorem exists_require_return_eq_error_iff :
    (∃ f, (do require count bytes; return a) = .error f) ↔ limit < count * bytes := by
  unfold require
  split
  · next room => exact iff_of_false (fun ⟨_, e⟩ => nomatch e) (Nat.not_lt.2 room)
  · next full => exact iff_of_true ⟨_, rfl⟩ (Nat.lt_of_not_le full)

end Given

end BlockVideo.Capacity
