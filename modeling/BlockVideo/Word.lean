import BlockVideo.Fault

/-!
# 64-bit words

Sizes are unsigned and coordinates are signed words of 64 bits. Both are whole numbers here, and
`requireSizes` and `requireCoordinates` ask that the results of a computation be words. `signed64`
reads a size as the coordinate with its bits; the two agree on the lower half of the range
(`signed64_of_lt`).
-/

namespace BlockVideo

/-- `z` is the value of a signed word. -/
def IsWord (z : Int) : Prop := Int64.minValue.toInt ≤ z ∧ z ≤ Int64.maxValue.toInt

instance (z : Int) : Decidable (IsWord z) := inferInstanceAs (Decidable (_ ∧ _))

namespace Word

section RequireAll

variable {α : Type} {value : α → Int} {fits : α → Bool} {as : List α}

/-- Stops at the first of `as` that does not fit. -/
def requireAll (value : α → Int) (fits : α → Bool) (as : List α) : Checked Unit :=
  match as.find? (!fits ·) with
  | some a => .error (.overflow (value a))
  | none => .ok ()

theorem requireAll_eq_ok_iff : requireAll value fits as = .ok () ↔ ∀ a ∈ as, fits a = true := by
  unfold requireAll
  split
  · next a found =>
    have bad := List.find?_some found
    simp only [Bool.not_eq_true'] at bad
    exact iff_of_false nofun fun h => by simp [h a (List.mem_of_find?_eq_some found)] at bad
  · next none =>
    exact iff_of_true rfl fun a ha => by simpa using List.find?_eq_none.1 none a ha

theorem exists_requireAll_eq_error_iff :
    (∃ f, requireAll value fits as = .error f) ↔ ∃ a ∈ as, fits a = false := by
  have answers : (∃ u, requireAll value fits as = .ok u) ↔ requireAll value fits as = .ok () :=
    ⟨fun ⟨_, h⟩ => h, fun h => ⟨(), h⟩⟩
  rw [exists_error_iff, answers, requireAll_eq_ok_iff]
  simp only [Classical.not_forall, Bool.not_eq_true, exists_prop]

end RequireAll

/-- Asks that these sums and products of sizes be sizes. -/
def requireSizes (ns : List Nat) : Checked Unit :=
  requireAll Int.ofNat (fun n => decide (n < UInt64.size)) ns

/-- Asks that these results of a computation with coordinates be coordinates. -/
def requireCoordinates (zs : List Int) : Checked Unit :=
  requireAll id (fun z => decide (IsWord z)) zs

theorem requireSizes_eq_ok_iff {ns : List Nat} :
    requireSizes ns = .ok () ↔ ∀ n ∈ ns, n < UInt64.size := by
  simp only [requireSizes, requireAll_eq_ok_iff, decide_eq_true_eq]

theorem exists_requireSizes_eq_error_iff {ns : List Nat} :
    (∃ f, requireSizes ns = .error f) ↔ ∃ n ∈ ns, UInt64.size ≤ n := by
  simp only [requireSizes, exists_requireAll_eq_error_iff, decide_eq_false_iff_not, Nat.not_lt]

theorem requireCoordinates_eq_ok_iff {zs : List Int} :
    requireCoordinates zs = .ok () ↔ ∀ z ∈ zs, IsWord z := by
  simp only [requireCoordinates, requireAll_eq_ok_iff, decide_eq_true_eq]

end Word

/-- The signed 64-bit reading of a size. -/
def signed64 (n : Nat) : Int := Int.bmod n UInt64.size

def saturatingAdd64 (a b : Int) : Int := max Int64.minValue.toInt (min (a + b) Int64.maxValue.toInt)

theorem signed64_of_lt {n : Nat} (h : 2 * n < UInt64.size) : signed64 n = n := by
  unfold signed64
  exact Int.bmod_eq_of_le (by omega) (by omega)

theorem signed64_le (n : Nat) : signed64 n ≤ n := by
  unfold signed64
  generalize UInt64.size = size
  have := Int.natCast_emod n size
  have := Nat.mod_le n size
  rw [Int.bmod_def]
  split <;> omega

/-- A bound on a held sum is a bound on the sum, unless no sum gets past it. -/
theorem saturatingAdd64_le_iff {a b m : Int} (h : Int64.minValue.toInt ≤ m) :
    saturatingAdd64 a b ≤ m ↔ a + b ≤ m ∨ Int64.maxValue.toInt ≤ m := by
  unfold saturatingAdd64
  omega

end BlockVideo
