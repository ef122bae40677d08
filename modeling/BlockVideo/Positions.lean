/-!
# Position sets

A superblock has at most 64 edge positions, and a set of them is a 64-bit word: position `i` is a
member when bit `i` is set. A word has no bit for the numbers from 64 on. They are no positions:
sets are made and asked for smaller numbers only.
-/

namespace BlockVideo

abbrev Positions := BitVec 64

namespace Positions

def single (i : Nat) : Positions := 1#64 <<< i

def has (s : Positions) (i : Nat) : Bool := s.getLsbD i

theorem ext_has {s t : Positions} (h : ∀ i, i < 64 → s.has i = t.has i) : s = t :=
  BitVec.eq_of_getLsbD_eq h

theorem has_of_ge (s : Positions) {i : Nat} (h : 64 ≤ i) : s.has i = false :=
  BitVec.getLsbD_of_ge s i h

theorem has_zero (i : Nat) : has 0#64 i = false := by simp [has]

theorem has_or (s t : Positions) (i : Nat) : has (s ||| t) i = (s.has i || t.has i) := by
  simp [has]

theorem has_and (s t : Positions) (i : Nat) : has (s &&& t) i = (s.has i && t.has i) := by
  simp [has]

theorem has_without (s t : Positions) (i : Nat) : has (s &&& ~~~t) i = (s.has i && !t.has i) := by
  by_cases h : i < 64
  · simp [has, h]
  · simp [has_of_ge, Nat.le_of_not_lt h]

theorem eq_zero_iff {s : Positions} : s = 0 ↔ ∀ i, s.has i = false := by
  constructor
  · rintro rfl i
    exact has_zero i
  · exact fun h => ext_has fun i _ => (h i).trans (has_zero i).symm

theorem and_eq_zero_iff {s t : Positions} :
    s &&& t = 0 ↔ ∀ i, s.has i = true → t.has i = false := by
  rw [eq_zero_iff]
  refine forall_congr' fun i => ?_
  rw [has_and]
  cases s.has i <;> simp

theorem without_eq_zero_iff {s t : Positions} :
    s &&& ~~~t = 0 ↔ ∀ i, s.has i = true → t.has i = true := by
  rw [eq_zero_iff]
  refine forall_congr' fun i => ?_
  rw [has_without]
  cases s.has i <;> simp

theorem has_single (i j : Nat) : (single i).has j = (decide (j < 64) && decide (i = j)) := by
  simp only [single, has, ← BitVec.twoPow_eq, BitVec.getLsbD_twoPow]
  by_cases h : i = j
  · subst h; simp
  · simp [h]

/-- What a loop collects: what was there before it, and what one of its steps adds. -/
theorem foldl_collects_iff {α β : Type} {P : β → Prop} {Q : α → Prop} {step : β → α → β}
    (h : ∀ b a, P (step b a) ↔ P b ∨ Q a) (as : List α) (b : β) :
    P (as.foldl step b) ↔ P b ∨ ∃ a ∈ as, Q a := by
  induction as generalizing b with
  | nil => simp
  | cons a as ih => simp only [List.foldl_cons, ih, h, List.mem_cons, exists_eq_or_imp, or_assoc]

def below (n : Nat) : Positions := BitVec.ofNat 64 (1 <<< n - 1)

theorem has_below (n i : Nat) : (below n).has i = (decide (i < 64) && decide (i < n)) := by
  simp [below, has, BitVec.getLsbD_ofNat, Nat.shiftLeft_eq, Nat.testBit_two_pow_sub_one]

/-- The sixteen hexadecimal digits of the word, the highest positions first. -/
def hexDigits (s : Positions) : String :=
  String.ofList ((List.range 16).map fun i => Nat.digitChar (s.toNat >>> (4 * (15 - i)) % 16))

end Positions

end BlockVideo
