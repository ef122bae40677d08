import BlockVideo.Error

/-!
# Filter thresholds

How strongly an edge is filtered depends on its filter level, 0 to 63, and on the sharpness of the
frame, 0 to 7. `Thresholds.forLevel` is the rule; a `LevelTable` holds the thresholds of every
level, by the rule or as given.
-/

namespace BlockVideo

structure Thresholds where
  /-- Bound on the step across the edge. -/
  edge : Nat
  /-- Bound on the steps between neighbours on one side. -/
  interior : Nat
  /-- A greater step beside the edge means high variance. -/
  variance : Nat
  deriving DecidableEq, Repr, Inhabited

namespace Thresholds

def levels : Nat := 64

def maxSharpness : Nat := 7

/-- How often the level is halved for the interior bound. -/
def halvings (sharpness : Nat) : Nat :=
  (if 0 < sharpness then 1 else 0) + (if 4 < sharpness then 1 else 0)

/-- The interior bound: at least 1, and at most `9 - sharpness` in a sharpened frame. -/
def interiorBound (level sharpness : Nat) : Nat :=
  let bound := level >>> halvings sharpness
  max 1 (if 0 < sharpness then min bound (9 - sharpness) else bound)

/-- The thresholds of a level. Level and sharpness are first held to their ranges. -/
def forLevel (level sharpness : Nat) : Thresholds :=
  let level := min level (levels - 1)
  let interior := interiorBound level (min sharpness maxSharpness)
  ⟨2 * (level + 2) + interior, interior, level / 16⟩

end Thresholds

/-- The thresholds of all levels, and the sharpness that they were made for, if any. -/
structure LevelTable where
  entries : Vector Thresholds 64
  sharpness : Option Nat
  deriving DecidableEq

namespace LevelTable

def forSharpness (sharpness : Nat) : LevelTable :=
  ⟨Vector.ofFn fun level => .forLevel level sharpness, some sharpness⟩

def ofSharpness? (sharpness : Nat) : Except Error LevelTable :=
  if sharpness ≤ Thresholds.maxSharpness then .ok (forSharpness sharpness)
  else .error (.sharpness sharpness)

def standard : LevelTable := forSharpness 0

instance : Inhabited LevelTable := ⟨standard⟩

def ofEntries (entries : Vector Thresholds 64) : LevelTable := ⟨entries, none⟩

def get? (t : LevelTable) (level : Nat) : Except Error Thresholds :=
  if h : level < 64 then .ok t.entries[level] else .error (.unknownLevel level)

/-- The thresholds that a level selects while filtering; only its low six bits count. -/
def entry (t : LevelTable) (level : UInt8) : Thresholds :=
  t.entries[level.toNat % 64]

theorem get?_eq_entry (t : LevelTable) (level : UInt8) (h : level.toNat < 64) :
    t.get? level.toNat = .ok (t.entry level) := by
  simp [get?, entry, h, Nat.mod_eq_of_lt h]

end LevelTable

end BlockVideo
