import BlockVideo.Sample

/-!
# Interpolation kernels

A kernel is eight taps in 7-bit fixed point. Applied to eight samples it gives their weighted sum,
rounded to the nearest whole (a half goes up) and held to the range of a sample.
-/

namespace BlockVideo

abbrev Kernel := Vector Int 8

namespace Kernel

def taps : Nat := 8

/-- Fractional bits of a tap. -/
def precision : Nat := 7

def unit : Int := (1 <<< precision : Nat)

def lead : Nat := taps / 2 - 1

def dot (k : Kernel) (s : Fin 8 → Int) : Int :=
  (List.finRange 8).foldl (fun sum j => sum + k.get j * s j) 0

def weight (k : Kernel) : Int := k.dot fun _ => 1

/-- A weighted sum of samples as a sample. -/
def round (sum : Int) : UInt8 := clip ((sum + unit / 2) / unit)

def apply (k : Kernel) (s : Fin 8 → UInt8) : UInt8 := round (k.dot fun j => (s j).toNat)

theorem dot_eq (k : Kernel) (s : Fin 8 → Int) :
    k.dot s = k.get 0 * s 0 + k.get 1 * s 1 + k.get 2 * s 2 + k.get 3 * s 3 + k.get 4 * s 4 +
      k.get 5 * s 5 + k.get 6 * s 6 + k.get 7 * s 7 :=
  congrArg (· + _ + _ + _ + _ + _ + _ + _) (Int.zero_add (k.get 0 * s 0))

theorem dot_const (k : Kernel) (a : Int) : (k.dot fun _ => a) = k.weight * a := by
  simp [weight, dot_eq, Int.add_mul]

theorem apply_const {k : Kernel} (h : k.weight = unit) (a : UInt8) : (k.apply fun _ => a) = a := by
  have e : (unit * (a.toNat : Int) + unit / 2) / unit = a.toNat := by
    simp only [show unit = 128 from rfl]
    omega
  rw [apply, dot_const, h, round, e, clip_natCast]

end Kernel

end BlockVideo
