/-!
# Samples

A sample is a byte. Sums of samples are taken in `Nat` and `Int`, where nothing wraps, and come
back to a byte by `clip`.
-/

namespace BlockVideo

/-- The sample nearest to `z`. -/
def clip (z : Int) : UInt8 := UInt8.ofNat (min z.toNat 255)

theorem toNat_clip (z : Int) : (clip z).toNat = min z.toNat 255 := by
  simp only [clip, UInt8.toNat_ofNat']
  omega

theorem clip_natCast (a : UInt8) : clip a.toNat = a := by
  have := a.toNat_lt
  apply UInt8.toNat_inj.1
  rw [toNat_clip]
  omega

def absDiff (a b : UInt8) : Nat := (a.toNat - b.toNat) + (b.toNat - a.toNat)

/-- The mean of two samples; a half goes up. -/
def mean (a b : UInt8) : UInt8 := UInt8.ofNat ((a.toNat + b.toNat + 1) / 2)

theorem toNat_mean (a b : UInt8) : (mean a b).toNat = (a.toNat + b.toNat + 1) / 2 := by
  have := a.toNat_lt
  have := b.toNat_lt
  simp only [mean, UInt8.toNat_ofNat']
  omega

theorem mean_comm (a b : UInt8) : mean a b = mean b a := by
  simp only [mean, Nat.add_comm a.toNat]

end BlockVideo
