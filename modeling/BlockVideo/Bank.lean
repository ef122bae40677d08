import BlockVideo.Error
import BlockVideo.Kernel

/-!
# Filter banks

A bank has one kernel for each phase, the sixteenths of the way from a sample to the next. Phase 0
is the sample itself in every bank. `resample` runs a bank over a line; at phase 0 it copies and
needs no neighbours, otherwise it reads three samples before and four after each place.
-/

namespace BlockVideo

/-- A position between two samples, in sixteenths. -/
abbrev Phase := Fin 16

namespace Phase

def count : Nat := 16

def zero : Phase := 0

def half : Phase := 8

def ofNat? (value : Nat) : Except Error Phase :=
  if h : value < 16 then .ok ⟨value, h⟩ else .error (.phase value)

def ofSixteenths (position : Int) : Phase :=
  ⟨(position % 16).toNat, by omega⟩

theorem lowBits_eq (word : Int32) : (word &&& 15).toInt.toNat = word.toBitVec.toNat % 16 := by
  have mask : (word &&& 15).toBitVec.toNat = word.toBitVec.toNat % 16 := by
    rw [Int32.toBitVec_and, BitVec.toNat_and]
    exact Nat.and_two_pow_sub_one_eq_mod _ 4
  have small : (word &&& 15).toInt = (word &&& 15).toBitVec.toNat :=
    BitVec.toInt_eq_toNat_of_lt (by omega)
  omega

theorem lowBits_lt (word : Int32) : (word &&& 15).toInt.toNat < 16 := by
  rw [lowBits_eq]
  exact Nat.mod_lt _ (by decide)

def ofLowBits (word : Int32) : Phase := ⟨(word &&& 15).toInt.toNat, lowBits_lt word⟩

/-- A position loses nothing that its phase depends on when it is cut to a word, also where it is
negative or too large for one. -/
theorem ofLowBits_ofInt (position : Int) :
    ofLowBits (Int32.ofInt position) = ofSixteenths position := by
  have cut : (Int32.ofInt position).toBitVec.toNat = (position % 4294967296).toNat := by
    rw [Int32.toBitVec_ofInt, BitVec.toNat_ofInt]
    rfl
  refine Fin.ext ?_
  simp only [ofLowBits, ofSixteenths, lowBits_eq, cut]
  omega

/-- Samples read before the first place of a line. -/
def lead (φ : Phase) : Nat := if φ = 0 then 0 else Kernel.lead

/-- Samples read beyond those of the line itself, on both sides together. -/
def spread (φ : Phase) : Nat := if φ = 0 then 0 else Kernel.taps - 1

theorem spread_of_ne {φ : Phase} (h : φ ≠ 0) : φ.spread = 7 := if_neg h

theorem spread_le (φ : Phase) : φ.spread ≤ 7 := by
  unfold spread
  split <;> decide

theorem add_lt_spread {φ : Phase} (h : φ ≠ 0) {n : Nat} (i : Fin n) (j : Fin 8) :
    i.val + j.val < n + φ.spread := by
  rw [spread_of_ne h]
  omega

end Phase

inductive Bank where
  | regular
  | smooth
  | sharp
  | bilinear
  deriving DecidableEq, Repr, Inhabited

namespace Bank

def all : List Bank := [regular, smooth, sharp, bilinear]

def ofNat? : Nat → Except Error Bank
  | 0 => .ok regular
  | 1 => .ok smooth
  | 2 => .ok sharp
  | 3 => .ok bilinear
  | value => .error (.filterBank value)

def toNat : Bank → Nat
  | regular => 0
  | smooth => 1
  | sharp => 2
  | bilinear => 3

theorem ofNat?_toNat (b : Bank) : ofNat? b.toNat = .ok b := by cases b <;> rfl

def name : Bank → String
  | regular => "Regular"
  | smooth => "Smooth"
  | sharp => "Sharp"
  | bilinear => "Bilinear"

def regularKernels : Vector Kernel 16 :=
  #v[
    #v[0, 0, 0, 128, 0, 0, 0, 0],
    #v[0, 1, -5, 126, 8, -3, 1, 0],
    #v[-1, 3, -10, 122, 18, -6, 2, 0],
    #v[-1, 4, -13, 118, 27, -9, 3, -1],
    #v[-1, 4, -16, 112, 37, -11, 4, -1],
    #v[-1, 5, -18, 105, 48, -14, 4, -1],
    #v[-1, 5, -19, 97, 58, -16, 5, -1],
    #v[-1, 6, -19, 88, 68, -18, 5, -1],
    #v[-1, 6, -19, 78, 78, -19, 6, -1],
    #v[-1, 5, -18, 68, 88, -19, 6, -1],
    #v[-1, 5, -16, 58, 97, -19, 5, -1],
    #v[-1, 4, -14, 48, 105, -18, 5, -1],
    #v[-1, 4, -11, 37, 112, -16, 4, -1],
    #v[-1, 3, -9, 27, 118, -13, 4, -1],
    #v[0, 2, -6, 18, 122, -10, 3, -1],
    #v[0, 1, -3, 8, 126, -5, 1, 0]]

def smoothKernels : Vector Kernel 16 :=
  #v[
    #v[0, 0, 0, 128, 0, 0, 0, 0],
    #v[-3, -1, 32, 64, 38, 1, -3, 0],
    #v[-2, -2, 29, 63, 41, 2, -3, 0],
    #v[-2, -2, 26, 63, 43, 4, -4, 0],
    #v[-2, -3, 24, 62, 46, 5, -4, 0],
    #v[-2, -3, 21, 60, 49, 7, -4, 0],
    #v[-1, -4, 18, 59, 51, 9, -4, 0],
    #v[-1, -4, 16, 57, 53, 12, -4, -1],
    #v[-1, -4, 14, 55, 55, 14, -4, -1],
    #v[-1, -4, 12, 53, 57, 16, -4, -1],
    #v[0, -4, 9, 51, 59, 18, -4, -1],
    #v[0, -4, 7, 49, 60, 21, -3, -2],
    #v[0, -4, 5, 46, 62, 24, -3, -2],
    #v[0, -4, 4, 43, 63, 26, -2, -2],
    #v[0, -3, 2, 41, 63, 29, -2, -2],
    #v[0, -3, 1, 38, 64, 32, -1, -3]]

def sharpKernels : Vector Kernel 16 :=
  #v[
    #v[0, 0, 0, 128, 0, 0, 0, 0],
    #v[-1, 3, -7, 127, 8, -3, 1, 0],
    #v[-2, 5, -13, 125, 17, -6, 3, -1],
    #v[-3, 7, -17, 121, 27, -10, 5, -2],
    #v[-4, 9, -20, 115, 37, -13, 6, -2],
    #v[-4, 10, -23, 108, 48, -16, 8, -3],
    #v[-4, 10, -24, 100, 59, -19, 9, -3],
    #v[-4, 11, -24, 90, 70, -21, 10, -4],
    #v[-4, 11, -23, 80, 80, -23, 11, -4],
    #v[-4, 10, -21, 70, 90, -24, 11, -4],
    #v[-3, 9, -19, 59, 100, -24, 10, -4],
    #v[-3, 8, -16, 48, 108, -23, 10, -4],
    #v[-2, 6, -13, 37, 115, -20, 9, -4],
    #v[-2, 5, -10, 27, 121, -17, 7, -3],
    #v[-1, 3, -6, 17, 125, -13, 5, -2],
    #v[0, 1, -3, 8, 127, -7, 3, -1]]

/-- The mean of the two nearest samples, weighted by how near they are. -/
def bilinearKernels : Vector Kernel 16 :=
  Vector.ofFn fun φ => #v[0, 0, 0, 128 - 8 * φ.val, 8 * φ.val, 0, 0, 0]

def kernels : Bank → Vector Kernel 16
  | regular => regularKernels
  | smooth => smoothKernels
  | sharp => sharpKernels
  | bilinear => bilinearKernels

def kernel (b : Bank) (φ : Phase) : Kernel := b.kernels.get φ

/-- The `n` samples that lie `φ` to the right of those of a line. -/
def resample {n : Nat} (b : Bank) (φ : Phase) (s : Vector UInt8 (n + φ.spread)) : Vector UInt8 n :=
  if h : φ = 0 then
    Vector.ofFn fun i => s[i.val]
  else
    have wide := Phase.spread_of_ne h
    Vector.ofFn fun i => (b.kernel φ).apply fun j => s[i.val + j.val]

section Resample

variable {n : Nat} {φ : Phase} (b : Bank) (s : Vector UInt8 (n + φ.spread)) (i : Fin n)

theorem get_resample_of_zero (h : φ = 0) :
    (b.resample φ s).get i = getElem s i.val (Nat.lt_add_right _ i.isLt) := by
  rw [resample, dif_pos h]
  exact Vector.getElem_ofFn _

theorem get_resample_of_ne (h : φ ≠ 0) :
    (b.resample φ s).get i =
      (b.kernel φ).apply fun j => getElem s (i.val + j.val) (Phase.add_lt_spread h i j) := by
  rw [resample, dif_neg h]
  exact Vector.getElem_ofFn _

end Resample

theorem weight_kernel (b : Bank) (φ : Phase) : (b.kernel φ).weight = Kernel.unit := by
  revert φ
  cases b <;> decide

theorem kernel_zero (b : Bank) : b.kernel 0 = #v[0, 0, 0, 128, 0, 0, 0, 0] := by
  cases b <;> decide

/-- Two phases that add up to a whole sample have each other's taps, back to front. -/
theorem kernel_rev (b : Bank) {φ ψ : Phase} (h : φ.val + ψ.val = 16) (j : Fin 8) :
    (b.kernel φ).get j = (b.kernel ψ).get j.rev := by
  revert φ ψ j
  cases b <;> decide

end Bank

end BlockVideo
