import Mathlib

/-! Signed arithmetic of the C sources, as integers that wrap around. -/
namespace TinaPackage

def intMax : ℤ := 2^31-1

/-- The value a 32-bit `int` has after an operation with the exact result `x`. -/
def int32 (x : ℤ) : ℤ := x.bmod (2^32)

def int64 (x : ℤ) : ℤ := x.bmod (2^64)

def FitsInt (x : ℤ) : Prop := -2^31 ≤ x ∧ x ≤ intMax

instance (x : ℤ) : Decidable (FitsInt x) := inferInstanceAs (Decidable (_ ∧ _))

def checkedInt (x : ℤ) : Option ℤ := if FitsInt x then some x else none

variable {x : ℤ}

theorem checkedInt_of_fits (h : FitsInt x) : checkedInt x = some x := if_pos h

theorem checkedInt_of_not_fits (h : ¬FitsInt x) : checkedInt x = none := if_neg h

theorem checkedInt_eq_some {y : ℤ} (h : checkedInt x = some y) : FitsInt y ∧ x = y := by
  rw [checkedInt] at h
  split at h
  · next hfits =>
    cases h
    exact ⟨hfits,rfl⟩
  · cases h

/-- The conversion of an `int` to `size_t`. -/
def sizeT (x : ℤ) : ℕ := if x < 0 then (2^64+x).toNat else x.toNat

theorem toNat_le_sizeT (x : ℤ) : x.toNat ≤ sizeT x := by
  unfold sizeT
  split <;> omega

theorem int32_of_range (hlo : -2^31 ≤ x) (hhi : x ≤ intMax) : int32 x = x := by
  unfold int32 intMax at *
  apply Int.bmod_eq_of_le
  · omega
  · omega

theorem int64_of_range (hlo : -2^63 ≤ x) (hhi : x < 2^63) : int64 x = x := by
  unfold int64
  apply Int.bmod_eq_of_le
  · omega
  · omega

def subU32 (a b : ℕ) : ℕ := (a+2^32-b) % 2^32

theorem subU32_of_le {a b : ℕ} (hle : b ≤ a) (ha : a < 2^32) : subU32 a b = a-b := by
  unfold subU32
  omega

end TinaPackage
