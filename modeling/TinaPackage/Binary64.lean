import Mathlib

/-! Rounding to the 53 significant bits of a `double`, on numbers counted in units of some power
of two that is too small to matter. -/
namespace TinaPackage

/-- The distance of the doubles around a positive number. -/
def ulp53 (p : ℕ) : ℕ := 2^(p.log2+1-53)

/-- The nearest double, the even one of two. -/
def round53 (p : ℕ) : ℕ :=
  if ulp53 p < 2*(p % ulp53 p) ∨ ulp53 p = 2*(p % ulp53 p) ∧ p/ulp53 p % 2 = 1 then
    (p/ulp53 p+1)*ulp53 p
  else p/ulp53 p*ulp53 p

end TinaPackage
