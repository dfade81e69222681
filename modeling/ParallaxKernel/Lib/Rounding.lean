import Mathlib.Data.Rat.Floor
import Mathlib.Tactic.GCongr
import Mathlib.Tactic.Linarith

/-!
# Rounding to decimals

Rounding of a rational to the nearest multiple of a unit, of two the even one. It is monotone.
-/

namespace ParallaxKernel.Lib

/-- The nearest integer, of two the even one. -/
def roundHalfEven (x : ℚ) : ℤ :=
  if x - ⌊x⌋ < 1 / 2 then ⌊x⌋
  else if 1 / 2 < x - ⌊x⌋ then ⌊x⌋ + 1
  else if ⌊x⌋ % 2 = 0 then ⌊x⌋
  else ⌊x⌋ + 1

/-- The nearest number with the given number of decimals. -/
def roundDecimals (decimals : Nat) (x : ℚ) : ℚ := roundHalfEven (x * 10 ^ decimals) / 10 ^ decimals

theorem roundHalfEven_bounds (x : ℚ) : ⌊x⌋ ≤ roundHalfEven x ∧ roundHalfEven x ≤ ⌊x⌋ + 1 := by
  unfold roundHalfEven
  split_ifs <;> omega

theorem roundHalfEven_mono {x y : ℚ} (h : x ≤ y) : roundHalfEven x ≤ roundHalfEven y := by
  have hfloor := Int.floor_le_floor h
  obtain hlt | heq := hfloor.lt_or_eq
  · have hx := (roundHalfEven_bounds x).2
    have hy := (roundHalfEven_bounds y).1
    omega
  · -- with one floor, what lies above it decides
    have hrest : x - ⌊x⌋ ≤ y - ⌊y⌋ := by rw [heq]; linarith
    unfold roundHalfEven
    rw [← heq] at hrest ⊢
    split_ifs <;> first | omega | linarith

theorem roundDecimals_mono (decimals : Nat) {x y : ℚ} (h : x ≤ y) :
    roundDecimals decimals x ≤ roundDecimals decimals y := by
  have hscaled : x * 10 ^ decimals ≤ y * 10 ^ decimals := by gcongr
  have hround : (roundHalfEven (x * 10 ^ decimals) : ℚ) ≤ roundHalfEven (y * 10 ^ decimals) := by
    exact_mod_cast roundHalfEven_mono hscaled
  unfold roundDecimals
  gcongr

end ParallaxKernel.Lib
