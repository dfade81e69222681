import Mathlib.Algebra.Field.Rat
import Mathlib.Algebra.Order.Ring.Rat
import ParallaxKernel.Lib.Json

/-!
# Comparing floats

A finite float has the value of its literal, and rounding is monotone: floats compare as their
literals do. `NaN` compares with nothing.
-/

namespace ParallaxKernel.Lib

/-- The exponent that a literal ends with. -/
def exponentOf : List Char → Int
  | _ :: '-' :: ds => -Nat.ofDigitChars 10 ds 0
  | _ :: '+' :: ds => Nat.ofDigitChars 10 ds 0
  | _ :: ds => Nat.ofDigitChars 10 ds 0
  | [] => 0

/-- The number that a literal without a sign denotes. -/
def literalValue (digits : List Char) : ℚ :=
  let whole := digits.takeWhile Char.isDigit
  match digits.dropWhile Char.isDigit with
  | '.' :: cs =>
    let fraction := cs.takeWhile Char.isDigit
    Nat.ofDigitChars 10 (whole ++ fraction) 0 *
      10 ^ (exponentOf (cs.dropWhile Char.isDigit) - fraction.length)
  | cs => Nat.ofDigitChars 10 whole 0 * 10 ^ exponentOf cs

def FloatLit.value (f : FloatLit) : ℚ :=
  if f.neg then -literalValue f.digits else literalValue f.digits

namespace PyFloat

/-- `x < y`. -/
def lt : PyFloat → PyFloat → Bool
  | .nan, _ | _, .nan => false
  | .negInf, y => y != .negInf
  | _, .negInf => false
  | .inf, _ => false
  | .finite _, .inf => true
  | .finite x, .finite y => decide (x.value < y.value)

/-- `x <= y`. -/
def le : PyFloat → PyFloat → Bool
  | .nan, _ | _, .nan => false
  | .negInf, _ => true
  | _, .inf => true
  | .inf, _ | _, .negInf => false
  | .finite x, .finite y => decide (x.value ≤ y.value)

theorem le_eq_not_lt {x y : PyFloat} (hx : x ≠ .nan) (hy : y ≠ .nan) : x.le y = !y.lt x := by
  cases x <;> cases y <;> simp_all [le, lt, ← decide_not]

theorem nan_le (y : PyFloat) : PyFloat.nan.le y = false := by
  cases y <;> rfl

theorem isFinite_of_le {x y z : PyFloat} (hx : x ≠ .negInf) (hxy : x.le y = true)
    (hz : z ≠ .inf) (hyz : y.le z = true) : ∃ lit, y = .finite lit := by
  cases x <;> cases y <;> cases z <;> simp_all [le]

end PyFloat
end ParallaxKernel.Lib
