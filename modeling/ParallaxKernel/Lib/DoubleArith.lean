import Mathlib.Data.Nat.Sqrt
import ParallaxKernel.Lib.Double

/-!
# Products, quotients and roots of doubles

Each result is the exact one, rounded. The product of two roots of numbers above zero is above zero:
the least of them is not lost in rounding.
-/

namespace ParallaxKernel.Lib.Double

/-! ## Operations -/

def one : Double := round 1

/-- `x * y`. -/
def mul (x y : Double) : Double :=
  match x, y with
  | .finite x _, .finite y _ => round (x * y)
  | .nan, _ | _, .nan => .nan
  | x, y =>
    if x.eq zero || y.eq zero then .nan
    else if x.lt zero = y.lt zero then .inf
    else .negInf

/-- `x / y` where `y` is not zero. -/
def quotient (x y : Double) : Double :=
  match x, y with
  | .finite x _, .finite y _ => round (x / y)
  | .nan, _ | _, .nan => .nan
  | .finite _ _, _ => zero
  | x, .finite y hy => if x.lt zero = (finite y hy).lt zero then .inf else .negInf
  | _, _ => .nan

/-- `x / y`; `none` where it raises `ZeroDivisionError`. -/
def div (x y : Double) : Option Double := if y.eq zero then none else some (quotient x y)

/-- The square root without what lies behind its first 1100 binary places. -/
def rootBelow (x : ℚ) : ℚ := Nat.sqrt ⌊x * 4 ^ 1100⌋₊ / 2 ^ 1100

/-- `math.sqrt(x)`; `none` where it raises `ValueError`. No root lies so near to the middle between
two doubles that it matters where it is cut off. -/
def sqrt : Double → Option Double
  | .finite x _ => if x < 0 then none else some (round (rootBelow x))
  | .inf => some .inf
  | .nan => some .nan
  | .negInf => none

/-! ## Lower bounds -/

/-- Not a number below `q`; a NaN is none. -/
def NotBelow (q : ℚ) : Double → Prop
  | .finite x _ => q ≤ x
  | .inf | .nan => True
  | .negInf => False

theorem not_lt_zero_iff {x : Double} : x.lt zero = false ↔ x.NotBelow 0 := by
  cases x with
  | finite x h => exact not_neg_iff
  | _ => simp [zero_eq, lt, NotBelow]

theorem round_notBelow {x q : ℚ} (hq : 0 ≤ q) (hround : roundBinary q = q) (h : q ≤ x) :
    (round x).NotBelow q := by
  have hle : q ≤ roundBinary x := by
    have hmono := roundBinary_mono hq h
    rwa [hround] at hmono
  rw [round]
  split_ifs with hmax hpos
  · exact hle
  · trivial
  · have hzero : x = 0 := le_antisymm (not_lt.1 hpos) (hq.trans h)
    rw [hzero, roundBinary_zero] at hmax
    exact absurd (by norm_num [maxDouble]) hmax

theorem roundBinary_two_zpow {e : ℤ} (he : -1074 ≤ e) : roundBinary (2 ^ e) = 2 ^ e := by
  have h := roundBinary_of_bits (n := 1) (e := e) (by norm_num) he
  rwa [Int.cast_one, one_mul] at h

/-- The least double above zero. -/
theorem two_zpow_le_of_isDouble {x : ℚ} (h : IsDouble x) (hpos : 0 < x) : 2 ^ (-1074 : ℤ) ≤ x := by
  obtain ⟨n, -, hn⟩ := exists_roundBinary x
  rw [h.1] at hn
  have hulp : (0 : ℚ) < 2 ^ ulpExponent x := zpow_pos two_pos _
  have hone : 1 ≤ n := by
    have hcast : (0 : ℚ) < n := by
      rw [hn] at hpos
      exact pos_of_mul_pos_left hpos hulp.le
    exact_mod_cast hcast
  calc (2 : ℚ) ^ (-1074 : ℤ) ≤ 2 ^ ulpExponent x :=
        zpow_le_zpow_right₀ one_le_two (le_ulpExponent x)
    _ ≤ n * 2 ^ ulpExponent x := le_mul_of_one_le_left hulp.le (by exact_mod_cast hone)
    _ = x := hn.symm

theorem eq_zero_iff {x : ℚ} {h : IsDouble x} : (finite x h).eq zero = true ↔ x = 0 := by
  have hand : (finite x h).eq zero = true ↔ x ≤ 0 ∧ 0 ≤ x := by simp [eq, le, zero_eq, lt]
  rw [hand]
  exact antisymm_iff

theorem ne_zero_of_notBelow {x : Double} {q : ℚ} (hq : 0 < q) (h : x.NotBelow q) :
    x.eq zero = false := by
  cases x with
  | finite x hx =>
    rw [← Bool.not_eq_true, eq_zero_iff]
    exact (hq.trans_le h).ne'
  | negInf => exact h.elim
  | _ => simp [eq, le, zero_eq, lt]

theorem mul_self_notBelow (x : Double) : (x.mul x).NotBelow 0 := by
  cases x with
  | finite x h => exact round_notBelow le_rfl roundBinary_zero (mul_self_nonneg x)
  | nan => trivial
  | _ => simp [mul, eq, le, zero_eq, lt, NotBelow]

theorem add_notBelow {c d : Double} {p q : ℚ} (hpos : 0 ≤ p + q)
    (hround : roundBinary (p + q) = p + q) (hc : c.NotBelow p) (hd : d.NotBelow q) :
    (c.add d).NotBelow (p + q) := by
  cases c with
  | finite x hx =>
    cases d with
    | finite y hy => exact round_notBelow hpos hround (add_le_add hc hd)
    | negInf => exact hd.elim
    | _ => trivial
  | inf =>
    cases d with
    | negInf => exact hd.elim
    | _ => trivial
  | negInf => exact hc.elim
  | nan => trivial

theorem add_notBelow_zero {c d : Double} (hc : c.NotBelow 0) (hd : d.NotBelow 0) :
    (c.add d).NotBelow 0 := by
  have h := add_notBelow (p := 0) (q := 0) (by simp) (by simp [roundBinary_zero]) hc hd
  rwa [add_zero] at h

theorem round_ne_nan (x : ℚ) : round x ≠ nan := by
  rw [round]
  split_ifs <;> simp

theorem add_ne_nan {c d : Double} {p q : ℚ} (hc : c.NotBelow p) (hd : d.NotBelow q) (hcn : c ≠ nan)
    (hdn : d ≠ nan) : c.add d ≠ nan := by
  cases c with
  | nan => exact absurd rfl hcn
  | negInf => exact hc.elim
  | _ =>
    cases d with
    | nan => exact absurd rfl hdn
    | negInf => exact hd.elim
    | _ => simp [add, round_ne_nan]

theorem zero_lt_of_notBelow {x : Double} {q : ℚ} (hq : 0 < q) (h : x.NotBelow q) (hx : x ≠ nan) :
    zero.lt x = true := by
  cases x with
  | finite x hxd => simpa [zero_eq, lt] using hq.trans_le h
  | inf => simp [zero_eq, lt]
  | negInf => exact h.elim
  | nan => exact absurd rfl hx

theorem isDouble_one : IsDouble 1 := by
  refine ⟨roundBinary_two_zpow (e := 0) (by norm_num), ?_⟩
  rw [abs_one, maxDouble]
  exact one_le_mul_of_one_le_of_one_le (by norm_num) (one_le_pow₀ one_le_two)

/-- A double is rounded to itself. -/
theorem round_of_isDouble {x : ℚ} (h : IsDouble x) : round x = .finite x h := by
  rw [round_eq_finite (by rw [h.1]; exact h.2)]
  simp only [h.1]

theorem zero_notBelow : zero.NotBelow 0 := by
  rw [zero_eq]
  exact le_refl (0 : ℚ)

theorem add_zero_left (x : Double) : zero.add x = x := by
  rw [zero_eq]
  cases x with
  | finite x h =>
    show round (0 + x) = _
    rw [zero_add]
    exact round_of_isDouble h
  | _ => rfl

theorem quotient_one (x : Double) : x.quotient one = x := by
  rw [one, round_of_isDouble isDouble_one]
  cases x with
  | finite x hx =>
    simp only [quotient, div_one]
    exact round_of_isDouble hx
  | _ => simp [quotient, zero_eq, lt]

theorem div_one (x : Double) : x.div one = some x := by
  have hone : one.eq zero = false := ne_zero_of_notBelow one_pos
    (round_notBelow zero_le_one isDouble_one.1 le_rfl)
  rw [div, hone, quotient_one]
  rfl

/-! ## Roots -/

theorem two_zpow_le_rootBelow {x : ℚ} (h : 2 ^ (-1074 : ℤ) ≤ x) : 2 ^ (-537 : ℤ) ≤ rootBelow x := by
  have hfour : (4 : ℚ) ^ 1100 = 2 ^ (2200 : ℤ) := by
    rw [show (4 : ℚ) = 2 ^ 2 by norm_num, ← pow_mul, ← zpow_natCast]
    rfl
  have hscale : (((2 ^ 563) ^ 2 : ℕ) : ℚ) ≤ x * 4 ^ 1100 := by
    rw [hfour]
    calc (((2 ^ 563) ^ 2 : ℕ) : ℚ) = 2 ^ (1126 : ℤ) := by
          rw [← pow_mul, Nat.cast_pow, Nat.cast_two, ← zpow_natCast]
          rfl
      _ = 2 ^ (-1074 : ℤ) * 2 ^ (2200 : ℤ) := by
          rw [← zpow_add₀ two_ne_zero]
          rfl
      _ ≤ x * 2 ^ (2200 : ℤ) := mul_le_mul_of_nonneg_right h (zpow_pos two_pos _).le
  have hroot : 2 ^ 563 ≤ Nat.sqrt ⌊x * 4 ^ 1100⌋₊ := by
    rw [Nat.le_sqrt']
    exact Nat.le_floor hscale
  rw [rootBelow, le_div_iff₀ (pow_pos two_pos _)]
  calc (2 : ℚ) ^ (-537 : ℤ) * 2 ^ 1100 = ((2 ^ 563 : ℕ) : ℚ) := by
        rw [Nat.cast_pow, Nat.cast_two, ← zpow_natCast, ← zpow_natCast, ← zpow_add₀ two_ne_zero]
        rfl
    _ ≤ Nat.sqrt ⌊x * 4 ^ 1100⌋₊ := Nat.cast_le.2 hroot

/-- A number that is not negative has a root, and that of one above zero is not lost. -/
theorem exists_sqrt {x : Double} (h : x.NotBelow 0) :
    ∃ y, sqrt x = some y ∧ (x.eq zero = false → y.NotBelow (2 ^ (-537 : ℤ))) := by
  cases x with
  | finite x hx =>
    refine ⟨round (rootBelow x), if_neg (not_lt.2 h), fun hne => ?_⟩
    have hpos : 0 < x := by
      refine lt_of_le_of_ne h fun hzero => ?_
      rw [eq_zero_iff.2 hzero.symm] at hne
      cases hne
    exact round_notBelow (zpow_pos two_pos _).le (roundBinary_two_zpow (by norm_num))
      (two_zpow_le_rootBelow (two_zpow_le_of_isDouble hx hpos))
  | inf => exact ⟨.inf, rfl, fun _ => trivial⟩
  | nan => exact ⟨.nan, rfl, fun _ => trivial⟩
  | negInf => exact h.elim

/-- The product of two roots is not lost. -/
theorem mul_ne_zero {x y : Double} (hx : x.NotBelow (2 ^ (-537 : ℤ)))
    (hy : y.NotBelow (2 ^ (-537 : ℤ))) : (x.mul y).eq zero = false := by
  have hpos : (0 : ℚ) < 2 ^ (-537 : ℤ) := zpow_pos two_pos _
  cases x with
  | finite x hxd =>
    cases y with
    | finite y hyd =>
      have hle : 2 ^ (-1074 : ℤ) ≤ x * y := by
        calc (2 : ℚ) ^ (-1074 : ℤ) = 2 ^ (-537 : ℤ) * 2 ^ (-537 : ℤ) := by
              rw [← zpow_add₀ two_ne_zero]
              rfl
          _ ≤ x * y := mul_le_mul hx hy hpos.le (hpos.le.trans hx)
      exact ne_zero_of_notBelow (zpow_pos two_pos _) (round_notBelow (zpow_pos two_pos _).le
        (roundBinary_two_zpow (le_refl (-1074))) hle)
    | inf =>
      simp only [mul]
      split_ifs <;> simp [eq, le, zero_eq, lt]
    | negInf => exact hy.elim
    | nan => simp [mul, eq, le]
  | inf =>
    cases y with
    | nan => simp [mul, eq, le]
    | _ =>
      simp only [mul]
      split_ifs <;> simp [eq, le, zero_eq, lt]
  | negInf => exact hx.elim
  | nan => cases y <;> simp [mul, eq, le]

end ParallaxKernel.Lib.Double
