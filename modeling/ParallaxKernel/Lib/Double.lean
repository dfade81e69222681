import Mathlib.Data.Int.Log
import ParallaxKernel.Lib.Float
import ParallaxKernel.Lib.Rounding

/-!
# Doubles

Binary64 numbers as rationals, with rounding to nearest, of two the even one, and the overflow to
infinity. The sign of a zero is not kept. Rounding keeps what is a double, and on numbers that are not
negative it is monotone.
-/

namespace ParallaxKernel.Lib

/-- The exponent of the last bit of a double as large as `x`. -/
def ulpExponent (x : ℚ) : ℤ := max (Int.log 2 |x| - 52) (-1074)

/-- The nearest number with the precision of a double, if doubles had no largest. -/
def roundBinary (x : ℚ) : ℚ := roundHalfEven (x / 2 ^ ulpExponent x) * 2 ^ ulpExponent x

/-- The largest double. -/
def maxDouble : ℚ := (2 ^ 53 - 1) * 2 ^ 971

def IsDouble (x : ℚ) : Prop := roundBinary x = x ∧ |x| ≤ maxDouble

/-! ## Rounding -/

theorem roundHalfEven_intCast (n : ℤ) : roundHalfEven n = n := by
  simp [roundHalfEven]

/-- A number that ends with its last bit is kept. -/
theorem roundBinary_of_mul {x : ℚ} {n : ℤ} (h : x = n * 2 ^ ulpExponent x) : roundBinary x = x := by
  have hpos : (2 : ℚ) ^ ulpExponent x ≠ 0 := zpow_ne_zero _ two_ne_zero
  have hdiv : x / 2 ^ ulpExponent x = n := by
    rw [div_eq_iff hpos]
    exact h
  rw [roundBinary, hdiv, roundHalfEven_intCast]
  exact h.symm

theorem abs_lt_two_zpow (x : ℚ) : |x| < 2 ^ (ulpExponent x + 53) := by
  have hlog : |x| < ((2 : ℕ) : ℚ) ^ (Int.log 2 |x| + 1) := Int.lt_zpow_succ_log_self one_lt_two _
  refine hlog.trans_le ?_
  rw [Nat.cast_two]
  refine zpow_le_zpow_right₀ one_le_two ?_
  rw [ulpExponent]
  omega

theorem roundHalfEven_mem {x : ℚ} {n : ℤ} (h : |x| ≤ n) : |roundHalfEven x| ≤ n := by
  obtain ⟨hlow, hhigh⟩ := abs_le.1 h
  rw [abs_le]
  constructor
  · have hround := roundHalfEven_mono (x := ((-n : ℤ) : ℚ)) (y := x) (by push_cast; exact hlow)
    rwa [roundHalfEven_intCast] at hround
  · have hround := roundHalfEven_mono hhigh
    rwa [roundHalfEven_intCast] at hround

/-- The digits of what is rounded. -/
theorem exists_roundBinary (x : ℚ) : ∃ n : ℤ, |n| ≤ 2 ^ 53 ∧
    roundBinary x = n * 2 ^ ulpExponent x := by
  refine ⟨roundHalfEven (x / 2 ^ ulpExponent x), ?_, rfl⟩
  have hpos : (0 : ℚ) < 2 ^ ulpExponent x := zpow_pos two_pos _
  have hle : |x / 2 ^ ulpExponent x| ≤ ((2 ^ 53 : ℤ) : ℚ) := by
    rw [abs_div, abs_of_pos hpos, div_le_iff₀ hpos]
    have hlt := abs_lt_two_zpow x
    rw [zpow_add₀ two_ne_zero] at hlt
    push_cast
    norm_num at hlt ⊢
    linarith
  exact roundHalfEven_mem hle

theorem le_ulpExponent (x : ℚ) : -1074 ≤ ulpExponent x := le_max_right _ _

/-- A number with few enough bits is a double but for its size. -/
theorem roundBinary_of_bits {n e : ℤ} (hn : |n| ≤ 2 ^ 53) (he : -1074 ≤ e) :
    roundBinary (n * 2 ^ e) = n * 2 ^ e := by
  by_cases hzero : n = 0
  · rw [hzero]
    simp [roundBinary, roundHalfEven]
  have habs : |((n : ℤ) : ℚ) * 2 ^ e| = (|n| : ℤ) * 2 ^ e := by
    rw [abs_mul, abs_of_pos (zpow_pos (two_pos (α := ℚ)) e), Int.cast_abs]
  have hpos : 0 < |((n : ℤ) : ℚ) * 2 ^ e| := by
    rw [habs]
    exact mul_pos (by exact_mod_cast abs_pos.2 hzero) (zpow_pos two_pos e)
  obtain hlt | heq := lt_or_eq_of_le hn
  · -- the last bit of the double does not lie above that of `n`
    have hlog : Int.log 2 |((n : ℤ) : ℚ) * 2 ^ e| < 53 + e := by
      rw [← Int.lt_zpow_iff_log_lt one_lt_two hpos, habs, Nat.cast_two, zpow_add₀ two_ne_zero]
      exact mul_lt_mul_of_pos_right (by exact_mod_cast hlt) (zpow_pos two_pos e)
    have hle : ulpExponent (n * 2 ^ e) ≤ e := by
      rw [ulpExponent]
      omega
    refine roundBinary_of_mul (n := n * 2 ^ (e - ulpExponent (n * 2 ^ e)).toNat) ?_
    obtain ⟨k, hk⟩ := Int.eq_ofNat_of_zero_le (sub_nonneg.2 hle)
    rw [hk, Int.toNat_natCast]
    push_cast
    rw [mul_assoc, ← zpow_natCast, ← zpow_add₀ two_ne_zero]
    congr 2
    omega
  · -- `n` is a power of two, and the last bit lies one above
    have hlog : Int.log 2 |((n : ℤ) : ℚ) * 2 ^ e| = 53 + e := by
      have hpow : (((2 ^ 53 : ℤ) : ℤ) : ℚ) * 2 ^ e = ((2 : ℕ) : ℚ) ^ (53 + e) := by
        rw [Nat.cast_two, zpow_add₀ two_ne_zero]
        rfl
      rw [habs, heq, hpow, Int.log_zpow one_lt_two]
    have hulp : ulpExponent (n * 2 ^ e) = e + 1 := by
      rw [ulpExponent, hlog]
      omega
    obtain ⟨m, rfl⟩ : (2 : ℤ) ∣ n := by
      rw [← dvd_abs, heq]
      exact dvd_pow_self 2 (by decide)
    refine roundBinary_of_mul (n := m) ?_
    rw [hulp, zpow_add_one₀ two_ne_zero]
    push_cast
    ring

theorem roundBinary_roundBinary (x : ℚ) : roundBinary (roundBinary x) = roundBinary x := by
  obtain ⟨n, hn, hx⟩ := exists_roundBinary x
  rw [hx]
  exact roundBinary_of_bits hn (le_ulpExponent x)

theorem roundBinary_zero : roundBinary 0 = 0 := by
  simp [roundBinary, roundHalfEven]

theorem ulpExponent_mono {x y : ℚ} (hx : 0 < x) (h : x ≤ y) : ulpExponent x ≤ ulpExponent y := by
  have hlog : Int.log 2 |x| ≤ Int.log 2 |y| := by
    rw [abs_of_pos hx, abs_of_pos (hx.trans_le h)]
    exact Int.log_mono_right hx h
  rw [ulpExponent, ulpExponent]
  omega

/-- A multiple of the last bit bounds what is rounded. -/
theorem roundBinary_le {x : ℚ} {n : ℤ} (h : x ≤ n * 2 ^ ulpExponent x) :
    roundBinary x ≤ n * 2 ^ ulpExponent x := by
  have hpos : (0 : ℚ) < 2 ^ ulpExponent x := zpow_pos two_pos _
  have hround := roundHalfEven_mono ((div_le_iff₀ hpos).2 h)
  rw [roundHalfEven_intCast] at hround
  exact mul_le_mul_of_nonneg_right (by exact_mod_cast hround) hpos.le

theorem le_roundBinary {x : ℚ} {n : ℤ} (h : n * 2 ^ ulpExponent x ≤ x) :
    n * 2 ^ ulpExponent x ≤ roundBinary x := by
  have hpos : (0 : ℚ) < 2 ^ ulpExponent x := zpow_pos two_pos _
  have hround := roundHalfEven_mono ((le_div_iff₀ hpos).2 h)
  rw [roundHalfEven_intCast] at hround
  exact mul_le_mul_of_nonneg_right (by exact_mod_cast hround) hpos.le

theorem roundBinary_nonneg {x : ℚ} (h : 0 ≤ x) : 0 ≤ roundBinary x := by
  have hround := le_roundBinary (x := x) (n := 0) (by rw [Int.cast_zero, zero_mul]; exact h)
  rwa [Int.cast_zero, zero_mul] at hround

theorem two_zpow_eq_mul {u e : ℤ} (h : u ≤ e) : (2 : ℚ) ^ e = ((2 ^ (e - u).toNat : ℤ) : ℚ) * 2 ^ u := by
  obtain ⟨k, hk⟩ := Int.eq_ofNat_of_zero_le (sub_nonneg.2 h)
  rw [hk, Int.toNat_natCast]
  push_cast
  rw [← zpow_natCast, ← zpow_add₀ two_ne_zero]
  congr 1
  omega

theorem roundBinary_mono {x y : ℚ} (hx : 0 ≤ x) (h : x ≤ y) : roundBinary x ≤ roundBinary y := by
  obtain rfl | hx := hx.eq_or_lt
  · rw [roundBinary_zero]
    exact roundBinary_nonneg h
  have hy : 0 < y := hx.trans_le h
  obtain hlt | heq := (ulpExponent_mono hx h).lt_or_eq
  · -- a power of two lies between them
    have hfloor := le_ulpExponent x
    have hleX : Int.log 2 x - 52 ≤ ulpExponent x := by
      rw [ulpExponent, abs_of_pos hx]
      exact le_max_left _ _
    have hmaxY : ulpExponent y = max (Int.log 2 y - 52) (-1074) := by
      rw [ulpExponent, abs_of_pos hy]
    have hbelow : x ≤ 2 ^ Int.log 2 y := by
      have hlog := (Int.lt_zpow_iff_log_lt one_lt_two hx).2 (show Int.log 2 x < Int.log 2 y by omega)
      exact_mod_cast hlog.le
    have habove : (2 : ℚ) ^ Int.log 2 y ≤ y := by
      exact_mod_cast Int.zpow_log_le_self one_lt_two hy
    rw [two_zpow_eq_mul (u := ulpExponent x) (by omega)] at hbelow
    rw [two_zpow_eq_mul (u := ulpExponent y) (by omega)] at habove
    refine (roundBinary_le hbelow).trans (le_trans (le_of_eq ?_) (le_roundBinary habove))
    rw [← two_zpow_eq_mul (by omega), ← two_zpow_eq_mul (by omega)]
  · have hpos : (0 : ℚ) < 2 ^ ulpExponent y := zpow_pos two_pos _
    rw [roundBinary, roundBinary, heq]
    have hround : roundHalfEven (x / 2 ^ ulpExponent y) ≤ roundHalfEven (y / 2 ^ ulpExponent y) :=
      roundHalfEven_mono (div_le_div_of_nonneg_right h hpos.le)
    exact mul_le_mul_of_nonneg_right (by exact_mod_cast hround) hpos.le

/-! ## Doubles -/

/-- A double; both zeros are `finite 0`. -/
inductive Double where
  | finite (x : ℚ) (isDouble : IsDouble x)
  | inf
  | negInf
  | nan

namespace Double

/-- The double nearest to a number. -/
def round (x : ℚ) : Double :=
  if h : |roundBinary x| ≤ maxDouble then .finite (roundBinary x) ⟨roundBinary_roundBinary x, h⟩
  else if 0 < x then .inf
  else .negInf

def zero : Double := round 0

def isFinite : Double → Bool
  | .finite _ _ => true
  | _ => false

/-- `x < y`. -/
def lt : Double → Double → Bool
  | .finite x _, .finite y _ => x < y
  | .negInf, .finite _ _ | .negInf, .inf | .finite _ _, .inf => true
  | _, _ => false

/-- `x <= y`. -/
def le : Double → Double → Bool
  | .nan, _ | _, .nan => false
  | x, y => !y.lt x

/-- `x == y`. -/
def eq (x y : Double) : Bool := x.le y && y.le x

/-- `x + y`. -/
def add : Double → Double → Double
  | .finite x _, .finite y _ => round (x + y)
  | .nan, _ | _, .nan | .inf, .negInf | .negInf, .inf => .nan
  | .inf, _ | _, .inf => .inf
  | .negInf, _ | _, .negInf => .negInf

/-- `x - y`. -/
def sub : Double → Double → Double
  | .finite x _, .finite y _ => round (x - y)
  | .nan, _ | _, .nan | .inf, .inf | .negInf, .negInf => .nan
  | .inf, _ | _, .negInf => .inf
  | .negInf, _ | _, .inf => .negInf

theorem round_eq_finite {x : ℚ} (h : |roundBinary x| ≤ maxDouble) :
    round x = .finite (roundBinary x) ⟨roundBinary_roundBinary x, h⟩ := dif_pos h

theorem isDouble_zero : IsDouble 0 := ⟨roundBinary_zero, by norm_num [maxDouble]⟩

theorem zero_eq : zero = .finite 0 isDouble_zero := by
  have hzero := roundBinary_zero
  rw [zero, round_eq_finite (by rw [hzero]; norm_num [maxDouble])]
  simp only [hzero]

theorem not_neg_iff {x : ℚ} {h : IsDouble x} : (finite x h).lt zero = false ↔ 0 ≤ x := by
  simp [zero_eq, lt]

theorem not_lt_of_not_le {x y : Double} (h : x.le y = false) : x.lt y = false := by
  cases x <;> cases y <;> simp_all [le, lt]
  exact h.le

/-- The place of a double that is not NaN in the order of the doubles. -/
def place : Double → WithBot (WithTop ℚ)
  | .finite x _ => ((x : WithTop ℚ) : WithBot (WithTop ℚ))
  | .inf => ((⊤ : WithTop ℚ) : WithBot (WithTop ℚ))
  | .negInf | .nan => ⊥

theorem lt_iff_place {x y : Double} (hx : x ≠ nan) (hy : y ≠ nan) :
    x.lt y = true ↔ x.place < y.place := by
  cases x <;> cases y <;> simp_all [lt, place]
  exact WithBot.coe_lt_coe.2 (WithTop.coe_lt_top _)

theorem eq_iff_place {x y : Double} (hx : x ≠ nan) (hy : y ≠ nan) :
    x.eq y = true ↔ x.place = y.place := by
  have hle : ∀ {x y : Double}, x ≠ nan → y ≠ nan → (x.le y = true ↔ x.place ≤ y.place) := by
    intro x y hx hy
    rw [← not_lt, ← lt_iff_place hy hx, Bool.not_eq_true, ← Bool.not_eq_true']
    cases x <;> cases y <;> simp_all [le]
  rw [eq, Bool.and_eq_true, hle hx hy, hle hy hx]
  exact antisymm_iff

/-- A sum does not lie below its first term where neither is negative. -/
theorem add_not_lt {c d : Double} (hc : c.lt zero = false) (hd : d.lt zero = false) :
    (add c d).lt c = false := by
  cases c with
  | finite x hx =>
    cases d with
    | finite y hy =>
      rw [not_neg_iff] at hc hd
      rw [add, round]
      split_ifs with hmax hpos
      · have hle : x ≤ roundBinary (x + y) := by
          have hmono := roundBinary_mono hc (le_add_of_nonneg_right hd)
          rwa [hx.1] at hmono
        simpa [lt] using hle
      · rfl
      · have hzero : x + y = 0 := le_antisymm (not_lt.1 hpos) (add_nonneg hc hd)
        rw [hzero, roundBinary_zero] at hmax
        exact absurd (by norm_num [maxDouble]) hmax
    | inf => rfl
    | negInf => simp [zero_eq, lt] at hd
    | nan => rfl
  | inf =>
    cases d with
    | negInf => simp [zero_eq, lt] at hd
    | _ => rfl
  | negInf => simp [zero_eq, lt] at hc
  | nan => rfl

/-- The double that a literal denotes. -/
def ofPyFloat : PyFloat → Double
  | .finite lit => round lit.value
  | .inf => .inf
  | .negInf => .negInf
  | .nan => .nan

/-- `float(n)`; `none` where it raises `OverflowError`. -/
def ofInt (n : Int) : Option Double :=
  let x := round n
  if x.isFinite then some x else none

theorem isFinite_of_ofInt {n : Int} {x : Double} (h : ofInt n = some x) : x.isFinite = true := by
  rw [ofInt] at h
  split_ifs at h with hfinite
  cases h
  exact hfinite

/-- An integer of few enough bits is a double. -/
theorem ofInt_isSome {n : Int} (h : |n| ≤ 2 ^ 53) : (ofInt n).isSome = true := by
  have hround : roundBinary n = n := by simpa using roundBinary_of_bits h (show -1074 ≤ 0 by omega)
  have hle : |((n : Int) : ℚ)| ≤ maxDouble := by
    refine le_trans (b := ((2 ^ 53 : Int) : ℚ)) (by exact_mod_cast h) ?_
    have hpow : (2 : ℚ) ^ 1 ≤ 2 ^ 971 := pow_le_pow_right₀ one_le_two (by omega)
    have hmul := mul_le_mul_of_nonneg_left hpow (show (0 : ℚ) ≤ 2 ^ 53 - 1 by norm_num)
    refine le_trans ?_ hmul
    norm_num
  rw [← hround] at hle
  rw [ofInt, round_eq_finite hle]
  rfl

end Double

end ParallaxKernel.Lib
