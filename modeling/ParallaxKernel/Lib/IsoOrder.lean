import ParallaxKernel.Lib.DateTime
import Mathlib.Data.String.Basic
import Mathlib.Order.Monotone.Defs

/-!
# The order of ISO 8601 timestamps

Timestamps of one width, in UTC, are ordered as texts as they are in time.
-/

namespace ParallaxKernel.Lib
namespace DateTime

/-! ## Texts of fixed width -/

theorem append_lt_append {α : Type} [LinearOrder α] {a b x y : List α} (hlen : a.length = b.length)
    (h : a < b ∨ a = b ∧ x < y) : a ++ x < b ++ y := by
  induction a generalizing b with
  | nil =>
    obtain rfl : b = [] := List.eq_nil_of_length_eq_zero hlen.symm
    cases h with
    | inl h => exact absurd h (lt_irrefl _)
    | inr h => exact h.2
  | cons c a ih =>
    cases b with
    | nil => cases hlen
    | cons d b =>
      rw [List.cons_append, List.cons_append, List.cons_lt_cons_iff]
      rw [List.cons_lt_cons_iff] at h
      have hlen' : a.length = b.length := Nat.succ.inj hlen
      obtain (hcd | ⟨rfl, hab⟩) | ⟨hab, hxy⟩ := h
      · exact .inl hcd
      · exact .inr ⟨rfl, ih hlen' (.inl hab)⟩
      · obtain ⟨rfl, rfl⟩ := List.cons.inj hab
        exact .inr ⟨rfl, ih rfl (.inr ⟨rfl, hxy⟩)⟩

/-- The digits of a number, with zeros in front. -/
def paddedChars (width n : Nat) : List Char := (Nat.toDigits 10 n).leftpad width '0'

theorem paddedChars_succ (width n : Nat) :
    paddedChars (width + 2) n = paddedChars (width + 1) (n / 10) ++ [Nat.digitChar (n % 10)] := by
  by_cases hn : n < 10
  · rw [Nat.div_eq_of_lt hn, Nat.mod_eq_of_lt hn, paddedChars, paddedChars,
      Nat.toDigits_of_lt_base hn]
    simp [List.leftpad, List.replicate_succ']
  · rw [paddedChars, paddedChars, Nat.toDigits_of_base_le (by decide) (Nat.not_lt.1 hn)]
    simp [List.leftpad]

theorem length_paddedChars {width n : Nat} (h : n < 10 ^ (width + 1)) :
    (paddedChars (width + 1) n).length = width + 1 := by
  rw [paddedChars, List.length_leftpad,
    max_eq_left ((Nat.length_toDigits_le_iff (by decide) (Nat.succ_pos width)).2 h)]

theorem digitChar_lt {m n : Nat} (hmn : m < n) (hn : n < 10) :
    Nat.digitChar m < Nat.digitChar n := by
  have h : ∀ n < 10, ∀ m < n, Nat.digitChar m < Nat.digitChar n := by decide
  exact h n hn m hmn

theorem paddedChars_lt {width m n : Nat} (hmn : m < n) (hn : n < 10 ^ (width + 1)) :
    paddedChars (width + 1) m < paddedChars (width + 1) n := by
  induction width generalizing m n with
  | zero =>
    have hlt : n < 10 := hn
    rw [paddedChars, paddedChars, Nat.toDigits_of_lt_base hlt,
      Nat.toDigits_of_lt_base (hmn.trans hlt)]
    exact List.cons_lt_cons_iff.2 (.inl (digitChar_lt hmn hlt))
  | succ width ih =>
    have hdiv : n / 10 < 10 ^ (width + 1) := by omega
    rw [paddedChars_succ, paddedChars_succ]
    refine append_lt_append ?_ ?_
    · rw [length_paddedChars hdiv, length_paddedChars (by omega)]
    · by_cases heq : m / 10 = n / 10
      · refine .inr ⟨by rw [heq], List.cons_lt_cons_iff.2 (.inl (digitChar_lt ?_ ?_))⟩ <;> omega
      · exact .inl (ih (by omega) hdiv)

/-- Numbers of fixed width, each with the text after it. -/
def fieldsChars : List (Nat × List Char) → List Nat → List Char
  | (width, after) :: layout, n :: ns => paddedChars width n ++ (after ++ fieldsChars layout ns)
  | _, _ => []

/-- The numbers fit into the layout. -/
def Fits : List (Nat × List Char) → List Nat → Prop
  | (width, _) :: layout, n :: ns => 0 < width ∧ n < 10 ^ width ∧ Fits layout ns
  | [], [] => True
  | _, _ => False

theorem fieldsChars_lt {layout : List (Nat × List Char)} {ms ns : List Nat} (h : ms < ns)
    (hms : Fits layout ms) (hns : Fits layout ns) :
    fieldsChars layout ms < fieldsChars layout ns := by
  induction layout generalizing ms ns with
  | nil =>
    cases ms with
    | nil => cases ns with
      | nil => exact absurd h (List.lt_irrefl [])
      | cons n ns => exact hns.elim
    | cons m ms => exact hms.elim
  | cons field layout ih =>
    obtain ⟨width, after⟩ := field
    cases ms with
    | nil => exact hms.elim
    | cons m ms =>
      cases ns with
      | nil => exact hns.elim
      | cons n ns =>
        obtain ⟨hwidth, hm, hms⟩ := hms
        obtain ⟨-, hn, hns⟩ := hns
        obtain ⟨width, rfl⟩ := Nat.exists_eq_succ_of_ne_zero hwidth.ne'
        rw [fieldsChars, fieldsChars]
        refine append_lt_append ?_ ?_
        · rw [length_paddedChars hm, length_paddedChars hn]
        · cases List.cons_lt_cons_iff.1 h with
          | inl hmn => exact .inl (paddedChars_lt hmn hn)
          | inr htail =>
            obtain ⟨rfl, htail⟩ := htail
            exact .inr ⟨rfl, append_lt_append rfl (.inr ⟨rfl, ih htail hms hns⟩)⟩

/-! ## Dates -/

theorem monthDay_fst_mem (year n : Nat) (months : List Nat) :
    (monthDay year n months).1 ∈ months ++ [12] := by
  induction months generalizing n with
  | nil => exact List.mem_singleton_self 12
  | cons month months ih =>
    rw [monthDay]
    split
    · exact List.mem_cons_self
    · exact List.mem_cons_of_mem month (ih _)

/-- Later days of a year have later dates. -/
theorem monthDay_lt (year : Nat) {m n : Nat} (hmn : m < n) {months : List Nat}
    (hsorted : (months ++ [12]).Pairwise (· < ·)) :
    (monthDay year m months).1 < (monthDay year n months).1 ∨
      (monthDay year m months).1 = (monthDay year n months).1 ∧
        (monthDay year m months).2 < (monthDay year n months).2 := by
  induction months generalizing m n with
  | nil => exact .inr ⟨rfl, Nat.succ_lt_succ hmn⟩
  | cons month months ih =>
    obtain ⟨hfirst, hsorted⟩ := List.pairwise_cons.1 hsorted
    rw [monthDay, monthDay]
    by_cases hm : m < daysInMonth year month
    · rw [if_pos hm]
      by_cases hn : n < daysInMonth year month
      · rw [if_pos hn]
        exact .inr ⟨rfl, Nat.succ_lt_succ hmn⟩
      · rw [if_neg hn]
        exact .inl (hfirst _ (monthDay_fst_mem year _ months))
    · rw [if_neg hm, if_neg (by omega)]
      exact ih (by omega) hsorted

/-- The year of an ordinal and the day in the year, counted from 0. -/
def yearDay (n : Nat) : Nat × Nat :=
  let n := n - 1
  let n400 := n / 146097
  let n := n % 146097
  let n100 := n / 36524
  let n := n % 36524
  let n4 := n / 1461
  let n := n % 1461
  let n1 := n / 365
  let n := n % 365
  let year := n400 * 400 + n100 * 100 + n4 * 4 + n1 + 1
  if n1 == 4 || n100 == 4 then (year - 1, 365) else (year, n)

/-- The periods of 400, 100, 4 and 1 years before a day, and the day in its year. -/
structure Periods (n year day q400 q100 q4 q1 d : Nat) : Prop where
  sum : n - 1 = q400 * 146097 + q100 * 36524 + q4 * 1461 + q1 * 365 + d
  d_lt : d < 365
  q1_le : q1 * 365 + d < 1461
  q4_le : q4 * 1461 + q1 * 365 + d < 36524
  q100_le : q100 * 36524 + q4 * 1461 + q1 * 365 + d < 146097
  date : (q1 = 4 ∨ q100 = 4) ∧ year = q400 * 400 + q100 * 100 + q4 * 4 + q1 ∧ day = 365 ∨
    q1 < 4 ∧ q100 < 4 ∧ year = q400 * 400 + q100 * 100 + q4 * 4 + q1 + 1 ∧ day = d

theorem exists_periods (n : Nat) :
    ∃ q400 q100 q4 q1 d, Periods n (yearDay n).1 (yearDay n).2 q400 q100 q4 q1 d := by
  have h400 := Nat.div_add_mod (n - 1) 146097
  have h100 := Nat.div_add_mod ((n - 1) % 146097) 36524
  have h4 := Nat.div_add_mod ((n - 1) % 146097 % 36524) 1461
  have h1 := Nat.div_add_mod ((n - 1) % 146097 % 36524 % 1461) 365
  have l400 := Nat.mod_lt (n - 1) (show 146097 > 0 by decide)
  have l100 := Nat.mod_lt ((n - 1) % 146097) (show 36524 > 0 by decide)
  have l4 := Nat.mod_lt ((n - 1) % 146097 % 36524) (show 1461 > 0 by decide)
  have l1 := Nat.mod_lt ((n - 1) % 146097 % 36524 % 1461) (show 365 > 0 by decide)
  refine ⟨(n - 1) / 146097, (n - 1) % 146097 / 36524, (n - 1) % 146097 % 36524 / 1461,
    (n - 1) % 146097 % 36524 % 1461 / 365, (n - 1) % 146097 % 36524 % 1461 % 365, ?_⟩
  rw [yearDay]
  generalize (n - 1) % 146097 % 36524 % 1461 % 365 = d at *
  generalize (n - 1) % 146097 % 36524 % 1461 / 365 = q1 at *
  generalize (n - 1) % 146097 % 36524 % 1461 = r4 at *
  generalize (n - 1) % 146097 % 36524 / 1461 = q4 at *
  generalize (n - 1) % 146097 % 36524 = r100 at *
  generalize (n - 1) % 146097 / 36524 = q100 at *
  generalize (n - 1) % 146097 = r400 at *
  generalize (n - 1) / 146097 = q400 at *
  refine ⟨by omega, l1, by omega, by omega, by omega, ?_⟩
  by_cases h : q1 = 4 ∨ q100 = 4
  · have hcond : (q1 == 4 || q100 == 4) = true := by simpa using h
    rw [if_pos hcond]
    exact .inl ⟨h, Nat.add_sub_cancel _ 1, rfl⟩
  · have hcond : (q1 == 4 || q100 == 4) = false := by simpa using h
    rw [if_neg (by rw [hcond]; exact Bool.false_ne_true)]
    exact .inr ⟨by omega, by omega, rfl, rfl⟩

theorem yearDay_lt {m n : Nat} (hm : 0 < m) (hmn : m < n) :
    (yearDay m).1 < (yearDay n).1 ∨
      (yearDay m).1 = (yearDay n).1 ∧ (yearDay m).2 < (yearDay n).2 := by
  obtain ⟨a400, a100, a4, a1, a, ha⟩ := exists_periods m
  obtain ⟨b400, b100, b4, b1, b, hb⟩ := exists_periods n
  generalize (yearDay m).1 = my, (yearDay m).2 = md at *
  generalize (yearDay n).1 = ny, (yearDay n).2 = nd at *
  obtain ⟨hasum, ha1, ha2, ha3, ha4, hadate⟩ := ha
  obtain ⟨hbsum, hb1, hb2, hb3, hb4, hbdate⟩ := hb
  -- The first period in which the days differ decides; the sum excludes the other order.
  obtain h400 | rfl | h400 := Nat.lt_trichotomy a400 b400
  · clear hasum hbsum
    exact .inl (by omega)
  · obtain h100 | rfl | h100 := Nat.lt_trichotomy a100 b100
    · clear hasum hbsum
      omega
    · obtain h4 | rfl | h4 := Nat.lt_trichotomy a4 b4
      · clear hasum hbsum
        exact .inl (by omega)
      · obtain h1 | rfl | h1 := Nat.lt_trichotomy a1 b1
        · clear hasum hbsum
          omega
        · omega
        · clear hadate hbdate
          omega
      · clear hadate hbdate
        omega
    · clear hadate hbdate
      omega
  · clear hadate hbdate
    omega

theorem monthDay_leap {year : Nat} (h : isLeap year = true) :
    monthDay year 365 [1, 2, 3, 4, 5, 6, 7, 8, 9, 10, 11] = (12, 31) := by
  simp [monthDay, daysInMonth, h]

/-- A year with a day 365 is a leap year. -/
theorem isLeap_of_last {n : Nat} (hlast : (yearDay n).2 = 365) :
    isLeap (yearDay n).1 = true := by
  obtain ⟨q400, q100, q4, q1, d, -, hd, h1, h4, h100, hdate⟩ := exists_periods n
  obtain ⟨hq, hyear, -⟩ | ⟨-, -, -, hday⟩ := hdate
  · rw [hyear]
    simp only [isLeap, Bool.and_eq_true, Bool.or_eq_true, beq_iff_eq, bne_iff_ne]
    omega
  · omega

/-- A date is that of the day in its year. -/
theorem ofOrdinal_eq (n : Nat) : ofOrdinal n =
    ((yearDay n).1, monthDay (yearDay n).1 (yearDay n).2 [1, 2, 3, 4, 5, 6, 7, 8, 9, 10, 11]) := by
  have hleap := isLeap_of_last (n := n)
  simp only [ofOrdinal]
  simp only [yearDay] at hleap ⊢
  split
  · next hlast =>
    rw [if_pos hlast] at hleap
    rw [monthDay_leap (hleap rfl)]
  · rfl

theorem ofOrdinal_lt {m n : Nat} (hm : 0 < m) (hmn : m < n) :
    [(ofOrdinal m).1, (ofOrdinal m).2.1, (ofOrdinal m).2.2] <
      [(ofOrdinal n).1, (ofOrdinal n).2.1, (ofOrdinal n).2.2] := by
  rw [ofOrdinal_eq, ofOrdinal_eq, List.cons_lt_cons_iff]
  cases yearDay_lt hm hmn with
  | inl hyear => exact .inl hyear
  | inr hday =>
    obtain ⟨hyear, hday⟩ := hday
    refine .inr ⟨hyear, ?_⟩
    rw [List.cons_lt_cons_iff, List.cons_lt_cons_iff]
    dsimp only
    rw [hyear]
    have hsorted : ([1, 2, 3, 4, 5, 6, 7, 8, 9, 10, 11] ++ [12]).Pairwise (· < ·) := by decide
    cases monthDay_lt (yearDay n).1 hday hsorted with
    | inl hmonth => exact .inl hmonth
    | inr hmonth => exact .inr ⟨hmonth.1, .inl hmonth.2⟩

/-- Days of a month have two digits. -/
theorem monthDay_snd_le (year : Nat) {n : Nat} {months : List Nat}
    (h : n < (months.map (daysInMonth year)).sum + 31) : (monthDay year n months).2 ≤ 31 := by
  induction months generalizing n with
  | nil =>
    rw [List.map_nil, List.sum_nil, Nat.zero_add] at h
    exact h
  | cons month months ih =>
    rw [List.map_cons, List.sum_cons] at h
    have hmonth : daysInMonth year month ≤ 31 := by
      rw [daysInMonth]
      split_ifs <;> decide
    rw [monthDay]
    split
    · next hn => exact (Nat.succ_le_of_lt hn).trans hmonth
    · exact ih (by omega)

theorem yearDay_fst_le {n : Nat} (hn : n ≤ maxOrdinal) : (yearDay n).1 ≤ 9999 := by
  have hmax : yearDay maxOrdinal = (9999, 364) := by decide
  obtain rfl | hpos := Nat.eq_zero_or_pos n
  · decide
  · obtain rfl | hlt := eq_or_lt_of_le hn
    · rw [hmax]
    · have hyear := yearDay_lt hpos hlt
      rw [hmax] at hyear
      omega

theorem ofOrdinal_fits {n : Nat} (hn : n ≤ maxOrdinal) :
    (ofOrdinal n).1 < 10 ^ 4 ∧ (ofOrdinal n).2.1 < 10 ^ 2 ∧ (ofOrdinal n).2.2 < 10 ^ 2 := by
  have hyear := yearDay_fst_le hn
  have hday : (yearDay n).2 < (([1, 2, 3, 4, 5, 6, 7, 8, 9, 10, 11] : List Nat).map
      (daysInMonth (yearDay n).1)).sum + 31 := by
    obtain ⟨q400, q100, q4, q1, d, -, hd, -, -, -, hdate⟩ := exists_periods n
    by_cases hlast : (yearDay n).2 = 365
    · simp [daysInMonth, isLeap_of_last hlast, hlast]
    · have hfebruary : 28 ≤ daysInMonth (yearDay n).1 2 := by
        rw [daysInMonth]
        split_ifs <;> decide
      have hsum : (([1, 2, 3, 4, 5, 6, 7, 8, 9, 10, 11] : List Nat).map
          (daysInMonth (yearDay n).1)).sum = 306 + daysInMonth (yearDay n).1 2 := by
        simp [daysInMonth]
        omega
      omega
  rw [ofOrdinal_eq]
  have hmonth := monthDay_fst_mem (yearDay n).1 (yearDay n).2 [1, 2, 3, 4, 5, 6, 7, 8, 9, 10, 11]
  have hmonths : ∀ month ∈ ([1, 2, 3, 4, 5, 6, 7, 8, 9, 10, 11] ++ [12] : List Nat),
      month < 10 ^ 2 := by decide
  exact ⟨by omega, hmonths _ hmonth, lt_of_le_of_lt (monthDay_snd_le _ hday) (by decide)⟩

/-! ## Timestamps -/

/-- `datetime.fromtimestamp(seconds, UTC)` with its microseconds, for a number of microseconds
since 1970; `none` where it raises. -/
def ofTimestamp (us : Int) : Option DateTime :=
  let micros := us + 719163 * 86400000000
  let ordinal := micros / 86400000000
  if ordinal < 1 ∨ (maxOrdinal : Int) < ordinal then none
  else
    let (year, month, day) := ofOrdinal ordinal.toNat
    let rest := (micros % 86400000000).toNat
    some ⟨year, month, day, rest / 3600000000, rest / 60000000 % 60, rest / 1000000 % 60,
      rest % 1000000, some 0⟩

def isoLayout : List (Nat × List Char) :=
  [(4, ['-']), (2, ['-']), (2, ['T']), (2, [':']), (2, [':']), (2, ['.']), (6, "+00:00".toList)]

def values (dt : DateTime) : List Nat :=
  [dt.year, dt.month, dt.day, dt.hour, dt.minute, dt.second, dt.microsecond]

theorem isoformatUtc_toList (dt : DateTime) :
    (isoformatUtc dt).toList = fieldsChars isoLayout dt.values := by
  simp [isoformatUtc, padded, fieldsChars, isoLayout, values, paddedChars]

/-- A timestamp is a day and the microseconds in it. -/
theorem ofTimestamp_eq_some {us : Int} {dt : DateTime} (h : ofTimestamp us = some dt) :
    ∃ day rest : Nat, us + 719163 * 86400000000 = day * 86400000000 + rest ∧
      rest < 86400000000 ∧ 0 < day ∧ day ≤ maxOrdinal ∧
      dt.values = [(ofOrdinal day).1, (ofOrdinal day).2.1, (ofOrdinal day).2.2] ++
        [rest / 3600000000, rest / 60000000 % 60, rest / 1000000 % 60, rest % 1000000] := by
  rw [ofTimestamp] at h
  by_cases hrange : (us + 719163 * 86400000000) / 86400000000 < 1 ∨
      (maxOrdinal : Int) < (us + 719163 * 86400000000) / 86400000000
  · rw [if_pos hrange] at h
    cases h
  · rw [if_neg hrange] at h
    cases h
    exact ⟨_, _, by omega, by omega, by omega, by omega, rfl⟩

theorem fits_values {us : Int} {dt : DateTime} (h : ofTimestamp us = some dt) :
    Fits isoLayout dt.values := by
  obtain ⟨day, rest, -, hrest, -, hday, hvalues⟩ := ofTimestamp_eq_some h
  obtain ⟨hy, hm, hd⟩ := ofOrdinal_fits hday
  rw [hvalues]
  exact ⟨by decide, hy, by decide, hm, by decide, hd, by decide, by omega, by decide, by omega,
    by decide, by omega, by decide, by omega, trivial⟩

theorem ofTimestamp_lt {m n : Int} {a b : DateTime} (hmn : m < n) (ha : ofTimestamp m = some a)
    (hb : ofTimestamp n = some b) : isoformatUtc a < isoformatUtc b := by
  rw [String.lt_iff_toList_lt, isoformatUtc_toList, isoformatUtc_toList]
  refine fieldsChars_lt ?_ (fits_values ha) (fits_values hb)
  obtain ⟨aday, arest, haeq, harest, hapos, -, havalues⟩ := ofTimestamp_eq_some ha
  obtain ⟨bday, brest, hbeq, hbrest, -, -, hbvalues⟩ := ofTimestamp_eq_some hb
  rw [havalues, hbvalues]
  obtain hday | rfl | hday := lt_trichotomy aday bday
  · exact append_lt_append rfl (.inl (ofOrdinal_lt hapos hday))
  · refine append_lt_append rfl (.inr ⟨rfl, ?_⟩)
    simp only [List.cons_lt_cons_iff]
    omega
  · omega

/-- Texts compare as the times do. -/
theorem isoformatUtc_lt_iff {m n : Int} {a b : DateTime} (ha : ofTimestamp m = some a)
    (hb : ofTimestamp n = some b) : isoformatUtc a < isoformatUtc b ↔ m < n := by
  constructor
  · intro h
    obtain hmn | rfl | hmn := lt_trichotomy m n
    · exact hmn
    · rw [Option.some.inj (ha.symm.trans hb)] at h
      exact absurd h (lt_irrefl _)
    · exact absurd (ofTimestamp_lt hmn hb ha) h.asymm
  · exact fun h => ofTimestamp_lt h ha hb

end DateTime
end ParallaxKernel.Lib
