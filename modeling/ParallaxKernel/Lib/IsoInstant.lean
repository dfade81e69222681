import ParallaxKernel.Lib.IsoOrder

/-!
# Instants

The instant that a time denotes, a time without an offset taken as UTC. A time that is brought to
UTC, written and read again denotes the instant that it denoted before.
-/

namespace ParallaxKernel.Lib
namespace DateTime

/-! ## Dates -/

/-- The date is in the calendar. -/
structure ValidDate (year month day : Nat) : Prop where
  year_pos : 0 < year
  year_le : year ≤ 9999
  month_pos : 0 < month
  month_le : month ≤ 12
  day_pos : 0 < day
  day_le : day ≤ daysInMonth year month

theorem daysBeforeYear_eq (q400 : Nat) {q100 q4 q1 : Nat} (h100 : q100 < 4) (h4 : q4 < 25) (h1 : q1 < 4) :
    daysBeforeYear (q400 * 400 + q100 * 100 + q4 * 4 + q1 + 1) =
      q400 * 146097 + q100 * 36524 + q4 * 1461 + q1 * 365 := by
  dsimp only [daysBeforeYear]
  omega

theorem daysBeforeYear_yearDay {n : Nat} (hn : 0 < n) :
    daysBeforeYear (yearDay n).1 + (yearDay n).2 + 1 = n := by
  obtain ⟨q400, q100, q4, q1, d, hsum, hd, h1, h4, h100, hdate⟩ := exists_periods n
  obtain ⟨hlast, hyear, hday⟩ | ⟨hq1, hq100, hyear, hday⟩ := hdate
  · rw [hyear, hday]
    by_cases hq100 : q100 = 4
    · -- the last day of 400 years
      have hlast := daysBeforeYear_eq q400 (show 3 < 4 by omega) (show 24 < 25 by omega)
        (show 3 < 4 by omega)
      rw [show q400 * 400 + q100 * 100 + q4 * 4 + q1 = q400 * 400 + 3 * 100 + 24 * 4 + 3 + 1
        by omega, hlast]
      omega
    · have hlast := daysBeforeYear_eq q400 (show q100 < 4 by omega) (show q4 < 25 by omega)
        (show 3 < 4 by omega)
      rw [show q400 * 400 + q100 * 100 + q4 * 4 + q1 = q400 * 400 + q100 * 100 + q4 * 4 + 3 + 1
        by omega, hlast]
      omega
  · rw [hyear, hday, daysBeforeYear_eq q400 hq100 (by omega) hq1]
    omega

/-- The months before the month of a day, and the day in its month. -/
theorem monthDay_split (year : Nat) {n : Nat} {months : List Nat}
    (h : n < ((months ++ [12]).map (daysInMonth year)).sum) : ∃ before after,
    months ++ [12] = before ++ (monthDay year n months).1 :: after ∧
      (before.map (daysInMonth year)).sum + (monthDay year n months).2 = n + 1 ∧
      0 < (monthDay year n months).2 ∧
      (monthDay year n months).2 ≤ daysInMonth year (monthDay year n months).1 := by
  induction months generalizing n with
  | nil =>
    refine ⟨[], [], rfl, ?_, Nat.succ_pos n, ?_⟩
    · simp [monthDay]
    · simpa [monthDay, Nat.succ_le_iff] using h
  | cons month months ih =>
    rw [monthDay]
    by_cases hn : n < daysInMonth year month
    · rw [if_pos hn]
      exact ⟨[], months ++ [12], rfl, by simp, Nat.succ_pos n, hn⟩
    · rw [if_neg hn]
      rw [List.cons_append, List.map_cons, List.sum_cons] at h
      obtain ⟨before, after, hsplit, hsum, hpos, hle⟩ :=
        ih (n := n - daysInMonth year month) (by omega)
      refine ⟨month :: before, after, ?_, ?_, hpos, hle⟩
      · rw [List.cons_append, hsplit]
        rfl
      · rw [List.map_cons, List.sum_cons]
        omega

theorem daysBeforeMonth_of_split (year : Nat) {month : Nat} {before after : List Nat}
    (h : [1, 2, 3, 4, 5, 6, 7, 8, 9, 10, 11, 12] = before ++ month :: after) :
    0 < month ∧ month ≤ 12 ∧
      daysBeforeMonth year month = (before.map (daysInMonth year)).sum := by
  have hlen : before.length < 12 := by
    have hlengths := congrArg List.length h
    simp only [List.length_cons, List.length_nil, List.length_append] at hlengths
    omega
  have hbefore : before = (List.range before.length).map (· + 1) := by
    have htake : before = [1, 2, 3, 4, 5, 6, 7, 8, 9, 10, 11, 12].take before.length := by
      rw [h, List.take_left]
    have hall : ∀ k < 12, [1, 2, 3, 4, 5, 6, 7, 8, 9, 10, 11, 12].take k =
        (List.range k).map (· + 1) := by decide
    rw [htake, hall _ hlen, List.length_map, List.length_range]
  have hmonth : month = before.length + 1 := by
    have hget : [1, 2, 3, 4, 5, 6, 7, 8, 9, 10, 11, 12][before.length]? = some month := by
      rw [h]
      simp
    have hall : ∀ k < 12, [1, 2, 3, 4, 5, 6, 7, 8, 9, 10, 11, 12][k]? = some (k + 1) := by decide
    exact Option.some.inj (hget.symm.trans (hall _ hlen))
  refine ⟨by omega, by omega, ?_⟩
  rw [daysBeforeMonth, hmonth, Nat.add_sub_cancel]
  conv_rhs => rw [hbefore, List.map_map]
  rfl

theorem yearDay_snd_lt (n : Nat) :
    (yearDay n).2 < (([1, 2, 3, 4, 5, 6, 7, 8, 9, 10, 11] ++ [12] : List Nat).map
      (daysInMonth (yearDay n).1)).sum := by
  obtain ⟨q400, q100, q4, q1, d, -, hd, -, -, -, hdate⟩ := exists_periods n
  by_cases hlast : (yearDay n).2 = 365
  · simp [daysInMonth, isLeap_of_last hlast, hlast]
  · have hfebruary : 28 ≤ daysInMonth (yearDay n).1 2 := by
      rw [daysInMonth]
      split_ifs <;> decide
    have hsum : (([1, 2, 3, 4, 5, 6, 7, 8, 9, 10, 11] ++ [12] : List Nat).map
        (daysInMonth (yearDay n).1)).sum = 337 + daysInMonth (yearDay n).1 2 := by
      simp [daysInMonth]
      omega
    omega

/-- The date of an ordinal, and the ordinal of that date. -/
theorem ofOrdinal_spec {n : Nat} (hpos : 0 < n) (hle : n ≤ maxOrdinal) :
    ValidDate (ofOrdinal n).1 (ofOrdinal n).2.1 (ofOrdinal n).2.2 ∧
      toOrdinal (ofOrdinal n).1 (ofOrdinal n).2.1 (ofOrdinal n).2.2 = n := by
  have hyear := daysBeforeYear_yearDay hpos
  obtain ⟨before, after, hsplit, hsum, hday, hdayLe⟩ :=
    monthDay_split (yearDay n).1 (yearDay_snd_lt n)
  rw [ofOrdinal_eq]
  dsimp only
  generalize monthDay (yearDay n).1 (yearDay n).2 [1, 2, 3, 4, 5, 6, 7, 8, 9, 10, 11] = date at *
  obtain ⟨hmonth, hmonthLe, hbefore⟩ := daysBeforeMonth_of_split (yearDay n).1 hsplit
  refine ⟨⟨?_, yearDay_fst_le hle, hmonth, hmonthLe, hday, hdayLe⟩, ?_⟩
  · obtain ⟨q400, q100, q4, q1, d, -, -, -, -, -, hdate⟩ := exists_periods n
    omega
  · rw [toOrdinal, hbefore]
    omega

/-! ## Instants -/

/-- Microseconds from the start of 1970 in UTC. -/
def timestamp (dt : DateTime) : Int :=
  ((toOrdinal dt.year dt.month dt.day * 86400 + dt.hour * 3600 + dt.minute * 60 + dt.second) *
    1000000 + dt.microsecond : Nat) - dt.offset.getD 0 - 719163 * 86400000000

theorem toUtc_eq (dt : DateTime) : toUtc dt =
    match ofTimestamp dt.timestamp with
    | some utc => .ok utc
    | none => .error (.overflow "date value out of range") := by
  simp only [toUtc, ofTimestamp, timestamp, Int.sub_add_cancel]
  split_ifs <;> rfl

/-- A time in UTC that `datetime` can hold. -/
structure Valid (dt : DateTime) : Prop where
  date : ValidDate dt.year dt.month dt.day
  hour : dt.hour < 24
  minute : dt.minute < 60
  second : dt.second < 60
  microsecond : dt.microsecond < 1000000

/-- The time at an instant is a time in UTC, and that instant is what it denotes. -/
theorem ofTimestamp_spec {us : Int} {dt : DateTime} (h : ofTimestamp us = some dt) :
    dt.Valid ∧ dt.offset = some 0 ∧ dt.timestamp = us := by
  simp only [ofTimestamp] at h
  split_ifs at h with hrange
  have hspec := ofOrdinal_spec (n := ((us + 719163 * 86400000000) / 86400000000).toNat)
    (by omega) (by omega)
  obtain rfl := Option.some.inj h
  refine ⟨⟨hspec.1, ?_, ?_, ?_, ?_⟩, rfl, ?_⟩
  · dsimp only
    omega
  · dsimp only
    omega
  · dsimp only
    omega
  · dsimp only
    omega
  · simp only [timestamp, hspec.2, Option.getD_some]
    omega

/-! ## Reading what was written -/

theorem parseDigits_add (p : List Char) (k l acc : Nat) :
    parseDigits p (k + l) acc = (parseDigits p k acc).bind fun r => parseDigits r.2 l r.1 := by
  induction k generalizing p acc with
  | zero => simp [parseDigits]
  | succ k ih =>
    rw [Nat.add_right_comm]
    cases p with
    | nil => rfl
    | cons c p =>
      rw [parseDigits, parseDigits]
      split_ifs
      · exact ih p _
      · rfl

theorem digitChar_digit {n : Nat} (hn : n < 10) :
    isDigit (Nat.digitChar n) = true ∧ (Nat.digitChar n).toNat = 48 + n := by
  have h : ∀ n < 10, isDigit (Nat.digitChar n) = true ∧ (Nat.digitChar n).toNat = 48 + n := by
    decide
  exact h n hn

theorem parseDigits_digit {n : Nat} (hn : n < 10) (rest : List Char) (acc : Nat) :
    parseDigits (Nat.digitChar n :: rest) 1 acc = some (acc * 10 + n, rest) := by
  obtain ⟨hdigit, hvalue⟩ := digitChar_digit hn
  rw [parseDigits, if_pos hdigit, parseDigits, hvalue, Nat.add_sub_cancel_left]

theorem paddedChars_one {n : Nat} (hn : n < 10) : paddedChars 1 n = [Nat.digitChar n] := by
  rw [paddedChars, Nat.toDigits_of_lt_base hn]
  rfl

/-- A padded number is read back, whatever follows it. -/
theorem parseDigits_padded (width : Nat) {n : Nat} (hn : n < 10 ^ (width + 1)) (rest : List Char)
    (acc : Nat) : parseDigits (paddedChars (width + 1) n ++ rest) (width + 1) acc =
      some (acc * 10 ^ (width + 1) + n, rest) := by
  induction width generalizing n rest with
  | zero =>
    have hlt : n < 10 := hn
    rw [paddedChars_one hlt]
    exact parseDigits_digit hlt rest acc
  | succ width ih =>
    have hdiv : n / 10 < 10 ^ (width + 1) := by omega
    rw [paddedChars_succ, List.append_assoc, parseDigits_add, ih hdiv, Option.bind_some]
    dsimp only
    rw [List.singleton_append, parseDigits_digit (Nat.mod_lt n (by decide))]
    have hvalue : (acc * 10 ^ (width + 1) + n / 10) * 10 + n % 10 =
        acc * 10 ^ (width + 1 + 1) + n := by
      rw [Nat.pow_succ 10 (width + 1), ← Nat.mul_assoc]
      omega
    rw [hvalue]

theorem isDigit_of_mem_padded (width : Nat) {n : Nat} (hn : n < 10 ^ (width + 1)) {c : Char}
    (hc : c ∈ paddedChars (width + 1) n) : isDigit c = true := by
  induction width generalizing n with
  | zero =>
    have hlt : n < 10 := hn
    rw [paddedChars_one hlt] at hc
    exact List.mem_singleton.1 hc ▸ (digitChar_digit hlt).1
  | succ width ih =>
    rw [paddedChars_succ] at hc
    cases List.mem_append.1 hc with
    | inl h => exact ih (by omega) h
    | inr h => exact List.mem_singleton.1 h ▸ (digitChar_digit (Nat.mod_lt n (by decide))).1

theorem isDigit_peek_padded (width : Nat) {n : Nat} (hn : n < 10 ^ (width + 1)) (rest : List Char) :
    isDigit (peek (paddedChars (width + 1) n ++ rest)) = true := by
  cases hchars : paddedChars (width + 1) n with
  | nil =>
    have hlen := length_paddedChars hn
    rw [hchars] at hlen
    cases hlen
  | cons c cs =>
    have hmem : c ∈ paddedChars (width + 1) n := by
      rw [hchars]
      exact List.mem_cons_self
    exact isDigit_of_mem_padded width hn hmem

/-- Digits are no separators. -/
theorem ne_of_isDigit {c d : Char} (hc : isDigit c = true) (hd : isDigit d = false) : c ≠ d := by
  rintro rfl
  rw [hc] at hd
  cases hd

/-- The part of a written time after its date. -/
def timeChars (dt : DateTime) : List Char :=
  paddedChars 2 dt.hour ++ ':' :: (paddedChars 2 dt.minute ++ ':' ::
    (paddedChars 2 dt.second ++ '.' :: paddedChars 6 dt.microsecond))

def dateChars (dt : DateTime) : List Char :=
  paddedChars 4 dt.year ++ '-' :: (paddedChars 2 dt.month ++ '-' :: paddedChars 2 dt.day)

theorem isoformatUtc_split (dt : DateTime) : (isoformatUtc dt).toList =
    dt.dateChars ++ 'T' :: (dt.timeChars ++ "+00:00".toList) := by
  rw [isoformatUtc_toList]
  simp [fieldsChars, isoLayout, values, dateChars, timeChars]

theorem Valid.month_lt {dt : DateTime} (h : dt.Valid) : dt.month < 100 := by
  have hmonth := h.date.month_le
  omega

theorem Valid.day_lt {dt : DateTime} (h : dt.Valid) : dt.day < 100 := by
  have hday := h.date.day_le
  have hmonth : daysInMonth dt.year dt.month ≤ 31 := by
    unfold daysInMonth
    split_ifs <;> decide
  omega

theorem Valid.year_lt {dt : DateTime} (h : dt.Valid) : dt.year < 10000 := by
  have hyear := h.date.year_le
  omega

theorem length_dateChars {dt : DateTime} (h : dt.Valid) : dt.dateChars.length = 10 := by
  simp only [dateChars, List.length_append, List.length_cons,
    @length_paddedChars 3 _ h.year_lt, @length_paddedChars 1 _ h.month_lt,
    @length_paddedChars 1 _ h.day_lt]

theorem parseDate_dateChars {dt : DateTime} (h : dt.Valid) (rest : List Char) :
    parseDate (dt.dateChars ++ rest) 10 = some (dt.year, dt.month, dt.day) := by
  have hmonth : peek (paddedChars 2 dt.month ++ '-' :: (paddedChars 2 dt.day ++ rest)) ≠ 'W' :=
    ne_of_isDigit (isDigit_peek_padded 1 h.month_lt _) (by decide)
  simp only [parseDate, dateChars, List.append_assoc, List.cons_append]
  rw [parseDigits_padded 3 h.year_lt]
  simp only [Nat.zero_mul, Nat.zero_add, Option.bind_eq_bind, Option.bind_some, peek,
    List.headD_cons, if_true, List.drop_one, List.tail_cons]
  rw [if_neg (by exact hmonth), parseDigits_padded 1 h.month_lt]
  simp only [Nat.zero_mul, Nat.zero_add, Option.bind_some, List.headD_cons, ne_eq,
    not_true_eq_false, and_false, if_false, List.tail_cons]
  rw [parseDigits_padded 1 h.day_lt]
  simp

/-- A component with a colon after it. -/
theorem parseHhMmSsFf_colon {n : Nat} (hn : n < 100) (left : Nat) (values : List Nat)
    {p : List Char} {stop : Nat} (hstop : stop < p.length) :
    parseHhMmSsFf (left + 1) values true (paddedChars 2 n ++ ':' :: p) stop =
      parseHhMmSsFf left (values ++ [n]) true p stop := by
  rw [parseHhMmSsFf, parseDigits_padded 1 hn]
  simp [peek, Nat.not_le.2 hstop]

/-- A component with a fraction after it. -/
theorem parseHhMmSsFf_point {n : Nat} (hn : n < 100) (left : Nat) {values : List Nat}
    (hvalues : values ≠ []) {p : List Char} {stop : Nat} (hstop : stop < p.length) :
    parseHhMmSsFf (left + 1) values true (paddedChars 2 n ++ '.' :: p) stop =
      (parseFraction p stop).map fun r => ⟨values ++ [n], r.1, r.2⟩ := by
  rw [parseHhMmSsFf, parseDigits_padded 1 hn]
  simp [peek, Nat.not_le.2 hstop, hvalues]

theorem parseTime_timeChars {dt : DateTime} (h : dt.Valid) :
    parseTime (dt.timeChars ++ "+00:00".toList) =
      some (⟨[dt.hour, dt.minute, dt.second], dt.microsecond, true⟩, some (0, 0)) := by
  have hhour : dt.hour < 100 := by
    have := h.hour
    omega
  have hminute : dt.minute < 100 := by
    have := h.minute
    omega
  have hsecond : dt.second < 100 := by
    have := h.second
    omega
  have hzone : (dt.timeChars ++ "+00:00".toList).dropWhile
      (fun c => c ≠ '+' ∧ c ≠ '-' ∧ c ≠ 'Z') = "+00:00".toList := by
    rw [List.dropWhile_append_of_pos]
    · decide
    intro c hc
    have hdigit : isDigit c = true → c ≠ '+' ∧ c ≠ '-' ∧ c ≠ 'Z' := fun hc =>
      ⟨ne_of_isDigit hc (by decide), ne_of_isDigit hc (by decide), ne_of_isDigit hc (by decide)⟩
    simp only [timeChars, List.mem_append, List.mem_cons] at hc
    simp only [decide_eq_true_eq]
    rcases hc with hc | rfl | hc | rfl | hc | rfl | hc
    · exact hdigit (isDigit_of_mem_padded 1 hhour hc)
    · decide
    · exact hdigit (isDigit_of_mem_padded 1 hminute hc)
    · decide
    · exact hdigit (isDigit_of_mem_padded 1 hsecond hc)
    · decide
    · exact hdigit (isDigit_of_mem_padded 5 h.microsecond hc)
  have hfraction : parseFraction (paddedChars 6 dt.microsecond ++ "+00:00".toList) 6 =
      some (dt.microsecond, true) := by
    have hlen := @length_paddedChars 5 _ h.microsecond
    rw [parseFraction, List.length_append, hlen]
    show (parseDigits _ 6).bind _ = _
    rw [parseDigits_padded 5 h.microsecond]
    simp [peek, isDigit]
  have hlen := @length_paddedChars 5 _ h.microsecond
  have htime : parseHhMmSsFf 3 [] true (dt.timeChars ++ "+00:00".toList) 6 =
      some ⟨[dt.hour, dt.minute, dt.second], dt.microsecond, true⟩ := by
    simp only [timeChars, List.append_assoc, List.cons_append]
    rw [parseHhMmSsFf_colon hhour 2 [] (by simp [hlen]; omega),
      parseHhMmSsFf_colon hminute 1 _ (by simp [hlen]),
      parseHhMmSsFf_point hsecond 0 (by simp) (by simp [hlen]), hfraction]
    rfl
  have hoffset : parseHhMmSsFf 3 [] true ['0', '0', ':', '0', '0'] 0 =
      some ⟨[0, 0], 0, false⟩ := rfl
  have hlist : "+00:00".toList = ['+', '0', '0', ':', '0', '0'] := rfl
  rw [parseTime, hzone]
  simp only [hlist, List.length_cons, List.length_nil, Option.bind_eq_bind] at htime ⊢
  rw [htime]
  simp only [Option.bind_some]
  rfl

theorem mk?_of_valid {dt : DateTime} (h : dt.Valid) (more : Bool) :
    mk? (dt.year, dt.month, dt.day) ⟨[dt.hour, dt.minute, dt.second], dt.microsecond, more⟩
      dt.offset = .ok dt := by
  obtain ⟨⟨hyear, hyearLe, hmonth, hmonthLe, hday, hdayLe⟩, hhour, hminute, hsecond, -⟩ := h
  have hget0 : [dt.hour, dt.minute, dt.second].getD 0 0 = dt.hour := rfl
  have hget1 : [dt.hour, dt.minute, dt.second].getD 1 0 = dt.minute := rfl
  have hget2 : [dt.hour, dt.minute, dt.second].getD 2 0 = dt.second := rfl
  simp only [mk?, hget0, hget1, hget2]
  rw [if_neg (by omega), if_neg (by omega), if_neg (by omega), if_neg (by omega),
    if_neg (by omega), if_neg (by omega)]

/-- A time in UTC that was written is read back. -/
theorem fromIsoformat_isoformatUtc {dt : DateTime} (h : dt.Valid) (hoffset : dt.offset = some 0) :
    fromIsoformat dt.isoformatUtc = .ok dt := by
  have hlen := length_dateChars h
  have hdrop4 : (dt.dateChars ++ 'T' :: (dt.timeChars ++ "+00:00".toList)).drop 4 =
      '-' :: (paddedChars 2 dt.month ++ '-' :: (paddedChars 2 dt.day ++
        'T' :: (dt.timeChars ++ "+00:00".toList))) := by
    simp only [dateChars, List.append_assoc, List.cons_append]
    exact List.drop_left' (@length_paddedChars 3 _ h.year_lt)
  have hlocation : separatorLocation
      (dt.dateChars ++ 'T' :: (dt.timeChars ++ "+00:00".toList)) = some 10 := by
    have hmonth : peek (paddedChars 2 dt.month ++ '-' :: (paddedChars 2 dt.day ++
        'T' :: (dt.timeChars ++ "+00:00".toList))) ≠ 'W' :=
      ne_of_isDigit (isDigit_peek_padded 1 h.month_lt _) (by decide)
    have hdrop5 := congrArg (List.drop 1) hdrop4
    rw [List.drop_drop, List.drop_one, List.tail_cons] at hdrop5
    simp only [separatorLocation]
    rw [if_neg (by simp [hlen]; omega), if_pos (by rw [hdrop4]; rfl), hdrop5, if_neg hmonth]
  have hparts : parseParts dt.isoformatUtc.toList = some ((dt.year, dt.month, dt.day),
      ⟨[dt.hour, dt.minute, dt.second], dt.microsecond, true⟩, some (0, 0)) := by
    rw [isoformatUtc_split, parseParts, if_neg (by simp [hlen]; omega), hlocation]
    simp only [Option.bind_eq_bind, Option.bind_some, parseDate_dateChars h]
    rw [List.drop_left' hlen]
    simp only [parseTime_timeChars h, Option.bind_some]
  rw [fromIsoformat, hparts]
  have hzone : zoneOffset (some (0, 0)) = .ok dt.offset := by
    rw [hoffset]
    rfl
  simp only [hzone]
  exact mk?_of_valid h true

/-! ## Ends of days and seconds -/

/-- The last microsecond of the day in UTC. -/
def endOfDay (us : Int) : Int := us / 86400000000 * 86400000000 + 86399999999

theorem ofTimestamp_endOfDay {us : Int} {dt : DateTime} (h : ofTimestamp us = some dt) :
    ofTimestamp (endOfDay us) =
      some { dt with hour := 23, minute := 59, second := 59, microsecond := 999999 } := by
  have hday : (endOfDay us + 719163 * 86400000000) / 86400000000 =
      (us + 719163 * 86400000000) / 86400000000 := by
    unfold endOfDay
    omega
  have hrest : (endOfDay us + 719163 * 86400000000) % 86400000000 = 86399999999 := by
    unfold endOfDay
    omega
  simp only [ofTimestamp] at h ⊢
  rw [hday, hrest]
  split_ifs at h with hrange
  rw [if_neg hrange, ← Option.some.inj h]
  rfl

/-- The microseconds of a time are those of its instant. -/
theorem microsecond_ofTimestamp {us : Int} {dt : DateTime} (h : ofTimestamp us = some dt) :
    (dt.microsecond : Int) = us % 1000000 := by
  simp only [ofTimestamp] at h
  split_ifs at h with hrange
  rw [← Option.some.inj h]
  dsimp only
  omega

theorem ofTimestamp_endOfSecond {us : Int} {dt : DateTime} (h : ofTimestamp us = some dt)
    (hwhole : us % 1000000 = 0) :
    ofTimestamp (us + 999999) = some { dt with microsecond := 999999 } := by
  have hday : (us + 999999 + 719163 * 86400000000) / 86400000000 =
      (us + 719163 * 86400000000) / 86400000000 := by
    omega
  simp only [ofTimestamp] at h ⊢
  rw [hday]
  split_ifs at h with hrange
  rw [if_neg hrange, ← Option.some.inj h]
  dsimp only
  congr 2 <;> omega

theorem isoformatUtc_le_iff {m n : Int} {a b : DateTime} (ha : ofTimestamp m = some a)
    (hb : ofTimestamp n = some b) : isoformatUtc a ≤ isoformatUtc b ↔ m ≤ n := by
  rw [← not_lt, ← not_lt, isoformatUtc_lt_iff hb ha]

/-! ## Texts of dates -/

/-- `date.fromisoformat`, which looks at the number of bytes and not at what follows the date. -/
def dateFromIsoformat (s : String) : Except Error (Nat × Nat × Nat) :=
  let len := (s.toList.map Char.utf8Size).sum
  if len = 7 ∨ len = 8 ∨ len = 10 then
    match parseDate s.toList len with
    | none => .error (invalid s)
    | some date => do
      let _ ← mk? date ⟨[], 0, false⟩ none
      .ok date
  else .error (invalid s)

/-- `datetime.fromisoformat` reads a time in the text. -/
def hasTime (s : String) : Bool :=
  match parseParts s.toList with
  | some (_, time, _) => !time.values.isEmpty
  | none => false

end DateTime
end ParallaxKernel.Lib
