import Mathlib.Algebra.Ring.Nat
import Mathlib.Tactic.Common

/-!
# ISO 8601 timestamps

Python's `datetime` as far as timestamps need it: `fromisoformat`, `astimezone` to UTC and
`isoformat` with microseconds. The parser reads a text as CPython 3.11 does, whose end of the text
reads as the NUL character.
-/

namespace ParallaxKernel.Lib

/-- A date and a time of day, with the offset from UTC in microseconds where there is one. -/
structure DateTime where
  year : Nat
  month : Nat
  day : Nat
  hour : Nat
  minute : Nat
  second : Nat
  microsecond : Nat
  offset : Option Int
  deriving DecidableEq

inductive DateTime.Error where
  | value (msg : String)
  | overflow (msg : String)
  deriving DecidableEq

namespace DateTime

/-! ## The calendar -/

def isLeap (year : Nat) : Bool := year % 4 == 0 && (year % 100 != 0 || year % 400 == 0)

def daysInMonth (year month : Nat) : Nat :=
  if month == 2 then if isLeap year then 29 else 28
  else if month == 4 || month == 6 || month == 9 || month == 11 then 30
  else 31

def daysBeforeYear (year : Nat) : Nat :=
  let y := year - 1
  y * 365 + y / 4 - y / 100 + y / 400

def daysBeforeMonth (year month : Nat) : Nat :=
  ((List.range (month - 1)).map fun m => daysInMonth year (m + 1)).sum

/-- The number of a day, the first of January of the year 1 being day 1. -/
def toOrdinal (year month day : Nat) : Nat :=
  daysBeforeYear year + daysBeforeMonth year month + day

/-- The last day of the year 9999. -/
def maxOrdinal : Nat := 3652059

/-- The month and the day of the `n`-th day of a year, counted from 0. -/
def monthDay (year : Nat) (n : Nat) : (months : List Nat) → Nat × Nat
  | [] => (12, n + 1)
  | month :: months =>
    if n < daysInMonth year month then (month, n + 1)
    else monthDay year (n - daysInMonth year month) months

/-- The date of an ordinal. -/
def ofOrdinal (n : Nat) : Nat × Nat × Nat :=
  let n := n - 1
  let n400 := n / 146097
  let n := n % 146097
  let n100 := n / 36524
  let n := n % 36524
  let n4 := n / 1461
  let n := n % 1461
  let n1 := n / 365
  let n := n % 365
  let year := n400 * 400 + n100 * 100 + n4 * 4 + n1 + 1
  if n1 == 4 || n100 == 4 then (year - 1, 12, 31)
  else
    let (month, day) := monthDay year n [1, 2, 3, 4, 5, 6, 7, 8, 9, 10, 11]
    (year, month, day)

/-- The weekday of a date, Monday being 0. -/
def weekday (year month day : Nat) : Nat := (toOrdinal year month day + 6) % 7

/-- The ordinal of the Monday of the first week of a year. -/
def isoWeek1Monday (year : Nat) : Nat :=
  let firstDay := toOrdinal year 1 1
  let firstWeekday := (firstDay + 6) % 7
  if firstWeekday > 3 then firstDay + 7 - firstWeekday else firstDay - firstWeekday

def ofIsoWeek (year week day : Nat) : Option (Nat × Nat × Nat) :=
  let firstWeekday := weekday year 1 1
  let long := firstWeekday == 3 || (firstWeekday == 2 && isLeap year)
  if year = 0 ∨ week = 0 ∨ 53 < week ∨ (week = 53 ∧ !long) ∨ day = 0 ∨ 7 < day then none
  else some (ofOrdinal (isoWeek1Monday year + (week - 1) * 7 + (day - 1)))

/-! ## Parsing -/

def isDigit (c : Char) : Bool := '0' ≤ c && c ≤ '9'

/-- The character at the front of a text, NUL at its end. -/
def peek (p : List Char) : Char := p.headD '\x00'

/-- Reads exactly `k` digits. -/
def parseDigits (p : List Char) (k : Nat) (acc : Nat := 0) : Option (Nat × List Char) :=
  match k, p with
  | 0, p => some (acc, p)
  | _ + 1, [] => none
  | k + 1, c :: p => if isDigit c then parseDigits p k (acc * 10 + (c.toNat - 48)) else none

/-- Where the date of a text of at least 7 characters ends. -/
def separatorLocation (s : List Char) : Option Nat :=
  let at' (n : Nat) := peek (s.drop n)
  if s.length = 7 then some 7
  else if at' 4 = '-' then
    if at' 5 = 'W' then
      if s.length < 8 then none
      else if 8 < s.length ∧ at' 8 = '-' then
        if s.length = 9 then none
        else if 10 < s.length ∧ isDigit (at' 10) then some 8
        else some 10
      else some 8
    else some 10
  else if at' 4 = 'W' then
    let idx := 7 + ((s.drop 7).takeWhile isDigit).length
    if idx < 9 then some idx
    else if idx % 2 = 0 then some 7
    else some 8
  else some 8

/-- A date that ends after `len` characters. -/
def parseDate (s : List Char) (len : Nat) : Option (Nat × Nat × Nat) := do
  let (year, p) ← parseDigits s 4
  let usesSeparator := peek p = '-'
  let p := if usesSeparator then p.drop 1 else p
  if peek p = 'W' then
    let (week, p) ← parseDigits (p.drop 1) 2
    if s.length - p.length < len then
      if usesSeparator ∧ peek p ≠ '-' then none
      else
        let (day, _) ← parseDigits (if usesSeparator then p.drop 1 else p) 1
        ofIsoWeek year week day
    else ofIsoWeek year week 1
  else
    let (month, p) ← parseDigits p 2
    if usesSeparator ∧ peek p ≠ '-' then none
    else
      let (day, _) ← parseDigits (if usesSeparator then p.drop 1 else p) 2
      some (year, month, day)

/-- Microseconds out of the digits that follow the seconds; `stop` characters follow the time. Also
whether anything is left of the text. -/
def parseFraction (p : List Char) (stop : Nat) : Option (Nat × Bool) := do
  let toParse := min 6 (p.length - stop)
  let (n, p) ← parseDigits p toParse
  some (n * 10 ^ (6 - toParse), peek (p.dropWhile isDigit) ≠ '\x00')

/-- The components that have been read, from the hour on, and whether anything is left of the
text. -/
structure TimeParts where
  values : List Nat
  microsecond : Nat
  more : Bool

/-- Reads `[HH[:?MM[:?SS[.fff[fff]]]]]`, `left` components of it; `stop` characters follow. -/
def parseHhMmSsFf (left : Nat) (values : List Nat) (hasSeparator : Bool) (p : List Char)
    (stop : Nat) : Option TimeParts :=
  match left with
  | 0 => (parseFraction p stop).map fun r => ⟨values, r.1, r.2⟩
  | left + 1 => do
    let (n, p) ← parseDigits p 2
    let values := values ++ [n]
    let c := peek p
    let hasSeparator := if values.length = 1 then c = ':' else hasSeparator
    if p.length ≤ stop + 1 ∧ c.toNat < 128 then some ⟨values, 0, c ≠ '\x00'⟩
    else if hasSeparator ∧ c = ':' then parseHhMmSsFf left values hasSeparator (p.drop 1) stop
    else if c = '.' ∨ c = ',' then
      (parseFraction (p.drop 1) stop).map fun r => ⟨values, r.1, r.2⟩
    else if hasSeparator then none
    else parseHhMmSsFf left values hasSeparator p stop

def TimeParts.seconds (t : TimeParts) : Nat :=
  t.values.getD 0 0 * 3600 + t.values.getD 1 0 * 60 + t.values.getD 2 0

/-- A time of day and its offset from UTC in seconds and microseconds. -/
def parseTime (p : List Char) : Option (TimeParts × Option (Int × Int)) := do
  let zone := p.dropWhile fun c => c ≠ '+' ∧ c ≠ '-' ∧ c ≠ 'Z'
  let time ← parseHhMmSsFf 3 [] true p zone.length
  match zone with
  | [] => if time.more then none else some (time, none)
  | 'Z' :: rest => if rest = [] then some (time, some (0, 0)) else none
  | sign :: rest =>
    let offset ← parseHhMmSsFf 3 [] true rest 0
    if offset.more then none
    else
      let factor : Int := if sign = '-' then -1 else 1
      some (time, some (factor * offset.seconds, factor * offset.microsecond))

def invalid (s : String) : Error := .value ("Invalid isoformat string: '" ++ s ++ "'")

/-- The offset of a time zone; an offset of no whole second is UTC. -/
def zoneOffset : Option (Int × Int) → Except Error (Option Int)
  | none => .ok none
  | some (seconds, microseconds) =>
    if seconds = 0 then .ok (some 0)
    else if (seconds * 1000000 + microseconds).natAbs < 86400000000 then
      .ok (some (seconds * 1000000 + microseconds))
    else .error (.value ("offset must be a timedelta strictly between -timedelta(hours=24) and " ++
      "timedelta(hours=24)"))

/-- The constructor of `datetime`, with its range checks. -/
def mk? (date : Nat × Nat × Nat) (time : TimeParts) (offset : Option Int) :
    Except Error DateTime :=
  let (year, month, day) := date
  let hour := time.values.getD 0 0
  let minute := time.values.getD 1 0
  let second := time.values.getD 2 0
  if year = 0 ∨ 9999 < year then .error (.value ("year " ++ year.repr ++ " is out of range"))
  else if month = 0 ∨ 12 < month then .error (.value "month must be in 1..12")
  else if day = 0 ∨ daysInMonth year month < day then
    .error (.value "day is out of range for month")
  else if 23 < hour then .error (.value "hour must be in 0..23")
  else if 59 < minute then .error (.value "minute must be in 0..59")
  else if 59 < second then .error (.value "second must be in 0..59")
  else .ok ⟨year, month, day, hour, minute, second, time.microsecond, offset⟩

/-- The date and the time of a text, any character between them. -/
def parseParts (s : List Char) :
    Option ((Nat × Nat × Nat) × TimeParts × Option (Int × Int)) := do
  if s.length < 7 then none
  else
    let loc ← separatorLocation s
    let date ← parseDate s loc
    match s.drop loc with
    | [] => some (date, ⟨[], 0, false⟩, none)
    | _ :: p =>
      let (time, zone) ← parseTime p
      some (date, time, zone)

/-- `datetime.fromisoformat`. -/
def fromIsoformat (s : String) : Except Error DateTime :=
  match parseParts s.toList with
  | none => .error (invalid s)
  | some (date, time, zone) => do
    let offset ← zoneOffset zone
    mk? date time offset

/-! ## UTC -/

/-- The time in UTC, `dt.astimezone(UTC)`; a time without an offset is UTC already. -/
def toUtc (dt : DateTime) : Except Error DateTime :=
  let offset := dt.offset.getD 0
  let micros : Int :=
    ((toOrdinal dt.year dt.month dt.day * 86400 + dt.hour * 3600 + dt.minute * 60 + dt.second) *
      1000000 + dt.microsecond : Nat)
  let micros := micros - offset
  let ordinal := micros / 86400000000
  if ordinal < 1 ∨ (maxOrdinal : Int) < ordinal then .error (.overflow "date value out of range")
  else
    let (year, month, day) := ofOrdinal ordinal.toNat
    let rest := (micros % 86400000000).toNat
    .ok ⟨year, month, day, rest / 3600000000, rest / 60000000 % 60, rest / 1000000 % 60,
      rest % 1000000, some 0⟩

/-- `n` in decimal, with zeros in front up to a width. -/
def padded (width n : Nat) : String :=
  String.ofList ((Nat.toDigits 10 n).leftpad width '0')

/-- `strftime("%Y-%m-%dT%H:%M:%SZ")`. -/
def isoZ (dt : DateTime) : String :=
  padded 4 dt.year ++ "-" ++ padded 2 dt.month ++ "-" ++ padded 2 dt.day ++ "T" ++
    padded 2 dt.hour ++ ":" ++ padded 2 dt.minute ++ ":" ++ padded 2 dt.second ++ "Z"

/-- `isoformat(timespec="microseconds")` of a time in UTC. -/
def isoformatUtc (dt : DateTime) : String :=
  padded 4 dt.year ++ "-" ++ padded 2 dt.month ++ "-" ++ padded 2 dt.day ++ "T" ++
    padded 2 dt.hour ++ ":" ++ padded 2 dt.minute ++ ":" ++ padded 2 dt.second ++ "." ++
    padded 6 dt.microsecond ++ "+00:00"

end DateTime
end ParallaxKernel.Lib
