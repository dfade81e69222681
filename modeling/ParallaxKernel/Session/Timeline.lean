import ParallaxKernel.Session.Retrieve
import ParallaxKernel.Store.Canonical

/-!
# Events in a window of time

`by_timeline` of `retrieve.py`. The bounds are brought into the form of the stored timestamps, and
the window is a comparison of texts.
-/

namespace ParallaxKernel.Session

open Lib Store

/-! ## Bounds -/

/-- The text that `datetime.fromisoformat` parses: a surrogate is let through where the separator of
date and time can stand. -/
def sanitizeIsoformat (s : PyStr) : Option String :=
  if s.length < 7 then none
  else
    let separator := [7, 8, 10].find? fun i =>
      match s[i]? with
      | some (.lone _) => true
      | _ => false
    match separator with
    | some i => PyStr.encode? (s.set i (.scalar 'T'))
    | none => s.encode?

def invalidIsoformat : DateTime.Error := .value "Invalid isoformat string"

/-- The text that a bound is parsed from, a `Z` at its end as the offset it stands for. -/
def boundText (ts : PyStr) : Option String :=
  sanitizeIsoformat (if ts.getLast? = some (.scalar 'Z') then ts.dropLast ++ .ofString "+00:00"
    else ts)

/-- `_parse_iso`. -/
def parseIso (ts : PyStr) : Except DateTime.Error DateTime :=
  match boundText ts with
  | none => .error invalidIsoformat
  | some text => DateTime.fromIsoformat text

/-- `_is_date_only`. -/
def isDateOnly (ts : PyStr) : Bool :=
  match ts.encode? with
  | none => false
  | some text => (DateTime.dateFromIsoformat text).isOk

inductive BoundKind where
  | since
  | until
  deriving DecidableEq

/-- What a bound of its kind extends a time in UTC to. -/
def extendBound (kind : BoundKind) (ts : PyStr) (dt : DateTime) : DateTime :=
  if kind = .until ∧ isDateOnly ts = true then
    { dt with hour := 23, minute := 59, second := 59, microsecond := 999999 }
  else if kind = .until ∧ dt.microsecond = 0 then { dt with microsecond := 999999 }
  else dt

/-- `_iso_normalize`. -/
def isoNormalize (kind : BoundKind) (ts : PyStr) : Except Exc String :=
  match parseIso ts >>= DateTime.toUtc with
  | .ok dt => .ok (extendBound kind ts dt).isoformatUtc
  | .error e => .error (.ofDateTime e)

/-! ## The window -/

/-- `ORDER BY created_at ASC`, rows of one time in any order. -/
structure OldestFirst where
  oldest : List Event → List Event
  perm : ∀ rows, (oldest rows).Perm rows
  sorted : ∀ rows, (oldest rows).Pairwise fun e f => e.createdAt ≤ f.createdAt

variable (E : Engine) (order : OldestFirst) (db : Db) (userId : String)

/-- The bounds of a window, with the error of a bound that cannot be read. -/
def windowBounds (since till : PyStr) : Except Exc (String × String) :=
  match (do
    let sinceNorm ← isoNormalize .since since
    let untilNorm ← isoNormalize .until till
    .ok (sinceNorm, untilNorm)) with
  | .error (.valueError msg) =>
    .error (.valueError ("by_timeline: could not parse since/until ISO-8601 (" ++ msg ++ ")"))
  | r => r

def byTimeline (since till : PyStr) (limit : Int) : Except Exc (List Hit) := do
  let (sinceNorm, untilNorm) ← windowBounds since till
  if untilNorm < sinceNorm then
    .error (.valueError ("by_timeline: since (" ++ since.encode?.getD "" ++
      ") must be <= until (" ++ till.encode?.getD "" ++ ")"))
  else
    let limit ← bindLimit limit
    let rows := order.oldest (db.events.filter fun e =>
      e.userId == userId && decide (sinceNorm ≤ e.createdAt) && decide (e.createdAt ≤ untilNorm))
    .ok ((limitRows limit rows).map fun e => eventToHit E e (E.recency e.createdAt))

/-! ## What a window should hold -/

/-- The last instant of the second of a whole second, any other instant itself. -/
def endOfSecond (us : Int) : Int := if us % 1000000 = 0 then us + 999999 else us

/-- The last instant of a window up to a bound: of the day, where the bound has no time of day. -/
def windowEnd (till : PyStr) (us : Int) : Int :=
  if (boundText till).any DateTime.hasTime then endOfSecond us else DateTime.endOfDay us

/-- The event's instant is in the window. -/
def inWindow (first last : Int) (e : Event) : Bool :=
  (instantOf e.createdAt).any fun us => decide (first ≤ us) && decide (us ≤ last)

/-- The rows are the first ones of the matching ones in an order of time. -/
def FirstInTime (limit : Int) (matching rows : List Event) : Prop :=
  ∃ ordered : List Event, ordered.Perm matching ∧
    ordered.Pairwise (fun e f => ∀ m n, instantOf e.createdAt = some m →
      instantOf f.createdAt = some n → m ≤ n) ∧
    rows = limitRows limit ordered

/-- A call raises a `ValueError` exactly for a bound that cannot be read or a reversed window, and
returns the first events of the window otherwise. -/
def TimelineExact (since till : PyStr) (limit : Int) (result : Except Exc (List Hit)) : Prop :=
  match parseIso since, parseIso till with
  | .ok a, .ok b =>
    if windowEnd till b.timestamp < a.timestamp then ∃ msg, result = .error (.valueError msg)
    else ∃ rows, result = .ok (rows.map fun e => eventToHit E e (E.recency e.createdAt)) ∧
      FirstInTime limit (db.events.filter fun e =>
        e.userId == userId && inWindow a.timestamp (windowEnd till b.timestamp) e) rows
  | _, _ => ∃ msg, result = .error (.valueError msg)

/-- Every event has a timestamp of `now_iso`. -/
def Timed (db : Db) : Prop :=
  ∀ e ∈ db.events, ∃ us dt, DateTime.ofTimestamp us = some dt ∧ e.createdAt = dt.isoformatUtc

variable {db : Db}

/-! ## The bounds as instants -/

/-- The last instant that the code admits. -/
def codeEnd (till : PyStr) (us : Int) : Int :=
  if isDateOnly till then DateTime.endOfDay us else endOfSecond us

/-- The instant can be held in UTC. -/
def Fits (us : Int) : Prop := (DateTime.ofTimestamp us).isSome

theorem isoNormalize_error {kind : BoundKind} {ts : PyStr} {e : DateTime.Error}
    (h : parseIso ts = .error e) : isoNormalize kind ts = .error (.ofDateTime e) := by
  simp only [isoNormalize, h, bind, Except.bind]

theorem isoNormalize_overflow {kind : BoundKind} {ts : PyStr} {dt : DateTime}
    (h : parseIso ts = .ok dt) (hfits : ¬ Fits dt.timestamp) :
    isoNormalize kind ts = .error (.overflowError "date value out of range") := by
  have hnone : DateTime.ofTimestamp dt.timestamp = none := by
    simpa [Fits] using hfits
  simp only [isoNormalize, h, bind, Except.bind, DateTime.toUtc_eq, hnone]
  rfl

theorem isoNormalize_since {ts : PyStr} {dt : DateTime} (h : parseIso ts = .ok dt)
    {utc : DateTime} (hutc : DateTime.ofTimestamp dt.timestamp = some utc) :
    isoNormalize .since ts = .ok utc.isoformatUtc := by
  simp [isoNormalize, h, bind, Except.bind, DateTime.toUtc_eq, hutc, extendBound]

theorem isoNormalize_until {ts : PyStr} {dt : DateTime} (h : parseIso ts = .ok dt)
    (hfits : Fits dt.timestamp) : ∃ last,
      DateTime.ofTimestamp (codeEnd ts dt.timestamp) = some last ∧
      isoNormalize .until ts = .ok last.isoformatUtc := by
  obtain ⟨utc, hutc⟩ := Option.isSome_iff_exists.1 hfits
  have hmicro := DateTime.microsecond_ofTimestamp hutc
  unfold codeEnd endOfSecond
  simp only [isoNormalize, h, bind, Except.bind, DateTime.toUtc_eq, hutc, extendBound]
  by_cases hdate : isDateOnly ts = true
  · rw [if_pos hdate]
    exact ⟨_, DateTime.ofTimestamp_endOfDay hutc, by simp [hdate]⟩
  · rw [if_neg hdate]
    by_cases hwhole : dt.timestamp % 1000000 = 0
    · have hzero : utc.microsecond = 0 := by omega
      rw [if_pos hwhole]
      exact ⟨_, DateTime.ofTimestamp_endOfSecond hutc hwhole, by simp [hdate, hzero]⟩
    · have hzero : utc.microsecond ≠ 0 := by omega
      rw [if_neg hwhole]
      exact ⟨utc, hutc, by simp [hdate, hzero]⟩

/-- A stored timestamp and the window in texts are those of the instants. -/
theorem inWindow_iff {db : Db} (htimed : Timed db) {first last : Int} {a b : DateTime}
    (ha : DateTime.ofTimestamp first = some a) (hb : DateTime.ofTimestamp last = some b) :
    ∀ e ∈ db.events, (decide (a.isoformatUtc ≤ e.createdAt) &&
      decide (e.createdAt ≤ b.isoformatUtc)) = inWindow first last e := by
  intro e he
  obtain ⟨us, dt, hdt, hcreated⟩ := htimed e he
  simp only [inWindow, hcreated, instantOf_isoformatUtc hdt, Option.any_some,
    DateTime.isoformatUtc_le_iff ha hdt, DateTime.isoformatUtc_le_iff hdt hb]

theorem byTimeline_eq {db : Db} (htimed : Timed db) {since till : PyStr} {a b : DateTime}
    (ha : parseIso since = .ok a) (hb : parseIso till = .ok b) (hafits : Fits a.timestamp)
    (hbfits : Fits b.timestamp) (limit : Int) :
    (codeEnd till b.timestamp < a.timestamp ∧
      ∃ msg, byTimeline E order db userId since till limit = .error (.valueError msg)) ∨
    a.timestamp ≤ codeEnd till b.timestamp ∧
      byTimeline E order db userId since till limit = (bindLimit limit).map fun limit =>
        (limitRows limit (order.oldest (db.events.filter fun e => e.userId == userId &&
          inWindow a.timestamp (codeEnd till b.timestamp) e))).map fun e =>
            eventToHit E e (E.recency e.createdAt) := by
  obtain ⟨first, hfirst⟩ := Option.isSome_iff_exists.1 hafits
  obtain ⟨last, hlast, htill⟩ := isoNormalize_until hb hbfits
  have hbounds : windowBounds since till = .ok (first.isoformatUtc, last.isoformatUtc) := by
    simp only [windowBounds, isoNormalize_since ha hfirst, htill, bind, Except.bind]
  have hfilter : (db.events.filter fun e => e.userId == userId &&
      decide (first.isoformatUtc ≤ e.createdAt) && decide (e.createdAt ≤ last.isoformatUtc)) =
      db.events.filter fun e => e.userId == userId &&
        inWindow a.timestamp (codeEnd till b.timestamp) e := by
    refine List.filter_congr fun e he => ?_
    rw [Bool.and_assoc, inWindow_iff htimed hfirst hlast e he]
  unfold byTimeline
  simp only [hbounds, bind, Except.bind, DateTime.isoformatUtc_lt_iff hlast hfirst, hfilter]
  by_cases hreversed : codeEnd till b.timestamp < a.timestamp
  · rw [if_pos hreversed]
    exact .inl ⟨hreversed, _, rfl⟩
  · rw [if_neg hreversed]
    refine .inr ⟨not_lt.1 hreversed, ?_⟩
    unfold bindLimit
    split_ifs <;> rfl

/-! ## When a window is exact -/

/-- The bounds can be held in UTC, the limit can be bound, and the code and the parser take the
upper bound for a date in the same cases, or no event can tell. -/
structure Clean (since till : PyStr) (limit : Int) : Prop where
  sinceFits : ∀ a, parseIso since = .ok a → Fits a.timestamp
  tillFits : ∀ a b, parseIso since = .ok a → parseIso till = .ok b → Fits b.timestamp
  limitFits : ∀ a b, parseIso since = .ok a → parseIso till = .ok b →
    a.timestamp ≤ windowEnd till b.timestamp → -2 ^ 63 ≤ limit ∧ limit < 2 ^ 63
  dateAlike : ∀ a b, parseIso since = .ok a → parseIso till = .ok b →
    isDateOnly till = !(boundText till).any DateTime.hasTime ∨
      endOfSecond b.timestamp = DateTime.endOfDay b.timestamp ∨
      DateTime.endOfDay b.timestamp < a.timestamp ∨
      limit = 0 ∧ a.timestamp ≤ endOfSecond b.timestamp

theorem endOfSecond_le (us : Int) : endOfSecond us ≤ DateTime.endOfDay us := by
  unfold endOfSecond DateTime.endOfDay
  split_ifs <;> omega

/-- Where the two readings of the bound differ, one end is that of the second and one of the day. -/
theorem ends_cases (till : PyStr) (us : Int) :
    (isDateOnly till = !(boundText till).any DateTime.hasTime ∧
      codeEnd till us = windowEnd till us) ∨
    isDateOnly till ≠ !(boundText till).any DateTime.hasTime ∧
      (codeEnd till us = DateTime.endOfDay us ∧ windowEnd till us = endOfSecond us ∨
        codeEnd till us = endOfSecond us ∧ windowEnd till us = DateTime.endOfDay us) := by
  unfold codeEnd windowEnd
  cases isDateOnly till <;> cases (boundText till).any DateTime.hasTime <;> simp

/-- The two ends agree as far as a call can tell. -/
theorem Clean.ends {since till : PyStr} {limit : Int} (h : Clean since till limit) {a b : DateTime}
    (ha : parseIso since = .ok a) (hb : parseIso till = .ok b) :
    codeEnd till b.timestamp = windowEnd till b.timestamp ∨
    (codeEnd till b.timestamp < a.timestamp ∧ windowEnd till b.timestamp < a.timestamp) ∨
    limit = 0 ∧ a.timestamp ≤ codeEnd till b.timestamp ∧
      a.timestamp ≤ windowEnd till b.timestamp := by
  have hle := endOfSecond_le b.timestamp
  obtain ⟨-, hsame⟩ | ⟨hdiffer, hends⟩ := ends_cases till b.timestamp
  · exact .inl hsame
  · obtain hdate | hdate := h.dateAlike a b ha hb
    · exact absurd hdate hdiffer
    · omega

theorem limitRows_zero {α : Type} (rows : List α) : limitRows 0 rows = [] := by
  simp [limitRows]

theorem limitRows_map {α β : Type} (f : α → β) (limit : Int) (rows : List α) :
    (limitRows limit rows).map f = limitRows limit (rows.map f) := by
  unfold limitRows
  split_ifs
  · rfl
  · rw [List.map_take]

variable {E order userId} {since till : PyStr} {limit : Int}

/-- The rows of a call are the first ones in time. -/
theorem firstInTime_oldest (order : OldestFirst) (htimed : Timed db) (limit : Int)
    (p : Event → Bool) :
    FirstInTime limit (db.events.filter p)
      (limitRows limit (order.oldest (db.events.filter p))) := by
  refine ⟨_, order.perm _, ?_, rfl⟩
  refine (List.Pairwise.and_mem.1 (order.sorted (db.events.filter p))).imp ?_
  rintro e f ⟨he, hf, hle⟩ m n hm hn
  have hmem {e : Event} (he : e ∈ order.oldest (db.events.filter p)) : e ∈ db.events :=
    List.mem_of_mem_filter ((order.perm _).mem_iff.1 he)
  obtain ⟨us, a, ha, hcreated⟩ := htimed e (hmem he)
  obtain ⟨us', b, hb, hcreated'⟩ := htimed f (hmem hf)
  rw [hcreated, instantOf_isoformatUtc ha] at hm
  rw [hcreated', instantOf_isoformatUtc hb] at hn
  obtain rfl := Option.some.inj hm
  obtain rfl := Option.some.inj hn
  rwa [hcreated, hcreated', DateTime.isoformatUtc_le_iff ha hb] at hle

theorem fromIsoformat_error {text : String} {e : DateTime.Error}
    (h : DateTime.fromIsoformat text = .error e) : ∃ msg, e = .value msg := by
  unfold DateTime.fromIsoformat at h
  cases hparts : DateTime.parseParts text.toList with
  | none =>
    rw [hparts] at h
    cases h
    exact ⟨_, rfl⟩
  | some parts =>
    obtain ⟨date, time, zone⟩ := parts
    simp only [hparts, bind, Except.bind] at h
    cases hzone : DateTime.zoneOffset zone with
    | error e' =>
      simp only [hzone, Except.error.injEq] at h
      subst h
      unfold DateTime.zoneOffset at hzone
      split at hzone
      · cases hzone
      · split_ifs at hzone
        cases hzone
        exact ⟨_, rfl⟩
    | ok offset =>
      simp only [hzone, DateTime.mk?] at h
      split_ifs at h
      all_goals
        cases h
        exact ⟨_, rfl⟩

theorem parseIso_error {ts : PyStr} {e : DateTime.Error} (h : parseIso ts = .error e) :
    ∃ msg, e = .value msg := by
  unfold parseIso at h
  cases htext : boundText ts with
  | none =>
    rw [htext] at h
    cases h
    exact ⟨_, rfl⟩
  | some text =>
    rw [htext] at h
    exact fromIsoformat_error h

/-- A bound that cannot be read is a `ValueError`, unless a bound before it raises another. -/
theorem byTimeline_unreadable {since till : PyStr}
    (h : (∃ e, parseIso since = .error e) ∨
      (∃ text, isoNormalize .since since = .ok text) ∧ ∃ e, parseIso till = .error e) :
    ∃ msg, byTimeline E order db userId since till limit = .error (.valueError msg) := by
  have hbounds : ∃ msg, windowBounds since till = .error (.valueError msg) := by
    obtain ⟨e, he⟩ | ⟨⟨text, htext⟩, e, he⟩ := h
    · obtain ⟨msg, rfl⟩ := parseIso_error he
      simp only [windowBounds, isoNormalize_error he, bind, Except.bind, Exc.ofDateTime]
      exact ⟨_, rfl⟩
    · obtain ⟨msg, rfl⟩ := parseIso_error he
      simp only [windowBounds, htext, isoNormalize_error he, bind, Except.bind, Exc.ofDateTime]
      exact ⟨_, rfl⟩
  obtain ⟨msg, hmsg⟩ := hbounds
  refine ⟨msg, ?_⟩
  simp only [byTimeline, hmsg, bind, Except.bind]

theorem exact_of_clean (hclean : Clean since till limit) (htimed : Timed db) :
    TimelineExact E db userId since till limit
      (byTimeline E order db userId since till limit) := by
  unfold TimelineExact
  cases ha : parseIso since with
  | error e => exact byTimeline_unreadable (.inl ⟨e, ha⟩)
  | ok a =>
    have hafits := hclean.sinceFits a ha
    obtain ⟨first, hfirst⟩ := Option.isSome_iff_exists.1 hafits
    cases hb : parseIso till with
    | error e => exact byTimeline_unreadable (.inr ⟨⟨_, isoNormalize_since ha hfirst⟩, e, hb⟩)
    | ok b =>
      dsimp only
      have hbfits := hclean.tillFits a b ha hb
      have hcases := byTimeline_eq E order userId htimed ha hb hafits hbfits limit
      have hends := hclean.ends ha hb
      split_ifs with hreversed
      · -- a reversed window
        obtain ⟨-, herror⟩ | ⟨hcode, -⟩ := hcases
        · exact herror
        · exfalso
          omega
      · obtain ⟨hcode, -⟩ | ⟨hcode, hrun⟩ := hcases
        · exfalso
          omega
        · have hlimit := hclean.limitFits a b ha hb (not_lt.1 hreversed)
          rw [hrun, bindLimit, if_pos hlimit]
          refine ⟨_, rfl, ?_⟩
          obtain hsame | ⟨hlt, -⟩ | ⟨rfl, -⟩ := hends
          · rw [hsame]
            exact firstInTime_oldest order htimed limit _
          · exact absurd hcode (not_le.2 hlt)
          · have hfirst := firstInTime_oldest order htimed 0 fun e =>
              e.userId == userId &&
                inWindow a.timestamp (windowEnd till b.timestamp) e
            rw [limitRows_zero] at hfirst ⊢
            exact hfirst

/-! ## Calls that tell the difference -/

theorem byTimeline_overflow_since {a : DateTime} (ha : parseIso since = .ok a)
    (hfits : ¬ Fits a.timestamp) : byTimeline E order db userId since till limit =
      .error (.overflowError "date value out of range") := by
  simp only [byTimeline, windowBounds, isoNormalize_overflow ha hfits, bind, Except.bind]

theorem byTimeline_overflow_till {a b : DateTime} (ha : parseIso since = .ok a)
    (hafits : Fits a.timestamp) (hb : parseIso till = .ok b) (hbfits : ¬ Fits b.timestamp) :
    byTimeline E order db userId since till limit =
      .error (.overflowError "date value out of range") := by
  obtain ⟨first, hfirst⟩ := Option.isSome_iff_exists.1 hafits
  simp only [byTimeline, windowBounds, isoNormalize_since ha hfirst,
    isoNormalize_overflow hb hbfits, bind, Except.bind]

theorem not_exact_overflow {msg : String} :
    ¬ TimelineExact E db userId since till limit (.error (.overflowError msg)) := by
  unfold TimelineExact
  cases parseIso since with
  | error e => simp
  | ok a =>
    cases parseIso till with
    | error e => simp
    | ok b =>
      dsimp only
      split_ifs <;> simp

/-- A store with one event. -/
def storeOf (createdAt : String) : Db where
  sources := []
  memories := []
  claims := []
  decisions := []
  events := [⟨"E1", "ann", "system", "note", none, none, "\x7b\x7d", none, createdAt, none⟩]

theorem timed_storeOf {us : Int} {dt : DateTime} (h : DateTime.ofTimestamp us = some dt) :
    Timed (storeOf dt.isoformatUtc) := by
  intro e he
  obtain rfl := List.mem_singleton.1 he
  exact ⟨us, dt, h, rfl⟩

/-- The event of the store is in a window that reaches to its instant. -/
theorem filter_storeOf {us first : Int} {dt : DateTime}
    (h : DateTime.ofTimestamp us = some dt) (hfirst : first ≤ us) (last : Int) :
    ((storeOf dt.isoformatUtc).events.filter fun e => e.userId == "ann" &&
      inWindow first last e).length = if us ≤ last then 1 else 0 := by
  simp only [storeOf, List.filter_cons, List.filter_nil, inWindow, instantOf_isoformatUtc h,
    Option.any_some, hfirst]
  split_ifs <;> simp_all

theorem length_limitRows {α : Type} {limit : Int} (hlimit : limit ≠ 0) {rows : List α}
    (hrows : rows.length ≤ 1) : (limitRows limit rows).length = rows.length := by
  unfold limitRows
  split_ifs
  · rfl
  · rw [List.length_take]
    omega

theorem clean_of_exact (h : ∀ db userId, Timed db → TimelineExact E db userId since till limit
    (byTimeline E order db userId since till limit)) : Clean since till limit := by
  have hempty : Timed Db.empty := by
    simp [Timed, Db.empty]
  have hsince : ∀ a, parseIso since = .ok a → Fits a.timestamp := by
    intro a ha
    by_contra hfits
    have hexact := h Db.empty "ann" hempty
    rw [byTimeline_overflow_since ha hfits] at hexact
    exact not_exact_overflow hexact
  have htill : ∀ a b, parseIso since = .ok a → parseIso till = .ok b → Fits b.timestamp := by
    intro a b ha hb
    by_contra hfits
    have hexact := h Db.empty "ann" hempty
    rw [byTimeline_overflow_till ha (hsince a ha) hb hfits] at hexact
    exact not_exact_overflow hexact
  have hlimit : ∀ a b, parseIso since = .ok a → parseIso till = .ok b →
      a.timestamp ≤ windowEnd till b.timestamp → -2 ^ 63 ≤ limit ∧ limit < 2 ^ 63 := by
    intro a b ha hb hle
    by_contra hfits
    have hexact := h Db.empty "ann" hempty
    obtain ⟨-, msg, hrun⟩ | ⟨-, hrun⟩ := byTimeline_eq E order "ann" hempty ha hb (hsince a ha)
      (htill a b ha hb) limit
    · rw [hrun, TimelineExact, ha, hb] at hexact
      simp [not_lt.2 hle] at hexact
    · rw [hrun, bindLimit, if_neg hfits] at hexact
      exact not_exact_overflow hexact
  refine ⟨hsince, htill, hlimit, ?_⟩
  intro a b ha hb
  by_contra hdate
  simp only [not_or, not_and, not_lt] at hdate
  obtain ⟨hdiffer, hne, haD, hzero⟩ := hdate
  have hle := endOfSecond_le b.timestamp
  obtain ⟨hsame, -⟩ | ⟨-, hends⟩ := ends_cases till b.timestamp
  · exact hdiffer hsame
  obtain ⟨utc, hutc⟩ := Option.isSome_iff_exists.1 (htill a b ha hb)
  have hlast := DateTime.ofTimestamp_endOfDay hutc
  have htimed := timed_storeOf hlast
  have hexact := h _ "ann" htimed
  rw [TimelineExact, ha, hb] at hexact
  dsimp only at hexact
  obtain ⟨hcode, msg, hrun⟩ | ⟨hcode, hrun⟩ := byTimeline_eq E order "ann" htimed ha hb
    (hsince a ha) (htill a b ha hb) limit
  · -- the code takes the window for reversed
    rw [hrun, if_neg (by omega)] at hexact
    obtain ⟨rows, hrows, -⟩ := hexact
    cases hrows
  · rw [hrun] at hexact
    by_cases hreversed : windowEnd till b.timestamp < a.timestamp
    · rw [if_pos hreversed] at hexact
      obtain ⟨msg, hmsg⟩ := hexact
      unfold bindLimit at hmsg
      split_ifs at hmsg <;> cases hmsg
    · rw [if_neg hreversed] at hexact
      obtain ⟨rows, hrows, ordered, hperm, -, rfl⟩ := hexact
      have hnonzero : limit ≠ 0 := by
        intro hlimit0
        have := hzero hlimit0
        omega
      rw [bindLimit, if_pos (hlimit a b ha hb (not_lt.1 hreversed))] at hrows
      have hlengths := congrArg List.length (Except.ok.inj hrows)
      have hfilter (last : Int) := filter_storeOf hlast haD last
      have hone (last : Int) : (if DateTime.endOfDay b.timestamp ≤ last then 1 else 0) ≤ 1 := by
        split_ifs <;> decide
      rw [List.length_map, List.length_map,
        length_limitRows hnonzero (by rw [(order.perm _).length_eq, hfilter]; exact hone _),
        length_limitRows hnonzero (by rw [hperm.length_eq, hfilter]; exact hone _),
        hperm.length_eq, (order.perm _).length_eq, hfilter, hfilter] at hlengths
      obtain ⟨hcodeEnd, hwindowEnd⟩ | ⟨hcodeEnd, hwindowEnd⟩ := hends
      · rw [hcodeEnd, hwindowEnd, if_pos le_rfl, if_neg (by omega)] at hlengths
        cases hlengths
      · rw [hcodeEnd, hwindowEnd, if_pos le_rfl, if_neg (by omega)] at hlengths
        cases hlengths

/-- For given bounds and limit, every call is exact, whatever the store and the user, if and only if
the bounds are clean. -/
theorem timeline_exact_iff (E : Engine) (order : OldestFirst) (since till : PyStr) (limit : Int) :
    (∀ db userId, Timed db → TimelineExact E db userId since till limit
      (byTimeline E order db userId since till limit)) ↔ Clean since till limit :=
  ⟨clean_of_exact, fun h _ _ htimed => exact_of_clean h htimed⟩

/-- Rows in the order of the log where their times are equal. -/
def sampleOldestFirst : OldestFirst where
  oldest rows := rows.insertionSort fun e f => LaterFirst f e
  perm rows := List.perm_insertionSort _ rows
  sorted rows := by
    have htotal : Std.Total fun e f => LaterFirst f e := ⟨fun e f => le_total e.createdAt f.createdAt⟩
    have htrans : IsTrans Event fun e f => LaterFirst f e := ⟨fun _ _ _ hef hfg => le_trans hef hfg⟩
    exact rows.pairwise_insertionSort _

/-- A bound before the first instant of the calendar in UTC raises an `OverflowError`. -/
theorem timeline_overflow : Timed Db.empty ∧
    byTimeline sampleEngine sampleOldestFirst Db.empty "ann"
      (.ofString "0001-01-01T00:00:00+01:00") (.ofString "2026-01-01") 50 =
        .error (.overflowError "date value out of range") ∧
    ¬ TimelineExact sampleEngine Db.empty "ann" (.ofString "0001-01-01T00:00:00+01:00")
      (.ofString "2026-01-01") 50 (byTimeline sampleEngine sampleOldestFirst Db.empty "ann"
        (.ofString "0001-01-01T00:00:00+01:00") (.ofString "2026-01-01") 50) := by
  have hsince : parseIso (.ofString "0001-01-01T00:00:00+01:00") =
      .ok ⟨1, 1, 1, 0, 0, 0, 0, some 3600000000⟩ := by
    decide +kernel
  have hfits : ¬ Fits (⟨1, 1, 1, 0, 0, 0, 0, some 3600000000⟩ : DateTime).timestamp := by
    unfold Fits
    decide +kernel
  have hrun : byTimeline sampleEngine sampleOldestFirst Db.empty "ann"
      (.ofString "0001-01-01T00:00:00+01:00") (.ofString "2026-01-01") 50 =
        .error (.overflowError "date value out of range") :=
    byTimeline_overflow_since hsince hfits
  refine ⟨by simp [Timed, Db.empty], hrun, ?_⟩
  rw [hrun]
  exact not_exact_overflow

/-- What `date.fromisoformat` takes for a date although a time of day is read in it. -/
example : isDateOnly (.ofString "2026W01105") = true ∧
    (boundText (.ofString "2026W01105")).any DateTime.hasTime = true := by
  decide +kernel

end ParallaxKernel.Session
