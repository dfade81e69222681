import ParallaxKernel.Canary.Dod

/-!
# What stands behind a PASS of the promotion gate

`compute_dod` over any contents of its two tables. A verdict PASS has its evidence among the rows of
the stage in the window, and no other row has a say in the report.
-/

namespace ParallaxKernel.Canary.Dod

open Lib

/-- The tables, with one outcome for each event. -/
structure Tables extends State where
  nodup : (outcomes.map OutcomeRecord.eventId).Nodup

/-- The latencies of a stage in the window, as far as they are known. -/
def latencies (s : State) (stage sinceIso untilIso : String) : List SqlReal :=
  (auditRows s stage sinceIso untilIso).filterMap JoinedRow.latencyMs

/-- Enough requests of the stage in the window, without a loss, and good enough. -/
structure PassEvidence (s : State) (stage sinceIso untilIso : String) : Prop where
  audits : 50 ≤ (auditRows s stage sinceIso untilIso).length
  outcomes : 50 ≤ (windowOutcomes s stage sinceIso untilIso).length
  latencies : 50 ≤ (latencies s stage sinceIso untilIso).length
  noDataLoss : ∀ row ∈ windowOutcomes s stage sinceIso untilIso, row.outcome ≠ "data_loss"
  errorRate : ((auditRows s stage sinceIso untilIso).countP (500 ≤ ·.responseStatus) : ℚ) /
    (auditRows s stage sinceIso untilIso).length < 5 / 1000
  discrepancyRate :
    ((windowOutcomes s stage sinceIso untilIso).countP (·.outcome = "discrepancy") : ℚ) /
      (windowOutcomes s stage sinceIso untilIso).length < 5 / 1000
  p99 : ∃ v, IsNearestRank (99 / 100) (Dod.latencies s stage sinceIso untilIso) v ∧ v < .ofRat 100

/-- The tables have the same outcomes of the stage in the window, and the same audit rows of their
events. -/
structure AgreeOn (s t : State) (stage sinceIso untilIso : String) : Prop where
  outcomes : ∀ row : OutcomeRecord, row.stage = stage → sinceIso ≤ row.recordedAt →
    row.recordedAt ≤ untilIso → (row ∈ s.outcomes ↔ row ∈ t.outcomes)
  audit : ∀ row ∈ s.outcomes, row.stage = stage → sinceIso ≤ row.recordedAt →
    row.recordedAt ≤ untilIso → s.audit row.eventId = t.audit row.eventId

theorem mem_windowOutcomes {s : State} {stage sinceIso untilIso : String} {row : OutcomeRecord} :
    row ∈ windowOutcomes s stage sinceIso untilIso ↔
      row ∈ s.outcomes ∧ row.stage = stage ∧ sinceIso ≤ row.recordedAt ∧
        row.recordedAt ≤ untilIso := by
  simp [windowOutcomes]

/-! ## Verdicts -/

theorem aggregate_eq_pass {verdicts : List DodVerdict} (h : aggregate verdicts = .pass) :
    ∀ v ∈ verdicts, v = .pass := by
  rw [aggregate] at h
  split_ifs at h with hnil hfail hpending hinsufficient
  intro v hv
  cases v with
  | pass => rfl
  | fail => exact absurd hv hfail
  | insufficientData => exact absurd hv hinsufficient
  | pendingImplementation => exact absurd hv hpending

/-- A rate or a latency passes on a sample that is large enough and below the threshold. -/
theorem verdictFor_eq_pass {metric : DodMetric} {observed : SqlReal} {sampleSize : Nat}
    (h : verdictFor metric observed sampleSize = .pass) (hhits : metric ≠ .minHits)
    (hloss : metric ≠ .dataLossCount) : 50 ≤ sampleSize ∧ observed < .ofRat (dodThreshold metric) := by
  rw [verdictFor, if_neg hhits] at h
  split_ifs at h with hsample hlt
  refine ⟨?_, hlt⟩
  have hle : (50 : ℚ) ≤ sampleSize := not_lt.1 hsample
  exact_mod_cast hle

theorem verdictFor_dataLossCount_eq_pass {count sampleSize : Nat}
    (h : verdictFor .dataLossCount (.ofRat count) sampleSize = .pass) : count = 0 := by
  rw [verdictFor, if_neg (by decide)] at h
  by_cases hsample : (sampleSize : ℚ) < dodThreshold .minHits
  · rw [if_pos hsample] at h
    cases h
  · rw [if_neg hsample, if_pos rfl] at h
    split at h
    · next hle =>
      have hzero : (count : ℚ) ≤ 0 := SqlReal.ofRat_le_ofRat.1 hle
      exact Nat.le_zero.1 (by exact_mod_cast hzero)
    · cases h

/-- In a large sample the quantile of the gate is the nearest-rank quantile. -/
theorem isNearestRank_quantile {sample : List SqlReal} (hlarge : 2 ≤ sample.length) :
    IsNearestRank (99 / 100) sample (quantile (sample.insertionSort (· ≤ ·)) (99 / 100)) := by
  have hperm : (sample.insertionSort (· ≤ ·)).Perm sample := List.perm_insertionSort _ sample
  have hsorted : (sample.insertionSort (· ≤ ·)).Pairwise (· ≤ ·) :=
    List.pairwise_insertionSort _ sample
  obtain ⟨a, b, rest, hrest⟩ : ∃ a b rest, sample.insertionSort (· ≤ ·) = a :: b :: rest := by
    match hsort : sample.insertionSort (· ≤ ·) with
    | [] =>
      rw [← hperm.length_eq, hsort] at hlarge
      exact absurd hlarge (by decide)
    | [a] =>
      rw [← hperm.length_eq, hsort, List.length_singleton] at hlarge
      exact absurd hlarge (by decide)
    | a :: b :: rest => exact ⟨a, b, rest, rfl⟩
  have hindex : quantileIndex (99 / 100) (sample.insertionSort (· ≤ ·)).length <
      (sample.insertionSort (· ≤ ·)).length := by
    rw [hperm.length_eq, quantileIndex]
    omega
  have hquantile : quantile (sample.insertionSort (· ≤ ·)) (99 / 100) =
      (sample.insertionSort (· ≤ ·))[quantileIndex (99 / 100)
        (sample.insertionSort (· ≤ ·)).length] := by
    simp only [quantile, hrest, List.getD_eq_getElem?_getD]
    rw [List.getElem?_eq_getElem (by simpa [hrest] using hindex), Option.getD_some]
  rw [hquantile]
  refine (isNearestRank_getElem hsorted hindex ?_).perm hperm
  -- the rank lies between 1 and the size of the sample
  have hpos : (0 : ℚ) < (sample.insertionSort (· ≤ ·)).length := by
    rw [hperm.length_eq]
    exact_mod_cast (by omega : 0 < sample.length)
  have hone : 0 < ⌈(99 / 100 : ℚ) * (sample.insertionSort (· ≤ ·)).length⌉ :=
    Int.ceil_pos.2 (by linarith)
  have hall : ⌈(99 / 100 : ℚ) * (sample.insertionSort (· ≤ ·)).length⌉ ≤
      ((sample.insertionSort (· ≤ ·)).length : Int) :=
    Int.ceil_le.2 (by push_cast; linarith)
  rw [quantileIndex]
  omega

/-- Where all verdicts are PASS, the rows are the evidence. -/
theorem passEvidence_of_pass {splitReady : Bool} {s : State} {stage sinceIso untilIso : String}
    (hpass : ∀ m ∈ metricsOf splitReady (auditRows s stage sinceIso untilIso)
      (windowOutcomes s stage sinceIso untilIso), m.verdict = .pass) :
    PassEvidence s stage sinceIso untilIso := by
  cases splitReady with
  | false =>
    have hpending := hpass _ List.mem_cons_self
    simp at hpending
  | true =>
    simp only [metricsOf, List.mem_cons, List.not_mem_nil, or_false, forall_eq_or_imp, forall_eq,
      if_true] at hpass
    obtain ⟨herrors, hdiscrepancies, hp99, hloss, -⟩ := hpass
    obtain ⟨haudits, herrors⟩ := verdictFor_eq_pass herrors (by decide) (by decide)
    obtain ⟨houtcomes, hdiscrepancies⟩ :=
      verdictFor_eq_pass hdiscrepancies (by decide) (by decide)
    obtain ⟨hlatencies, hp99⟩ := verdictFor_eq_pass hp99 (by decide) (by decide)
    rw [SqlReal.ofRat_lt_ofRat, if_neg (by omega)] at herrors hdiscrepancies
    rw [List.length_insertionSort] at hlatencies
    refine ⟨haudits, houtcomes, hlatencies, ?_, herrors, hdiscrepancies, _,
      isNearestRank_quantile ((by decide : 2 ≤ 50).trans hlatencies), hp99⟩
    intro row hrow hlost
    have hnone := List.countP_eq_zero.1 (verdictFor_dataLossCount_eq_pass hloss) row hrow
    exact hnone (decide_eq_true hlost)

/-! ## Rows that have no say -/

/-- The metrics do not depend on the order of the rows. -/
theorem metricsOf_perm {splitReady : Bool} {rows rows' : List JoinedRow}
    {outcomes outcomes' : List OutcomeRecord} (hrows : rows.Perm rows')
    (houtcomes : outcomes.Perm outcomes') :
    metricsOf splitReady rows outcomes = metricsOf splitReady rows' outcomes' := by
  have hsort : (rows.filterMap JoinedRow.latencyMs).insertionSort (· ≤ ·) =
      (rows'.filterMap JoinedRow.latencyMs).insertionSort (· ≤ ·) := by
    refine List.Perm.eq_of_pairwise (fun a b _ _ hab hba => le_antisymm hab hba)
      (List.pairwise_insertionSort _ _) (List.pairwise_insertionSort _ _) ?_
    calc ((rows.filterMap JoinedRow.latencyMs).insertionSort (· ≤ ·)).Perm
          (rows.filterMap JoinedRow.latencyMs) := List.perm_insertionSort _ _
      List.Perm _ (rows'.filterMap JoinedRow.latencyMs) := hrows.filterMap _
      List.Perm _ _ := (List.perm_insertionSort _ _).symm
  simp only [metricsOf, hsort, hrows.length_eq, houtcomes.length_eq, hrows.countP_eq,
    houtcomes.countP_eq]

theorem AgreeOn.windowOutcomes_perm {s t : Tables} {stage sinceIso untilIso : String}
    (h : AgreeOn s.toState t.toState stage sinceIso untilIso) :
    (windowOutcomes s.toState stage sinceIso untilIso).Perm
      (windowOutcomes t.toState stage sinceIso untilIso) := by
  refine (List.perm_ext_iff_of_nodup (s.nodup.of_map.filter _) (t.nodup.of_map.filter _)).2 ?_
  intro row
  change row ∈ windowOutcomes s.toState stage sinceIso untilIso ↔
    row ∈ windowOutcomes t.toState stage sinceIso untilIso
  rw [mem_windowOutcomes, mem_windowOutcomes]
  constructor
  · rintro ⟨hrow, hstage, hsince, huntil⟩
    exact ⟨(h.outcomes row hstage hsince huntil).1 hrow, hstage, hsince, huntil⟩
  · rintro ⟨hrow, hstage, hsince, huntil⟩
    exact ⟨(h.outcomes row hstage hsince huntil).2 hrow, hstage, hsince, huntil⟩

theorem AgreeOn.auditRows_perm {s t : Tables} {stage sinceIso untilIso : String}
    (h : AgreeOn s.toState t.toState stage sinceIso untilIso) :
    (auditRows s.toState stage sinceIso untilIso).Perm
      (auditRows t.toState stage sinceIso untilIso) := by
  have hsame : auditRows s.toState stage sinceIso untilIso =
      (windowOutcomes s.toState stage sinceIso untilIso).filterMap fun row =>
        (t.audit row.eventId).map fun a => ⟨row.eventId, a.responseStatus, a.latencyMs⟩ := by
    refine List.filterMap_congr fun row hrow => ?_
    obtain ⟨hrow, hstage, hsince, huntil⟩ := mem_windowOutcomes.1 hrow
    rw [h.audit row hrow hstage hsince huntil]
  rw [hsame, auditRows]
  exact h.windowOutcomes_perm.filterMap _

/-! ## The window in time -/

/-- The first microsecond of the year 1000, since when years have four digits. -/
def year1000 : Int := -30610224000000000

def isoMillisLayout : List (Nat × List Char) :=
  [(4, ['-']), (2, ['-']), (2, ['T']), (2, [':']), (2, [':']), (2, ['.']), (3, ['Z'])]

theorem iso_toList {dt : DateTime} (hyear : 1000 ≤ dt.year) (hyear' : dt.year < 10000) :
    (iso dt).toList = DateTime.fieldsChars isoMillisLayout
      [dt.year, dt.month, dt.day, dt.hour, dt.minute, dt.second, dt.microsecond / 1000] := by
  have hlength : 4 ≤ (Nat.toDigits 10 dt.year).length := by
    by_contra hshort
    have hlt := (Nat.length_toDigits_le_iff (by decide) (by decide : 0 < 3)).1
      (by omega : (Nat.toDigits 10 dt.year).length ≤ 3)
    omega
  simp [iso, DateTime.padded, DateTime.fieldsChars, isoMillisLayout, DateTime.paddedChars,
    Nat.sub_eq_zero_of_le hlength]

theorem year_ge_of_ordinal {day : Nat} (h : 364878 ≤ day) :
    1000 ≤ (DateTime.ofOrdinal day).1 := by
  have hfirst : DateTime.yearDay 364878 = (1000, 0) := by decide
  rw [DateTime.ofOrdinal_eq]
  obtain rfl | hlt := h.eq_or_lt
  · rw [hfirst]
  · have hyear := DateTime.yearDay_lt (by decide) hlt
    rw [hfirst] at hyear
    dsimp only at hyear ⊢
    omega

/-- The text of a time since the year 1000, by its day and the microseconds in it. -/
theorem exists_iso_fields {us : Int} {dt : DateTime} (h : DateTime.ofTimestamp us = some dt)
    (hus : year1000 ≤ us) :
    ∃ day rest : Nat, us + 719163 * 86400000000 = day * 86400000000 + rest ∧
      rest < 86400000000 ∧ 0 < day ∧
      (iso dt).toList = DateTime.fieldsChars isoMillisLayout
        ([(DateTime.ofOrdinal day).1, (DateTime.ofOrdinal day).2.1, (DateTime.ofOrdinal day).2.2] ++
          [rest / 3600000000, rest / 60000000 % 60, rest / 1000000 % 60, rest % 1000000 / 1000]) ∧
      DateTime.Fits isoMillisLayout
        ([(DateTime.ofOrdinal day).1, (DateTime.ofOrdinal day).2.1, (DateTime.ofOrdinal day).2.2] ++
          [rest / 3600000000, rest / 60000000 % 60, rest / 1000000 % 60, rest % 1000000 / 1000]) := by
  obtain ⟨day, rest, hsum, hrest, hpos, hday, hvalues⟩ := DateTime.ofTimestamp_eq_some h
  obtain ⟨hy, hm, hd⟩ := DateTime.ofOrdinal_fits hday
  have hyear : 1000 ≤ (DateTime.ofOrdinal day).1 := by
    refine year_ge_of_ordinal ?_
    rw [year1000] at hus
    omega
  simp only [DateTime.values, List.cons_append, List.nil_append, List.cons.injEq, and_true]
    at hvalues
  obtain ⟨hyear', hmonth, hdom, hhour, hminute, hsecond, hmicro⟩ := hvalues
  refine ⟨day, rest, hsum, hrest, hpos, ?_, ?_⟩
  · rw [iso_toList (by omega) (by omega), hyear', hmonth, hdom, hhour, hminute, hsecond, hmicro]
    rfl
  · exact ⟨by decide, hy, by decide, hm, by decide, hd, by decide, by omega, by decide, by omega,
      by decide, by omega, by decide, by omega, trivial⟩

/-- Later milliseconds have later texts. -/
theorem iso_lt {m n : Int} {a b : DateTime} (ha : DateTime.ofTimestamp m = some a)
    (hb : DateTime.ofTimestamp n = some b) (hm : year1000 ≤ m) (hn : year1000 ≤ n)
    (hmn : m / 1000 < n / 1000) : iso a < iso b := by
  obtain ⟨aday, arest, haeq, harest, hapos, hatext, hafits⟩ := exists_iso_fields ha hm
  obtain ⟨bday, brest, hbeq, hbrest, -, hbtext, hbfits⟩ := exists_iso_fields hb hn
  rw [String.lt_iff_toList_lt, hatext, hbtext]
  refine DateTime.fieldsChars_lt ?_ hafits hbfits
  obtain hday | rfl | hday := lt_trichotomy aday bday
  · exact DateTime.append_lt_append rfl (.inl (DateTime.ofOrdinal_lt hapos hday))
  · refine DateTime.append_lt_append rfl (.inr ⟨rfl, ?_⟩)
    simp only [List.cons_lt_cons_iff]
    omega
  · omega

theorem iso_eq {m n : Int} {a b : DateTime} (ha : DateTime.ofTimestamp m = some a)
    (hb : DateTime.ofTimestamp n = some b) (hm : year1000 ≤ m) (hn : year1000 ≤ n)
    (hmn : m / 1000 = n / 1000) : iso a = iso b := by
  obtain ⟨aday, arest, haeq, harest, hapos, hatext, -⟩ := exists_iso_fields ha hm
  obtain ⟨bday, brest, hbeq, hbrest, -, hbtext, -⟩ := exists_iso_fields hb hn
  have hday : aday = bday := by omega
  have hmillis : arest / 1000 = brest / 1000 := by omega
  rw [← String.toList_inj, hatext, hbtext, hday, (by omega : arest / 3600000000 =
    brest / 3600000000), (by omega : arest / 60000000 = brest / 60000000),
    (by omega : arest / 1000000 = brest / 1000000),
    (by omega : arest % 1000000 / 1000 = brest % 1000000 / 1000)]

/-- Texts of the gate compare as their times do, in milliseconds. -/
theorem iso_le_iff {m n : Int} {a b : DateTime} (ha : DateTime.ofTimestamp m = some a)
    (hb : DateTime.ofTimestamp n = some b) (hm : year1000 ≤ m) (hn : year1000 ≤ n) :
    iso a ≤ iso b ↔ m / 1000 ≤ n / 1000 := by
  constructor
  · intro h
    by_contra! hlt
    exact absurd h (not_le.2 (iso_lt hb ha hn hm hlt))
  · intro h
    obtain heq | hlt := h.eq_or_lt
    · exact (iso_eq ha hb hm hn heq).le
    · exact (iso_lt ha hb hm hn hlt).le

/-! ## Soundness -/

/-- A report has the window, and the metrics of its rows. -/
theorem computeDod_eq_ok {splitReady : Bool} {s : State} {stage : String}
    {windowDays until_ : Int} {report : DodReport}
    (h : computeDod splitReady s stage windowDays until_ = .ok report) :
    resolveWindow windowDays until_ = .ok (report.windowStart, report.windowEnd) ∧
      report.metrics = metricsOf splitReady
        (auditRows s stage report.windowStart report.windowEnd)
        (windowOutcomes s stage report.windowStart report.windowEnd) ∧
      report.overall = aggregate (report.metrics.map MetricResult.verdict) := by
  rw [computeDod] at h
  split at h
  · cases h
  · split at h
    · cases h
    · next sinceIso untilIso hwindow =>
      cases h
      exact ⟨hwindow, rfl, rfl⟩

theorem computeDod_agree {splitReady : Bool} {s t : Tables} {stage : String}
    {windowDays until_ : Int}
    (hagree : ∀ sinceIso untilIso, resolveWindow windowDays until_ = .ok (sinceIso, untilIso) →
      AgreeOn s.toState t.toState stage sinceIso untilIso) :
    computeDod splitReady t.toState stage windowDays until_ =
      computeDod splitReady s.toState stage windowDays until_ := by
  rw [computeDod, computeDod]
  split
  · rfl
  · cases hwindow : resolveWindow windowDays until_ with
    | error e => rfl
    | ok window =>
      have hrows := hagree window.1 window.2 hwindow
      have hmetrics := @metricsOf_perm splitReady _ _ _ _ hrows.auditRows_perm
        hrows.windowOutcomes_perm
      simp only [hmetrics]

theorem inWindow_iff {windowDays until_ us : Int} {sinceIso untilIso : String}
    {recorded : DateTime} (hwindow : resolveWindow windowDays until_ = .ok (sinceIso, untilIso))
    (huntil : year1000 ≤ until_) (hsince : year1000 ≤ until_ - windowDays * 86400000000)
    (hus : year1000 ≤ us) (hrecorded : DateTime.ofTimestamp us = some recorded) :
    (sinceIso ≤ iso recorded ∧ iso recorded ≤ untilIso) ↔
      (until_ - windowDays * 86400000000) / 1000 ≤ us / 1000 ∧ us / 1000 ≤ until_ / 1000 := by
  rw [resolveWindow] at hwindow
  split at hwindow
  · next start stop hstart hstop =>
    obtain ⟨rfl, rfl⟩ := Prod.mk.inj (Except.ok.inj hwindow)
    rw [iso_le_iff hstart hrecorded hsince hus, iso_le_iff hrecorded hstop hus huntil]
  · cases hwindow

/-- A report is PASS on evidence only, and rows of other stages or times do not change it. Between
the ends of the window as texts are, of the times as the database writes them, those between its
ends in milliseconds. -/
theorem computeDod_sound (splitReady : Bool) (s : Tables) (stage : String)
    (windowDays until_ : Int) :
    (∀ report, computeDod splitReady s.toState stage windowDays until_ = .ok report →
      report.overall = .pass →
      PassEvidence s.toState stage report.windowStart report.windowEnd) ∧
    (∀ t : Tables,
      (∀ sinceIso untilIso, resolveWindow windowDays until_ = .ok (sinceIso, untilIso) →
        AgreeOn s.toState t.toState stage sinceIso untilIso) →
      computeDod splitReady t.toState stage windowDays until_ =
        computeDod splitReady s.toState stage windowDays until_) ∧
    (∀ report, computeDod splitReady s.toState stage windowDays until_ = .ok report →
      year1000 ≤ until_ → year1000 ≤ until_ - windowDays * 86400000000 →
      ∀ us recorded, year1000 ≤ us → DateTime.ofTimestamp us = some recorded →
        ((report.windowStart ≤ iso recorded ∧ iso recorded ≤ report.windowEnd) ↔
          (until_ - windowDays * 86400000000) / 1000 ≤ us / 1000 ∧
            us / 1000 ≤ until_ / 1000)) := by
  refine ⟨fun report hreport hpass => ?_, fun t => computeDod_agree, fun report hreport huntil
    hsince us recorded hus hrecorded => ?_⟩
  · obtain ⟨-, hmetrics, hoverall⟩ := computeDod_eq_ok hreport
    rw [hoverall] at hpass
    refine @passEvidence_of_pass splitReady _ _ _ _ fun m hm => ?_
    rw [← hmetrics] at hm
    exact aggregate_eq_pass hpass m.verdict (List.mem_map_of_mem hm)
  · obtain ⟨hwindow, -, -⟩ := computeDod_eq_ok hreport
    exact inWindow_iff hwindow huntil hsince hus hrecorded

/-- Fifty requests of a stage, all well. -/
def fiftyWell : Tables where
  audit _ := some ⟨"2026-05-01T12:00:00.000000+00:00", 200, some 12, false,
    "2026-05-01T12:00:00.000Z", some "done", none, none⟩
  outcomes := (List.range 50).map fun n =>
    ⟨String.ofList (List.replicate n 'e'), "m4_1pct", "ok", "2026-05-01T12:00:00.100Z"⟩
  nodup := by decide +kernel

theorem fiftyWell_pass :
    ∃ report, computeDod true fiftyWell.toState "m4_1pct" 7 1778000000000000 = .ok report ∧
      report.overall = .pass ∧
      PassEvidence fiftyWell.toState "m4_1pct" report.windowStart report.windowEnd := by
  have hoverall : ((computeDod true fiftyWell.toState "m4_1pct" 7 1778000000000000).map
      DodReport.overall).toOption = some .pass := by decide +kernel
  cases hreport : computeDod true fiftyWell.toState "m4_1pct" 7 1778000000000000 with
  | error e =>
    rw [hreport] at hoverall
    cases hoverall
  | ok report =>
    rw [hreport] at hoverall
    have hpass : report.overall = .pass := Option.some.inj hoverall
    exact ⟨report, rfl, hpass, (computeDod_sound true fiftyWell "m4_1pct" 7
      1778000000000000).1 report hreport hpass⟩

end ParallaxKernel.Canary.Dod
