import ParallaxKernel.Lib.Grouping
import ParallaxKernel.Session.Hooks

/-!
# The rates of the dual-read gate

`dual_read_metrics.py`: the rates of a list of decision records, one by one and in one pass. Rates
are exact rationals.
-/

namespace ParallaxKernel.Router.DualReadMetrics

open Lib Session

/-- A decision record: a JSON object. -/
abbrev Record := List (PyStr × PyJson)

/-- `record.get(name)`. -/
def get (r : Record) (name : String) : Option PyJson := PyJson.member? (.ofString name) r

/-- `isinstance(val, str) and val`. -/
def text? : Option PyJson → Option PyStr
  | some (.str s) => if s = [] then none else some s
  | _ => none

/-- `_normalize_outcome`. -/
def normalizeOutcome (r : Record) : Option PyStr :=
  (text? (get r "outcome")).or (text? (get r "arbitration_outcome"))

def hasOutcome (name : String) (r : Record) : Bool :=
  decide (normalizeOutcome r = some (.ofString name))

/-! ## Traffic sources -/

inductive TrafficSource where
  | natural
  | synthetic
  | unknown
  deriving DecidableEq

/-- `TRAFFIC_SOURCE_PARTITIONS`. -/
def trafficSourcePartitions : List TrafficSource := [.natural, .synthetic, .unknown]

variable (lower : PyStr → PyStr)

/-- `record_traffic_source`, where `lower` is `str.lower`. -/
def recordTrafficSource (r : Record) : TrafficSource :=
  match get r "traffic_source" with
  | some (.str raw) =>
    let candidate := lower (stripText raw)
    if candidate = .ofString "synthetic" then .synthetic
    else if candidate = .ofString "natural" then .natural
    else .unknown
  | _ => .unknown

/-- `partition_by_traffic_source`. -/
def partitionByTrafficSource (records : List Record) : List (TrafficSource × List Record) :=
  groupBy (recordTrafficSource lower) records

/-! ## Filters -/

/-- `DEFAULT_DATA_QUALITY_FILTER`. -/
def defaultDataQualityFilter : List PyStr := ["normal", "corpus_immature"].map .ofString

/-- The flag of a record in `_filter_by_quality`. -/
def qualityFlag (r : Record) : PyStr :=
  (text? (get r "data_quality_flag")).getD (.ofString "normal")

/-- `_filter_by_quality`. -/
def filterByQuality (records : List Record) (dataQualityFilter : Option (List PyStr)) :
    List Record :=
  let allowed := dataQualityFilter.getD defaultDataQualityFilter
  records.filter fun r => decide (qualityFlag r ∈ allowed)

/-- `_excluding_unreachable`. -/
def excludingUnreachable (records : List Record) : List Record :=
  records.filter fun r => !hasOutcome "aphelion_unreachable" r

/-! ## What the rates count -/

/-- A conflict of `arbitration_conflict_rate`. -/
def isConflict (r : Record) : Bool :=
  (match get r "winning_source" with
    | some (.str ws) => decide (ws = .ofString "tie" ∨ ws = .ofString "fallback")
    | _ => false) ||
  (text? (get r "conflict_event_id")).isSome

/-- `r.get(name) is True`. -/
def isTrue (name : String) (r : Record) : Bool :=
  match get r name with
  | some (.bool b) => b
  | _ => false

/-- `r.get("crosswalk_status") == "miss"`. -/
def isMiss (r : Record) : Bool :=
  match get r "crosswalk_status" with
  | some (.str s) => decide (s = .ofString "miss")
  | _ => false

/-! ## The rates -/

inductive ZeroDivisionError where
  | divisionByZero
  deriving DecidableEq

/-- `a / b`. -/
def divide (a b : Nat) : Except ZeroDivisionError ℚ :=
  if b = 0 then .error .divisionByZero else .ok (a / b)

/-- The rate of the records with a property; `0.0` for no record. -/
def rateOf (p : Record → Bool) (records : List Record) : Except ZeroDivisionError ℚ :=
  if records.isEmpty then .ok 0 else divide (records.countP p) records.length

section Rates

variable (loaded : List Record) (dataQualityFilter : Option (List PyStr))

/-- `discrepancy_rate`, where `loaded` are the records of `load_records`. -/
def discrepancyRate : Except ZeroDivisionError ℚ :=
  rateOf (hasOutcome "diverge") (excludingUnreachable (filterByQuality loaded dataQualityFilter))

def arbitrationConflictRate : Except ZeroDivisionError ℚ :=
  rateOf isConflict (excludingUnreachable (filterByQuality loaded dataQualityFilter))

def writeErrorRate : Except ZeroDivisionError ℚ :=
  rateOf (isTrue "write_error_observed")
    (excludingUnreachable (filterByQuality loaded dataQualityFilter))

def aphelionUnreachableRate : Except ZeroDivisionError ℚ :=
  rateOf (hasOutcome "aphelion_unreachable") (filterByQuality loaded dataQualityFilter)

def crosswalkMissRate : Except ZeroDivisionError ℚ :=
  rateOf isMiss (excludingUnreachable (filterByQuality loaded dataQualityFilter))

def circuitOpenCount : Nat :=
  (filterByQuality loaded dataQualityFilter).countP (isTrue "circuit_breaker_tripped")

end Rates

/-- The result of `compute_all_rates`. -/
structure AllRates where
  discrepancyRate : ℚ
  arbitrationConflictRate : ℚ
  writeErrorRate : ℚ
  aphelionUnreachableRate : ℚ
  crosswalkMissRate : ℚ
  circuitOpenCount : Nat
  deriving DecidableEq

/-- `compute_all_rates`. -/
def computeAllRates (records : List Record) (dataQualityFilter : Option (List PyStr)) :
    Except ZeroDivisionError AllRates := do
  let filtered := filterByQuality records dataQualityFilter
  let denom := excludingUnreachable filtered
  let (dRate, cRate, wRate, xRate) ←
    if denom.length = 0 then pure (0, 0, 0, 0)
    else do
      let dRate ← divide (denom.countP (hasOutcome "diverge")) denom.length
      let cRate ← divide (denom.countP isConflict) denom.length
      let wRate ← divide (denom.countP (isTrue "write_error_observed")) denom.length
      let xRate ← divide (denom.countP isMiss) denom.length
      pure (dRate, cRate, wRate, xRate)
  let uRate ←
    if filtered.length = 0 then pure 0
    else divide (filtered.countP (hasOutcome "aphelion_unreachable")) filtered.length
  return {
    discrepancyRate := dRate
    arbitrationConflictRate := cRate
    writeErrorRate := wRate
    aphelionUnreachableRate := uRate
    crosswalkMissRate := xRate
    circuitOpenCount := filtered.countP (isTrue "circuit_breaker_tripped") }

/-! ## What the rates are -/

/-- The rates, by the functions that compute one each. -/
inductive Rate where
  | discrepancy
  | arbitrationConflict
  | writeError
  | aphelionUnreachable
  | crosswalkMiss
  deriving DecidableEq

namespace Rate

def function : Rate → List Record → Option (List PyStr) → Except ZeroDivisionError ℚ
  | discrepancy => discrepancyRate
  | arbitrationConflict => arbitrationConflictRate
  | writeError => writeErrorRate
  | aphelionUnreachable => aphelionUnreachableRate
  | crosswalkMiss => crosswalkMissRate

/-- The records that the rate counts. -/
def counts : Rate → Record → Bool
  | discrepancy => hasOutcome "diverge"
  | arbitrationConflict => isConflict
  | writeError => isTrue "write_error_observed"
  | aphelionUnreachable => hasOutcome "aphelion_unreachable"
  | crosswalkMiss => isMiss

/-- The records of its denominator. -/
def denominator (k : Rate) (records : List Record) (dataQualityFilter : Option (List PyStr)) :
    List Record :=
  if k = aphelionUnreachable then filterByQuality records dataQualityFilter
  else excludingUnreachable (filterByQuality records dataQualityFilter)

def admits (dataQualityFilter : Option (List PyStr)) (k : Rate) (r : Record) : Bool :=
  decide (qualityFlag r ∈ dataQualityFilter.getD defaultDataQualityFilter) &&
    (k == aphelionUnreachable || !hasOutcome "aphelion_unreachable" r)

end Rate

def AllRates.rate (r : AllRates) : Rate → ℚ
  | .discrepancy => r.discrepancyRate
  | .arbitrationConflict => r.arbitrationConflictRate
  | .writeError => r.writeErrorRate
  | .aphelionUnreachable => r.aphelionUnreachableRate
  | .crosswalkMiss => r.crosswalkMissRate

variable {lower : PyStr → PyStr} {records records' : List Record}
variable {dataQualityFilter : Option (List PyStr)} {p : Record → Bool}

theorem rateOf_eq (p : Record → Bool) (records : List Record) :
    rateOf p records = .ok (share p records) := by
  cases records with
  | nil => simp [rateOf, share]
  | cons r records => simp [rateOf, divide, share]

theorem divide_eq (p : Record → Bool) {records : List Record} (h : records.length ≠ 0) :
    divide (records.countP p) records.length = .ok (share p records) := by
  rw [divide, if_neg h]
  rfl

/-- The values of `compute_all_rates`. -/
def allRates (dataQualityFilter : Option (List PyStr)) (records : List Record) : AllRates :=
  let value (k : Rate) := share k.counts (k.denominator records dataQualityFilter)
  { discrepancyRate := value .discrepancy
    arbitrationConflictRate := value .arbitrationConflict
    writeErrorRate := value .writeError
    aphelionUnreachableRate := value .aphelionUnreachable
    crosswalkMissRate := value .crosswalkMiss
    circuitOpenCount := circuitOpenCount records dataQualityFilter }

theorem rate_allRates (k : Rate) : (allRates dataQualityFilter records).rate k =
    share k.counts (k.denominator records dataQualityFilter) := by
  cases k <;> rfl

theorem denominator_eq (k : Rate) : k.denominator records dataQualityFilter =
    records.filter (k.admits dataQualityFilter) := by
  rw [Rate.denominator, excludingUnreachable, filterByQuality, List.filter_filter]
  split_ifs with hk
  · refine List.filter_congr fun r _ => ?_
    simp [hk, Rate.admits]
  · refine List.filter_congr fun r _ => ?_
    simp [beq_eq_false_iff_ne.2 hk, Rate.admits, Bool.and_comm]

theorem function_eq (k : Rate) : k.function records dataQualityFilter =
    .ok ((allRates dataQualityFilter records).rate k) := by
  rw [rate_allRates]
  cases k <;> exact rateOf_eq _ _

theorem share_of_length_eq_zero (h : records.length = 0) : share p records = 0 := by
  rw [List.eq_nil_of_length_eq_zero h]
  simp [share]

theorem computeAllRates_eq :
    computeAllRates records dataQualityFilter = .ok (allRates dataQualityFilter records) := by
  simp only [allRates, Rate.denominator, reduceCtorEq, if_false, if_true, computeAllRates,
    circuitOpenCount]
  generalize filterByQuality records dataQualityFilter = filtered
  generalize excludingUnreachable filtered = denom
  by_cases hdenom : denom.length = 0
  · by_cases hfiltered : filtered.length = 0
    · simp only [if_pos hdenom, if_pos hfiltered, share_of_length_eq_zero hdenom,
        share_of_length_eq_zero hfiltered]
      rfl
    · simp only [if_pos hdenom, if_neg hfiltered, share_of_length_eq_zero hdenom,
        divide_eq _ hfiltered]
      rfl
  · by_cases hfiltered : filtered.length = 0
    · simp only [if_neg hdenom, if_pos hfiltered, share_of_length_eq_zero hfiltered,
        divide_eq _ hdenom]
      rfl
    · simp only [if_neg hdenom, if_neg hfiltered, divide_eq _ hfiltered, divide_eq _ hdenom]
      rfl

/-! ## Partitions -/

/-- Records that come between others and have the outcome `aphelion_unreachable`. -/
inductive UnreachableAdded : List Record → List Record → Prop where
  | nil : UnreachableAdded [] []
  | keep (r : Record) {rs rs' : List Record} (h : UnreachableAdded rs rs') :
      UnreachableAdded (r :: rs) (r :: rs')
  | add (r : Record) {rs rs' : List Record}
      (hr : normalizeOutcome r = some (.ofString "aphelion_unreachable"))
      (h : UnreachableAdded rs rs') : UnreachableAdded rs (r :: rs')

theorem UnreachableAdded.denominator_eq (h : UnreachableAdded records records') {k : Rate}
    (hk : k ≠ .aphelionUnreachable) :
    k.denominator records' dataQualityFilter = k.denominator records dataQualityFilter := by
  rw [DualReadMetrics.denominator_eq, DualReadMetrics.denominator_eq]
  induction h with
  | nil => rfl
  | keep r _ ih => simp only [List.filter_cons, ih]
  | add r hr _ ih =>
    have hr' : k.admits dataQualityFilter r = false := by
      simp [Rate.admits, hasOutcome, hr, beq_eq_false_iff_ne.2 hk]
    rw [List.filter_cons_of_neg (by simp [hr']), ih]

theorem mem_trafficSourcePartitions (s : TrafficSource) : s ∈ trafficSourcePartitions := by
  cases s <;> decide

/-- The records of a partition; none where the dictionary does not have it. -/
def partitionOf (lower : PyStr → PyStr) (records : List Record) (s : TrafficSource) :
    List Record :=
  groupOf s (partitionByTrafficSource lower records)

theorem partitionOf_eq (s : TrafficSource) : partitionOf lower records s =
    records.filter fun r => decide (recordTrafficSource lower r = s) :=
  (isGrouped_groupBy (recordTrafficSource lower) records).group s

theorem split_partitions (lower : PyStr → PyStr) (records : List Record) :
    Split records (trafficSourcePartitions.map (partitionOf lower records)) := by
  rw [List.map_congr_left fun s _ => partitionOf_eq s]
  exact split_filter (by decide) fun r _ => mem_trafficSourcePartitions _

theorem split_denominators (lower : PyStr → PyStr) (records : List Record)
    (dataQualityFilter : Option (List PyStr)) (k : Rate) :
    Split (k.denominator records dataQualityFilter) (trafficSourcePartitions.map fun s =>
      k.denominator (partitionOf lower records s) dataQualityFilter) := by
  have h := (split_partitions lower records).filter (k.admits dataQualityFilter)
  rw [List.map_map] at h
  simpa only [denominator_eq, Function.comp_def] using h

/-- The rates of the partitions make up the rates of the whole. -/
structure PartitionsAgree (lower : PyStr → PyStr) (records : List Record)
    (dataQualityFilter : Option (List PyStr)) (r : AllRates) (q : TrafficSource → AllRates) :
    Prop where
  rates : ∀ s, computeAllRates (partitionOf lower records s) dataQualityFilter = .ok (q s)
  circuit : (trafficSourcePartitions.map fun s => (q s).circuitOpenCount).sum = r.circuitOpenCount
  denominators : ∀ k : Rate, (trafficSourcePartitions.map fun s =>
      (k.denominator (partitionOf lower records s) dataQualityFilter).length).sum =
    (k.denominator records dataQualityFilter).length
  mean : ∀ k : Rate, r.rate k = (trafficSourcePartitions.map fun s => (q s).rate k *
      (k.denominator (partitionOf lower records s) dataQualityFilter).length).sum /
    (k.denominator records dataQualityFilter).length
  below : ∀ (k : Rate) (θ : ℚ), (∀ s ∈ trafficSourcePartitions, (q s).rate k < θ) → r.rate k < θ

/-- What the rates of a list say: the functions that compute one rate each say the same, the
partitions make them up, and unreachable records change the rate of these alone. -/
structure Consistent (lower : PyStr → PyStr) (records : List Record)
    (dataQualityFilter : Option (List PyStr)) (r : AllRates) : Prop where
  one_by_one : ∀ k : Rate, k.function records dataQualityFilter = .ok (r.rate k)
  circuit : circuitOpenCount records dataQualityFilter = r.circuitOpenCount
  bounded : ∀ k, 0 ≤ r.rate k ∧ r.rate k ≤ 1
  grouped : IsGrouped (recordTrafficSource lower) records (partitionByTrafficSource lower records)
  partitions : ∃ q, PartitionsAgree lower records dataQualityFilter r q
  unreachable : ∀ records', UnreachableAdded records records' →
    ∃ r', computeAllRates records' dataQualityFilter = .ok r' ∧
      ∀ k ≠ .aphelionUnreachable, r'.rate k = r.rate k

theorem partitionsAgree (lower : PyStr → PyStr) (records : List Record)
    (dataQualityFilter : Option (List PyStr)) :
    PartitionsAgree lower records dataQualityFilter (allRates dataQualityFilter records)
      fun s => allRates dataQualityFilter (partitionOf lower records s) where
  rates s := computeAllRates_eq
  circuit := by
    have h := (split_denominators lower records dataQualityFilter .aphelionUnreachable).countP
      (isTrue "circuit_breaker_tripped")
    rw [List.map_map] at h
    exact h
  denominators k := by
    have h := (split_denominators lower records dataQualityFilter k).length
    rw [List.map_map] at h
    exact h
  mean k := by
    have h := (split_denominators lower records dataQualityFilter k).share_mul_length k.counts
    rw [List.map_map] at h
    simp only [rate_allRates]
    by_cases hzero : (k.denominator records dataQualityFilter).length = 0
    · simp [hzero, share_of_length_eq_zero hzero]
    · exact eq_div_of_mul_eq (Nat.cast_ne_zero.2 hzero) h
  below k θ hθ := by
    simp only [rate_allRates] at hθ ⊢
    refine (split_denominators lower records dataQualityFilter k).share_lt ?_ ?_
    · simp [trafficSourcePartitions]
    intro part hpart
    obtain ⟨s, hs, rfl⟩ := List.mem_map.1 hpart
    exact hθ s hs

/-- The rates of one pass are those of the single functions, of the partitions, and of the list
without its unreachable records. -/
theorem rates_consistent (lower : PyStr → PyStr) (records : List Record)
    (dataQualityFilter : Option (List PyStr)) :
    ∃ r, computeAllRates records dataQualityFilter = .ok r ∧
      Consistent lower records dataQualityFilter r := by
  refine ⟨_, computeAllRates_eq, function_eq, rfl, ?_, ?_, ?_, ?_⟩
  · intro k
    rw [rate_allRates]
    exact ⟨share_nonneg _ _, share_le_one _ _⟩
  · exact isGrouped_groupBy _ _
  · exact ⟨_, partitionsAgree lower records dataQualityFilter⟩
  · intro records' hadded
    refine ⟨_, computeAllRates_eq, fun k hk => ?_⟩
    rw [rate_allRates, rate_allRates, hadded.denominator_eq hk]

end ParallaxKernel.Router.DualReadMetrics
