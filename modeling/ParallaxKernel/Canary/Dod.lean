import Mathlib.Algebra.Order.Ring.Rat
import Mathlib.Order.WithBot
import ParallaxKernel.Canary.Idempotency
import ParallaxKernel.Lib.IsoOrder
import ParallaxKernel.Lib.NearestRank

/-!
# The promotion gate

`compute_dod` of `canary/dod.py` over the tables of `canary/audit_log.py` and
`canary/outcomes.py`, as runs of `IdempotencyHandler.handle` fill them, one request after another.
The handler's clock is monotonic: no latency of its own is negative. Finite latencies, rates and the
factor `0.99` of the rank are exact rationals.
-/

namespace ParallaxKernel.Canary.Dod

open Lib

/-! ## The tables -/

/-- A value of a `REAL` column: a number or an infinity. -/
abbrev SqlReal := WithBot (WithTop ℚ)

def SqlReal.ofRat (q : ℚ) : SqlReal := ((q : WithTop ℚ) : WithBot (WithTop ℚ))

@[simp] theorem SqlReal.ofRat_le_ofRat {p q : ℚ} : ofRat p ≤ ofRat q ↔ p ≤ q := by
  simp [ofRat]

@[simp] theorem SqlReal.ofRat_lt_ofRat {p q : ℚ} : ofRat p < ofRat q ↔ p < q := by
  simp [ofRat]

/-- A row of `audit_log`. -/
structure AuditRow where
  requestAtIso : String
  responseStatus : Int
  latencyMs : Option SqlReal
  idempotencyHit : Bool
  createdAt : String
  responseBody : Option String
  ackBy : Option String
  ackAt : Option String
  deriving DecidableEq

abbrev AuditLog := String → Option AuditRow

namespace AuditLog

/-- The statement of `AuditLog.record`. -/
def record (audit : AuditLog) (eventId : String) (excluded : AuditRow) : AuditLog :=
  Function.update audit eventId <|
    match audit eventId with
    | none => some excluded
    | some old => some { excluded with
        createdAt := old.createdAt
        responseBody := excluded.responseBody.or old.responseBody
        ackBy := excluded.ackBy.or old.ackBy
        ackAt := excluded.ackAt.or old.ackAt }

/-- The statement of `record_ack`. -/
def recordAck (audit : AuditLog) (eventId ackBy ts createdAt : String) : AuditLog :=
  Function.update audit eventId <|
    match audit eventId with
    | none => some
        { requestAtIso := ts, responseStatus := 0, latencyMs := none, idempotencyHit := false,
          createdAt, responseBody := none, ackBy := some ackBy, ackAt := some ts }
    | some old => some { old with ackBy := some ackBy, ackAt := some ts }

/-- `_lookup`. -/
def cached (audit : AuditLog) (eventId : String) : Option CachedResponse :=
  (audit eventId).bind fun row => row.responseBody.map fun body => ⟨row.responseStatus, body⟩

end AuditLog

def knownStages : List String := ["m4_1pct", "m4_10pct", "m4_50pct", "m4_100pct"]

def knownOutcomes : List String := ["ok", "discrepancy", "data_loss"]

/-- A row of `canary_outcomes`. -/
structure OutcomeRecord where
  eventId : String
  stage : String
  outcome : String
  recordedAt : String
  deriving DecidableEq

/-- `OutcomeStore.record`. Without a time of its own a row takes that of the database, and a row
that is there keeps its time. An unknown stage or outcome raises. -/
def recordOutcome (outcomes : List OutcomeRecord) (eventId stage outcome : String)
    (recordedAt : Option String) (now : String) : List OutcomeRecord :=
  if stage ∉ knownStages ∨ outcome ∉ knownOutcomes then outcomes
  else if eventId ∈ outcomes.map OutcomeRecord.eventId then
    outcomes.map fun row =>
      if row.eventId = eventId then
        { row with stage, outcome, recordedAt := recordedAt.getD row.recordedAt }
      else row
  else outcomes ++ [{ eventId, stage, outcome, recordedAt := recordedAt.getD now }]

/-! ## Runs -/

/-- One call of `handle` and what it meets: the times that the database and the clock give, the
response of the worker unless it raises, and whether the log can be read and written. -/
structure Request where
  eventId : String
  requestAt : String
  createdAt : String
  latencyMs : NNRat
  response : Option CachedResponse
  lookupFails : Bool
  recordFails : Bool

inductive Op where
  | handle (r : Request)
  | recordOutcome (eventId stage outcome : String) (recordedAt : Option String) (now : String)
  | recordAck (eventId ackBy ts createdAt : String)

structure State where
  audit : AuditLog
  outcomes : List OutcomeRecord

def State.empty : State := ⟨fun _ => none, []⟩

variable (uuidInt : String → Option Nat)

/-- What the handler finds cached for a request. -/
def lookup (s : State) (r : Request) : Option CachedResponse :=
  if r.lookupFails then none else s.audit.cached r.eventId

/-- `make_record` and `AuditLog.record` with the response's body. -/
def persist (s : State) (r : Request) (response : CachedResponse) (latencyMs : NNRat) (hit : Bool) :
    State :=
  let row : AuditRow :=
    { requestAtIso := r.requestAt
      responseStatus := response.status
      latencyMs := some (.ofRat latencyMs)
      idempotencyHit := hit
      createdAt := r.createdAt
      responseBody := some response.body
      ackBy := none
      ackAt := none }
  if r.recordFails then s else { s with audit := s.audit.record r.eventId row }

/-- `IdempotencyHandler.handle`. -/
def handle (s : State) (r : Request) : Outcome × State :=
  if isUuid7 uuidInt r.eventId then
    match lookup s r with
    | some cached =>
      (.returned ⟨cached.status, cached.body, true, !r.recordFails⟩, persist s r cached 0 true)
    | none =>
      match r.response with
      | none => (.workerRaised, s)
      | some response =>
        (.returned ⟨response.status, response.body, false, !r.recordFails⟩,
          persist s r response r.latencyMs false)
  else (.invalidEventId, s)

def step (s : State) : Op → State
  | .handle r => (handle uuidInt s r).2
  | .recordOutcome eventId stage outcome recordedAt now =>
    { s with outcomes := recordOutcome s.outcomes eventId stage outcome recordedAt now }
  | .recordAck eventId ackBy ts createdAt =>
    if ackBy = "" then s else { s with audit := s.audit.recordAck eventId ackBy ts createdAt }

def run (ops : List Op) : State := ops.foldl (step uuidInt) .empty

/-! ## The gate -/

inductive DodMetric where
  | errorRate
  | discrepancyRate
  | p99LatencyMs
  | dataLossCount
  | minHits
  deriving DecidableEq

inductive DodVerdict where
  | pass
  | fail
  | insufficientData
  | pendingImplementation
  deriving DecidableEq

/-- `DOD_THRESHOLD`. -/
def dodThreshold : DodMetric → ℚ
  | .errorRate => 5 / 1000
  | .discrepancyRate => 5 / 1000
  | .p99LatencyMs => 100
  | .dataLossCount => 0
  | .minHits => 50

structure MetricResult where
  metric : DodMetric
  observed : SqlReal
  threshold : ℚ
  verdict : DodVerdict
  sampleSize : Nat
  deriving DecidableEq

structure DodReport where
  stage : String
  windowStart : String
  windowEnd : String
  metrics : List MetricResult
  overall : DodVerdict
  deriving DecidableEq

/-- The exceptions of `compute_dod`. -/
inductive DodError where
  | unknownStage (stage : String)
  | overflow
  deriving DecidableEq

/-- `_iso`; `strftime` writes the year without zeros in front. -/
def iso (ts : DateTime) : String :=
  let millis := ts.microsecond / 1000
  toString ts.year ++ "-" ++ DateTime.padded 2 ts.month ++ "-" ++
    DateTime.padded 2 ts.day ++ "T" ++ DateTime.padded 2 ts.hour ++ ":" ++
    DateTime.padded 2 ts.minute ++ ":" ++ DateTime.padded 2 ts.second ++ "." ++
    DateTime.padded 3 millis ++ "Z"

/-- `_resolve_window`, with both ends as texts; times are microseconds since 1970. -/
def resolveWindow (windowDays : Int) (until_ : Int) : Except DodError (String × String) :=
  match DateTime.ofTimestamp (until_ - windowDays * 86400000000), DateTime.ofTimestamp until_ with
  | some start, some stop => .ok (iso start, iso stop)
  | _, _ => .error .overflow

/-- The place of the quantile in a sorted list of `n` values. -/
def quantileIndex (q : ℚ) (n : Nat) : Nat :=
  let rank := max 1 ⌈q * n⌉.toNat
  min (rank - 1) (n - 1)

/-- `_quantile`. -/
def quantile (sortedValues : List SqlReal) (q : ℚ) : SqlReal :=
  match sortedValues with
  | [] => .ofRat 0
  | [v] => v
  | _ => sortedValues.getD (quantileIndex q sortedValues.length) (.ofRat 0)

/-- `_verdict_for`. -/
def verdictFor (metric : DodMetric) (observed : SqlReal) (sampleSize : Nat) : DodVerdict :=
  if metric = .minHits then
    if .ofRat (dodThreshold metric) ≤ observed then .pass else .insufficientData
  else if (sampleSize : ℚ) < dodThreshold .minHits then .insufficientData
  else if metric = .dataLossCount then
    if observed ≤ .ofRat (dodThreshold metric) then .pass else .fail
  else if observed < .ofRat (dodThreshold metric) then .pass else .fail

/-- `_aggregate`. -/
def aggregate (verdicts : List DodVerdict) : DodVerdict :=
  if verdicts = [] then .insufficientData
  else if .fail ∈ verdicts then .fail
  else if .pendingImplementation ∈ verdicts then .pendingImplementation
  else if .insufficientData ∈ verdicts then .insufficientData
  else .pass

/-- The outcomes of a stage in the window. -/
def windowOutcomes (s : State) (stage sinceIso untilIso : String) : List OutcomeRecord :=
  s.outcomes.filter fun row =>
    row.stage = stage ∧ sinceIso ≤ row.recordedAt ∧ row.recordedAt ≤ untilIso

/-- A row of the join. -/
structure JoinedRow where
  eventId : String
  responseStatus : Int
  latencyMs : Option SqlReal
  deriving DecidableEq

/-- The audit rows of the outcomes of a stage in the window. -/
def auditRows (s : State) (stage sinceIso untilIso : String) : List JoinedRow :=
  (windowOutcomes s stage sinceIso untilIso).filterMap fun row =>
    (s.audit row.eventId).map fun a => ⟨row.eventId, a.responseStatus, a.latencyMs⟩

/-- The metrics, from the two result sets. -/
def metricsOf (splitReady : Bool) (rows : List JoinedRow) (outcomes : List OutcomeRecord) :
    List MetricResult :=
  let sampleSize := rows.length
  let errorCount := rows.countP fun row => 500 ≤ row.responseStatus
  let errorRate := SqlReal.ofRat (if sampleSize = 0 then 0 else errorCount / sampleSize)
  let sortedLatencies := (rows.filterMap JoinedRow.latencyMs).insertionSort (· ≤ ·)
  let p99Latency := quantile sortedLatencies (99 / 100)
  let totalOutcomes := outcomes.length
  let discrepancyCount := outcomes.countP (·.outcome = "discrepancy")
  let dataLossCount := outcomes.countP (·.outcome = "data_loss")
  let discrepancyRate :=
    SqlReal.ofRat (if totalOutcomes = 0 then 0 else discrepancyCount / totalOutcomes)
  let canonicalSample := max sampleSize totalOutcomes
  [{ metric := .errorRate
     observed := errorRate
     threshold := dodThreshold .errorRate
     verdict :=
      if splitReady then verdictFor .errorRate errorRate sampleSize else .pendingImplementation
     sampleSize },
   { metric := .discrepancyRate
     observed := discrepancyRate
     threshold := dodThreshold .discrepancyRate
     verdict :=
      if splitReady then verdictFor .discrepancyRate discrepancyRate totalOutcomes
      else .pendingImplementation
     sampleSize := totalOutcomes },
   { metric := .p99LatencyMs
     observed := p99Latency
     threshold := dodThreshold .p99LatencyMs
     verdict := verdictFor .p99LatencyMs p99Latency sortedLatencies.length
     sampleSize := sortedLatencies.length },
   { metric := .dataLossCount
     observed := .ofRat dataLossCount
     threshold := dodThreshold .dataLossCount
     verdict := verdictFor .dataLossCount (.ofRat dataLossCount) totalOutcomes
     sampleSize := totalOutcomes },
   { metric := .minHits
     observed := .ofRat canonicalSample
     threshold := dodThreshold .minHits
     verdict := verdictFor .minHits (.ofRat canonicalSample) canonicalSample
     sampleSize := canonicalSample }]

/-- `compute_dod` where the split signal is as given. -/
def computeDod (splitReady : Bool) (s : State) (stage : String) (windowDays until_ : Int) :
    Except DodError DodReport :=
  if stage ∉ knownStages then .error (.unknownStage stage)
  else
    match resolveWindow windowDays until_ with
    | .error e => .error e
    | .ok (sinceIso, untilIso) =>
      let metrics := metricsOf splitReady (auditRows s stage sinceIso untilIso)
        (windowOutcomes s stage sinceIso untilIso)
      .ok
        { stage, windowStart := sinceIso, windowEnd := untilIso, metrics,
          overall := aggregate (metrics.map MetricResult.verdict) }

end ParallaxKernel.Canary.Dod
