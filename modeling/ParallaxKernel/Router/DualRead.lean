import ParallaxKernel.Lib.Json
import ParallaxKernel.Store.Hashing

/-!
# The dual-read router

`DualReadRouter` of `router/dual_read.py`, with `_hits_equal` of `router/shadow.py` and `arbitrate`
of `router/live_arbitration.py`. The secondary is code of anybody: it answers with any object, and
each operation on that object may raise. The hooks are what the router calls beside the answer,
each with what it does on the request. Clock readings are left out.
-/

namespace ParallaxKernel.Router

open Lib Store

/-! ## Requests -/

inductive QueryType where
  | recentContext
  | artifactContext
  | entityProfile
  | changeTrace
  | temporalContext
  deriving DecidableEq

def QueryType.value : QueryType → String
  | recentContext => "recent_context"
  | artifactContext => "artifact_context"
  | entityProfile => "entity_profile"
  | changeTrace => "change_trace"
  | temporalContext => "temporal_context"

structure QueryRequest where
  queryType : QueryType
  userId : String
  q : String
  limit : Int
  since : Option String
  until_ : Option String
  level : Int
  params : Option (List (String × Json))

/-- A request of CHANGE_TRACE with the `legacy_kind` `"bug"`. -/
def QueryRequest.bugTrace (request : QueryRequest) : Bool :=
  request.queryType = .changeTrace && request.params.any fun params =>
    match Json.member? "legacy_kind" params with
    | some (.str kind) => kind = "bug"
    | _ => false

/-! ## Python objects -/

/-- The classes of exceptions that the router tells apart. The reason is missing where a subclass
does not set it. -/
inductive PyError where
  | attributeError
  | typeError
  | aphelionUnreachable (reason : Option String)
  | other (name : String)
  deriving DecidableEq

/-- The operations on the values of hits: `a != b`, `a is None` and
`math.isclose(a, b, rel_tol=_SCORE_REL_TOL)`. -/
structure Python (V : Type) where
  none : V
  isNone : V → Bool
  ne : V → V → Except PyError Bool
  isClose : V → V → Except PyError Bool

/-- The evidence of the primary. -/
structure RetrievalEvidence (V : Type) where
  hits : List (List (String × V))
  stages : List String
  notes : List String
  sqlFragments : List String
  diversityMode : String

/-- What iterating over the hits of the secondary yields: `get` of the element. -/
structure ShadowHit (V : Type) where
  get : String → Except PyError V

/-- What the object of the secondary answers, each time that it is asked: `len(shadow.hits)`, the
elements of `shadow.hits` and the exception that ends them, if one does, and `len(evidence.hits)`
when it is arbitrated. -/
structure ShadowEvidence (V : Type) where
  len : Except PyError Nat
  hits : List (ShadowHit V)
  ended : Option PyError
  lenAgain : Except PyError Nat

variable {V : Type} (py : Python V)

/-! ## Comparing the hits -/

/-- `hit.get(key)` of a dictionary. -/
def dictGet (hit : List (String × V)) (key : String) : V := (hit.lookup key).getD py.none

/-- The body of the loop of `_hits_equal`. -/
def hitEqual (canonical : List (String × V)) (shadow : ShadowHit V) : Except PyError Bool := do
  if ← py.ne (dictGet py canonical "id") (← shadow.get "id") then
    return false
  if ← py.ne (dictGet py canonical "kind") (← shadow.get "kind") then
    return false
  let canonicalScore := dictGet py canonical "score"
  let shadowScore ← shadow.get "score"
  if py.isNone canonicalScore || py.isNone shadowScore then
    return !(← py.ne canonicalScore shadowScore)
  else
    py.isClose canonicalScore shadowScore

/-- The loop of `_hits_equal` over `zip(.., strict=True)`. -/
def zipEqual (ended : Option PyError) :
    List (List (String × V)) → List (ShadowHit V) → Except PyError Bool
  | [], [] =>
    match ended with
    | none => .ok true
    | some e => .error e
  | [], _ :: _ => .error (.other "ValueError")
  | _ :: _, [] => .error (ended.getD (.other "ValueError"))
  | canonical :: canonicals, shadow :: shadows => do
    if ← hitEqual py canonical shadow then zipEqual ended canonicals shadows else return false

/-- `_hits_equal`. -/
def hitsEqual (canonical : RetrievalEvidence V) (shadow : ShadowEvidence V) :
    Except PyError Bool := do
  if canonical.hits.length ≠ (← shadow.len) then
    return false
  zipEqual py shadow.ended canonical.hits shadow.hits

/-! ## Arbitration -/

inductive WinningSource where
  | parallax
  | aphelion
  | tie
  | fallback
  deriving DecidableEq

def WinningSource.value : WinningSource → String
  | parallax => "parallax"
  | aphelion => "aphelion"
  | tie => "tie"
  | fallback => "fallback"

structure LiveArbitrationDecision where
  winningSource : WinningSource
  tieBreakerRule : String
  conflictEventId : Option String
  policyVersion : String
  correlationId : String
  queryType : QueryType
  reasonCode : String
  deriving DecidableEq

def LiveArbitrationDecision.requiresManualReview (decision : LiveArbitrationDecision) : Bool :=
  decision.winningSource = .tie || decision.winningSource = .fallback

/-- `_QT_OWNERSHIP`. -/
def qtOwnership : QueryType → WinningSource
  | .recentContext | .artifactContext | .changeTrace | .temporalContext => .parallax
  | .entityProfile => .aphelion

/-- `_is_empty` of the secondary. -/
def shadowIsEmpty : Option (ShadowEvidence V) → Except PyError Bool
  | none => .ok true
  | some evidence => evidence.lenAgain.map (· = 0)

def arbitrate (primary : RetrievalEvidence V) (secondary : Option (ShadowEvidence V))
    (queryType : QueryType) (correlationId : String) : Except PyError LiveArbitrationDecision := do
  let winningSource :=
    if (← shadowIsEmpty secondary) || primary.hits.isEmpty then .fallback
    else qtOwnership queryType
  return {
    winningSource := winningSource
    tieBreakerRule := "source-level"
    conflictEventId := none
    policyVersion := "v0.3.0-rc"
    correlationId := correlationId
    queryType := queryType
    reasonCode := "source-level/" ++ queryType.value ++ "/" ++ winningSource.value }

/-! ## The query -/

inductive DualReadOutcome where
  | match_
  | diverge
  | aphelionUnreachable
  | primaryOnly
  | skipped
  deriving DecidableEq

def DualReadOutcome.value : DualReadOutcome → String
  | match_ => "match"
  | diverge => "diverge"
  | aphelionUnreachable => "aphelion_unreachable"
  | primaryOnly => "primary_only"
  | skipped => "skipped"

structure DualReadResult (V : Type) where
  outcome : DualReadOutcome
  primary : RetrievalEvidence V
  secondary : Option (ShadowEvidence V)
  correlationId : String
  aphelionUnreachableReason : Option String
  arbitration : Option LiveArbitrationDecision
  writeErrorObserved : Bool

/-- The record of `_log_decision`. -/
structure DecisionRecord where
  correlationId : String
  queryType : String
  outcome : DualReadOutcome
  winningSource : Option WinningSource
  policyVersion : String
  writeErrorObserved : Bool
  conflictEventId : Option String
  dataQualityFlag : String
  trafficSource : String
  deriving DecidableEq

/-- What the router does beside its answer. -/
inductive Effect where
  | secondaryInvoked
  | requestCounted (trafficSource : String)
  | outcomeRecorded (userId : String) (outcome : DualReadOutcome) (trafficSource : Option String)
  | liveCounted (userId : String) (outcome : DualReadOutcome) (trafficSource : Option String)
  | breakerFed (observedUnreachable : Bool)
  | decisionAppended (record : DecisionRecord)
  | conflictWritten (decision : LiveArbitrationDecision) (userId : String)
  | warned (event : String)
  deriving DecidableEq

/-- What the hooks do on a request: each returns or raises. No live counter and no events
connection need be configured. -/
structure Hooks where
  isTripped : Except PyError Bool
  isLogEnabled : Except PyError Bool
  recordRequest : Except PyError Unit
  recordOutcome : Except PyError Unit
  liveCounter : Option (Except PyError Unit)
  recordBreaker : Except PyError Unit
  appendDecision : Except PyError Unit
  writeConflict : Option (Except PyError String)
  observeLatency : Except PyError Unit
  warn : Except PyError Unit

/-- What comes of the secondary by the timeout: an object, an exception, or nothing, and then the
call may end later or never. -/
inductive Reply (V : Type) where
  | returned (evidence : ShadowEvidence V)
  | raised (e : PyError)
  | late
  | never

/-- The thread pool and the number of its threads that secondaries hold which never end. -/
structure DualReadRouter where
  maxWorkers : Nat
  stuck : Nat

/-- What comes of a query: its result, if it ever returns or raises, what it did beside, and the
threads that are held from then on. -/
structure Response (V : Type) where
  result : Option (Except PyError (DualReadResult V))
  effects : List Effect
  stuck : Nat

/-- `_safe_log_warning`: a logger that raises is silent. -/
def safeLogWarning (hooks : Hooks) (event : String) : List Effect :=
  match hooks.warn with
  | .ok () => [.warned event]
  | .error _ => []

/-- A call in `try .. except Exception`: what it does, and the warning when it raises. -/
def attempt (hooks : Hooks) (hook : Except PyError Unit) (effect : Effect) (event : String) :
    List Effect :=
  match hook with
  | .ok () => [effect]
  | .error _ => effect :: safeLogWarning hooks event

/-- `_normalize_traffic_source`. -/
def normalizeTrafficSource : Option String → String
  | none => "natural"
  | some value => if (strip value).toLower = "synthetic" then "synthetic" else "natural"

/-- `_record`. -/
def recordOutcome (hooks : Hooks) (userId : String) (outcome : DualReadOutcome)
    (trafficSource : Option String) : List Effect :=
  attempt hooks hooks.recordOutcome (.outcomeRecorded userId outcome trafficSource)
      "record_dual_read_outcome_failed" ++
    (match hooks.liveCounter with
    | none => []
    | some hook => attempt hooks hook (.liveCounted userId outcome trafficSource)
        "live_counter_record_failed") ++
    if outcome = .skipped then []
    else attempt hooks hooks.recordBreaker (.breakerFed (outcome = .aphelionUnreachable))
      "breaker_record_failed"

/-- `_log_decision`. -/
def logDecision (hooks : Hooks) (record : DecisionRecord) : List Effect :=
  attempt hooks hooks.appendDecision (.decisionAppended record) "decision_log_append_failed"

/-- The guard against a missing snapshot while the breaker is tripped. -/
def wiringGuard (hooks : Hooks) : Option Bool → List Effect
  | some _ => []
  | none =>
    match hooks.isTripped with
    | .error _ => safeLogWarning hooks "breaker_is_tripped_check_failed"
    | .ok false => []
    | .ok true => safeLogWarning hooks "dual_read_override_missing_with_tripped_breaker"

/-- The count of the attempt, which is not guarded. -/
def countAttempt (hooks : Hooks) (enabled : Bool) (trafficSource : Option String) :
    Except PyError (List Effect) := do
  if enabled then
    if ← hooks.isLogEnabled then
      hooks.recordRequest
      return [.requestCounted (normalizeTrafficSource trafficSource)]
  return []

/-- The classification of what came of the secondary: the outcome, the evidence that is kept and
the reason of unreachability. -/
structure Classified (V : Type) where
  outcome : DualReadOutcome
  secondary : Option (ShadowEvidence V)
  unreachableReason : Option String
  warnings : List Effect

def classify (hooks : Hooks) (primary : RetrievalEvidence V) :
    Reply V → Except PyError (Classified V)
  | .late | .never => .ok ⟨.aphelionUnreachable, none, some "timeout", []⟩
  | .returned evidence =>
    match hitsEqual py primary evidence with
    | .ok equal => .ok ⟨if equal then .match_ else .diverge, some evidence, none, []⟩
    | .error .attributeError | .error .typeError =>
      .ok ⟨.primaryOnly, none, none, safeLogWarning hooks "secondary_hits_equal_failed"⟩
    | .error e => .error e
  | .raised (.aphelionUnreachable (some reason)) =>
    .ok ⟨.aphelionUnreachable, none, some reason, []⟩
  | .raised (.aphelionUnreachable none) => .error .attributeError
  | .raised _ =>
    .ok ⟨.primaryOnly, none, none, safeLogWarning hooks "secondary_unexpected_exception"⟩

/-- The arbitration, whose latency is observed even when it raises. -/
def arbitrateObserved (hooks : Hooks) (primary : RetrievalEvidence V)
    (secondary : Option (ShadowEvidence V)) (queryType : QueryType) (correlationId : String) :
    Except PyError LiveArbitrationDecision :=
  match hooks.observeLatency with
  | .error e => .error e
  | .ok () => arbitrate primary secondary queryType correlationId

/-- The conflict event of a decision that needs review: the decision with its event, whether a
write error was observed, and what was done. -/
def writeConflict (hooks : Hooks) (decision : LiveArbitrationDecision) (userId : String) :
    LiveArbitrationDecision × Bool × List Effect :=
  if decision.requiresManualReview then
    match hooks.writeConflict with
    | none => (decision, false, [])
    | some (.ok "") => (decision, true, [.conflictWritten decision userId])
    | some (.ok eventId) =>
      ({ decision with conflictEventId := some eventId }, false, [.conflictWritten decision userId])
    | some (.error _) => (decision, true,
        .conflictWritten decision userId :: safeLogWarning hooks "conflict_event_write_failed")
  else (decision, false, [])

/-- The answer of the paths that never call the secondary. -/
def skip (hooks : Hooks) (request : QueryRequest) (correlationId : String)
    (trafficSource : Option String) (primary : RetrievalEvidence V) :
    DualReadResult V × List Effect :=
  (⟨.skipped, primary, none, correlationId, none, none, false⟩,
    recordOutcome hooks request.userId .skipped trafficSource ++
      logDecision hooks ⟨correlationId, request.queryType.value, .skipped, none, "", false, none,
        "normal", normalizeTrafficSource trafficSource⟩)

/-- What follows the dispatch, once the primary has returned. -/
def settle (hooks : Hooks) (request : QueryRequest) (correlationId : String)
    (trafficSource : Option String) (primary : RetrievalEvidence V) (reply : Reply V) :
    Except PyError (DualReadResult V) × List Effect :=
  match classify py hooks primary reply with
  | .error e => (.error e, [])
  | .ok c =>
    match arbitrateObserved hooks primary c.secondary request.queryType correlationId with
    | .error e => (.error e, c.warnings)
    | .ok decision =>
      let (decision, writeError, written) := writeConflict hooks decision request.userId
      (.ok ⟨c.outcome, primary, c.secondary, correlationId, c.unreachableReason, some decision,
          writeError⟩,
        c.warnings ++ written ++ recordOutcome hooks request.userId c.outcome trafficSource ++
          logDecision hooks ⟨correlationId, request.queryType.value, c.outcome,
            some decision.winningSource, decision.policyVersion, writeError,
            decision.conflictEventId, "normal", normalizeTrafficSource trafficSource⟩)

/-- The arguments of a call of `query`, the flag of the environment and the id that is drawn when
none is given. -/
structure QueryCall where
  request : QueryRequest
  correlationId : Option String
  dualReadOverride : Option Bool
  trafficSource : Option String
  envEnabled : Bool
  drawn : String

def QueryCall.enabled (call : QueryCall) : Bool := call.dualReadOverride.getD call.envEnabled

/-- The call goes to both stores. -/
def QueryCall.dispatched (call : QueryCall) : Bool := call.enabled && !call.request.bugTrace

/-- `DualReadRouter.query`. The primary runs on a thread of the pool that no secondary holds, and
without one it never starts. -/
def DualReadRouter.query (router : DualReadRouter) (hooks : Hooks) (call : QueryCall)
    (primary : Except PyError (RetrievalEvidence V)) (reply : Reply V) : Response V :=
  let correlationId := call.correlationId.getD call.drawn
  let guarded := wiringGuard hooks call.dualReadOverride
  match countAttempt hooks call.enabled call.trafficSource with
  | .error e => ⟨some (.error e), guarded, router.stuck⟩
  | .ok counted =>
    if call.dispatched then
      if router.maxWorkers ≤ router.stuck then ⟨none, guarded ++ counted, router.stuck⟩
      else
        let stuck := match reply with
          | .never => router.stuck + 1
          | _ => router.stuck
        match primary with
        | .error e => ⟨some (.error e), guarded ++ counted ++ [.secondaryInvoked], stuck⟩
        | .ok primary =>
          let (result, effects) :=
            settle py hooks call.request correlationId call.trafficSource primary reply
          ⟨some result, guarded ++ counted ++ .secondaryInvoked :: effects, stuck⟩
    else
      match primary with
      | .error e => ⟨some (.error e), guarded ++ counted, router.stuck⟩
      | .ok primary =>
        let (result, effects) := skip hooks call.request correlationId call.trafficSource primary
        ⟨some (.ok result), guarded ++ counted ++ effects, router.stuck⟩

/-! ## What fail-closed means -/

/-- The secondary timed out, or said that it is unreachable. -/
def Reply.Unreachable : Reply V → Prop
  | .late | .never | .raised (.aphelionUnreachable _) => True
  | _ => False

/-- The secondary returned an evidence that can be compared, with this result. -/
def Reply.Compares (reply : Reply V) (primary : RetrievalEvidence V) (equal : Bool) : Prop :=
  ∃ evidence, reply = .returned evidence ∧ hitsEqual py primary evidence = .ok equal

def Effect.feedsBreaker : Effect → Bool
  | breakerFed _ => true
  | _ => false

/-- How often the breaker is fed. -/
def feeds (effects : List Effect) : Nat := effects.countP Effect.feedsBreaker

structure FailClosed (call : QueryCall) (primary : RetrievalEvidence V) (reply : Reply V)
    (response : Response V) (result : DualReadResult V) : Prop where
  returns : response.result = some (.ok result)
  canonical : result.primary = primary
  skipped : result.outcome = .skipped ↔ call.enabled = false ∨ call.request.bugTrace = true
  not_invoked : result.outcome = .skipped → .secondaryInvoked ∉ response.effects
  unreachable : result.outcome = .aphelionUnreachable ↔
    result.outcome ≠ .skipped ∧ reply.Unreachable
  matched : result.outcome = .match_ ↔ result.outcome ≠ .skipped ∧ reply.Compares py primary true
  diverged : result.outcome = .diverge ↔
    result.outcome ≠ .skipped ∧ reply.Compares py primary false
  primary_only : result.outcome = .primaryOnly ↔ result.outcome ≠ .skipped ∧
    ¬ reply.Unreachable ∧ ∀ equal, ¬ reply.Compares py primary equal
  breaker : feeds response.effects = if result.outcome = .skipped then 0 else 1

/-- What the code leaves unguarded does not raise, and a thread of the pool is free. -/
structure Unguarded (router : DualReadRouter) (hooks : Hooks) (call : QueryCall)
    (primary : RetrievalEvidence V) (reply : Reply V) : Prop where
  attempt : call.enabled = true →
    ∃ on, hooks.isLogEnabled = .ok on ∧ (on = true → hooks.recordRequest = .ok ())
  thread : call.dispatched = true → router.stuck < router.maxWorkers
  evidence : call.dispatched = true → ∀ evidence, reply = .returned evidence →
    (∃ equal n, hitsEqual py primary evidence = .ok equal ∧ evidence.lenAgain = .ok n) ∨
      hitsEqual py primary evidence = .error .attributeError ∨
      hitsEqual py primary evidence = .error .typeError
  reason : call.dispatched = true → reply ≠ .raised (.aphelionUnreachable none)
  observe : call.dispatched = true → hooks.observeLatency = .ok ()

/-! ## What the guarded parts do -/

@[simp] theorem feeds_nil : feeds [] = 0 := rfl

@[simp] theorem feeds_cons (effect : Effect) (effects : List Effect) :
    feeds (effect :: effects) = feeds effects + if effect.feedsBreaker then 1 else 0 :=
  List.countP_cons

@[simp] theorem feeds_append (effects effects' : List Effect) :
    feeds (effects ++ effects') = feeds effects + feeds effects' :=
  List.countP_append

@[simp] theorem feeds_safeLogWarning (hooks : Hooks) (event : String) :
    feeds (safeLogWarning hooks event) = 0 := by
  unfold safeLogWarning
  split <;> rfl

@[simp] theorem invoked_safeLogWarning (hooks : Hooks) (event : String) :
    .secondaryInvoked ∉ safeLogWarning hooks event := by
  unfold safeLogWarning
  split <;> simp

@[simp] theorem feeds_attempt (hooks : Hooks) (hook : Except PyError Unit) (effect : Effect)
    (event : String) :
    feeds (attempt hooks hook effect event) = if effect.feedsBreaker then 1 else 0 := by
  unfold attempt
  split <;> simp

theorem mem_attempt {hooks : Hooks} {hook : Except PyError Unit} {effect : Effect}
    {event : String} :
    .secondaryInvoked ∈ attempt hooks hook effect event ↔ effect = .secondaryInvoked := by
  unfold attempt
  split <;> simp [eq_comm]

/-- The recorders feed the breaker once, on every outcome but the skipped. -/
theorem feeds_recordOutcome (hooks : Hooks) (userId : String) (outcome : DualReadOutcome)
    (trafficSource : Option String) :
    feeds (recordOutcome hooks userId outcome trafficSource) =
      if outcome = .skipped then 0 else 1 := by
  unfold recordOutcome
  rw [feeds_append, feeds_append, feeds_attempt]
  cases hooks.liveCounter <;> by_cases hskipped : outcome = .skipped <;>
    simp only [hskipped, if_true, if_false, feeds_nil, feeds_attempt] <;> rfl

theorem invoked_recordOutcome (hooks : Hooks) (userId : String) (outcome : DualReadOutcome)
    (trafficSource : Option String) :
    .secondaryInvoked ∉ recordOutcome hooks userId outcome trafficSource := by
  unfold recordOutcome
  cases hooks.liveCounter <;> by_cases hskipped : outcome = .skipped <;>
    simp [hskipped, mem_attempt]

@[simp] theorem feeds_logDecision (hooks : Hooks) (record : DecisionRecord) :
    feeds (logDecision hooks record) = 0 :=
  feeds_attempt ..

theorem wiringGuard_quiet (hooks : Hooks) (override : Option Bool) :
    feeds (wiringGuard hooks override) = 0 ∧ .secondaryInvoked ∉ wiringGuard hooks override := by
  unfold wiringGuard
  split
  · simp
  · split <;> simp

/-- The attempt is counted, or need not be, exactly when its two hooks let it. -/
theorem countAttempt_ok {hooks : Hooks} {enabled : Bool} {trafficSource : Option String} :
    (∃ counted, countAttempt hooks enabled trafficSource = .ok counted) ↔
      (enabled = true →
        ∃ on, hooks.isLogEnabled = .ok on ∧ (on = true → hooks.recordRequest = .ok ())) := by
  cases enabled with
  | false => exact ⟨nofun, fun _ => ⟨[], rfl⟩⟩
  | true =>
    cases hon : hooks.isLogEnabled with
    | error e => simp [countAttempt, hon, bind, Except.bind]
    | ok on =>
      cases on with
      | false => simp [countAttempt, hon, bind, Except.bind, pure, Except.pure]
      | true =>
        cases hrecord : hooks.recordRequest with
        | error e => simp [countAttempt, hon, hrecord, bind, Except.bind]
        | ok u => simp [countAttempt, hon, hrecord, bind, Except.bind, pure, Except.pure]

theorem countAttempt_quiet {hooks : Hooks} {enabled : Bool} {trafficSource : Option String}
    {counted : List Effect} (h : countAttempt hooks enabled trafficSource = .ok counted) :
    feeds counted = 0 ∧ .secondaryInvoked ∉ counted := by
  have hcases : counted = [] ∨
      counted = [.requestCounted (normalizeTrafficSource trafficSource)] := by
    cases enabled with
    | false => exact .inl (Except.ok.inj h).symm
    | true =>
      simp only [countAttempt, bind, Except.bind, pure, Except.pure, if_true] at h
      split at h
      · exact nomatch h
      · split at h
        · split at h
          · exact nomatch h
          · exact .inr (Except.ok.inj h).symm
        · exact .inl (Except.ok.inj h).symm
  obtain rfl | rfl := hcases <;> simp [Effect.feedsBreaker]

theorem writeConflict_quiet (hooks : Hooks) (decision : LiveArbitrationDecision)
    (userId : String) : feeds (writeConflict hooks decision userId).2.2 = 0 := by
  unfold writeConflict
  split
  · split <;> simp [Effect.feedsBreaker]
  · rfl

/-! ## The classification -/

/-- The outcome says what came of the secondary. -/
structure Classified.Says (c : Classified V) (primary : RetrievalEvidence V) (reply : Reply V) :
    Prop where
  attempted : c.outcome ≠ .skipped
  unreachable : c.outcome = .aphelionUnreachable ↔ reply.Unreachable
  matched : c.outcome = .match_ ↔ reply.Compares py primary true
  diverged : c.outcome = .diverge ↔ reply.Compares py primary false
  primary_only : c.outcome = .primaryOnly ↔
    ¬ reply.Unreachable ∧ ∀ equal, ¬ reply.Compares py primary equal
  quiet : feeds c.warnings = 0

variable {py} {hooks : Hooks} {primary : RetrievalEvidence V} {reply : Reply V}

theorem says_unreachable {c : Classified V} (hc : c.outcome = .aphelionUnreachable)
    (hwarnings : feeds c.warnings = 0) (hreply : reply.Unreachable) : c.Says py primary reply := by
  have hnot (equal : Bool) : ¬ reply.Compares py primary equal := by
    rintro ⟨evidence, rfl, -⟩
    exact hreply
  constructor <;> simp [hc, hreply, hnot, hwarnings]

theorem says_primaryOnly {c : Classified V} (hc : c.outcome = .primaryOnly)
    (hwarnings : feeds c.warnings = 0) (hreply : ¬ reply.Unreachable)
    (hnot : ∀ equal, ¬ reply.Compares py primary equal) : c.Says py primary reply := by
  constructor <;> simp [hc, hreply, hnot, hwarnings]

theorem says_compared {c : Classified V} {evidence : ShadowEvidence V} {equal : Bool}
    (hc : c.outcome = if equal then .match_ else .diverge) (hwarnings : feeds c.warnings = 0)
    (hequal : hitsEqual py primary evidence = .ok equal) :
    c.Says py primary (.returned evidence) := by
  have hcompares (equal' : Bool) :
      (Reply.returned evidence).Compares py primary equal' ↔ equal = equal' := by
    simp [Reply.Compares, hequal]
  cases equal <;> constructor <;> simp [hc, hcompares, hwarnings, Reply.Unreachable]

theorem classify_says {c : Classified V} (h : classify py hooks primary reply = .ok c) :
    c.Says py primary reply := by
  cases reply with
  | late =>
    obtain rfl := Except.ok.inj h
    exact says_unreachable rfl rfl trivial
  | never =>
    obtain rfl := Except.ok.inj h
    exact says_unreachable rfl rfl trivial
  | returned evidence =>
    cases hequal : hitsEqual py primary evidence with
    | ok equal =>
      simp only [classify, hequal] at h
      obtain rfl := Except.ok.inj h
      exact says_compared rfl rfl hequal
    | error e =>
      have hnot (equal : Bool) : ¬ (Reply.returned evidence).Compares py primary equal := by
        simp [Reply.Compares, hequal]
      cases e <;> simp only [classify, hequal] at h
      · obtain rfl := Except.ok.inj h
        exact says_primaryOnly rfl (feeds_safeLogWarning ..) id hnot
      · obtain rfl := Except.ok.inj h
        exact says_primaryOnly rfl (feeds_safeLogWarning ..) id hnot
      all_goals exact nomatch h
  | raised e =>
    have hnot (equal : Bool) : ¬ (Reply.raised e).Compares py primary equal := by
      simp [Reply.Compares]
    cases e with
    | aphelionUnreachable reason =>
      cases reason with
      | none => exact nomatch h
      | some reason =>
        obtain rfl := Except.ok.inj h
        exact says_unreachable rfl rfl trivial
    | attributeError =>
      obtain rfl := Except.ok.inj h
      exact says_primaryOnly rfl (feeds_safeLogWarning ..) id hnot
    | typeError =>
      obtain rfl := Except.ok.inj h
      exact says_primaryOnly rfl (feeds_safeLogWarning ..) id hnot
    | other name =>
      obtain rfl := Except.ok.inj h
      exact says_primaryOnly rfl (feeds_safeLogWarning ..) id hnot

variable {request : QueryRequest} {correlationId : String} {trafficSource : Option String}

/-- A settled answer carries the evidence of the primary and feeds the breaker once. -/
theorem settle_says {result : DualReadResult V} {effects : List Effect}
    (h : settle py hooks request correlationId trafficSource primary reply =
      (.ok result, effects)) :
    result.primary = primary ∧ feeds effects = 1 ∧
      ∃ c : Classified V, c.outcome = result.outcome ∧ c.Says py primary reply := by
  unfold settle at h
  split at h
  · exact nomatch h
  · next c hc =>
    split at h
    · exact nomatch h
    · next decision hdecision =>
      have hquiet := writeConflict_quiet hooks decision request.userId
      generalize writeConflict hooks decision request.userId = written at h hquiet
      obtain ⟨hresult, rfl⟩ := Prod.mk.inj h
      obtain rfl := Except.ok.inj hresult
      have htells := classify_says hc
      refine ⟨rfl, ?_, c, rfl, htells⟩
      rw [feeds_append, feeds_append, feeds_append, htells.quiet, hquiet, feeds_recordOutcome,
        feeds_logDecision, if_neg htells.attempted]

theorem arbitrate_none (queryType : QueryType) :
    ∃ decision, arbitrate primary none queryType correlationId = .ok decision :=
  ⟨_, rfl⟩

theorem arbitrate_some (evidence : ShadowEvidence V) (queryType : QueryType) :
    (∃ decision, arbitrate primary (some evidence) queryType correlationId = .ok decision) ↔
      ∃ n, evidence.lenAgain = .ok n := by
  cases hlen : evidence.lenAgain with
  | error e => simp [arbitrate, shadowIsEmpty, hlen, Except.map, bind, Except.bind]
  | ok n => simp [arbitrate, shadowIsEmpty, hlen, Except.map, bind, Except.bind, pure, Except.pure]

variable (py request correlationId trafficSource) in
theorem settle_of_classify {c : Classified V} (hc : classify py hooks primary reply = .ok c) :
    (∃ result effects, settle py hooks request correlationId trafficSource primary reply =
        (.ok result, effects)) ↔
      hooks.observeLatency = .ok () ∧
        ∃ decision, arbitrate primary c.secondary request.queryType correlationId =
          .ok decision := by
  simp only [settle, hc, arbitrateObserved]
  cases hooks.observeLatency with
  | error e => simp
  | ok u =>
    cases arbitrate primary c.secondary request.queryType correlationId with
    | error e => simp
    | ok decision => simp

theorem settle_of_error {e : PyError} (hc : classify py hooks primary reply = .error e) :
    ¬ ∃ result effects, settle py hooks request correlationId trafficSource primary reply =
      (.ok result, effects) := by
  simp [settle, hc]

/-- An answer is settled exactly when nothing that is unguarded raises. -/
theorem settle_ok :
    (∃ result effects, settle py hooks request correlationId trafficSource primary reply =
        (.ok result, effects)) ↔
      hooks.observeLatency = .ok () ∧
      (∀ evidence, reply = .returned evidence →
        (∃ equal n, hitsEqual py primary evidence = .ok equal ∧ evidence.lenAgain = .ok n) ∨
          hitsEqual py primary evidence = .error .attributeError ∨
          hitsEqual py primary evidence = .error .typeError) ∧
      reply ≠ .raised (.aphelionUnreachable none) := by
  cases reply with
  | late =>
    rw [settle_of_classify py _ _ _ rfl]
    simp [arbitrate_none]
  | never =>
    rw [settle_of_classify py _ _ _ rfl]
    simp [arbitrate_none]
  | returned evidence =>
    cases hequal : hitsEqual py primary evidence with
    | ok equal =>
      have hc : classify py hooks primary (.returned evidence) =
          .ok ⟨if equal then .match_ else .diverge, some evidence, none, []⟩ := by
        simp only [classify, hequal]
      rw [settle_of_classify py _ _ _ hc, arbitrate_some]
      simp [hequal]
    | error e =>
      have hblamed (hc : classify py hooks primary (.returned evidence) = .ok ⟨.primaryOnly, none,
          none, safeLogWarning hooks "secondary_hits_equal_failed"⟩) :=
        settle_of_classify py request correlationId trafficSource hc
      cases e with
      | attributeError =>
        rw [hblamed (by simp only [classify, hequal])]
        simp [arbitrate_none, hequal]
      | typeError =>
        rw [hblamed (by simp only [classify, hequal])]
        simp [arbitrate_none, hequal]
      | aphelionUnreachable reason =>
        refine iff_of_false (settle_of_error (e := .aphelionUnreachable reason) ?_) ?_
        · simp only [classify, hequal]
        · simp [hequal]
      | other name =>
        refine iff_of_false (settle_of_error (e := .other name) ?_) ?_
        · simp only [classify, hequal]
        · simp [hequal]
  | raised e =>
    cases e with
    | aphelionUnreachable reason =>
      cases reason with
      | none => exact iff_of_false (settle_of_error rfl) (by simp)
      | some reason =>
        rw [settle_of_classify py _ _ _ rfl]
        simp [arbitrate_none]
    | attributeError =>
      rw [settle_of_classify py _ _ _ rfl]
      simp [arbitrate_none]
    | typeError =>
      rw [settle_of_classify py _ _ _ rfl]
      simp [arbitrate_none]
    | other name =>
      rw [settle_of_classify py _ _ _ rfl]
      simp [arbitrate_none]

/-! ## Fail-closed queries -/

variable {router : DualReadRouter} {call : QueryCall}

variable (py primary reply) in
theorem query_dispatched {counted : List Effect} (hdispatched : call.dispatched = true)
    (hcounted : countAttempt hooks call.enabled call.trafficSource = .ok counted)
    (hthread : router.stuck < router.maxWorkers) :
    ∃ stuck, router.query py hooks call (.ok primary) reply =
      ⟨some (settle py hooks call.request (call.correlationId.getD call.drawn)
          call.trafficSource primary reply).1,
        wiringGuard hooks call.dualReadOverride ++ counted ++ .secondaryInvoked ::
          (settle py hooks call.request (call.correlationId.getD call.drawn) call.trafficSource
            primary reply).2, stuck⟩ := by
  simp only [DualReadRouter.query, hcounted, hdispatched, if_true, Nat.not_le.2 hthread, if_false]
  exact ⟨_, rfl⟩

variable (py primary reply router) in
theorem query_skipped {counted : List Effect} (hdispatched : call.dispatched = false)
    (hcounted : countAttempt hooks call.enabled call.trafficSource = .ok counted) :
    router.query py hooks call (.ok primary) reply =
      ⟨some (.ok (skip hooks call.request (call.correlationId.getD call.drawn)
          call.trafficSource primary).1),
        wiringGuard hooks call.dualReadOverride ++ counted ++
          (skip hooks call.request (call.correlationId.getD call.drawn) call.trafficSource
            primary).2, router.stuck⟩ := by
  simp [DualReadRouter.query, hcounted, hdispatched]

/-- `query` fails closed exactly when the parts of it that are not guarded do not raise and a
thread of the pool is free. -/
theorem query_failClosed (py : Python V) (router : DualReadRouter) (hooks : Hooks)
    (call : QueryCall) (primary : RetrievalEvidence V) (reply : Reply V) :
    (∃ result, FailClosed py call primary reply
        (router.query py hooks call (.ok primary) reply) result) ↔
      Unguarded py router hooks call primary reply := by
  have hdispatched : call.dispatched = true ↔
      ¬ (call.enabled = false ∨ call.request.bugTrace = true) := by
    simp [QueryCall.dispatched]
  constructor
  · rintro ⟨result, hclosed⟩
    have hcount : ∃ counted, countAttempt hooks call.enabled call.trafficSource = .ok counted := by
      cases hcounted : countAttempt hooks call.enabled call.trafficSource with
      | ok counted => exact ⟨counted, rfl⟩
      | error e => simpa [DualReadRouter.query, hcounted] using hclosed.returns
    obtain ⟨counted, hcounted⟩ := hcount
    have hthread (h : call.dispatched = true) : router.stuck < router.maxWorkers := by
      by_contra hfull
      simpa [DualReadRouter.query, hcounted, h, Nat.not_lt.1 hfull] using hclosed.returns
    have hsettled (h : call.dispatched = true) :
        ∃ result effects, settle py hooks call.request (call.correlationId.getD call.drawn)
          call.trafficSource primary reply = (.ok result, effects) := by
      obtain ⟨stuck, hquery⟩ := query_dispatched py primary reply h hcounted (hthread h)
      have hreturns := hclosed.returns
      rw [hquery] at hreturns
      exact ⟨result, _, Prod.ext (Option.some.inj hreturns) rfl⟩
    exact ⟨countAttempt_ok.1 ⟨counted, hcounted⟩, hthread,
      fun h => (settle_ok.1 (hsettled h)).2.1, fun h => (settle_ok.1 (hsettled h)).2.2,
      fun h => (settle_ok.1 (hsettled h)).1⟩
  · intro hunguarded
    obtain ⟨counted, hcounted⟩ : ∃ counted, countAttempt hooks call.enabled call.trafficSource =
        .ok counted := countAttempt_ok.2 hunguarded.attempt
    obtain ⟨hquiet, hinvoked⟩ := countAttempt_quiet hcounted
    obtain ⟨hguardQuiet, hguardInvoked⟩ := wiringGuard_quiet hooks call.dualReadOverride
    cases h : call.dispatched with
    | true =>
      obtain ⟨result, effects, hsettled⟩ := settle_ok.2 ⟨hunguarded.observe h,
        hunguarded.evidence h, hunguarded.reason h⟩
      obtain ⟨stuck, hquery⟩ :=
        query_dispatched py primary reply h hcounted (hunguarded.thread h)
      rw [hsettled] at hquery
      obtain ⟨hprimary, hfeeds, c, houtcome, htells⟩ := settle_says hsettled
      have hattempted := houtcome ▸ htells.attempted
      refine ⟨result, ⟨by rw [hquery], hprimary, iff_of_false hattempted (hdispatched.1 h),
        fun hskipped => absurd hskipped hattempted, ?_, ?_, ?_, ?_, ?_⟩⟩
      · simpa [hattempted, houtcome] using htells.unreachable
      · simpa [hattempted, houtcome] using htells.matched
      · simpa [hattempted, houtcome] using htells.diverged
      · simpa [hattempted, houtcome] using htells.primary_only
      · rw [hquery, if_neg hattempted]
        simp [hguardQuiet, hquiet, hfeeds, Effect.feedsBreaker]
    | false =>
      have hquery := query_skipped py primary reply router h hcounted
      have hskip : call.enabled = false ∨ call.request.bugTrace = true := by
        by_contra hnot
        exact absurd (hdispatched.2 hnot) (by simp [h])
      refine ⟨_, ⟨by rw [hquery], rfl, iff_of_true rfl hskip, fun _ => ?_, ?_, ?_, ?_, ?_, ?_⟩⟩
      · rw [hquery]
        simp [skip, hguardInvoked, hinvoked, invoked_recordOutcome, logDecision, mem_attempt]
      all_goals try simp [skip]
      · rw [hquery]
        simp [skip, hguardQuiet, hquiet, feeds_recordOutcome]

/-- A counter of requests that raises keeps the caller from the evidence of the primary. -/
theorem query_raises : ¬ ∀ (py : Python (Option Int)) (hooks : Hooks) (call : QueryCall)
    (primary : RetrievalEvidence (Option Int)) (reply : Reply (Option Int)),
    ∃ result, FailClosed py call primary reply
      (DualReadRouter.query py ⟨2, 0⟩ hooks call (.ok primary) reply) result := by
  intro hclaim
  obtain ⟨result, hclosed⟩ := hclaim
    ⟨none, Option.isNone, fun a b => .ok (a != b), fun a b => .ok (a == b)⟩
    ⟨.ok false, .ok true, .error (.other "ValueError"), .ok (), none, .ok (), .ok (), none, .ok (),
      .ok ()⟩
    ⟨⟨.recentContext, "u", "", 10, none, none, 1, none⟩, some "c", some true, none, true, ""⟩
    ⟨[[("id", some 1)]], [], [], [], "none"⟩
    (.returned ⟨.ok 1, [⟨fun key => .ok (if key = "id" then some 1 else none)⟩], none, .ok 1⟩)
  exact nomatch hclosed.returns

end ParallaxKernel.Router
