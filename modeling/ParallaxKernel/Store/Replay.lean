import ParallaxKernel.Store.Ingest
import Mathlib.Algebra.Group.Int.Defs
import Mathlib.Data.List.Sort

/-!
# Replaying the event log

`replay.py`: the log rebuilds `memories` and `claims` in an empty store, and
`backfill_creation_events` gives every row without a created event one.
-/

namespace ParallaxKernel.Store

open Lib

/-! ## Payloads -/

/-- The payload of an event; a text that is not JSON counts as an empty object. -/
def Event.payload (e : Event) : Json :=
  if e.payloadJson = "" then .obj [] else (Json.loads e.payloadJson).getD (.obj [])

def jsonTypeName : Json → String
  | .null => "NoneType"
  | .bool _ => "bool"
  | .int _ => "int"
  | .float _ => "float"
  | .str _ => "str"
  | .arr _ => "list"
  | .obj _ => "dict"

/-- `field in payload`. -/
def hasField (payload : Json) (field : String) : Except Exc Bool :=
  match payload with
  | .obj ms => .ok (ms.any (·.1 == field))
  | .arr xs => .ok (xs.any fun
      | .str s => s == field
      | _ => false)
  | .str s => .ok (s.toList.tails.any (field.toList.isPrefixOf ·))
  | v => .error (.typeError ("argument of type '" ++ jsonTypeName v ++ "' is not iterable"))

/-- Whether the payload has all the fields. -/
def hasFields (payload : Json) : List String → Except Exc Bool
  | [] => .ok true
  | field :: fields => do
    let here ← hasField payload field
    let rest ← hasFields payload fields
    .ok (here && rest)

/-- `payload[field]`, where the field is known to be there. -/
def getField (payload : Json) (field : String) : Except Exc Json :=
  match payload with
  | .obj ms => .ok ((Json.member? field ms).getD .null)
  | .arr _ => .error (.typeError "list indices must be integers or slices, not str")
  | _ => .error (.typeError "string indices must be integers, not 'str'")

/-- The value that a `TEXT` column takes for a bound parameter. Floats are refused. -/
def bindText : Json → Except Exc (Option String)
  | .null => .ok none
  | .str s => .ok (some s)
  | .bool b => .ok (some (if b then "1" else "0"))
  | .int n =>
    if -2 ^ 63 ≤ n ∧ n < 2 ^ 63 then .ok (some (String.ofList (Json.intChars n)))
    else .error (.overflowError "Python int too large to convert to SQLite INTEGER")
  | v => .error (.programmingError ("type '" ++ jsonTypeName v ++ "' is not supported"))

/-- The value that a `REAL` column takes for a bound parameter. Texts and large integers are
refused. -/
def bindRealJson : Json → Except Exc (Option PyFloat)
  | .null => .ok none
  | .float x => .ok (bindReal (some x))
  | .bool b => .ok (some (Json.ofInt (if b then 1 else 0)))
  | .int n =>
    if n.natAbs < 2 ^ 53 then .ok (some (Json.ofInt n))
    else .error (.overflowError "Python int too large to convert to SQLite INTEGER")
  | v => .error (.programmingError ("type '" ++ jsonTypeName v ++ "' is not supported"))

def textField (payload : Json) (field : String) : Except Exc (Option String) :=
  getField payload field >>= bindText

/-- `_MEMORY_FIELDS`. -/
def memoryFields : List String :=
  ["memory_id", "user_id", "source_id", "vault_path", "title", "summary", "content_hash", "state",
    "created_at", "updated_at"]

/-- `_CLAIM_FIELDS`. -/
def claimFields : List String :=
  ["claim_id", "user_id", "subject", "predicate", "object", "source_id", "content_hash",
    "confidence", "state", "created_at", "updated_at"]

/-- The row of a `memory.created` payload; `none` if a column that must not be `NULL` is. -/
def Memory.ofPayload (payload : Json) : Except Exc (Option Memory) := do
  let memoryId ← textField payload "memory_id"
  let userId ← textField payload "user_id"
  let sourceId ← textField payload "source_id"
  let vaultPath ← textField payload "vault_path"
  let title ← textField payload "title"
  let summary ← textField payload "summary"
  let contentHash ← textField payload "content_hash"
  let state ← textField payload "state"
  let createdAt ← textField payload "created_at"
  let updatedAt ← textField payload "updated_at"
  .ok do
    some
      { memoryId := ← memoryId, userId := ← userId, sourceId := sourceId,
        vaultPath := ← vaultPath, title := title, summary := summary,
        contentHash := ← contentHash, state := ← state, createdAt := ← createdAt,
        updatedAt := ← updatedAt }

/-- The row of a `claim.created` payload; `none` if a column that must not be `NULL` is. -/
def Claim.ofPayload (payload : Json) : Except Exc (Option Claim) := do
  let claimId ← textField payload "claim_id"
  let userId ← textField payload "user_id"
  let subject ← textField payload "subject"
  let predicate ← textField payload "predicate"
  let object ← textField payload "object"
  let sourceId ← textField payload "source_id"
  let contentHash ← textField payload "content_hash"
  let confidence ← getField payload "confidence" >>= bindRealJson
  let state ← textField payload "state"
  let createdAt ← textField payload "created_at"
  let updatedAt ← textField payload "updated_at"
  .ok do
    some
      { claimId := ← claimId, userId := ← userId, subject := ← subject,
        predicate := ← predicate, object := ← object, sourceId := ← sourceId,
        contentHash := ← contentHash, confidence := confidence, state := ← state,
        createdAt := ← createdAt, updatedAt := ← updatedAt }

/-! ## One event -/

/-- A write statement in a transaction of its own. -/
def Db.apply (db : Db) (f : Db → Except Exc (Db × Nat)) : Except Exc Db :=
  (f db).map (·.1)

/-- `_apply_memory_created`. -/
def applyMemoryCreated (db : Db) (payload : Json) : Except Exc (Bool × Db) := do
  if ← hasFields payload memoryFields then
    match ← Memory.ofPayload payload with
    | none => .ok (true, db)
    | some m => do
      let db ← db.apply (Db.insertMemory m)
      .ok (true, db)
  else
    .ok (false, db)

/-- `_apply_claim_created`. -/
def applyClaimCreated (db : Db) (payload : Json) : Except Exc (Bool × Db) := do
  if ← hasFields payload claimFields then
    match ← Claim.ofPayload payload with
    | none => .ok (true, db)
    | some c => do
      let db ← db.apply (Db.insertClaim c)
      .ok (true, db)
  else
    .ok (false, db)

/-- `payload.get(field)`, `None` being `null`. -/
def payloadGet (payload : Json) (field : String) : Except Exc Json :=
  match payload with
  | .obj ms => .ok ((Json.member? field ms).getD .null)
  | v => .error (.attributeError
      ("'" ++ jsonTypeName v ++ "' object has no attribute 'get'"))

/-- The columns that a `state_changed` payload sets: the state, and the time of the change if the
payload has one. `none` where the event is skipped. -/
def stateChange (targetId : Option String) (payload : Json) :
    Except Exc (Option (String × String × Option String)) := do
  let toState ← payloadGet payload "to"
  match targetId with
  | none => .ok none
  | some targetId =>
    if !toState.truthy || targetId = "" then
      .ok none
    else
      let updatedAt ← payloadGet payload "updated_at"
      let state ← bindText toState
      let updatedAt ← bindText updatedAt
      .ok (state.map (targetId, ·, updatedAt))

/-- `_apply_claim_state_changed`. -/
def applyClaimStateChanged (db : Db) (targetId : Option String) (payload : Json) :
    Except Exc (Bool × Db) := do
  match ← stateChange targetId payload with
  | none => .ok (false, db)
  | some (id, state, updatedAt) =>
    let db ← db.apply <| Db.updateClaims (·.claimId == id) fun c =>
      { c with state := state, updatedAt := updatedAt.getD c.updatedAt }
    .ok (true, db)

/-- `_apply_memory_state_changed`. -/
def applyMemoryStateChanged (db : Db) (targetId : Option String) (payload : Json) :
    Except Exc (Bool × Db) := do
  match ← stateChange targetId payload with
  | none => .ok (false, db)
  | some (id, state, updatedAt) =>
    let db ← db.apply <| Db.updateMemories (·.memoryId == id) fun m =>
      { m with state := state, updatedAt := updatedAt.getD m.updatedAt }
    .ok (true, db)

/-! ## The whole log -/

structure ReplaySummary where
  memoriesRebuilt : Nat
  claimsRebuilt : Nat
  claimStateUpdates : Nat
  memoryStateUpdates : Nat
  eventsConsumed : Nat
  eventsSkipped : Nat
  skippedEventTypes : List String
  deriving DecidableEq

def ReplaySummary.zero : ReplaySummary := ⟨0, 0, 0, 0, 0, 0, []⟩

def ReplaySummary.skip (s : ReplaySummary) (eventType : String) : ReplaySummary :=
  { s with
    eventsSkipped := s.eventsSkipped + 1
    skippedEventTypes :=
      if eventType ∈ s.skippedEventTypes then s.skippedEventTypes
      else s.skippedEventTypes.orderedInsert (· ≤ ·) eventType }

/-- One round of the loop of `replay_events`. -/
def replayEvent (e : Event) (s : ReplaySummary × Db) : Except Exc (ReplaySummary × Db) := do
  let summary := { s.1 with eventsConsumed := s.1.eventsConsumed + 1 }
  let applied (r : Bool × Db) (counted : ReplaySummary) : ReplaySummary × Db :=
    (if r.1 then counted else summary.skip e.eventType, r.2)
  if e.eventType = "memory.created" then
    let r ← applyMemoryCreated s.2 e.payload
    .ok (applied r { summary with memoriesRebuilt := summary.memoriesRebuilt + 1 })
  else if e.eventType = "claim.created" then
    let r ← applyClaimCreated s.2 e.payload
    .ok (applied r { summary with claimsRebuilt := summary.claimsRebuilt + 1 })
  else if e.eventType = "claim.state_changed" then
    let r ← applyClaimStateChanged s.2 e.targetId e.payload
    .ok (applied r { summary with claimStateUpdates := summary.claimStateUpdates + 1 })
  else if e.eventType = "memory.state_changed" then
    let r ← applyMemoryStateChanged s.2 e.targetId e.payload
    .ok (applied r { summary with memoryStateUpdates := summary.memoryStateUpdates + 1 })
  else if e.eventType = "memory.reaffirmed" ∨ e.eventType = "claim.reaffirmed" then
    .ok (summary, s.2)
  else
    .ok (summary.skip e.eventType, s.2)

/-- `ORDER BY created_at ASC, event_id ASC`. -/
def Event.before (e f : Event) : Prop :=
  e.createdAt < f.createdAt ∨ (e.createdAt = f.createdAt ∧ e.eventId ≤ f.eventId)

instance : DecidableRel Event.before := fun _ _ =>
  inferInstanceAs (Decidable (_ ∨ (_ ∧ _)))

def Db.eventsInOrder (db : Db) : List Event := db.events.insertionSort Event.before

def replayLog (log : List Event) (target : Db) : Except Exc (ReplaySummary × Db) :=
  log.foldlM (fun s e => replayEvent e s) (.zero, target)

/-- `replay_events(conn, into_conn)`. -/
def replayEvents (db target : Db) : Except Exc (ReplaySummary × Db) :=
  replayLog db.eventsInOrder target

/-! ## Backfill -/

structure BackfillSummary where
  memoryCreationsAdded : Nat
  claimCreationsAdded : Nat
  deriving DecidableEq

def Db.hasEvent (db : Db) (eventType targetKind targetId : String) : Bool :=
  db.events.any fun e =>
    e.eventType == eventType && e.targetKind == some targetKind && e.targetId == some targetId

/-- `_memories_missing_created`. -/
def Db.memoriesMissingCreated (db : Db) : List Memory :=
  db.memories.filter fun m => !db.hasEvent "memory.created" "memory" m.memoryId

/-- `_claims_missing_created`. -/
def Db.claimsMissingCreated (db : Db) : List Claim :=
  db.claims.filter fun c => !db.hasEvent "claim.created" "claim" c.claimId

def backfillMemoryEvent (m : Memory) (ulid : String) : Event :=
  { (memoryCreated m).event ⟨ulid, m.createdAt⟩ with actor := "system:backfill" }

def backfillClaimEvent (c : Claim) (ulid : String) : Event :=
  { (claimCreated c).event ⟨ulid, c.createdAt⟩ with actor := "system:backfill" }

/-- Inserts the events one by one. -/
def insertEvents (es : List Event) (db : Db) : Except Exc Db :=
  es.foldlM (fun db e => db.apply (Db.insertEvent e)) db

/-- `backfill_creation_events(conn)`, all in one transaction; `ulid n` is the `n`-th generated
id. -/
def backfillCreationEvents (ulid : Nat → String) (db : Db) : Except Exc (BackfillSummary × Db) := do
  let memories := db.memoriesMissingCreated
  let db ← insertEvents (memories.mapIdx fun n m => backfillMemoryEvent m (ulid n)) db
  let claims := db.claimsMissingCreated
  let db ← insertEvents
    (claims.mapIdx fun n c => backfillClaimEvent c (ulid (memories.length + n))) db
  .ok (⟨memories.length, claims.length⟩, db)

/-- A store with the sources of `db` and nothing else. -/
def Db.sourcesOnly (db : Db) : Db := { Db.empty with sources := db.sources }

end ParallaxKernel.Store
