import ParallaxKernel.Store.Replay

/-!
# What an event does to the rebuilt store

Replaying an event is decoding its effect and applying it. The events that the writers record
decode to the rows and the moves they were recorded for.
-/

namespace ParallaxKernel.Store

open Lib

/-- What replaying an event does to the store. -/
inductive Effect where
  | memory (m : Memory)
  | claim (c : Claim)
  | claimState (id state : String) (updatedAt : Option String)
  | memoryState (id state : String) (updatedAt : Option String)
  | nothing

def Effect.apply : Effect → Db → Except Exc Db
  | .memory m, db => db.apply (Db.insertMemory m)
  | .claim c, db => db.apply (Db.insertClaim c)
  | .claimState id state updatedAt, db =>
    db.apply <| Db.updateClaims (·.claimId == id) fun c =>
      { c with state := state, updatedAt := updatedAt.getD c.updatedAt }
  | .memoryState id state updatedAt, db =>
    db.apply <| Db.updateMemories (·.memoryId == id) fun m =>
      { m with state := state, updatedAt := updatedAt.getD m.updatedAt }
  | .nothing, db => .ok db

def createdEffect {α : Type} (payload : Json) (fields : List String)
    (ofPayload : Json → Except Exc (Option α)) (effect : α → Effect) : Except Exc Effect := do
  if ← hasFields payload fields then
    match ← ofPayload payload with
    | none => .ok .nothing
    | some row => .ok (effect row)
  else
    .ok .nothing

def changedEffect (targetId : Option String) (payload : Json)
    (effect : String → String → Option String → Effect) : Except Exc Effect := do
  match ← stateChange targetId payload with
  | none => .ok .nothing
  | some (id, state, updatedAt) => .ok (effect id state updatedAt)

def Event.effect (e : Event) : Except Exc Effect :=
  if e.eventType = "memory.created" then
    createdEffect e.payload memoryFields Memory.ofPayload .memory
  else if e.eventType = "claim.created" then
    createdEffect e.payload claimFields Claim.ofPayload .claim
  else if e.eventType = "claim.state_changed" then
    changedEffect e.targetId e.payload .claimState
  else if e.eventType = "memory.state_changed" then
    changedEffect e.targetId e.payload .memoryState
  else .ok .nothing

theorem applyMemoryCreated_eq (db : Db) (payload : Json) :
    (applyMemoryCreated db payload).map (·.2) =
      createdEffect payload memoryFields Memory.ofPayload .memory >>= (·.apply db) := by
  unfold applyMemoryCreated createdEffect
  rcases hasFields payload memoryFields with e | (_ | _)
  · rfl
  · rfl
  · rcases Memory.ofPayload payload with e | (_ | m)
    · rfl
    · rfl
    · show Except.map _ (db.apply (Db.insertMemory m) >>= _) = db.apply (Db.insertMemory m)
      rcases db.apply (Db.insertMemory m) with e | db' <;> rfl

theorem applyClaimCreated_eq (db : Db) (payload : Json) :
    (applyClaimCreated db payload).map (·.2) =
      createdEffect payload claimFields Claim.ofPayload .claim >>= (·.apply db) := by
  unfold applyClaimCreated createdEffect
  rcases hasFields payload claimFields with e | (_ | _)
  · rfl
  · rfl
  · rcases Claim.ofPayload payload with e | (_ | c)
    · rfl
    · rfl
    · show Except.map _ (db.apply (Db.insertClaim c) >>= _) = db.apply (Db.insertClaim c)
      rcases db.apply (Db.insertClaim c) with e | db' <;> rfl

theorem applyClaimStateChanged_eq (db : Db) (targetId : Option String) (payload : Json) :
    (applyClaimStateChanged db targetId payload).map (·.2) =
      changedEffect targetId payload .claimState >>= (·.apply db) := by
  unfold applyClaimStateChanged changedEffect
  rcases stateChange targetId payload with e | (_ | ⟨id, state, updatedAt⟩) <;> rfl

theorem applyMemoryStateChanged_eq (db : Db) (targetId : Option String) (payload : Json) :
    (applyMemoryStateChanged db targetId payload).map (·.2) =
      changedEffect targetId payload .memoryState >>= (·.apply db) := by
  unfold applyMemoryStateChanged changedEffect
  rcases stateChange targetId payload with e | (_ | ⟨id, state, updatedAt⟩) <;> rfl

/-- Replaying an event is decoding it and applying its effect. -/
theorem replayEvent_eq (e : Event) (s : ReplaySummary × Db) :
    (replayEvent e s).map (·.2) = e.effect >>= (·.apply s.2) := by
  unfold replayEvent Event.effect
  split_ifs
  · rw [← applyMemoryCreated_eq]
    rcases applyMemoryCreated s.2 e.payload with x | r <;> rfl
  · rw [← applyClaimCreated_eq]
    rcases applyClaimCreated s.2 e.payload with x | r <;> rfl
  · rw [← applyClaimStateChanged_eq]
    rcases applyClaimStateChanged s.2 e.targetId e.payload with x | r <;> rfl
  · rw [← applyMemoryStateChanged_eq]
    rcases applyMemoryStateChanged s.2 e.targetId e.payload with x | r <;> rfl
  · rfl
  · rfl

/-- The effects of a log, applied one after the other. -/
def replayEffects (log : List Event) (target : Db) : Except Exc Db :=
  log.foldlM (fun db e => e.effect >>= (·.apply db)) target

theorem foldlM_replayEvent (log : List Event) (s : ReplaySummary × Db) :
    (log.foldlM (fun s e => replayEvent e s) s).map (·.2) = replayEffects log s.2 := by
  induction log generalizing s with
  | nil => rfl
  | cons e log ih =>
    have he := replayEvent_eq e s
    simp only [replayEffects, List.foldlM_cons] at ih ⊢
    rw [← he]
    rcases replayEvent e s with x | r
    · rfl
    · exact ih r

theorem replayLog_eq (log : List Event) (target : Db) :
    (replayLog log target).map (·.2) = replayEffects log target :=
  foldlM_replayEvent log _

/-! ## The effects of recorded events -/

section

variable {e : Event}

theorem effect_of_memoryCreated (h : e.eventType = "memory.created") :
    e.effect = createdEffect e.payload memoryFields Memory.ofPayload .memory := by
  simp [Event.effect, h]

theorem effect_of_claimCreated (h : e.eventType = "claim.created") :
    e.effect = createdEffect e.payload claimFields Claim.ofPayload .claim := by
  simp [Event.effect, h]

theorem effect_of_claimStateChanged (h : e.eventType = "claim.state_changed") :
    e.effect = changedEffect e.targetId e.payload .claimState := by
  simp [Event.effect, h]

theorem effect_of_memoryReaffirmed (h : e.eventType = "memory.reaffirmed") :
    e.effect = .ok .nothing := by
  simp [Event.effect, h]

end

theorem dumps_obj_ne_empty (ms : List (String × Json)) : Json.dumps (.obj ms) ≠ "" := by
  intro h
  have hlist : (Json.chars (.obj ms)) = [] := by
    simpa [Json.dumps] using congrArg String.toList h
  cases ms <;> simp [Json.chars] at hlist

/-- A recorded event carries its payload, the keys sorted. -/
theorem payload_event (a : EventArgs) (stamp : Stamp) :
    (a.event stamp).payload = .obj (Json.sortMembers (a.payload.getD [])) := by
  have hne := dumps_obj_ne_empty (Json.sortMembers (a.payload.getD []))
  simp [Event.payload, EventArgs.event, Json.dumpsSorted, Json.sortKeys, hne]

@[simp] theorem sortKeys_jsonOption (x : Option String) :
    Json.sortKeys (jsonOption x) = jsonOption x := by
  cases x <;> rfl

@[simp] theorem sortKeys_jsonFloat (x : Option PyFloat) :
    Json.sortKeys (jsonFloat x) = jsonFloat x := by
  cases x <;> rfl

@[simp] theorem bindText_jsonOption (x : Option String) : bindText (jsonOption x) = .ok x := by
  cases x <;> rfl

@[simp] theorem bindRealJson_jsonFloat (x : Option PyFloat) :
    bindRealJson (jsonFloat x) = .ok (bindReal x) := by
  cases x <;> rfl

theorem sortMembers_memory (m : Memory) : Json.sortMembers m.payload =
    [("content_hash", .str m.contentHash), ("created_at", .str m.createdAt),
      ("memory_id", .str m.memoryId), ("source_id", jsonOption m.sourceId),
      ("state", .str m.state), ("summary", jsonOption m.summary), ("title", jsonOption m.title),
      ("updated_at", .str m.updatedAt), ("user_id", .str m.userId),
      ("vault_path", .str m.vaultPath)] := by
  simp [Memory.payload, Json.sortMembers, Json.insertMember, Json.sortKeys,
      -String.lt_iff_ltb]

theorem sortMembers_claim (c : Claim) : Json.sortMembers c.payload =
    [("claim_id", .str c.claimId), ("confidence", jsonFloat c.confidence),
      ("content_hash", .str c.contentHash), ("created_at", .str c.createdAt),
      ("object", .str c.object), ("predicate", .str c.predicate),
      ("source_id", .str c.sourceId), ("state", .str c.state), ("subject", .str c.subject),
      ("updated_at", .str c.updatedAt), ("user_id", .str c.userId)] := by
  simp [Claim.payload, Json.sortMembers, Json.insertMember, Json.sortKeys,
      -String.lt_iff_ltb]

theorem memory_ofPayload (m : Memory) :
    Memory.ofPayload (.obj (Json.sortMembers m.payload)) = .ok (some m) := by
  rw [sortMembers_memory]
  obtain ⟨memoryId, userId, sourceId, vaultPath, title, summary, contentHash, state, createdAt,
    updatedAt⟩ := m
  cases sourceId <;> cases title <;> cases summary <;> rfl

theorem claim_ofPayload (c : Claim) :
    Claim.ofPayload (.obj (Json.sortMembers c.payload)) = .ok (some c.stored) := by
  rw [sortMembers_claim]
  obtain ⟨claimId, userId, subject, predicate, object, sourceId, contentHash, confidence, state,
    createdAt, updatedAt⟩ := c
  cases confidence <;> rfl

theorem effect_memoryCreated (m : Memory) (actor : String) (stamp : Stamp) :
    ({ memoryCreated m with actor := actor }.event stamp).effect = .ok (.memory m) := by
  have hpayload : ({ memoryCreated m with actor := actor }.event stamp).payload =
      .obj (Json.sortMembers m.payload) := payload_event _ stamp
  have hfields : hasFields (.obj (Json.sortMembers m.payload)) memoryFields = .ok true := by
    rw [sortMembers_memory]
    rfl
  rw [effect_of_memoryCreated rfl, hpayload, createdEffect, hfields, memory_ofPayload]
  rfl

theorem effect_claimCreated (c : Claim) (actor : String) (stamp : Stamp) :
    ({ claimCreated c with actor := actor }.event stamp).effect = .ok (.claim c.stored) := by
  have hpayload : ({ claimCreated c with actor := actor }.event stamp).payload =
      .obj (Json.sortMembers c.payload) := payload_event _ stamp
  have hfields : hasFields (.obj (Json.sortMembers c.payload)) claimFields = .ok true := by
    rw [sortMembers_claim]
    rfl
  rw [effect_of_claimCreated rfl, hpayload, createdEffect, hfields, claim_ofPayload]
  rfl

/-- The payload of a state change. -/
theorem stateChange_claimStateChanged (claimId fromState toState updatedAt : String)
    (hto : toState ≠ "") :
    stateChange (some claimId) (.obj [("from", .str fromState), ("to", .str toState),
      ("updated_at", .str updatedAt)]) =
      .ok (if claimId = "" then none else some (claimId, toState, some updatedAt)) := by
  have hto' : payloadGet (.obj [("from", .str fromState), ("to", .str toState),
      ("updated_at", .str updatedAt)]) "to" = .ok (.str toState) := rfl
  have hat : payloadGet (.obj [("from", .str fromState), ("to", .str toState),
      ("updated_at", .str updatedAt)]) "updated_at" = .ok (.str updatedAt) := rfl
  unfold stateChange
  rw [hto']
  by_cases hid : claimId = ""
  · simp [hid, bind, Except.bind]
  · simp [hat, hid, hto, Json.truthy, bindText, bind, Except.bind]

theorem effect_claimStateChanged (userId claimId fromState toState updatedAt actor : String)
    (stamp : Stamp) (hto : toState ≠ "") :
    ((claimStateChanged userId claimId fromState toState (some updatedAt) actor).event
      stamp).effect =
      .ok (if claimId = "" then .nothing else .claimState claimId toState (some updatedAt)) := by
  have hpayload := payload_event
    (claimStateChanged userId claimId fromState toState (some updatedAt) actor) stamp
  have hsort : Json.sortMembers ((claimStateChanged userId claimId fromState toState
      (some updatedAt) actor).payload.getD []) =
      [("from", .str fromState), ("to", .str toState), ("updated_at", .str updatedAt)] := by
    simp [claimStateChanged, Json.sortMembers, Json.insertMember, Json.sortKeys,
      -String.lt_iff_ltb]
  have htarget : ((claimStateChanged userId claimId fromState toState (some updatedAt)
      actor).event stamp).targetId = some claimId := rfl
  rw [effect_of_claimStateChanged rfl, hpayload, hsort, changedEffect, htarget,
    stateChange_claimStateChanged _ _ _ _ hto]
  split_ifs <;> rfl

theorem effect_memoryReaffirmed (userId memoryId actor : String) (stamp : Stamp) :
    ((memoryReaffirmed userId memoryId actor).event stamp).effect = .ok .nothing :=
  effect_of_memoryReaffirmed rfl

end ParallaxKernel.Store
