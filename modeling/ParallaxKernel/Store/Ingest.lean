import ParallaxKernel.Store.Events
import ParallaxKernel.Store.Hashing

/-!
# Ingesting memories and claims

`ingest.py`. Each helper opens and commits a transaction of its own: the source, the row, and the
event that records it are three commits.
-/

namespace ParallaxKernel.Store

open Lib Prog

variable (D : Digest)

def syntheticDirectSourceId (userId : String) : String := "direct:" ++ userId

def directSource (userId now : String) : Source where
  sourceId := syntheticDirectSourceId userId
  uri := "parallax://direct/" ++ userId
  kind := "chat"
  contentHash := D.contentHash [some (syntheticDirectSourceId userId)]
  userId := userId
  ingestedAt := now
  state := "ingested"

def externalSource (userId sourceId now : String) : Source where
  sourceId := sourceId
  uri := "parallax://external/" ++ sourceId
  kind := "external"
  contentHash := D.contentHash [some sourceId]
  userId := userId
  ingestedAt := now
  state := "ingested"

/-- `_ensure_direct_source`. -/
def ensureDirectSource (userId now : String) : Sql String := do
  insertSource (directSource D userId now)
  pure (syntheticDirectSourceId userId)

def isDirect (sourceId : String) : Bool := "direct:".toList.isPrefixOf sourceId.toList

def reservedNamespace (userId sourceId : String) : Exc :=
  .valueError ("source_id " ++ pyRepr sourceId ++
    " targets reserved direct: namespace of another user; only " ++
    pyRepr (syntheticDirectSourceId userId) ++ " is permitted for user_id " ++ pyRepr userId)

/-- `_ensure_external_source`. -/
def ensureExternalSource (userId sourceId now : String) : Sql String :=
  if isDirect sourceId then
    if sourceId ≠ syntheticDirectSourceId userId then raise (reservedNamespace userId sourceId)
    else ensureDirectSource D userId now
  else do
    insertSource (externalSource D userId sourceId now)
    pure sourceId

/-- The source that an ingest registers for its row. -/
def sourceOf (userId : String) (sourceId : Option String) (now : String) : Except Exc Source :=
  match sourceId with
  | none => .ok (directSource D userId now)
  | some sourceId =>
    if isDirect sourceId then
      if sourceId ≠ syntheticDirectSourceId userId then .error (reservedNamespace userId sourceId)
      else .ok (directSource D userId now)
    else .ok (externalSource D userId sourceId now)

def ensureSource (userId : String) (sourceId : Option String) (now : String) : Sql String :=
  match sourceId with
  | none => ensureDirectSource D userId now
  | some sourceId => ensureExternalSource D userId sourceId now

theorem exec_ensureSource (userId : String) (sourceId : Option String) (now : String)
    (c : Conn Db) : (ensureSource D userId sourceId now).exec c =
      match sourceOf D userId sourceId now with
      | .error e => (.error e, c)
      | .ok s => (.ok s.sourceId, ⟨c.view.withSource s, none⟩) := by
  have hinsert (s : Source) : (do insertSource s; pure s.sourceId : Sql String).exec c =
      (.ok s.sourceId, ⟨c.view.withSource s, none⟩) := by
    obtain ⟨n, hn⟩ := Db.insertSource_eq s c.view
    simp only [exec_bind, exec_insertSource, hn, Conn.wrote_ok, exec_pure]
  unfold ensureSource sourceOf
  cases sourceId with
  | none => exact hinsert _
  | some sourceId =>
    simp only [ensureExternalSource]
    split_ifs
    · rfl
    · exact hinsert _
    · exact hinsert _

/-- `row[0]`. -/
def firstRow (rows : List String) : Sql String :=
  match rows with
  | [] => raise (.indexError "list index out of range")
  | id :: _ => pure id

/-! ## Memories -/

structure MemoryArgs where
  userId : String
  title : Option String
  summary : Option String
  vaultPath : String
  sourceId : Option String

/-- The ids and clock readings of one ingest: of its source, of its row and of its event. -/
structure Draws where
  sourceNow : String
  row : Stamp
  event : Stamp

def MemoryArgs.contentHash (a : MemoryArgs) : String :=
  D.contentHash [a.title, a.summary, some a.vaultPath]

def MemoryArgs.candidate (a : MemoryArgs) (sourceId : String) (row : Stamp) : Memory where
  memoryId := row.ulid
  userId := a.userId
  sourceId := some sourceId
  vaultPath := a.vaultPath
  title := a.title
  summary := a.summary
  contentHash := a.contentHash D
  state := "active"
  createdAt := row.now
  updatedAt := row.now

@[simp] theorem MemoryArgs.candidate_memoryId (a : MemoryArgs) (sourceId : String)
    (row : Stamp) : (a.candidate D sourceId row).memoryId = row.ulid := rfl

def jsonOption : Option String → Json
  | none => .null
  | some s => .str s

/-- `dataclasses.asdict` of a memory. -/
def Memory.payload (m : Memory) : List (String × Json) :=
  [("memory_id", .str m.memoryId), ("user_id", .str m.userId),
    ("source_id", jsonOption m.sourceId), ("vault_path", .str m.vaultPath),
    ("title", jsonOption m.title), ("summary", jsonOption m.summary),
    ("content_hash", .str m.contentHash), ("state", .str m.state),
    ("created_at", .str m.createdAt), ("updated_at", .str m.updatedAt)]

def memoryCreated (m : Memory) : EventArgs where
  userId := m.userId
  actor := "system"
  eventType := "memory.created"
  targetKind := some "memory"
  targetId := some m.memoryId
  payload := some m.payload
  approvalTier := none
  sessionId := none

/-- `SELECT memory_id FROM memories WHERE content_hash = ? AND user_id = ?`. -/
def Db.memoryIdsOf (db : Db) (contentHash userId : String) : List String :=
  (db.memories.filter fun m => m.contentHash == contentHash && m.userId == userId).map (·.memoryId)

def ingestMemoryWithStatus (a : MemoryArgs) (d : Draws) : Sql (String × Bool) := do
  let sourceId ← ensureSource D a.userId a.sourceId d.sourceNow
  insertMemory (a.candidate D sourceId d.row)
  let rows ← query fun db => db.memoryIdsOf (a.contentHash D) a.userId
  let persistedId ← firstRow rows
  if persistedId ≠ d.row.ulid then
    let _ ← recordMemoryReaffirmed a.userId persistedId "system" d.event
    pure (persistedId, true)
  else
    let _ ← recordEvent (memoryCreated (a.candidate D sourceId d.row)) d.event
    pure (persistedId, false)

/-- The event that an ingest records about the row it has found under its hash. -/
def MemoryArgs.eventFor (a : MemoryArgs) (sourceId : String) (row : Stamp) (id : String) :
    EventArgs :=
  if id ≠ row.ulid then memoryReaffirmed a.userId id "system"
  else memoryCreated (a.candidate D sourceId row)

/-- An ingest alone on its connection: the three commits and what stops it between them. -/
theorem run_ingestMemoryWithStatus (a : MemoryArgs) (d : Draws) (db : Db) :
    run (ingestMemoryWithStatus D a d) db =
      match sourceOf D a.userId a.sourceId d.sourceNow with
      | .error e => (.error e, db)
      | .ok s =>
        match Db.insertMemory (a.candidate D s.sourceId d.row) (db.withSource s) with
        | .error e => (.error e, db.withSource s)
        | .ok (db₂, _) =>
          match db₂.memoryIdsOf (a.contentHash D) a.userId with
          | [] => (.error (.indexError "list index out of range"), db₂)
          | id :: _ =>
            match (a.eventFor D s.sourceId d.row id).refusal db₂ with
            | some e => (.error e, db₂)
            | none =>
              match Db.insertEvent ((a.eventFor D s.sourceId d.row id).event d.event) db₂ with
              | .error e => (.error e, db₂)
              | .ok (db₃, _) => (.ok (id, decide (id ≠ d.row.ulid)), db₃) := by
  unfold run ingestMemoryWithStatus
  rw [exec_bind, exec_ensureSource]
  cases hs : sourceOf D a.userId a.sourceId d.sourceNow with
  | error e => rfl
  | ok s =>
    simp only [Conn.view, Option.getD_none, exec_bind, exec_insertMemory]
    cases hm : Db.insertMemory (a.candidate D s.sourceId d.row) (db.withSource s) with
    | error e => rfl
    | ok r =>
      obtain ⟨db₂, n⟩ := r
      simp only [Conn.wrote_ok, exec_query, Conn.view, Option.getD_none]
      cases hids : db₂.memoryIdsOf (a.contentHash D) a.userId with
      | nil => rfl
      | cons id rest =>
        simp only [firstRow, exec_pure]
        by_cases hid : id = d.row.ulid
        · simp only [hid, ne_eq, not_true_eq_false, if_false, MemoryArgs.eventFor, exec_bind,
            exec_recordEvent, Conn.view, Option.getD_none]
          cases (memoryCreated (a.candidate D s.sourceId d.row)).refusal db₂ with
          | some e => rfl
          | none =>
            rcases Db.insertEvent ((memoryCreated (a.candidate D s.sourceId d.row)).event d.event)
              db₂ with e | ⟨v, n⟩ <;> simp
        · simp only [hid, ne_eq, not_false_eq_true, if_true, MemoryArgs.eventFor, exec_bind,
            recordMemoryReaffirmed, exec_recordEvent, Conn.view, Option.getD_none]
          cases (memoryReaffirmed a.userId id "system").refusal db₂ with
          | some e => rfl
          | none =>
            rcases Db.insertEvent ((memoryReaffirmed a.userId id "system").event d.event) db₂
              with e | ⟨v, n⟩ <;> simp

def ingestMemory (a : MemoryArgs) (d : Draws) : Sql String := do
  let r ← ingestMemoryWithStatus D a d
  pure r.1

/-! ## Claims -/

structure ClaimArgs where
  userId : String
  subject : String
  predicate : String
  object : String
  sourceId : Option String
  confidence : Option PyFloat
  state : String

def ClaimArgs.contentHash (a : ClaimArgs) (sourceId : String) : String :=
  D.contentHash [some a.subject, some a.predicate, some a.object, some sourceId, some a.userId]

def ClaimArgs.candidate (a : ClaimArgs) (sourceId : String) (row : Stamp) : Claim where
  claimId := row.ulid
  userId := a.userId
  subject := a.subject
  predicate := a.predicate
  object := a.object
  sourceId := sourceId
  contentHash := a.contentHash D sourceId
  confidence := a.confidence
  state := a.state
  createdAt := row.now
  updatedAt := row.now

@[simp] theorem ClaimArgs.candidate_claimId (a : ClaimArgs) (sourceId : String) (row : Stamp) :
    (a.candidate D sourceId row).claimId = row.ulid := rfl

def jsonFloat : Option PyFloat → Json
  | none => .null
  | some x => .float x

/-- `dataclasses.asdict` of a claim. -/
def Claim.payload (c : Claim) : List (String × Json) :=
  [("claim_id", .str c.claimId), ("user_id", .str c.userId), ("subject", .str c.subject),
    ("predicate", .str c.predicate), ("object", .str c.object), ("source_id", .str c.sourceId),
    ("content_hash", .str c.contentHash), ("confidence", jsonFloat c.confidence),
    ("state", .str c.state), ("created_at", .str c.createdAt), ("updated_at", .str c.updatedAt)]

def claimCreated (c : Claim) : EventArgs where
  userId := c.userId
  actor := "system"
  eventType := "claim.created"
  targetKind := some "claim"
  targetId := some c.claimId
  payload := some c.payload
  approvalTier := none
  sessionId := none

/-- `SELECT claim_id FROM claims WHERE content_hash = ? AND source_id = ? AND user_id = ?`. -/
def Db.claimIdsOf (db : Db) (contentHash sourceId userId : String) : List String :=
  (db.claims.filter fun c => c.contentHash == contentHash && c.sourceId == sourceId &&
    c.userId == userId).map (·.claimId)

theorem Db.mem_claimIdsOf {db : Db} {contentHash sourceId userId id : String} :
    id ∈ db.claimIdsOf contentHash sourceId userId ↔ ∃ c ∈ db.claims, c.contentHash = contentHash ∧
      c.sourceId = sourceId ∧ c.userId = userId ∧ c.claimId = id := by
  simp [claimIdsOf, and_assoc]

def invalidClaimState (state : String) : Exc :=
  .valueError ("invalid claim state " ++ pyRepr state ++ "; expected one of " ++
    pyReprList claimTransitions.states)

def ingestClaimWithStatus (a : ClaimArgs) (d : Draws) : Sql (String × Bool) :=
  if a.state ∉ claimTransitions.map (·.1) then
    raise (invalidClaimState a.state)
  else do
    let sourceId ← ensureSource D a.userId a.sourceId d.sourceNow
    insertClaim (a.candidate D sourceId d.row)
    let rows ← query fun db => db.claimIdsOf (a.contentHash D sourceId) sourceId a.userId
    let persistedId ← firstRow rows
    if persistedId ≠ d.row.ulid then
      pure (persistedId, true)
    else
      let _ ← recordEvent (claimCreated (a.candidate D sourceId d.row)) d.event
      pure (persistedId, false)

theorem run_ingestClaimWithStatus (a : ClaimArgs) (d : Draws) (db : Db) :
    run (ingestClaimWithStatus D a d) db =
      if a.state ∉ claimTransitions.map (·.1) then (.error (invalidClaimState a.state), db)
      else match sourceOf D a.userId a.sourceId d.sourceNow with
      | .error e => (.error e, db)
      | .ok s =>
        match Db.insertClaim (a.candidate D s.sourceId d.row) (db.withSource s) with
        | .error e => (.error e, db.withSource s)
        | .ok (db₂, _) =>
          match db₂.claimIdsOf (a.contentHash D s.sourceId) s.sourceId a.userId with
          | [] => (.error (.indexError "list index out of range"), db₂)
          | id :: _ =>
            if id ≠ d.row.ulid then (.ok (id, true), db₂)
            else
              match (claimCreated (a.candidate D s.sourceId d.row)).refusal db₂ with
              | some e => (.error e, db₂)
              | none =>
                match Db.insertEvent
                  ((claimCreated (a.candidate D s.sourceId d.row)).event d.event) db₂ with
                | .error e => (.error e, db₂)
                | .ok (db₃, _) => (.ok (id, false), db₃) := by
  unfold run ingestClaimWithStatus
  by_cases hstate : a.state ∈ claimTransitions.map (·.1)
  case neg => simp only [hstate, not_false_eq_true, if_true, exec_raise]
  simp only [hstate, not_true_eq_false, if_false]
  rw [exec_bind, exec_ensureSource]
  cases hs : sourceOf D a.userId a.sourceId d.sourceNow with
  | error e => rfl
  | ok s =>
    simp only [Conn.view, Option.getD_none, exec_bind, exec_insertClaim]
    cases hm : Db.insertClaim (a.candidate D s.sourceId d.row) (db.withSource s) with
    | error e => rfl
    | ok r =>
      obtain ⟨db₂, n⟩ := r
      simp only [Conn.wrote_ok, exec_query, Conn.view, Option.getD_none]
      cases hids : db₂.claimIdsOf (a.contentHash D s.sourceId) s.sourceId a.userId with
      | nil => rfl
      | cons id rest =>
        simp only [firstRow, exec_pure]
        by_cases hid : id = d.row.ulid
        · simp only [hid, ne_eq, not_true_eq_false, if_false, exec_bind, exec_recordEvent,
            Conn.view, Option.getD_none]
          cases (claimCreated (a.candidate D s.sourceId d.row)).refusal db₂ with
          | some e => rfl
          | none =>
            rcases Db.insertEvent ((claimCreated (a.candidate D s.sourceId d.row)).event d.event)
              db₂ with e | ⟨v, n⟩ <;> simp
        · simp only [hid, ne_eq, not_false_eq_true, if_true, exec_pure]

def ingestClaim (a : ClaimArgs) (d : Draws) : Sql String := do
  let r ← ingestClaimWithStatus D a d
  pure r.1

/-! ## Ingests with ids of their own -/

/-- The ids of an ingest are no row's and no event's. -/
structure Draws.Fresh (d : Draws) (db : Db) : Prop where
  memories : ∀ m ∈ db.memories, m.memoryId ≠ d.row.ulid
  claims : ∀ c ∈ db.claims, c.claimId ≠ d.row.ulid
  events : ∀ e ∈ db.events, e.eventId ≠ d.event.ulid

/-- A source id in the namespace of another user's direct source. -/
def Reserved (userId : String) (sourceId : Option String) : Prop :=
  ∃ s ∈ sourceId, isDirect s = true ∧ s ≠ syntheticDirectSourceId userId

section Fresh

variable {D}

theorem sourceOf_reserved {userId : String} {sourceId : Option String}
    (h : Reserved userId sourceId) (now : String) :
    ∃ msg, sourceOf D userId sourceId now = .error (.valueError msg) := by
  obtain ⟨s, hs, hdirect, hown⟩ := h
  obtain rfl : sourceId = some s := by simpa using hs
  simp [sourceOf, hdirect, hown, reservedNamespace]

theorem sourceOf_ok {userId : String} {sourceId : Option String}
    (h : ¬ Reserved userId sourceId) (now : String) :
    ∃ s, sourceOf D userId sourceId now = .ok s := by
  cases sourceId with
  | none => exact ⟨_, rfl⟩
  | some s =>
    by_cases hdirect : isDirect s = true
    · have hown : s = syntheticDirectSourceId userId := by
        by_contra hown
        exact h ⟨s, rfl, hdirect, hown⟩
      exact ⟨directSource D userId now, by simp [sourceOf, hdirect, ← hown]⟩
    · exact ⟨externalSource D userId s now, by simp [sourceOf, hdirect]⟩

theorem Db.hasSource_withSource (db : Db) (s : Source) :
    (db.withSource s).hasSource s.sourceId = true := by
  unfold withSource
  split_ifs with hclash
  · simpa [hasSource, Source.clashes] using hclash
  · simp [hasSource]

/-- A memory with an id of its own is in the table afterwards, or another is under its hash. -/
theorem Db.insertMemory_found (m : Memory) {db : Db}
    (hid : ∀ n ∈ db.memories, n.memoryId ≠ m.memoryId) (hfk : m.sourceId.all db.hasSource = true) :
    ∃ db' k, db.insertMemory m = .ok (db', k) ∧ db'.events = db.events ∧
      ∃ n ∈ db'.memories, n.contentHash = m.contentHash ∧ n.userId = m.userId := by
  unfold insertMemory
  by_cases hclash : db.memories.any m.clashes = true
  · rw [if_pos hclash]
    obtain ⟨n, hn, hmn⟩ := List.any_eq_true.1 hclash
    simp only [Memory.clashes, Bool.or_eq_true, Bool.and_eq_true, beq_iff_eq] at hmn
    exact ⟨db, 0, rfl, rfl, n, hn, hmn.resolve_left (hid n hn)⟩
  · rw [if_neg hclash, if_pos hfk]
    exact ⟨_, 1, rfl, rfl, m, by simp, rfl, rfl⟩

theorem Db.insertClaim_found (c : Claim) {db : Db}
    (hid : ∀ d ∈ db.claims, d.claimId ≠ c.claimId) (hfk : db.hasSource c.sourceId = true) :
    ∃ db' k, db.insertClaim c = .ok (db', k) ∧ db'.events = db.events ∧
      ∃ d ∈ db'.claims, d.contentHash = c.contentHash ∧ d.sourceId = c.sourceId ∧
        d.userId = c.userId := by
  unfold insertClaim
  by_cases hclash : db.claims.any c.clashes = true
  · rw [if_pos hclash]
    obtain ⟨d, hd, hcd⟩ := List.any_eq_true.1 hclash
    simp only [Claim.clashes, Bool.or_eq_true, Bool.and_eq_true, beq_iff_eq, and_assoc] at hcd
    exact ⟨db, 0, rfl, rfl, d, hd, hcd.resolve_left (hid d hd)⟩
  · rw [if_neg hclash, if_pos hfk]
    exact ⟨_, 1, rfl, rfl, c.stored, by simp, rfl, rfl, rfl⟩

/-- `record_event` does not refuse an event about a row of its user. -/
theorem EventArgs.refusal_none {a : EventArgs} {db : Db} {kind id : String}
    (hkind : a.targetKind = some kind) (hid : a.targetId = some id)
    (hfound : db.refExists kind id a.userId = true) : a.refusal db = none := by
  unfold refusal checkedTarget
  by_cases hchecked : id ≠ "" ∧ kind ∈ validTargetKinds <;> simp [hkind, hid, hchecked, hfound]

/-- An ingest with ids of its own succeeds outside the reserved namespaces. -/
theorem ingestMemory_ok {a : MemoryArgs} {d : Draws} {db : Db} (hfresh : d.Fresh db)
    (hsource : ¬ Reserved a.userId a.sourceId) :
    ∃ r, (run (ingestMemoryWithStatus D a d) db).1 = .ok r := by
  obtain ⟨s, hs⟩ := sourceOf_ok (D := D) hsource d.sourceNow
  obtain ⟨db₂, n, hins, hevents, m, hm, hhash, huser⟩ :=
    Db.insertMemory_found (a.candidate D s.sourceId d.row)
      (show ∀ n ∈ (db.withSource s).memories, _ by simpa using hfresh.memories)
      (by simpa [MemoryArgs.candidate] using Db.hasSource_withSource db s)
  have hmem : m.memoryId ∈ db₂.memoryIdsOf (a.contentHash D) a.userId := by
    simp only [Db.memoryIdsOf, List.mem_map, List.mem_filter, Bool.and_eq_true, beq_iff_eq]
    exact ⟨m, ⟨hm, hhash, huser⟩, rfl⟩
  obtain ⟨id, rest, hids⟩ := List.exists_cons_of_ne_nil (List.ne_nil_of_mem hmem)
  have hid : id ∈ db₂.memoryIdsOf (a.contentHash D) a.userId := hids ▸ List.mem_cons_self
  simp only [Db.memoryIdsOf, List.mem_map, List.mem_filter, Bool.and_eq_true, beq_iff_eq] at hid
  obtain ⟨x, ⟨hx, -, hxuser⟩, hxid⟩ := hid
  have hfound : db₂.refExists "memory" id a.userId = true := by
    simp only [Db.refExists, kindTable, List.any_map, List.any_eq_true]
    exact ⟨x, hx, by simp [hxid, hxuser]⟩
  have hrefusal : (a.eventFor D s.sourceId d.row id).refusal db₂ = none := by
    unfold MemoryArgs.eventFor
    split_ifs with hnew
    · exact EventArgs.refusal_none rfl rfl hfound
    · exact EventArgs.refusal_none rfl (congrArg some (not_not.1 hnew).symm) hfound
  rw [run_ingestMemoryWithStatus, hs]
  simp only [hins, hids, hrefusal]
  rw [insertEvent_eq (by simpa [hevents, EventArgs.event] using hfresh.events)]
  exact ⟨_, rfl⟩

theorem ingestClaim_ok {a : ClaimArgs} {d : Draws} {db : Db} (hfresh : d.Fresh db)
    (hsource : ¬ Reserved a.userId a.sourceId) (hstate : a.state ∈ claimTransitions.map (·.1)) :
    ∃ r, (run (ingestClaimWithStatus D a d) db).1 = .ok r := by
  obtain ⟨s, hs⟩ := sourceOf_ok (D := D) hsource d.sourceNow
  obtain ⟨db₂, n, hins, hevents, c, hc, hhash, hcsource, huser⟩ :=
    Db.insertClaim_found (a.candidate D s.sourceId d.row)
      (show ∀ n ∈ (db.withSource s).claims, _ by simpa using hfresh.claims)
      (Db.hasSource_withSource db s)
  have hmem : c.claimId ∈ db₂.claimIdsOf (a.contentHash D s.sourceId) s.sourceId a.userId :=
    Db.mem_claimIdsOf.2 ⟨c, hc, hhash, hcsource, huser, rfl⟩
  obtain ⟨id, rest, hids⟩ := List.exists_cons_of_ne_nil (List.ne_nil_of_mem hmem)
  rw [run_ingestClaimWithStatus, if_neg (not_not.2 hstate), hs]
  simp only [hins, hids]
  by_cases hid : id = d.row.ulid
  · obtain ⟨x, hx, -, -, hxuser, hxid⟩ := Db.mem_claimIdsOf.1 (hids ▸ List.mem_cons_self)
    have hfound : db₂.refExists "claim" d.row.ulid a.userId = true := by
      simp only [Db.refExists, kindTable, List.any_map, List.any_eq_true]
      exact ⟨x, hx, by simp [hxid, hid, hxuser]⟩
    rw [if_neg (not_not.2 hid), EventArgs.refusal_none rfl rfl hfound]
    simp only
    rw [insertEvent_eq (by simpa [hevents, EventArgs.event] using hfresh.events)]
    exact ⟨_, rfl⟩
  · rw [if_pos hid]
    exact ⟨_, rfl⟩

end Fresh

/-! ## Ingesting among other connections -/

section Safe

variable {I : Db → Prop} {R : Db → Db → Prop} {F : List (Db × Db) → Prop}
  {G : List (Db × Db) → Db → Db → Prop}
  {base : Db} {h : List (Db × Db)}

theorem safe_ensureSource {Q : Except Exc String → Option Db → Db → List (Db × Db) → Prop}
    {userId : String} {sourceId : Option String} {now : String}
    (hrefused : ∀ e, Q (.error e) none base h) (hfail : F h → ∀ b e, Q (.error e) none b h)
    (hcommit : ∀ b s, I b → R base b → sourceOf D userId sourceId now = .ok s →
      I (b.withSource s) ∧ G h b (b.withSource s) ∧
        Q (.ok s.sourceId) none (b.withSource s) (h ++ [(b, b.withSource s)])) :
    (ensureSource D userId sourceId now).Safe I R F G Q none base h := by
  have hinsert (s : Source) (hs : sourceOf D userId sourceId now = .ok s) :
      (do insertSource s; pure s.sourceId : Sql String).Safe I R F G Q none base h := by
    rw [safe_bind]
    refine safe_withConn_write (fun b v hsees v' n hins => ?_) fun hf b e => hfail hf b e
    obtain ⟨hI, hR, rfl⟩ := hsees
    obtain ⟨n', hn'⟩ := Db.insertSource_eq s v
    obtain ⟨rfl, rfl⟩ : v.withSource s = v' ∧ n' = n := by simpa [hn'] using hins
    exact hcommit v s hI hR hs
  cases sourceId with
  | none => exact hinsert _ rfl
  | some sourceId =>
    simp only [ensureSource, ensureExternalSource]
    by_cases hdirect : isDirect sourceId
    · by_cases hown : sourceId = syntheticDirectSourceId userId
      · rw [if_pos hdirect, if_neg (not_not.2 hown)]
        exact hinsert _ (by simp only [sourceOf, if_pos hdirect, if_neg (not_not.2 hown)])
      · rw [if_pos hdirect, if_pos hown]
        exact hrefused _
    · rw [if_neg hdirect]
      exact hinsert (externalSource D userId sourceId now) (by simp [sourceOf, hdirect])

/-- A claim insertion is safe if it is where it passes over the row and where it adds it. -/
theorem safe_insertClaim {Q : Except Exc Unit → Option Db → Db → List (Db × Db) → Prop}
    {c : Claim} (hfail : F h → ∀ b e, Q (.error e) none b h)
    (hsame : ∀ b, I b → R base b → b.claims.any c.clashes = true →
      I b ∧ G h b b ∧ Q (.ok ()) none b (h ++ [(b, b)]))
    (hnew : ∀ b, I b → R base b → b.claims.any c.clashes = false →
      b.hasSource c.sourceId = true → I { b with claims := b.claims ++ [c.stored] } ∧
      G h b { b with claims := b.claims ++ [c.stored] } ∧
      Q (.ok ()) none { b with claims := b.claims ++ [c.stored] }
        (h ++ [(b, { b with claims := b.claims ++ [c.stored] })])) :
    (insertClaim c).Safe I R F G Q none base h := by
  refine safe_withConn_write (fun b v hsees v' n hins => ?_) fun hf b e => hfail hf b e
  obtain ⟨hI, hR, rfl⟩ := hsees
  rcases Db.insertClaim_cases c v with ⟨heq, hclash⟩ | ⟨heq, hclash, hfk⟩ | heq
  · cases heq.symm.trans hins
    exact hsame v hI hR hclash
  · cases heq.symm.trans hins
    exact hnew v hI hR hclash hfk
  · exact nomatch heq.symm.trans hins

theorem safe_insertMemory {Q : Except Exc Unit → Option Db → Db → List (Db × Db) → Prop}
    {m : Memory} (hfail : F h → ∀ b e, Q (.error e) none b h)
    (hsame : ∀ b, I b → R base b → b.memories.any m.clashes = true →
      I b ∧ G h b b ∧ Q (.ok ()) none b (h ++ [(b, b)]))
    (hnew : ∀ b, I b → R base b → b.memories.any m.clashes = false →
      m.sourceId.all b.hasSource = true → I { b with memories := b.memories ++ [m] } ∧
      G h b { b with memories := b.memories ++ [m] } ∧
      Q (.ok ()) none { b with memories := b.memories ++ [m] }
        (h ++ [(b, { b with memories := b.memories ++ [m] })])) :
    (insertMemory m).Safe I R F G Q none base h := by
  refine safe_withConn_write (fun b v hsees v' n hins => ?_) fun hf b e => hfail hf b e
  obtain ⟨hI, hR, rfl⟩ := hsees
  rcases Db.insertMemory_cases m v with ⟨heq, hclash⟩ | ⟨heq, hclash, hfk⟩ | heq
  · cases heq.symm.trans hins
    exact hsame v hI hR hclash
  · cases heq.symm.trans hins
    exact hnew v hI hR hclash hfk
  · exact nomatch heq.symm.trans hins

end Safe

end ParallaxKernel.Store
