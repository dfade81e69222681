import ParallaxKernel.Apex.AuditDb
import ParallaxKernel.Apex.Envelope
import ParallaxKernel.Router.DualRead

/-!
# The Aphelion read adapter

`AphelionReadAdapter` of `router/aphelion_adapter.py`. The claim loader, the validator and the
reader of the `aphelion` package, and the provider of the audit connection are parameters, and so
are the time and the message id that a query draws. Log lines are left out.
-/

namespace ParallaxKernel.Router

open Lib Store Apex

/-! ## The Aphelion package -/

/-- The frontmatter of a claim. -/
abbrev Claim := List (String × Json)

/-- `ConflictClass`, of which the adapter tells one member from the others. -/
inductive ConflictClass where
  | notFound
  | other (value : String)
  deriving DecidableEq

def ConflictClass.value : ConflictClass → String
  | notFound => "not_found"
  | other value => value

/-- What the R4 reader returns. -/
structure ReadResult where
  conflictClass : ConflictClass
  primary : Option Claim
  surfaced : List Claim
  superseded : List Claim
  usedQueryTime : String

inductive SchemaError where
  | schemaError (code : String)
  deriving DecidableEq

/-- What an adapter is built with and what a query draws. -/
structure Aphelion where
  claimLoader : QueryRequest → Except Exc (List Claim)
  validateV03Fields : Claim → Except SchemaError Unit
  read : String → List Claim → Except SchemaError ReadResult
  auditConnProvider : Except Exc Unit
  utcNow : DateTime
  uuid4 : String

/-! ## Hits -/

/-- `_resolve_subject`. -/
def resolveSubject (request : QueryRequest) : String :=
  match request.params.bind (Json.member? "subject") with
  | some (.str explicit) =>
    if explicit ≠ "" then explicit else if request.q ≠ "" then request.q else request.userId
  | _ => if request.q ≠ "" then request.q else request.userId

/-- `_conflict_class_to_outcome`. -/
def conflictClassToOutcome : ConflictClass → String
  | .notFound => "miss"
  | .other _ => "hit"

/-- `_string_field`. -/
def stringField (claim : Claim) (name : String) : Option String :=
  match Json.member? name claim with
  | some (.str value) => if value ≠ "" then some value else none
  | _ => none

/-- `CLAIM_CONTENT_KEY`. -/
def claimContentKey : String := "body"

/-- `_claim_content`: the content of a claim and the field that it comes from. -/
def claimContent (claim : Claim) : String × String :=
  let fallback :=
    match stringField claim "title" with
    | some title => (title, "title")
    | none => ((stringField claim "subject").getD "", "subject")
  match Json.member? claimContentKey claim with
  | some (.str body) => if strip body ≠ "" then (strip body, claimContentKey) else fallback
  | _ => fallback

/-- `_build_hit`. -/
def buildHit (py : PyText) (claim : Claim) : List (String × Json) :=
  let claimId := (stringField claim "claim_id").getD ""
  let subject := (stringField claim "subject").getD ""
  let polarity := (stringField claim "polarity").getD "affirm"
  let packagePart :=
    match stringField claim "package_id" with
    | some packageId => ", package=" ++ packageId
    | none => ""
  let provenance := "aphelion claim " ++ claimId ++ " (subject=" ++ py.repr subject ++
    ", polarity=" ++ polarity ++ packagePart ++ ")"
  let hit := [("id", .str claimId), ("text", .str (claimContent claim).1),
    ("kind", .str "aphelion_claim"), ("polarity", .str polarity), ("subject", .str subject),
    ("content_source", .str (claimContent claim).2), ("evidence", .str provenance),
    ("full", .obj claim)]
  match stringField claim "created_at" with
  | some createdAt => hit ++ [("created_at", .str createdAt)]
  | none => hit

/-! ## The query -/

/-- `last_envelope` and `last_audit_row`. -/
structure Adapter where
  lastEnvelope : Option Envelope
  lastAuditRow : Option AuditRow

/-- What a query does: it holds the connection that the provider returns. -/
abbrev Read (α : Type) := Act (Session AuditTable Adapter) Exc α

section Query

variable (D : HexDigest) (py : PyText) (aphelion : Aphelion)

def setLastEnvelope (envelope : Option Envelope) : Read Unit :=
  .modify fun s => { s with own := { s.own with lastEnvelope := envelope } }

def setLastAuditRow (row : Option AuditRow) : Read Unit :=
  .modify fun s => { s with own := { s.own with lastAuditRow := row } }

/-- The claims of the loader, whose own `AphelionUnreachableError` passes. -/
def loadClaims (request : QueryRequest) : Read (List Claim) :=
  match aphelion.claimLoader request with
  | .ok claims => pure claims
  | .error (.aphelionUnreachable reason) => throw (.aphelionUnreachable reason)
  | .error _ => throw (.aphelionUnreachable "claim_loader_error")

def validateClaims : List Claim → Read Unit
  | [] => pure ()
  | claim :: claims =>
    match aphelion.validateV03Fields claim with
    | .ok () => validateClaims claims
    | .error _ => throw (.aphelionUnreachable "claim_schema_error")

def readClaims (subject : String) (claims : List Claim) : Read ReadResult :=
  match aphelion.read subject claims with
  | .ok result => pure result
  | .error _ => throw (.aphelionUnreachable "claim_schema_error")

def evidenceOf (result : ReadResult) : RetrievalEvidence Json where
  hits := result.surfaced.map (buildHit py)
  stages := ["aphelion_v03_r4"]
  notes := ["conflict_class=" ++ result.conflictClass.value]
  sqlFragments := []
  diversityMode := "none"

/-- `audit_row_data`. -/
def auditRowData (request : QueryRequest) (result : ReadResult) (claimId packageId : String) :
    Dict Json where
  items := [("claim_id", .str claimId), ("package_id", .str packageId),
    ("envelope_message_id", .str aphelion.uuid4), ("ts", .str aphelion.utcNow.isoZ),
    ("outcome", .str (conflictClassToOutcome result.conflictClass)), ("source", .str "aphelion"),
    ("session_id", .str request.userId), ("signer_id", .str ""),
    ("signer_manifest_digest", .str "")]
  nodup := by simp

/-- The reason of a failed write. -/
def writeFailure : Exc → String
  | .sqlite .integrityError => "audit_db_integrity_error"
  | .auditDbUsage _ => "audit_db_usage_error"
  | _ => "audit_db_write_failed"

/-- The write of the audit row in its fence, which reports that the row is committed. -/
def writeAudit (row : AuditRow) : Read Bool :=
  tryCatch
    (do
      Act.ofExcept aphelion.auditConnProvider
      writeAuditRow py row
      pure true)
    fun e => throw (.aphelionUnreachable (writeFailure e))

/-- The guard of the order of the writes. -/
def guardOrder (committed : Bool) : Read Unit :=
  tryCatch (assertAuditRowCommitted committed) fun e =>
    match e with
    | .auditWriteOrder => throw (.aphelionUnreachable "audit_write_order_violation")
    | e => throw e

def payloadOf (subject : String) (result : ReadResult) (claimId : String) : List (String × Json) :=
  [("subject", .str subject), ("conflict_class", .str result.conflictClass.value),
    ("primary_claim_id", .str claimId), ("surfaced_count", .int result.surfaced.length),
    ("superseded_count", .int result.superseded.length),
    ("used_query_time", .str result.usedQueryTime)]

/-- The envelope of a row that is committed. -/
def makeEnvelope (row : AuditRow) (payload : List (String × Json)) : Read Envelope := do
  let ref ← Act.ofExcept ((row.sha256Hex D).mapError .value)
  let checksum ← Act.ofExcept ((computeChecksum D payload).mapError .value)
  match parseEnvelope D py (envelopeDict aphelion.uuid4 aphelion.utcNow.isoZ .aphelion ref
      .queryResult payload checksum) with
  | .ok envelope => pure envelope
  | .error _ => throw (.aphelionUnreachable "envelope_checksum_mismatch")

/-- The part of a query that emits an envelope for a primary claim. -/
def emit (request : QueryRequest) (result : ReadResult) (claimId packageId : String) :
    Read Unit := do
  match canonicalizeRow py (auditRowData aphelion request result claimId packageId) with
  | .error _ => throw (.aphelionUnreachable "audit_row_invalid")
  | .ok row =>
    let committed ← writeAudit py aphelion row
    guardOrder committed
    let envelope ← makeEnvelope D py aphelion row
      (payloadOf (resolveSubject request) result claimId)
    setLastEnvelope (some envelope)
    setLastAuditRow (some row)

def query (request : QueryRequest) : Read (RetrievalEvidence Json) := do
  setLastEnvelope none
  setLastAuditRow none
  let subject := resolveSubject request
  let candidates ← loadClaims aphelion request
  validateClaims aphelion candidates
  let result ← readClaims aphelion subject candidates
  let primaryClaimId := result.primary.bind (stringField · "claim_id")
  let primaryPackageId := result.primary.bind (stringField · "package_id")
  match primaryClaimId, primaryPackageId with
  | some claimId, some packageId =>
    emit D py aphelion request result claimId packageId
    pure (evidenceOf py result)
  | _, _ => pure (evidenceOf py result)

/-! ## The order of the writes -/

/-- The row of an envelope is committed, after the rows that were there and as the only one with its
message id, and the envelope holds the digest of the row as it is read back. -/
def Recorded (before table : AuditTable) (envelope : Envelope) : Prop :=
  ∃ row, table = before ++ [row] ∧
    table.filter (fun r => r.envelopeMessageId = envelope.messageId) = [row] ∧
    row.sha256Hex D = .ok envelope.auditDbRef

/-- The envelope that an adapter shows is recorded. -/
def Shown (before table : AuditTable) (adapter : Adapter) : Prop :=
  ∀ envelope, adapter.lastEnvelope = some envelope → Recorded D before table envelope

variable {D py aphelion}

open Act

section Emit

variable {request : QueryRequest} {result : ReadResult} {claimId packageId : String}

variable {s : Session AuditTable Adapter}

variable (D) in
/-- How a query may end that found the session as `s`: it fails with `AphelionUnreachableError` and
without an envelope, it emits none and leaves the connection alone, or it shows a recorded one. -/
structure Ends (s : Session AuditTable Adapter) {α : Type} (r : Except Exc α)
    (t : Session AuditTable Adapter) : Prop where
  shown : Shown D s.conn.db t.conn.db t.own
  silent : t.own.lastEnvelope = none → t.conn = s.conn
  failed : ∀ e, r = .error e →
    (∃ reason, e = .aphelionUnreachable reason) ∧ t.own.lastEnvelope = none

end Emit

/-- A part of a query that touches nothing and raises `AphelionUnreachableError` alone. -/
def Quiet {α : Type} (p : Read α) : Prop :=
  (∃ a, p = pure a) ∨ ∃ reason, p = throw (.aphelionUnreachable reason)

end Query

/-! ## A claim of one package -/

def sampleRequest : QueryRequest :=
  ⟨.entityProfile, "ann", "tea", 10, none, none, 1, none⟩

def sampleClaim : Claim :=
  [("claim_id", .str "01963f7d-7000-7000-8000-000000000011"),
    ("package_id", .str "01963f7d-7000-7000-8000-0000000000aa"), ("subject", .str "tea"),
    ("body", .str "Ann drinks tea.")]

def Aphelion.sample : Aphelion where
  claimLoader _ := .ok [sampleClaim]
  validateV03Fields _ := .ok ()
  read _ claims := .ok ⟨.other "supersession", claims.head?, claims, [], "2026-05-09T14:23:11Z"⟩
  auditConnProvider := .ok ()
  utcNow := ⟨2026, 5, 9, 14, 23, 11, 0, some 0⟩
  uuid4 := "7b0c5a52-3f0e-4d61-9c55-0a4f3f7d9b11"

end ParallaxKernel.Router
