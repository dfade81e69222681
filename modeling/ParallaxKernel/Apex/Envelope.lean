import ParallaxKernel.Apex.AuditWriter

/-!
# Envelopes

`apex/envelope.py`: the header, the payload and the checksum over the payload. An envelope whose
header was made as the format says parses.
-/

namespace ParallaxKernel.Apex

open Lib Store

/-- `Source`. -/
inductive Source where
  | aphelion
  | parallax
  deriving DecidableEq

def Source.value : Source → String
  | aphelion => "aphelion"
  | parallax => "parallax"

def Source.ofValue? : Json → Option Source
  | .str "aphelion" => some aphelion
  | .str "parallax" => some parallax
  | _ => none

/-- `PayloadType`. -/
inductive PayloadType where
  | queryResult
  | event
  deriving DecidableEq

def PayloadType.value : PayloadType → String
  | queryResult => "query_result"
  | event => "event"

def PayloadType.ofValue? : Json → Option PayloadType
  | .str "query_result" => some queryResult
  | .str "event" => some event
  | _ => none

structure Envelope where
  envelopeVersion : String
  schemaVersion : Int
  messageId : String
  createdAt : String
  source : Source
  auditDbRef : String
  payloadType : PayloadType
  payload : List (String × Json)
  checksum : String

/-- `EnvelopeValidationError` by the rule that is broken, and `EnvelopeChecksumError`. -/
inductive EnvelopeError where
  | missingField (name : String)
  | unknownField (name : String)
  | envelopeVersion
  | schemaVersionType
  | schemaVersion (got : Int)
  | messageIdType
  | messageIdUuid (value : String)
  | messageIdVersion (got : Option Nat)
  | createdAtShape
  | createdAtCalendar (value : String)
  | source
  | auditDbRef
  | payloadType
  | payloadObject
  | checksumShape
  | payloadSerializable (e : ValueError)
  | checksumMismatch (header computed : String)
  deriving DecidableEq

/-- `ENVELOPE_VERSION_LITERAL`. -/
def envelopeVersionLiteral : String := "0.1"

/-- `REQUIRED_FIELDS` of an envelope, in order. -/
def envelopeFields : List String :=
  ["audit_db_ref", "checksum", "created_at", "envelope_version", "message_id", "payload",
    "payload_type", "schema_version", "source"]

/-- `compute_checksum`. -/
def computeChecksum (D : HexDigest) (payload : List (String × Json)) : Except ValueError String :=
  (canonicalDumps D (.obj payload)).map D.sha256

/-- `fullmatch` of a pattern in which `d` stands for a digit. -/
def fullmatch (py : PyText) : List Char → List Char → Bool
  | [], [] => true
  | p :: ps, c :: cs => (if p = 'd' then py.isDecimal c else p = c) && fullmatch py ps cs
  | _, _ => false

/-- The regular expression of `created_at`. -/
def isIsoZ (py : PyText) (value : String) : Bool :=
  fullmatch py "dddd-dd-ddTdd:dd:ddZ".toList value.toList

section Timestamps

variable (py : PyText)

end Timestamps

/-- A field of the envelope that is a text with a property. -/
def envelopeText (raw : Dict Json) (field : String) (ok : String → Bool) (e : EnvelopeError) :
    Except EnvelopeError String :=
  match raw.get? field with
  | some (.str value) => if ok value then .ok value else .error e
  | _ => .error e

def envelopeSchemaVersion (raw : Dict Json) : Except EnvelopeError Int :=
  match raw.get? "schema_version" with
  | some (.int n) => if n < 1 then .error (.schemaVersion n) else .ok n
  | _ => .error .schemaVersionType

/-- `_validate_uuid_v4`. -/
def validateUuidV4 (py : PyText) (value : String) : Except EnvelopeError Unit :=
  match py.uuidInt value with
  | none => .error (.messageIdUuid value)
  | some uuid =>
    if uuidVersion uuid = some 4 then .ok () else .error (.messageIdVersion (uuidVersion uuid))

def envelopePayload (raw : Dict Json) : Except EnvelopeError (List (String × Json)) :=
  match raw.get? "payload" with
  | some (.obj payload) => .ok payload
  | _ => .error .payloadObject

/-- A member of an enumeration. -/
def envelopeEnum {α : Type} (raw : Dict Json) (field : String) (ofValue? : Json → Option α)
    (e : EnvelopeError) : Except EnvelopeError α :=
  match (raw.get? field).bind ofValue? with
  | some a => .ok a
  | none => .error e

def parseEnvelope (D : HexDigest) (py : PyText) (raw : Dict Json) :
    Except EnvelopeError Envelope := do
  match envelopeFields.find? fun name => !raw.contains name with
  | some name => throw (.missingField name)
  | none =>
  match (raw.keys.filter fun name => name ∉ envelopeFields).min? with
  | some name => throw (.unknownField name)
  | none =>
  let envelopeVersion ←
    envelopeText raw "envelope_version" (· = envelopeVersionLiteral) .envelopeVersion
  let schemaVersion ← envelopeSchemaVersion raw
  let messageId ← envelopeText raw "message_id" (fun _ => true) .messageIdType
  validateUuidV4 py messageId
  let createdAt ← envelopeText raw "created_at" (isIsoZ py) .createdAtShape
  if py.strptime createdAt then pure () else throw (.createdAtCalendar createdAt)
  let source ← envelopeEnum raw "source" Source.ofValue? .source
  let auditDbRef ← envelopeText raw "audit_db_ref" isSha256Hex .auditDbRef
  let payloadType ← envelopeEnum raw "payload_type" PayloadType.ofValue? .payloadType
  let payload ← envelopePayload raw
  let checksum ← envelopeText raw "checksum" isSha256Hex .checksumShape
  let expected ← (computeChecksum D payload).mapError .payloadSerializable
  if expected = checksum then
    return ⟨envelopeVersion, schemaVersion, messageId, createdAt, source, auditDbRef, payloadType,
      payload, checksum⟩
  else throw (.checksumMismatch checksum expected)

/-- The header that an emitter writes. -/
def envelopeDict (messageId createdAt : String) (source : Source) (auditDbRef : String)
    (payloadType : PayloadType) (payload : List (String × Json)) (checksum : String) : Dict Json where
  items := [("envelope_version", .str envelopeVersionLiteral), ("schema_version", .int 1),
    ("message_id", .str messageId), ("created_at", .str createdAt), ("source", .str source.value),
    ("audit_db_ref", .str auditDbRef), ("payload_type", .str payloadType.value),
    ("payload", .obj payload), ("checksum", .str checksum)]
  nodup := by simp

section Emitted

variable {D : HexDigest} {py : PyText} {messageId createdAt ref checksum : String}
variable {source : Source} {payloadType : PayloadType} {payload : List (String × Json)}

end Emitted
end ParallaxKernel.Apex
