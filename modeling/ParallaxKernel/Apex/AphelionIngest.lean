import ParallaxKernel.Apex.AuditDb
import ParallaxKernel.Apex.SubjectIndex

/-!
# The ingest pipeline

`ingest_package` of `apex/aphelion_ingest.py`. The functions of the `aphelion` package, the answers
of the operating system on paths and the trust store are parameters, and so are the time and the
message ids that a run draws. The package file is opened three times, and a writer may put other
files in its place before each time. Log lines and the elapsed time are left out.
-/

namespace ParallaxKernel.Apex

open Lib

/-! ## The Aphelion package -/

structure SignatureEnvelope where
  signerId : String
  packageCanonicalHash : String

/-- The tree that `unpack` leaves: `manifest.json` and the claim files. -/
structure Unpacked (Bytes : Type) where
  manifest : Except AphelionError Bytes
  claim : String → Except AphelionError String

/-- What the ingest calls of the `aphelion` package, on contents `Tar` of a package file. -/
structure AphelionLib (Tar Bytes : Type) where
  verifyPackage : Tar → Except AphelionError (List SignatureEnvelope)
  extractSignerManifests : Tar → Except AphelionError (List (String × Bytes))
  unpack : Tar → Except AphelionError (Unpacked Bytes)
  canonicalLoads : Bytes → Except AphelionError Json
  parseFrontmatter : String → Except AphelionError (List (String × Json))
  validateV03Fields : List (String × Json) → Except AphelionError Unit
  computeKeyFingerprint : Bytes → String

/-! ## Gates -/

/-- `ParallaxIngestError` where the class of the exception has a reason code. -/
def orReason {α : Type} (reason : AphelionError → Option String) (r : Except AphelionError α) :
    Except Exc α :=
  r.mapError fun e =>
    match reason e with
    | some code => .parallaxIngest code
    | none => .aphelion e

/-- What the operating system says of a required directory. -/
structure DirArg where
  unset : Bool
  isAbsolute : Bool
  hasDotDot : Bool
  resolves : Bool
  isReadableDir : Bool

/-- `_validate_dir_arg`. -/
def validateDirArg (dir : DirArg) (dirUnsetCode : String) : Except Exc Unit :=
  if dir.unset || !dir.isAbsolute || dir.hasDotDot || !dir.resolves || !dir.isReadableDir then
    .error (.parallaxIngest dirUnsetCode)
  else .ok ()

/-- What the operating system says of the path of the package. -/
structure PackagePath where
  text : String
  name : String
  resolves : Bool
  underPackageDir : Bool
  isSymlink : Bool
  exists_ : Bool
  isFile : Bool

/-- `_validate_package_path`. -/
def validatePackagePath (path : PackagePath) : Except Exc Unit :=
  if !path.resolves || !path.underPackageDir then .error (.parallaxIngest "pkg.path_escape")
  else if !path.text.endsWith ".aphelion.tar" then
    .error (.parallaxIngest "pkg.extension_invalid")
  else if path.isSymlink then .error (.parallaxIngest "pkg.not_regular_file")
  else if !path.exists_ then .error (.parallaxIngest "pkg.not_found")
  else if !path.isFile then .error (.parallaxIngest "pkg.not_regular_file")
  else .ok ()

section Ingest

variable {Tar Bytes : Type} (lib : AphelionLib Tar Bytes)

/-- `_load_trust_store`: the contents of the `.pem` files in order, where they can be listed, or
what came instead of a content. -/
def loadTrustStore (isEmpty : Bytes → Bool) :
    Option (List (Except AphelionError Bytes)) → Except Exc (List String)
  | none => .error (.parallaxIngest "disk.permission")
  | some pems => pems.mapM fun
    | .error .permission => .error (.parallaxIngest "disk.permission")
    | .error _ => .error (.parallaxIngest "signer.trust_pem_invalid")
    | .ok raw =>
      if isEmpty raw then .error (.parallaxIngest "signer.trust_pem_invalid")
      else .ok (lib.computeKeyFingerprint raw)

/-! ## Verification and trust -/

/-- The reason codes of `_run_aphelion_verify`. -/
def verifyReason : AphelionError → Option String
  | .fileNotFound => some "pkg.not_found"
  | .permission => some "disk.permission"
  | .security => some "pkg.archive_unsafe"
  | .verification => some "pkg.hash_mismatch"
  | .semantic => some "pkg.semantic_invalid"
  | .signerVerification code =>
    some (if code = "E_SIGNER_REQUIRED" then "pkg.unsigned" else "signer.signature_invalid")
  | .schema code =>
    some (if code = "CLAIM_SUBJECT_REQUIRED_FOR_CONFLICT" then "claim.subject_required_for_r4"
      else "claim.format_invalid")
  | .os => some "disk.permission"
  | .tar | .other _ => none

/-- The one envelope of a package that verifies. -/
def verifySingle (tar : Tar) : Except Exc SignatureEnvelope := do
  match ← orReason verifyReason (lib.verifyPackage tar) with
  | [] => throw (.parallaxIngest "pkg.unsigned")
  | [envelope] => return envelope
  | _ => throw (.parallaxIngest "signer.multi_sig_unsupported")

/-- `_parse_signer_manifest`, of which the fingerprint is read. -/
def parseSignerManifest (bytes : Bytes) : Except Exc Json := do
  let reason : AphelionError → Option String
    | .schema _ => some "signer.signature_invalid"
    | _ => none
  match ← orReason reason (lib.canonicalLoads bytes) with
  | .obj ms =>
    if ["signer_id", "algorithm", "public_key_b64", "key_fingerprint"].all
        fun key => (Json.member? key ms).isSome then
      return (Json.member? "key_fingerprint" ms).getD .null
    else throw (.parallaxIngest "signer.signature_invalid")
  | _ => throw (.parallaxIngest "signer.signature_invalid")

/-- `_verify_trust` of one envelope, and the rejection that follows from it. -/
def verifyTrust (trusted : List String) (envelope : SignatureEnvelope) (tar : Tar) :
    Except Exc Unit := do
  let manifests ← orReason (fun _ => none) (lib.extractSignerManifests tar)
  match manifests.lookup envelope.signerId with
  | none => throw (.parallaxIngest "signer.manifest_missing")
  | some bytes =>
    match ← parseSignerManifest lib bytes with
    | .str fingerprint =>
      if fingerprint ∈ trusted then return () else throw (.parallaxIngest "signer.untrusted")
    | .arr _ | .obj _ => throw (.other "TypeError")
    | _ => throw (.parallaxIngest "signer.untrusted")

/-! ## The mapping of claims -/

def unpackReason : AphelionError → Option String
  | .security | .tar => some "pkg.archive_unsafe"
  | .permission | .os | .fileNotFound => some "disk.permission"
  | _ => none

def manifestReason : AphelionError → Option String
  | .fileNotFound | .schema _ => some "pkg.semantic_invalid"
  | _ => none

/-- The manifest of an unpacked package. -/
def readManifest (unpacked : Unpacked Bytes) : Except Exc (List (String × Json)) := do
  let bytes ← orReason manifestReason unpacked.manifest
  match ← orReason manifestReason (lib.canonicalLoads bytes) with
  | .obj manifest => return manifest
  | _ => throw (.parallaxIngest "pkg.semantic_invalid")

def packageIdOf (manifest : List (String × Json)) : Except Exc String :=
  match Json.member? "package_id" manifest with
  | some (.str packageId) =>
    if packageId ≠ "" then .ok packageId else .error (.parallaxIngest "pkg.semantic_invalid")
  | _ => .error (.parallaxIngest "pkg.semantic_invalid")

def claimReadReason : AphelionError → Option String
  | .permission => some "disk.permission"
  | .os | .fileNotFound => some "claim.format_invalid"
  | _ => none

def claimParseReason : AphelionError → Option String
  | .schema _ => some "claim.format_invalid"
  | _ => none

/-- `_read_claim_frontmatter`. -/
def readClaimFrontmatter (unpacked : Unpacked Bytes) (path : String) :
    Except Exc (List (String × Json)) := do
  let text ← orReason claimReadReason (unpacked.claim path)
  orReason claimParseReason (lib.parseFrontmatter text)

/-- An entry of `manifest["claims"]` with the frontmatter of its file. -/
def parseEntry (unpacked : Unpacked Bytes) :
    Json → Except Exc (String × List (String × Json))
  | .obj entry =>
    match Json.member? "claim_id" entry, Json.member? "path" entry with
    | some (.str claimId), some (.str path) => do
      return (claimId, ← readClaimFrontmatter lib unpacked path)
    | _, _ => .error (.parallaxIngest "pkg.semantic_invalid")
  | _ => .error (.parallaxIngest "pkg.semantic_invalid")

/-- `(subject, polarity, valid_from)`, where all three are texts. -/
def duplicateKey (fm : List (String × Json)) : Option (String × String × String) :=
  match Json.member? "subject" fm, Json.member? "polarity" fm, Json.member? "valid_from" fm with
  | some (.str subject), some (.str polarity), some (.str validFrom) =>
    some (subject, polarity, validFrom)
  | _, _, _ => none

def validateReason : AphelionError → Option String
  | .schema code =>
    some (if code = "CLAIM_SUBJECT_REQUIRED_FOR_CONFLICT" then "claim.subject_required_for_r4"
      else "claim.format_invalid")
  | _ => none

/-- `_validate_and_check_duplicates`. -/
def validateAndCheckDuplicates (seen : List (String × String × String)) :
    List (String × List (String × Json)) → Except Exc Unit
  | [] => .ok ()
  | (_, fm) :: rest => do
    orReason validateReason (lib.validateV03Fields fm)
    match duplicateKey fm with
    | none => validateAndCheckDuplicates seen rest
    | some key =>
      if key ∈ seen then throw (.parallaxIngest "claim.duplicate_in_package")
      else validateAndCheckDuplicates (key :: seen) rest

/-- The claims of a manifest with their frontmatters. -/
def parseClaims (unpacked : Unpacked Bytes) (manifest : List (String × Json)) :
    Except Exc (List (String × List (String × Json))) :=
  match Json.member? "claims" manifest with
  | some (.arr (entry :: entries)) => do
    let parsed ← (entry :: entries).mapM (parseEntry lib unpacked)
    validateAndCheckDuplicates lib [] parsed
    return parsed
  | _ => .error (.parallaxIngest "pkg.empty_package")

/-- The arguments of a run, and what it draws on the way: the time, the message ids, and the package
files that it finds in the directory when it updates the index, where that can be saved. -/
structure IngestArgs (Bytes : Type) where
  packageDir : DirArg
  trustStoreDir : DirArg
  pems : Option (List (Except AphelionError Bytes))
  isEmpty : Bytes → Bool
  packagePath : PackagePath
  sessionId : String
  now : DateTime
  uuid4 : Nat → String
  packages : List PackageStat
  builtAt : PyFloat
  indexSaved : Bool

/-- The row of a claim before it is validated. -/
def rowData (claimId messageId packageId sessionId : String) (envelope : SignatureEnvelope)
    (timestamp : String) : Dict Json where
  items := [("claim_id", .str claimId), ("envelope_message_id", .str messageId),
    ("outcome", .str "hit"), ("package_id", .str packageId), ("session_id", .str sessionId),
    ("signer_id", .str envelope.signerId),
    ("signer_manifest_digest", .str envelope.packageCanonicalHash), ("source", .str "aphelion"),
    ("ts", .str timestamp)]
  nodup := by simp

/-- `(claim_id, subject)` of the claims that have a subject. -/
def subjectsOf (claims : List (String × List (String × Json))) : List (String × String) :=
  claims.filterMap fun (claimId, fm) =>
    match Json.member? "subject" fm with
    | some (.str subject) => if subject ≠ "" then some (claimId, subject) else none
    | _ => none

/-- One row for each claim; the first gets the message id `n`. -/
def canonicalRows (py : PyText) (args : IngestArgs Bytes) (packageId : String)
    (envelope : SignatureEnvelope) :
    Nat → List (String × List (String × Json)) → Except Exc (List AuditRow)
  | _, [] => .ok []
  | n, (claimId, _) :: claims => do
    let data := rowData claimId (args.uuid4 n) packageId args.sessionId envelope args.now.isoZ
    let row ← (canonicalizeRow py data).mapError .auditRow
    return row :: (← canonicalRows py args packageId envelope (n + 1) claims)

/-- The package id and the claims of a package, as `unpack` leaves them. -/
def claimsOf (tar : Tar) : Except Exc (String × List (String × List (String × Json))) := do
  let unpacked ← orReason unpackReason (lib.unpack tar)
  let manifest ← readManifest lib unpacked
  let packageId ← packageIdOf manifest
  return (packageId, ← parseClaims lib unpacked manifest)

/-- `ClaimMappingBatch`, and the subjects that go into the index. -/
structure ClaimMappingBatch where
  packageId : String
  signerId : String
  auditRows : List AuditRow
  claimSubjects : List (String × String)

/-- What `ingest_package` makes of the unpacked package, with `_build_audit_rows`. -/
def buildBatch (py : PyText) (args : IngestArgs Bytes) (envelope : SignatureEnvelope) (tar : Tar) :
    Except Exc ClaimMappingBatch := do
  let (packageId, claims) ← claimsOf lib tar
  let auditRows ← canonicalRows py args packageId envelope 0 claims
  return { packageId, signerId := envelope.signerId, auditRows, claimSubjects := subjectsOf claims }

/-! ## The run -/

/-- The package file, what a writer puts in its place before each of the next times that it is
opened, what it was each time that it was opened, and the subject index. -/
structure Drop (Tar : Type) where
  file : Tar
  writer : List (List Tar)
  opened : List Tar
  index : Option SubjectIndex

abbrev Ingest (Tar : Type) := Act (Session AuditTable (Drop Tar)) Exc

/-- The package file is opened, after what the writer did. -/
def Drop.reopened (drop : Drop Tar) : Drop Tar :=
  let file := (drop.writer.headD []).getLast?.getD drop.file
  { drop with file, writer := drop.writer.tail, opened := drop.opened ++ [file] }

def openTar : Ingest Tar Tar :=
  .step fun s => (.ok s.own.reopened.file, { s with own := s.own.reopened })

/-- `_write_batch`. -/
def writeBatch (py : PyText) (rows : List AuditRow) : Ingest Tar Nat := do
  tryCatch (writeAuditRowsAtomic py rows) fun
    | .sqlite .integrityError => throw (.parallaxIngest "pkg.idempotency_duplicate")
    | .auditDbWrite _ => throw (.parallaxIngest "disk.audit_db_write_failed")
    | e => throw e
  return rows.length

/-- `update_index_for_package`, whose failure is only logged. -/
def updateIndexForPackage (args : IngestArgs Bytes) (batch : ClaimMappingBatch) : Ingest Tar Unit :=
  .modify fun s =>
    if args.indexSaved then
      let index := updateIndex s.own.index args.packages args.packagePath.name batch.packageId
        batch.claimSubjects args.builtAt
      { s with own := { s.own with index := some index } }
    else s

structure IngestReport where
  packageId : String
  packagePath : String
  claimsIngested : Nat
  auditRowsWritten : Nat
  signerId : String

/-- `ingest_package` from the batch on. -/
def commitBatch (py : PyText) (args : IngestArgs Bytes) (batch : ClaimMappingBatch) :
    Ingest Tar IngestReport := do
  let rowsWritten ← writeBatch py batch.auditRows
  updateIndexForPackage args batch
  return {
    packageId := batch.packageId
    packagePath := args.packagePath.text
    claimsIngested := batch.auditRows.length
    auditRowsWritten := rowsWritten
    signerId := batch.signerId }

def ingestPackage (py : PyText) (args : IngestArgs Bytes) : Ingest Tar IngestReport := do
  Act.ofExcept (validateDirArg args.packageDir "pkg.dir_unset")
  Act.ofExcept (validateDirArg args.trustStoreDir "pkg.trust_store_missing")
  let trusted ← Act.ofExcept (loadTrustStore lib args.isEmpty args.pems)
  Act.ofExcept (validatePackagePath args.packagePath)
  let verified ← openTar
  let envelope ← Act.ofExcept (verifySingle lib verified)
  let checked ← openTar
  Act.ofExcept (verifyTrust lib trusted envelope checked)
  let read ← openTar
  let batch ← Act.ofExcept (buildBatch lib py args envelope read)
  commitBatch py args batch

end Ingest

end ParallaxKernel.Apex
