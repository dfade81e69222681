import ParallaxKernel.Apex.CanonicalJson
import ParallaxKernel.Lib.DateTime
import ParallaxKernel.Lib.Dict
import ParallaxKernel.Lib.Uuid

/-!
# Audit rows

`apex/audit_writer.py`. A row is any dictionary until `canonicalizeRow` has accepted it; from then
on its values are texts, and `canonicalizeRow_wellFormed` says which. How the texts of UUIDs and
timestamps are read is what the standard library makes of them, `PyText`.
-/

namespace ParallaxKernel.Apex

open Lib Store

/-- What the standard library makes of a text: `uuid.UUID(value).int`, whether
`datetime.strptime(value, "%Y-%m-%dT%H:%M:%SZ")` returns, `\d` of a regular expression, which
matches the decimal digits of ASCII and others, and `repr(value)`. -/
structure PyText where
  uuidInt : String → Option Nat
  strptime : String → Bool
  isDecimal : Char → Bool
  repr : String → String
  isDecimal_ascii (c : Char) (h : c.isDigit = true) : isDecimal c = true

/-- How ASCII texts are read. -/
def PyText.ascii : PyText where
  uuidInt value :=
    let digits := value.toList.filter (· ≠ '-')
    if digits.length = 32 then
      digits.foldlM (fun n c => (Json.hexVal c).map (16 * n + ·)) 0
    else none
  strptime value := value.endsWith "Z" &&
    (DateTime.fromIsoformat (String.ofList value.toList.dropLast)).isOk
  isDecimal c := c.isDigit
  repr value := "'" ++ value ++ "'"
  isDecimal_ascii _ h := h

/-! ## The schema -/

/-- `REQUIRED_FIELDS`. -/
def requiredFields : List String :=
  ["claim_id", "envelope_message_id", "outcome", "package_id", "session_id", "signer_id",
    "signer_manifest_digest", "source", "ts"]

/-- `OPTIONAL_FIELDS`. -/
def optionalFields : List String := ["aphelion_hash", "local_hash", "reason_code"]

/-- `OUTCOME_VALUES`. -/
def outcomeValues : List String := ["hit", "miss", "divergence", "error"]

/-- `SOURCE_VALUES`. -/
def sourceValues : List String := ["aphelion", "parallax"]

/-- `REASON_CODE_PREFIXES`. -/
def reasonCodePrefixes : List String :=
  ["pkg.", "signer.", "cache.", "network.", "disk.", "claim."]

/-- What `canonicalize_row` raises: an `AuditRowValidationError`, or the `TypeError` of a value
that has no hash. -/
inductive RowError where
  | unknownField (name : String)
  | missingField (name : String)
  | unhashable
  | notOneOf (field : String) (allowed : List String)
  | notString (field : String)
  | noNamespace (reasonCode : String)
  | notUuid (field value : String)
  | uuidVersion (field : String) (expected : Nat) (got : Option Nat)
  | tsShape (ts : String)
  | tsInvalid (ts : String)
  | notSha256Hex (field value : String)
  | hashesWithoutDivergence
  | divergenceWithoutHashes
  | reasonWithoutError
  | errorWithoutReason
  | emptyField (name : String)
  deriving DecidableEq

/-- Construct it with `canonicalizeRow`; nothing keeps others from constructing it directly. -/
structure AuditRow where
  data : Dict Json

/-! ## The checks -/

def validateRequired (row : Dict Json) : Except RowError Unit :=
  match requiredFields.find? fun name => !row.contains name with
  | some name => .error (.missingField name)
  | none => .ok ()

/-- `row.get(field) not in allowed`, with `allowed` a set. -/
def validateEnum (field : String) (allowed : List String) (row : Dict Json) :
    Except RowError Unit :=
  match row.get? field with
  | some (.str value) => if value ∈ allowed then .ok () else .error (.notOneOf field allowed)
  | some (.arr _) | some (.obj _) => .error .unhashable
  | _ => .error (.notOneOf field allowed)

def validateOutcome : Dict Json → Except RowError Unit := validateEnum "outcome" outcomeValues

def validateSource : Dict Json → Except RowError Unit := validateEnum "source" sourceValues

def validateReasonCode (row : Dict Json) : Except RowError Unit :=
  match row.get? "reason_code" with
  | none | some .null => .ok ()
  | some (.str code) =>
    if reasonCodePrefixes.any fun prefix_ => code.startsWith prefix_ then .ok ()
    else .error (.noNamespace code)
  | some _ => .error (.notString "reason_code")

/-- `row.get(field, "")`, which must be a string. -/
def textField (row : Dict Json) (field : String) : Except RowError String :=
  match row.get? field with
  | none => .ok ""
  | some (.str value) => .ok value
  | some _ => .error (.notString field)

/-- A UUID of one version, or the empty string. -/
def validateUuid (py : PyText) (row : Dict Json) (field : String) (version : Nat) :
    Except RowError Unit := do
  let value ← textField row field
  if value = "" then .ok ()
  else
    match py.uuidInt value with
    | none => .error (.notUuid field value)
    | some uuid =>
      if uuidVersion uuid = some version then .ok ()
      else .error (.uuidVersion field version (uuidVersion uuid))

def validateTs (py : PyText) (row : Dict Json) : Except RowError Unit := do
  let ts ← textField row "ts"
  if ts = "" then .ok ()
  else if ts.length ≠ 20 ∨ ¬ ts.endsWith "Z" then .error (.tsShape ts)
  else if py.strptime ts then .ok ()
  else .error (.tsInvalid ts)

/-- `re.match` of `^[0-9a-f]{64}$`, whose `$` also stands before a newline at the end. -/
def matchesSha256Hex (value : String) : Bool :=
  isSha256Hex value ||
    (value.endsWith "\n" && isSha256Hex (String.ofList value.toList.dropLast))

/-- `_validate_sha256_hex`. -/
def validateSha256Hex (field : String) : Json → Except RowError Unit
  | .str value =>
    if matchesSha256Hex value then .ok () else .error (.notSha256Hex field value)
  | _ => .error (.notString field)

def validateSignerManifestDigest (row : Dict Json) : Except RowError Unit := do
  let digest ← textField row "signer_manifest_digest"
  if digest = "" then .ok () else validateSha256Hex "signer_manifest_digest" (.str digest)

def validateFieldFormats (py : PyText) (row : Dict Json) : Except RowError Unit := do
  let _ ← textField row "session_id"
  let _ ← textField row "signer_id"
  validateUuid py row "claim_id" 7
  validateUuid py row "package_id" 7
  validateUuid py row "envelope_message_id" 4
  validateTs py row
  validateSignerManifestDigest row

/-- A divergence hash, where there is one. -/
def validateDivergenceHash (row : Dict Json) (field : String) : Except RowError Unit :=
  match row.get? field with
  | none | some .null => .ok ()
  | some value => validateSha256Hex field value

def validateDivergenceHashes (row : Dict Json) : Except RowError Unit := do
  validateDivergenceHash row "aphelion_hash"
  validateDivergenceHash row "local_hash"

/-- `row.get("outcome") == outcome`. -/
def hasOutcome (row : Dict Json) (outcome : String) : Bool :=
  match row.get? "outcome" with
  | some (.str value) => value = outcome
  | _ => false

def validateOptionalPairing (row : Dict Json) : Except RowError Unit :=
  let divergence := hasOutcome row "divergence"
  let withReason := hasOutcome row "error" || divergence
  if (row.contains "aphelion_hash" || row.contains "local_hash") && !divergence then
    .error .hashesWithoutDivergence
  else if divergence && !(row.contains "aphelion_hash" && row.contains "local_hash") then
    .error .divergenceWithoutHashes
  else if row.contains "reason_code" && !withReason then .error .reasonWithoutError
  else if withReason && !row.contains "reason_code" then .error .errorWithoutReason
  else .ok ()

/-- A field is empty that must not be. The fields that may belong to the signer, whom an unsigned
package lacks. -/
def isEmptyField (row : Dict Json) (name : String) : Bool :=
  match row.get? name with
  | some (.str value) => value = "" && name ≠ "signer_id" && name ≠ "signer_manifest_digest"
  | _ => false

def validateNonEmpty (row : Dict Json) : Except RowError Unit :=
  match requiredFields.find? (isEmptyField row) with
  | some name => .error (.emptyField name)
  | none => .ok ()

def isNull : Json → Bool
  | .null => true
  | _ => false

/-- `{k: v for k, v in row.items() if v is not None}`. -/
def cleaned (row : Dict Json) : Dict Json := row.filter fun v => !isNull v

/-- The fields outside the schema. -/
def extraFields (row : Dict Json) : List String :=
  row.keys.filter fun name => name ∉ requiredFields ++ optionalFields

/-- The checks of a row without missing values. -/
def validateCleaned (py : PyText) (row : Dict Json) : Except RowError Unit := do
  validateRequired row
  validateOutcome row
  validateSource row
  validateReasonCode row
  validateFieldFormats py row
  validateOptionalPairing row
  validateDivergenceHashes row
  validateNonEmpty row

def canonicalizeRow (py : PyText) (row : Dict Json) : Except RowError AuditRow :=
  match (extraFields row).min? with
  | some name => .error (.unknownField name)
  | none => do
    validateCleaned py (cleaned row)
    return ⟨cleaned row⟩

/-! ## What an accepted row holds -/

/-- The value of a field is a text. -/
def IsText (row : Dict Json) (field : String) : Prop := ∃ value, row.get? field = some (.str value)

/-- A row as the schema has it: texts under all required fields, under optional ones texts or
nothing, and no other fields. -/
structure WellFormed (py : PyText) (row : Dict Json) : Prop where
  fields : ∀ name ∈ row.keys, name ∈ requiredFields ++ optionalFields
  required : ∀ name ∈ requiredFields, IsText row name
  optional : ∀ name ∈ optionalFields, row.get? name = none ∨ IsText row name
  messageId : ∃ value uuid, row.get? "envelope_message_id" = some (.str value) ∧
    py.uuidInt value = some uuid ∧ uuidVersion uuid = some 4
  ts : ∃ value, row.get? "ts" = some (.str value) ∧ value.length = 20 ∧ py.strptime value = true

variable {py : PyText} {row : Dict Json}

theorem contains_of_validateRequired (h : validateRequired row = .ok ()) :
    ∀ name ∈ requiredFields, row.contains name = true := by
  intro name hname
  unfold validateRequired at h
  cases hfind : requiredFields.find? fun name => !row.contains name with
  | some missing => simp [hfind] at h
  | none => simpa using List.find?_eq_none.1 hfind name hname

theorem isText_of_validateEnum {field : String} {allowed : List String}
    (h : validateEnum field allowed row = .ok ()) : IsText row field := by
  unfold validateEnum at h
  split at h
  · exact ⟨_, ‹_›⟩
  · cases h
  · cases h
  · cases h

theorem textField_eq_ok {field value : String} (h : textField row field = .ok value)
    (hfield : row.contains field = true) : row.get? field = some (.str value) := by
  unfold textField at h
  split at h
  · simp_all [Dict.contains]
  · cases h
    assumption
  · cases h

theorem validateUuid_eq_ok {field : String} {version : Nat}
    (h : validateUuid py row field version = .ok ()) :
    ∃ value, textField row field = .ok value ∧
      (value ≠ "" → ∃ uuid, py.uuidInt value = some uuid ∧ uuidVersion uuid = some version) := by
  obtain ⟨value, hvalue, h⟩ := except_bind_eq_ok.1 h
  refine ⟨value, hvalue, fun hne => ?_⟩
  rw [if_neg hne] at h
  split at h
  · cases h
  · rename_i uuid huuid
    split_ifs at h with hversion
    exact ⟨uuid, huuid, hversion⟩

theorem validateTs_eq_ok (h : validateTs py row = .ok ()) :
    ∃ ts, textField row "ts" = .ok ts ∧
      (ts ≠ "" → ts.length = 20 ∧ py.strptime ts = true) := by
  obtain ⟨ts, hts, h⟩ := except_bind_eq_ok.1 h
  refine ⟨ts, hts, fun hne => ?_⟩
  rw [if_neg hne] at h
  split_ifs at h with hshape hparse
  simp only [not_or, not_not] at hshape
  exact ⟨hshape.1, hparse⟩

theorem isText_of_validateDivergenceHash {field : String} (hnull : row.get? field ≠ some .null)
    (h : validateDivergenceHash row field = .ok ()) :
    row.get? field = none ∨ IsText row field := by
  unfold validateDivergenceHash at h
  split at h
  · exact .inl ‹_›
  · exact absurd ‹_› hnull
  · rename_i value _ hvalue
    unfold validateSha256Hex at h
    split at h
    · exact .inr ⟨_, hvalue⟩
    · cases h

theorem isText_of_validateReasonCode (hnull : row.get? "reason_code" ≠ some .null)
    (h : validateReasonCode row = .ok ()) :
    row.get? "reason_code" = none ∨ IsText row "reason_code" := by
  unfold validateReasonCode at h
  split at h
  · exact .inl ‹_›
  · exact absurd ‹_› hnull
  · exact .inr ⟨_, ‹_›⟩
  · cases h

theorem ne_empty_of_validateNonEmpty (h : validateNonEmpty row = .ok ()) {name value : String}
    (hname : name ∈ requiredFields) (hsigner : name ≠ "signer_id" ∧ name ≠ "signer_manifest_digest")
    (hvalue : row.get? name = some (.str value)) : value ≠ "" := by
  unfold validateNonEmpty at h
  split at h
  · cases h
  · rename_i hfind
    have hempty := List.find?_eq_none.1 hfind name hname
    simpa [isEmptyField, hvalue, hsigner] using hempty

theorem get?_cleaned_ne_null {row : Dict Json} (name : String) :
    (cleaned row).get? name ≠ some .null := by
  intro h
  rw [cleaned, Dict.get?_filter, Option.filter_eq_some_iff] at h
  simp [isNull] at h

theorem wellFormed_of_validateCleaned (hnull : ∀ name, row.get? name ≠ some .null)
    (hfields : ∀ name ∈ row.keys, name ∈ requiredFields ++ optionalFields)
    (h : validateCleaned py row = .ok ()) : WellFormed py row := by
  obtain ⟨_, hrequired, h⟩ := except_bind_eq_ok.1 h
  obtain ⟨_, houtcome, h⟩ := except_bind_eq_ok.1 h
  obtain ⟨_, hsource, h⟩ := except_bind_eq_ok.1 h
  obtain ⟨_, hreason, h⟩ := except_bind_eq_ok.1 h
  obtain ⟨_, hformats, h⟩ := except_bind_eq_ok.1 h
  obtain ⟨_, -, h⟩ := except_bind_eq_ok.1 h
  obtain ⟨_, hhashes, hempty⟩ := except_bind_eq_ok.1 h
  obtain ⟨_, haphelion, hlocal⟩ := except_bind_eq_ok.1 hhashes
  obtain ⟨session, hsession, hformats⟩ := except_bind_eq_ok.1 hformats
  obtain ⟨signer, hsigner, hformats⟩ := except_bind_eq_ok.1 hformats
  obtain ⟨_, hclaim, hformats⟩ := except_bind_eq_ok.1 hformats
  obtain ⟨_, hpackage, hformats⟩ := except_bind_eq_ok.1 hformats
  obtain ⟨_, hmessage, hformats⟩ := except_bind_eq_ok.1 hformats
  obtain ⟨_, hts, hdigest⟩ := except_bind_eq_ok.1 hformats
  obtain ⟨digest, hdigest, -⟩ := except_bind_eq_ok.1 hdigest
  obtain ⟨claim, hclaim, -⟩ := validateUuid_eq_ok hclaim
  obtain ⟨package, hpackage, -⟩ := validateUuid_eq_ok hpackage
  obtain ⟨message, hmessage, huuid⟩ := validateUuid_eq_ok hmessage
  obtain ⟨ts, hts, hformat⟩ := validateTs_eq_ok hts
  have hcontains := contains_of_validateRequired hrequired
  have htext {field value : String} (hfield : field ∈ requiredFields)
      (hvalue : textField row field = .ok value) : row.get? field = some (.str value) :=
    textField_eq_ok hvalue (hcontains field hfield)
  have hmessage := htext (by decide) hmessage
  have hts := htext (by decide) hts
  refine ⟨hfields, ?_, ?_, ?_, ?_⟩
  · intro name hname
    simp only [requiredFields, List.mem_cons, List.not_mem_nil, or_false] at hname
    obtain rfl | rfl | rfl | rfl | rfl | rfl | rfl | rfl | rfl := hname
    · exact ⟨claim, htext (by decide) hclaim⟩
    · exact ⟨message, hmessage⟩
    · exact isText_of_validateEnum houtcome
    · exact ⟨package, htext (by decide) hpackage⟩
    · exact ⟨session, htext (by decide) hsession⟩
    · exact ⟨signer, htext (by decide) hsigner⟩
    · exact ⟨digest, htext (by decide) hdigest⟩
    · exact isText_of_validateEnum hsource
    · exact ⟨ts, hts⟩
  · intro name hname
    simp only [optionalFields, List.mem_cons, List.not_mem_nil, or_false] at hname
    obtain rfl | rfl | rfl := hname
    · exact isText_of_validateDivergenceHash (hnull _) haphelion
    · exact isText_of_validateDivergenceHash (hnull _) hlocal
    · exact isText_of_validateReasonCode (hnull _) hreason
  · obtain ⟨uuid, hint, hversion⟩ :=
      huuid (ne_empty_of_validateNonEmpty hempty (by decide) (by decide) hmessage)
    exact ⟨message, uuid, hmessage, hint, hversion⟩
  · exact ⟨ts, hts, hformat (ne_empty_of_validateNonEmpty hempty (by decide) (by decide) hts)⟩

/-- What is accepted is the row without its missing values, and well formed. -/
theorem canonicalizeRow_wellFormed {r : AuditRow} (h : canonicalizeRow py row = .ok r) :
    r = ⟨cleaned row⟩ ∧ WellFormed py r.data := by
  unfold canonicalizeRow at h
  split at h
  · cases h
  · rename_i hextra
    obtain ⟨_, hvalid, hr⟩ := except_bind_eq_ok.1 h
    obtain rfl : (⟨cleaned row⟩ : AuditRow) = r := by simpa [pure, Except.pure] using hr
    refine ⟨rfl, wellFormed_of_validateCleaned get?_cleaned_ne_null ?_ hvalid⟩
    intro name hname
    have hname : name ∈ row.keys := (List.filter_sublist.map Prod.fst).subset hname
    by_contra hout
    have hmem : name ∈ extraFields row := List.mem_filter.2 ⟨hname, by simpa using hout⟩
    simp [List.min?_eq_none_iff.1 hextra] at hmem

theorem cleaned_cleaned (row : Dict Json) : cleaned (cleaned row) = cleaned row := by
  simp [cleaned, Dict.filter, List.filter_filter]

/-- An accepted row is accepted again. -/
theorem canonicalizeRow_idempotent {r : AuditRow} (h : canonicalizeRow py row = .ok r) :
    canonicalizeRow py r.data = .ok r := by
  obtain ⟨hr, hwf⟩ := canonicalizeRow_wellFormed h
  subst hr
  have hextra : extraFields (cleaned row) = [] := by
    refine List.filter_eq_nil_iff.2 fun name hname => ?_
    simpa [or_iff_not_imp_left] using hwf.fields name hname
  unfold canonicalizeRow at h ⊢
  simp only [hextra, List.min?_nil, cleaned_cleaned]
  split at h
  · cases h
  · exact h

end ParallaxKernel.Apex
