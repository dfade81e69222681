import ParallaxKernel.Lib.Float
import ParallaxKernel.Store.Ingest

/-!
# Ingesting through the memory router

`router/normalize.py` and `RealMemoryRouter.ingest` of `router/real_adapter.py`. A payload is a
mapping of dynamically typed values, here the JSON values. Lean's strings hold no lone surrogates,
so the encoding test of `_first_non_empty` always passes. `float(n)` of an integer is the parameter
`toFloat`.
-/

namespace ParallaxKernel.Router

open Lib Store Prog

/-! ## Normalisation -/

/-- `type(value).__name__`. -/
def typeName : Json → String
  | .null => "NoneType"
  | .bool _ => "bool"
  | .int _ => "int"
  | .float _ => "float"
  | .str _ => "str"
  | .arr _ => "list"
  | .obj _ => "dict"

def nonStr (field key : String) (value : Json) : Exc :=
  .valueError (field ++ ": alias " ++ pyRepr key ++ " resolved to non-str value of type " ++
    typeName value ++ "; explicit str required")

/-- The loop of `_first_non_empty`: the first key that holds a non-empty text. -/
def firstNonEmpty? (payload : List (String × Json)) (field : String) :
    List String → Except Exc (Option String)
  | [] => .ok none
  | key :: keys =>
    match Json.member? key payload with
    | none | some .null => firstNonEmpty? payload field keys
    | some (.str value) =>
      if value = "" then firstNonEmpty? payload field keys else .ok (some value)
    | some value => .error (nonStr field key value)

def missingField (field : String) (keys : List String) : Exc :=
  .valueError (field ++ ": required field missing — none of " ++ pyReprList keys ++
    " resolved to a non-empty str in payload")

/-- `_first_non_empty` without a default. -/
def firstNonEmpty (payload : List (String × Json)) (keys : List String) (field : String) :
    Except Exc String := do
  match ← firstNonEmpty? payload field keys with
  | some value => .ok value
  | none => .error (missingField field keys)

/-- `_first_non_empty` with a default. -/
def firstNonEmptyOr (payload : List (String × Json)) (keys : List String) (field : String)
    (default : Option String) : Except Exc (Option String) := do
  match ← firstNonEmpty? payload field keys with
  | some value => .ok (some value)
  | none => .ok default

/-- `repr` of a float. -/
def floatRepr : PyFloat → String
  | .finite lit => String.ofList lit.chars
  | .inf => "inf"
  | .negInf => "-inf"
  | .nan => "nan"

def isFinite : PyFloat → Bool
  | .finite _ => true
  | _ => false

variable (toFloat : Int → Except Exc PyFloat)

/-- `_coerce_optional_float`. -/
def coerceOptionalFloat (value : Option Json) (field : String) : Except Exc (Option PyFloat) :=
  let finite (shown : String) (x : PyFloat) : Except Exc (Option PyFloat) :=
    if isFinite x then .ok (some x)
    else .error <| .valueError (field ++ ": non-finite float " ++ shown ++
      " not accepted (NaN / inf cannot be persisted)")
  match value with
  | none | some .null => .ok none
  | some (.bool _) => .error (.valueError (field ++ ": bool not accepted; use float or None"))
  | some (.int n) => do finite (toString n) (← toFloat n)
  | some (.float x) => finite (floatRepr x) x
  | some value =>
    .error (.valueError (field ++ ": expected float|int|None, got " ++ typeName value))

/-! ## The adapter -/

def memoryBodyKeys : List String :=
  ["body", "object_", "object", "payload_text", "text", "summary", "description"]

def memoryTitleKeys : List String := ["title", "name"]

def claimObjectKeys : List String :=
  ["object_", "object", "body", "payload_text", "text", "summary"]

def claimSubjectKeys : List String := ["subject", "entity", "name"]

def claimPredicateKeys : List String := ["predicate", "event_type"]

structure IngestRequest where
  userId : String
  kind : String
  payload : Json
  sourceId : Option String

structure IngestResult where
  kind : String
  identifier : String
  deduped : Bool

def unsupportedKind (kind : String) : Exc :=
  .valueError ("unsupported ingest kind " ++ pyRepr kind ++ "; expected 'memory' or 'claim'")

/-- The arguments that a memory payload is ingested with. -/
def memoryArgs (userId : String) (sourceId : Option String) (payload : List (String × Json)) :
    Except Exc MemoryArgs := do
  let body ← firstNonEmpty payload memoryBodyKeys "memory.body"
  let vaultPath ← firstNonEmpty payload ["vault_path"] "memory.vault_path"
  let title ← firstNonEmptyOr payload memoryTitleKeys "memory.title" none
  .ok ⟨userId, title, some body, vaultPath, sourceId⟩

def inUnitInterval (x : PyFloat) : Bool := (PyFloat.le (Json.ofInt 0) x) && x.le (Json.ofInt 1)

def checkedConfidence : Option PyFloat → Except Exc (Option PyFloat)
  | none => .ok none
  | some x =>
    if inUnitInterval x then .ok (some x)
    else .error (.valueError ("claim.confidence must be in [0, 1], got " ++ floatRepr x))

/-- `payload.get("state", "auto")`, a text. -/
def claimState (payload : List (String × Json)) : Except Exc String :=
  match (Json.member? "state" payload).getD (.str "auto") with
  | .str state => .ok state
  | value => .error (.valueError ("claim.state must be a str, got " ++ pyRepr (typeName value)))

/-- The arguments that a claim payload is ingested with. -/
def claimArgs (userId : String) (sourceId : Option String) (payload : List (String × Json)) :
    Except Exc ClaimArgs := do
  let subject ← firstNonEmpty payload claimSubjectKeys "claim.subject"
  let predicate ← firstNonEmpty payload claimPredicateKeys "claim.predicate"
  let object ← firstNonEmpty payload claimObjectKeys "claim.object_"
  let confidence ← coerceOptionalFloat toFloat (Json.member? "confidence" payload)
    "claim.confidence"
  let confidence ← checkedConfidence confidence
  let state ← claimState payload
  .ok ⟨userId, subject, predicate, object, sourceId, confidence, state⟩

variable (D : Digest)

/-- `RealMemoryRouter.ingest`. -/
def ingest (request : IngestRequest) (d : Draws) : Sql IngestResult :=
  if request.kind ∉ ["memory", "claim"] then raise (unsupportedKind request.kind)
  else match request.payload with
  | .obj payload =>
    if request.kind = "memory" then do
      let args ← done (memoryArgs request.userId request.sourceId payload)
      let r ← ingestMemoryWithStatus D args d
      pure ⟨"memory", r.1, r.2⟩
    else do
      let args ← done (claimArgs toFloat request.userId request.sourceId payload)
      let r ← ingestClaimWithStatus D args d
      pure ⟨"claim", r.1, r.2⟩
  | payload => raise (.valueError ("payload must be a Mapping, got " ++ pyRepr (typeName payload)))

/-! ## What normalisation makes of a payload -/

variable {toFloat}

theorem firstNonEmpty?_str {payload : List (String × Json)} {field key value : String}
    {keys : List String} (hkey : Json.member? key payload = some (.str value)) :
    firstNonEmpty? payload field (key :: keys) =
      if value = "" then firstNonEmpty? payload field keys else .ok (some value) := by
  simp only [firstNonEmpty?, hkey]

/-- Keys that the payload does not have are passed over. -/
theorem firstNonEmpty?_absent {payload : List (String × Json)} {field : String}
    {keys : List String} (habsent : ∀ key ∈ keys, Json.member? key payload = none) :
    firstNonEmpty? payload field keys = .ok none := by
  induction keys with
  | nil => rfl
  | cons key keys ih =>
    rw [firstNonEmpty?, habsent key List.mem_cons_self]
    exact ih fun k hk => habsent k (List.mem_cons_of_mem _ hk)

/-- A payload with one of the keys, the first: its value counts unless it is missing or empty. -/
theorem firstNonEmpty?_option {payload : List (String × Json)} {field key : String}
    {keys : List String} {value : Option String}
    (hkey : Json.member? key payload = some (jsonOption value))
    (habsent : ∀ key ∈ keys, Json.member? key payload = none) :
    firstNonEmpty? payload field (key :: keys) = .ok (value.filter (· ≠ "")) := by
  cases value with
  | none =>
    simp only [firstNonEmpty?, hkey, jsonOption]
    exact firstNonEmpty?_absent habsent
  | some value =>
    rw [firstNonEmpty?_str hkey, firstNonEmpty?_absent habsent]
    by_cases hvalue : value = "" <;> simp [hvalue, Option.filter_some]

/-- The first key counts if it has a non-empty text. -/
theorem firstNonEmpty_str {payload : List (String × Json)} {field key : String}
    {keys : List String} (value : String) (hkey : Json.member? key payload = some (.str value))
    (hvalue : value ≠ "") : firstNonEmpty payload (key :: keys) field = .ok value := by
  simp [firstNonEmpty, firstNonEmpty?_str hkey, hvalue, bind, Except.bind]

theorem firstNonEmpty_option {payload : List (String × Json)} {field key : String}
    {keys : List String} (value : Option String)
    (hkey : Json.member? key payload = some (jsonOption value))
    (habsent : ∀ key ∈ keys, Json.member? key payload = none) :
    firstNonEmpty payload (key :: keys) field =
      match value.filter (· ≠ "") with
      | some value => .ok value
      | none => .error (missingField field (key :: keys)) := by
  simp only [firstNonEmpty, firstNonEmpty?_option hkey habsent, bind, Except.bind]

theorem firstNonEmptyOr_option {payload : List (String × Json)} {field key : String}
    {keys : List String} (value : Option String)
    (hkey : Json.member? key payload = some (jsonOption value))
    (habsent : ∀ key ∈ keys, Json.member? key payload = none) :
    firstNonEmptyOr payload (key :: keys) field none = .ok (value.filter (· ≠ "")) := by
  simp only [firstNonEmptyOr, firstNonEmpty?_option hkey habsent, bind, Except.bind]
  cases value.filter (· ≠ "") <;> rfl

end ParallaxKernel.Router
