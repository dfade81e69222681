import ParallaxKernel.Lib.Float
import ParallaxKernel.Session.Retrieve
import ParallaxKernel.Store.Ingest

/-!
# Ingesting hooks

`hooks.py`, and `record_event` for payloads of any JSON shape. A payload is stored as it comes:
nothing looks into it but the link of a `file.edit` event to the memory of its file.
-/

namespace ParallaxKernel.Session

open Lib Store Prog

/-! ## Reading payloads -/

def typeName : PyJson → String
  | .null => "NoneType"
  | .bool _ => "bool"
  | .int _ => "int"
  | .float _ => "float"
  | .str _ => "str"
  | .arr _ => "list"
  | .obj _ => "dict"

/-- `bool(value)`. -/
def truthy : PyJson → Bool
  | .null => false
  | .bool b => b
  | .int n => n != 0
  | .float (.finite lit) => lit.value != 0
  | .float _ => true
  | .str s => !s.isEmpty
  | .arr xs => !xs.isEmpty
  | .obj ms => !ms.isEmpty

/-- `a or b`. -/
def orElse (a b : PyJson) : PyJson := if truthy a then a else b

/-- `value.get(key)`. -/
def get (value : PyJson) (key : String) : Except Exc PyJson :=
  match value with
  | .obj ms => .ok ((PyJson.member? (.ofString key) ms).getD .null)
  | v => .error (.attributeError ("'" ++ typeName v ++ "' object has no attribute 'get'"))

/-- The path of the file that a tool was called with, falsy if there is none. -/
def filePath (payload : PyJson) : Except Exc PyJson := do
  let toolInput ← get payload "tool_input"
  let toolInput := orElse toolInput (.obj [])
  let p ← get toolInput "file_path"
  if truthy p then .ok p
  else do
    let p ← get toolInput "path"
    if truthy p then .ok p else get payload "file_path"

/-! ## Recording -/

/-- `record_event`, with the row that it inserts. -/
def recordRow (a : EventArgs) (row : Event) : Sql String :=
  if a.targetKind.isNone != a.targetId.isNone then
    raise (unpaired a)
  else
    match a.checkedTarget with
    | none => do
      insertEvent row
      pure row.eventId
    | some (kind, id) => do
      let found ← targetRefExists kind id (some a.userId)
      if found then
        insertEvent row
        pure row.eventId
      else
        raise (orphanRejected kind id)

theorem recordRow_event (a : EventArgs) (stamp : Stamp) :
    recordRow a (a.event stamp) = recordEvent a stamp := rfl

/-- `record_event` for the given payload. -/
def recordPayload (a : EventArgs) (payload : List (PyStr × PyJson)) (stamp : Stamp) : Sql String :=
  recordRow a { a.event stamp with payloadJson := PyJson.dumpsSorted (.obj payload) }

/-! ## Hooks -/

/-- `HOOK_TO_EVENT_TYPE`. -/
def hookToEventType : List (String × String) :=
  [("SessionStart", "session.start"), ("SessionEnd", "session.stop"), ("Stop", "session.stop"),
    ("UserPromptSubmit", "prompt.submit")]

/-- The functions on texts and the order of a scan that an ingest goes by. -/
structure HookEnv where
  digest : Digest
  /-- `str(value)`. -/
  str : PyJson → PyStr
  /-- `str.lower`. -/
  lower : PyStr → PyStr
  /-- `repr` of a string. -/
  repr : PyStr → String
  /-- `LIKE … ESCAPE '\'` with the pattern first. -/
  like : String → String → Bool
  /-- The order in which a `SELECT` without `ORDER BY` finds rows. -/
  scan : List Memory → List Memory
  scan_perm : ∀ rows, (scan rows).Perm rows

/-- `str.strip()`. -/
def stripText (s : PyStr) : PyStr :=
  let blank (c : PyChar) : Bool := c.scalar?.any isPySpace
  ((s.dropWhile blank).reverse.dropWhile blank).reverse

variable (T : HookEnv)

/-- `_file_edit_event_type`. -/
def fileEditEventType (hookType : String) (toolName : PyStr) : PyStr :=
  let tool := T.lower toolName
  let edits := ["edit", "write", "multiedit"].map PyStr.ofString
  if hookType = "PostToolUse" ∧ tool ∈ edits then .ofString "file.edit"
  else if tool = .ofString "bash" then .ofString "tool.bash"
  else if tool = .ofString "edit" ∨ tool = .ofString "multiedit" then .ofString "tool.edit"
  else if tool = .ofString "write" then .ofString "tool.write"
  else .ofString "tool." ++ if tool = [] then .ofString "unknown" else tool

/-- `vault_path = ? OR vault_path LIKE ? ESCAPE '\'` with `LIMIT 1` over the rows that a scan comes
by. The pattern is looked at only for a row with another path. -/
def firstLinked (path pattern : String) : List Memory → Except Exc (Option Memory)
  | [] => .ok none
  | m :: rows =>
    if m.vaultPath = path then .ok (some m)
    else if tooComplex pattern then .error patternTooComplex
    else if T.like pattern m.vaultPath then .ok (some m)
    else firstLinked path pattern rows

/-- `_resolve_target_for_file`. -/
def resolveTargetForFile (userId : String) (path : PyStr) :
    Sql (Option String × Option String) :=
  if path = [] then pure (none, none)
  else do
    let path ← done (bindText path)
    let pattern := PyStr.ofString "%" ++ likeEscape (.ofString path)
    let pattern ← done (bindText pattern)
    let rows ← query fun db => T.scan (db.memories.filter (·.userId == userId))
    let found ← done (firstLinked T path pattern rows)
    match found with
    | none => pure (none, none)
    | some m => pure (some "memory", some m.memoryId)

/-- `_hash_path`. -/
def hashPath (path : String) : String :=
  String.ofList ((T.digest.sha256 path).toList.take 16)

/-- The arguments of `ingest_hook`. -/
structure HookArgs where
  hookType : String
  sessionId : PyStr
  payload : PyJson
  userId : String
  actor : String

/-- The event that a hook is recorded as. -/
def HookArgs.event (a : HookArgs) (eventType sessionId : String)
    (target : Option String × Option String) : EventArgs where
  userId := a.userId
  actor := a.actor
  eventType := eventType
  targetKind := target.1
  targetId := target.2
  payload := none
  approvalTier := none
  sessionId := some sessionId

def recordHook (a : HookArgs) (eventType : PyStr) (target : Option String × Option String)
    (payload : List (PyStr × PyJson)) (stamp : Stamp) : Sql String := do
  let eventType ← done (bindText eventType)
  let sessionId ← done (bindText a.sessionId)
  recordPayload (a.event eventType sessionId target) payload stamp

/-- A file edit: its target, and the payload with a fingerprint of the path. -/
def ingestFileEdit (a : HookArgs) (payload : List (PyStr × PyJson)) (stamp : Stamp) :
    Sql String := do
  let p ← done (filePath (.obj payload))
  let path := if truthy p then T.str p else []
  let target ← resolveTargetForFile T a.userId path
  let fingerprint ← done (bindText path)
  let key := PyStr.ofString "_path_sha16"
  let marked := payload.filter (·.1 ≠ key) ++ [(key, .str (.ofString (hashPath T fingerprint)))]
  recordHook a (.ofString "file.edit") target
    (if truthy p ∧ target.2 = none then marked else payload) stamp

def ingestHook (a : HookArgs) (stamp : Stamp) : Sql String :=
  if a.hookType = "" then
    raise (.valueError "ingest_hook: missing required field 'hook_type'")
  else if a.sessionId = [] then
    raise (.valueError "ingest_hook: missing required field 'session_id'")
  else
    match a.payload with
    | .obj payload =>
      match hookToEventType.lookup a.hookType with
      | some eventType => recordHook a (.ofString eventType) (none, none) payload stamp
      | none =>
        if a.hookType = "PreToolUse" ∨ a.hookType = "PostToolUse" then
          let name := (PyJson.member? (.ofString "tool_name") payload).getD (.str [])
          let toolName := stripText (T.str name)
          if toolName = [] then
            raise (.valueError ("ingest_hook: " ++ a.hookType ++
              " payload missing required field 'tool_name'"))
          else
            let eventType := fileEditEventType T a.hookType toolName
            if eventType = .ofString "file.edit" then ingestFileEdit T a payload stamp
            else recordHook a eventType (none, none) payload stamp
        else
          raise (.valueError ("ingest_hook: unknown hook_type " ++ pyRepr a.hookType))
    | v =>
      raise (.valueError ("ingest_hook: payload must be a mapping, got " ++ typeName v))

def missingField (key : String) : Exc :=
  .valueError ("ingest_from_json: missing required field " ++ pyRepr key)

def ingestFromJson (userId rawJson actor : String) (stamp : Stamp) : Sql String :=
  match PyJson.loads rawJson with
  | none => raise (.valueError "ingest_from_json: invalid JSON")
  | some (.obj env) =>
    match PyJson.member? (.ofString "hook_event_name") env with
    | none => raise (missingField "hook_event_name")
    | some hookType =>
      match PyJson.member? (.ofString "session_id") env with
      | none => raise (missingField "session_id")
      | some sessionId =>
        let payload := match (PyJson.member? (.ofString "payload") env).getD (.obj []) with
          | .obj ms => PyJson.obj ms
          | v => .obj [(.ofString "raw", v)]
        match (T.str hookType).encode? with
        | none => raise (.valueError ("ingest_hook: unknown hook_type " ++ T.repr (T.str hookType)))
        | some hookType => ingestHook T ⟨hookType, T.str sessionId, payload, userId, actor⟩ stamp
  | some _ => raise (.valueError "ingest_from_json: envelope must be a JSON object")

/-! ### An environment in which no pattern matches -/

def sampleEnv : HookEnv where
  digest := .listed []
  str
    | .str s => s
    | _ => []
  lower s := s.map fun
    | .scalar c => .scalar c.toLower
    | c => c
  repr _ := ""
  like _ _ := false
  scan := id
  scan_perm _ := .refl _

def sampleStamp : Stamp := ⟨"01J0", "2026-04-21T00:00:00.000000+00:00"⟩

end ParallaxKernel.Session
