import ParallaxKernel.Lib.JsonPlain
import ParallaxKernel.Lib.KeyedList
import ParallaxKernel.Lib.PyJson

/-!
# Redacted log records

`obs/log.py`. What a call of `safe_log_warning` or `safe_log_error` writes depends on a text that is
neither allowlisted nor in the vocabulary through its digest and its length only.
-/

namespace ParallaxKernel.Obs

open Lib

/-! ## Vocabularies -/

/-- `_RESERVED`: the attributes of every record. -/
def reserved : List PyStr :=
  ["name", "msg", "args", "levelname", "levelno", "pathname", "filename", "module", "exc_info",
    "exc_text", "stack_info", "lineno", "funcName", "created", "msecs", "relativeCreated", "thread",
    "threadName", "processName", "process", "message", "asctime", "taskName"].map .ofString

/-- `_SAFE_STR_KEYS`. -/
def safeStrKeys : List PyStr :=
  ["arbitration_outcome", "conflict_event_id", "correlation_id", "crosswalk_status",
    "envelope_message_id", "event", "exc_class", "outcome", "policy_version", "query_type",
    "schema_version", "selected_port", "traffic_source", "unreachable_reason",
    "winning_source"].map .ofString

/-- `_IDENTIFIER_STR_KEYS`. -/
def identifierStrKeys : List PyStr := [.ofString "user_id"]

/-- `_MAX_SAFE_STR_LEN`. -/
def maxSafeStrLen : Nat := 200

/-- `_APHELION_UNREACHABLE_REASONS`. -/
def aphelionUnreachableReasons : List PyStr :=
  ["audit_db_integrity_error", "audit_db_usage_error", "audit_db_write_failed", "audit_row_invalid",
    "audit_write_order_violation", "claim_loader_error", "claim_schema_error",
    "envelope_checksum_mismatch", "package_corrupt", "package_dir_inaccessible", "lib_error",
    "package_missing", "signer_untrusted", "unsigned_package"].map .ofString

/-- `_RESERVED_APHELION_REASONS`. -/
def reservedAphelionReasons : List PyStr :=
  ["timeout", "connection_error", "unsafe_archive", "http_5xx", "tls_fail"].map .ofString

/-- The type of `_MESSAGE_SAFE_EXC_TYPES`, whose tag is the attribute `reason`. -/
def messageSafeExcType : PyStr :=
  .ofString "parallax.router.aphelion_adapter.AphelionUnreachableError"

/-- `_KNOWN_EVENT_NAMES`. -/
def knownEventNames : List PyStr :=
  ["audit_db_integrity_error", "audit_db_usage_error", "audit_db_write_failed",
    "audit_write_order_violation", "breaker_is_tripped_check_failed", "breaker_record_failed",
    "conflict_event_write_failed", "decision_log_append_failed",
    "dual_read_override_missing_with_tripped_breaker", "live_counter_record_failed",
    "record_dual_read_outcome_failed", "secondary_hits_equal_failed",
    "secondary_unexpected_exception", "dual_read_decision_log.append_failed",
    "shadow_log_write_failed", "shadow_query_error"].map .ofString

/-- `UNSAFE_EVENT_NAME`. -/
def unsafeEventName : PyStr := .ofString "unsafe_event_name"

/-! ## Calls -/

/-- A value that is handed to a call. -/
inductive Arg where
  | none
  | bool (b : Bool)
  | int (n : Int)
  | float (x : PyFloat)
  | str (s : PyStr)
  /-- Any other object, with what `str` makes of it; nothing where that raises. -/
  | other (rendered : Option PyStr)

/-- An exception: the name and the dotted name of its type, its attribute `reason` where it has one,
and what `str` makes of it. -/
structure Exc where
  name : PyStr
  typeName : PyStr
  reason : Option Arg
  rendered : Option PyStr

/-- The arguments after the logger. Those given by keyword have other names than the parameters. -/
structure Call where
  event : Arg
  exc : Option Exc
  extras : List (PyStr × Arg)
  nodup : (extras.map Prod.fst).Nodup
  params : ∀ key ∈ extras.map Prod.fst, key ∉ ["logger", "event", "exc"].map PyStr.ofString

inductive Method where
  | warning
  | error

/-- `record.levelname`. -/
def Method.levelname : Method → PyStr
  | .warning => .ofString "WARNING"
  | .error => .ofString "ERROR"

/-- A logger with a handler that formats with `JSONFormatter`. -/
structure Logger where
  name : PyStr
  isEnabledFor : Method → Bool

/-- A value in a record. -/
inductive LogValue where
  | none
  | bool (b : Bool)
  | int (n : Int)
  | float (x : PyFloat)
  | str (s : PyStr)

abbrev Fields := List (PyStr × LogValue)

/-- `d[key] = value`. -/
def assign (d : Fields) (key : PyStr) (value : LogValue) : Fields :=
  if key ∈ d.map Prod.fst then updateKey Prod.fst key (fun _ => (key, value)) d
  else d ++ [(key, value)]

/-- `d.update(e)`. -/
def update (d e : Fields) : Fields := e.foldl (fun d m => assign d m.1 m.2) d

section Policy

/-- The texts that the digest tells apart, and the digits of an integer that is written. -/
structure Platform where
  /-- The first twelve characters of the sha256 of a text. -/
  digest : PyStr → PyStr
  maxDigits : Nat

variable (P : Platform)

/-- `str(n)`; nothing where it raises. -/
def Platform.intText (n : Int) : Option PyStr :=
  if P.maxDigits ≠ 0 ∧ P.maxDigits < (Json.natChars n.natAbs).length then .none
  else some (.ofChars (Json.intChars n))

/-- `str(x)` of a float. -/
def floatText : PyFloat → PyStr
  | .finite lit => .ofChars lit.chars
  | .inf => .ofString "inf"
  | .negInf => .ofString "-inf"
  | .nan => .ofString "nan"

/-- `_render`. -/
def render : Arg → PyStr
  | .none => .ofString "None"
  | .bool true => .ofString "True"
  | .bool false => .ofString "False"
  | .int n => (P.intText n).getD []
  | .float x => floatText x
  | .str s => s
  | .other rendered => rendered.getD []

/-- The digest and the length of a text. -/
def fingerprint (text : PyStr) : PyStr × Nat := (P.digest text, text.length)

/-- `_redact`. -/
def redact (value : Arg) : PyStr :=
  let (digest, length) := fingerprint P (render P value)
  .ofString "<redacted:sha256=" ++ digest ++ .ofString ",len=" ++ .ofChars (Json.natChars length) ++
    .ofString ">"

/-- The tag of an exception that may be emitted. -/
def safeTag (exc : Exc) : Option PyStr :=
  if exc.typeName = messageSafeExcType then
    match exc.reason with
    | some (.str tag) =>
      if tag ∈ aphelionUnreachableReasons ++ reservedAphelionReasons then some tag else .none
    | _ => .none
  else .none

/-- `exc_fields`. -/
def excFields (exc : Exc) : Fields :=
  let fields := [(PyStr.ofString "exc_class", LogValue.str exc.name)]
  match safeTag exc with
  | some tag => fields ++ [(.ofString "exc_tag", .str tag)]
  | .none =>
    let (digest, length) := fingerprint P (render P (.other exc.rendered))
    fields ++ [(.ofString "exc_digest", .str digest), (.ofString "exc_len", .int length)]

/-- A text that passes under its key. -/
def isAllowed (key s : PyStr) : Bool :=
  (decide (key ∈ safeStrKeys) || decide (key ∈ identifierStrKeys)) &&
    decide (s.length ≤ maxSafeStrLen)

/-- One entry of `sanitize_log_extras`. -/
def sanitize (key : PyStr) : Arg → LogValue
  | .none => .none
  | .bool b => .bool b
  | .int n => .int n
  | .float x => .float x
  | .str s => if isAllowed key s then .str s else .str (redact P (.str s))
  | .other rendered => .str (redact P (.other rendered))

/-- `sanitize_log_extras`. -/
def sanitizeLogExtras (extras : List (PyStr × Arg)) : Fields :=
  extras.map fun m => (m.1, sanitize P m.1 m.2)

/-- `_safe_event_name`. -/
def safeEventName (event : Arg) : PyStr × Fields :=
  let eventFields := [(PyStr.ofString "unsafe_event", LogValue.str (redact P event))]
  match event with
  | .str s => if s ∈ knownEventNames then (s, []) else (unsafeEventName, eventFields)
  | _ => (unsafeEventName, eventFields)

/-! ## Emission -/

/-- `logger.makeRecord` with `extra`; nothing where it raises `KeyError`. -/
def makeRecord (extra : Fields) : Option Fields :=
  if extra.any fun m => decide (m.1 ∈ reserved) then .none else some extra

/-- The members that `JSONFormatter.format` collects; `ts` is the time of the record. -/
def payload (logger : Logger) (method : Method) (msg ts : PyStr) (extra : Fields) : Fields :=
  update [(.ofString "ts", .str ts), (.ofString "level", .str method.levelname),
      (.ofString "logger", .str logger.name), (.ofString "msg", .str msg)]
    (extra.filter fun m => m.1 ∉ reserved ∧ m.1.head? ≠ some (.scalar '_'))

/-- One character of a text, written with `ensure_ascii=False`. -/
def escapePlain : PyChar → PyStr
  | .scalar c => .ofChars (Json.plainChar c)
  | .lone unit => [.lone unit]

/-- A text, written with `ensure_ascii=False`. -/
def quotePlain (s : PyStr) : PyStr :=
  .scalar '"' :: s.flatMap escapePlain ++ [.scalar '"']

/-- A value, written; nothing where an integer has too many digits. -/
def LogValue.dumps : LogValue → Option PyStr
  | .none => some (.ofString "null")
  | .bool true => some (.ofString "true")
  | .bool false => some (.ofString "false")
  | .int n => P.intText n
  | .float x => some (.ofChars (Json.floatChars x))
  | .str s => some (quotePlain s)

/-- `json.dumps(payload, ensure_ascii=False, default=str)`. -/
def dumps (d : Fields) : Option PyStr := do
  let members ← d.mapM fun m => do
    let value ← m.2.dumps P
    pure (quotePlain m.1 ++ .ofString ": " ++ value)
  pure (.ofString "\x7b" ++ (PyStr.ofString ", ").intercalate members ++ .ofString "\x7d")

/-- `_safe_log`: the line that is written at the time `ts`, if any. -/
def safeLog (logger : Logger) (method : Method) (call : Call) (ts : PyStr) : Option PyStr :=
  let (eventName, eventFields) := safeEventName P call.event
  let fields := update (sanitizeLogExtras P call.extras) eventFields
  let fields := match call.exc with
    | some exc => update fields (excFields P exc)
    | .none => fields
  if logger.isEnabledFor method then do
    let extra ← makeRecord (update [(.ofString "event", .str eventName)] fields)
    dumps P (payload logger method eventName ts extra)
  else .none

/-- `TypeError`: `_safe_log` got multiple values for the argument `method`. -/
inductive TypeError where
  | multipleValues

/-- The body of both functions. `method` is a parameter of `_safe_log`, and it is bound before the
`try` is entered. -/
def safeLogAt (logger : Logger) (method : Method) (call : Call) (ts : PyStr) :
    Except TypeError (Option PyStr) :=
  if PyStr.ofString "method" ∈ call.extras.map Prod.fst then .error .multipleValues
  else .ok (safeLog P logger method call ts)

def safeLogWarning (logger : Logger) (call : Call) (ts : PyStr) : Except TypeError (Option PyStr) :=
  safeLogAt P logger .warning call ts

def safeLogError (logger : Logger) (call : Call) (ts : PyStr) : Except TypeError (Option PyStr) :=
  safeLogAt P logger .error call ts

/-! ## Calls that agree -/

/-- A value that may be emitted as it is under its key. -/
def IsPublic (key : PyStr) : Arg → Prop
  | .none | .bool _ | .int _ | .float _ => True
  | .str s => isAllowed key s = true
  | .other _ => False

/-- The same value, or two that are redacted and have one fingerprint. -/
inductive ArgAgree (key : PyStr) : Arg → Arg → Prop where
  | same (v : Arg) : ArgAgree key v v
  | redacted {v w : Arg} (hv : ¬ IsPublic key v) (hw : ¬ IsPublic key w)
      (h : fingerprint P (render P v) = fingerprint P (render P w)) : ArgAgree key v w

/-- The event is a name of the vocabulary. -/
def IsKnownEvent (event : Arg) : Prop := ∃ s ∈ knownEventNames, event = .str s

/-- The same event, or two outside the vocabulary with one fingerprint. -/
inductive EventAgree : Arg → Arg → Prop where
  | same (event : Arg) : EventAgree event event
  | redacted {v w : Arg} (hv : ¬ IsKnownEvent v) (hw : ¬ IsKnownEvent w)
      (h : fingerprint P (render P v) = fingerprint P (render P w)) : EventAgree v w

/-- Exceptions of one type with the same allowlisted tag, or with none and one fingerprint of the
message. -/
inductive ExcAgree : Option Exc → Option Exc → Prop where
  | none : ExcAgree .none .none
  | some {e f : Exc} (hname : e.name = f.name) (htype : e.typeName = f.typeName)
      (htag : safeTag e = safeTag f)
      (h : safeTag e = .none → fingerprint P (render P (.other e.rendered)) =
        fingerprint P (render P (.other f.rendered))) : ExcAgree (.some e) (.some f)

/-- Two calls that an observer of the log must not be able to tell apart. -/
structure Agree (a b : Call) : Prop where
  event : EventAgree P a.event b.event
  exc : ExcAgree P a.exc b.exc
  extras : List.Forall₂ (fun m n => m.1 = n.1 ∧ ArgAgree P m.1 m.2 n.2) a.extras b.extras

/-- Neither call raises, and at one time both write the same line. -/
def NonInterfering (logger : Logger) (method : Method) (a b : Call) : Prop :=
  ∀ ts, ∃ line,
    safeLogAt P logger method a ts = .ok line ∧ safeLogAt P logger method b ts = .ok line

variable {P}

theorem redact_congr {v w : Arg} (h : fingerprint P (render P v) = fingerprint P (render P w)) :
    redact P v = redact P w := by
  rw [redact, redact, h]

theorem sanitize_of_redacted {key : PyStr} {v : Arg} (hv : ¬ IsPublic key v) :
    sanitize P key v = .str (redact P v) := by
  cases v with
  | str s => exact if_neg hv
  | other rendered => rfl
  | _ => exact absurd trivial hv

theorem sanitize_congr {key : PyStr} {v w : Arg} (h : ArgAgree P key v w) :
    sanitize P key v = sanitize P key w := by
  cases h with
  | same => rfl
  | redacted hv hw h => rw [sanitize_of_redacted hv, sanitize_of_redacted hw, redact_congr h]

theorem sanitizeLogExtras_congr {xs ys : List (PyStr × Arg)}
    (h : List.Forall₂ (fun m n => m.1 = n.1 ∧ ArgAgree P m.1 m.2 n.2) xs ys) :
    sanitizeLogExtras P xs = sanitizeLogExtras P ys := by
  induction h with
  | nil => rfl
  | @cons m n xs ys hmn h ih =>
    obtain ⟨hkey, hvalue⟩ := hmn
    rw [sanitizeLogExtras, sanitizeLogExtras, List.map_cons, List.map_cons, ← hkey,
      sanitize_congr hvalue]
    exact congrArg _ ih

theorem safeEventName_of_unknown {event : Arg} (h : ¬ IsKnownEvent event) :
    safeEventName P event =
      (unsafeEventName, [(.ofString "unsafe_event", .str (redact P event))]) := by
  cases event with
  | str s =>
    have hs : s ∉ knownEventNames := fun hs => h ⟨s, hs, rfl⟩
    rw [safeEventName, if_neg hs]
  | _ => rfl

theorem safeEventName_congr {v w : Arg} (h : EventAgree P v w) :
    safeEventName P v = safeEventName P w := by
  cases h with
  | same => rfl
  | redacted hv hw h =>
    rw [safeEventName_of_unknown hv, safeEventName_of_unknown hw, redact_congr h]

theorem excFields_congr {e f : Exc} (h : ExcAgree P (some e) (some f)) :
    excFields P e = excFields P f := by
  cases h with
  | some hname htype htag h =>
    cases htagged : safeTag e with
    | some tag => simp only [excFields, htag ▸ htagged, htagged, hname]
    | none => simp only [excFields, htag ▸ htagged, htagged, hname, h htagged]

/-- What is written is determined by what two calls agree on. -/
theorem safeLog_congr {a b : Call} (h : Agree P a b) (logger : Logger) (method : Method)
    (ts : PyStr) : safeLog P logger method a ts = safeLog P logger method b ts := by
  have hexc := h.exc
  rw [safeLog, safeLog, safeEventName_congr h.event, sanitizeLogExtras_congr h.extras]
  cases ha : a.exc with
  | none =>
    cases hb : b.exc with
    | none => rfl
    | some f =>
      rw [ha, hb] at hexc
      cases hexc
  | some e =>
    cases hb : b.exc with
    | none =>
      rw [ha, hb] at hexc
      cases hexc
    | some f =>
      rw [ha, hb] at hexc
      simp only [excFields_congr hexc]

theorem keys_of_forall₂ {xs ys : List (PyStr × Arg)}
    (h : List.Forall₂ (fun m n => m.1 = n.1 ∧ ArgAgree P m.1 m.2 n.2) xs ys) :
    xs.map Prod.fst = ys.map Prod.fst := by
  induction h with
  | nil => rfl
  | cons hmn h ih => rw [List.map_cons, List.map_cons, hmn.1, ih]

variable (P)

/-- Redaction keeps what differs between two calls out of the log, and no call raises, unless an
extra is named like the parameter of `_safe_log` that chooses the level. -/
theorem safeLog_nonInterfering_iff {a b : Call} (h : Agree P a b) (logger : Logger)
    (method : Method) : NonInterfering P logger method a b ↔
      PyStr.ofString "method" ∉ a.extras.map Prod.fst := by
  have hkeys := keys_of_forall₂ h.extras
  constructor
  · intro hsafe hmethod
    obtain ⟨line, ha, -⟩ := hsafe []
    rw [safeLogAt, if_pos hmethod] at ha
    cases ha
  · intro hmethod ts
    refine ⟨safeLog P logger method a ts, ?_, ?_⟩
    · rw [safeLogAt, if_neg hmethod]
    · rw [safeLogAt, if_neg (hkeys ▸ hmethod), safeLog_congr h]

end Policy

/-! ## Samples -/

/-- A platform that knows the digest of one text. -/
def samplePlatform : Platform where
  digest text := if text = .ofString "x" then .ofString "2d711642b726" else .ofString "?" ++ text
  maxDigits := 4300

def sampleLogger : Logger := ⟨.ofString "parallax", fun _ => true⟩

/-- A call with one extra. -/
def sampleCall (key : PyStr) (value : Arg)
    (hkey : key ∉ ["logger", "event", "exc"].map PyStr.ofString) : Call where
  event := .str (.ofString "shadow_query_error")
  exc := none
  extras := [(key, value)]
  nodup := List.nodup_singleton _
  params := by simpa using hkey

/-- A text and an object that is rendered as this text leave the same line. -/
theorem safeLog_nonInterfering_sample : NonInterfering samplePlatform sampleLogger .warning
    (sampleCall (.ofString "body") (.str (.ofString "x")) (by decide))
    (sampleCall (.ofString "body") (.other (some (.ofString "x"))) (by decide)) := by
  have htext : ¬ IsPublic (.ofString "body") (.str (.ofString "x")) := by
    simp only [IsPublic]
    decide
  have hobject : ¬ IsPublic (.ofString "body") (.other (some (.ofString "x"))) := not_false
  have hagree : Agree samplePlatform
      (sampleCall (.ofString "body") (.str (.ofString "x")) (by decide))
      (sampleCall (.ofString "body") (.other (some (.ofString "x"))) (by decide)) :=
    ⟨.same _, .none, .cons ⟨rfl, .redacted htext hobject rfl⟩ .nil⟩
  refine (safeLog_nonInterfering_iff samplePlatform hagree _ _).2 ?_
  simp only [sampleCall]
  decide

/-- `safe_log_warning(logger, "shadow_query_error", method="GET")` raises. -/
theorem safeLog_raises :
    Agree samplePlatform
      (sampleCall (.ofString "method") (.str (.ofString "GET")) (by decide))
      (sampleCall (.ofString "method") (.str (.ofString "GET")) (by decide)) ∧
    ¬ NonInterfering samplePlatform sampleLogger .warning
      (sampleCall (.ofString "method") (.str (.ofString "GET")) (by decide))
      (sampleCall (.ofString "method") (.str (.ofString "GET")) (by decide)) := by
  refine ⟨⟨.same _, .none, .cons ⟨rfl, .same _⟩ .nil⟩, ?_⟩
  intro hsafe
  obtain ⟨line, hline, -⟩ := hsafe []
  have hraised : safeLogAt samplePlatform sampleLogger .warning
      (sampleCall (.ofString "method") (.str (.ofString "GET")) (by decide)) [] =
        .error .multipleValues := rfl
  rw [hraised] at hline
  cases hline

end ParallaxKernel.Obs
