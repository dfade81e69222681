import ParallaxKernel.Lib.JsonPlain
import ParallaxKernel.Lib.Retry
import ParallaxKernel.Store.Hashing

/-!
# Calls of a model

`call` of `llm/call.py`: the classification of provider errors, the retries of a dispatch, the
fallback model and the cache of answers. What the adapter of a provider meets comes from outside, one
outcome for each dispatch.
-/

namespace ParallaxKernel.Llm

open Lib Store

/-! ## Errors -/

/-- The exceptions that leave a dispatch: `LLMConfigError`, `LLMPermanentError`,
`LLMTransientError`, `RateLimitError`, a plain `LLMCallError`, and any other. -/
inductive LlmError where
  | config (msg : String)
  | permanent (msg : String)
  | transient (msg : String)
  | rateLimit (msg : String)
  | call (msg : String)
  | other (exc : String)
  deriving DecidableEq

/-- `_TRANSIENT_NON_5XX_STATUS`. -/
def transientNon5xxStatus : List Int := [408, 425]

def isTransientStatus : Option Int → Bool
  | none => false
  | some status =>
    if status = 429 then false
    else (500 ≤ status ∧ status ≤ 599) ∨ status ∈ transientNon5xxStatus

def isPermanentStatus : Option Int → Bool
  | none => false
  | some status =>
    if status = 429 then false
    else (400 ≤ status ∧ status ≤ 499) ∧ status ∉ transientNon5xxStatus

/-- An attribute of an exception; what is neither a number nor a text counts as absent. -/
inductive Attribute where
  | absent
  | flag (b : Bool)
  | number (n : Int)
  | text (s : String)
  deriving DecidableEq

/-- What the classification reads of a provider's exception: the three attributes that may carry a
status, the status of its response, its class, whether `_is_httpx_transient` holds of it, and its
text. -/
structure ProviderError where
  statusCode : Attribute
  code : Attribute
  status : Attribute
  responseStatus : Option Int
  module : String
  name : String
  httpxTransient : Bool
  text : String
  deriving DecidableEq

/-- Functions on texts: the value of a text of digits, `str.lower`, and whether the two expressions
`_RATE_LIMIT_TEXT_RE` and `_TRANSIENT_TEXT_RE` are found. -/
structure TextProbes where
  digits : String → Option Int
  lower : String → String
  rateLimit : String → Bool
  transient : String → Bool

variable (T : TextProbes)

def attributeStatus : Attribute → Option Int
  | .number n => some n
  | .text s => T.digits s
  | .absent | .flag _ => none

/-- `_exception_status_code`. -/
def exceptionStatusCode (exc : ProviderError) : Option Int :=
  (([exc.statusCode, exc.code, exc.status].findSome? (attributeStatus T)).or exc.responseStatus)

/-- `_GENAI_TRANSIENT_ERROR_NAMES`. -/
def genaiTransientErrorNames : List String :=
  ["ServerError", "ServiceUnavailable", "InternalServerError", "DeadlineExceeded", "Unavailable"]

/-- `_GENAI_RATE_LIMIT_ERROR_NAMES`. -/
def genaiRateLimitErrorNames : List String := ["ResourceExhausted", "TooManyRequests"]

/-- `text.startswith(start)`. -/
def startsWith (text start : String) : Bool := start.toList.isPrefixOf text.toList

/-- `needle in text`. -/
def occursIn (needle text : String) : Bool := text.toList.tails.any (needle.toList.isPrefixOf ·)

/-- The last resort of `_classify_provider_error`, which looks at the text. -/
def classifyText (msg : String) : LlmError :=
  let low := T.lower msg
  if T.rateLimit msg || occursIn "resource_exhausted" low || occursIn "rate limit" low ||
      occursIn "rate_limit" low then .rateLimit msg
  else if T.transient msg then .transient msg
  else .call msg

/-- `_classify_provider_error`. -/
def classifyProviderError (exc : ProviderError) (message : Option String) : LlmError :=
  let msg := message.getD exc.text
  let status := exceptionStatusCode T exc
  if status = some 429 then .rateLimit msg
  else if isTransientStatus status then .transient msg
  else if isPermanentStatus status then .permanent msg
  else if startsWith exc.module "google." ∧ exc.name ∈ genaiRateLimitErrorNames then .rateLimit msg
  else if startsWith exc.module "google." ∧ exc.name ∈ genaiTransientErrorNames then .transient msg
  else if exc.httpxTransient then .transient msg
  else classifyText T msg

/-! ## Answers -/

/-- A normalized stop reason. -/
inductive StopReason where
  | stop
  | length
  | blocked
  | unknown
  deriving DecidableEq

def StopReason.value : StopReason → String
  | stop => "stop"
  | length => "length"
  | blocked => "blocked"
  | unknown => "unknown"

/-- `_UNCACHEABLE_STOP_REASONS`. -/
def uncacheableStopReasons : List StopReason := [.length, .blocked]

/-- What an adapter makes of a response. -/
structure Answer where
  text : String
  raw : Json
  promptTokens : Int
  completionTokens : Int
  stopReason : StopReason

abbrev PyDict := List (String × Json)

/-- The dict of an answer, with the model that was asked. -/
def Answer.toDict (a : Answer) (model : String) : PyDict :=
  [("text", .str a.text), ("raw", a.raw), ("model", .str model),
    ("prompt_tokens", .int a.promptTokens), ("completion_tokens", .int a.completionTokens),
    ("stop_reason", .str a.stopReason.value)]

/-! ## Dispatches -/

/-- What the adapter of a provider meets: something is not configured, the provider's client raises,
the server answers with a status that is no success, or with a body that is no JSON, another exception
comes up, or there is an answer. -/
inductive ProviderOutcome where
  | unconfigured (msg : String)
  | raised (exc : ProviderError) (message : Option String)
  | refused (status : Int) (detail : String)
  | invalidBody (msg : String)
  | escaped (exc : String)
  | answered (a : Answer)

/-- `_OLLAMA_PREFIXES`. -/
def ollamaPrefixes : List String := ["ollama:", "local:"]

/-- `_SUPPORTED_PREFIXES`. -/
def supportedPrefixes : List String := "gemini-" :: ollamaPrefixes

/-- `_dispatch`. -/
def dispatch (model : String) (outcome : ProviderOutcome) : Except LlmError Answer :=
  if supportedPrefixes.any (startsWith model) then
    match outcome with
    | .unconfigured msg => .error (.config msg)
    | .raised exc message => .error (classifyProviderError T exc message)
    | .refused status detail =>
      if status = 429 then .error (.rateLimit detail)
      else if isTransientStatus (some status) then .error (.transient detail)
      else if isPermanentStatus (some status) then .error (.permanent detail)
      else .error (.call detail)
    | .invalidBody msg => .error (.call msg)
    | .escaped exc => .error (.other exc)
    | .answered a => .ok a
  else .error (.config ("unsupported model prefix: " ++ model ++ " (supported prefixes: " ++
    ", ".intercalate supportedPrefixes ++ ")"))

/-- `_is_retryable`. -/
def isRetryable : LlmError → Bool
  | .config _ | .permanent _ | .other _ => false
  | .call _ | .transient _ | .rateLimit _ => true

/-- The error reaches the fallback. -/
def LlmError.isCapacity : LlmError → Bool
  | .rateLimit _ | .transient _ => true
  | _ => false

/-- What the guard says of a blank answer. -/
def blankDetail (model promptHash : String) (stopReason : StopReason) : String :=
  if stopReason ∈ uncacheableStopReasons then
    model ++ " response " ++ stopReason.value ++ " (stop_reason=" ++ stopReason.value ++
      "), empty text (prompt_hash=" ++ promptHash ++ ")"
  else "empty response text from " ++ model ++ " (prompt_hash=" ++ promptHash ++ ")"

/-- A dispatch, and the guard against blank answers. -/
def dispatchOnce (model promptHash : String) (outcome : ProviderOutcome) : Except LlmError Answer :=
  match dispatch T model outcome with
  | .error e => .error e
  | .ok a =>
    if strip a.text = "" then .error (.call (blankDetail model promptHash a.stopReason)) else .ok a

/-- `_dispatch_with_retry`, and the number of its dispatches. -/
def dispatchWithRetry (model promptHash : String) (outcomes : Nat → ProviderOutcome) :
    Except LlmError Answer × Nat :=
  retry isRetryable (fun i => dispatchOnce T model promptHash (outcomes i)) 2

/-! ## The cache -/

/-- A row of `llm_cache`. -/
structure CacheRow where
  model : String
  promptHash : String
  responseJson : String
  deriving DecidableEq

abbrev Cache := List CacheRow

/-- `_cache_get`. Rows are written by `_cache_put` alone: a row has the text of a dict. -/
def cacheGet (cache : Cache) (promptHash : String) : Option PyDict :=
  (cache.find? (·.promptHash = promptHash)).bind fun row =>
    match Json.loads row.responseJson with
    | some (.obj response) => some response
    | _ => none

/-- `_cache_put`, whose statement replaces a row with the same hash. -/
def cachePut (cache : Cache) (model promptHash : String) (response : PyDict) : Cache :=
  cache.filter (·.promptHash ≠ promptHash) ++
    [⟨model, promptHash, Json.dumpsPlain (.obj response)⟩]

/-! ## Calls -/

/-- What comes out of a call: its result, the cache, and its dispatches to the primary model and to
the fallback. -/
structure Called where
  result : Except LlmError PyDict
  cache : Cache
  primary : Nat
  fallback : Nat

/-- The answer of a cached row. -/
def replay (cached : PyDict) : PyDict :=
  let cached := if cached.any (·.1 = "stop_reason") then cached
    else cached ++ [("stop_reason", .str "unknown")]
  cached ++ [("_cached", .bool true)]

/-- The end of `call` with a live answer; `stores` says that the statement of `_cache_put`
succeeds. -/
def store (stores : Bool) (cache : Cache) (model promptHash : String) (stopReason : StopReason)
    (response : PyDict) (primary fallback : Nat) : Called :=
  let result := response ++ [("_cached", .bool false)]
  if stopReason ∈ uncacheableStopReasons then ⟨.ok result, cache, primary, fallback⟩
  else if stores then ⟨.ok result, cachePut cache model promptHash response, primary, fallback⟩
  else ⟨.error (.other "the response cannot be stored"), cache, primary, fallback⟩

/-- What a call of `call` asks for, `hashPrompt` being `_hash_prompt` at its other arguments. -/
structure Request where
  model : String
  fallbackModel : Option String
  hashPrompt : String → String

/-- `call`. -/
def call (q : Request) (stores : Bool) (outcomes : Nat → ProviderOutcome) (cache : Cache) : Called :=
  match cacheGet cache (q.hashPrompt q.model) with
  | some cached => ⟨.ok (replay cached), cache, 0, 0⟩
  | none =>
    let first := dispatchWithRetry T q.model (q.hashPrompt q.model) outcomes
    match first.1 with
    | .ok a =>
      store stores cache q.model (q.hashPrompt q.model) a.stopReason (a.toDict q.model) first.2 0
    | .error e =>
      match q.fallbackModel with
      | none => ⟨.error e, cache, first.2, 0⟩
      | some fallback =>
        if e.isCapacity then
          let second := dispatchWithRetry T fallback (q.hashPrompt fallback)
            fun i => outcomes (first.2 + i)
          match second.1 with
          | .ok a =>
            store stores cache fallback (q.hashPrompt fallback) a.stopReason
              (a.toDict fallback ++ [("fallback_from", .str q.model)]) first.2 second.2
          | .error e => ⟨.error e, cache, first.2, second.2⟩
        else ⟨.error e, cache, first.2, 0⟩

/-! ## What a call can do -/

section Cases

variable {T} {q : Request} {stores : Bool} {outcomes : Nat → ProviderOutcome} {cache : Cache}

theorem dispatchOnce_eq_ok {model promptHash : String} {outcome : ProviderOutcome} {a : Answer}
    (h : dispatchOnce T model promptHash outcome = .ok a) :
    dispatch T model outcome = .ok a ∧ strip a.text ≠ "" := by
  rw [dispatchOnce] at h
  split at h
  · cases h
  · next a' ha' =>
    split_ifs at h with hblank
    cases h
    exact ⟨ha', hblank⟩

/-- The guard passes an error on, and turns a blank answer into one that may be retried. -/
theorem dispatchOnce_eq_error {model promptHash : String} {outcome : ProviderOutcome} {e : LlmError}
    (h : dispatchOnce T model promptHash outcome = .error e) :
    dispatch T model outcome = .error e ∨ ∃ msg, e = .call msg := by
  rw [dispatchOnce] at h
  split at h
  · next e' he' =>
    cases h
    exact .inl he'
  · split_ifs at h
    cases h
    exact .inr ⟨_, rfl⟩

theorem dispatchOnce_of_error {model promptHash : String} {outcome : ProviderOutcome} {e : LlmError}
    (h : dispatch T model outcome = .error e) :
    dispatchOnce T model promptHash outcome = .error e := by
  rw [dispatchOnce, h]

theorem dispatchWithRetry_retried (T : TextProbes) (model promptHash : String)
    (outcomes : Nat → ProviderOutcome) :
    Retried isRetryable (fun i => dispatchOnce T model promptHash (outcomes i)) 2
      (dispatchWithRetry T model promptHash outcomes) := retried_retry _ _

/-- A call that finds nothing cached is answered by the primary model, ends with its error, or is
answered by the fallback or ends with its error after an error of capacity. -/
inductive CallCase (T : TextProbes) (q : Request) (stores : Bool)
    (outcomes : Nat → ProviderOutcome) (cache : Cache) : Called → Prop where
  | primary {a : Answer} {n : Nat}
      (hfirst : dispatchWithRetry T q.model (q.hashPrompt q.model) outcomes = (.ok a, n)) :
      CallCase T q stores outcomes cache (store stores cache q.model (q.hashPrompt q.model)
        a.stopReason (a.toDict q.model) n 0)
  | failed {e : LlmError} {n : Nat}
      (hfirst : dispatchWithRetry T q.model (q.hashPrompt q.model) outcomes = (.error e, n))
      (hstop : q.fallbackModel = none ∨ e.isCapacity = false) :
      CallCase T q stores outcomes cache ⟨.error e, cache, n, 0⟩
  | fallback {e : LlmError} {n m : Nat} {fallback : String} {a : Answer}
      (hfirst : dispatchWithRetry T q.model (q.hashPrompt q.model) outcomes = (.error e, n))
      (hcapacity : e.isCapacity = true) (hfallback : q.fallbackModel = some fallback)
      (hsecond : dispatchWithRetry T fallback (q.hashPrompt fallback) (fun i => outcomes (n + i)) =
        (.ok a, m)) :
      CallCase T q stores outcomes cache (store stores cache fallback (q.hashPrompt fallback)
        a.stopReason (a.toDict fallback ++ [("fallback_from", .str q.model)]) n m)
  | bothFailed {e e' : LlmError} {n m : Nat} {fallback : String}
      (hfirst : dispatchWithRetry T q.model (q.hashPrompt q.model) outcomes = (.error e, n))
      (hcapacity : e.isCapacity = true) (hfallback : q.fallbackModel = some fallback)
      (hsecond : dispatchWithRetry T fallback (q.hashPrompt fallback) (fun i => outcomes (n + i)) =
        (.error e', m)) :
      CallCase T q stores outcomes cache ⟨.error e', cache, n, m⟩

theorem call_cases (hmiss : cacheGet cache (q.hashPrompt q.model) = none) :
    CallCase T q stores outcomes cache (call T q stores outcomes cache) := by
  rw [call, hmiss]
  dsimp only
  cases hfirst : dispatchWithRetry T q.model (q.hashPrompt q.model) outcomes with
  | mk first n =>
    cases first with
    | ok a => exact .primary hfirst
    | error e =>
      dsimp only
      cases hfallback : q.fallbackModel with
      | none => exact .failed hfirst (.inl hfallback)
      | some fallback =>
        dsimp only
        split_ifs with hcapacity
        · cases hsecond : dispatchWithRetry T fallback (q.hashPrompt fallback)
              (fun i => outcomes (n + i)) with
          | mk second m =>
            cases second with
            | ok a => exact .fallback hfirst hcapacity hfallback hsecond
            | error e' => exact .bothFailed hfirst hcapacity hfallback hsecond
        · exact .failed hfirst (.inr (by simpa using hcapacity))

/-- The end of a live call: its answer is returned, and stored if it is whole and can be. -/
theorem store_cases (stores : Bool) (cache : Cache) (model promptHash : String)
    (stopReason : StopReason) (response : PyDict) (primary fallback : Nat) :
    let called := store stores cache model promptHash stopReason response primary fallback
    called.primary = primary ∧ called.fallback = fallback ∧
      ((∃ exc, called.result = .error (.other exc) ∧ called.cache = cache) ∨
        called.result = .ok (response ++ [("_cached", .bool false)]) ∧
          called.cache = if stopReason ∈ uncacheableStopReasons then cache
            else cachePut cache model promptHash response) := by
  dsimp only [store]
  split_ifs with hpartial hstores
  · exact ⟨rfl, rfl, .inr ⟨rfl, rfl⟩⟩
  · exact ⟨rfl, rfl, .inr ⟨rfl, rfl⟩⟩
  · exact ⟨rfl, rfl, .inl ⟨_, rfl, rfl⟩⟩

end Cases

/-! ## Retries and the fallback -/

/-- No row has the hash of the call. -/
def Misses (cache : Cache) (q : Request) : Prop :=
  ∀ row ∈ cache, row.promptHash ≠ q.hashPrompt q.model

/-- The error is a matter of configuration or permanent. -/
def LlmError.isHard : LlmError → Bool
  | .config _ | .permanent _ => true
  | _ => false

/-- The answer is not whole. -/
def isPartial (response : PyDict) : Prop :=
  response.lookup "stop_reason" = some (.str "length") ∨
    response.lookup "stop_reason" = some (.str "blocked")

/-- The retries and the fallback of a call that finds nothing cached, but for what it stores. -/
structure Disciplined (T : TextProbes) (q : Request) (outcomes : Nat → ProviderOutcome)
    (cache : Cache) (called : Called) : Prop where
  hard : ∀ i e, i < called.primary → dispatch T q.model (outcomes i) = .error e →
    e.isHard = true → i + 1 = called.primary ∧ called.fallback = 0 ∧ called.result = .error e
  primary_le : called.primary ≤ 3
  fallback_le : called.fallback ≤ 3
  fallback_iff : 0 < called.fallback ↔ q.fallbackModel ≠ none ∧ called.primary = 3 ∧
    ∃ e, dispatch T q.model (outcomes 2) = .error e ∧ e.isCapacity = true
  not_blank : ∀ response, called.result = .ok response →
    ∃ text, response.lookup "text" = some (.str text) ∧ strip text ≠ ""
  unchanged_of_error : ∀ e, called.result = .error e → called.cache = cache
  unchanged_of_partial : ∀ response, called.result = .ok response → isPartial response →
    called.cache = cache

/-- A whole answer adds one row. -/
def GainsRow (cache : Cache) (called : Called) : Prop :=
  ∀ response, called.result = .ok response → ¬ isPartial response →
    called.cache.length = cache.length + 1

/-- A whole answer adds one row; that of the fallback replaces one that is there under its hash. -/
def GainsOrReplaces (q : Request) (cache : Cache) (called : Called) : Prop :=
  ∀ response, called.result = .ok response → ¬ isPartial response →
    ∃ row : CacheRow,
      (∀ other ∈ cache, other.promptHash ≠ row.promptHash) ∧ called.cache = cache ++ [row] ∨
      0 < called.fallback ∧ (∃ fallback, q.fallbackModel = some fallback ∧
          row.promptHash = q.hashPrompt fallback) ∧
        (∃ other ∈ cache, other.promptHash = row.promptHash) ∧
        called.cache = cache.filter (·.promptHash ≠ row.promptHash) ++ [row]

section Discipline

variable {T : TextProbes} {q : Request} {stores : Bool} {outcomes : Nat → ProviderOutcome}
  {cache : Cache} {called : Called}

theorem cacheGet_of_misses (hmiss : Misses cache q) :
    cacheGet cache (q.hashPrompt q.model) = none := by
  have hnone : cache.find? (·.promptHash = q.hashPrompt q.model) = none :=
    List.find?_eq_none.2 fun row hrow => by simpa using hmiss row hrow
  rw [cacheGet, hnone]
  rfl

theorem isRetryable_of_isHard {e : LlmError} (h : e.isHard = true) : isRetryable e = false := by
  cases e <;> first | rfl | cases h

theorem isCapacity_of_isHard {e : LlmError} (h : e.isHard = true) : e.isCapacity = false := by
  cases e <;> first | rfl | cases h

theorem isRetryable_of_isCapacity {e : LlmError} (h : e.isCapacity = true) :
    isRetryable e = true := by
  cases e <;> first | rfl | cases h

/-- A hard error of the primary is the end of its dispatches. -/
theorem hard_last {n i : Nat} {first : Except LlmError Answer} {e : LlmError}
    (hfirst : dispatchWithRetry T q.model (q.hashPrompt q.model) outcomes = (first, n)) (hi : i < n)
    (he : dispatch T q.model (outcomes i) = .error e) (hhard : e.isHard = true) :
    i + 1 = n ∧ first = .error e := by
  have hretried := dispatchWithRetry_retried T q.model (q.hashPrompt q.model) outcomes
  rw [hfirst] at hretried
  have honce := @dispatchOnce_of_error T q.model (q.hashPrompt q.model) _ _ he
  have hlast := hretried.last_of_error hi honce (isRetryable_of_isHard hhard)
  refine ⟨hlast, ?_⟩
  have houtcome := hretried.outcome
  dsimp only at houtcome hlast
  rw [houtcome, ← hlast, Nat.add_sub_cancel]
  exact honce

/-- An error of capacity that ends the dispatches is that of the last one permitted. -/
theorem capacity_last {n : Nat} {e : LlmError}
    (hfirst : dispatchWithRetry T q.model (q.hashPrompt q.model) outcomes = (.error e, n))
    (hcapacity : e.isCapacity = true) :
    n = 3 ∧ dispatch T q.model (outcomes 2) = .error e := by
  have hretried := dispatchWithRetry_retried T q.model (q.hashPrompt q.model) outcomes
  rw [hfirst] at hretried
  have hn : n = 3 := hretried.stopped e rfl (isRetryable_of_isCapacity hcapacity)
  subst hn
  refine ⟨rfl, ?_⟩
  obtain he | ⟨msg, rfl⟩ := dispatchOnce_eq_error hretried.outcome.symm
  · exact he
  · cases hcapacity

theorem dispatches_bounds {model promptHash : String} {outcomes : Nat → ProviderOutcome} {n : Nat}
    {first : Except LlmError Answer}
    (hfirst : dispatchWithRetry T model promptHash outcomes = (first, n)) : 0 < n ∧ n ≤ 3 := by
  have hretried := dispatchWithRetry_retried T model promptHash outcomes
  rw [hfirst] at hretried
  exact ⟨hretried.pos, hretried.le⟩

/-- What a dispatch with its retries returns is the answer of the last one, and not blank. -/
theorem answer_of_ok {model promptHash : String} {outcomes : Nat → ProviderOutcome} {n : Nat}
    {a : Answer} (hfirst : dispatchWithRetry T model promptHash outcomes = (.ok a, n)) :
    (∃ i < n, dispatch T model (outcomes i) = .ok a) ∧ strip a.text ≠ "" := by
  have hretried := dispatchWithRetry_retried T model promptHash outcomes
  rw [hfirst] at hretried
  obtain ⟨hlast, htext⟩ := dispatchOnce_eq_ok hretried.outcome.symm
  exact ⟨⟨_, Nat.sub_one_lt_of_lt hretried.pos, hlast⟩, htext⟩

/-- What the dispatches of a call were, whatever is stored: those of the primary, and those of the
fallback after an error of capacity. -/
theorem CallCase.dispatches (h : CallCase T q stores outcomes cache called) :
    ∃ first, dispatchWithRetry T q.model (q.hashPrompt q.model) outcomes = (first, called.primary) ∧
      (called.fallback = 0 ∧ (∀ e, first = .error e → called.result = .error e) ∧
          (q.fallbackModel = none ∨ ∀ e, first = .error e → e.isCapacity = false) ∨
        0 < called.fallback ∧ called.fallback ≤ 3 ∧ q.fallbackModel ≠ none ∧
          ∃ e, first = .error e ∧ e.isCapacity = true) := by
  cases h with
  | @primary a n hfirst =>
    obtain ⟨hprimary, hfallback, -⟩ := store_cases stores cache q.model (q.hashPrompt q.model)
      a.stopReason (a.toDict q.model) n 0
    refine ⟨.ok a, by rw [hprimary, hfirst], .inl ⟨hfallback, nofun, .inr nofun⟩⟩
  | @failed e n hfirst hstop =>
    refine ⟨.error e, hfirst, .inl ⟨rfl, ?_, hstop.imp_right ?_⟩⟩
    · rintro _ ⟨⟩
      rfl
    · rintro hcapacity _ ⟨⟩
      exact hcapacity
  | @fallback e n m fallback a hfirst hcapacity hfallback hsecond =>
    obtain ⟨hprimary, hsecondary, -⟩ := store_cases stores cache fallback (q.hashPrompt fallback)
      a.stopReason (a.toDict fallback ++ [("fallback_from", .str q.model)]) n m
    obtain ⟨hpos, hle⟩ := dispatches_bounds hsecond
    refine ⟨.error e, by rw [hprimary, hfirst], .inr ⟨?_, ?_, by simp [hfallback], e, rfl, hcapacity⟩⟩
    · rwa [hsecondary]
    · rwa [hsecondary]
  | @bothFailed e e' n m fallback hfirst hcapacity hfallback hsecond =>
    obtain ⟨hpos, hle⟩ := dispatches_bounds hsecond
    exact ⟨.error e, hfirst, .inr ⟨hpos, hle, by simp [hfallback], e, rfl, hcapacity⟩⟩

/-- What a call returns live is the dict of an answer that is not blank, of the primary or of the
fallback, and what the cache gains. -/
theorem CallCase.answer (h : CallCase T q stores outcomes cache called) {response : PyDict}
    (hresponse : called.result = .ok response) :
    ∃ (model : String) (a : Answer) (rest : PyDict), strip a.text ≠ "" ∧
      (∃ i < called.primary + called.fallback, dispatch T model (outcomes i) = .ok a) ∧
      response = a.toDict model ++ rest ++ [("_cached", .bool false)] ∧
      called.cache = (if a.stopReason ∈ uncacheableStopReasons then cache
        else cachePut cache model (q.hashPrompt model) (a.toDict model ++ rest)) ∧
      (model = q.model ∧ rest = [] ∧ called.fallback = 0 ∨ q.fallbackModel = some model ∧
        rest = [("fallback_from", .str q.model)] ∧ 0 < called.fallback) := by
  cases h with
  | @primary a n hfirst =>
    obtain ⟨hprimary, hsecondary, ⟨exc, herror, -⟩ | ⟨hok, hcache⟩⟩ := store_cases stores cache
      q.model (q.hashPrompt q.model) a.stopReason (a.toDict q.model) n 0
    · rw [herror] at hresponse
      cases hresponse
    · rw [hok] at hresponse
      cases hresponse
      obtain ⟨⟨i, hi, hdispatch⟩, htext⟩ := answer_of_ok hfirst
      refine ⟨q.model, a, [], htext, ⟨i, ?_, hdispatch⟩, ?_, ?_, .inl ⟨rfl, rfl, hsecondary⟩⟩
      · rwa [hprimary, hsecondary]
      · rw [List.append_nil]
      · rw [List.append_nil]
        exact hcache
  | failed => cases hresponse
  | @fallback e n m fallback a hfirst hcapacity hfallback hsecond =>
    obtain ⟨hprimary, hsecondary, ⟨exc, herror, -⟩ | ⟨hok, hcache⟩⟩ := store_cases stores cache
      fallback (q.hashPrompt fallback) a.stopReason
      (a.toDict fallback ++ [("fallback_from", .str q.model)]) n m
    · rw [herror] at hresponse
      cases hresponse
    · rw [hok] at hresponse
      cases hresponse
      obtain ⟨⟨i, hi, hdispatch⟩, htext⟩ := answer_of_ok hsecond
      refine ⟨fallback, a, _, htext, ⟨n + i, ?_, hdispatch⟩, rfl, hcache, .inr ⟨hfallback, rfl, ?_⟩⟩
      · rw [hprimary, hsecondary]
        omega
      · rw [hsecondary]
        exact (dispatches_bounds hsecond).1
  | bothFailed => cases hresponse

theorem CallCase.cache_of_error (h : CallCase T q stores outcomes cache called) {e : LlmError}
    (he : called.result = .error e) : called.cache = cache := by
  have hstored {model promptHash : String} {stopReason : StopReason} {response : PyDict}
      {primary fallback : Nat} (he : (store stores cache model promptHash stopReason response primary
        fallback).result = .error e) :
      (store stores cache model promptHash stopReason response primary fallback).cache = cache := by
    obtain ⟨-, -, ⟨exc, -, hcache⟩ | ⟨hok, -⟩⟩ := store_cases stores cache model promptHash
      stopReason response primary fallback
    · exact hcache
    · rw [hok] at he
      cases he
  cases h with
  | primary hfirst => exact hstored he
  | failed => rfl
  | fallback hfirst hcapacity hfallback hsecond => exact hstored he
  | bothFailed => rfl

theorem isPartial_iff (a : Answer) (model : String) (rest : PyDict) :
    isPartial (a.toDict model ++ rest) ↔ a.stopReason ∈ uncacheableStopReasons := by
  have hlookup : (a.toDict model ++ rest).lookup "stop_reason" = some (.str a.stopReason.value) := rfl
  rw [isPartial, hlookup]
  cases a.stopReason <;> simp [StopReason.value, uncacheableStopReasons]

theorem call_disciplined (hmiss : Misses cache q) :
    Disciplined T q outcomes cache (call T q stores outcomes cache) := by
  have hcase : CallCase T q stores outcomes cache (call T q stores outcomes cache) :=
    call_cases (cacheGet_of_misses hmiss)
  obtain ⟨first, hfirst, hsecond⟩ := hcase.dispatches
  refine ⟨?_, ?_, ?_, ?_, ?_, fun e he => hcase.cache_of_error he, ?_⟩
  · intro i e hi he hhard
    obtain ⟨hlast, rfl⟩ := hard_last hfirst hi he hhard
    obtain ⟨hzero, herror, -⟩ | ⟨-, -, -, e', he', hcapacity⟩ := hsecond
    · exact ⟨hlast, hzero, herror e rfl⟩
    · obtain rfl := Except.error.inj he'
      rw [isCapacity_of_isHard hhard] at hcapacity
      cases hcapacity
  · exact (dispatches_bounds hfirst).2
  · obtain ⟨hzero, -⟩ | ⟨-, hle, -⟩ := hsecond
    · omega
    · exact hle
  · constructor
    · intro hpos
      obtain ⟨hzero, -⟩ | ⟨-, -, hgiven, e, rfl, hcapacity⟩ := hsecond
      · omega
      · obtain ⟨hthree, he⟩ := capacity_last hfirst hcapacity
        exact ⟨hgiven, hthree, e, he, hcapacity⟩
    · rintro ⟨hgiven, hthree, e, he, hcapacity⟩
      obtain ⟨-, -, hstop⟩ | ⟨hpos, -⟩ := hsecond
      · have hretried := dispatchWithRetry_retried T q.model (q.hashPrompt q.model) outcomes
        rw [hfirst, hthree] at hretried
        have herror : first = .error e :=
          hretried.outcome.trans (dispatchOnce_of_error he)
        obtain hnone | hnever := hstop
        · exact absurd hnone hgiven
        · rw [hnever e herror] at hcapacity
          cases hcapacity
      · exact hpos
  · intro response hresponse
    obtain ⟨model, a, rest, htext, -, rfl, -⟩ := hcase.answer hresponse
    exact ⟨a.text, rfl, htext⟩
  · intro response hresponse hpartial
    obtain ⟨model, a, rest, -, -, rfl, hcache, -⟩ := hcase.answer hresponse
    rw [List.append_assoc, isPartial_iff] at hpartial
    rw [hcache, if_pos hpartial]

theorem call_gainsOrReplaces (hmiss : Misses cache q) :
    GainsOrReplaces q cache (call T q stores outcomes cache) := by
  intro response hresponse hwhole
  have hcase : CallCase T q stores outcomes cache (call T q stores outcomes cache) :=
    call_cases (cacheGet_of_misses hmiss)
  obtain ⟨model, a, rest, -, -, rfl, hcache, hmodel⟩ := hcase.answer hresponse
  rw [List.append_assoc, isPartial_iff] at hwhole
  rw [if_neg hwhole] at hcache
  refine ⟨⟨model, q.hashPrompt model, Json.dumpsPlain (.obj (a.toDict model ++ rest))⟩, ?_⟩
  by_cases hfresh : ∀ other ∈ cache, other.promptHash ≠ q.hashPrompt model
  · refine .inl ⟨hfresh, ?_⟩
    rw [hcache, cachePut, List.filter_eq_self.2 fun other hother => by simpa using hfresh other hother]
  · obtain ⟨rfl, -⟩ | ⟨hfallback, -, hpos⟩ := hmodel
    · exact absurd hmiss hfresh
    · push Not at hfresh
      exact .inr ⟨hpos, ⟨model, hfallback, rfl⟩, hfresh, hcache⟩

end Discipline

/-- The retries, the fallback and the writes of a call that finds nothing cached. -/
theorem call_discipline (T : TextProbes) (q : Request) (stores : Bool)
    (outcomes : Nat → ProviderOutcome) (cache : Cache) (hmiss : Misses cache q) :
    Disciplined T q outcomes cache (call T q stores outcomes cache) ∧
      GainsOrReplaces q cache (call T q stores outcomes cache) :=
  ⟨call_disciplined hmiss, call_gainsOrReplaces hmiss⟩

/-- Probes that find nothing, and lower nothing. -/
def noProbes : TextProbes := ⟨fun _ => none, id, fun _ => false, fun _ => false⟩

def greeting (text : String) (stopReason : StopReason) : ProviderOutcome :=
  .answered ⟨text, .null, 3, 2, stopReason⟩

def overloaded : ProviderOutcome := .refused 503 "overloaded"

def withFallback : Request := ⟨"gemini-a", some "gemini-b", id⟩

/-- The primary is overloaded, and then the fallback answers. -/
def overloadedPrimary (i : Nat) : ProviderOutcome :=
  [overloaded, overloaded, overloaded].getD i (greeting "hi" .stop)

theorem call_discipline_overloaded : Misses [] withFallback ∧
    Disciplined noProbes withFallback overloadedPrimary []
      (call noProbes withFallback true overloadedPrimary []) ∧
    GainsOrReplaces withFallback [] (call noProbes withFallback true overloadedPrimary []) := by
  have hmiss : Misses [] withFallback := nofun
  exact ⟨hmiss, call_discipline _ _ _ _ _ hmiss⟩

/-- A row that is there under the key of the fallback. -/
def fallbackCached : Cache := [⟨"gemini-b", "gemini-b", "\x7b\x7d"⟩]

/-- The fallback answers, its row replaces one that was there, and the cache gains none. -/
theorem replaced_row_gains_none : Misses fallbackCached withFallback ∧
    ¬ (Disciplined noProbes withFallback overloadedPrimary fallbackCached
        (call noProbes withFallback true overloadedPrimary fallbackCached) ∧
      GainsRow fallbackCached (call noProbes withFallback true overloadedPrimary fallbackCached)) := by
  have hresult : (call noProbes withFallback true overloadedPrimary fallbackCached).result =
      .ok [("text", .str "hi"), ("raw", .null), ("model", .str "gemini-b"),
        ("prompt_tokens", .int 3), ("completion_tokens", .int 2), ("stop_reason", .str "stop"),
        ("fallback_from", .str "gemini-a"), ("_cached", .bool false)] := rfl
  have hlength : (call noProbes withFallback true overloadedPrimary fallbackCached).cache.length = 1 :=
    rfl
  have hmiss : Misses fallbackCached withFallback := by
    intro row hrow
    rw [List.mem_singleton.1 hrow]
    decide
  refine ⟨hmiss, fun h => ?_⟩
  have hgained := h.2 _ hresult (by simp [isPartial, List.lookup_cons])
  rw [hlength] at hgained
  cases hgained

end ParallaxKernel.Llm
