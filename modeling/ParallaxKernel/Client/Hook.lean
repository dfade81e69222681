import ParallaxKernel.Client.DrainProgress
import ParallaxKernel.Lib.PyJsonLimits
import ParallaxKernel.Store.Hashing

/-!
# The session hook

`main` of the hook that runs when a session starts: it reads the environment, drains the local queue
and fetches the reminder, which it writes to the standard output. A value of the environment may hold
lone surrogates, and the transport may raise anything.
-/

namespace ParallaxKernel.Client.Hook

open Lib Store

/-- An exception, as far as the `except` clauses of `_fetch_reminder` tell them apart. -/
inductive Exc where
  | urlError
  | osError
  | valueError
  | other (name : String)
  deriving DecidableEq

/-- One of the clauses catches it. -/
def Exc.caught : Exc → Bool
  | urlError | osError | valueError => true
  | other _ => false

variable {φ : Type}

/-- The request for a reminder. -/
structure ReminderRequest (φ : Type) where
  url : PyStr
  authorization : Option PyStr
  timeout : φ

/-- What `urlopen` does: it raises, or gives a status and a body, whose reading may raise. -/
inductive Response where
  | raised (exc : Exc)
  | answered (status : Nat) (body : Except Exc ByteArray)

/-- The interpreter: scheme and netloc of `urlparse`, without a value where it raises, `float` of a
text, `3.0`, the texts that the standard output can encode, and the limits of the JSON reader. -/
structure Platform (φ : Type) where
  urlparse : PyStr → Option (PyStr × PyStr)
  toFloat : PyStr → Option φ
  defaultTimeout : φ
  encodes : PyStr → Bool
  limits : JsonLimits

/-- What the hook finds: the environment, the local queue, which may not open, what `drain` makes of
it, and the server. -/
structure Surroundings (φ : Type) where
  environ : String → Option PyStr
  wal : Except String Table
  drain : PyStr → φ → Table → Drained
  server : ReminderRequest φ → Response

/-! ## The environment -/

def isSpace : PyChar → Bool
  | .scalar c => isPySpace c
  | .lone _ => false

/-- `str.strip()`. -/
def strip (s : PyStr) : PyStr := ((s.dropWhile isSpace).reverse.dropWhile isSpace).reverse

/-- `_env`. -/
def env (S : Surroundings φ) (name default : String) : PyStr :=
  let value := strip ((S.environ name).getD (.ofString default))
  if value = [] then .ofString default else value

/-- `_DEFAULT_URL`. -/
def defaultUrl : String := "http://127.0.0.1:8765"

/-- `_DEFAULT_USER`. -/
def defaultUser : String := "chris"

def baseUrl (S : Surroundings φ) : PyStr := env S "PARALLAX_API_URL" defaultUrl

def userId (S : Surroundings φ) : PyStr := env S "PARALLAX_USER_ID" defaultUser

def token (S : Surroundings φ) : PyStr := strip ((S.environ "PARALLAX_TOKEN").getD [])

def timeout (P : Platform φ) (S : Surroundings φ) : φ :=
  (P.toFloat (env S "PARALLAX_HOOK_TIMEOUT" "3.0")).getD P.defaultTimeout

/-- `_is_safe_url`. -/
def isSafeUrl (P : Platform φ) (url : PyStr) : Bool :=
  match P.urlparse url with
  | none => false
  | some (scheme, netloc) =>
    (scheme = .ofString "http" ∨ scheme = .ofString "https") ∧ netloc ≠ []

/-! ## The reminder -/

def hexDigit (n : Nat) : Char := "0123456789ABCDEF".toList.getD n '0'

/-- What `urlencode` makes of a byte. -/
def quoteByte (b : UInt8) : List Char :=
  let c := Char.ofNat b.toNat
  if c.isAlphanum || c == '_' || c == '.' || c == '-' || c == '~' then [c]
  else if c = ' ' then ['+']
  else ['%', hexDigit (b.toNat / 16), hexDigit (b.toNat % 16)]

def quotePlus (s : String) : List Char := s.toUTF8.toList.flatMap quoteByte

/-- The request of `_fetch_reminder`. -/
def reminderRequest (P : Platform φ) (S : Surroundings φ) (user : String) : ReminderRequest φ where
  url := (baseUrl S).rdropWhile (· == .scalar '/') ++
    .ofChars ("/query/reminder?user_id=".toList ++ quotePlus user)
  authorization := if token S = [] then none else some (.ofString "Bearer " ++ token S)
  timeout := timeout P S

/-- The `try` of `_fetch_reminder`; without a value for a status other than 200. -/
def loadPayload (L : JsonLimits) : Response → Except Exc (Option PyJson)
  | .raised exc => .error exc
  | .answered status body =>
    if status ≠ 200 then .ok none
    else
      match body with
      | .error exc => .error exc
      | .ok bytes =>
        match String.fromUTF8? bytes with
        | none => .error .valueError
        | some text =>
          match PyJson.loadsWithin L text with
          | .error .malformed | .error .digits => .error .valueError
          | .error .depth => .error (.other "RecursionError")
          | .ok payload => .ok (some payload)

/-- The reminder of a payload. -/
def reminderOf : PyJson → Except Exc (Option PyStr)
  | .obj payload =>
    match PyJson.member? (.ofString "reminder") payload with
    | some (.str reminder) => .ok (if reminder = [] then none else some reminder)
    | _ => .ok none
  | _ => .error (.other "AttributeError")

/-- `_fetch_reminder` from its `except` clauses on. -/
def afterLoad : Except Exc (Option PyJson) → Except Exc (Option PyStr)
  | .error exc => if exc.caught then .ok none else .error exc
  | .ok none => .ok none
  | .ok (some payload) => reminderOf payload

/-- `_fetch_reminder`. The user is quoted before the `try`. -/
def fetchReminder (P : Platform φ) (S : Surroundings φ) : Except Exc (Option PyStr) :=
  if isSafeUrl P (baseUrl S) then
    match (userId S).encode? with
    | none => .error .valueError
    | some user => afterLoad (loadPayload P.limits (S.server (reminderRequest P S user)))
  else .ok none

/-! ## The hook -/

/-- The queue after `_drain_wal`, which catches whatever is raised. -/
def drainWal (P : Platform φ) (S : Surroundings φ) : Except String Table :=
  if isSafeUrl P (baseUrl S) then
    S.wal.map fun t => if t.rows = [] then t else (S.drain (baseUrl S) (timeout P S) t).table
  else S.wal

/-- The hook at its end: the queue, what it has written, and what `main` returns or raises. -/
structure Finished where
  wal : Except String Table
  stdout : PyStr
  result : Except Exc Nat

/-- `main`. -/
def main (P : Platform φ) (S : Surroundings φ) : Finished :=
  let wal := drainWal P S
  match fetchReminder P S with
  | .error exc => ⟨wal, [], .error exc⟩
  | .ok none => ⟨wal, [], .ok 0⟩
  | .ok (some reminder) =>
    if P.encodes reminder then ⟨wal, reminder ++ [.scalar '\n'], .ok 0⟩
    else ⟨wal, [], .error .valueError⟩

/-- The hook returns zero, and writes nothing or the reminder of a response and a newline. -/
structure NeverBlocks (P : Platform φ) (S : Surroundings φ) : Prop where
  result : (main P S).result = .ok 0
  stdout : (main P S).stdout = [] ∨ ∃ request bytes text payload reminder,
    S.server request = .answered 200 (.ok bytes) ∧ String.fromUTF8? bytes = some text ∧
      PyJson.loadsWithin P.limits text = .ok (.obj payload) ∧
      PyJson.member? (.ofString "reminder") payload = some (.str reminder) ∧ reminder ≠ [] ∧
      (main P S).stdout = reminder ++ [.scalar '\n']

/-! ## When it does -/

/-- The text does not nest too deep, and if it is JSON it is an object whose reminder the standard
output can encode. -/
def HandledText (P : Platform φ) (text : String) : Prop :=
  PyJson.loadsWithin P.limits text ≠ .error .depth ∧
    ∀ v, PyJson.loadsWithin P.limits text = .ok v → ∃ payload, v = .obj payload ∧
      ∀ reminder, PyJson.member? (.ofString "reminder") payload = some (.str reminder) →
        reminder ≠ [] → P.encodes reminder = true

/-- Whatever the response raises is caught, and a body that can be read is handled. -/
def Handled (P : Platform φ) : Response → Prop
  | .raised exc => exc.caught = true
  | .answered status body => status = 200 →
    (∀ exc, body = .error exc → exc.caught = true) ∧
      ∀ bytes text, body = .ok bytes → String.fromUTF8? bytes = some text → HandledText P text

/-- The base URL is refused, or the user can be quoted and the response is handled. -/
def Survivable (P : Platform φ) (S : Surroundings φ) : Prop :=
  isSafeUrl P (baseUrl S) = true → ∃ user, (userId S).encode? = some user ∧
    Handled P (S.server (reminderRequest P S user))

section Proofs

variable {P : Platform φ} {S : Surroundings φ}

/-- Nothing is raised, and a reminder can be written. -/
def Reports (P : Platform φ) (fetched : Except Exc (Option PyStr)) : Prop :=
  ∃ x, fetched = .ok x ∧ ∀ reminder, x = some reminder → P.encodes reminder = true

theorem reports_none : Reports P (.ok none) := ⟨none, rfl, nofun⟩

theorem not_reports_error (exc : Exc) : ¬ Reports P (.error exc) := by
  rintro ⟨x, ⟨⟩, -⟩

theorem reports_some_iff {reminder : PyStr} :
    Reports P (.ok (some reminder)) ↔ P.encodes reminder = true := by
  constructor
  · rintro ⟨_, ⟨⟩, h⟩
    exact h reminder rfl
  · intro h
    refine ⟨_, rfl, ?_⟩
    rintro _ ⟨⟩
    exact h

theorem result_iff : (main P S).result = .ok 0 ↔ Reports P (fetchReminder P S) := by
  rw [main]
  cases fetchReminder P S with
  | error exc => exact iff_of_false nofun (not_reports_error exc)
  | ok x =>
    cases x with
    | none => exact iff_of_true rfl reports_none
    | some reminder =>
      rw [reports_some_iff]
      dsimp only
      split_ifs with hencodes
      · exact iff_of_true rfl hencodes
      · exact iff_of_false nofun hencodes

theorem reports_reminderOf_iff (v : PyJson) : Reports P (reminderOf v) ↔
    ∃ payload, v = .obj payload ∧ ∀ reminder,
      PyJson.member? (.ofString "reminder") payload = some (.str reminder) →
        reminder ≠ [] → P.encodes reminder = true := by
  cases v with
  | obj payload =>
    have hobj : (∃ payload', PyJson.obj payload = .obj payload' ∧ ∀ reminder,
        PyJson.member? (.ofString "reminder") payload' = some (.str reminder) →
          reminder ≠ [] → P.encodes reminder = true) ↔ ∀ reminder,
        PyJson.member? (.ofString "reminder") payload = some (.str reminder) →
          reminder ≠ [] → P.encodes reminder = true := by
      simp
    rw [hobj, reminderOf]
    split
    · next reminder hreminder =>
      rw [hreminder]
      split_ifs with hempty
      · refine iff_of_true reports_none ?_
        rintro _ ⟨⟩ hne
        exact absurd hempty hne
      · rw [reports_some_iff]
        constructor
        · rintro h _ ⟨⟩ -
          exact h
        · intro h
          exact h reminder rfl hempty
    · next hother =>
      exact iff_of_true reports_none fun reminder hreminder => absurd hreminder (hother reminder)
  | _ => exact iff_of_false (not_reports_error _) (by rintro ⟨payload, ⟨⟩, -⟩)

theorem reports_text_iff {bytes : ByteArray} {text : String}
    (htext : String.fromUTF8? bytes = some text) :
    Reports P (afterLoad (loadPayload P.limits (.answered 200 (.ok bytes)))) ↔
      HandledText P text := by
  unfold loadPayload
  rw [HandledText]
  simp only [ne_eq, not_true_eq_false, if_false, htext]
  cases PyJson.loadsWithin P.limits text with
  | error e =>
    cases e with
    | depth => exact iff_of_false (not_reports_error _) fun h => h.1 rfl
    | _ => exact iff_of_true reports_none ⟨nofun, nofun⟩
  | ok v =>
    rw [afterLoad, reports_reminderOf_iff]
    constructor
    · intro h
      refine ⟨nofun, ?_⟩
      rintro _ ⟨⟩
      exact h
    · intro h
      exact h.2 v rfl

theorem reports_raised_iff (exc : Exc) :
    Reports P (afterLoad (.error exc)) ↔ exc.caught = true := by
  rw [afterLoad]
  split_ifs with hcaught
  · exact iff_of_true reports_none hcaught
  · exact iff_of_false (not_reports_error _) hcaught

theorem reports_response_iff (response : Response) :
    Reports P (afterLoad (loadPayload P.limits response)) ↔ Handled P response := by
  cases response with
  | raised exc => exact reports_raised_iff exc
  | answered status body =>
    rw [Handled]
    by_cases hstatus : status = 200
    · subst hstatus
      cases body with
      | error exc =>
        have hload : loadPayload P.limits (.answered 200 (.error exc)) = .error exc := rfl
        rw [hload, reports_raised_iff]
        constructor
        · rintro h -
          refine ⟨?_, nofun⟩
          rintro _ ⟨⟩
          exact h
        · intro h
          exact (h rfl).1 exc rfl
      | ok bytes =>
        cases htext : String.fromUTF8? bytes with
        | none =>
          have hload : loadPayload P.limits (.answered 200 (.ok bytes)) = .error .valueError := by
            simp [loadPayload, htext]
          rw [hload]
          refine iff_of_true reports_none fun _ => ⟨nofun, ?_⟩
          rintro _ text ⟨⟩ h
          rw [htext] at h
          cases h
        | some text =>
          rw [reports_text_iff htext]
          constructor
          · rintro h -
            refine ⟨nofun, ?_⟩
            rintro _ text' ⟨⟩ h'
            rw [htext] at h'
            cases h'
            exact h
          · intro h
            exact (h rfl).2 bytes text rfl htext
    · have hload : loadPayload P.limits (.answered status body) = .ok none := by
        unfold loadPayload
        exact if_pos hstatus
      rw [hload]
      exact iff_of_true reports_none fun h => absurd h hstatus

theorem reports_fetchReminder_iff : Reports P (fetchReminder P S) ↔ Survivable P S := by
  rw [fetchReminder, Survivable]
  split_ifs with hsafe
  · cases huser : (userId S).encode? with
    | none =>
      refine iff_of_false (not_reports_error _) fun h => ?_
      obtain ⟨user, ⟨⟩, -⟩ := h hsafe
    | some user =>
      rw [reports_response_iff]
      simp [hsafe]
  · exact iff_of_true reports_none fun h => absurd h hsafe

theorem loadPayload_some {L : JsonLimits} {response : Response} {v : PyJson}
    (h : loadPayload L response = .ok (some v)) :
    ∃ bytes text, response = .answered 200 (.ok bytes) ∧ String.fromUTF8? bytes = some text ∧
      PyJson.loadsWithin L text = .ok v := by
  unfold loadPayload at h
  split at h
  · cases h
  · next status body =>
    split_ifs at h with hstatus
    · cases h
    · obtain rfl : status = 200 := not_not.1 hstatus
      split at h
      · cases h
      · next bytes =>
        split at h
        · cases h
        · next text htext =>
          split at h
          · cases h
          · cases h
          · cases h
          · next payload hpayload =>
            cases h
            exact ⟨bytes, text, rfl, htext, hpayload⟩

theorem reminderOf_some {v : PyJson} {reminder : PyStr} (h : reminderOf v = .ok (some reminder)) :
    ∃ payload, v = .obj payload ∧
      PyJson.member? (.ofString "reminder") payload = some (.str reminder) ∧ reminder ≠ [] := by
  unfold reminderOf at h
  split at h
  · next payload =>
    split at h
    · next found hfound =>
      split_ifs at h with hempty
      · cases h
      · cases h
        exact ⟨payload, rfl, hfound, hempty⟩
    · cases h
  · cases h

/-- A reminder that is fetched is that of a response. -/
theorem fetchReminder_some {reminder : PyStr} (h : fetchReminder P S = .ok (some reminder)) :
    ∃ request bytes text payload, S.server request = .answered 200 (.ok bytes) ∧
      String.fromUTF8? bytes = some text ∧
      PyJson.loadsWithin P.limits text = .ok (.obj payload) ∧
      PyJson.member? (.ofString "reminder") payload = some (.str reminder) ∧ reminder ≠ [] := by
  rw [fetchReminder] at h
  split_ifs at h
  · cases huser : (userId S).encode? with
    | none =>
      rw [huser] at h
      cases h
    | some user =>
      simp only [huser] at h
      cases hload : loadPayload P.limits (S.server (reminderRequest P S user)) with
      | error exc =>
        simp only [hload, afterLoad] at h
        split_ifs at h
        cases h
      | ok x =>
        cases x with
        | none =>
          simp only [hload, afterLoad] at h
          cases h
        | some v =>
          simp only [hload, afterLoad] at h
          obtain ⟨bytes, text, hresponse, htext, hloads⟩ := loadPayload_some hload
          obtain ⟨payload, rfl, hmember, hne⟩ := reminderOf_some h
          exact ⟨_, bytes, text, payload, hresponse, htext, hloads, hmember, hne⟩
  · cases h

end Proofs

/-- The hook never blocks a session exactly when its base URL is refused, or its user can be quoted
and the `except` clauses are enough for the response. -/
theorem neverBlocks_iff (P : Platform φ) (S : Surroundings φ) :
    NeverBlocks P S ↔ Survivable P S := by
  rw [← reports_fetchReminder_iff, ← result_iff]
  constructor
  · intro h
    exact h.result
  · intro hresult
    refine ⟨hresult, ?_⟩
    rw [main] at hresult ⊢
    cases hfetch : fetchReminder P S with
    | error exc => exact .inl rfl
    | ok x =>
      cases x with
      | none => exact .inl rfl
      | some reminder =>
        dsimp only
        split_ifs
        · obtain ⟨request, bytes, text, payload, hfound⟩ := fetchReminder_some hfetch
          exact .inr ⟨request, bytes, text, payload, reminder, hfound.1, hfound.2.1, hfound.2.2.1,
            hfound.2.2.2.1, hfound.2.2.2.2, rfl⟩
        · exact .inl rfl

/-- The environment is empty and so is the queue; the response ends before its body does. -/
def truncated : Surroundings Unit where
  environ _ := none
  wal := .ok ⟨[], 0⟩
  drain _ _ t := ⟨t, [], .ok ⟨0, 0, 0⟩⟩
  server _ := .answered 200 (.error (.other "IncompleteRead"))

def plainPlatform : Platform Unit where
  urlparse _ := some (.ofString "http", .ofString "127.0.0.1:8765")
  toFloat _ := some ()
  defaultTimeout := ()
  encodes _ := true
  limits := ⟨4300, 990⟩

/-- A truncated body raises out of the hook. -/
theorem truncated_raises : ¬ NeverBlocks plainPlatform truncated := by
  intro h
  have hresult := h.result
  have hraised : (main plainPlatform truncated).result = .error (.other "IncompleteRead") := by
    rfl
  rw [hraised] at hresult
  cases hresult

end ParallaxKernel.Client.Hook
