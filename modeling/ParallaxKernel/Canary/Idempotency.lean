import Mathlib.Data.List.Induction
import ParallaxKernel.Lib.KeyedLocks
import ParallaxKernel.Lib.Uuid

/-!
# The idempotency handler

`IdempotencyHandler` of `canary/idempotency.py` over `AuditLog` of `canary/audit_log.py`, called by
any number of threads. A step is what one thread does between two accesses to what the threads
share: each query of the audit log, each section under the meta-lock, taking and leaving the lock
of the event, and the worker. Audit reads and writes succeed; a worker returns a response or raises.
-/

namespace ParallaxKernel.Canary

open Lib

/-! ## Event ids -/

/-- `is_uuid7` of a string, where `uuidInt` is `uuid.UUID(value).int`, without a value where the
constructor raises. -/
def isUuid7 (uuidInt : String → Option Nat) (value : String) : Bool :=
  match uuidInt value with
  | none => false
  | some uuid =>
    if uuidVersion uuid ≠ some 7 then false
    else (uuid >>> 56) &&& 0xC0 = 0x80

/-! ## The audit log -/

structure CachedResponse where
  status : Int
  body : String
  deriving DecidableEq

/-- The columns of an `audit_log` row that the handler reads. -/
structure AuditRow where
  responseStatus : Int
  responseBody : Option String
  deriving DecidableEq

/-- The response that a row caches; a row without a body caches none. -/
def AuditRow.cached (row : AuditRow) : Option CachedResponse :=
  row.responseBody.map fun body => ⟨row.responseStatus, body⟩

abbrev AuditLog := String → Option AuditRow

namespace AuditLog

def lookupResponse (audit : AuditLog) (eventId : String) : Option String :=
  (audit eventId).bind (·.responseBody)

/-- `AuditLog.record`: on a conflict a missing body leaves the one that is there. -/
def record (audit : AuditLog) (eventId : String) (responseStatus : Int)
    (responseBody : Option String) : AuditLog :=
  Function.update audit eventId
    (some ⟨responseStatus, responseBody.or (audit.lookupResponse eventId)⟩)

/-- What one consistent read finds cached. -/
def cached (audit : AuditLog) (eventId : String) : Option CachedResponse :=
  (audit eventId).bind (·.cached)

theorem cached_record (audit : AuditLog) (eventId other : String) (r : CachedResponse) :
    (audit.record eventId r.status (some r.body)).cached other =
      if other = eventId then some r else audit.cached other := by
  by_cases hother : other = eventId
  · subst hother
    simp [cached, record, AuditRow.cached]
  · simp [cached, record, hother]

theorem lookupResponse_of_cached {audit : AuditLog} {eventId : String} {r : CachedResponse}
    (h : audit.cached eventId = some r) : audit.lookupResponse eventId = some r.body := by
  obtain ⟨row, hrow, hcached⟩ := Option.bind_eq_some_iff.1 h
  obtain ⟨body, hbody, rfl⟩ := Option.map_eq_some_iff.1 hcached
  simp [lookupResponse, hrow, hbody]

theorem lookupResponse_eq_none {audit : AuditLog} {eventId : String} :
    audit.lookupResponse eventId = none ↔ audit.cached eventId = none := by
  cases hrow : audit eventId with
  | none => simp [lookupResponse, cached, hrow]
  | some row => simp [lookupResponse, cached, AuditRow.cached, hrow]

end AuditLog

/-! ## Calls -/

structure IdempotencyResult where
  status : Int
  body : String
  hit : Bool
  auditPersisted : Bool
  deriving DecidableEq

/-- How a call ends. -/
inductive Outcome where
  | returned (result : IdempotencyResult)
  | workerRaised
  | invalidEventId
  deriving DecidableEq

/-- The response of the worker that the call itself has run. -/
def Outcome.response : Outcome → Option CachedResponse
  | returned result => if result.hit then none else some ⟨result.status, result.body⟩
  | _ => none

/-- `_on_cache_hit`, once its row is written. -/
def onCacheHit (cached : CachedResponse) : Outcome :=
  .returned ⟨cached.status, cached.body, true, true⟩

/-- The end of `_execute_worker`, once its row is written. -/
def onResponse (response : CachedResponse) : Outcome :=
  .returned ⟨response.status, response.body, false, true⟩

/-- Where a call of `handle` stands. Of the row that a lookup has read it uses the status alone. -/
inductive Pc where
  | lookup
  | lookupBody (seen : AuditRow)
  | hit (cached : CachedResponse)
  | acquire
  | wait (lock : Nat)
  | recheck (lock : Nat)
  | recheckBody (lock : Nat) (seen : AuditRow)
  | lockedHit (lock : Nat) (cached : CachedResponse)
  | work (lock : Nat)
  | record (lock : Nat) (response : CachedResponse)
  | unlock (lock : Nat) (outcome : Outcome)
  | release (lock : Nat) (outcome : Outcome)
  | finished (outcome : Outcome)
  deriving DecidableEq

namespace Pc

/-- Where the call stands with the lock of its event. -/
def phase : Pc → Phase
  | lookup | lookupBody _ | hit _ | acquire | finished _ => .outside
  | wait lock => .waiting lock
  | recheck lock | recheckBody lock _ | lockedHit lock _ | work lock | record lock _
  | unlock lock _ => .inside lock
  | release lock _ => .leaving lock

/-- The next step of a call for `eventId`; there is none while the lock is held by another, while
the worker runs and at the end. -/
def next (locks : LockTable String) (audit : AuditLog) (eventId : String) :
    Pc → Option (Pc × LockTable String × AuditLog)
  | lookup =>
    match audit eventId with
    | none => some (acquire, locks, audit)
    | some row => some (lookupBody row, locks, audit)
  | lookupBody seen =>
    match audit.lookupResponse eventId with
    | none => some (acquire, locks, audit)
    | some body => some (hit ⟨seen.responseStatus, body⟩, locks, audit)
  | hit cached => some (finished (onCacheHit cached), locks,
      audit.record eventId cached.status (some cached.body))
  | acquire => some (wait (locks.acquire eventId).1, (locks.acquire eventId).2, audit)
  | wait lock => (locks.enter lock).map fun locks => (recheck lock, locks, audit)
  | recheck lock =>
    match audit eventId with
    | none => some (work lock, locks, audit)
    | some row => some (recheckBody lock row, locks, audit)
  | recheckBody lock seen =>
    match audit.lookupResponse eventId with
    | none => some (work lock, locks, audit)
    | some body => some (lockedHit lock ⟨seen.responseStatus, body⟩, locks, audit)
  | lockedHit lock cached => some (unlock lock (onCacheHit cached), locks,
      audit.record eventId cached.status (some cached.body))
  | work _ => none
  | record lock response => some (unlock lock (onResponse response), locks,
      audit.record eventId response.status (some response.body))
  | unlock lock outcome => some (release lock outcome, locks.leave lock, audit)
  | release _ outcome => some (finished outcome, locks.release eventId, audit)
  | finished _ => none

/-- The worker ends: with a response, or by an exception. -/
def worked (response : Option CachedResponse) : Pc → Option Pc
  | work lock => some (match response with
    | some response => record lock response
    | none => unlock lock .workerRaised)
  | _ => none

def working : Pc → Bool
  | work _ => true
  | _ => false

/-- The response of the worker that the call ran to its end. -/
def response : Pc → Option CachedResponse
  | record _ r => some r
  | unlock _ outcome | release _ outcome | finished outcome => outcome.response
  | _ => none

/-- The call has not yet entered the lock, and has not been answered. -/
def pending : Pc → Bool
  | lookup | lookupBody _ | acquire | wait _ => true
  | _ => false

end Pc

structure HandleCall where
  eventId : String
  pc : Pc
  deriving DecidableEq

/-- The handler with every call it ever took, `_event_locks` and the audit log. -/
structure IdempotencyHandler where
  calls : List HandleCall
  eventLocks : LockTable String
  audit : AuditLog

inductive Action where
  | handle (eventId : String)
  | step (i : Nat)
  | worker (i : Nat) (response : Option CachedResponse)

namespace IdempotencyHandler

/-- `IdempotencyHandler.__init__` over an audit log. -/
def new (audit : AuditLog) : IdempotencyHandler := ⟨[], .empty, audit⟩

variable (uuidInt : String → Option Nat)

/-- The first step of a call: an id that is no UUID v7 is refused. -/
def handle (h : IdempotencyHandler) (eventId : String) : IdempotencyHandler :=
  { h with calls := h.calls ++
      [⟨eventId, if isUuid7 uuidInt eventId then .lookup else .finished .invalidEventId⟩] }

def step (h : IdempotencyHandler) : Action → Option IdempotencyHandler
  | .handle eventId => some (h.handle uuidInt eventId)
  | .step i => do
    let c ← h.calls[i]?
    let (pc, locks, audit) ← c.pc.next h.eventLocks h.audit c.eventId
    return ⟨h.calls.set i ⟨c.eventId, pc⟩, locks, audit⟩
  | .worker i response => do
    let c ← h.calls[i]?
    let pc ← c.pc.worked response
    return { h with calls := h.calls.set i ⟨c.eventId, pc⟩ }

def play (h : IdempotencyHandler) (actions : List Action) : Option IdempotencyHandler :=
  actions.foldlM (step uuidInt) h

/-- Nothing is cached for the event and no call of it is inside its lock. -/
def Idle (h : IdempotencyHandler) (eventId : String) : Prop :=
  h.audit.cached eventId = none ∧
    ∀ c ∈ h.calls, c.eventId = eventId → ∀ lock, c.pc.phase ≠ .inside lock

/-- What the handler promises at one moment of a run. -/
structure AtMostOnce (h : IdempotencyHandler) : Prop where
  one_worker : ∀ (i j : Nat) (c c' : HandleCall),
    h.calls[i]? = some c → h.calls[j]? = some c' → c.eventId = c'.eventId →
    c.pc.working = true → c'.pc.working = true → i = j
  one_success : ∀ (i j : Nat) (c c' : HandleCall) (r r' : CachedResponse),
    h.calls[i]? = some c → h.calls[j]? = some c' → c.eventId = c'.eventId →
    c.pc.response = some r → c'.pc.response = some r' → i = j
  others_hit : ∀ (i j : Nat) (c c' : HandleCall) (r : CachedResponse)
    (result : IdempotencyResult), h.calls[i]? = some c → h.calls[j]? = some c' →
    c.eventId = c'.eventId → i ≠ j → c.pc.response = some r →
    c'.pc = .finished (.returned result) → result = ⟨r.status, r.body, true, true⟩
  freed : ∀ (i : Nat) (c : HandleCall) (lock : Nat), h.calls[i]? = some c →
    c.pc = .unlock lock .workerRaised →
    ∃ h', h.step uuidInt (.step i) = some h' ∧ h'.Idle c.eventId
  later : ∀ eventId, h.Idle eventId → isUuid7 uuidInt eventId = true →
    ∃ h', h.step uuidInt (.handle eventId) = some h' ∧ h'.Idle eventId ∧
      h'.calls = h.calls ++ [⟨eventId, .lookup⟩]
  runs : ∀ (i : Nat) (c : HandleCall), h.calls[i]? = some c → h.Idle c.eventId →
    c.pc.pending = true →
    ∃ n h' lock, h.play uuidInt (List.replicate n (.step i)) = some h' ∧
      h'.calls[i]? = some ⟨c.eventId, .work lock⟩
  refs_pos : ∀ eventId e, h.eventLocks.entries eventId = some e → 0 < e.refs
  one_lock : ∀ c ∈ h.calls, ∀ c' ∈ h.calls, c.eventId = c'.eventId → ∀ lock lock',
    c.pc.phase.lock = some lock → c'.pc.phase.lock = some lock' → lock = lock'
  emptied : (∀ c ∈ h.calls, ∃ outcome, c.pc = .finished outcome) →
    ∀ eventId, h.eventLocks.entries eventId = none

/-- The unlocked lookup is not torn: it does not find a body for a row that it has seen without. -/
def Guarded (h : IdempotencyHandler) : Action → Prop
  | .step i => ∀ (c : HandleCall) seen, h.calls[i]? = some c → c.pc = .lookupBody seen →
      seen.responseBody = none → h.audit.lookupResponse c.eventId = none
  | _ => True

def GuardedRun (h : IdempotencyHandler) : List Action → Prop
  | [] => True
  | a :: actions => h.Guarded a ∧ ∀ h', h.step uuidInt a = some h' → h'.GuardedRun actions

end IdempotencyHandler

/-! ## The invariant -/

/-- What a call knows about what is cached for its event. -/
def Pc.Agrees (cached : Option CachedResponse) : Pc → Prop
  | lookupBody seen => ∀ r, seen.cached = some r → cached = some r
  | recheckBody _ seen => seen.cached = cached
  | hit r | lockedHit _ r => cached = some r
  | work _ | record .. | unlock _ .workerRaised => cached = none
  | unlock _ (.returned result) | release _ (.returned result) | finished (.returned result) =>
    cached = some ⟨result.status, result.body⟩ ∧ result.auditPersisted = true
  | _ => True

structure IdempotencyHandler.Inv (h : IdempotencyHandler) : Prop where
  locks : LockInv h.eventLocks (h.calls.map fun c => (c.eventId, c.pc.phase))
  agrees : ∀ (i : Nat) (c : HandleCall), h.calls[i]? = some c →
    c.pc.Agrees (h.audit.cached c.eventId)
  one : ∀ (i j : Nat) (c c' : HandleCall) (r r' : CachedResponse),
    h.calls[i]? = some c → h.calls[j]? = some c' → c.eventId = c'.eventId →
    c.pc.response = some r → c'.pc.response = some r' → i = j

/-- A call that ran its worker to the end is about to write the response, or it is cached. -/
theorem Pc.response_cases {pc : Pc} {r : CachedResponse} {cached : Option CachedResponse}
    (hr : pc.response = some r) (hagrees : pc.Agrees cached) :
    (∃ lock, pc = .record lock r) ∨ cached = some r := by
  have hended {outcome : Outcome} (hr : outcome.response = some r)
      (hresult : ∀ result, outcome = .returned result →
        cached = some ⟨result.status, result.body⟩) : cached = some r := by
    cases outcome with
    | returned result =>
      simp only [Outcome.response] at hr
      split at hr
      · exact nomatch hr
      · rw [hresult result rfl, ← hr]
    | workerRaised => exact nomatch hr
    | invalidEventId => exact nomatch hr
  cases pc with
  | record lock r' =>
    obtain rfl := Option.some.inj hr
    exact .inl ⟨lock, rfl⟩
  | unlock lock outcome =>
    refine .inr (hended hr ?_)
    rintro result rfl
    exact hagrees.1
  | release lock outcome =>
    refine .inr (hended hr ?_)
    rintro result rfl
    exact hagrees.1
  | finished outcome =>
    refine .inr (hended hr ?_)
    rintro result rfl
    exact hagrees.1
  | _ => exact nomatch hr

namespace Pc

variable {pc pc' : Pc} {locks locks' : LockTable String} {audit audit' : AuditLog}
  {eventId : String}

theorem Agrees.fill (h : pc.Agrees none) (hout : ∀ lock, pc.phase ≠ .inside lock)
    (r : CachedResponse) : pc.Agrees (some r) := by
  cases pc with
  | lookupBody seen =>
    intro r' hr'
    exact nomatch h r' hr'
  | hit r' => exact nomatch h
  | recheckBody lock seen => exact absurd rfl (hout lock)
  | lockedHit lock r' => exact absurd rfl (hout lock)
  | work lock => exact absurd rfl (hout lock)
  | record lock r' => exact absurd rfl (hout lock)
  | unlock lock outcome => exact absurd rfl (hout lock)
  | release lock outcome =>
    cases outcome with
    | returned result => exact nomatch h.1
    | workerRaised => trivial
    | invalidEventId => trivial
  | finished outcome =>
    cases outcome with
    | returned result => exact nomatch h.1
    | workerRaised => trivial
    | invalidEventId => trivial
  | lookup => trivial
  | acquire => trivial
  | wait lock => trivial
  | recheck lock => trivial

/-- A step moves the call in the table of locks as its phase says. -/
theorem next_locks {clients : List (String × Phase)} {i : Nat}
    (hnext : pc.next locks audit eventId = some (pc', locks', audit'))
    (hi : clients[i]? = some (eventId, pc.phase)) (hinv : LockInv locks clients) :
    LockInv locks' (clients.set i (eventId, pc'.phase)) := by
  cases pc with
  | lookup =>
    simp only [next] at hnext
    split at hnext <;> cases hnext <;> exact hinv.stay hi
  | lookupBody seen =>
    simp only [next] at hnext
    split at hnext <;> cases hnext <;> exact hinv.stay hi
  | hit r =>
    cases hnext
    exact hinv.stay hi
  | acquire =>
    cases hnext
    exact hinv.acquire hi
  | wait lock =>
    obtain ⟨entered, henter, heq⟩ := Option.map_eq_some_iff.1 hnext
    cases heq
    exact hinv.enter hi henter
  | recheck lock =>
    simp only [next] at hnext
    split at hnext <;> cases hnext <;> exact hinv.stay hi
  | recheckBody lock seen =>
    simp only [next] at hnext
    split at hnext <;> cases hnext <;> exact hinv.stay hi
  | lockedHit lock r =>
    cases hnext
    exact hinv.stay hi
  | work lock => cases hnext
  | record lock r =>
    cases hnext
    exact hinv.stay hi
  | unlock lock outcome =>
    cases hnext
    exact hinv.leave hi
  | release lock outcome =>
    cases hnext
    exact hinv.release hi
  | finished outcome => cases hnext

/-- The body that a lookup finds belongs to the row that it has seen. -/
theorem cached_of_seen {seen : AuditRow} {body : String}
    (hseen : ∀ r, seen.cached = some r → audit.cached eventId = some r)
    (hwhole : seen.responseBody = none → audit.lookupResponse eventId = none)
    (hbody : audit.lookupResponse eventId = some body) :
    audit.cached eventId = some ⟨seen.responseStatus, body⟩ := by
  cases hfound : seen.responseBody with
  | none => exact nomatch (hwhole hfound).symm.trans hbody
  | some body' =>
    have hcached := hseen ⟨seen.responseStatus, body'⟩ (by simp [AuditRow.cached, hfound])
    obtain rfl : body' = body :=
      Option.some.inj ((AuditLog.lookupResponse_of_cached hcached).symm.trans hbody)
    exact hcached

/-- A step keeps what the call knows; only the record of a response changes what is cached. -/
theorem next_spec (hnext : pc.next locks audit eventId = some (pc', locks', audit'))
    (hagrees : pc.Agrees (audit.cached eventId))
    (hwhole : ∀ seen, pc = .lookupBody seen → seen.responseBody = none →
      audit.lookupResponse eventId = none) :
    pc'.response = pc.response ∧ pc'.Agrees (audit'.cached eventId) ∧
      ((∀ other, audit'.cached other = audit.cached other) ∨
        ∃ lock r, pc = .record lock r ∧ ∀ other,
          audit'.cached other = if other = eventId then some r else audit.cached other) := by
  have hwrite (r : CachedResponse) (hr : audit.cached eventId = some r) (other : String) :
      (audit.record eventId r.status (some r.body)).cached other = audit.cached other := by
    rw [AuditLog.cached_record]
    split
    · next heq => rw [heq, hr]
    · rfl
  cases pc with
  | lookup =>
    simp only [next] at hnext
    split at hnext
    · cases hnext
      exact ⟨rfl, trivial, .inl fun _ => rfl⟩
    · next row hrow =>
      cases hnext
      exact ⟨rfl, fun r hr => by simp [AuditLog.cached, hrow, hr], .inl fun _ => rfl⟩
  | lookupBody seen =>
    simp only [next] at hnext
    split at hnext
    · cases hnext
      exact ⟨rfl, trivial, .inl fun _ => rfl⟩
    · next body hbody =>
      cases hnext
      exact ⟨rfl, cached_of_seen hagrees (hwhole seen rfl) hbody, .inl fun _ => rfl⟩
  | hit r =>
    cases hnext
    exact ⟨rfl, ⟨(hwrite r hagrees _).trans hagrees, rfl⟩, .inl (hwrite r hagrees)⟩
  | acquire =>
    cases hnext
    exact ⟨rfl, trivial, .inl fun _ => rfl⟩
  | wait lock =>
    obtain ⟨entered, henter, heq⟩ := Option.map_eq_some_iff.1 hnext
    cases heq
    exact ⟨rfl, trivial, .inl fun _ => rfl⟩
  | recheck lock =>
    simp only [next] at hnext
    split at hnext
    · next hrow =>
      cases hnext
      exact ⟨rfl, by simp [Agrees, AuditLog.cached, hrow], .inl fun _ => rfl⟩
    · next row hrow =>
      cases hnext
      exact ⟨rfl, by simp [Agrees, AuditLog.cached, hrow], .inl fun _ => rfl⟩
  | recheckBody lock seen =>
    have hseen : seen.cached = audit.cached eventId := hagrees
    simp only [next] at hnext
    split at hnext
    · next hnone =>
      cases hnext
      exact ⟨rfl, AuditLog.lookupResponse_eq_none.1 hnone, .inl fun _ => rfl⟩
    · next body hbody =>
      cases hnext
      refine ⟨rfl, cached_of_seen (fun r hr => hseen ▸ hr) (fun hnone => ?_) hbody,
        .inl fun _ => rfl⟩
      rw [AuditLog.lookupResponse_eq_none, ← hseen]
      simp [AuditRow.cached, hnone]
  | lockedHit lock r =>
    cases hnext
    exact ⟨rfl, ⟨(hwrite r hagrees _).trans hagrees, rfl⟩, .inl (hwrite r hagrees)⟩
  | work lock => cases hnext
  | record lock r =>
    cases hnext
    have hrecord := audit.cached_record eventId
    exact ⟨rfl, ⟨by simp [hrecord], rfl⟩, .inr ⟨lock, r, rfl, fun other => hrecord other r⟩⟩
  | unlock lock outcome =>
    cases hnext
    cases outcome with
    | returned result => exact ⟨rfl, hagrees, .inl fun _ => rfl⟩
    | workerRaised => exact ⟨rfl, trivial, .inl fun _ => rfl⟩
    | invalidEventId => exact ⟨rfl, trivial, .inl fun _ => rfl⟩
  | release lock outcome =>
    cases hnext
    cases outcome with
    | returned result => exact ⟨rfl, hagrees, .inl fun _ => rfl⟩
    | workerRaised => exact ⟨rfl, trivial, .inl fun _ => rfl⟩
    | invalidEventId => exact ⟨rfl, trivial, .inl fun _ => rfl⟩
  | finished outcome => cases hnext

end Pc

namespace IdempotencyHandler

variable {h h' : IdempotencyHandler} {i : Nat} {c : HandleCall}

theorem Inv.new (audit : AuditLog) : (IdempotencyHandler.new audit).Inv :=
  ⟨LockInv.empty, by simp [IdempotencyHandler.new], by simp [IdempotencyHandler.new]⟩

theorem Inv.inside (hinv : h.Inv) {j : Nat} {c' : HandleCall} (hi : h.calls[i]? = some c)
    (hj : h.calls[j]? = some c') (hid : c.eventId = c'.eventId) {lock lock' : Nat}
    (hin : c.pc.phase = .inside lock) (hin' : c'.pc.phase = .inside lock') : i = j := by
  have hclient : (h.calls.map fun c => (c.eventId, c.pc.phase))[i]? =
      some (c.eventId, .inside lock) := by simp [hi, hin]
  have hclient' : (h.calls.map fun c => (c.eventId, c.pc.phase))[j]? =
      some (c.eventId, .inside lock') := by simp [hj, hid, hin']
  exact hinv.locks.exclusive hclient hclient'

/-- A call of the list in which one call has moved. -/
theorem getElem?_moved {calls : List HandleCall} {c c' : HandleCall} {i j : Nat}
    (hj : (calls.set i c)[j]? = some c') : (j = i ∧ c' = c) ∨ (j ≠ i ∧ calls[j]? = some c') := by
  by_cases hne : i = j
  · subst hne
    obtain ⟨hlt, hget⟩ := List.getElem?_eq_some_iff.1 hj
    exact .inl ⟨rfl, by simpa using hget.symm⟩
  · exact .inr ⟨Ne.symm hne, by rwa [List.getElem?_set_ne hne] at hj⟩

/-- One call moves, and no response appears but where no other call of the event has one. -/
theorem Inv.move (hinv : h.Inv) (hi : h.calls[i]? = some c) {pc : Pc}
    {locks : LockTable String} {audit : AuditLog}
    (hlocks : LockInv locks
      ((h.calls.map fun c => (c.eventId, c.pc.phase)).set i (c.eventId, pc.phase)))
    (hself : pc.Agrees (audit.cached c.eventId))
    (hothers : ∀ (j : Nat) (c' : HandleCall), h.calls[j]? = some c' → j ≠ i →
      c'.pc.Agrees (audit.cached c'.eventId))
    (hresponse : ∀ r, pc.response = some r → c.pc.response = some r ∨
      ∀ (j : Nat) (c' : HandleCall), h.calls[j]? = some c' → c'.eventId = c.eventId →
        c'.pc.response = none) :
    Inv ⟨h.calls.set i ⟨c.eventId, pc⟩, locks, audit⟩ := by
  refine ⟨by simpa only [List.map_set] using hlocks, fun j c' hj => ?_,
    fun j k c₁ c₂ r r' hj hk hid hr hr' => ?_⟩
  · obtain ⟨rfl, rfl⟩ | ⟨hne, hj⟩ := getElem?_moved hj
    · exact hself
    · exact hothers j c' hj hne
  · have hclash {j : Nat} {c' : HandleCall} {r r' : CachedResponse} (hj : h.calls[j]? = some c')
        (hid : c'.eventId = c.eventId) (hr : pc.response = some r)
        (hr' : c'.pc.response = some r') : i = j := by
      obtain hold | hnone := hresponse r hr
      · exact hinv.one i j c c' r r' hi hj hid.symm hold hr'
      · cases (hnone j c' hj hid).symm.trans hr'
    obtain ⟨rfl, rfl⟩ | ⟨-, hj'⟩ := getElem?_moved hj <;>
      obtain ⟨rfl, rfl⟩ | ⟨-, hk'⟩ := getElem?_moved hk
    · rfl
    · exact hclash hk' hid.symm hr hr'
    · exact (hclash hj' hid hr' hr).symm
    · exact hinv.one j k c₁ c₂ r r' hj' hk' hid hr hr'

variable {uuidInt : String → Option Nat}

theorem Inv.next (hinv : h.Inv) (hi : h.calls[i]? = some c) {pc : Pc}
    {locks : LockTable String} {audit : AuditLog} (hguarded : h.Guarded (.step i))
    (hnext : c.pc.next h.eventLocks h.audit c.eventId = some (pc, locks, audit)) :
    Inv ⟨h.calls.set i ⟨c.eventId, pc⟩, locks, audit⟩ := by
  have hagrees := hinv.agrees i c hi
  obtain ⟨hresponse, hself, haudit⟩ :=
    Pc.next_spec hnext hagrees fun seen hpc => hguarded c seen hi hpc
  refine hinv.move hi (Pc.next_locks hnext (by simp [hi]) hinv.locks) hself ?_
    fun r hr => .inl (hresponse ▸ hr)
  intro j c' hj hne
  have hother := hinv.agrees j c' hj
  obtain hsame | ⟨lock, r, hpc, hrecord⟩ := haudit
  · rwa [hsame]
  · rw [hrecord]
    split
    · next heq =>
      rw [hpc] at hagrees
      rw [heq, show h.audit.cached c.eventId = none from hagrees] at hother
      refine hother.fill (fun lock' hin => hne ?_) r
      exact (hinv.inside hi hj heq.symm (by rw [hpc]; rfl) hin).symm
    · exact hother

theorem Inv.worked (hinv : h.Inv) (hi : h.calls[i]? = some c) {pc : Pc}
    {response : Option CachedResponse} (hworked : c.pc.worked response = some pc) :
    Inv { h with calls := h.calls.set i ⟨c.eventId, pc⟩ } := by
  have hagrees := hinv.agrees i c hi
  obtain ⟨lock, hpc⟩ : ∃ lock, c.pc = .work lock := by
    cases hpc : c.pc with
    | work lock => exact ⟨lock, rfl⟩
    | _ => simp [hpc, Pc.worked] at hworked
  rw [hpc] at hworked hagrees
  have hnone : h.audit.cached c.eventId = none := hagrees
  have hphase : pc.phase = .inside lock := by
    cases response <;> cases hworked <;> rfl
  refine hinv.move hi ?_ ?_ (fun j c' hj _ => hinv.agrees j c' hj) fun r hr => .inr ?_
  · rw [hphase]
    exact hinv.locks.stay (by simp [hi, hpc, Pc.phase])
  · cases response <;> cases hworked <;> exact hnone
  · intro j c' hj hid
    cases hr' : c'.pc.response with
    | none => rfl
    | some r' =>
      obtain ⟨lock', hpc'⟩ | hcached := Pc.response_cases hr' (hinv.agrees j c' hj)
      · obtain rfl := hinv.inside hi hj hid.symm (by rw [hpc]; rfl) (by rw [hpc']; rfl)
        obtain rfl := Option.some.inj (hi.symm.trans hj)
        exact nomatch hpc.symm.trans hpc'
      · rw [hid, hnone] at hcached
        exact nomatch hcached

theorem Inv.handle (hinv : h.Inv) (eventId : String) : (h.handle uuidInt eventId).Inv := by
  have hnew (j : Nat) (c' : HandleCall) (hj : (h.handle uuidInt eventId).calls[j]? = some c') :
      h.calls[j]? = some c' ∨ (c'.pc.response = none ∧ ∀ cached, c'.pc.Agrees cached) := by
    simp only [IdempotencyHandler.handle, List.getElem?_append, List.getElem?_singleton] at hj
    split_ifs at hj with hold hlast hvalid
    · exact .inl hj
    · obtain rfl := Option.some.inj hj
      exact .inr ⟨rfl, fun _ => trivial⟩
    · obtain rfl := Option.some.inj hj
      exact .inr ⟨rfl, fun _ => trivial⟩
  refine ⟨?_, fun j c' hj => ?_, fun j k c₁ c₂ r r' hj hk hid hr hr' => ?_⟩
  · have hcome := hinv.locks.come eventId
    by_cases hvalid : isUuid7 uuidInt eventId = true
    · simpa [IdempotencyHandler.handle, hvalid, Pc.phase] using hcome
    · simpa [IdempotencyHandler.handle, hvalid, Pc.phase] using hcome
  · obtain hold | ⟨-, hany⟩ := hnew j c' hj
    · exact hinv.agrees j c' hold
    · exact hany _
  · obtain hold | ⟨hnone, -⟩ := hnew j c₁ hj
    · obtain hold' | ⟨hnone, -⟩ := hnew k c₂ hk
      · exact hinv.one j k c₁ c₂ r r' hold hold' hid hr hr'
      · cases hnone.symm.trans hr'
    · cases hnone.symm.trans hr

/-- A guarded step keeps the invariant. -/
theorem Inv.step {a : Action} (hinv : h.Inv) (hguarded : h.Guarded a)
    (hstep : h.step uuidInt a = some h') : h'.Inv := by
  cases a with
  | handle eventId =>
    obtain rfl := Option.some.inj hstep
    exact hinv.handle eventId
  | step i =>
    obtain ⟨c, hi, hstep⟩ := Option.bind_eq_some_iff.1 hstep
    obtain ⟨⟨pc, locks, audit⟩, hnext, hstep⟩ := Option.bind_eq_some_iff.1 hstep
    obtain rfl := Option.some.inj hstep
    exact hinv.next hi hguarded hnext
  | worker i response =>
    obtain ⟨c, hi, hstep⟩ := Option.bind_eq_some_iff.1 hstep
    obtain ⟨pc, hworked, hstep⟩ := Option.bind_eq_some_iff.1 hstep
    obtain rfl := Option.some.inj hstep
    exact hinv.worked hi hworked

theorem Inv.play {actions : List Action} (hinv : h.Inv) (hguarded : h.GuardedRun uuidInt actions)
    (hplay : h.play uuidInt actions = some h') : h'.Inv := by
  induction actions generalizing h with
  | nil =>
    obtain rfl : h = h' := by simpa [IdempotencyHandler.play] using hplay
    exact hinv
  | cons a actions ih =>
    obtain ⟨h₁, hstep, hrest⟩ := Option.bind_eq_some_iff.1 hplay
    exact ih (hinv.step hguarded.1 hstep) (hguarded.2 h₁ hstep) hrest

/-! ## A call that nothing keeps from its worker -/

theorem step_next (hi : h.calls[i]? = some c) {pc : Pc} {locks : LockTable String}
    {audit : AuditLog}
    (hnext : c.pc.next h.eventLocks h.audit c.eventId = some (pc, locks, audit)) :
    h.step uuidInt (.step i) = some ⟨h.calls.set i ⟨c.eventId, pc⟩, locks, audit⟩ := by
  simp [IdempotencyHandler.step, hi, hnext]

/-- The call reaches its worker by steps of its own. -/
def Runs (uuidInt : String → Option Nat) (h : IdempotencyHandler) (i : Nat) (eventId : String) :
    Prop :=
  ∃ n h' lock, h.play uuidInt (List.replicate n (.step i)) = some h' ∧
    h'.calls[i]? = some ⟨eventId, .work lock⟩

theorem Runs.step {eventId : String} (hstep : h.step uuidInt (.step i) = some h')
    (hruns : Runs uuidInt h' i eventId) : Runs uuidInt h i eventId := by
  obtain ⟨n, h'', lock, hplay, hwork⟩ := hruns
  refine ⟨n + 1, h'', lock, ?_, hwork⟩
  rw [List.replicate_succ, IdempotencyHandler.play, List.foldlM_cons, hstep]
  exact hplay

theorem getElem?_set_self (hi : h.calls[i]? = some c) (c' : HandleCall) :
    (h.calls.set i c')[i]? = some c' := by
  obtain ⟨hlt, -⟩ := List.getElem?_eq_some_iff.1 hi
  simp [hlt]

/-- A step outside the lock that leaves the audit log alone keeps the event idle. -/
theorem Idle.set {eventId : String} (hidle : h.Idle eventId) {locks : LockTable String}
    {c' : HandleCall} (hout : ∀ lock, c'.pc.phase ≠ .inside lock) :
    Idle ⟨h.calls.set i c', locks, h.audit⟩ eventId := by
  refine ⟨hidle.1, fun c hc hid => ?_⟩
  obtain hmem | rfl := List.mem_or_eq_of_mem_set hc
  · exact hidle.2 c hmem hid
  · exact hout

variable {eventId : String} {lock : Nat} {seen : AuditRow}

theorem runs_of_recheckBody (hi : h.calls[i]? = some ⟨eventId, .recheckBody lock seen⟩)
    (hnone : h.audit.cached eventId = none) : Runs uuidInt h i eventId := by
  have hbody := AuditLog.lookupResponse_eq_none.2 hnone
  refine Runs.step (step_next hi (by rw [Pc.next, hbody])) ?_
  exact ⟨0, _, lock, rfl, getElem?_set_self hi _⟩

theorem runs_of_recheck (hi : h.calls[i]? = some ⟨eventId, .recheck lock⟩)
    (hnone : h.audit.cached eventId = none) : Runs uuidInt h i eventId := by
  cases hrow : h.audit eventId with
  | none =>
    refine Runs.step (step_next hi (by rw [Pc.next, hrow])) ?_
    exact ⟨0, _, lock, rfl, getElem?_set_self hi _⟩
  | some row =>
    refine Runs.step (step_next hi (by rw [Pc.next, hrow])) ?_
    exact runs_of_recheckBody (getElem?_set_self hi _) hnone

theorem runs_of_wait (hinv : h.Inv) (hi : h.calls[i]? = some ⟨eventId, .wait lock⟩)
    (hidle : h.Idle eventId) : Runs uuidInt h i eventId := by
  have hfree : h.eventLocks.held lock = false := by
    refine hinv.locks.free (i := i) (k := eventId) (by simp [hi, Pc.phase]) ?_
    intro client hclient hkey
    obtain ⟨c', hc', rfl⟩ := List.mem_map.1 hclient
    exact hidle.2 c' hc' hkey
  have hnext : (Pc.wait lock).next h.eventLocks h.audit eventId = some (.recheck lock,
      { h.eventLocks with held := Function.update h.eventLocks.held lock true }, h.audit) := by
    simp [Pc.next, LockTable.enter, hfree]
  refine Runs.step (step_next hi hnext) ?_
  exact runs_of_recheck (getElem?_set_self hi _) hidle.1

/-- A call of an idle event takes a step outside the lock. -/
theorem runs_of_next {pc pc' : Pc} {locks : LockTable String} (hinv : h.Inv)
    (hi : h.calls[i]? = some ⟨eventId, pc⟩) (hidle : h.Idle eventId)
    (hnext : pc.next h.eventLocks h.audit eventId = some (pc', locks, h.audit))
    (hout : ∀ lock, pc'.phase ≠ .inside lock)
    (hrest : ∀ h' : IdempotencyHandler, h'.Inv → h'.calls[i]? = some ⟨eventId, pc'⟩ →
      h'.Idle eventId → Runs uuidInt h' i eventId) : Runs uuidInt h i eventId := by
  have hguarded : h.Guarded (.step i) := by
    intro c' seen hc' _ _
    obtain rfl := Option.some.inj (hi.symm.trans hc')
    exact AuditLog.lookupResponse_eq_none.2 hidle.1
  refine Runs.step (step_next hi hnext) ?_
  exact hrest _ (hinv.next hi hguarded hnext) (getElem?_set_self hi _) (hidle.set hout)

theorem runs_of_acquire (hinv : h.Inv) (hi : h.calls[i]? = some ⟨eventId, .acquire⟩)
    (hidle : h.Idle eventId) : Runs uuidInt h i eventId :=
  runs_of_next hinv hi hidle (by rw [Pc.next]) (by nofun) fun _ => runs_of_wait

theorem runs_of_lookupBody (hinv : h.Inv) (hi : h.calls[i]? = some ⟨eventId, .lookupBody seen⟩)
    (hidle : h.Idle eventId) : Runs uuidInt h i eventId := by
  have hbody := AuditLog.lookupResponse_eq_none.2 hidle.1
  exact runs_of_next hinv hi hidle (by rw [Pc.next, hbody]) (by nofun)
    fun _ => runs_of_acquire

theorem runs_of_lookup (hinv : h.Inv) (hi : h.calls[i]? = some ⟨eventId, .lookup⟩)
    (hidle : h.Idle eventId) : Runs uuidInt h i eventId := by
  cases hrow : h.audit eventId with
  | none =>
    exact runs_of_next hinv hi hidle (by rw [Pc.next, hrow]) (by nofun) fun _ => runs_of_acquire
  | some row =>
    exact runs_of_next hinv hi hidle (by rw [Pc.next, hrow]) (by nofun) fun _ => runs_of_lookupBody

theorem runs_of_pending (hinv : h.Inv) (hi : h.calls[i]? = some c) (hidle : h.Idle c.eventId)
    (hpending : c.pc.pending = true) : Runs uuidInt h i c.eventId := by
  obtain ⟨eventId, pc⟩ := c
  cases pc with
  | lookup => exact runs_of_lookup hinv hi hidle
  | lookupBody seen => exact runs_of_lookupBody hinv hi hidle
  | acquire => exact runs_of_acquire hinv hi hidle
  | wait lock => exact runs_of_wait hinv hi hidle
  | _ => simp [Pc.pending] at hpending

/-! ## At most once -/

/-- After an exception the lock is given back, with nothing cached. -/
theorem Inv.freed (hinv : h.Inv) (hi : h.calls[i]? = some c) {lock : Nat}
    (hpc : c.pc = .unlock lock .workerRaised) :
    ∃ h', h.step uuidInt (.step i) = some h' ∧ h'.Idle c.eventId := by
  have hagrees := hinv.agrees i c hi
  rw [hpc] at hagrees
  refine ⟨_, step_next hi (by rw [hpc, Pc.next]), hagrees, fun c' hc' hid lock' hin => ?_⟩
  obtain ⟨j, hj⟩ := List.mem_iff_getElem?.1 hc'
  obtain ⟨-, rfl⟩ | ⟨hne, hj⟩ := getElem?_moved hj
  · exact nomatch hin
  · exact hne (hinv.inside hi hj hid.symm (by rw [hpc]; rfl) hin).symm

theorem Inv.atMostOnce (hinv : h.Inv) : h.AtMostOnce uuidInt where
  one_worker i j c c' hi hj hid hworking hworking' := by
    have hinside {pc : Pc} (hpc : pc.working = true) : ∃ lock, pc.phase = .inside lock := by
      cases pc with
      | work lock => exact ⟨lock, rfl⟩
      | _ => simp [Pc.working] at hpc
    obtain ⟨lock, hin⟩ := hinside hworking
    obtain ⟨lock', hin'⟩ := hinside hworking'
    exact hinv.inside hi hj hid hin hin'
  one_success := hinv.one
  others_hit i j c c' r result hi hj hid hne hr hpc := by
    have hagrees' := hinv.agrees j c' hj
    rw [hpc] at hagrees'
    obtain ⟨hcached', hpersisted⟩ := hagrees'
    have hhit : result.hit = true := by
      by_contra hmiss
      refine hne (hinv.one i j c c' r ⟨result.status, result.body⟩ hi hj hid hr ?_)
      simp [hpc, Pc.response, Outcome.response, hmiss]
    obtain ⟨lock, hrecord⟩ | hcached := Pc.response_cases hr (hinv.agrees i c hi)
    · have hnone := hinv.agrees i c hi
      rw [hrecord, hid] at hnone
      exact nomatch hcached'.symm.trans hnone
    · rw [hid, hcached'] at hcached
      obtain rfl := Option.some.inj hcached
      obtain ⟨status, body, hit, auditPersisted⟩ := result
      obtain rfl : hit = true := hhit
      obtain rfl : auditPersisted = true := hpersisted
      rfl
  freed i c lock hi hpc := hinv.freed hi hpc
  later eventId hidle hvalid := by
    refine ⟨_, rfl, ⟨hidle.1, fun c hc hid => ?_⟩, by simp [IdempotencyHandler.handle, hvalid]⟩
    simp only [IdempotencyHandler.handle, hvalid, if_true, List.mem_append,
      List.mem_singleton] at hc
    obtain hc | rfl := hc
    · exact hidle.2 c hc hid
    · exact nofun
  runs i c hi hidle hpending := runs_of_pending hinv hi hidle hpending
  refs_pos eventId e he := hinv.locks.refs_pos he
  one_lock c hc c' hc' hid lock lock' hlock hlock' :=
    hinv.locks.one_lock (List.mem_map_of_mem hc) (List.mem_map_of_mem hc') hid hlock hlock'
  emptied hfinished eventId := by
    refine hinv.locks.empty_of_outside (fun client hclient => ?_) eventId
    obtain ⟨c, hc, rfl⟩ := List.mem_map.1 hclient
    obtain ⟨outcome, hpc⟩ := hfinished c hc
    simp [hpc, Pc.phase]

end IdempotencyHandler

/-! ## Runs over whole rows -/

/-- No row is without a body, in the log or in the hands of a lookup. -/
structure IdempotencyHandler.Whole (h : IdempotencyHandler) : Prop where
  rows : ∀ eventId row, h.audit eventId = some row → row.responseBody ≠ none
  seen : ∀ c ∈ h.calls, ∀ seen, c.pc = .lookupBody seen → seen.responseBody ≠ none

namespace IdempotencyHandler

variable {h h' : IdempotencyHandler} {uuidInt : String → Option Nat}

theorem Whole.guarded (hwhole : h.Whole) (a : Action) : h.Guarded a := by
  cases a with
  | handle eventId => trivial
  | step i =>
    intro c seen hi hpc hnone
    exact absurd hnone (hwhole.seen c (List.mem_of_getElem? hi) seen hpc)
  | worker i response => trivial

theorem whole_record {audit : AuditLog}
    (hrows : ∀ eventId row, audit eventId = some row → row.responseBody ≠ none)
    (eventId : String) (status : Int) (body : String) :
    ∀ other row, audit.record eventId status (some body) other = some row →
      row.responseBody ≠ none := by
  intro other row hrow
  by_cases heq : other = eventId
  · subst heq
    obtain rfl : _ = row := by simpa [AuditLog.record] using hrow
    exact nofun
  · exact hrows other row (by simpa [AuditLog.record, heq] using hrow)

theorem Whole.next {pc pc' : Pc} {locks locks' : LockTable String} {audit audit' : AuditLog}
    {eventId : String}
    (hrows : ∀ eventId row, audit eventId = some row → row.responseBody ≠ none)
    (hnext : pc.next locks audit eventId = some (pc', locks', audit')) :
    (∀ eventId row, audit' eventId = some row → row.responseBody ≠ none) ∧
      ∀ seen, pc' = .lookupBody seen → seen.responseBody ≠ none := by
  cases pc with
  | lookup =>
    simp only [Pc.next] at hnext
    split at hnext
    · cases hnext
      exact ⟨hrows, nofun⟩
    · next row hrow =>
      cases hnext
      refine ⟨hrows, ?_⟩
      rintro seen ⟨⟩
      exact hrows eventId row hrow
  | lookupBody seen =>
    simp only [Pc.next] at hnext
    split at hnext <;> cases hnext <;> exact ⟨hrows, nofun⟩
  | hit r =>
    cases hnext
    exact ⟨whole_record hrows eventId r.status r.body, nofun⟩
  | acquire =>
    cases hnext
    exact ⟨hrows, nofun⟩
  | wait lock =>
    obtain ⟨entered, -, heq⟩ := Option.map_eq_some_iff.1 hnext
    cases heq
    exact ⟨hrows, nofun⟩
  | recheck lock =>
    simp only [Pc.next] at hnext
    split at hnext <;> cases hnext <;> exact ⟨hrows, nofun⟩
  | recheckBody lock seen =>
    simp only [Pc.next] at hnext
    split at hnext <;> cases hnext <;> exact ⟨hrows, nofun⟩
  | lockedHit lock r =>
    cases hnext
    exact ⟨whole_record hrows eventId r.status r.body, nofun⟩
  | work lock => cases hnext
  | record lock r =>
    cases hnext
    exact ⟨whole_record hrows eventId r.status r.body, nofun⟩
  | unlock lock outcome =>
    cases hnext
    exact ⟨hrows, nofun⟩
  | release lock outcome =>
    cases hnext
    exact ⟨hrows, nofun⟩
  | finished outcome => cases hnext

theorem Whole.step {a : Action} (hwhole : h.Whole) (hstep : h.step uuidInt a = some h') :
    h'.Whole := by
  cases a with
  | handle eventId =>
    obtain rfl := Option.some.inj hstep
    refine ⟨hwhole.rows, fun c hc seen hpc => ?_⟩
    obtain hc | hc := List.mem_append.1 hc
    · exact hwhole.seen c hc seen hpc
    · rw [List.mem_singleton.1 hc] at hpc
      dsimp only at hpc
      split at hpc <;> exact nomatch hpc
  | step i =>
    obtain ⟨c, hi, hstep⟩ := Option.bind_eq_some_iff.1 hstep
    obtain ⟨⟨pc, locks, audit⟩, hnext, hstep⟩ := Option.bind_eq_some_iff.1 hstep
    obtain rfl := Option.some.inj hstep
    obtain ⟨hrows, hseen⟩ := Whole.next hwhole.rows hnext
    refine ⟨hrows, fun c' hc' seen hpc => ?_⟩
    obtain hc' | rfl := List.mem_or_eq_of_mem_set hc'
    · exact hwhole.seen c' hc' seen hpc
    · exact hseen seen hpc
  | worker i response =>
    obtain ⟨c, hi, hstep⟩ := Option.bind_eq_some_iff.1 hstep
    obtain ⟨pc, hworked, hstep⟩ := Option.bind_eq_some_iff.1 hstep
    obtain rfl := Option.some.inj hstep
    refine ⟨hwhole.rows, fun c' hc' seen hpc => ?_⟩
    obtain hc' | rfl := List.mem_or_eq_of_mem_set hc'
    · exact hwhole.seen c' hc' seen hpc
    · obtain rfl : pc = .lookupBody seen := hpc
      cases hpc : c.pc with
      | work lock => cases response <;> simp [hpc, Pc.worked] at hworked
      | _ => simp [hpc, Pc.worked] at hworked

/-- Over a log of whole rows, as the handler itself writes them, no lookup is torn. -/
theorem Whole.guardedRun (hwhole : h.Whole) (actions : List Action) :
    h.GuardedRun uuidInt actions := by
  induction actions generalizing h with
  | nil => trivial
  | cons a actions ih => exact ⟨hwhole.guarded a, fun h' hstep => ih (hwhole.step hstep)⟩

theorem Whole.new {audit : AuditLog}
    (hrows : ∀ eventId row, audit eventId = some row → row.responseBody ≠ none) :
    (IdempotencyHandler.new audit).Whole :=
  ⟨hrows, by simp [IdempotencyHandler.new]⟩

end IdempotencyHandler

/-- In every run in which no unlocked lookup is torn, the worker of an event runs at most once. -/
theorem handle_at_most_once (uuidInt : String → Option Nat) (audit : AuditLog)
    (actions : List Action) (h : IdempotencyHandler)
    (hguarded : (IdempotencyHandler.new audit).GuardedRun uuidInt actions)
    (hplay : (IdempotencyHandler.new audit).play uuidInt actions = some h) :
    h.AtMostOnce uuidInt :=
  ((IdempotencyHandler.Inv.new audit).play hguarded hplay).atMostOnce

/-- An event id of version 7 and what `uuid.UUID` makes of it. -/
def sampleEventId : String := "018f0000-0000-7000-8000-000000000000"

def sampleUuidInt (value : String) : Option Nat :=
  if value = sampleEventId then some 0x018f0000000070008000000000000000 else none

/-- The first worker raises, the call that waited runs, and a third call is answered. -/
theorem handle_at_most_once_sample :
    ∃ h, (IdempotencyHandler.new fun _ => none).play sampleUuidInt
        ([.handle sampleEventId, .handle sampleEventId, .step 0, .step 1, .step 0, .step 1,
          .step 0, .step 0, .worker 0 none, .step 0, .step 1, .step 0, .step 1,
          .worker 1 (some ⟨201, "created"⟩), .step 1, .step 1, .step 1, .handle sampleEventId,
          .step 2, .step 2, .step 2]) = some h ∧
      h.calls.map (·.pc) = [.finished .workerRaised,
        .finished (.returned ⟨201, "created", false, true⟩),
        .finished (.returned ⟨201, "created", true, true⟩)] ∧
      h.AtMostOnce sampleUuidInt := by
  obtain ⟨h, hplay, hcalls⟩ := Option.map_eq_some_iff.1 (show
    ((IdempotencyHandler.new fun _ => none).play sampleUuidInt
        ([.handle sampleEventId, .handle sampleEventId, .step 0, .step 1, .step 0, .step 1,
          .step 0, .step 0, .worker 0 none, .step 0, .step 1, .step 0, .step 1,
          .worker 1 (some ⟨201, "created"⟩), .step 1, .step 1, .step 1, .handle sampleEventId,
          .step 2, .step 2, .step 2])).map (fun h => h.calls.map (·.pc)) =
      some [.finished .workerRaised, .finished (.returned ⟨201, "created", false, true⟩),
        .finished (.returned ⟨201, "created", true, true⟩)] by decide +kernel)
  exact ⟨h, hplay, hcalls, handle_at_most_once _ _ _ h
    ((IdempotencyHandler.Whole.new (by simp)).guardedRun _) hplay⟩

/-- A row of `record_ack`, which has no body, is read by one call; the worker of another answers;
then the first reads the body and answers it with the status of the row that it has read. -/
theorem handle_torn : ¬ ∀ (uuidInt : String → Option Nat) (audit : AuditLog)
    (actions : List Action) (h : IdempotencyHandler),
    (IdempotencyHandler.new audit).play uuidInt actions = some h → h.AtMostOnce uuidInt := by
  intro hclaim
  obtain ⟨h, hplay, hcalls⟩ := Option.map_eq_some_iff.1 (show
    ((IdempotencyHandler.new fun eventId =>
        if eventId = sampleEventId then some ⟨0, none⟩ else none).play sampleUuidInt
        ([.handle sampleEventId, .handle sampleEventId, .step 0, .step 1, .step 1, .step 1,
          .step 1, .step 1, .step 1, .worker 1 (some ⟨201, "created"⟩), .step 1, .step 1, .step 1,
          .step 0, .step 0])).map (·.calls) =
      some [⟨sampleEventId, .finished (.returned ⟨0, "created", true, true⟩)⟩,
        ⟨sampleEventId, .finished (.returned ⟨201, "created", false, true⟩)⟩] by decide +kernel)
  have hothers := (hclaim _ _ _ h hplay).others_hit 1 0
    ⟨sampleEventId, .finished (.returned ⟨201, "created", false, true⟩)⟩
    ⟨sampleEventId, .finished (.returned ⟨0, "created", true, true⟩)⟩ ⟨201, "created"⟩
    ⟨0, "created", true, true⟩ (by rw [hcalls]; rfl) (by rw [hcalls]; rfl) rfl (by decide) rfl rfl
  exact absurd hothers (by decide)

end ParallaxKernel.Canary
