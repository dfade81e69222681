import Mathlib.Data.List.Pairwise
import Mathlib.Logic.Relation
import ParallaxKernel.Canary.Idempotency

/-!
# One UUID in several spellings

Calls of `IdempotencyHandler.handle` one after another, with workers that succeed. `is_uuid7` looks
at the UUID that an event id denotes; the locks and the audit log are keyed by its text.
-/

namespace ParallaxKernel.Canary

open Lib

variable (uuidInt : String → Option Nat)

/-- One call of `handle`: its event id, and what its worker returns if it runs. -/
structure HandleRequest where
  eventId : String
  response : CachedResponse
  deriving DecidableEq

/-- `handle` with no other call at work: its two lookups read the same. -/
def handleAlone (audit : AuditLog) (q : HandleRequest) : AuditLog × Outcome :=
  if isUuid7 uuidInt q.eventId then
    match audit.cached q.eventId with
    | some cached => (audit.record q.eventId cached.status (some cached.body), onCacheHit cached)
    | none =>
      (audit.record q.eventId q.response.status (some q.response.body), onResponse q.response)
  else (audit, .invalidEventId)

/-- The calls one after another, each with how it ends. -/
def handleAll (audit : AuditLog) : List HandleRequest → List (HandleRequest × Outcome)
  | [] => []
  | q :: requests =>
    (q, (handleAlone uuidInt audit q).2) :: handleAll (handleAlone uuidInt audit q).1 requests

/-- What the caller is told. -/
def Outcome.answer : Outcome → Option CachedResponse
  | returned result => some ⟨result.status, result.body⟩
  | _ => none

/-- The event ids denote one UUID of version 7. -/
def SameUuid (eventId eventId' : String) : Prop :=
  isUuid7 uuidInt eventId = true ∧ isUuid7 uuidInt eventId' = true ∧
    uuidInt eventId = uuidInt eventId'

/-- Of two calls for one UUID one at most runs its worker, and both answer the same. -/
def OneExecution (first second : HandleRequest × Outcome) : Prop :=
  SameUuid uuidInt first.1.eventId second.1.eventId →
    (first.2.response = none ∨ second.2.response = none) ∧
      ∃ r, first.2.answer = some r ∧ second.2.answer = some r

/-- What the first call for an event id answers: what is cached, or what its worker returns. -/
def firstAnswer (audit : AuditLog) (requests : List HandleRequest) (eventId : String) :
    Option CachedResponse :=
  (audit.cached eventId).or
    ((requests.find? fun q => q.eventId = eventId).map HandleRequest.response)

/-- No UUID comes in two spellings, unless an earlier log has answered one of them with what the
other is answered. -/
def OneSpelling (audit : AuditLog) (requests : List HandleRequest) : Prop :=
  ∀ a ∈ requests, ∀ b ∈ requests, SameUuid uuidInt a.eventId b.eventId →
    a.eventId = b.eventId ∨
      (audit.cached a.eventId ≠ none ∨ audit.cached b.eventId ≠ none) ∧
        firstAnswer audit requests a.eventId = firstAnswer audit requests b.eventId

/-! ## Sequences as runs of the handler -/

section Played

variable {uuidInt} {eventId : String} {response : CachedResponse}

/-- A call moves on by itself, or its worker returns. -/
def Moves (eventId : String) (response : CachedResponse) (x y : Pc × LockTable String × AuditLog) :
    Prop :=
  x.1.next x.2.1 x.2.2 eventId = some y ∨
    (x.1.worked (some response) = some y.1 ∧ y.2 = x.2)

theorem exists_play_of_moves {x y : Pc × LockTable String × AuditLog}
    (hmoves : Relation.ReflTransGen (Moves eventId response) x y)
    {h : IdempotencyHandler} {i : Nat} (hi : h.calls[i]? = some ⟨eventId, x.1⟩)
    (hlocks : h.eventLocks = x.2.1) (haudit : h.audit = x.2.2) :
    ∃ actions, h.play uuidInt actions =
      some ⟨h.calls.set i ⟨eventId, y.1⟩, y.2.1, y.2.2⟩ := by
  induction hmoves using Relation.ReflTransGen.head_induction_on generalizing h with
  | refl =>
    refine ⟨[], ?_⟩
    obtain ⟨calls, locks, audit⟩ := h
    obtain ⟨hlt, hget⟩ := List.getElem?_eq_some_iff.1 hi
    dsimp only at hlocks haudit hget ⊢
    rw [← hlocks, ← haudit, ← hget, List.set_getElem_self]
    rfl
  | @head x z hmove _ ih =>
    obtain ⟨pc, locks, audit⟩ := x
    obtain ⟨pc', locks', audit'⟩ := z
    obtain ⟨hlt, -⟩ := List.getElem?_eq_some_iff.1 hi
    have hset : (h.calls.set i ⟨eventId, pc'⟩)[i]? = some ⟨eventId, pc'⟩ := by simp [hlt]
    obtain ⟨actions, hplay⟩ := @ih ⟨h.calls.set i ⟨eventId, pc'⟩, locks', audit'⟩ hset rfl rfl
    rw [List.set_set] at hplay
    cases hmove with
    | inl hnext =>
      refine ⟨.step i :: actions, ?_⟩
      have hstep : h.step uuidInt (.step i) =
          some ⟨h.calls.set i ⟨eventId, pc'⟩, locks', audit'⟩ :=
        IdempotencyHandler.step_next hi (by rw [hlocks, haudit]; exact hnext)
      rw [IdempotencyHandler.play, List.foldlM_cons, hstep]
      exact hplay
    | inr hworked =>
      obtain ⟨hworked, heq⟩ := hworked
      obtain ⟨rfl, rfl⟩ := Prod.mk.inj heq
      refine ⟨.worker i (some response) :: actions, ?_⟩
      have hstep : h.step uuidInt (.worker i (some response)) =
          some ⟨h.calls.set i ⟨eventId, pc'⟩, locks', audit'⟩ := by
        dsimp only at hworked hlocks haudit
        simp [IdempotencyHandler.step, hi, hworked, hlocks, haudit]
      rw [IdempotencyHandler.play, List.foldlM_cons, hstep]
      exact hplay

/-- No call is at work: nobody has registered for a lock and none is held. -/
def Quiet (locks : LockTable String) : Prop :=
  (∀ k, locks.entries k = none) ∧ ∀ lock, locks.held lock = false

/-- The lock is a new one: the call enters it, and removes it when it has left it. -/
theorem moves_miss {locks : LockTable String} (hquiet : Quiet locks) {audit : AuditLog}
    {q : HandleRequest} (hcached : audit.cached q.eventId = none) :
    ∃ locks', Quiet locks' ∧ Relation.ReflTransGen (Moves q.eventId q.response)
      (.lookup, locks, audit)
      (.finished (onResponse q.response), locks',
        audit.record q.eventId q.response.status (some q.response.body)) := by
  obtain ⟨hentries, hheld⟩ := hquiet
  have hlookup := AuditLog.lookupResponse_eq_none.2 hcached
  have hmove {x y : Pc × LockTable String × AuditLog}
      (h : x.1.next x.2.1 x.2.2 q.eventId = some y) :
      Relation.ReflTransGen (Moves q.eventId q.response) x y := .single (.inl h)
  let registered : LockTable String :=
    { locks with
      entries := Function.update locks.entries q.eventId (some ⟨locks.next, 1⟩)
      next := locks.next + 1 }
  let entered : LockTable String :=
    { registered with held := Function.update locks.held locks.next true }
  have hacquire : locks.acquire q.eventId = (locks.next, registered) := by
    rw [LockTable.acquire, hentries]
  have henter : registered.enter locks.next = some entered := by
    simp [LockTable.enter, registered, entered, hheld]
  have hlookups (pc : Pc) (locks : LockTable String) (read : AuditRow → Pc) (miss : Pc)
      (hnone : audit q.eventId = none → pc.next locks audit q.eventId = some (miss, locks, audit))
      (hsome : ∀ row, audit q.eventId = some row →
        pc.next locks audit q.eventId = some (read row, locks, audit))
      (hread : ∀ row, (read row).next locks audit q.eventId = some (miss, locks, audit)) :
      Relation.ReflTransGen (Moves q.eventId q.response) (pc, locks, audit)
        (miss, locks, audit) := by
    cases hrow : audit q.eventId with
    | none => exact hmove (hnone hrow)
    | some row => exact (hmove (hsome row hrow)).trans (hmove (hread row))
  refine ⟨(entered.leave locks.next).release q.eventId, ⟨fun k => ?_, fun lock => ?_⟩, ?_⟩
  · by_cases hk : k = q.eventId <;>
      simp [LockTable.release, LockTable.leave, entered, registered, hk, hentries]
  · by_cases hlock : lock = locks.next <;>
      simp [LockTable.release, LockTable.leave, entered, registered, hlock, hheld]
  · calc Relation.ReflTransGen (Moves q.eventId q.response) (.lookup, locks, audit)
          (.acquire, locks, audit) :=
        hlookups .lookup locks .lookupBody .acquire (fun h => by rw [Pc.next, h])
          (fun row h => by rw [Pc.next, h]) (fun row => by rw [Pc.next, hlookup])
      Relation.ReflTransGen (Moves q.eventId q.response) _
          (.wait locks.next, registered, audit) := hmove (by rw [Pc.next, hacquire])
      Relation.ReflTransGen (Moves q.eventId q.response) _
          (.recheck locks.next, entered, audit) := hmove (by simp [Pc.next, henter])
      Relation.ReflTransGen (Moves q.eventId q.response) _
          (.work locks.next, entered, audit) :=
        hlookups (.recheck locks.next) entered (.recheckBody locks.next) (.work locks.next)
          (fun h => by rw [Pc.next, h]) (fun row h => by rw [Pc.next, h])
          (fun row => by rw [Pc.next, hlookup])
      Relation.ReflTransGen (Moves q.eventId q.response) _
          (.record locks.next q.response, entered, audit) := .single (.inr ⟨rfl, rfl⟩)
      Relation.ReflTransGen (Moves q.eventId q.response) _
          (.unlock locks.next (onResponse q.response), entered,
            audit.record q.eventId q.response.status (some q.response.body)) := hmove rfl
      Relation.ReflTransGen (Moves q.eventId q.response) _
          (.release locks.next (onResponse q.response), entered.leave locks.next,
            audit.record q.eventId q.response.status (some q.response.body)) := hmove rfl
      Relation.ReflTransGen (Moves q.eventId q.response) _ _ := hmove rfl

/-- A call of a valid event id that nobody disturbs. -/
theorem moves_alone {locks : LockTable String} (hquiet : Quiet locks) (audit : AuditLog)
    {q : HandleRequest} (hvalid : isUuid7 uuidInt q.eventId = true) :
    ∃ locks', Quiet locks' ∧ Relation.ReflTransGen (Moves q.eventId q.response)
      (.lookup, locks, audit)
      (.finished (handleAlone uuidInt audit q).2, locks', (handleAlone uuidInt audit q).1) := by
  rw [handleAlone, if_pos hvalid]
  cases hcached : audit.cached q.eventId with
  | some r =>
    refine ⟨locks, hquiet, ?_⟩
    obtain ⟨row, hrow, hbody⟩ := Option.bind_eq_some_iff.1 hcached
    obtain ⟨body, hbody, rfl⟩ := Option.map_eq_some_iff.1 hbody
    have hlookup := AuditLog.lookupResponse_of_cached hcached
    calc Relation.ReflTransGen (Moves q.eventId q.response) (.lookup, locks, audit)
          (.lookupBody row, locks, audit) := .single (.inl (by simp [Pc.next, hrow]))
      Relation.ReflTransGen (Moves q.eventId q.response) _
          (.hit ⟨row.responseStatus, body⟩, locks, audit) :=
        .single (.inl (by simp [Pc.next, hlookup]))
      Relation.ReflTransGen (Moves q.eventId q.response) _ _ := .single (.inl rfl)
  | none => exact moves_miss hquiet hcached

/-- The calls of a sequence are a run of the handler, one call after another. -/
theorem handleAll_played {h : IdempotencyHandler} (hquiet : Quiet h.eventLocks)
    (requests : List HandleRequest) :
    ∃ actions h', h.play uuidInt actions = some h' ∧
      h'.calls = h.calls ++ (handleAll uuidInt h.audit requests).map
        fun call => ⟨call.1.eventId, .finished call.2⟩ := by
  induction requests generalizing h with
  | nil => exact ⟨[], h, rfl, by simp [handleAll]⟩
  | cons q requests ih =>
    obtain ⟨actions, h₁, hplay, hcalls, hlocks, haudit⟩ : ∃ actions h₁,
        h.play uuidInt actions = some h₁ ∧
        h₁.calls = h.calls ++ [⟨q.eventId, .finished (handleAlone uuidInt h.audit q).2⟩] ∧
        Quiet h₁.eventLocks ∧ h₁.audit = (handleAlone uuidInt h.audit q).1 := by
      by_cases hvalid : isUuid7 uuidInt q.eventId = true
      · obtain ⟨locks', hquiet', hmoves⟩ := moves_alone hquiet h.audit hvalid
        obtain ⟨actions, hplay⟩ := @exists_play_of_moves uuidInt _ _ _ _ hmoves
          (h.handle uuidInt q.eventId) h.calls.length
          (by simp [IdempotencyHandler.handle, hvalid]) rfl rfl
        refine ⟨.handle q.eventId :: actions, _, hplay, ?_, hquiet', rfl⟩
        simp [IdempotencyHandler.handle]
      · refine ⟨[.handle q.eventId], _, rfl, ?_, hquiet, ?_⟩
        · simp [IdempotencyHandler.handle, handleAlone, hvalid]
        · simp [IdempotencyHandler.handle, handleAlone, hvalid]
    obtain ⟨actions', h', hplay', hcalls'⟩ := ih hlocks
    refine ⟨actions ++ actions', h', ?_, ?_⟩
    · rw [IdempotencyHandler.play, List.foldlM_append]
      exact Option.bind_eq_some_iff.2 ⟨h₁, hplay, hplay'⟩
    · rw [hcalls', hcalls, haudit, handleAll, List.map_cons, List.append_assoc,
        List.singleton_append]

end Played

/-! ## Answers -/

section Answers

variable {uuidInt} {audit : AuditLog} {requests : List HandleRequest}
  {call first second : HandleRequest × Outcome} {eventId : String} {r : CachedResponse}

/-- After a call its event has an answer, and every other event what it had. -/
theorem cached_handleAlone (audit : AuditLog) (q : HandleRequest) (eventId : String) :
    (handleAlone uuidInt audit q).1.cached eventId =
      if eventId = q.eventId ∧ isUuid7 uuidInt eventId = true then
        (audit.cached eventId).or (some q.response)
      else audit.cached eventId := by
  rw [handleAlone]
  by_cases hvalid : isUuid7 uuidInt q.eventId = true
  · rw [if_pos hvalid]
    cases hcached : audit.cached q.eventId with
    | some r =>
      dsimp only
      rw [AuditLog.cached_record]
      by_cases heq : eventId = q.eventId
      · rw [if_pos heq, if_pos ⟨heq, by rw [heq, hvalid]⟩, heq, hcached, Option.some_or]
      · rw [if_neg heq, if_neg fun h => heq h.1]
    | none =>
      dsimp only
      rw [AuditLog.cached_record]
      by_cases heq : eventId = q.eventId
      · rw [if_pos heq, if_pos ⟨heq, by rw [heq, hvalid]⟩, heq, hcached, Option.none_or]
      · rw [if_neg heq, if_neg fun h => heq h.1]
  · rw [if_neg hvalid, if_neg]
    rintro ⟨rfl, hvalid'⟩
    exact hvalid hvalid'

theorem cached_handleAlone_of_some (hcached : audit.cached eventId = some r) (q : HandleRequest) :
    (handleAlone uuidInt audit q).1.cached eventId = some r := by
  rw [cached_handleAlone, hcached, Option.some_or, ite_self]

theorem answer_handleAlone (audit : AuditLog) {q : HandleRequest}
    (hvalid : isUuid7 uuidInt q.eventId = true) :
    (handleAlone uuidInt audit q).2.answer = (audit.cached q.eventId).or (some q.response) := by
  rw [handleAlone, if_pos hvalid]
  cases audit.cached q.eventId with
  | some r => rfl
  | none => rfl

/-- The worker runs if nothing is cached. -/
theorem response_handleAlone (audit : AuditLog) {q : HandleRequest}
    (hvalid : isUuid7 uuidInt q.eventId = true) :
    (handleAlone uuidInt audit q).2.response =
      if audit.cached q.eventId = none then some q.response else none := by
  rw [handleAlone, if_pos hvalid]
  cases audit.cached q.eventId with
  | some r => rfl
  | none => rfl

theorem firstAnswer_handleAlone (q : HandleRequest) (hvalid : isUuid7 uuidInt eventId = true) :
    firstAnswer (handleAlone uuidInt audit q).1 requests eventId =
      firstAnswer audit (q :: requests) eventId := by
  rw [firstAnswer, firstAnswer, cached_handleAlone, List.find?_cons]
  by_cases heq : eventId = q.eventId
  · rw [if_pos ⟨heq, hvalid⟩, decide_eq_true heq.symm]
    cases audit.cached eventId with
    | some r => rfl
    | none => rfl
  · rw [if_neg fun h => heq h.1, decide_eq_false fun h => heq h.symm]

/-- Every call for a valid event id answers what the first one answers. -/
theorem answer_of_mem (hcall : call ∈ handleAll uuidInt audit requests)
    (hvalid : isUuid7 uuidInt call.1.eventId = true) :
    call.2.answer = firstAnswer audit requests call.1.eventId := by
  induction requests generalizing audit with
  | nil => exact absurd hcall List.not_mem_nil
  | cons q requests ih =>
    cases List.mem_cons.1 hcall with
    | inl hhead =>
      obtain rfl := hhead
      rw [answer_handleAlone audit hvalid, firstAnswer, List.find?_cons, decide_eq_true rfl]
      rfl
    | inr htail => rw [ih htail, firstAnswer_handleAlone q hvalid]

theorem firstAnswer_ne_none (hcall : call ∈ handleAll uuidInt audit requests)
    (hvalid : isUuid7 uuidInt call.1.eventId = true) :
    ∃ r, firstAnswer audit requests call.1.eventId = some r := by
  induction requests generalizing audit with
  | nil => exact absurd hcall List.not_mem_nil
  | cons q requests ih =>
    cases List.mem_cons.1 hcall with
    | inl hhead =>
      obtain rfl := hhead
      rw [← answer_of_mem hcall hvalid, answer_handleAlone audit hvalid]
      cases audit.cached q.eventId with
      | some r => exact ⟨r, rfl⟩
      | none => exact ⟨q.response, rfl⟩
    | inr htail =>
      obtain ⟨r, hr⟩ := ih htail
      exact ⟨r, by rw [← hr, firstAnswer_handleAlone q hvalid]⟩

theorem mem_of_mem_handleAll (hcall : call ∈ handleAll uuidInt audit requests) :
    call.1 ∈ requests := by
  induction requests generalizing audit with
  | nil => exact absurd hcall List.not_mem_nil
  | cons q requests ih =>
    cases List.mem_cons.1 hcall with
    | inl hhead =>
      obtain rfl := hhead
      exact List.mem_cons_self
    | inr htail => exact List.mem_cons_of_mem q (ih htail)

theorem exists_mem_handleAll {q : HandleRequest} (hq : q ∈ requests) :
    ∃ outcome, (q, outcome) ∈ handleAll uuidInt audit requests := by
  induction requests generalizing audit with
  | nil => exact absurd hq List.not_mem_nil
  | cons p requests ih =>
    cases List.mem_cons.1 hq with
    | inl hhead =>
      obtain rfl := hhead
      exact ⟨_, List.mem_cons_self⟩
    | inr htail =>
      obtain ⟨outcome, hmem⟩ := @ih (handleAlone uuidInt audit p).1 htail
      exact ⟨outcome, List.mem_cons_of_mem _ hmem⟩

/-! ## Executions -/

/-- What is cached keeps the worker from running. -/
theorem response_of_cached (hcall : call ∈ handleAll uuidInt audit requests)
    (hvalid : isUuid7 uuidInt call.1.eventId = true)
    (hcached : audit.cached call.1.eventId ≠ none) : call.2.response = none := by
  induction requests generalizing audit with
  | nil => exact absurd hcall List.not_mem_nil
  | cons q requests ih =>
    cases List.mem_cons.1 hcall with
    | inl hhead =>
      obtain rfl := hhead
      rw [response_handleAlone audit hvalid, if_neg hcached]
    | inr htail =>
      obtain ⟨r, hr⟩ := Option.ne_none_iff_exists'.1 hcached
      exact ih htail (by rw [cached_handleAlone_of_some hr]; exact Option.some_ne_none r)

/-- Of an event for which nothing is cached some call runs its worker. -/
theorem exists_response {q : HandleRequest} (hq : q ∈ requests)
    (hvalid : isUuid7 uuidInt q.eventId = true) (hcached : audit.cached q.eventId = none) :
    ∃ call ∈ handleAll uuidInt audit requests, call.1.eventId = q.eventId ∧
      call.2.response ≠ none := by
  induction requests generalizing audit with
  | nil => exact absurd hq List.not_mem_nil
  | cons p requests ih =>
    by_cases heq : p.eventId = q.eventId
    · refine ⟨_, List.mem_cons_self, heq, ?_⟩
      rw [response_handleAlone audit (heq ▸ hvalid), if_pos (heq ▸ hcached)]
      exact Option.some_ne_none _
    · have htail : q ∈ requests := by
        cases List.mem_cons.1 hq with
        | inl hhead => exact absurd (congrArg HandleRequest.eventId hhead.symm) heq
        | inr htail => exact htail
      obtain ⟨call, hcall, hid, hran⟩ := @ih (handleAlone uuidInt audit p).1 htail (by
        rw [cached_handleAlone, if_neg fun h => heq h.1.symm, hcached])
      exact ⟨call, List.mem_cons_of_mem _ hcall, hid, hran⟩

/-- Under one spelling only the first call runs its worker. -/
theorem pairwise_sameId (audit : AuditLog) (requests : List HandleRequest) :
    (handleAll uuidInt audit requests).Pairwise fun first second =>
      first.1.eventId = second.1.eventId → isUuid7 uuidInt second.1.eventId = true →
        second.2.response = none := by
  induction requests generalizing audit with
  | nil => exact .nil
  | cons q requests ih =>
    refine List.pairwise_cons.2 ⟨fun second hsecond hid hvalid => ?_, ih _⟩
    refine response_of_cached hsecond hvalid ?_
    dsimp only at hid
    rw [cached_handleAlone, if_pos ⟨hid.symm, hvalid⟩]
    cases audit.cached second.1.eventId with
    | some r => exact Option.some_ne_none r
    | none => exact Option.some_ne_none _

instance : Std.Symm (OneExecution uuidInt) where
  symm first second h hsame := by
    obtain ⟨hran, r, hfirst, hsecond⟩ := h ⟨hsame.2.1, hsame.1, hsame.2.2.symm⟩
    exact ⟨hran.symm, r, hsecond, hfirst⟩

end Answers

/-- One UUID is executed once, and every call for it is answered alike, exactly if no two spellings
of it are in use that an earlier log does not reconcile. -/
theorem one_execution_iff (uuidInt : String → Option Nat) (audit : AuditLog)
    (requests : List HandleRequest) :
    (handleAll uuidInt audit requests).Pairwise (OneExecution uuidInt) ↔
      OneSpelling uuidInt audit requests := by
  constructor
  · intro hpairs a ha b hb hsame
    by_cases hid : a.eventId = b.eventId
    · exact .inl hid
    have hall {first second : HandleRequest × Outcome}
        (hfirst : first ∈ handleAll uuidInt audit requests)
        (hsecond : second ∈ handleAll uuidInt audit requests)
        (hids : first.1.eventId ≠ second.1.eventId) : OneExecution uuidInt first second :=
      hpairs.forall hfirst hsecond fun h => hids (by rw [h])
    refine .inr ⟨?_, ?_⟩
    · by_contra! hnone
      obtain ⟨first, hfirst, hfirstId, hran⟩ := exists_response ha hsame.1 hnone.1
      obtain ⟨second, hsecond, hsecondId, hran'⟩ := exists_response hb hsame.2.1 hnone.2
      obtain ⟨hone, -⟩ := hall hfirst hsecond (by rwa [hfirstId, hsecondId])
        (by rwa [hfirstId, hsecondId])
      exact hone.elim hran hran'
    · obtain ⟨x, hx⟩ := @exists_mem_handleAll uuidInt audit requests a ha
      obtain ⟨y, hy⟩ := @exists_mem_handleAll uuidInt audit requests b hb
      obtain ⟨-, r, hfirst, hsecond⟩ := hall hx hy hid hsame
      rw [answer_of_mem hx hsame.1] at hfirst
      rw [answer_of_mem hy hsame.2.1] at hsecond
      exact hfirst.trans hsecond.symm
  · intro hspelling
    refine (pairwise_sameId audit requests).imp_of_mem fun {first second} hfirst hsecond hsingle
      hsame => ?_
    have hanswers := answer_of_mem hfirst hsame.1
    have hanswers' := answer_of_mem hsecond hsame.2.1
    obtain ⟨r, hr⟩ := firstAnswer_ne_none hfirst hsame.1
    obtain hid | ⟨hcached, heq⟩ := hspelling _ (mem_of_mem_handleAll hfirst) _
      (mem_of_mem_handleAll hsecond) hsame
    · exact ⟨.inr (hsingle hid hsame.2.1), r, hanswers.trans hr, by rw [hanswers', ← hid, hr]⟩
    · refine ⟨?_, r, hanswers.trans hr, by rw [hanswers', ← heq, hr]⟩
      cases hcached with
      | inl h => exact .inl (response_of_cached hfirst hsame.1 h)
      | inr h => exact .inr (response_of_cached hsecond hsame.2.1 h)

/-- `uuid.UUID(value).int` of an id and of the same id in capitals. -/
def capitalsUuidInt (value : String) : Option Nat :=
  if value = "018f0000-0000-7000-8000-00000000000a" ∨
      value = "018F0000-0000-7000-8000-00000000000A" then
    some 0x018f000000007000800000000000000a
  else none

/-- The worker runs a second time for the id in capitals. -/
theorem capitals_executed_twice : ¬ ∀ (uuidInt : String → Option Nat) (audit : AuditLog)
    (requests : List HandleRequest),
    (handleAll uuidInt audit requests).Pairwise (OneExecution uuidInt) := by
  intro hclaim
  have hpairs := hclaim capitalsUuidInt (fun _ => none)
    [⟨"018f0000-0000-7000-8000-00000000000a", ⟨201, "created"⟩⟩,
      ⟨"018F0000-0000-7000-8000-00000000000A", ⟨201, "created"⟩⟩]
  have hone := (List.pairwise_cons.1 hpairs).1 _ List.mem_cons_self
    ⟨by decide +kernel, by decide +kernel, by decide +kernel⟩
  exact absurd hone.1 (by decide +kernel)

end ParallaxKernel.Canary
