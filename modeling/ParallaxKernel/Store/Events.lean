import ParallaxKernel.Store.Transitions

/-!
# Writing events

`events/__init__.py` and the reference check of `validators.py`. Generated ids and clock readings
are arguments.
-/

namespace ParallaxKernel.Store

open Lib Prog

/-- A generated id and the clock reading that goes with it. -/
structure Stamp where
  ulid : String
  now : String
  deriving DecidableEq

/-- `repr` of an optional string. -/
def pyReprOption : Option String → String
  | none => "None"
  | some s => pyRepr s

/-- `_KIND_TABLE`: the primary keys and owners of the rows of each kind. -/
def kindTable : String → Option (Db → List (String × String))
  | "memory" => some fun db => db.memories.map fun m => (m.memoryId, m.userId)
  | "claim" => some fun db => db.claims.map fun c => (c.claimId, c.userId)
  | "source" => some fun db => db.sources.map fun s => (s.sourceId, s.userId)
  | "decision" => some fun db => db.decisions.map fun d => (d.decisionId, d.userId)
  | _ => none

/-- `VALID_TARGET_KINDS`. -/
def validTargetKinds : List String := ["claim", "decision", "memory", "source"]

def targetRefExists (targetKind targetId : String) (userId : Option String) : Sql Bool :=
  match kindTable targetKind with
  | none => raise <| .valueError ("unknown target_kind " ++ pyRepr targetKind ++
      "; expected one of " ++ pyReprList validTargetKinds)
  | some rows => query fun db =>
      (rows db).any fun row => row.1 == targetId && userId.all (row.2 == ·)

/-- The test of `target_ref_exists` for a known kind and a given user. -/
def Db.refExists (db : Db) (kind id userId : String) : Bool :=
  match kindTable kind with
  | none => false
  | some rows => (rows db).any fun row => row.1 == id && row.2 == userId

/-- The arguments of `record_event`. -/
structure EventArgs where
  userId : String
  actor : String
  eventType : String
  targetKind : Option String
  targetId : Option String
  payload : Option (List (String × Json))
  approvalTier : Option String
  sessionId : Option String

/-- The target that `record_event` checks: one of a known kind with a non-empty id. -/
def EventArgs.checkedTarget (a : EventArgs) : Option (String × String) :=
  match a.targetKind, a.targetId with
  | some kind, some id => if id ≠ "" ∧ kind ∈ validTargetKinds then some (kind, id) else none
  | _, _ => none

def EventArgs.event (a : EventArgs) (stamp : Stamp) : Event where
  eventId := stamp.ulid
  userId := a.userId
  actor := a.actor
  eventType := a.eventType
  targetKind := a.targetKind
  targetId := a.targetId
  payloadJson := Json.dumpsSorted (.obj (a.payload.getD []))
  approvalTier := a.approvalTier
  createdAt := stamp.now
  sessionId := a.sessionId

def orphanRejected (kind id : String) : Exc :=
  .valueError ("orphan event rejected: (" ++ pyRepr kind ++ ", " ++ pyRepr id ++
    ") does not exist")

def unpaired (a : EventArgs) : Exc :=
  .valueError ("target_kind and target_id must be provided together or both omitted; " ++
    "got target_kind=" ++ pyReprOption a.targetKind ++ ", target_id=" ++ pyReprOption a.targetId)

def recordEvent (a : EventArgs) (stamp : Stamp) : Sql String :=
  if a.targetKind.isNone != a.targetId.isNone then
    raise (unpaired a)
  else
    match a.checkedTarget with
    | none => do
      insertEvent (a.event stamp)
      pure stamp.ulid
    | some (kind, id) => do
      let found ← targetRefExists kind id (some a.userId)
      if found then
        insertEvent (a.event stamp)
        pure stamp.ulid
      else
        raise (orphanRejected kind id)

/-- The reason why `record_event` refuses before it writes. -/
def EventArgs.refusal (a : EventArgs) (db : Db) : Option Exc :=
  if a.targetKind.isNone != a.targetId.isNone then some (unpaired a)
  else match a.checkedTarget with
    | none => none
    | some (kind, id) =>
      if db.refExists kind id a.userId then none else some (orphanRejected kind id)

theorem targetRefExists_of_mem {kind : String} (h : kind ∈ validTargetKinds) (id : String)
    (userId : String) : targetRefExists kind id (some userId) =
      query fun db => db.refExists kind id userId := by
  simp only [validTargetKinds, List.mem_cons, List.not_mem_nil, or_false] at h
  rcases h with rfl | rfl | rfl | rfl <;> rfl

theorem EventArgs.mem_of_checkedTarget {a : EventArgs} {kind id : String}
    (h : a.checkedTarget = some (kind, id)) : kind ∈ validTargetKinds := by
  unfold checkedTarget at h
  split at h
  · split_ifs at h with hk
    simp only [Option.some.injEq, Prod.mk.injEq] at h
    exact h.1 ▸ hk.2
  · simp at h

theorem exec_recordEvent (a : EventArgs) (stamp : Stamp) (c : Conn Db) :
    (recordEvent a stamp).exec c = match a.refusal c.view with
      | some e => (.error e, c)
      | none => c.wrote stamp.ulid (Db.insertEvent (a.event stamp) c.view) := by
  have hinsert : (do insertEvent (a.event stamp); pure stamp.ulid : Sql String).exec c =
      c.wrote stamp.ulid (Db.insertEvent (a.event stamp) c.view) := by
    rw [exec_bind, exec_insertEvent]
    rcases Db.insertEvent (a.event stamp) c.view with e | ⟨v, n⟩ <;> rfl
  unfold recordEvent EventArgs.refusal
  split_ifs with hpair
  · rfl
  · cases ht : a.checkedTarget with
    | none => simpa using hinsert
    | some target =>
      obtain ⟨kind, id⟩ := target
      simp only [exec_bind, targetRefExists_of_mem (a.mem_of_checkedTarget ht), exec_query]
      split_ifs
      · exact hinsert
      · rfl

def memoryReaffirmed (userId memoryId actor : String) : EventArgs where
  userId := userId
  actor := actor
  eventType := "memory.reaffirmed"
  targetKind := some "memory"
  targetId := some memoryId
  payload := some [("memory_id", .str memoryId)]
  approvalTier := none
  sessionId := none

def recordMemoryReaffirmed (userId memoryId : String) (actor : String) (stamp : Stamp) :
    Sql String :=
  recordEvent (memoryReaffirmed userId memoryId actor) stamp

def claimStateChanged (userId claimId fromState toState : String) (updatedAt : Option String)
    (actor : String) : EventArgs where
  userId := userId
  actor := actor
  eventType := "claim.state_changed"
  targetKind := some "claim"
  targetId := some claimId
  payload := some ([("from", .str fromState), ("to", .str toState)] ++
    (updatedAt.map fun t => ("updated_at", Json.str t)).toList)
  approvalTier := none
  sessionId := none

def recordClaimStateChanged (userId claimId fromState toState : String)
    (updatedAt : Option String) (actor : String) (stamp : Stamp) : Sql String :=
  recordEvent (claimStateChanged userId claimId fromState toState updatedAt actor) stamp

/-- The guarded `UPDATE claims SET state = ?, updated_at = ? WHERE claim_id = ? AND state = ?`. -/
def updateClaimState (claimId fromState toState updatedAt : String) :
    Db → Except Exc (Db × Nat) :=
  Db.updateClaims (fun c => c.claimId == claimId && c.state == fromState)
    fun c => { c with state := toState, updatedAt := updatedAt }

def claimNotFound (claimId : String) : Exc :=
  .valueError ("claim " ++ pyRepr claimId ++ " not found")

def transitionNotAllowed (fromState toState : String) : Exc :=
  .valueError ("transition " ++ pyRepr fromState ++ " -> " ++ pyRepr toState ++
    " not allowed for claims")

/-- The arguments of `transition_claim_state`. -/
structure TransitionArgs where
  claimId : String
  toState : String
  actor : String
  expectedUserId : Option String

def wrongUser (a : TransitionArgs) : Exc :=
  .valueError ("claim " ++ pyRepr a.claimId ++ " belongs to a different user (expected " ++
    pyReprOption a.expectedUserId ++ "); refusing to transition")

def changedConcurrently (claimId fromState : String) : Exc :=
  .valueError ("claim " ++ pyRepr claimId ++ " state changed concurrently (expected from_state=" ++
    pyRepr fromState ++ "); transition aborted")

def Db.findClaim (db : Db) (claimId : String) : Option Claim :=
  db.claims.find? (·.claimId == claimId)

def transitionClaimState (a : TransitionArgs) (updatedAt : String) (stamp : Stamp) :
    Sql String :=
  withConn do
    let row ← query fun db => (db.findClaim a.claimId).map fun c => (c.userId, c.state)
    match row with
    | none => raise (claimNotFound a.claimId)
    | some (storedUserId, fromState) =>
      if a.expectedUserId.any (storedUserId != ·) then
        raise (wrongUser a)
      else
        match isAllowedTransition "claim" fromState a.toState with
        | .error e => raise e
        | .ok false => raise (transitionNotAllowed fromState a.toState)
        | .ok true => do
          let rowcount ← write (updateClaimState a.claimId fromState a.toState updatedAt)
          if rowcount = 0 then
            raise (changedConcurrently a.claimId fromState)
          else
            recordClaimStateChanged storedUserId a.claimId fromState a.toState (some updatedAt)
              a.actor stamp

/-! ## What a transition does -/

/-- The store after the guarded update. -/
def Db.moveClaim (db : Db) (claimId fromState toState updatedAt : String) : Db :=
  { db with
    claims := db.claims.map fun c =>
      if c.claimId == claimId && c.state == fromState then
        { c with state := toState, updatedAt := updatedAt }
      else c }

theorem updateClaimState_eq (db : Db) (claimId fromState toState updatedAt : String) :
    updateClaimState claimId fromState toState updatedAt db =
      .ok (db.moveClaim claimId fromState toState updatedAt,
        (db.claims.filter fun c => c.claimId == claimId && c.state == fromState).length) := rfl

/-- The store after a claim has moved to a new state and the move is on record as `e`. -/
def Db.changeState (db : Db) (c : Claim) (toState updatedAt : String) (e : Event) : Db :=
  { db.moveClaim c.claimId c.state toState updatedAt with events := db.events ++ [e] }

theorem Db.findClaim_mem {db : Db} {claimId : String} {c : Claim}
    (h : db.findClaim claimId = some c) : c ∈ db.claims ∧ c.claimId = claimId :=
  ⟨List.mem_of_find?_eq_some h, by simpa using List.find?_some h⟩

/-- A move keeps ids and owners, so the reference check sees what it saw before. -/
@[simp] theorem refExists_moveClaim (db : Db) (claimId fromState toState updatedAt : String)
    (kind id userId : String) :
    (db.moveClaim claimId fromState toState updatedAt).refExists kind id userId =
      db.refExists kind id userId := by
  have hmap : ((db.moveClaim claimId fromState toState updatedAt).claims.map fun c =>
      (c.claimId, c.userId)) = db.claims.map fun c => (c.claimId, c.userId) := by
    simp only [Db.moveClaim, List.map_map]
    refine List.map_congr_left fun c _ => ?_
    simp only [Function.comp_apply]
    split_ifs <;> rfl
  unfold Db.refExists
  cases hk : kindTable kind with
  | none => rfl
  | some rows =>
    unfold kindTable at hk
    split at hk
    all_goals
      cases hk
      try simp only [hmap]
      try rfl

theorem insertEvent_eq {e : Event} {db : Db} (h : ∀ f ∈ db.events, f.eventId ≠ e.eventId) :
    Db.insertEvent e db = .ok ({ db with events := db.events ++ [e] }, 1) := by
  have hfree : (db.events.any fun f => f.eventId == e.eventId) = false := by simpa using h
  simp [Db.insertEvent, hfree]

theorem insertEvent_cases (e : Event) (db : Db) :
    (∃ x, Db.insertEvent e db = .error x) ∨
    (∀ f ∈ db.events, f.eventId ≠ e.eventId) ∧
      Db.insertEvent e db = .ok ({ db with events := db.events ++ [e] }, 1) := by
  by_cases h : ∀ f ∈ db.events, f.eventId ≠ e.eventId
  · exact .inr ⟨h, insertEvent_eq h⟩
  · refine .inl ⟨.integrityError "UNIQUE constraint failed: events.event_id", ?_⟩
    have hclash : (db.events.any fun f => f.eventId == e.eventId) = true := by simpa using h
    simp [Db.insertEvent, hclash]

theorem moveClaim_count {db : Db} {c : Claim} (h : c ∈ db.claims) :
    (db.claims.filter fun d => d.claimId == c.claimId && d.state == c.state).length ≠ 0 := by
  rw [ne_eq, List.length_eq_zero_iff, List.filter_eq_nil_iff]
  exact fun hall => absurd (hall c h) (by simp)

/-- A transition either raises and leaves the store as it is, or makes one allowed move. -/
theorem run_transitionClaimState (a : TransitionArgs) (updatedAt : String) (stamp : Stamp)
    (db : Db) :
    (∃ e, run (transitionClaimState a updatedAt stamp) db = (.error e, db)) ∨
    ∃ c, db.findClaim a.claimId = some c ∧ ClaimStep c.state a.toState ∧
      (∀ e ∈ db.events, e.eventId ≠ stamp.ulid) ∧
      run (transitionClaimState a updatedAt stamp) db = (.ok stamp.ulid,
        db.changeState c a.toState updatedAt
          ((claimStateChanged c.userId c.claimId c.state a.toState (some updatedAt) a.actor).event
            stamp)) := by
  unfold run transitionClaimState
  simp only [exec_withConn, exec_bind, exec_query, Conn.view, Option.getD_none]
  cases hc : db.findClaim a.claimId with
  | none => exact .inl ⟨claimNotFound a.claimId, rfl⟩
  | some c =>
    obtain ⟨hmem, hid⟩ := Db.findClaim_mem hc
    simp only [Option.map_some, ← hid]
    split_ifs with huser
    · exact .inl ⟨wrongUser a, rfl⟩
    · cases hallowed : isAllowedTransition "claim" c.state a.toState with
      | error e => exact .inl ⟨e, rfl⟩
      | ok allowed =>
        cases allowed with
        | false => exact .inl ⟨transitionNotAllowed c.state a.toState, rfl⟩
        | true =>
          simp only [exec_bind, exec_write, updateClaimState_eq, Conn.view, Option.getD_none,
            moveClaim_count hmem, if_false, recordClaimStateChanged, exec_recordEvent,
            Option.getD_some]
          cases hr : (claimStateChanged c.userId c.claimId c.state a.toState (some updatedAt)
              a.actor).refusal (db.moveClaim c.claimId c.state a.toState updatedAt) with
          | some e => exact .inl ⟨e, rfl⟩
          | none =>
            rcases insertEvent_cases ((claimStateChanged c.userId c.claimId c.state a.toState
                (some updatedAt) a.actor).event stamp)
                (db.moveClaim c.claimId c.state a.toState updatedAt) with ⟨e, he⟩ | ⟨hfree, he⟩
            · exact .inl ⟨e, by rw [he]; rfl⟩
            · exact .inr ⟨c, rfl, hallowed, hfree, by rw [he]; rfl⟩

/-! ## Recording among other connections -/

section Safe

variable {I : Db → Prop} {R : Db → Db → Prop} {F : List (Db × Db) → Prop}
  {G : List (Db × Db) → Db → Db → Prop}
  {w : Option Db} {base : Db} {h : List (Db × Db)}

/-- Recording an event is safe if its refusal, its failure and its commit are. -/
theorem safe_recordEvent {Q : Except Exc String → Option Db → Db → List (Db × Db) → Prop}
    {a : EventArgs} {stamp : Stamp} (htrans : ∀ {a b c}, R a b → R b c → R a c)
    (hpaired : a.targetKind.isNone = a.targetId.isNone)
    (hrefused : ∀ b v, Sees I R w base b v → ∀ e, a.refusal v = some e → Q (.error e) w b h)
    (hfail : F h → ∀ b e, Q (.error e) w b h ∧ Q (.error e) none b h)
    (hcommit : ∀ b v, Sees I R w base b v → (∀ e ∈ v.events, e.eventId ≠ stamp.ulid) →
      I { v with events := v.events ++ [a.event stamp] } ∧
      G h b { v with events := v.events ++ [a.event stamp] } ∧
      Q (.ok stamp.ulid) none { v with events := v.events ++ [a.event stamp] }
        (h ++ [(b, { v with events := v.events ++ [a.event stamp] })])) :
    (recordEvent a stamp).Safe I R F G Q w base h := by
  have hinsert : ∀ b, (∀ b' v', Sees I R w b b' v' → Sees I R w base b' v') →
      (do insertEvent (a.event stamp); pure stamp.ulid : Sql String).Safe I R F G Q w b h := by
    intro b hb
    rw [safe_bind]
    refine safe_withConn_write (fun b' v' hs v'' n hins => ?_) fun hf b' e => (hfail hf b' e).2
    cases insertEvent_cases (a.event stamp) v' with
    | inl herr =>
      obtain ⟨x, hx⟩ := herr
      simp [hx] at hins
    | inr hfree =>
      obtain ⟨hid, hok⟩ := hfree
      rw [hok] at hins
      cases hins
      exact hcommit b' v' (hb b' v' hs) hid
  unfold recordEvent
  rw [hpaired, bne_self_eq_false, if_neg Bool.false_ne_true]
  cases htarget : a.checkedTarget with
  | none => exact hinsert base fun b v hs => hs
  | some target =>
    obtain ⟨kind, id⟩ := target
    simp only [targetRefExists_of_mem (a.mem_of_checkedTarget htarget)]
    rw [safe_bind, safe_query]
    refine ⟨fun b v hs => ?_, fun hf e => (hfail hf base e).1⟩
    cases hfound : v.refExists kind id a.userId with
    | true => exact hinsert b fun b' v' hs' => hs.trans htrans hs'
    | false =>
      refine hrefused b v hs (orphanRejected kind id) ?_
      simp [EventArgs.refusal, hpaired, htarget, hfound]

end Safe

end ParallaxKernel.Store
