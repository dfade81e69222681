import ParallaxKernel.Store.Events

/-!
# The review queue

`extract/review.py`: a pending claim is approved or rejected under a guard of its own.
-/

namespace ParallaxKernel.Store

open Lib Prog

def cannotTransition (claimId state toState : String) : Exc :=
  .valueError ("claim " ++ pyRepr claimId ++ " cannot transition from " ++ pyRepr state ++
    " (review." ++ toState ++ " requires state='pending')")

/-- `_transition`. -/
def reviewTransition (claimId toState updatedAt : String) (stamp : Stamp) : Sql Unit :=
  match isAllowedTransition "claim" "pending" toState with
  | .error e => raise e
  | .ok false => raise (transitionNotAllowed "pending" toState)
  | .ok true => withConn do
    let rowcount ← write (updateClaimState claimId "pending" toState updatedAt)
    if rowcount = 0 then
      let existing ← query fun db => (db.findClaim claimId).map (·.state)
      match existing with
      | none => raise (claimNotFound claimId)
      | some state => raise (cannotTransition claimId state toState)
    else
      let userRow ← query fun db => (db.findClaim claimId).map (·.userId)
      match userRow with
      | none => raise (.typeError "'NoneType' object is not subscriptable")
      | some userId => do
        let _ ← recordClaimStateChanged userId claimId "pending" toState (some updatedAt) "system"
          stamp
        pure ()

theorem findClaim_moveClaim (db : Db) (claimId fromState toState updatedAt id : String) :
    ((db.moveClaim claimId fromState toState updatedAt).findClaim id).map (·.userId) =
      (db.findClaim id).map (·.userId) := by
  unfold Db.findClaim Db.moveClaim
  rw [List.find?_map, Option.map_map]
  have hkey : ((fun c : Claim => c.claimId == id) ∘ fun c : Claim =>
      if c.claimId == claimId && c.state == fromState then
        { c with state := toState, updatedAt := updatedAt }
      else c) = fun c => c.claimId == id := by
    funext c
    simp only [Function.comp_apply]
    split_ifs <;> rfl
  rw [hkey]
  congr 1
  funext c
  simp only [Function.comp_apply]
  split_ifs <;> rfl

theorem findClaim_eq_of_mem {db : Db} (hids : (db.claims.map (·.claimId)).Nodup) {c : Claim}
    (hc : c ∈ db.claims) : db.findClaim c.claimId = some c := by
  cases hf : db.findClaim c.claimId with
  | none => exact absurd (List.find?_eq_none.1 hf c hc) (by simp)
  | some d =>
    obtain ⟨hd, hid⟩ := Db.findClaim_mem hf
    rw [List.inj_on_of_nodup_map hids hd hc hid]

/-- A review either raises and leaves the store as it is, or moves one pending claim. -/
theorem run_reviewTransition {db : Db} (hids : (db.claims.map (·.claimId)).Nodup)
    (claimId toState updatedAt : String) (stamp : Stamp) :
    (∃ e, run (reviewTransition claimId toState updatedAt stamp) db = (.error e, db)) ∨
    ∃ c, db.findClaim claimId = some c ∧ c.state = "pending" ∧ ClaimStep c.state toState ∧
      (∀ e ∈ db.events, e.eventId ≠ stamp.ulid) ∧
      run (reviewTransition claimId toState updatedAt stamp) db = (.ok (),
        db.changeState c toState updatedAt
          ((claimStateChanged c.userId c.claimId c.state toState (some updatedAt) "system").event
            stamp)) := by
  unfold run reviewTransition
  cases hallowed : isAllowedTransition "claim" "pending" toState with
  | error e => exact .inl ⟨e, rfl⟩
  | ok allowed =>
    cases allowed with
    | false => exact .inl ⟨transitionNotAllowed "pending" toState, rfl⟩
    | true =>
      simp only [exec_withConn, exec_bind, exec_write, updateClaimState_eq, Conn.view,
        Option.getD_none]
      split_ifs with hcount
      · simp only [exec_bind, exec_query, Conn.view, Option.getD_some]
        cases ((db.moveClaim claimId "pending" toState updatedAt).findClaim claimId).map
            (·.state) with
        | none => exact .inl ⟨claimNotFound claimId, rfl⟩
        | some state => exact .inl ⟨cannotTransition claimId state toState, rfl⟩
      · obtain ⟨c, hc⟩ := List.exists_mem_of_length_pos (Nat.pos_of_ne_zero hcount)
        simp only [List.mem_filter, Bool.and_eq_true, beq_iff_eq] at hc
        obtain ⟨hmem, rfl, hpending⟩ := hc
        have hfind := findClaim_eq_of_mem hids hmem
        simp only [exec_bind, exec_query, Conn.view, Option.getD_some, findClaim_moveClaim, hfind,
          Option.map_some, recordClaimStateChanged, exec_recordEvent]
        cases hr : (claimStateChanged c.userId c.claimId "pending" toState (some updatedAt)
            "system").refusal (db.moveClaim c.claimId "pending" toState updatedAt) with
        | some e => exact .inl ⟨e, rfl⟩
        | none =>
          rcases insertEvent_cases ((claimStateChanged c.userId c.claimId "pending" toState
              (some updatedAt) "system").event stamp)
              (db.moveClaim c.claimId "pending" toState updatedAt) with ⟨e, he⟩ | ⟨hfree, he⟩
          · exact .inl ⟨e, by rw [he]; rfl⟩
          · refine .inr ⟨c, rfl, hpending, hpending ▸ hallowed, hfree, ?_⟩
            rw [he, Db.changeState, hpending]
            rfl

def approve (claimId updatedAt : String) (stamp : Stamp) : Sql Unit :=
  reviewTransition claimId "confirmed" updatedAt stamp

def reject (claimId updatedAt : String) (stamp : Stamp) : Sql Unit :=
  reviewTransition claimId "rejected" updatedAt stamp

end ParallaxKernel.Store
