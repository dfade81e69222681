import ParallaxKernel.Store.Rebuild

/-!
# Runs of the writers

Every run of the writers of the store, rows written behind the log's back among them, leaves the
log `Rebuildable`.
-/

namespace ParallaxKernel.Store

open Lib Prog

/-! ## Rows and their events -/

/-- The events that the writers record, each about rows of the store. -/
inductive Recorded (db : Db) : Event → Prop where
  | memoryCreated {m : Memory} (actor : String) (stamp : Stamp) (hm : m ∈ db.memories) :
    Recorded db ({ memoryCreated m with actor := actor }.event stamp)
  | claimCreated {c d : Claim} (actor : String) (stamp : Stamp) (hd : d ∈ db.claims)
    (hsame : c.SameRow d) (hid : c.claimId ≠ "") :
    Recorded db ({ claimCreated c with actor := actor }.event stamp)
  | stateChanged {d : Claim} (userId fromState toState updatedAt actor : String) (stamp : Stamp)
    (hd : d ∈ db.claims) (hto : toState ≠ "") :
    Recorded db ((claimStateChanged userId d.claimId fromState toState (some updatedAt)
      actor).event stamp)
  | reaffirmed (userId memoryId actor : String) (stamp : Stamp) :
    Recorded db ((memoryReaffirmed userId memoryId actor).event stamp)

/-- The row as it is once its state changes are forgotten. -/
def Claim.erased (c : Claim) : Claim := { c with state := "", updatedAt := "" }

/-- The effects in the log about each claim give the claim: from nothing if it has a created
event, and from the claim itself if not. -/
structure Rebuildable (db : Db) : Prop extends db.Valid where
  recorded : ∀ e ∈ db.events, Recorded db e
  claims : ∀ c ∈ db.claims, claimAfter c.claimId db.events
    (if db.hasEvent "claim.created" "claim" c.claimId then none else some c) = some c

namespace Recorded

variable {db db' : Db} {e : Event}

theorem mono (h : Recorded db e) (hm : ∀ m ∈ db.memories, m ∈ db'.memories)
    (hc : ∀ c ∈ db.claims, ∃ d ∈ db'.claims, c.SameRow d) : Recorded db' e := by
  cases h with
  | memoryCreated actor stamp hmem => exact .memoryCreated actor stamp (hm _ hmem)
  | claimCreated actor stamp hd hsame hid =>
    obtain ⟨d', hd', hsame'⟩ := hc _ hd
    exact .claimCreated actor stamp hd' (hsame.trans hsame') hid
  | stateChanged userId fromState toState updatedAt actor stamp hd hto =>
    obtain ⟨d', hd', hsame'⟩ := hc _ hd
    rw [hsame'.claimId]
    exact .stateChanged userId fromState toState updatedAt actor stamp hd' hto
  | reaffirmed userId memoryId actor stamp => exact .reaffirmed userId memoryId actor stamp

theorem fits (h : Recorded db e) : ∃ eff, e.effect = .ok eff ∧ eff.Fits db := by
  cases h with
  | memoryCreated actor stamp hm => exact ⟨_, effect_memoryCreated _ _ _, hm⟩
  | @claimCreated c d actor stamp hd hsame hid =>
    exact ⟨_, effect_claimCreated _ _ _, c.stored_stored, d, hd, c.sameRow_stored.trans hsame⟩
  | stateChanged userId fromState toState updatedAt actor stamp hd hto =>
    refine ⟨_, effect_claimStateChanged _ _ _ _ _ _ _ hto, ?_⟩
    split_ifs <;> trivial
  | reaffirmed userId memoryId actor stamp => exact ⟨_, effect_memoryReaffirmed _ _ _ _, trivial⟩

/-- An event is about a claim of the store only. -/
theorem claim_of_about {id : String} (h : Recorded db e) (habout : e.aboutClaim id = true) :
    id ≠ "" ∧ ∃ d ∈ db.claims, d.claimId = id := by
  simp only [Event.aboutClaim, beq_iff_eq] at habout
  cases h with
  | memoryCreated actor stamp hm =>
    rw [Event.eff_eq (effect_memoryCreated _ _ _)] at habout
    simp [Effect.claimKey] at habout
  | @claimCreated c d actor stamp hd hsame hid =>
    rw [Event.eff_eq (effect_claimCreated _ _ _)] at habout
    obtain rfl : c.claimId = id := by simpa [Effect.claimKey, Claim.stored] using habout
    exact ⟨hid, d, hd, hsame.claimId.symm⟩
  | @stateChanged d userId fromState toState updatedAt actor stamp hd hto =>
    rw [Event.eff_eq (effect_claimStateChanged _ _ _ _ _ _ _ hto)] at habout
    split_ifs at habout with hid
    · simp [Effect.claimKey] at habout
    · obtain rfl : d.claimId = id := by simpa [Effect.claimKey] using habout
      exact ⟨hid, d, hd, rfl⟩
  | reaffirmed userId memoryId actor stamp =>
    rw [Event.eff_eq (effect_memoryReaffirmed _ _ _ _)] at habout
    simp [Effect.claimKey] at habout

theorem type_of_about {id : String} (h : Recorded db e) (habout : e.aboutClaim id = true) :
    e.targetKind = some "claim" ∧ e.targetId = some id ∧
      (e.eventType = "claim.created" ∨ e.eventType = "claim.state_changed") := by
  simp only [Event.aboutClaim, beq_iff_eq] at habout
  cases h with
  | memoryCreated actor stamp hm =>
    rw [Event.eff_eq (effect_memoryCreated _ _ _)] at habout
    simp [Effect.claimKey] at habout
  | @claimCreated c d actor stamp hd hsame hid =>
    rw [Event.eff_eq (effect_claimCreated _ _ _)] at habout
    obtain rfl : c.claimId = id := by simpa [Effect.claimKey, Claim.stored] using habout
    exact ⟨rfl, rfl, .inl rfl⟩
  | @stateChanged d userId fromState toState updatedAt actor stamp hd hto =>
    rw [Event.eff_eq (effect_claimStateChanged _ _ _ _ _ _ _ hto)] at habout
    split_ifs at habout with hid
    · simp [Effect.claimKey] at habout
    · obtain rfl : d.claimId = id := by simpa [Effect.claimKey] using habout
      exact ⟨rfl, rfl, .inr rfl⟩
  | reaffirmed userId memoryId actor stamp =>
    rw [Event.eff_eq (effect_memoryReaffirmed _ _ _ _)] at habout
    simp [Effect.claimKey] at habout

theorem claim_of_created {id : String} (h : Recorded db e) (htype : e.eventType = "claim.created")
    (htarget : e.targetId = some id) : id ≠ "" ∧ ∃ d ∈ db.claims, d.claimId = id := by
  cases h with
  | memoryCreated actor stamp hm => simp [EventArgs.event, Store.memoryCreated] at htype
  | @claimCreated c d actor stamp hd hsame hid =>
    obtain rfl : c.claimId = id := by simpa [EventArgs.event, Store.claimCreated] using htarget
    exact ⟨hid, d, hd, hsame.claimId.symm⟩
  | stateChanged => simp [EventArgs.event, claimStateChanged] at htype
  | reaffirmed => simp [EventArgs.event, memoryReaffirmed] at htype

end Recorded

theorem Db.hasEvent_iff {db : Db} {eventType targetKind targetId : String} :
    db.hasEvent eventType targetKind targetId = true ↔ ∃ e ∈ db.events,
      e.eventType = eventType ∧ e.targetKind = some targetKind ∧ e.targetId = some targetId := by
  simp [Db.hasEvent, List.any_eq_true, and_assoc]

theorem hasEvent_append (db : Db) (e : Event) (eventType targetKind targetId : String) :
    { db with events := db.events ++ [e] }.hasEvent eventType targetKind targetId =
      (db.hasEvent eventType targetKind targetId || (e.eventType == eventType &&
        e.targetKind == some targetKind && e.targetId == some targetId)) := by
  simp [Db.hasEvent]

theorem erased_claimAfter (id : String) (log : List Event) (c : Claim) :
    ∃ d, claimAfter id log (some c) = some d ∧ d.erased = c.erased := by
  induction log generalizing c with
  | nil => exact ⟨c, rfl, rfl⟩
  | cons e log ih =>
    have hstep : ∃ d, e.eff.onClaim id (some c) = some d ∧ d.erased = c.erased := by
      cases e.eff with
      | claimState i state updatedAt =>
        by_cases hi : i = id
        · exact ⟨{ c with state := state, updatedAt := updatedAt.getD c.updatedAt },
            by simp [Effect.onClaim, hi], rfl⟩
        · exact ⟨c, by simp [Effect.onClaim, hi], rfl⟩
      | _ => exact ⟨c, rfl, rfl⟩
    obtain ⟨d, hd, herase⟩ := hstep
    obtain ⟨x, hx, hxd⟩ := ih d
    refine ⟨x, ?_, hxd.trans herase⟩
    rw [← hx, ← hd]
    rfl

namespace Rebuildable

variable {db : Db}

theorem no_event_about (h : Rebuildable db) {id : String} (hid : ∀ c ∈ db.claims, c.claimId ≠ id) :
    ∀ e ∈ db.events, e.aboutClaim id = false := by
  intro e he
  by_contra habout
  obtain ⟨-, d, hd, hdid⟩ := (h.recorded e he).claim_of_about (by simpa using habout)
  exact hid d hd hdid

theorem empty : Rebuildable .empty := by
  refine ⟨⟨?_, ?_, ?_, ?_, ?_⟩, ?_, ?_⟩ <;> simp [Db.empty]

theorem withSource (h : Rebuildable db) (s : Source) : Rebuildable (db.withSource s) := by
  have hvalid := h.toValid.withSource s
  unfold Db.withSource at hvalid ⊢
  split_ifs at hvalid ⊢
  · exact h
  · exact ⟨hvalid, fun e he => (h.recorded e he).mono (fun m hm => hm) fun c hc => ⟨c, hc, .refl c⟩,
      h.claims⟩

theorem addMemory (h : Rebuildable db) {m : Memory} (hclash : db.memories.any m.clashes = false)
    (hfk : m.sourceId.all db.hasSource = true) :
    Rebuildable { db with memories := db.memories ++ [m] } :=
  ⟨h.toValid.addMemory hclash hfk,
    fun e he => (h.recorded e he).mono (fun n hn => by simp [hn]) fun c hc => ⟨c, hc, .refl c⟩,
    h.claims⟩

theorem addClaim (h : Rebuildable db) {c : Claim} (hclash : db.claims.any c.clashes = false)
    (hfk : db.hasSource c.sourceId = true) :
    Rebuildable { db with claims := db.claims ++ [c.stored] } := by
  have hid : ∀ d ∈ db.claims, d.claimId ≠ c.claimId := by
    intro d hd heq
    have := List.any_eq_false.1 hclash d hd
    simp [Claim.clashes, heq] at this
  refine ⟨h.toValid.addClaim hclash hfk,
    fun e he => (h.recorded e he).mono (fun m hm => hm) fun d hd => ⟨d, by simp [hd], .refl d⟩,
    fun d hd => ?_⟩
  rcases List.mem_append.1 hd with hd | hd
  · exact h.claims d hd
  · obtain rfl := List.mem_singleton.1 hd
    have hnone : db.hasEvent "claim.created" "claim" c.stored.claimId = false := by
      rw [Bool.eq_false_iff, ne_eq, Db.hasEvent_iff]
      rintro ⟨e, he, htype, -, htarget⟩
      obtain ⟨-, d, hd, hdid⟩ := (h.recorded e he).claim_of_created htype htarget
      exact hid d hd hdid
    show claimAfter _ _ (if db.hasEvent _ _ _ = true then _ else _) = _
    rw [hnone]
    exact claimAfter_of_no_event (h.no_event_about hid) _

/-- An event that is about no claim. -/
theorem addEvent (h : Rebuildable db) {e : Event} (he : Recorded db e)
    (habout : e.eff.claimKey = none) (htype : e.eventType ≠ "claim.created") :
    Rebuildable { db with events := db.events ++ [e] } := by
  refine ⟨h.appendEvent e, fun f hf => ?_, fun c hc => ?_⟩
  · have hrec : Recorded db f := by
      rcases List.mem_append.1 hf with hf | hf
      · exact h.recorded f hf
      · exact List.mem_singleton.1 hf ▸ he
    exact hrec.mono (fun m hm => hm) fun c hc => ⟨c, hc, .refl c⟩
  · rw [claimAfter_append, Effect.onClaim_of_ne (by simp [habout]), hasEvent_append]
    simpa [htype] using h.claims c hc

/-- The created event of a claim that no event is about yet. -/
theorem addClaimCreated (h : Rebuildable db) {c : Claim} (hc : c.stored ∈ db.claims)
    (hid : c.claimId ≠ "") (hno : ∀ e ∈ db.events, e.aboutClaim c.claimId = false)
    (stamp : Stamp) :
    Rebuildable { db with events := db.events ++ [(claimCreated c).event stamp] } := by
  have heff : ((claimCreated c).event stamp).eff = .claim c.stored :=
    Event.eff_eq (effect_claimCreated c "system" stamp)
  refine ⟨h.appendEvent _, fun f hf => ?_, fun d hd => ?_⟩
  · have hrec : Recorded db f := by
      rcases List.mem_append.1 hf with hf | hf
      · exact h.recorded f hf
      · rw [List.mem_singleton.1 hf]
        exact .claimCreated "system" stamp hc ⟨rfl, rfl, rfl, rfl⟩ hid
    exact hrec.mono (fun m hm => hm) fun d hd => ⟨d, hd, .refl d⟩
  · rw [claimAfter_append, hasEvent_append, heff]
    by_cases hdc : d.claimId = c.claimId
    · obtain rfl : d = c.stored := h.claim_eq_of_id hd hc hdc
      have htrue : ((claimCreated c).event stamp).eventType == "claim.created" &&
          ((claimCreated c).event stamp).targetKind == some "claim" &&
          ((claimCreated c).event stamp).targetId == some c.stored.claimId := by
        simp [EventArgs.event, claimCreated, Claim.stored]
      rw [htrue, Bool.or_true, if_pos rfl]
      have hstart : claimAfter c.stored.claimId db.events none = none :=
        claimAfter_of_no_event hno none
      simp [hstart, Effect.onClaim]
    · have hfalse : (((claimCreated c).event stamp).targetId == some d.claimId) = false := by
        simpa [EventArgs.event, claimCreated] using fun heq => hdc heq.symm
      have hkey : (Effect.claim c.stored).claimKey ≠ some d.claimId := by
        simpa [Effect.claimKey, Claim.stored] using fun heq => hdc heq.symm
      rw [Effect.onClaim_of_ne hkey, hfalse, Bool.and_false, Bool.or_false]
      exact h.claims d hd

/-- A state change after the effects about a claim gives the changed claim. -/
theorem onClaim_changed (h : Rebuildable db) {c : Claim} (hc : c ∈ db.claims)
    (toState updatedAt : String) :
    (if c.claimId = "" then Effect.nothing else
      .claimState c.claimId toState (some updatedAt)).onClaim c.claimId
      (claimAfter c.claimId db.events (if db.hasEvent "claim.created" "claim" c.claimId then none
        else some { c with state := toState, updatedAt := updatedAt })) =
      some { c with state := toState, updatedAt := updatedAt } := by
  by_cases hid : c.claimId = ""
  · have hnone : db.hasEvent "claim.created" "claim" c.claimId = false := by
      rw [Bool.eq_false_iff, ne_eq, Db.hasEvent_iff]
      rintro ⟨e, he, htype, -, htarget⟩
      exact ((h.recorded e he).claim_of_created htype htarget).1 hid
    have hno : ∀ e ∈ db.events, e.aboutClaim c.claimId = false := by
      intro e he
      by_contra habout
      exact ((h.recorded e he).claim_of_about (by simpa using habout)).1 hid
    rw [hnone, claimAfter_of_no_event hno]
    simp [hid, Effect.onClaim]
  · rw [if_neg hid]
    have hrow := h.claims c hc
    cases hcreated : db.hasEvent "claim.created" "claim" c.claimId with
    | true =>
      rw [hcreated, if_pos rfl] at hrow
      simp [hrow, Effect.onClaim]
    | false =>
      obtain ⟨y, hy, herased⟩ := erased_claimAfter c.claimId db.events
        { c with state := toState, updatedAt := updatedAt }
      have heq := congrArg
        (fun d : Claim => { d with state := toState, updatedAt := updatedAt }) herased
      simpa [hy, Effect.onClaim, Claim.erased] using heq

theorem changeState (h : Rebuildable db) {c : Claim} (hc : c ∈ db.claims) {toState : String}
    (hto : toState ≠ "") (userId fromState updatedAt actor : String) (stamp : Stamp) :
    Rebuildable (db.changeState c toState updatedAt ((claimStateChanged userId c.claimId fromState
      toState (some updatedAt) actor).event stamp)) := by
  have hmoved (d : Claim) := (sameRow_moved c d toState updatedAt).symm
  have heff : ((claimStateChanged userId c.claimId fromState toState (some updatedAt)
      actor).event stamp).eff =
      if c.claimId = "" then .nothing else .claimState c.claimId toState (some updatedAt) :=
    Event.eff_eq (effect_claimStateChanged _ _ _ _ _ _ _ hto)
  refine ⟨h.toValid.changeState _ _ _ _, fun f hf => ?_, fun d hd => ?_⟩
  · have hrec : Recorded db f := by
      rcases List.mem_append.1 hf with hf | hf
      · exact h.recorded f hf
      · exact List.mem_singleton.1 hf ▸ .stateChanged _ _ _ _ _ _ hc hto
    refine hrec.mono (fun m hm => hm) fun x hx => ⟨_, List.mem_map.2 ⟨x, hx, rfl⟩, ?_⟩
    exact (hmoved x).symm
  · obtain ⟨x, hx, rfl⟩ := List.mem_map.1 hd
    have hcreated : (db.changeState c toState updatedAt ((claimStateChanged userId c.claimId
        fromState toState (some updatedAt) actor).event stamp)).hasEvent "claim.created" "claim"
        x.claimId = db.hasEvent "claim.created" "claim" x.claimId := by
      simp [Db.hasEvent, Db.changeState, EventArgs.event, claimStateChanged]
    rw [(hmoved x).claimId, hcreated]
    show claimAfter x.claimId (db.events ++ [_]) _ = _
    rw [claimAfter_append, heff]
    by_cases hxc : x.claimId = c.claimId
    · obtain rfl : x = c := h.claim_eq_of_id hx hc hxc
      simp only [beq_self_eq_true, Bool.and_self, if_true]
      exact h.onClaim_changed hx toState updatedAt
    · have hne : (x.claimId == c.claimId) = false := by simpa using hxc
      have hkey : (if c.claimId = "" then Effect.nothing else
          .claimState c.claimId toState (some updatedAt)).claimKey ≠ some x.claimId := by
        split_ifs
        · simp [Effect.claimKey]
        · simpa [Effect.claimKey] using Ne.symm hxc
      rw [Effect.onClaim_of_ne hkey]
      simpa [hne] using h.claims x hx

end Rebuildable

/-! ## Runs of the writers -/

/-- The writers of a run, with the ids and clock readings they draw. The last three write a row
alone, as versions without created events did, and as an ingest does that dies before its event. -/
inductive Op where
  | ingestMemory (a : MemoryArgs) (d : Draws)
  | ingestClaim (a : ClaimArgs) (d : Draws)
  | transition (a : TransitionArgs) (updatedAt : String) (stamp : Stamp)
  | approve (claimId updatedAt : String) (stamp : Stamp)
  | reject (claimId updatedAt : String) (stamp : Stamp)
  | insertSource (s : Source)
  | insertMemory (m : Memory)
  | insertClaim (c : Claim)

variable (D : Digest)

/-- The store after one call, whether it returns or raises. -/
def Op.apply (db : Db) : Op → Db
  | .ingestMemory a d => (run (Store.ingestMemory D a d) db).2
  | .ingestClaim a d => (run (Store.ingestClaim D a d) db).2
  | .transition a updatedAt stamp => (run (transitionClaimState a updatedAt stamp) db).2
  | .approve claimId updatedAt stamp => (run (Store.approve claimId updatedAt stamp) db).2
  | .reject claimId updatedAt stamp => (run (Store.reject claimId updatedAt stamp) db).2
  | .insertSource s => (run (Store.insertSource s) db).2
  | .insertMemory m => (run (Store.insertMemory m) db).2
  | .insertClaim c => (run (Store.insertClaim c) db).2

def applyOps (ops : List Op) (db : Db) : Db := ops.foldl (Op.apply D) db

/-- The id that an ingest generates is a new one. -/
def Op.Fresh (db : Db) : Op → Prop
  | .ingestMemory _ d => d.row.ulid ≠ "" ∧ ∀ m ∈ db.memories, m.memoryId ≠ d.row.ulid
  | .ingestClaim _ d => d.row.ulid ≠ "" ∧ ∀ c ∈ db.claims, c.claimId ≠ d.row.ulid
  | _ => True

/-- Every ingest of a run generates a new id. -/
def FreshOps : List Op → Db → Prop
  | [], _ => True
  | op :: ops, db => op.Fresh db ∧ FreshOps ops (op.apply D db)

instance (db : Db) : (op : Op) → Decidable (op.Fresh db)
  | .ingestMemory _ _ | .ingestClaim _ _ => inferInstanceAs (Decidable (_ ∧ _))
  | .transition .. | .approve .. | .reject .. | .insertSource _ | .insertMemory _
  | .insertClaim _ => inferInstanceAs (Decidable True)

instance instDecidableFreshOps : (ops : List Op) → (db : Db) → Decidable (FreshOps D ops db)
  | [], _ => inferInstanceAs (Decidable True)
  | op :: ops, db =>
    have := instDecidableFreshOps ops (op.apply D db)
    inferInstanceAs (Decidable (_ ∧ _))

theorem run_map {α β : Type} (p : Sql α) (f : α → β) (db : Db) :
    (run (do let r ← p; pure (f r)) db).2 = (run p db).2 := by
  simp only [run, exec_bind]
  rcases p.exec ⟨db, none⟩ with ⟨e | a, c⟩ <;> rfl

theorem run_writeOnce {f : Db → Except Exc (Db × Nat)} (db : Db) (p : Sql Unit)
    (hp : ∀ c : Conn Db, p.exec c = c.wrote () (f c.view)) :
    (run p db).2 = match f db with
      | .ok (db', _) => db'
      | .error _ => db := by
  simp only [run, hp, Conn.view, Option.getD_none]
  rcases f db with e | ⟨v, n⟩ <;> rfl

namespace Rebuildable

variable {D} {db : Db}

theorem insertMemory (h : Rebuildable db) {m : Memory} {db' : Db} {n : Nat}
    (hm : db.insertMemory m = .ok (db', n)) : Rebuildable db' := by
  rcases db.insertMemory_cases m with ⟨hins, -⟩ | ⟨hins, hclash, hfk⟩ | hins
  all_goals simp only [hins, Except.ok.injEq, Prod.mk.injEq, reduceCtorEq] at hm
  · exact hm.1 ▸ h
  · exact hm.1 ▸ h.addMemory hclash hfk

/-- A row that is found under a new id is the row just inserted. -/
theorem memory_mem_of_inserted {m : Memory} {db' : Db} {n : Nat}
    (hm : db.insertMemory m = .ok (db', n)) (hnew : ∀ x ∈ db.memories, x.memoryId ≠ m.memoryId)
    (hfound : ∃ x ∈ db'.memories, x.memoryId = m.memoryId) : m ∈ db'.memories := by
  rcases db.insertMemory_cases m with ⟨hins, -⟩ | ⟨hins, -⟩ | hins
  all_goals simp only [hins, Except.ok.injEq, Prod.mk.injEq, reduceCtorEq] at hm
  · obtain ⟨x, hx, hid⟩ := hfound
    exact absurd hid (hnew x (hm.1 ▸ hx))
  · simp [← hm.1]

theorem claim_mem_of_inserted {c : Claim} {db' : Db} {n : Nat}
    (hc : db.insertClaim c = .ok (db', n)) (hnew : ∀ x ∈ db.claims, x.claimId ≠ c.claimId)
    (hfound : ∃ x ∈ db'.claims, x.claimId = c.claimId) : c.stored ∈ db'.claims := by
  rcases db.insertClaim_cases c with ⟨hins, -⟩ | ⟨hins, -⟩ | hins
  all_goals simp only [hins, Except.ok.injEq, Prod.mk.injEq, reduceCtorEq] at hc
  · obtain ⟨x, hx, hid⟩ := hfound
    exact absurd hid (hnew x (hc.1 ▸ hx))
  · simp [← hc.1]

theorem insertClaim_events {c : Claim} {db' : Db} {n : Nat}
    (hc : db.insertClaim c = .ok (db', n)) : db'.events = db.events := by
  rcases db.insertClaim_cases c with ⟨hins, -⟩ | ⟨hins, -⟩ | hins
  all_goals simp only [hins, Except.ok.injEq, Prod.mk.injEq, reduceCtorEq] at hc
  all_goals rw [← hc.1]

theorem insertClaim (h : Rebuildable db) {c : Claim} {db' : Db} {n : Nat}
    (hc : db.insertClaim c = .ok (db', n)) : Rebuildable db' := by
  rcases db.insertClaim_cases c with ⟨hins, -⟩ | ⟨hins, hclash, hfk⟩ | hins
  all_goals simp only [hins, Except.ok.injEq, Prod.mk.injEq, reduceCtorEq] at hc
  · exact hc.1 ▸ h
  · exact hc.1 ▸ h.addClaim hclash hfk

theorem ingestMemory (h : Rebuildable db) (a : MemoryArgs) (d : Draws)
    (hfresh : ∀ m ∈ db.memories, m.memoryId ≠ d.row.ulid) :
    Rebuildable (run (ingestMemoryWithStatus D a d) db).2 := by
  rw [run_ingestMemoryWithStatus]
  split
  · exact h
  rename_i s hs
  have h₁ := h.withSource s
  split
  · exact h₁
  rename_i db₂ n hm
  have h₂ := h₁.insertMemory hm
  split
  · exact h₂
  rename_i id rest hids
  split
  · exact h₂
  rename_i hrefusal
  rcases insertEvent_cases ((a.eventFor D s.sourceId d.row id).event d.event) db₂ with
    ⟨e, he⟩ | ⟨-, he⟩
  · simpa only [he] using h₂
  simp only [he]
  unfold MemoryArgs.eventFor
  split_ifs with hid
  · exact h₂.addEvent (.reaffirmed _ _ _ _)
      (by rw [Event.eff_eq (effect_memoryReaffirmed _ _ _ _)]; rfl)
      (by simp [EventArgs.event, memoryReaffirmed])
  · have hfound : id ∈ db₂.memoryIdsOf (a.contentHash D) a.userId := by simp [hids]
    obtain ⟨x, hx, rfl⟩ := List.mem_map.1 hfound
    have hmem : a.candidate D s.sourceId d.row ∈ db₂.memories :=
      memory_mem_of_inserted hm (by simpa using hfresh)
        ⟨x, List.mem_of_mem_filter hx, by simpa using hid⟩
    exact h₂.addEvent (.memoryCreated "system" d.event hmem)
      (by rw [Event.eff_eq (effect_memoryCreated _ _ _)]; rfl)
      (by simp [EventArgs.event, memoryCreated])

theorem ingestClaim (h : Rebuildable db) (a : ClaimArgs) (d : Draws) (hid : d.row.ulid ≠ "")
    (hfresh : ∀ c ∈ db.claims, c.claimId ≠ d.row.ulid) :
    Rebuildable (run (ingestClaimWithStatus D a d) db).2 := by
  rw [run_ingestClaimWithStatus]
  split
  · exact h
  split
  · exact h
  rename_i s hs
  have h₁ := h.withSource s
  split
  · exact h₁
  rename_i db₂ n hc
  have h₂ := h₁.insertClaim hc
  split
  · exact h₂
  rename_i id rest hids
  split_ifs with hdedup
  · exact h₂
  split
  · exact h₂
  rcases insertEvent_cases ((claimCreated (a.candidate D s.sourceId d.row)).event d.event) db₂ with
    ⟨e, he⟩ | ⟨-, he⟩
  · simpa only [he] using h₂
  simp only [he]
  have hfound : id ∈ db₂.claimIdsOf (a.contentHash D s.sourceId) s.sourceId a.userId := by
    simp [hids]
  obtain ⟨x, hx, rfl⟩ := List.mem_map.1 hfound
  refine h₂.addClaimCreated (claim_mem_of_inserted hc (by simpa using hfresh)
    ⟨x, List.mem_of_mem_filter hx, by simpa using hdedup⟩) hid (fun e hev => ?_) d.event
  -- the events are those from before the row, and they are about older claims
  rw [insertClaim_events hc] at hev
  exact h₁.no_event_about (by simpa using hfresh) e hev

theorem apply (h : Rebuildable db) (op : Op) (hfresh : op.Fresh db) :
    Rebuildable (op.apply D db) := by
  cases op with
  | ingestMemory a d =>
    rw [Op.apply, Store.ingestMemory, run_map]
    exact h.ingestMemory a d hfresh.2
  | ingestClaim a d =>
    rw [Op.apply, Store.ingestClaim, run_map]
    exact h.ingestClaim a d hfresh.1 hfresh.2
  | transition a updatedAt stamp =>
    rcases run_transitionClaimState a updatedAt stamp db with ⟨e, he⟩ | ⟨c, hc, hstep, -, hrun⟩
    · simpa only [Op.apply, he] using h
    · simp only [Op.apply, hrun]
      exact h.changeState (Db.findClaim_mem hc).1 hstep.to_ne_empty _ _ _ _ _
  | approve claimId updatedAt stamp =>
    rcases run_reviewTransition h.claimIds claimId "confirmed" updatedAt stamp with
      ⟨e, he⟩ | ⟨c, hc, -, hstep, -, hrun⟩
    · simpa only [Op.apply, Store.approve, he] using h
    · simp only [Op.apply, Store.approve, hrun]
      exact h.changeState (Db.findClaim_mem hc).1 hstep.to_ne_empty _ _ _ _ _
  | reject claimId updatedAt stamp =>
    rcases run_reviewTransition h.claimIds claimId "rejected" updatedAt stamp with
      ⟨e, he⟩ | ⟨c, hc, -, hstep, -, hrun⟩
    · simpa only [Op.apply, Store.reject, he] using h
    · simp only [Op.apply, Store.reject, hrun]
      exact h.changeState (Db.findClaim_mem hc).1 hstep.to_ne_empty _ _ _ _ _
  | insertSource s =>
    obtain ⟨n, hn⟩ := db.insertSource_eq s
    rw [Op.apply, run_writeOnce db _ (exec_insertSource s), hn]
    exact h.withSource s
  | insertMemory m =>
    rw [Op.apply, run_writeOnce db _ (exec_insertMemory m)]
    split
    · rename_i hm
      exact h.insertMemory hm
    · exact h
  | insertClaim c =>
    rw [Op.apply, run_writeOnce db _ (exec_insertClaim c)]
    split
    · rename_i hc
      exact h.insertClaim hc
    · exact h

/-- Every run of the writers keeps the log of each row right. -/
theorem applyOps (h : Rebuildable db) (ops : List Op) (hfresh : FreshOps D ops db) :
    Rebuildable (applyOps D ops db) := by
  induction ops generalizing db with
  | nil => exact h
  | cons op ops ih => exact ih (h.apply op hfresh.1) hfresh.2

end Rebuildable

end ParallaxKernel.Store
