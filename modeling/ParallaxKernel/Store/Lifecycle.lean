import ParallaxKernel.Store.Rebuild

/-!
# The claim lifecycle under concurrency

Any number of clients move claims and ingest new ones, each call on a connection of its own. Every
commit is a `LifecycleStep`, so the committed state changes of a claim form a chain of allowed
moves that ends in the state of its row. A call that raises has changed nothing, except an
ingest that fails between the commit of its row and the commit of its event.
-/

namespace ParallaxKernel.Store

open Lib Prog

variable (D : Digest)

/-! ## Calls -/

/-- A call of a client, with the ids and clock readings it draws. -/
inductive Call where
  | transition (a : TransitionArgs) (updatedAt : String) (stamp : Stamp)
  | approve (claimId updatedAt : String) (stamp : Stamp)
  | reject (claimId updatedAt : String) (stamp : Stamp)
  | ingestClaim (a : ClaimArgs) (d : Draws)

def Call.prog : Call → Sql Unit
  | .transition a updatedAt stamp => ignore (transitionClaimState a updatedAt stamp)
  | .approve claimId updatedAt stamp => Store.approve claimId updatedAt stamp
  | .reject claimId updatedAt stamp => Store.reject claimId updatedAt stamp
  | .ingestClaim a d => ignore (Store.ingestClaim D a d)

/-! ## The audit trail -/

/-- The states that a `claim.state_changed` event moves its claim from and to. -/
def Event.move (e : Event) : String × String :=
  match e.payload with
  | .obj ms =>
    match Json.member? "from" ms, Json.member? "to" ms with
    | some (.str fromState), some (.str toState) => (fromState, toState)
    | _, _ => ("", "")
  | _ => ("", "")

def Event.isChangeOf (claimId : String) (e : Event) : Bool :=
  e.eventType == "claim.state_changed" && e.targetKind == some "claim" &&
    e.targetId == some claimId

/-- The moves of a claim in the order of their commits. -/
def Db.stateChanges (db : Db) (claimId : String) : List (String × String) :=
  (db.events.filter (·.isChangeOf claimId)).map Event.move

/-- Allowed moves, the first from `born` and each from where the last one ended. -/
inductive MoveChain (born : String) : List (String × String) → String → Prop where
  | nil : MoveChain born [] born
  | snoc {moves : List (String × String)} {state toState : String}
    (hmoves : MoveChain born moves state) (hstep : ClaimStep state toState) :
    MoveChain born (moves ++ [(state, toState)]) toState

/-- The state of a claim in the first store that has it. -/
def createdState (stores : List Db) (claimId : String) : Option String :=
  stores.findSome? fun db => (db.findClaim claimId).map (·.state)

/-! ## What a commit does -/

/-- What one commit does to claims and events. -/
inductive LifecycleStep (b v : Db) : Prop where
  | keeps (hclaims : v.claims = b.claims) (hevents : v.events = b.events)
  | creates (c : Claim) (hnew : ∀ d ∈ b.claims, d.claimId ≠ c.claimId)
    (hclaims : v.claims = b.claims ++ [c]) (hevents : v.events = b.events)
  | records (e : Event) (htype : e.eventType ≠ "claim.state_changed")
    (hclaims : v.claims = b.claims) (hevents : v.events = b.events ++ [e])
  | moves (c : Claim) (toState userId updatedAt actor : String) (stamp : Stamp)
    (hc : c ∈ b.claims) (hstep : ClaimStep c.state toState)
    (hv : v = b.changeState c toState updatedAt ((claimStateChanged userId c.claimId c.state
      toState (some updatedAt) actor).event stamp))

/-- The primary key of `claims`. -/
def Db.ClaimIds (db : Db) : Prop := (db.claims.map (·.claimId)).Nodup

instance (db : Db) : Decidable db.ClaimIds := inferInstanceAs (Decidable (List.Nodup _))

/-- Claims stay, with their ids, owners and hashes. -/
def Db.Keeps (b v : Db) : Prop := ∀ c ∈ b.claims, ∃ d ∈ v.claims, c.SameRow d

theorem Db.Keeps.refl (db : Db) : db.Keeps db := fun c hc => ⟨c, hc, .refl c⟩

theorem Db.Keeps.trans {a b c : Db} (hab : a.Keeps b) (hbc : b.Keeps c) : a.Keeps c := by
  intro x hx
  obtain ⟨y, hy, hxy⟩ := hab x hx
  obtain ⟨z, hz, hyz⟩ := hbc y hy
  exact ⟨z, hz, hxy.trans hyz⟩

namespace LifecycleStep

variable {b v : Db}

theorem keepsRows (h : LifecycleStep b v) : b.Keeps v := by
  intro c hc
  cases h with
  | keeps hclaims => exact ⟨c, hclaims ▸ hc, .refl c⟩
  | creates x _ hclaims => exact ⟨c, by simp [hclaims, hc], .refl c⟩
  | records e _ hclaims => exact ⟨c, hclaims ▸ hc, .refl c⟩
  | moves x toState userId updatedAt actor stamp hx hstep hv =>
    subst hv
    exact ⟨_, List.mem_map.2 ⟨c, hc, rfl⟩, sameRow_moved x c toState updatedAt⟩

theorem claimIds (h : LifecycleStep b v) (hb : b.ClaimIds) : v.ClaimIds := by
  unfold Db.ClaimIds at *
  cases h with
  | keeps hclaims => rwa [hclaims]
  | creates c hnew hclaims =>
    rw [hclaims, List.map_append, List.map_singleton, List.nodup_append]
    refine ⟨hb, List.nodup_singleton _, ?_⟩
    intro x hx y hy
    obtain ⟨d, hd, rfl⟩ := List.mem_map.1 hx
    rw [List.mem_singleton.1 hy]
    exact hnew d hd
  | records e _ hclaims => rwa [hclaims]
  | moves x toState userId updatedAt actor stamp hx hstep hv =>
    subst hv
    have hmap := List.map_congr_left fun d (_ : d ∈ b.claims) =>
      (sameRow_moved x d toState updatedAt).claimId
    simp only [Db.changeState, Db.moveClaim, List.map_map]
    exact hmap ▸ hb

end LifecycleStep

/-! ## The trail after any sequence of commits -/

theorem createdState_append (stores : List Db) (v : Db) (id : String) :
    createdState (stores ++ [v]) id =
      (createdState stores id).or ((v.findClaim id).map (·.state)) := by
  simp [createdState, List.findSome?_append, List.findSome?_singleton]

theorem stateChanges_congr {db db' : Db} (h : db'.events = db.events) (id : String) :
    db'.stateChanges id = db.stateChanges id := by
  simp [Db.stateChanges, h]

theorem move_claimStateChanged (userId claimId fromState toState updatedAt actor : String)
    (stamp : Stamp) :
    ((claimStateChanged userId claimId fromState toState (some updatedAt) actor).event stamp).move
      = (fromState, toState) := by
  have hsort : Json.sortMembers ((claimStateChanged userId claimId fromState toState
      (some updatedAt) actor).payload.getD []) =
      [("from", .str fromState), ("to", .str toState), ("updated_at", .str updatedAt)] := by
    simp [claimStateChanged, Json.sortMembers, Json.insertMember, Json.sortKeys,
      -String.lt_iff_ltb]
  rw [Event.move, payload_event, hsort]
  rfl

theorem isChangeOf_claimStateChanged (userId claimId fromState toState updatedAt actor : String)
    (stamp : Stamp) (id : String) :
    ((claimStateChanged userId claimId fromState toState (some updatedAt) actor).event
      stamp).isChangeOf id = decide (claimId = id) := by
  rw [Bool.eq_iff_iff]
  simp [Event.isChangeOf, EventArgs.event, claimStateChanged]

/-- The trail of every claim of `db`, whose last store it is, and of no other claim. -/
structure Audited (stores : List Db) (db : Db) : Prop where
  chain : ∀ c ∈ db.claims, ∃ born, createdState stores c.claimId = some born ∧
    MoveChain born (db.stateChanges c.claimId) c.state
  absent : ∀ id, (∀ c ∈ db.claims, c.claimId ≠ id) →
    createdState stores id = none ∧ db.stateChanges id = []

theorem findClaim_eq_none {db : Db} {id : String} (h : ∀ c ∈ db.claims, c.claimId ≠ id) :
    db.findClaim id = none := by
  simpa [Db.findClaim] using h

namespace Audited

variable {stores : List Db} {b v : Db}

/-- A commit that touches no claim and no state change. -/
theorem same (h : Audited stores b) (hclaims : v.claims = b.claims)
    (hchanges : ∀ id, v.stateChanges id = b.stateChanges id) : Audited (stores ++ [v]) v := by
  constructor
  · intro c hc
    obtain ⟨born, hborn, hchain⟩ := h.chain c (hclaims ▸ hc)
    exact ⟨born, by simp [createdState_append, hborn], by rwa [hchanges]⟩
  · intro id hid
    obtain ⟨hcreated, hmoves⟩ := h.absent id fun c hc => hid c (hclaims ▸ hc)
    refine ⟨?_, by rwa [hchanges]⟩
    rw [createdState_append, hcreated, findClaim_eq_none hid]
    rfl

theorem step (h : Audited stores b) (hids : b.ClaimIds) (hstep : LifecycleStep b v) :
    Audited (stores ++ [v]) v := by
  have hv := hstep.claimIds hids
  cases hstep with
  | keeps hclaims hevents => exact h.same hclaims (stateChanges_congr hevents)
  | records e htype hclaims hevents =>
    refine h.same hclaims fun id => ?_
    have hno : e.isChangeOf id = false := by simp [Event.isChangeOf, htype]
    simp [Db.stateChanges, hevents, List.filter_append, hno]
  | creates c hnew hclaims hevents =>
    have hchanges := stateChanges_congr hevents
    constructor
    · intro d hd
      rw [hchanges]
      rcases List.mem_append.1 (hclaims ▸ hd) with hd' | hd'
      · obtain ⟨born, hborn, hchain⟩ := h.chain d hd'
        exact ⟨born, by simp [createdState_append, hborn], hchain⟩
      · obtain rfl := List.mem_singleton.1 hd'
        obtain ⟨hcreated, hmoves⟩ := h.absent d.claimId hnew
        refine ⟨d.state, ?_, by rw [hmoves]; exact .nil⟩
        rw [createdState_append, hcreated, findClaim_eq_of_mem hv hd]
        rfl
    · intro id hid
      obtain ⟨hcreated, hmoves⟩ := h.absent id fun d hd => hid d (by simp [hclaims, hd])
      refine ⟨?_, by rw [hchanges, hmoves]⟩
      rw [createdState_append, hcreated, findClaim_eq_none hid]
      rfl
  | moves c toState userId updatedAt actor stamp hc hallowed hv' =>
    subst hv'
    have hchanges (id : String) : (b.changeState c toState updatedAt ((claimStateChanged userId
        c.claimId c.state toState (some updatedAt) actor).event stamp)).stateChanges id =
        b.stateChanges id ++ if c.claimId = id then [(c.state, toState)] else [] := by
      simp only [Db.stateChanges, Db.changeState, List.filter_append, List.map_append,
        List.filter_cons, isChangeOf_claimStateChanged, List.filter_nil, decide_eq_true_eq]
      split_ifs <;> simp [move_claimStateChanged]
    constructor
    · intro d hd
      obtain ⟨x, hx, rfl⟩ := List.mem_map.1 hd
      have hid := (sameRow_moved c x toState updatedAt).claimId
      obtain ⟨born, hborn, hchain⟩ := h.chain x hx
      refine ⟨born, by rw [← hid, createdState_append, hborn]; rfl, ?_⟩
      rw [← hid, hchanges]
      by_cases hxc : c.claimId = x.claimId
      · obtain rfl := List.inj_on_of_nodup_map hids hc hx hxc
        simpa using hchain.snoc hallowed
      · have hne : (x.claimId == c.claimId) = false := by simpa using Ne.symm hxc
        simpa [hxc, hne] using hchain
    · intro id hid
      have hid' : ∀ d ∈ b.claims, d.claimId ≠ id := by
        intro d hd heq
        exact hid _ (List.mem_map.2 ⟨d, hd, rfl⟩)
          ((sameRow_moved c d toState updatedAt).claimId.symm.trans heq)
      obtain ⟨hcreated, hmoves⟩ := h.absent id hid'
      refine ⟨?_, by rw [hchanges, hmoves, if_neg (hid' c hc)]; rfl⟩
      rw [createdState_append, hcreated, findClaim_eq_none hid]
      rfl

end Audited

/-- The stores of a run, one for each commit point. -/
def storesOf {ι : Type} (db₀ : Db) (H : List (ι × Db × Db)) : List Db := db₀ :: H.map (·.2.2)

theorem audited_commits {ι : Type} [DecidableEq ι] {db₀ db : Db} {H : List (ι × Db × Db)}
    (hids : db₀.ClaimIds) (hnew : ∀ e ∈ db₀.events, e.eventType ≠ "claim.state_changed")
    (hH : Commits (fun _ _ b v => b.ClaimIds ∧ v.ClaimIds ∧ LifecycleStep b v) db₀ H db) :
    Audited (storesOf db₀ H) db := by
  induction hH with
  | nil =>
    have hchanges (id : String) : db₀.stateChanges id = [] := by
      have hnil : db₀.events.filter (·.isChangeOf id) = [] := by
        rw [List.filter_eq_nil_iff]
        intro e he
        simp [Event.isChangeOf, hnew e he]
      simp [Db.stateChanges, hnil]
    constructor
    · intro c hc
      refine ⟨c.state, ?_, by rw [hchanges]; exact .nil⟩
      simp [storesOf, createdState, findClaim_eq_of_mem hids hc]
    · intro id hid
      exact ⟨by simp [storesOf, createdState, findClaim_eq_none hid], hchanges id⟩
  | snoc hH hG ih =>
    rw [storesOf, List.map_append, ← List.cons_append]
    exact ih.step hG.1 hG.2.2

/-! ## Each call is safe -/

/-- The commit has left memories, claims and events as they were. -/
def Untouched (p : Db × Db) : Prop := p.2 = { p.1 with sources := p.2.sources }

instance : DecidablePred Untouched := fun _ => inferInstanceAs (Decidable (_ = _))

/-- What a call that has ended leaves: no open transaction, and nothing if it raised. -/
def Call.Ends (r : Except Exc Unit) (w : Option Db) (_ : Db) (h : List (Db × Db)) : Prop :=
  w = none ∧ ∀ e, r = .error e → ∀ p ∈ h, Untouched p

/-- Where a statement of the call may fail: anywhere, but in an ingest only as long as it has
committed no claim. -/
def Call.MayFail : Call → List (Db × Db) → Prop
  | .ingestClaim _ _, h => ∀ p ∈ h, p.2.claims = p.1.claims
  | _, _ => True

section

variable {F : List (Db × Db) → Prop}

theorem Call.ends_nil (r : Except Exc Unit) (base : Db) : Call.Ends r none base [] :=
  ⟨rfl, fun _ _ _ hp => absurd hp List.not_mem_nil⟩

theorem Call.ends_ok (base : Db) (h : List (Db × Db)) : Call.Ends (.ok ()) none base h :=
  ⟨rfl, fun _ he => nomatch he⟩

/-- The commit of the record of a guarded update that has hit a row. -/
theorem lifecycleStep_moves {b : Db} {claimId fromState toState : String}
    (hallowed : ClaimStep fromState toState)
    (hcount : (b.claims.filter fun c => c.claimId == claimId && c.state == fromState).length ≠ 0)
    (updatedAt userId actor : String) (stamp : Stamp) :
    LifecycleStep b
      { b.moveClaim claimId fromState toState updatedAt with
        events := (b.moveClaim claimId fromState toState updatedAt).events ++
          [(claimStateChanged userId claimId fromState toState (some updatedAt) actor).event
            stamp] } := by
  obtain ⟨c, hc⟩ := List.exists_mem_of_length_pos (Nat.pos_of_ne_zero hcount)
  simp only [List.mem_filter, Bool.and_eq_true, beq_iff_eq] at hc
  obtain ⟨hmem, rfl, rfl⟩ := hc
  exact .moves c toState userId updatedAt actor stamp hmem hallowed rfl

/-- Recording a move inside the transaction that has made it. -/
theorem safe_recordMove {b : Db} {claimId fromState toState updatedAt : String}
    {Q : Except Exc String → Option Db → Db → List (Db × Db) → Prop} (hb : b.ClaimIds)
    (hallowed : ClaimStep fromState toState)
    (hcount : (b.claims.filter fun c => c.claimId == claimId && c.state == fromState).length ≠ 0)
    (userId actor : String) (stamp : Stamp)
    (herr : ∀ e w b, Q (.error e) w b []) (hok : ∀ r v h, Q (.ok r) none v h) :
    (recordClaimStateChanged userId claimId fromState toState (some updatedAt) actor stamp).Safe
      Db.ClaimIds Db.Keeps F (fun _ => LifecycleStep) Q
      (some (b.moveClaim claimId fromState toState updatedAt)) b [] := by
  refine safe_recordEvent Db.Keeps.trans rfl ?_ ?_ ?_
  · intro b' v _ e _
    exact herr e _ b'
  · intro _ b' e
    exact ⟨herr e _ b', herr e _ b'⟩
  · rintro b' v ⟨rfl, rfl⟩ _
    have hstep := lifecycleStep_moves hallowed hcount updatedAt userId actor stamp
    exact ⟨hstep.claimIds hb, hstep, hok _ _ _⟩

theorem safe_transition (a : TransitionArgs) (updatedAt : String) (stamp : Stamp) (db : Db) :
    (Call.prog D (.transition a updatedAt stamp)).Safe Db.ClaimIds Db.Keeps F
      (fun _ => LifecycleStep) Call.Ends none db [] := by
  rw [Call.prog, safe_ignore, transitionClaimState, safe_withConn, safe_bind, safe_query]
  refine ⟨fun b v hs => ?_, fun _ e => Call.ends_nil _ db⟩
  obtain ⟨-, -, rfl⟩ := hs
  cases v.findClaim a.claimId with
  | none => exact Call.ends_nil _ db
  | some c =>
    simp only [Option.map_some]
    split_ifs with huser
    · exact Call.ends_nil _ db
    · cases hallowed : isAllowedTransition "claim" c.state a.toState with
      | error e => exact Call.ends_nil _ db
      | ok allowed =>
        cases allowed with
        | false => exact Call.ends_nil _ db
        | true =>
          -- the row may have moved since the read: the guard of the update decides
          simp only
          rw [safe_bind, safe_write]
          refine ⟨fun b v' hs => ?_, fun _ e => Call.ends_nil _ db⟩
          obtain ⟨hids, -, rfl⟩ := hs
          simp only [updateClaimState_eq]
          split_ifs with hcount
          · exact Call.ends_nil _ db
          · exact safe_recordMove hids hallowed hcount c.userId a.actor stamp
              (fun e w b => Call.ends_nil _ db) fun r v h => Call.ends_ok db _

theorem safe_review (claimId toState updatedAt : String) (stamp : Stamp) (db : Db) :
    (reviewTransition claimId toState updatedAt stamp).Safe Db.ClaimIds Db.Keeps F
      (fun _ => LifecycleStep) Call.Ends none db [] := by
  unfold reviewTransition
  cases hallowed : isAllowedTransition "claim" "pending" toState with
  | error e => exact Call.ends_nil _ db
  | ok allowed =>
    cases allowed with
    | false => exact Call.ends_nil _ db
    | true =>
      simp only
      rw [safe_withConn, safe_bind, safe_write]
      refine ⟨fun b v hs => ?_, fun _ e => Call.ends_nil _ db⟩
      obtain ⟨hids, -, rfl⟩ := hs
      simp only [updateClaimState_eq]
      split_ifs with hcount
      · rw [safe_bind, safe_query]
        refine ⟨fun b v hs => ?_, fun _ e => Call.ends_nil _ db⟩
        cases (v.findClaim claimId).map (·.state) with
        | none => exact Call.ends_nil _ db
        | some state => exact Call.ends_nil _ db
      · rw [safe_bind, safe_query]
        refine ⟨fun b' v' hs => ?_, fun _ e => Call.ends_nil _ db⟩
        obtain ⟨rfl, rfl⟩ := hs
        cases ((b'.moveClaim claimId "pending" toState updatedAt).findClaim claimId).map
            (·.userId) with
        | none => exact Call.ends_nil _ db
        | some userId =>
          simp only
          rw [safe_bind]
          exact safe_recordMove hids hallowed hcount userId "system" stamp
            (fun e w b => Call.ends_nil _ db) fun r v h => Call.ends_ok db _

/-- The event of a claim that the store has is not refused. -/
theorem refusal_claimCreated {db : Db} {c d : Claim} (hd : d ∈ db.claims)
    (hid : d.claimId = c.claimId) (huser : d.userId = c.userId) :
    (claimCreated c).refusal db = none := by
  have hfound : db.refExists "claim" c.claimId c.userId = true := by
    simp only [Db.refExists, kindTable, List.any_map, List.any_eq_true]
    exact ⟨d, hd, by simp [hid, huser]⟩
  by_cases hne : c.claimId = ""
  · simp [EventArgs.refusal, EventArgs.checkedTarget, claimCreated, hne]
  · simp [EventArgs.refusal, EventArgs.checkedTarget, claimCreated, validTargetKinds, hne, hfound]

section

variable {D} (a : ClaimArgs) (d : Draws) {base : Db} {h : List (Db × Db)}

/-- The ingest after its claim insertion: it has changed nothing, or its row is there and it may
not fail any more. -/
theorem safe_recordIngest (sourceId : String)
    (hh : (∀ p ∈ h, Untouched p) ∨ ¬ Call.MayFail (.ingestClaim a d) h ∧
      (a.candidate D sourceId d.row).stored ∈ base.claims) :
    (do
      let rows ← query fun db => db.claimIdsOf (a.contentHash D sourceId) sourceId a.userId
      let persistedId ← firstRow rows
      if persistedId ≠ d.row.ulid then
        pure (persistedId, true)
      else
        let _ ← recordEvent (claimCreated (a.candidate D sourceId d.row)) d.event
        pure (persistedId, false) : Sql (String × Bool)).Safe Db.ClaimIds Db.Keeps
      (Call.MayFail (.ingestClaim a d)) (fun _ => LifecycleStep)
      (fun r => Call.Ends (r.map fun _ => ())) none base h := by
  have hfail (hF : Call.MayFail (.ingestClaim a d) h) (b : Db) (e : Exc) :
      Call.Ends (.error e) none b h := by
    cases hh with
    | inl huntouched => exact ⟨rfl, fun _ _ => huntouched⟩
    | inr hrow => exact absurd hF hrow.1
  rw [safe_bind, safe_query]
  refine ⟨fun b v hs => ?_, fun hF e => hfail hF base e⟩
  obtain ⟨-, hkeeps, rfl⟩ := hs
  cases hrows : v.claimIdsOf (a.contentHash D sourceId) sourceId a.userId with
  | nil =>
    cases hh with
    | inl huntouched => exact ⟨rfl, fun _ _ => huntouched⟩
    | inr hrow =>
      obtain ⟨x, hx, hsame⟩ := hkeeps _ hrow.2
      have hmem : x.claimId ∈ v.claimIdsOf (a.contentHash D sourceId) sourceId a.userId :=
        Db.mem_claimIdsOf.2
          ⟨x, hx, hsame.contentHash.symm, hsame.sourceId.symm, hsame.userId.symm, rfl⟩
      simp [hrows] at hmem
  | cons id rest =>
    simp only [firstRow]
    rw [safe_bind, safe_pure]
    by_cases hid : id = d.row.ulid
    · have hmem : id ∈ v.claimIdsOf (a.contentHash D sourceId) sourceId a.userId := by
        simp [hrows]
      obtain ⟨x, hx, -, -, huser, hxid⟩ := Db.mem_claimIdsOf.1 hmem
      simp only [hid, ne_eq, not_true_eq_false, if_false]
      rw [safe_bind]
      refine safe_recordEvent Db.Keeps.trans rfl ?_ (fun hF b e => ⟨hfail hF b e, hfail hF b e⟩) ?_
      · intro b v' hs e hrefused
        obtain ⟨-, hkeeps', rfl⟩ := hs
        obtain ⟨y, hy, hsame⟩ := hkeeps' x hx
        rw [refusal_claimCreated hy (hsame.claimId.symm.trans (hxid.trans hid))
          (hsame.userId.symm.trans huser)] at hrefused
        cases hrefused
      · intro b v' hs _
        obtain ⟨hids, -, rfl⟩ := hs
        have hstep : LifecycleStep v' { v' with events := v'.events ++
            [(claimCreated (a.candidate D sourceId d.row)).event d.event] } := by
          refine .records _ ?_ rfl rfl
          simp [EventArgs.event, claimCreated]
        exact ⟨hstep.claimIds hids, hstep, Call.ends_ok v' _⟩
    · simp only [ne_eq, hid, not_false_eq_true, if_true]
      exact Call.ends_ok v _

end

theorem safe_ingestClaim (a : ClaimArgs) (d : Draws) (db : Db) :
    (Call.prog D (.ingestClaim a d)).Safe Db.ClaimIds Db.Keeps (Call.MayFail (.ingestClaim a d))
      (fun _ => LifecycleStep) Call.Ends none db [] := by
  rw [Call.prog, safe_ignore, ingestClaim, safe_bind]
  refine Safe.mono (Q := fun r => Call.Ends (r.map fun _ => ())) ?_ ?_
  · intro r w b h hr
    cases r <;> exact hr
  rw [ingestClaimWithStatus]
  by_cases hstate : a.state ∈ claimTransitions.map (·.1)
  case neg =>
    rw [if_pos hstate]
    exact Call.ends_nil _ db
  rw [if_neg (not_not.2 hstate), safe_bind]
  refine safe_ensureSource D (fun e => Call.ends_nil _ db) (fun _ b e => Call.ends_nil _ b) ?_
  intro b s hids hkeeps hs
  have hstep : LifecycleStep b (b.withSource s) := .keeps (by simp) (by simp)
  refine ⟨hstep.claimIds hids, hstep, ?_⟩
  have hsource : ∀ p ∈ [(b, b.withSource s)], Untouched p := by
    intro p hp
    rw [List.mem_singleton.1 hp]
    unfold Untouched Db.withSource
    split_ifs <;> rfl
  simp only [List.nil_append]
  rw [safe_bind]
  refine safe_insertClaim (fun _ b e => ⟨rfl, fun _ _ => hsource⟩) ?_ ?_
  · intro b' hids' _ _
    refine ⟨hids', .keeps rfl rfl, safe_recordIngest a d s.sourceId (.inl ?_)⟩
    intro p hp
    rcases List.mem_append.1 hp with hp | hp
    · exact hsource p hp
    · rw [List.mem_singleton.1 hp]
      rfl
  · intro b' hids' _ hclash _
    have hnew : ∀ c ∈ b'.claims, c.claimId ≠ (a.candidate D s.sourceId d.row).stored.claimId := by
      intro c hc heq
      simp only [List.any_eq_false] at hclash
      exact hclash c hc (by simp [Claim.clashes, heq, Claim.stored])
    have hstep' : LifecycleStep b' { b' with claims := b'.claims ++
        [(a.candidate D s.sourceId d.row).stored] } := .creates _ hnew rfl rfl
    refine ⟨hstep'.claimIds hids', hstep', safe_recordIngest a d s.sourceId (.inr ⟨?_, by simp⟩)⟩
    intro hF
    have hclaims := hF (b', { b' with claims := b'.claims ++
      [(a.candidate D s.sourceId d.row).stored] }) (by simp)
    simp at hclaims

/-! ## The lifecycle of every claim -/

/-- The claims and their audit trail at a point of a run, and what the calls that have raised by
then have committed. -/
structure LifecycleAgrees {ι : Type} [DecidableEq ι] (db₀ : Db) (s : Sys ι Db Exc Unit) :
    Prop where
  chain : ∀ c ∈ s.db.claims, ∃ born, createdState (storesOf db₀ s.history) c.claimId = some born ∧
    MoveChain born (s.db.stateChanges c.claimId) c.state
  terminal : ∀ id moves fromState rest,
    s.db.stateChanges id = moves ++ (fromState, "rejected") :: rest → rest = []
  raised : ∀ i e, s.prog i = some (.done (.error e)) → ∀ p ∈ commitsOf i s.history, Untouched p

theorem Call.safe (call : Call) (db : Db) :
    (call.prog D).Safe Db.ClaimIds Db.Keeps call.MayFail (fun _ => LifecycleStep) Call.Ends none db
      [] := by
  cases call with
  | transition a updatedAt stamp => exact safe_transition D a updatedAt stamp db
  | approve claimId updatedAt stamp => exact safe_review claimId "confirmed" updatedAt stamp db
  | reject claimId updatedAt stamp => exact safe_review claimId "rejected" updatedAt stamp db
  | ingestClaim a d => exact safe_ingestClaim D a d db

theorem MoveChain.state_of_last {born state : String} {moves : List (String × String)}
    {move : String × String} (h : MoveChain born (moves ++ [move]) state) : state = move.2 := by
  generalize hl : moves ++ [move] = l at h
  cases h with
  | nil => simp at hl
  | snoc hchain hstep =>
    obtain ⟨-, hlast⟩ := List.append_inj' hl rfl
    rw [List.singleton_inj.1 hlast]

/-- A claim that was rejected stays rejected. -/
theorem MoveChain.end_of_rejected {born state fromState : String}
    {moves pre post : List (String × String)} (h : MoveChain born moves state)
    (hmoves : moves = pre ++ (fromState, "rejected") :: post) : post = [] := by
  induction h generalizing post with
  | nil => simp at hmoves
  | @snoc moves last toState hchain hstep ih =>
    rcases List.eq_nil_or_concat post with rfl | ⟨post', x, rfl⟩
    · rfl
    · rw [List.concat_eq_append, ← List.cons_append, ← List.append_assoc] at hmoves
      obtain ⟨hinit, -⟩ := List.append_inj' hmoves rfl
      obtain rfl := ih hinit
      rw [hinit] at hchain
      obtain rfl : last = "rejected" := hchain.state_of_last
      exact absurd hstep (not_claimStep_rejected toState)

/-- Whatever the schedule, as long as no ingest fails after it has committed its claim. -/
theorem lifecycle_agrees {ι : Type} [DecidableEq ι] (calls : ι → Call) {db₀ : Db}
    (hids : db₀.ClaimIds) (hnew : ∀ e ∈ db₀.events, e.eventType ≠ "claim.state_changed")
    {s : Sys ι Db Exc Unit}
    (hrun : Sys.Run (fun i => (calls i).MayFail) (Sys.start db₀ fun i => (calls i).prog D) s) :
    LifecycleAgrees db₀ s := by
  have hcontract : Sys.Contract Db.ClaimIds Db.Keeps (fun i => (calls i).MayFail)
      (fun _ _ => LifecycleStep) (fun _ => Call.Ends) db₀ fun i => (calls i).prog D := by
    constructor
    · exact Db.Keeps.refl
    · exact Db.Keeps.trans
    · intro i h a b _ _ hstep
      exact hstep.keepsRows
    · exact hids
    · intro i
      exact (calls i).safe D db₀
  have haudit := audited_commits hids hnew (hrun.sound hcontract).commits
  constructor
  · exact haudit.chain
  · intro id moves fromState rest hmoves
    by_cases hid : ∃ c ∈ s.db.claims, c.claimId = id
    · obtain ⟨c, hc, rfl⟩ := hid
      obtain ⟨born, -, hchain⟩ := haudit.chain c hc
      exact hchain.end_of_rejected hmoves
    · have hnil := (haudit.absent id fun c hc hcid => hid ⟨c, hc, hcid⟩).2
      simp [hmoves] at hnil
  · intro i e hdone
    obtain ⟨base, -, hraised⟩ := hrun.done hcontract hdone
    exact hraised e rfl

end

section Sample

def sampleClaim (state : String) : Claim :=
  ⟨"C1", "ann", "s", "p", "o", "direct:ann",
    "2b2c4aaa06f4cba71e0c4b22371bbfa7d1b9ce9686b6c1591fa2b0a9e8fa0834", none, state, "t1", "t1"⟩

/-- A store with one pending claim. -/
def samplePending : Db :=
  ⟨[directSource .sample "ann" "t0"], [], [sampleClaim "pending"], [],
    [(claimCreated (sampleClaim "pending")).event ⟨"E1", "t2"⟩]⟩

/-- One client approves the claim while another moves it to `rejected`. -/
def sampleReviews : Bool → Call
  | true => .approve "C1" "t3" ⟨"E2", "t4"⟩
  | false => .transition ⟨"C1", "rejected", "bob", some "ann"⟩ "t5" ⟨"E3", "t6"⟩

/-- The second client reads the state before the first one changes it. -/
def sampleSchedule : List (Bool × Outcome Exc) :=
  (false, .goes) :: List.replicate 6 (true, .goes) ++ List.replicate 2 (false, .goes)

def sampleStart : Sys Bool Db Exc Unit :=
  Sys.start samplePending fun i => (sampleReviews i).prog .sample

theorem lifecycle_agrees_sample : ∃ s, sampleStart.play sampleSchedule = some s ∧
    s.db.stateChanges "C1" = [("pending", "confirmed")] ∧ LifecycleAgrees samplePending s := by
  have hsome : ((sampleStart.play sampleSchedule).map (·.db.stateChanges "C1")) =
      some [("pending", "confirmed")] := by decide +kernel
  obtain ⟨s, hs, hmoves⟩ := Option.map_eq_some_iff.1 hsome
  refine ⟨s, hs, hmoves, lifecycle_agrees .sample sampleReviews (by decide +kernel)
    (by decide +kernel) (Sys.run_play ?_ .start hs)⟩
  rintro (_ | _) h <;> exact trivial

/-- An ingest whose event cannot be written: another connection holds the lock. -/
def sampleIngest : Call :=
  .ingestClaim ⟨"ann", "s", "p", "o", none, none, "auto"⟩ ⟨"t0", ⟨"C1", "t1"⟩, ⟨"E1", "t2"⟩⟩

def sampleLocked : List (Unit × Outcome Exc) :=
  List.replicate 6 ((), .goes) ++
    [((), .fails (.operationalError "database is locked")), ((), .goes)]

/-- The call has raised, and its claim is there. -/
theorem lifecycle_disagrees : ∃ s : Sys Unit Db Exc Unit,
    Sys.Run (fun _ _ => True) (Sys.start Db.empty fun _ => sampleIngest.prog .sample) s ∧
      ¬ LifecycleAgrees Db.empty s := by
  have hsome : ((Sys.start Db.empty fun _ : Unit => sampleIngest.prog .sample).play
      sampleLocked).map (fun s => ((s.prog ()).bind (·.result),
        (commitsOf () s.history).all fun p => decide (Untouched p))) =
      some (some (.error (.operationalError "database is locked")), false) := by decide +kernel
  obtain ⟨s, hs, heq⟩ := Option.map_eq_some_iff.1 hsome
  obtain ⟨hresult, hall⟩ := Prod.mk.injEq .. ▸ heq
  refine ⟨s, Sys.run_play (fun _ _ => trivial) .start hs, fun h => ?_⟩
  obtain ⟨p, hp, hdone⟩ := Option.bind_eq_some_iff.1 hresult
  have huntouched := h.raised () _ (hp.trans (congrArg some (Prog.result_eq_some.1 hdone)))
  have hall' : (commitsOf () s.history).all (fun p => decide (Untouched p)) = true := by
    simpa using huntouched
  rw [hall] at hall'
  exact absurd hall' Bool.false_ne_true

end Sample

end ParallaxKernel.Store
