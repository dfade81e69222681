import ParallaxKernel.Extract.Parse
import ParallaxKernel.Lib.Faults
import ParallaxKernel.Session.Hooks
import ParallaxKernel.Store.Dedup

/-!
# The shadow write

`extract/shadow.py` and `extract/ingest.py`. The claims of a text are persisted one by one, and an
exception over one of them is swallowed with the ids of all: the call reports what it stored exactly
if no ingest fails after a claim has been stored.
-/

namespace ParallaxKernel.Extract

open Lib Store Prog Session

/-! ## The source -/

/-- What is raised to the wrapper. -/
structure Raised where
  /-- It is an `Exception`, not another `BaseException`. -/
  isException : Bool
  /-- `repr(exc)`; nothing where it raises. -/
  repr : Option String

/-- The digest, the writing of numbers and exceptions, and what is generated for each claim. -/
structure ShadowEnv where
  digest : Digest
  /-- `f"{n:+d}"`; nothing where the integer has too many digits. -/
  signed : Int → Option PyStr
  /-- The literal that a float is written as. -/
  literal : Double → PyFloat
  reprExc : Exc → String
  draws : Nat → Draws

def ShadowEnv.raised (P : ShadowEnv) (e : Exc) : Raised := ⟨true, some (P.reprExc e)⟩

/-- The arguments of `shadow_write` but for the connection; the provider by how its
`extract_claims` ends. -/
structure ShadowArgs where
  text : PyStr
  provider : PyStr → Except Raised (List RawClaim)
  userId : PyStr
  sourceId : Option PyStr

section Program

variable (P : ShadowEnv) (a : ShadowArgs)

def isBlank (text : PyStr) : Bool := text.isEmpty || (stripText text).isEmpty

/-- `extract_claims`. -/
def extractClaims : Except Raised (List RawClaim) :=
  if isBlank a.text then .ok [] else a.provider a.text

def digitsExceeded : Exc :=
  .valueError "Exceeds the limit for integer string conversion"

/-- `claim_predicate`. -/
def claimPredicate (raw : RawClaim) : Except Exc PyStr :=
  match P.signed raw.polarity with
  | some polarity => .ok (raw.claimType ++ .ofString "/" ++ polarity)
  | none => .error digitsExceeded

/-- The text of an id, and of one that may be missing. -/
def bindIds : Except Exc (String × Option String) := do
  let userId ← bindText a.userId
  match a.sourceId with
  | none => .ok (userId, none)
  | some sourceId => do
    let sourceId ← bindText sourceId
    .ok (userId, some sourceId)

/-- `ingest_claim` for the `k`-th claim. The ids are bound for the source before the texts of the
claim are hashed. -/
def ingestRaw (k : Nat) (raw : RawClaim) : Sql String := do
  let predicate ← done (claimPredicate P raw)
  let (userId, sourceId) ← done (bindIds a)
  match raw.entity.encode?, predicate.encode?, raw.claimText.encode? with
  | some subject, some predicate, some object =>
    ingestClaim P.digest ⟨userId, subject, predicate, object, sourceId, some (P.literal raw.confidence), "auto"⟩
      (P.draws k)
  | _, _, _ => do
    let _ ← ensureSource P.digest userId sourceId (P.draws k).sourceNow
    raise surrogatesNotAllowed

/-- The loop of `extract_and_ingest` over the claims from the `k`-th on. -/
def ingestAll : Nat → List RawClaim → List String → Sql (List String)
  | _, [], persisted => pure persisted
  | k, raw :: raws, persisted => do
    let claimId ← ingestRaw P a k raw
    ingestAll (k + 1) raws (persisted ++ [claimId])

/-- `extract_and_ingest` on a store whose engine fails some statements. -/
def extractAndIngest (db : Db) (faults : List (Option Exc)) : Except Raised (List String) × Db :=
  if isBlank a.text then (.ok [], db)
  else
    match extractClaims a with
    | .error e => (.error e, db)
    | .ok [] => (.ok [], db)
    | .ok raws =>
      match (ingestAll P a 0 raws []).execFaulty ⟨⟨db, none⟩, faults⟩ with
      | (.ok ids, s) => (.ok ids, s.conn.db)
      | (.error e, s) => (.error (P.raised e), s.conn.db)

/-- The `extra` of the record that is logged. -/
structure ShadowRecord where
  userId : PyStr
  sourceId : Option PyStr
  count : Nat
  error : Option String
  claimIds : Option (List String)

/-- `shadow_write`: what it returns and logs, or raises. -/
def shadowWrite (db : Db) (faults : List (Option Exc)) :
    Except Raised (List String × ShadowRecord) × Db :=
  match extractAndIngest P a db faults with
  | (.ok ids, db') => (.ok (ids, ⟨a.userId, a.sourceId, ids.length, none, some ids⟩), db')
  | (.error e, db') =>
    if e.isException then
      match e.repr with
      | some text => (.ok ([], ⟨a.userId, a.sourceId, 0, some text, none⟩), db')
      | none => (.error e, db')
    else (.error e, db')

/-! ## What a call has persisted -/

/-- The ids of the claims that one store has more than another. -/
def addedIds (db db' : Db) : List String :=
  (db'.claims.drop db.claims.length).map (·.claimId)

/-- The ids of the claims that the call persists from the `k`-th on: the one that an ingest leads
to, and what an ingest adds that fails. -/
def persistedFrom : Nat → List RawClaim → Faulty Db Exc → List String
  | _, [], _ => []
  | k, raw :: raws, s =>
    match (ingestRaw P a k raw).execFaulty s with
    | (.ok claimId, s') => claimId :: persistedFrom (k + 1) raws s'
    | (.error _, s') => addedIds s.conn.db s'.conn.db

def persisted (db : Db) (faults : List (Option Exc)) : List String :=
  match extractClaims a with
  | .ok raws => persistedFrom P a 0 raws ⟨⟨db, none⟩, faults⟩
  | .error _ => []

/-- The call returns, and the ids that it returns and logs are those that it has persisted; all are
in the store, and none has been added where it logs an error. -/
def Reports (db : Db) (faults : List (Option Exc)) : Prop :=
  ∃ ids record db', shadowWrite P a db faults = (.ok (ids, record), db') ∧
    ids = persisted P a db faults ∧
    record.claimIds.getD [] = ids ∧ record.count = ids.length ∧
    (∀ id ∈ ids, id ∈ db'.claims.map (·.claimId)) ∧
    (record.error ≠ none → ids = [] ∧ db'.claims = db.claims)

/-- No ingest from the `k`-th claim on fails. -/
def AllIngested : Nat → List RawClaim → Faulty Db Exc → Prop
  | _, [], _ => True
  | k, raw :: raws, s =>
    match (ingestRaw P a k raw).execFaulty s with
    | (.ok _, s') => AllIngested (k + 1) raws s'
    | (.error _, _) => False

/-- The ingest fails and has not added a claim. -/
def FailsUnstored (k : Nat) (raw : RawClaim) (s : Faulty Db Exc) : Prop :=
  match (ingestRaw P a k raw).execFaulty s with
  | (.ok _, _) => False
  | (.error _, s') => s'.conn.db.claims = s.conn.db.claims

/-- The provider raises an `Exception` with a `repr`, or no ingest of its claims fails but the
first, before its claim is stored. -/
def AllOrNothing (db : Db) (faults : List (Option Exc)) : Prop :=
  match extractClaims a with
  | .error e => e.isException = true ∧ e.repr ≠ none
  | .ok [] => True
  | .ok (raw :: raws) =>
    AllIngested P a 0 (raw :: raws) ⟨⟨db, none⟩, faults⟩ ∨
      FailsUnstored P a 0 raw ⟨⟨db, none⟩, faults⟩

end Program

/-! ## What one ingest does -/

/-- The store has at most one claim more, and the claim that the ingest leads to. -/
structure Ingested (db : Db) (r : Except Exc String) (db' : Db) : Prop where
  claims : db'.claims = db.claims ∨ ∃ c, db'.claims = db.claims ++ [c]
  found : ∀ id, r = .ok id → id ∈ db'.claims.map (·.claimId)

theorem Ingested.unchanged {db db' : Db} (h : db'.claims = db.claims) (e : Exc) :
    Ingested db (.error e) db' := ⟨.inl h, nofun⟩

variable {D : Digest} {db : Db}

theorem withSource_claims (db : Db) (s : Source) : (db.withSource s).claims = db.claims := by
  unfold Db.withSource
  split_ifs <;> rfl

theorem ends_insertSource (s : Source) :
    (insertSource s).Ends db fun _ db' => db'.claims = db.claims := by
  refine ends_withConn_write (fun v n hins => ?_) fun e => rfl
  obtain ⟨k, hk⟩ := Db.insertSource_eq s db
  obtain ⟨rfl, -⟩ : db.withSource s = v ∧ k = n := by simpa [hk] using hins
  exact withSource_claims db s

theorem ends_ensureSource (userId : String) (sourceId : Option String) (now : String) :
    (ensureSource D userId sourceId now).Ends db fun _ db' => db'.claims = db.claims := by
  have hinsert (s : Source) : (do insertSource s; pure s.sourceId : Sql String).Ends db
      fun _ db' => db'.claims = db.claims :=
    ends_bind (ends_insertSource s) (fun _ _ h => ends_done h) fun _ _ h => h
  cases sourceId with
  | none => exact hinsert _
  | some sourceId =>
    unfold ensureSource ensureExternalSource
    dsimp only
    split_ifs
    · exact ends_done rfl
    · exact hinsert _
    · exact hinsert (externalSource D userId sourceId now)

theorem ends_insertClaim (c : Claim) : (insertClaim c).Ends db fun _ db' =>
    db'.claims = db.claims ∨ ∃ c, db'.claims = db.claims ++ [c] := by
  refine ends_withConn_write (fun v n hins => ?_) fun e => .inl rfl
  obtain ⟨heq, -⟩ | ⟨heq, -⟩ | heq := Db.insertClaim_cases c db
  · cases heq.symm.trans hins
    exact .inl rfl
  · cases heq.symm.trans hins
    exact .inr ⟨_, rfl⟩
  · exact nomatch heq.symm.trans hins

theorem ends_recordEvent (e : EventArgs) (stamp : Stamp) :
    (recordEvent e stamp).Ends db fun _ db' => db'.claims = db.claims := by
  have hinsert : (do insertEvent (e.event stamp); pure stamp.ulid : Sql String).Ends db
      fun _ db' => db'.claims = db.claims := by
    refine ends_bind (P := fun _ db' => db'.claims = db.claims) ?_ (fun _ _ h => ends_done h)
      fun _ _ h => h
    refine ends_withConn_write (fun v n hins => ?_) fun e => rfl
    obtain ⟨x, hx⟩ | ⟨-, hok⟩ := insertEvent_cases (e.event stamp) db
    · exact nomatch hx.symm.trans hins
    · cases hok.symm.trans hins
      rfl
  unfold recordEvent
  split_ifs
  · exact ends_done rfl
  · cases ht : e.checkedTarget with
    | none => exact hinsert
    | some target =>
      obtain ⟨kind, id⟩ := target
      dsimp only
      rw [targetRefExists_of_mem (e.mem_of_checkedTarget ht)]
      refine ends_bind (P := fun _ db' => db' = db) (ends_query rfl fun _ => rfl) ?_ ?_
      · rintro found _ rfl
        split_ifs
        · exact hinsert
        · exact ends_done rfl
      · rintro e _ rfl
        rfl

/-- After the insertion of its claim an ingest changes no claim any more. -/
theorem ends_reselect (contentHash sourceId userId : String) (row : Stamp) (created : EventArgs)
    (event : Stamp) {base : Db}
    (hclaims : db.claims = base.claims ∨ ∃ c, db.claims = base.claims ++ [c]) :
    (do
      let rows ← query fun db => db.claimIdsOf contentHash sourceId userId
      let persistedId ← firstRow rows
      if persistedId ≠ row.ulid then
        pure (persistedId, true)
      else
        let _ ← recordEvent created event
        pure (persistedId, false) : Sql (String × Bool)).Ends db
      fun r => Ingested base (r.map (·.1)) := by
  refine ends_bind (P := fun r db' => db = db' ∧ ∀ rows, r = .ok rows →
      rows = db.claimIdsOf contentHash sourceId userId)
    (ends_query ⟨rfl, by simp⟩ fun e => ⟨rfl, nofun⟩) ?_ ?_
  · rintro rows _ ⟨rfl, hrows⟩
    obtain rfl := hrows rows rfl
    cases hids : db.claimIdsOf contentHash sourceId userId with
    | nil =>
      change (done (.error (.indexError "list index out of range")) : Sql (String × Bool)).Ends db _
      exact ends_done ⟨hclaims, nofun⟩
    | cons id ids =>
      have hmem : id ∈ db.claims.map (·.claimId) := by
        obtain ⟨c, hc, -, -, -, rfl⟩ := Db.mem_claimIdsOf.1 (hids ▸ List.mem_cons_self)
        exact List.mem_map_of_mem hc
      have hfound (dup : Bool) : Ingested base ((Except.ok (id, dup)).map (·.1)) db := by
        refine ⟨hclaims, ?_⟩
        rintro _ ⟨⟩
        exact hmem
      change (if id ≠ row.ulid then pure (id, true) else do
        let _ ← recordEvent created event
        pure (id, false) : Sql (String × Bool)).Ends db fun r => Ingested base (r.map (·.1))
      split_ifs
      · exact ends_done (hfound true)
      · refine ends_bind (ends_recordEvent created event) ?_ ?_
        · intro _ db' hsame
          refine ends_done ⟨hsame ▸ hclaims, ?_⟩
          rintro _ ⟨⟩
          exact hsame ▸ hmem
        · intro e db' hsame
          exact ⟨hsame ▸ hclaims, nofun⟩
  · rintro e _ ⟨rfl, -⟩
    exact ⟨hclaims, nofun⟩

theorem ends_ingestClaim (a : ClaimArgs) (d : Draws) :
    (ingestClaim D a d).Ends db (Ingested db) := by
  have hstatus : (ingestClaimWithStatus D a d).Ends db fun r => Ingested db (r.map (·.1)) := by
    unfold ingestClaimWithStatus
    by_cases hstate : a.state ∈ claimTransitions.map (·.1)
    case neg =>
      rw [if_pos hstate]
      exact ends_done (r := .error (invalidClaimState a.state)) ⟨.inl rfl, nofun⟩
    case pos =>
      rw [if_neg (not_not.2 hstate)]
      refine ends_bind (ends_ensureSource a.userId a.sourceId d.sourceNow) ?_ ?_
      · intro sourceId db₁ hsource
        refine ends_bind (ends_insertClaim (a.candidate D sourceId d.row)) ?_ ?_
        · intro _ db₂ hinsert
          exact ends_reselect _ _ _ _ _ _ (hsource ▸ hinsert)
        · intro e db₂ hinsert
          exact ⟨hsource ▸ hinsert, nofun⟩
      · intro e db₁ hsource
        exact ⟨.inl hsource, nofun⟩
  refine ends_bind hstatus ?_ ?_
  · intro r db' h
    exact ends_done h
  · intro e db' h
    exact h

variable (P : ShadowEnv) (a : ShadowArgs)

theorem ends_ingestRaw (db : Db) (k : Nat) (raw : RawClaim) :
    (ingestRaw P a k raw).Ends db (Ingested db) := by
  refine ends_bind (P := fun _ db' => db = db') (ends_done rfl) ?_ ?_
  · rintro predicate _ rfl
    refine ends_bind (P := fun _ db' => db = db') (ends_done rfl) ?_ ?_
    · rintro ⟨userId, sourceId⟩ _ rfl
      dsimp only
      split
      · exact ends_ingestClaim _ _
      · refine ends_bind (ends_ensureSource userId sourceId _) ?_ ?_
        · intro _ db' hsame
          exact ends_done (Ingested.unchanged hsame _)
        · intro e db' hsame
          exact Ingested.unchanged hsame e
    · rintro e _ rfl
      exact Ingested.unchanged rfl e
  · rintro e _ rfl
    exact Ingested.unchanged rfl e

/-! ## The whole call -/

variable {P a} {k : Nat} {raw : RawClaim} {raws : List RawClaim} {faults : List (Option Exc)}

/-- The claims of a run have the ids that they are persisted under, none of them lost. -/
theorem ingestAll_of_allIngested (ids : List String)
    (h : AllIngested P a k raws ⟨⟨db, none⟩, faults⟩) :
    ∃ db' faults', (ingestAll P a k raws ids).execFaulty ⟨⟨db, none⟩, faults⟩ =
        (.ok (ids ++ persistedFrom P a k raws ⟨⟨db, none⟩, faults⟩), ⟨⟨db', none⟩, faults'⟩) ∧
      (∀ id ∈ persistedFrom P a k raws ⟨⟨db, none⟩, faults⟩, id ∈ db'.claims.map (·.claimId)) ∧
      db.claims <+: db'.claims := by
  induction raws generalizing k db faults ids with
  | nil => exact ⟨db, faults, by simp [ingestAll, persistedFrom], by simp [persistedFrom], List.prefix_refl _⟩
  | cons raw raws ih =>
    obtain ⟨r, db₁, faults₁, hrun, hingested⟩ := ends_ingestRaw P a db k raw faults
    unfold AllIngested at h
    unfold persistedFrom
    rw [ingestAll, execFaulty_bind, hrun]
    rw [hrun] at h
    cases r with
    | error e => exact h.elim
    | ok id =>
      obtain ⟨db', faults', hrest, hfound, hkept⟩ := ih (ids ++ [id]) h
      have hfirst : db.claims <+: db₁.claims := by
        obtain hsame | ⟨c, hadded⟩ := hingested.claims
        · rw [hsame]
        · exact ⟨[c], hadded.symm⟩
      refine ⟨db', faults', by simpa using hrest, ?_, hfirst.trans hkept⟩
      intro id' hid'
      obtain rfl | hlater := List.mem_cons.1 hid'
      · have hmem := hingested.found id' rfl
        exact (hkept.map _).subset hmem
      · exact hfound id' hlater

/-- A run in which an ingest fails raises. -/
theorem ingestAll_of_not_allIngested (ids : List String)
    (h : ¬ AllIngested P a k raws ⟨⟨db, none⟩, faults⟩) :
    ∃ e s, (ingestAll P a k raws ids).execFaulty ⟨⟨db, none⟩, faults⟩ = (.error e, s) := by
  induction raws generalizing k db faults ids with
  | nil => exact absurd trivial h
  | cons raw raws ih =>
    obtain ⟨r, db₁, faults₁, hrun, -⟩ := ends_ingestRaw P a db k raw faults
    unfold AllIngested at h
    rw [ingestAll, execFaulty_bind, hrun]
    rw [hrun] at h
    cases r with
    | error e => exact ⟨e, _, rfl⟩
    | ok id => exact ih (ids ++ [id]) h

theorem extractAndIngest_error {e : Raised} (h : extractClaims a = .error e) :
    extractAndIngest P a db faults = (.error e, db) := by
  have hblank : isBlank a.text = false := by
    by_contra hblank
    rw [extractClaims, if_pos (by simpa using hblank)] at h
    cases h
  simp [extractAndIngest, hblank, h]

theorem extractAndIngest_nil (h : extractClaims a = .ok []) :
    extractAndIngest P a db faults = (.ok [], db) := by
  unfold extractAndIngest
  split_ifs
  · rfl
  · rw [h]

theorem extractAndIngest_cons (h : extractClaims a = .ok (raw :: raws)) :
    extractAndIngest P a db faults =
      match (ingestAll P a 0 (raw :: raws) []).execFaulty ⟨⟨db, none⟩, faults⟩ with
      | (.ok ids, s) => (.ok ids, s.conn.db)
      | (.error e, s) => (.error (P.raised e), s.conn.db) := by
  have hblank : isBlank a.text = false := by
    by_contra hblank
    rw [extractClaims, if_pos (by simpa using hblank)] at h
    cases h
  simp [extractAndIngest, hblank, h]

/-- A call whose ingests all succeed reports them. -/
theorem reports_of_allIngested (h : extractClaims a = .ok (raw :: raws))
    (hall : AllIngested P a 0 (raw :: raws) ⟨⟨db, none⟩, faults⟩) : Reports P a db faults := by
  obtain ⟨db', faults', hrun, hfound, -⟩ := ingestAll_of_allIngested [] hall
  have hpersisted : persisted P a db faults =
      persistedFrom P a 0 (raw :: raws) ⟨⟨db, none⟩, faults⟩ := by rw [persisted, h]
  rw [List.nil_append, ← hpersisted] at hrun
  rw [← hpersisted] at hfound
  generalize persisted P a db faults = ids at hrun hfound hpersisted
  refine ⟨ids, ⟨a.userId, a.sourceId, ids.length, none, some ids⟩, db', ?_, ?_, rfl, rfl, hfound,
    fun hnone => absurd rfl hnone⟩
  · rw [shadowWrite, extractAndIngest_cons h, hrun]
  · rw [persisted, h, hpersisted]

/-- A call with an ingest that fails returns nothing, which is what it has persisted exactly if the
first one fails and has stored nothing. -/
theorem reports_iff_failsUnstored (h : extractClaims a = .ok (raw :: raws))
    (hall : ¬ AllIngested P a 0 (raw :: raws) ⟨⟨db, none⟩, faults⟩) :
    Reports P a db faults ↔ FailsUnstored P a 0 raw ⟨⟨db, none⟩, faults⟩ := by
  obtain ⟨e, s, hrun⟩ := ingestAll_of_not_allIngested [] hall
  obtain ⟨r, db₁, faults₁, hfirst, hingested⟩ := ends_ingestRaw P a db 0 raw faults
  have hwrite : shadowWrite P a db faults =
      (.ok ([], ⟨a.userId, a.sourceId, 0, some (P.reprExc e), none⟩), s.conn.db) := by
    rw [shadowWrite, extractAndIngest_cons h, hrun]
    rfl
  rw [ingestAll, execFaulty_bind, hfirst] at hrun
  have hpersisted : persisted P a db faults =
      persistedFrom P a 0 (raw :: raws) ⟨⟨db, none⟩, faults⟩ := by rw [persisted, h]
  unfold persistedFrom at hpersisted
  unfold Reports FailsUnstored
  rw [hfirst] at hpersisted ⊢
  rw [hwrite, hpersisted]
  cases r with
  | ok id =>
    refine iff_of_false ?_ not_false
    rintro ⟨ids, record, db', heq, hids, -⟩
    cases heq
    cases hids
  | error e' =>
    obtain ⟨-, rfl⟩ : e' = e ∧ s = ⟨⟨db₁, none⟩, faults₁⟩ := by simpa [eq_comm] using hrun
    dsimp only
    constructor
    · rintro ⟨ids, record, db', heq, -, -, -, -, hlogged⟩
      cases heq
      exact (hlogged nofun).2
    · intro hsame
      refine ⟨[], _, db₁, rfl, ?_, rfl, rfl, by simp, fun _ => ⟨rfl, hsame⟩⟩
      rw [addedIds, hsame, List.drop_length]
      rfl

/-- Whatever the engine fails, the call reports what it has persisted exactly if no ingest fails but
the first, before its claim is stored, and the provider raises nothing that cannot be logged. -/
theorem shadow_reports_iff (P : ShadowEnv) (a : ShadowArgs) (db : Db) (faults : List (Option Exc)) :
    Reports P a db faults ↔ AllOrNothing P a db faults := by
  unfold AllOrNothing
  cases h : extractClaims a with
  | error e =>
    have hnone : persisted P a db faults = [] := by rw [persisted, h]
    unfold Reports shadowWrite
    rw [extractAndIngest_error h]
    dsimp only
    cases hrepr : e.repr with
    | none => simp
    | some text =>
      by_cases hcaught : e.isException = true
      · refine iff_of_true ⟨[], ⟨a.userId, a.sourceId, 0, some text, none⟩, db, ?_, hnone.symm, rfl,
          rfl, by simp, fun _ => ⟨rfl, rfl⟩⟩ ⟨hcaught, nofun⟩
        rw [if_pos hcaught]
      · simp [hcaught]
  | ok raws =>
    cases raws with
    | nil =>
      refine iff_of_true ⟨[], ⟨a.userId, a.sourceId, 0, none, some []⟩, db, ?_, ?_, rfl, rfl, by simp,
        fun hnone => absurd rfl hnone⟩ trivial
      · rw [shadowWrite, extractAndIngest_nil h]
        rfl
      · rw [persisted, h]
        rfl
    | cons raw raws =>
      by_cases hall : AllIngested P a 0 (raw :: raws) ⟨⟨db, none⟩, faults⟩
      · exact iff_of_true (reports_of_allIngested h hall) (.inl hall)
      · rw [reports_iff_failsUnstored h hall]
        simp [hall]

/-! ### A claim that the store cannot take behind one that it can -/

def sampleShadow : ShadowEnv where
  digest := .listed []
  signed n := some (.ofString (if 0 ≤ n then "+" else "-") ++ .ofChars (Json.natChars n.natAbs))
  literal _ := .finite ⟨false, ['0', '.', '9'], by decide⟩
  reprExc _ := "ValueError"
  draws k := ⟨"t0", ⟨String.ofList ['c', Nat.digitChar k], "t1"⟩,
    ⟨String.ofList ['e', Nat.digitChar k], "t2"⟩⟩

def rawAbout (entity : PyStr) : RawClaim where
  entity := entity
  claimText := .ofString "is fast"
  polarity := 1
  confidence := .round (9 / 10)
  claimType := .ofString "feature"
  evidence := []

/-- Two claims, the entity of the second one with a lone surrogate. -/
def sampleShadowArgs : ShadowArgs where
  text := .ofString "text"
  provider _ := .ok [rawAbout (.ofString "cache"), rawAbout [.lone 0]]
  userId := .ofString "u"
  sourceId := none

/-- The call returns nothing and logs an error, and the first claim is in the store. -/
theorem shadow_loses_claim :
    (shadowWrite sampleShadow sampleShadowArgs Db.empty []).1 =
      .ok ([], ⟨.ofString "u", none, 0, some "ValueError", none⟩) ∧
    (shadowWrite sampleShadow sampleShadowArgs Db.empty []).2.claims.map
      (fun c => (c.claimId, c.subject, c.predicate)) = [("c0", "cache", "feature/+1")] ∧
    ¬ Reports sampleShadow sampleShadowArgs Db.empty [] := by
  have hclaims : (shadowWrite sampleShadow sampleShadowArgs Db.empty []).2.claims.map
      (fun c => (c.claimId, c.subject, c.predicate)) = [("c0", "cache", "feature/+1")] := by
    rfl
  refine ⟨by rfl, hclaims, ?_⟩
  rintro ⟨ids, record, db', heq, -, -, -, -, hlogged⟩
  have hresult : (shadowWrite sampleShadow sampleShadowArgs Db.empty []).1 =
      .ok ([], ⟨.ofString "u", none, 0, some "ValueError", none⟩) := by
    rfl
  rw [heq] at hclaims hresult
  cases hresult
  rw [(hlogged nofun).2] at hclaims
  cases hclaims

end ParallaxKernel.Extract
