import ParallaxKernel.Router.Ingest
import ParallaxKernel.Store.Dedup

/-!
# The ingest routes

`POST /ingest/memory` and `POST /ingest/claim` of `server/routes/ingest.py`, each with its two
paths: straight to the store, and through the memory router. A request body is what the models of
`server/schemas.py` admit; it carries the constraints that they have checked.
-/

namespace ParallaxKernel.Server

open Lib Store Prog

/-! ## Request bodies -/

/-- The white space that the schema layer strips from every text. -/
def isWhiteSpace (c : Char) : Bool :=
  let n := c.toNat
  (9 ≤ n && n ≤ 13) || n == 32 || n == 0x85 || n == 0xa0 || n == 0x1680 ||
    (0x2000 ≤ n && n ≤ 0x200a) || n == 0x2028 || n == 0x2029 || n == 0x202f || n == 0x205f ||
    n == 0x3000

/-- `str_strip_whitespace`. -/
def trim (s : String) : String :=
  String.ofList ((s.toList.dropWhile isWhiteSpace).reverse.dropWhile isWhiteSpace).reverse

local instance lawfulBEqChars : LawfulBEq (List Char) := inferInstance

/-- `_reject_traversal`: what is wrong with a vault path. -/
def rejectTraversal (v : String) : Option String :=
  let normalized := v.toList.map fun c => if c = '\\' then '/' else c
  if ['.', '.'] ∈ normalized.splitOn '/' then some "vault_path must not contain '..' segments"
  else if normalized.head? = some '/' ∨ v.toList[1]? = some ':' then
    some "vault_path must be relative"
  else if '\x00' ∈ v.toList then some "vault_path must not contain NUL bytes"
  else none

structure IngestMemoryRequest where
  userId : String
  title : Option String
  summary : Option String
  vaultPath : String
  sourceId : Option String
  userId_length : 1 ≤ userId.length ∧ userId.length ≤ 128
  vaultPath_length : 1 ≤ vaultPath.length
  vaultPath_relative : rejectTraversal vaultPath = none

/-- The body that the texts of a request are read as, unless it is refused. -/
def IngestMemoryRequest.validate (userId : String) (title summary : Option String)
    (vaultPath : String) (sourceId : Option String) : Option IngestMemoryRequest :=
  if huser : 1 ≤ (trim userId).length ∧ (trim userId).length ≤ 128 then
    if hlen : 1 ≤ (trim vaultPath).length then
      if hrel : rejectTraversal (trim vaultPath) = none then
        some ⟨trim userId, title.map trim, summary.map trim, trim vaultPath, sourceId.map trim,
          huser, hlen, hrel⟩
      else none
    else none
  else none

/-- `ge=0.0` and `le=1.0` refuse by a comparison, which `NaN` passes. -/
def confidenceAdmitted (x : PyFloat) : Bool :=
  !(x.lt (Json.ofInt 0)) && !(PyFloat.lt (Json.ofInt 1) x)

structure IngestClaimRequest where
  userId : String
  subject : String
  predicate : String
  object : String
  sourceId : Option String
  confidence : Option PyFloat
  state : String
  userId_length : 1 ≤ userId.length ∧ userId.length ≤ 128
  subject_length : 1 ≤ subject.length
  predicate_length : 1 ≤ predicate.length
  object_length : 1 ≤ object.length
  confidence_bounds : ∀ x ∈ confidence, confidenceAdmitted x = true

/-- The body that the fields of a request are read as; an absent state is `auto`. -/
def IngestClaimRequest.validate (userId subject predicate object : String)
    (sourceId : Option String) (confidence : Option PyFloat) (state : Option String) :
    Option IngestClaimRequest :=
  if huser : 1 ≤ (trim userId).length ∧ (trim userId).length ≤ 128 then
    if hlen : 1 ≤ (trim subject).length ∧ 1 ≤ (trim predicate).length ∧
        1 ≤ (trim object).length then
      if hconf : ∀ x ∈ confidence, confidenceAdmitted x = true then
        some ⟨trim userId, trim subject, trim predicate, trim object, sourceId.map trim, confidence,
          (state.map trim).getD "auto", huser, hlen.1, hlen.2.1, hlen.2.2, hconf⟩
      else none
    else none
  else none

/-! ## Handlers -/

/-- How a handler ends: with a created row, or with an `HTTPException`. -/
inductive Answer where
  | created (kind id userId : String) (deduped : Option Bool)
  | httpException (status : Nat) (detail : String)
  deriving DecidableEq

/-- `except ValueError as exc: raise HTTPException(400, detail=str(exc))`. -/
def answered {α : Type} (k : α → Answer) : Except Exc α × Db → Except Exc Answer × Db
  | (.ok a, db) => (.ok (k a), db)
  | (.error (.valueError msg), db) => (.ok (.httpException 400 msg), db)
  | (.error e, db) => (.error e, db)

/-- `current_user_id`: the authenticated user wins over the one of the body. -/
def currentUserId (authed : Option String) (fallback : String) : Option String :=
  match authed.filter (· ≠ "") with
  | some userId => some userId
  | none => if fallback ≠ "" then some fallback else none

def withUser (authed : Option String) (fallback : String) (db : Db)
    (handler : String → Except Exc Answer × Db) : Except Exc Answer × Db :=
  match currentUserId authed fallback with
  | some userId => handler userId
  | none => (.ok (.httpException 400 "user_id required"), db)

variable (D : Digest) (toFloat : Int → Except Exc PyFloat)

def postIngestMemory (routerEnabled : Bool) (authed : Option String) (body : IngestMemoryRequest)
    (d : Draws) (db : Db) : Except Exc Answer × Db :=
  withUser authed body.userId db fun userId =>
    if routerEnabled then
      answered (fun r => .created r.kind r.identifier userId (some r.deduped)) <|
        run (Router.ingest toFloat D
          { userId := userId
            kind := "memory"
            payload := .obj [("body", jsonOption body.summary), ("title", jsonOption body.title),
              ("vault_path", .str body.vaultPath)]
            sourceId := body.sourceId } d) db
    else
      answered (fun id => .created "memory" id userId none) <|
        run (ingestMemory D ⟨userId, body.title, body.summary, body.vaultPath, body.sourceId⟩ d) db

def postIngestClaim (routerEnabled : Bool) (authed : Option String) (body : IngestClaimRequest)
    (d : Draws) (db : Db) : Except Exc Answer × Db :=
  withUser authed body.userId db fun userId =>
    if routerEnabled then
      answered (fun r => .created r.kind r.identifier userId (some r.deduped)) <|
        run (Router.ingest toFloat D
          { userId := userId
            kind := "claim"
            payload := .obj [("subject", .str body.subject), ("predicate", .str body.predicate),
              ("object_", .str body.object), ("confidence", jsonFloat body.confidence),
              ("state", .str body.state)]
            sourceId := body.sourceId } d) db
    else
      answered (fun id => .created "claim" id userId none) <|
        run (ingestClaim D ⟨userId, body.subject, body.predicate, body.object, body.sourceId,
          body.confidence, body.state⟩ d) db

variable {D toFloat}

/-! ## The two paths -/

/-- The id of the row that an answer names. -/
def createdId : Except Exc Answer → Option String
  | .ok (.created _ id _ _) => some id
  | _ => none

/-- Both requests are refused, or both leave the client with one and the same row. -/
def StoredAlike {ρ : Type} (rows : Db → List ρ) (id : ρ → String)
    (x y : Except Exc Answer × Db) : Prop :=
  (createdId x.1 = none ∧ createdId y.1 = none) ∨
  ∃ row, (createdId x.1 = some (id row) ∧ row ∈ rows x.2) ∧
    (createdId y.1 = some (id row) ∧ row ∈ rows y.2)

theorem run_bind_pure {α β : Type} (p : Sql α) (f : α → β) (db : Db) :
    run (do let r ← p; pure (f r)) db = ((run p db).1.map f, (run p db).2) := by
  simp only [run, exec_bind]
  rcases p.exec ⟨db, none⟩ with ⟨e | a, c⟩ <;> rfl

theorem createdId_answered {α : Type} {k : α → Answer} {rowId : α → String}
    (hk : ∀ a, createdId (.ok (k a)) = some (rowId a)) (r : Except Exc α × Db) :
    createdId (answered k r).1 = r.1.toOption.map rowId := by
  obtain ⟨r, db⟩ := r
  cases r with
  | ok a => exact hk a
  | error e => cases e <;> rfl

@[simp] theorem answered_snd {α : Type} (k : α → Answer) (r : Except Exc α × Db) :
    (answered k r).2 = r.2 := by
  obtain ⟨r, db⟩ := r
  cases r with
  | ok a => rfl
  | error e => cases e <;> rfl

/-- What a body without the router is ingested with. -/
def IngestMemoryRequest.args (body : IngestMemoryRequest) (userId : String) : MemoryArgs :=
  ⟨userId, body.title, body.summary, body.vaultPath, body.sourceId⟩

def IngestClaimRequest.args (body : IngestClaimRequest) (userId : String) : ClaimArgs :=
  ⟨userId, body.subject, body.predicate, body.object, body.sourceId, body.confidence, body.state⟩

/-- The user that a body is ingested for. -/
def effectiveUser (authed : Option String) (fallback : String) : String :=
  (authed.filter (· ≠ "")).getD fallback

theorem currentUserId_eq {authed : Option String} {fallback : String}
    (h : 1 ≤ fallback.length) :
    currentUserId authed fallback = some (effectiveUser authed fallback) := by
  have hne : fallback ≠ "" := by
    rintro rfl
    simp at h
  unfold currentUserId effectiveUser
  cases authed.filter (· ≠ "") <;> simp [hne]

/-- The row that an ingest ended with, if it did. -/
def ingestedId {β : Type} (r : Except Exc (String × β) × Db) : Option String :=
  r.1.toOption.map (·.1)

theorem ingestedId_answered {α β : Type} {p : Sql (String × β)} {f : String × β → α}
    {k : α → Answer} (hk : ∀ r, createdId (.ok (k (f r))) = some r.1) (db : Db) :
    createdId (answered k (run (do let r ← p; pure (f r)) db)).1 = ingestedId (run p db) ∧
      (answered k (run (do let r ← p; pure (f r)) db)).2 = (run p db).2 := by
  rw [run_bind_pure]
  constructor
  · obtain ⟨r, db'⟩ := run p db
    cases r with
    | ok a => exact hk a
    | error e => cases e <;> rfl
  · exact answered_snd _ _

variable (D toFloat) in
theorem postIngestMemory_off (authed : Option String) (body : IngestMemoryRequest) (d : Draws)
    (db : Db) :
    let r := run (ingestMemoryWithStatus D (body.args (effectiveUser authed body.userId)) d) db
    createdId (postIngestMemory D toFloat false authed body d db).1 = ingestedId r ∧
      (postIngestMemory D toFloat false authed body d db).2 = r.2 := by
  rw [postIngestMemory, withUser, currentUserId_eq body.userId_length.1]
  exact ingestedId_answered (fun _ => rfl) db

/-- The payload of a memory body, as the router reads it. -/
theorem memoryArgs_body (body : IngestMemoryRequest) (userId : String) :
    Router.memoryArgs userId body.sourceId [("body", jsonOption body.summary),
      ("title", jsonOption body.title), ("vault_path", .str body.vaultPath)] =
      match body.summary.filter (· ≠ "") with
      | some summary =>
        .ok ⟨userId, body.title.filter (· ≠ ""), some summary, body.vaultPath, body.sourceId⟩
      | none => .error (Router.missingField "memory.body" Router.memoryBodyKeys) := by
  have hvault : body.vaultPath ≠ "" := by
    intro h
    have hlen := body.vaultPath_length
    simp [h] at hlen
  rw [Router.memoryArgs, Router.memoryBodyKeys, Router.memoryTitleKeys,
    Router.firstNonEmpty_option body.summary (by simp [Json.member?])
      (by simp [Json.member?]),
    Router.firstNonEmpty_str body.vaultPath (by simp [Json.member?]) hvault,
    Router.firstNonEmptyOr_option body.title (by simp [Json.member?])
      (by simp [Json.member?])]
  cases body.summary.filter (· ≠ "") <;> rfl

theorem isFinite_of_admitted {x : PyFloat} (h : confidenceAdmitted x = true) (hnan : x ≠ .nan) :
    Router.isFinite x = true ∧ Router.inUnitInterval x = true := by
  simp only [confidenceAdmitted, Bool.and_eq_true] at h
  have hle : PyFloat.le (Json.ofInt 0) x = true ∧ x.le (Json.ofInt 1) = true := by
    rw [PyFloat.le_eq_not_lt (by simp [Json.ofInt]) hnan,
      PyFloat.le_eq_not_lt hnan (by simp [Json.ofInt])]
    exact h
  obtain ⟨lit, rfl⟩ := PyFloat.isFinite_of_le (by simp [Json.ofInt]) hle.1 (by simp [Json.ofInt])
    hle.2
  exact ⟨rfl, by simp [Router.inUnitInterval, hle]⟩

variable (toFloat) in
/-- The payload of a claim body, as the router reads it. -/
theorem claimArgs_body (body : IngestClaimRequest) (userId : String) :
    (body.confidence = some .nan ∧ ∃ msg, Router.claimArgs toFloat userId body.sourceId
      [("subject", .str body.subject), ("predicate", .str body.predicate),
        ("object_", .str body.object), ("confidence", jsonFloat body.confidence),
        ("state", .str body.state)] = .error (.valueError msg)) ∨
    body.confidence ≠ some .nan ∧ Router.claimArgs toFloat userId body.sourceId
      [("subject", .str body.subject), ("predicate", .str body.predicate),
        ("object_", .str body.object), ("confidence", jsonFloat body.confidence),
        ("state", .str body.state)] = .ok (body.args userId) := by
  have hne {s : String} (h : 1 ≤ s.length) : s ≠ "" := by
    rintro rfl
    simp at h
  rw [Router.claimArgs, Router.claimSubjectKeys, Router.claimPredicateKeys,
    Router.claimObjectKeys,
    Router.firstNonEmpty_str body.subject (by simp [Json.member?])
      (hne body.subject_length),
    Router.firstNonEmpty_str body.predicate (by simp [Json.member?])
      (hne body.predicate_length),
    Router.firstNonEmpty_str body.object (by simp [Json.member?])
      (hne body.object_length)]
  cases hconf : body.confidence with
  | none =>
    refine .inr ⟨nofun, ?_⟩
    rw [IngestClaimRequest.args, hconf]
    rfl
  | some x =>
    by_cases hnan : x = .nan
    · subst hnan
      exact .inl ⟨rfl, _, rfl⟩
    · obtain ⟨hfin, hunit⟩ := isFinite_of_admitted (body.confidence_bounds x hconf) hnan
      refine .inr ⟨by simpa using hnan, ?_⟩
      simp [Json.member?, jsonFloat, Router.coerceOptionalFloat, Router.checkedConfidence,
        Router.claimState, IngestClaimRequest.args, hconf, hfin, hunit, bind, Except.bind]

variable (D toFloat) in
theorem postIngestMemory_on (authed : Option String) (body : IngestMemoryRequest) (d : Draws)
    (db : Db) :
    (body.summary.filter (· ≠ "") = none ∧
      createdId (postIngestMemory D toFloat true authed body d db).1 = none) ∨
    ∃ summary, body.summary.filter (· ≠ "") = some summary ∧
      let r := run (ingestMemoryWithStatus D ⟨effectiveUser authed body.userId,
        body.title.filter (· ≠ ""), some summary, body.vaultPath, body.sourceId⟩ d) db
      createdId (postIngestMemory D toFloat true authed body d db).1 = ingestedId r ∧
        (postIngestMemory D toFloat true authed body d db).2 = r.2 := by
  rw [postIngestMemory, withUser, currentUserId_eq body.userId_length.1]
  simp only [Router.ingest, if_true, memoryArgs_body]
  cases hsummary : body.summary.filter (· ≠ "") with
  | none => exact .inl ⟨rfl, rfl⟩
  | some summary =>
    exact .inr ⟨summary, rfl, ingestedId_answered (fun _ => rfl) db⟩

variable (D toFloat) in
theorem postIngestClaim_off (authed : Option String) (body : IngestClaimRequest) (d : Draws)
    (db : Db) :
    let r := run (ingestClaimWithStatus D (body.args (effectiveUser authed body.userId)) d) db
    createdId (postIngestClaim D toFloat false authed body d db).1 = ingestedId r ∧
      (postIngestClaim D toFloat false authed body d db).2 = r.2 := by
  rw [postIngestClaim, withUser, currentUserId_eq body.userId_length.1]
  exact ingestedId_answered (fun _ => rfl) db

variable (D toFloat) in
theorem postIngestClaim_on (authed : Option String) (body : IngestClaimRequest) (d : Draws)
    (db : Db) :
    (body.confidence = some .nan ∧
      createdId (postIngestClaim D toFloat true authed body d db).1 = none) ∨
    body.confidence ≠ some .nan ∧
      let r := run (ingestClaimWithStatus D (body.args (effectiveUser authed body.userId)) d) db
      createdId (postIngestClaim D toFloat true authed body d db).1 = ingestedId r ∧
        (postIngestClaim D toFloat true authed body d db).2 = r.2 := by
  rw [postIngestClaim, withUser, currentUserId_eq body.userId_length.1]
  have hkind : "claim" ∈ ["memory", "claim"] := by simp
  simp only [Router.ingest, hkind, not_true_eq_false, if_false,
    show ("claim" = "memory") = False from by simp, if_true]
  obtain ⟨hnan, msg, herr⟩ | ⟨hnan, hok⟩ :=
    claimArgs_body toFloat body (effectiveUser authed body.userId)
  · rw [herr]
    exact .inl ⟨hnan, rfl⟩
  · rw [hok]
    exact .inr ⟨hnan, ingestedId_answered (fun _ => rfl) db⟩

/-! ## What flipping the flag changes -/

/-- A body with a text for a summary and no empty title. -/
def IngestMemoryRequest.Plain (body : IngestMemoryRequest) : Prop :=
  (∃ summary ∈ body.summary, summary ≠ "") ∧ body.title ≠ some ""

instance (body : IngestMemoryRequest) : Decidable body.Plain :=
  inferInstanceAs (Decidable (_ ∧ _))

variable (D toFloat) in
/-- Both paths ingest the same memory. -/
theorem postIngestMemory_plain {body : IngestMemoryRequest} (hbody : body.Plain)
    (routerEnabled : Bool) (authed : Option String) (d : Draws) (db : Db) :
    let r := run (ingestMemoryWithStatus D (body.args (effectiveUser authed body.userId)) d) db
    createdId (postIngestMemory D toFloat routerEnabled authed body d db).1 = ingestedId r ∧
      (postIngestMemory D toFloat routerEnabled authed body d db).2 = r.2 := by
  cases routerEnabled with
  | false => exact postIngestMemory_off D toFloat authed body d db
  | true =>
    obtain ⟨⟨s, hs, hsne⟩, htitle⟩ := hbody
    have hsummary : body.summary = some s := hs
    have hfilter : body.title.filter (· ≠ "") = body.title := by
      cases ht : body.title with
      | none => rfl
      | some title => simpa [Option.filter_some, ht] using htitle
    obtain ⟨hnone, -⟩ | ⟨summary, hsome, hrun⟩ :=
      postIngestMemory_on D toFloat authed body d db
    · simp [hsummary, Option.filter_some, hsne] at hnone
    · obtain rfl : s = summary := by simpa [hsummary, Option.filter_some, hsne] using hsome
      rwa [hfilter, ← hsummary] at hrun

variable (D toFloat) in
theorem postIngestClaim_plain {body : IngestClaimRequest} (hbody : body.confidence ≠ some .nan)
    (routerEnabled : Bool) (authed : Option String) (d : Draws) (db : Db) :
    let r := run (ingestClaimWithStatus D (body.args (effectiveUser authed body.userId)) d) db
    createdId (postIngestClaim D toFloat routerEnabled authed body d db).1 = ingestedId r ∧
      (postIngestClaim D toFloat routerEnabled authed body d db).2 = r.2 := by
  cases routerEnabled with
  | false => exact postIngestClaim_off D toFloat authed body d db
  | true =>
    obtain ⟨hnan, -⟩ | ⟨-, hrun⟩ :=
      postIngestClaim_on D toFloat authed body d db
    · exact absurd hnan hbody
    · exact hrun

theorem ingestedId_eq_some {β : Type} {r : Except Exc (String × β) × Db} {id : String}
    (h : ingestedId r = some id) : ∃ dup db, r = (.ok (id, dup), db) := by
  obtain ⟨r, db⟩ := r
  cases r with
  | ok a =>
    obtain rfl : a.1 = id := by simpa [ingestedId, Except.toOption] using h
    exact ⟨a.2, db, rfl⟩
  | error e => simp [ingestedId, Except.toOption] at h

/-- Two requests that run one ingest are answered alike. -/
theorem StoredAlike.of_memory {a : MemoryArgs} {d : Draws} {db : Db}
    {x y : Except Exc Answer × Db}
    (hx : createdId x.1 = ingestedId (run (ingestMemoryWithStatus D a d) db) ∧
      x.2 = (run (ingestMemoryWithStatus D a d) db).2)
    (hy : createdId y.1 = ingestedId (run (ingestMemoryWithStatus D a d) db) ∧
      y.2 = (run (ingestMemoryWithStatus D a d) db).2) :
    StoredAlike (·.memories) (·.memoryId) x y := by
  cases hid : ingestedId (run (ingestMemoryWithStatus D a d) db) with
  | none => exact .inl ⟨hx.1.trans hid, hy.1.trans hid⟩
  | some id =>
    obtain ⟨dup, db', hrun⟩ := ingestedId_eq_some hid
    obtain ⟨m, hm, hmid, -⟩ := ingestMemory_row hrun
    rw [hid, hrun, ← hmid] at hx hy
    exact .inr ⟨m, ⟨hx.1, hx.2 ▸ hm⟩, ⟨hy.1, hy.2 ▸ hm⟩⟩

theorem StoredAlike.of_claim {a : ClaimArgs} {d : Draws} {db : Db}
    {x y : Except Exc Answer × Db}
    (hx : createdId x.1 = ingestedId (run (ingestClaimWithStatus D a d) db) ∧
      x.2 = (run (ingestClaimWithStatus D a d) db).2)
    (hy : createdId y.1 = ingestedId (run (ingestClaimWithStatus D a d) db) ∧
      y.2 = (run (ingestClaimWithStatus D a d) db).2) :
    StoredAlike (·.claims) (·.claimId) x y := by
  cases hid : ingestedId (run (ingestClaimWithStatus D a d) db) with
  | none => exact .inl ⟨hx.1.trans hid, hy.1.trans hid⟩
  | some id =>
    obtain ⟨dup, db', hrun⟩ := ingestedId_eq_some hid
    obtain ⟨c, hc, hcid, -⟩ := ingestClaim_row hrun
    rw [hid, hrun, ← hcid] at hx hy
    exact .inr ⟨c, ⟨hx.1, hx.2 ▸ hc⟩, ⟨hy.1, hy.2 ▸ hc⟩⟩

/-- An empty title and an absent one have hashes of their own. -/
theorem contentHash_title_ne (hsha : Function.Injective D.sha256) (hnfc : D.nfc "" = "")
    (rest rest' : List (Option String)) (hrest : rest ≠ []) :
    D.contentHash (some "" :: rest) ≠ D.contentHash (none :: rest') := by
  intro h
  have hlist := congrArg (fun s => s.toList.head?) (hsha h)
  obtain ⟨part, rest, rfl⟩ := List.exists_cons_of_ne_nil hrest
  have hempty : strip (D.nfc "") = "" := by
    rw [hnfc]
    decide
  cases rest' <;>
    simp [Digest.normalize, String.toList_intercalate, Digest.canon, hempty, separator,
      noneSentinel] at hlist

theorem createdId_off_reserved {authed : Option String} {body : IngestMemoryRequest}
    (h : Reserved (effectiveUser authed body.userId) body.sourceId) (routerEnabled : Bool)
    (d : Draws) (db : Db) :
    createdId (postIngestMemory D toFloat routerEnabled authed body d db).1 = none := by
  have hrefused (a : MemoryArgs) (huser : a.userId = effectiveUser authed body.userId)
      (hsource : a.sourceId = body.sourceId) :
      ingestedId (run (ingestMemoryWithStatus D a d) db) = none := by
    obtain ⟨msg, hs⟩ := sourceOf_reserved (D := D) (huser ▸ hsource ▸ h) d.sourceNow
    rw [run_ingestMemoryWithStatus, hs]
    rfl
  cases routerEnabled with
  | false => exact (postIngestMemory_off D toFloat authed body d db).1.trans (hrefused _ rfl rfl)
  | true =>
    obtain ⟨-, hnone⟩ | ⟨summary, -, hrun⟩ :=
      postIngestMemory_on D toFloat authed body d db
    · exact hnone
    · exact hrun.1.trans (hrefused _ rfl rfl)

theorem ingestedId_claim_refused {a : ClaimArgs}
    (h : a.state ∉ claimTransitions.map (·.1) ∨ Reserved a.userId a.sourceId) (d : Draws)
    (db : Db) : ingestedId (run (ingestClaimWithStatus D a d) db) = none := by
  rw [run_ingestClaimWithStatus]
  by_cases hstate : a.state ∈ claimTransitions.map (·.1)
  · obtain ⟨msg, hs⟩ := sourceOf_reserved (D := D) (h.resolve_left (not_not.2 hstate)) d.sourceNow
    rw [if_neg (not_not.2 hstate), hs]
    rfl
  · rw [if_pos hstate]
    rfl

theorem valid_of_ingestMemory {a : MemoryArgs} {d : Draws} {db db' : Db}
    {r : Except Exc (String × Bool)} (hvalid : db.Valid)
    (h : run (ingestMemoryWithStatus D a d) db = (r, db')) : db'.Valid := by
  simpa only [h] using (Db.Outlives.ingestMemory D a d db).valid hvalid

/-- The two paths store a memory alike only if its body is plain or both refuse its source. -/
theorem plain_of_storedAlike (hsha : Function.Injective D.sha256) (hnfc : D.nfc "" = "")
    {authed : Option String} {body : IngestMemoryRequest} {d : Draws} {db : Db}
    (hvalid : db.Valid) (hfresh : d.Fresh db)
    (hsource : ¬ Reserved (effectiveUser authed body.userId) body.sourceId)
    (h : StoredAlike (·.memories) (·.memoryId) (postIngestMemory D toFloat false authed body d db)
      (postIngestMemory D toFloat true authed body d db)) : body.Plain := by
  obtain ⟨hoff, hoffDb⟩ := postIngestMemory_off D toFloat authed body d db
  obtain ⟨⟨id, dup⟩, hok⟩ :=
    ingestMemory_ok (D := D) (a := body.args (effectiveUser authed body.userId)) hfresh hsource
  have hrun : run (ingestMemoryWithStatus D (body.args (effectiveUser authed body.userId)) d) db =
      (.ok (id, dup),
        (run (ingestMemoryWithStatus D (body.args (effectiveUser authed body.userId)) d) db).2) :=
    Prod.ext hok rfl
  have hcreated := hoff.trans (congrArg ingestedId hrun)
  rcases h with ⟨hnone, -⟩ | ⟨row, ⟨hrowOff, hrowOffMem⟩, hrowOn, hrowOnMem⟩
  · exact nomatch hnone.symm.trans hcreated
  obtain ⟨-, hnone⟩ | ⟨summary, hsome, hon, honDb⟩ :=
    postIngestMemory_on D toFloat authed body d db
  · exact nomatch hnone.symm.trans hrowOn
  have hsummary : body.summary = some summary ∧ summary ≠ "" := by
    simpa using hsome
  refine ⟨⟨summary, hsummary.1, hsummary.2⟩, fun htitle => ?_⟩
  -- the row has the hash of an empty title on one path and of an absent one on the other
  obtain ⟨m, hm, hmid, hmhash, -⟩ := ingestMemory_row hrun
  obtain ⟨dup', db', hrun'⟩ := ingestedId_eq_some (hon.symm.trans hrowOn)
  obtain ⟨n, hn, hnid, hnhash, -⟩ := ingestMemory_row hrun'
  have hrowid : row.memoryId = id := Option.some.inj (hrowOff.symm.trans hcreated)
  obtain rfl : row = m :=
    (valid_of_ingestMemory hvalid hrun).memory_eq_of_id (hoffDb ▸ hrowOffMem) hm
      (hrowid.trans hmid.symm)
  have honDb' : _ = db' := honDb.trans (congrArg Prod.snd hrun')
  obtain rfl : row = n :=
    (valid_of_ingestMemory hvalid hrun').memory_eq_of_id (honDb' ▸ hrowOnMem) hn hnid.symm
  refine contentHash_title_ne hsha hnfc [body.summary, some body.vaultPath]
    [some summary, some body.vaultPath] (by simp) ?_
  have hhash := hmhash.symm.trans hnhash
  simpa [MemoryArgs.contentHash, IngestMemoryRequest.args, htitle, Option.filter_some] using hhash

/-- What the memory router stores is what the store gets without it, where the body gives it no
reason to refuse or to drop a field. -/
theorem router_keeps_rows (hsha : Function.Injective D.sha256) (hnfc : D.nfc "" = "") :
    (∀ (authed : Option String) (body : IngestMemoryRequest) (d : Draws) (db : Db),
      (body.Plain ∨ Reserved (effectiveUser authed body.userId) body.sourceId →
        StoredAlike (·.memories) (·.memoryId)
          (postIngestMemory D toFloat false authed body d db)
          (postIngestMemory D toFloat true authed body d db)) ∧
      (db.Valid → d.Fresh db → StoredAlike (·.memories) (·.memoryId)
          (postIngestMemory D toFloat false authed body d db)
          (postIngestMemory D toFloat true authed body d db) →
        body.Plain ∨ Reserved (effectiveUser authed body.userId) body.sourceId)) ∧
    (∀ (authed : Option String) (body : IngestClaimRequest) (d : Draws) (db : Db),
      (body.confidence ≠ some .nan ∨ body.state ∉ claimTransitions.map (·.1) ∨
          Reserved (effectiveUser authed body.userId) body.sourceId →
        StoredAlike (·.claims) (·.claimId) (postIngestClaim D toFloat false authed body d db)
          (postIngestClaim D toFloat true authed body d db)) ∧
      (d.Fresh db → StoredAlike (·.claims) (·.claimId)
          (postIngestClaim D toFloat false authed body d db)
          (postIngestClaim D toFloat true authed body d db) →
        body.confidence ≠ some .nan ∨ body.state ∉ claimTransitions.map (·.1) ∨
          Reserved (effectiveUser authed body.userId) body.sourceId)) ∧
    (∀ (authed : Option String) (body : IngestMemoryRequest) (before after : Bool)
      (d e : Draws) (ops : List Op) (db : Db) (id₁ id₂ : String), db.Valid → body.Plain →
      createdId (postIngestMemory D toFloat before authed body d db).1 = some id₁ →
      createdId (postIngestMemory D toFloat after authed body e
        (applyOps D ops (postIngestMemory D toFloat before authed body d db).2)).1 = some id₂ →
      id₁ = id₂) ∧
    ∀ (authed : Option String) (body : IngestClaimRequest) (before after : Bool)
      (d e : Draws) (ops : List Op) (db : Db) (id₁ id₂ : String), db.Valid →
      body.confidence ≠ some .nan →
      createdId (postIngestClaim D toFloat before authed body d db).1 = some id₁ →
      createdId (postIngestClaim D toFloat after authed body e
        (applyOps D ops (postIngestClaim D toFloat before authed body d db).2)).1 = some id₂ →
      id₁ = id₂ := by
  refine ⟨?_, ?_, ?_, ?_⟩
  · intro authed body d db
    constructor
    · rintro (hplain | hreserved)
      · exact .of_memory (postIngestMemory_plain D toFloat hplain false authed d db)
          (postIngestMemory_plain D toFloat hplain true authed d db)
      · exact .inl ⟨createdId_off_reserved hreserved false d db,
          createdId_off_reserved hreserved true d db⟩
    · intro hvalid hfresh halike
      by_cases hreserved : Reserved (effectiveUser authed body.userId) body.sourceId
      · exact .inr hreserved
      · exact .inl (plain_of_storedAlike hsha hnfc hvalid hfresh hreserved halike)
  · intro authed body d db
    obtain ⟨hoff, hoffDb⟩ := postIngestClaim_off D toFloat authed body d db
    constructor
    · intro hbody
      by_cases hnan : body.confidence = some .nan
      · have hrefused := ingestedId_claim_refused (D := D)
          (a := body.args (effectiveUser authed body.userId))
          (hbody.resolve_left (not_not.2 hnan)) d db
        obtain ⟨-, hnone⟩ | ⟨hne, -⟩ :=
          postIngestClaim_on D toFloat authed body d db
        · exact .inl ⟨hoff.trans hrefused, hnone⟩
        · exact absurd hnan hne
      · exact .of_claim (postIngestClaim_plain D toFloat hnan false authed d db)
          (postIngestClaim_plain D toFloat hnan true authed d db)
    · intro hfresh halike
      by_contra hbody
      simp only [not_or, not_not] at hbody
      obtain ⟨hnan, hstate, hreserved⟩ := hbody
      obtain ⟨r, hok⟩ := ingestClaim_ok (D := D)
        (a := body.args (effectiveUser authed body.userId)) hfresh hreserved hstate
      have hcreated : ingestedId (run (ingestClaimWithStatus D
          (body.args (effectiveUser authed body.userId)) d) db) = some r.1 := by
        simp [ingestedId, hok, Except.toOption]
      obtain ⟨-, hnone⟩ | ⟨hne, -⟩ :=
        postIngestClaim_on D toFloat authed body d db
      · rcases halike with ⟨hoffNone, -⟩ | ⟨row, -, hrowOn, -⟩
        · cases (hoff.trans hcreated).symm.trans hoffNone
        · cases hnone.symm.trans hrowOn
      · exact hne hnan
  · intro authed body before after d e ops db id₁ id₂ hvalid hplain h₁ h₂
    obtain ⟨hfirst, hfirstDb⟩ :=
      postIngestMemory_plain D toFloat hplain before authed d db
    obtain ⟨hsecond, -⟩ := postIngestMemory_plain D toFloat hplain after authed e
      (applyOps D ops (postIngestMemory D toFloat before authed body d db).2)
    obtain ⟨dup₁, db₁, hrun₁⟩ := ingestedId_eq_some (hfirst.symm.trans h₁)
    obtain ⟨dup₂, db₂, hrun₂⟩ := ingestedId_eq_some (hsecond.symm.trans h₂)
    rw [hfirstDb, hrun₁] at hrun₂
    exact memories_same hvalid hrun₁ hrun₂ rfl rfl
  · intro authed body before after d e ops db id₁ id₂ hvalid hnan h₁ h₂
    obtain ⟨hfirst, hfirstDb⟩ :=
      postIngestClaim_plain D toFloat hnan before authed d db
    obtain ⟨hsecond, -⟩ := postIngestClaim_plain D toFloat hnan after authed e
      (applyOps D ops (postIngestClaim D toFloat before authed body d db).2)
    obtain ⟨dup₁, db₁, hrun₁⟩ := ingestedId_eq_some (hfirst.symm.trans h₁)
    obtain ⟨dup₂, db₂, hrun₂⟩ := ingestedId_eq_some (hsecond.symm.trans h₂)
    rw [hfirstDb, hrun₁] at hrun₂
    exact claims_same hvalid hrun₁ hrun₂ rfl rfl rfl

section Sample

/-- `float(n)` of the integers that a float holds exactly. -/
def sampleFloat (n : Int) : Except Exc PyFloat := .ok (Json.ofInt n)

def plainBody : IngestMemoryRequest :=
  ⟨"ann", some "T", some "S", "p.md", none, by decide, by decide, by decide +kernel⟩

/-- A body without a summary, and one with an empty title. -/
def summaryAbsent : IngestMemoryRequest := { plainBody with summary := none }
def titleEmpty : IngestMemoryRequest := { plainBody with title := some "" }

theorem router_keeps_rows_sample :
    StoredAlike (·.memories) (·.memoryId)
      (postIngestMemory .sample sampleFloat false none plainBody sampleFirst .empty)
      (postIngestMemory .sample sampleFloat true none plainBody sampleFirst .empty) ∧
    createdId (postIngestMemory .sample sampleFloat false none plainBody sampleFirst .empty).1 =
      some "M1" :=
  ⟨((router_keeps_rows sample_injective rfl).1 none plainBody sampleFirst .empty).1
    (.inl (by decide +kernel)), by decide +kernel⟩

/-- Without a summary the router refuses what the store takes; an empty title is a second row. -/
theorem router_changes_rows :
    ¬ StoredAlike (·.memories) (·.memoryId)
      (postIngestMemory .sample sampleFloat false none summaryAbsent sampleFirst .empty)
      (postIngestMemory .sample sampleFloat true none summaryAbsent sampleFirst .empty) ∧
    createdId (postIngestMemory .sample sampleFloat false none titleEmpty sampleFirst .empty).1 =
      some "M1" ∧
    createdId (postIngestMemory .sample sampleFloat true none titleEmpty sampleSecond
      (postIngestMemory .sample sampleFloat false none titleEmpty sampleFirst .empty).2).1 =
        some "M2" := by
  have hoff : createdId (postIngestMemory .sample sampleFloat false none summaryAbsent sampleFirst
      .empty).1 = some "M1" := by decide +kernel
  have hon : createdId (postIngestMemory .sample sampleFloat true none summaryAbsent sampleFirst
      .empty).1 = none := by decide +kernel
  refine ⟨?_, by decide +kernel, by decide +kernel⟩
  rintro (⟨hnone, -⟩ | ⟨row, -, hrow, -⟩)
  · exact nomatch hnone.symm.trans hoff
  · exact nomatch hon.symm.trans hrow

end Sample

end ParallaxKernel.Server
