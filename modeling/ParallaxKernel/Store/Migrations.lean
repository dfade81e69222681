import ParallaxKernel.Lib.DateTime
import ParallaxKernel.Lib.KeyedList
import ParallaxKernel.Store.Effect

/-!
# Migrations and the log

Migration 7 rehashes the claims and migration 8 makes every timestamp canonical. Both rewrite the
rows in place and leave the payloads of the log, the second copy of the same columns, as they are.
The later migrations touch neither the rows nor the log.
-/

namespace ParallaxKernel.Store

open Lib Prog

/-! ## Timestamps -/

def Exc.ofDateTime : DateTime.Error → Exc
  | .value msg => .valueError msg
  | .overflow msg => .overflowError msg

/-- `_canonicalize`. -/
def canonicalize (value : String) : Except Exc String :=
  let ts :=
    if value.toList.getLast? = some 'Z' then String.ofList value.toList.dropLast ++ "+00:00"
    else value
  match DateTime.fromIsoformat ts >>= DateTime.toUtc with
  | .ok dt => .ok dt.isoformatUtc
  | .error e => .error (.ofDateTime e)

/-- The canonical form of a timestamp that has one. -/
def canonicalTime (value : String) : String := (canonicalize value).toOption.getD value

/-! ## Old stores -/

/-- A store at a schema version. Of the tables beside those of `Db` only the timestamps count. -/
structure OldDb where
  version : Nat
  db : Db
  claimMetadataTimes : List String
  decisionTimes : List String
  indexStateTimes : List String

variable (D : Digest)

/-- The hash that an ingest computes for the claim. -/
def Claim.hash (c : Claim) : String :=
  D.contentHash [some c.subject, some c.predicate, some c.object, some c.sourceId, some c.userId]

def Claim.rehashed (c : Claim) : Claim := { c with contentHash := c.hash D }

/-- The key of `uniq_claims_content` since version 7. -/
def Claim.contentKey (c : Claim) : String × String × String := (c.contentHash, c.sourceId, c.userId)

/-- `m0007_claim_content_hash_user_id.up`. -/
def m0007 (x : OldDb) : Except Exc OldDb :=
  let claims := x.db.claims.map (·.rehashed D)
  if (claims.map (·.contentKey)).Nodup then .ok { x with db := { x.db with claims := claims } }
  else .error (.integrityError ("UNIQUE constraint failed: claims.content_hash, " ++
    "claims.source_id, claims.user_id"))

/-- `m0008_normalize_naive_created_at.up`. -/
def m0008 (x : OldDb) : Except Exc OldDb := do
  let sources ← x.db.sources.mapM fun s => do
    .ok { s with ingestedAt := ← canonicalize s.ingestedAt }
  let memories ← x.db.memories.mapM fun m => do
    .ok { m with createdAt := ← canonicalize m.createdAt, updatedAt := ← canonicalize m.updatedAt }
  let claims ← x.db.claims.mapM fun c => do
    .ok { c with createdAt := ← canonicalize c.createdAt, updatedAt := ← canonicalize c.updatedAt }
  let claimMetadataTimes ← x.claimMetadataTimes.mapM canonicalize
  let decisionTimes ← x.decisionTimes.mapM canonicalize
  let events ← x.db.events.mapM fun e => do
    .ok { e with createdAt := ← canonicalize e.createdAt }
  let indexStateTimes ← x.indexStateTimes.mapM canonicalize
  .ok { version := x.version, db := ⟨sources, memories, claims, x.db.decisions, events⟩,
        claimMetadataTimes, decisionTimes, indexStateTimes }

structure Migration where
  version : Nat
  name : String
  up : OldDb → Except Exc OldDb

/-- The migrations that add tables, indexes and triggers beside the rows and the log. -/
def laterMigrations : List Migration :=
  [⟨9, "api_tokens", .ok⟩, ⟨10, "memory_cards", .ok⟩, ⟨11, "crosswalk", .ok⟩,
    ⟨12, "crosswalk_aphelion_doc_id", .ok⟩,
    ⟨13, "events_event_type_correlation_id_index", .ok⟩, ⟨14, "events_fts_trigram", .ok⟩]

/-- `MIGRATIONS` from version 7 on. -/
def migrations : List Migration :=
  ⟨7, "claim_content_hash_user_id", m0007 D⟩ :: ⟨8, "normalize_naive_created_at", m0008⟩ ::
    laterMigrations

def pending (x : OldDb) : List Migration := (migrations D).filter (x.version < ·.version)

/-- The loop of `migrate_to_latest`: each migration in a transaction of its own. -/
def applyMigrations : List Migration → OldDb → Except Exc (List Nat) × OldDb
  | [], x => (.ok [], x)
  | m :: rest, x =>
    match m.up x with
    | .error e => (.error e, x)
    | .ok y =>
      let (applied, z) := applyMigrations rest { y with version := m.version }
      (applied.map (m.version :: ·), z)

def migrateToLatest (x : OldDb) : Except Exc (List Nat) × OldDb :=
  applyMigrations (pending D x) x

/-! ## What the migrations leave -/

def Db.rehashed (db : Db) : Db := { db with claims := db.claims.map (·.rehashed D) }

def Memory.canonical (m : Memory) : Memory :=
  { m with createdAt := canonicalTime m.createdAt, updatedAt := canonicalTime m.updatedAt }

def Claim.canonical (c : Claim) : Claim :=
  { c with createdAt := canonicalTime c.createdAt, updatedAt := canonicalTime c.updatedAt }

def Event.canonical (e : Event) : Event := { e with createdAt := canonicalTime e.createdAt }

def Source.canonical (s : Source) : Source := { s with ingestedAt := canonicalTime s.ingestedAt }

def Db.canonical (db : Db) : Db where
  sources := db.sources.map Source.canonical
  memories := db.memories.map Memory.canonical
  claims := db.claims.map Claim.canonical
  decisions := db.decisions
  events := db.events.map Event.canonical

/-- The timestamps that migration 8 rewrites. -/
def OldDb.times (x : OldDb) : List String :=
  x.db.sources.map (·.ingestedAt) ++ x.db.memories.flatMap (fun m => [m.createdAt, m.updatedAt]) ++
    x.db.claims.flatMap (fun c => [c.createdAt, c.updatedAt]) ++ x.claimMetadataTimes ++
    x.decisionTimes ++ x.db.events.map (·.createdAt) ++ x.indexStateTimes

/-- Migration 7 is due and no two claims clash under their new hashes. -/
def OldDb.Rehashes (x : OldDb) : Prop :=
  x.version < 7 ∧ ((x.db.rehashed D).claims.map (·.contentKey)).Nodup

/-- Migration 8 is due, the one before it does not fail, and every timestamp can be read. -/
def OldDb.Canonicalises (x : OldDb) : Prop :=
  x.version < 8 ∧ (x.version < 7 → x.Rehashes D) ∧ ∀ t ∈ x.times, (canonicalize t).isOk

instance (x : OldDb) : Decidable (x.Rehashes D) := inferInstanceAs (Decidable (_ ∧ _))
instance (x : OldDb) : Decidable (x.Canonicalises D) := inferInstanceAs (Decidable (_ ∧ _ ∧ _))

/-- The store that the migrations leave, whether the last one due fails or not. -/
def OldDb.left (x : OldDb) : Db :=
  let db := if x.Rehashes D then x.db.rehashed D else x.db
  if x.Canonicalises D then db.canonical else db

/-! ## A sweep succeeds or fails as a whole -/

/-- The computation gives `v` where `ok` holds and fails where it does not. -/
structure Settles {α : Type} (r : Except Exc α) (ok : Prop) (v : α) : Prop where
  done : ok → r = .ok v
  fails : ¬ ok → ∃ e, r = .error e

namespace Settles

variable {α β : Type}

theorem bind {r : Except Exc α} {k : α → Except Exc β} {p q : Prop} {a : α} {b : β}
    (h : Settles r p a) (hk : Settles (k a) q b) : Settles (r >>= k) (p ∧ q) b := by
  constructor
  · rintro ⟨hp, hq⟩
    rw [h.done hp]
    exact hk.done hq
  · intro hpq
    by_cases hp : p
    · rw [h.done hp]
      exact hk.fails fun hq => hpq ⟨hp, hq⟩
    · obtain ⟨e, he⟩ := h.fails hp
      exact ⟨e, by rw [he]; rfl⟩

theorem pure (a : α) : Settles (.ok a) True a := by
  constructor
  · intro _
    rfl
  · intro h
    exact absurd trivial h

theorem congr {r : Except Exc α} {p q : Prop} {a : α} (h : Settles r p a) (hpq : q ↔ p) :
    Settles r q a :=
  ⟨fun hq => h.done (hpq.1 hq), fun hq => h.fails fun hp => hq (hpq.2 hp)⟩

theorem mapM {f : α → Except Exc β} {p : α → Prop} {g : α → β}
    (h : ∀ a, Settles (f a) (p a) (g a)) (xs : List α) :
    Settles (xs.mapM f) (∀ a ∈ xs, p a) (xs.map g) := by
  induction xs with
  | nil => exact (pure []).congr (by simp)
  | cons a xs ih =>
    rw [List.mapM_cons]
    have hrest : Settles (xs.mapM f >>= fun bs => Pure.pure (g a :: bs)) _ (g a :: xs.map g) :=
      ih.bind (pure _)
    exact ((h a).bind hrest).congr (by simp)

end Settles

theorem canonicalize_settles (t : String) :
    Settles (canonicalize t) (canonicalize t).isOk (canonicalTime t) := by
  unfold canonicalTime
  cases h : canonicalize t with
  | ok v => exact ⟨fun _ => rfl, fun hno => absurd rfl hno⟩
  | error e => exact ⟨fun hok => by simp [Except.isOk, Except.toBool] at hok, fun _ => ⟨e, rfl⟩⟩

theorem m0008_settles (x : OldDb) : ∃ y, y.version = x.version ∧ y.db = x.db.canonical ∧
    Settles (m0008 x) (∀ t ∈ x.times, (canonicalize t).isOk) y := by
  refine ⟨⟨x.version, x.db.canonical, x.claimMetadataTimes.map canonicalTime,
    x.decisionTimes.map canonicalTime, x.indexStateTimes.map canonicalTime⟩, rfl, rfl, ?_⟩
  have htime := canonicalize_settles
  have hsource (s : Source) : Settles
      (do .ok { s with ingestedAt := ← canonicalize s.ingestedAt }) _ s.canonical :=
    (htime s.ingestedAt).bind (.pure _)
  have hmemory (m : Memory) : Settles
      (do .ok { m with createdAt := ← canonicalize m.createdAt,
                       updatedAt := ← canonicalize m.updatedAt }) _ m.canonical :=
    (htime m.createdAt).bind ((htime m.updatedAt).bind (.pure _))
  have hclaim (c : Claim) : Settles
      (do .ok { c with createdAt := ← canonicalize c.createdAt,
                       updatedAt := ← canonicalize c.updatedAt }) _ c.canonical :=
    (htime c.createdAt).bind ((htime c.updatedAt).bind (.pure _))
  have hevent (e : Event) : Settles
      (do .ok { e with createdAt := ← canonicalize e.createdAt }) _ e.canonical :=
    (htime e.createdAt).bind (.pure _)
  apply Settles.congr
  · unfold m0008
    apply (Settles.mapM hsource _).bind
    apply (Settles.mapM hmemory _).bind
    apply (Settles.mapM hclaim _).bind
    apply (Settles.mapM htime _).bind
    apply (Settles.mapM htime _).bind
    apply (Settles.mapM hevent _).bind
    apply (Settles.mapM htime _).bind
    exact .pure _
  · simp only [OldDb.times, List.forall_mem_append, List.forall_mem_flatMap, List.forall_mem_map,
      List.forall_mem_cons, List.not_mem_nil, false_imp_iff, implies_true, and_true, and_assoc]

/-! ## The store that is left -/

variable {D}

/-- Replaying the log into an empty store with the sources of `start` gives the rows of `db`. -/
def RebuildsAs (log : List Event) (start db : Db) : Prop :=
  ∃ summary target, replayLog log start.sourcesOnly = .ok (summary, target) ∧
    target.memories.Perm db.memories ∧ target.claims.Perm db.claims

/-- The log gives the rows of the store, column for column. -/
def Faithful (db : Db) : Prop := RebuildsAs db.eventsInOrder db db

variable (D)

variable {D}

section Sample

end Sample

end ParallaxKernel.Store
