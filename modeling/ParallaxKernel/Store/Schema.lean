import ParallaxKernel.Lib.Json
import ParallaxKernel.Lib.Transaction
import Mathlib.Data.List.Nodup

/-!
# The canonical store

The tables of `schema.sql` at its latest version and the statements of `sqlite_store.py` on them.
A table is the list of its rows in insertion order. `INSERT OR IGNORE` passes over a row that
clashes with a primary key or a unique index; a foreign key that points nowhere is an error even
so.
-/

namespace ParallaxKernel.Store

open Lib

/-- The exceptions that the modelled code raises or lets through. -/
inductive Exc where
  | valueError (msg : String)
  | typeError (msg : String)
  | attributeError (msg : String)
  | indexError (msg : String)
  | overflowError (msg : String)
  | integrityError (msg : String)
  | operationalError (msg : String)
  | programmingError (msg : String)
  deriving DecidableEq, Repr

/-- `repr` of a string, every character beyond ASCII taken as printable. -/
def pyRepr (s : String) : String :=
  let quote := if s.toList.contains '\'' && !s.toList.contains '"' then '"' else '\''
  let escape (c : Char) : List Char :=
    if c = '\\' then ['\\', '\\']
    else if c = quote then ['\\', c]
    else if c = '\n' then ['\\', 'n']
    else if c = '\r' then ['\\', 'r']
    else if c = '\t' then ['\\', 't']
    else if c.toNat < 32 ∨ c.toNat = 127 then
      ['\\', 'x', Nat.digitChar (c.toNat / 16), Nat.digitChar (c.toNat % 16)]
    else [c]
  String.ofList (quote :: (s.toList.flatMap escape ++ [quote]))

/-! ## Rows -/

structure Source where
  sourceId : String
  uri : String
  kind : String
  contentHash : String
  userId : String
  ingestedAt : String
  state : String
  deriving DecidableEq

structure Memory where
  memoryId : String
  userId : String
  sourceId : Option String
  vaultPath : String
  title : Option String
  summary : Option String
  contentHash : String
  state : String
  createdAt : String
  updatedAt : String
  deriving DecidableEq

structure Claim where
  claimId : String
  userId : String
  subject : String
  predicate : String
  object : String
  sourceId : String
  contentHash : String
  confidence : Option PyFloat
  state : String
  createdAt : String
  updatedAt : String
  deriving DecidableEq

/-- The columns of a decision that the store reads. -/
structure Decision where
  decisionId : String
  userId : String
  deriving DecidableEq

structure Event where
  eventId : String
  userId : String
  actor : String
  eventType : String
  targetKind : Option String
  targetId : Option String
  payloadJson : String
  approvalTier : Option String
  createdAt : String
  sessionId : Option String
  deriving DecidableEq

structure Db where
  sources : List Source
  memories : List Memory
  claims : List Claim
  decisions : List Decision
  events : List Event
  deriving DecidableEq

def Db.empty : Db := ⟨[], [], [], [], []⟩

/-- A program on a connection to the store. -/
abbrev Sql (α : Type) := Prog Db Exc α

/-! ## Statements -/

/-- A `REAL` column stores `NaN` as `NULL`. -/
def bindReal : Option PyFloat → Option PyFloat
  | some .nan => none
  | x => x

@[simp] theorem bindReal_bindReal (x : Option PyFloat) : bindReal (bindReal x) = bindReal x := by
  rcases x with _ | (_ | _ | _ | _) <;> rfl

/-- The row that a claim is stored as. -/
def Claim.stored (c : Claim) : Claim := { c with confidence := bindReal c.confidence }

@[simp] theorem Claim.stored_stored (c : Claim) : c.stored.stored = c.stored := by
  simp [Claim.stored]

def Source.clashes (s t : Source) : Bool := t.sourceId == s.sourceId

def Memory.clashes (m n : Memory) : Bool :=
  n.memoryId == m.memoryId || (n.contentHash == m.contentHash && n.userId == m.userId)

def Claim.clashes (c d : Claim) : Bool :=
  d.claimId == c.claimId ||
    (d.contentHash == c.contentHash && d.sourceId == c.sourceId && d.userId == c.userId)

def foreignKeyFailed : Exc := .integrityError "FOREIGN KEY constraint failed"

namespace Db

def hasSource (db : Db) (sourceId : String) : Bool := db.sources.any (·.sourceId == sourceId)

def insertSource (s : Source) (db : Db) : Except Exc (Db × Nat) :=
  if db.sources.any s.clashes then .ok (db, 0)
  else .ok ({ db with sources := db.sources ++ [s] }, 1)

/-- The store after `insert_source`. -/
def withSource (db : Db) (s : Source) : Db :=
  if db.sources.any s.clashes then db else { db with sources := db.sources ++ [s] }

@[simp] theorem withSource_memories (db : Db) (s : Source) :
    (db.withSource s).memories = db.memories := by
  unfold withSource
  split_ifs <;> rfl

@[simp] theorem withSource_claims (db : Db) (s : Source) :
    (db.withSource s).claims = db.claims := by
  unfold withSource
  split_ifs <;> rfl

@[simp] theorem withSource_events (db : Db) (s : Source) :
    (db.withSource s).events = db.events := by
  unfold withSource
  split_ifs <;> rfl

theorem insertSource_eq (s : Source) (db : Db) :
    ∃ n, db.insertSource s = .ok (db.withSource s, n) := by
  unfold insertSource withSource
  split_ifs <;> simp

def insertMemory (m : Memory) (db : Db) : Except Exc (Db × Nat) :=
  if db.memories.any m.clashes then .ok (db, 0)
  else if m.sourceId.all db.hasSource then
    .ok ({ db with memories := db.memories ++ [m] }, 1)
  else .error foreignKeyFailed

def insertClaim (c : Claim) (db : Db) : Except Exc (Db × Nat) :=
  if db.claims.any c.clashes then .ok (db, 0)
  else if db.hasSource c.sourceId then
    .ok ({ db with claims := db.claims ++ [c.stored] }, 1)
  else .error foreignKeyFailed

theorem insertMemory_cases (m : Memory) (db : Db) :
    db.insertMemory m = .ok (db, 0) ∧ db.memories.any m.clashes = true ∨
    db.insertMemory m = .ok ({ db with memories := db.memories ++ [m] }, 1) ∧
      db.memories.any m.clashes = false ∧ m.sourceId.all db.hasSource = true ∨
    db.insertMemory m = .error foreignKeyFailed := by
  unfold insertMemory
  split_ifs with hclash hfk
  · exact .inl ⟨rfl, hclash⟩
  · exact .inr (.inl ⟨rfl, by simpa using hclash, hfk⟩)
  · exact .inr (.inr rfl)

theorem insertClaim_cases (c : Claim) (db : Db) :
    db.insertClaim c = .ok (db, 0) ∧ db.claims.any c.clashes = true ∨
    db.insertClaim c = .ok ({ db with claims := db.claims ++ [c.stored] }, 1) ∧
      db.claims.any c.clashes = false ∧ db.hasSource c.sourceId = true ∨
    db.insertClaim c = .error foreignKeyFailed := by
  unfold insertClaim
  split_ifs with hclash hfk
  · exact .inl ⟨rfl, hclash⟩
  · exact .inr (.inl ⟨rfl, by simpa using hclash, hfk⟩)
  · exact .inr (.inr rfl)

def insertEvent (e : Event) (db : Db) : Except Exc (Db × Nat) :=
  if db.events.any (·.eventId == e.eventId) then
    .error (.integrityError "UNIQUE constraint failed: events.event_id")
  else .ok ({ db with events := db.events ++ [e] }, 1)

/-- `UPDATE claims SET … WHERE …`. -/
def updateClaims (p : Claim → Bool) (f : Claim → Claim) (db : Db) : Except Exc (Db × Nat) :=
  .ok ({ db with claims := db.claims.map fun c => if p c then f c else c },
    (db.claims.filter p).length)

def updateMemories (p : Memory → Bool) (f : Memory → Memory) (db : Db) :
    Except Exc (Db × Nat) :=
  .ok ({ db with memories := db.memories.map fun m => if p m then f m else m },
    (db.memories.filter p).length)

end Db

/-! ## Writers -/

def insertSource (s : Source) : Sql Unit :=
  Prog.withConn do
    let _ ← Prog.write (Db.insertSource s)
    pure ()

def insertMemory (m : Memory) : Sql Unit :=
  Prog.withConn do
    let _ ← Prog.write (Db.insertMemory m)
    pure ()

def insertClaim (c : Claim) : Sql Unit :=
  Prog.withConn do
    let _ ← Prog.write (Db.insertClaim c)
    pure ()

def insertEvent (e : Event) : Sql Unit :=
  Prog.withConn do
    let _ ← Prog.write (Db.insertEvent e)
    pure ()

theorem exec_insertSource (s : Source) (c : Prog.Conn Db) :
    (insertSource s).exec c = c.wrote () (Db.insertSource s c.view) := by
  rw [insertSource, Prog.exec_withConn_write]

theorem exec_insertMemory (m : Memory) (c : Prog.Conn Db) :
    (insertMemory m).exec c = c.wrote () (Db.insertMemory m c.view) := by
  rw [insertMemory, Prog.exec_withConn_write]

theorem exec_insertClaim (k : Claim) (c : Prog.Conn Db) :
    (insertClaim k).exec c = c.wrote () (Db.insertClaim k c.view) := by
  rw [insertClaim, Prog.exec_withConn_write]

theorem exec_insertEvent (e : Event) (c : Prog.Conn Db) :
    (insertEvent e).exec c = c.wrote () (Db.insertEvent e c.view) := by
  rw [insertEvent, Prog.exec_withConn_write]

end ParallaxKernel.Store
