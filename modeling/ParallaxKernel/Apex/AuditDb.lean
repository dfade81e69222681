import ParallaxKernel.Apex.AuditWriter
import ParallaxKernel.Lib.ExplicitTransaction

/-!
# The audit database

The table `audit_row` of `apex/audit_db.py` and its two writers. A row that the validation accepts
is stored as the texts it holds, and the canonical JSON of the row as it is read back is that of the
row as it was written.
-/

namespace ParallaxKernel.Apex

open Lib Store

/-! ## The table -/

/-- A row of `audit_row`; the columns of optional fields may be NULL. -/
structure StoredRow where
  claimId : String
  envelopeMessageId : String
  outcome : String
  packageId : String
  sessionId : String
  signerId : String
  signerManifestDigest : String
  source : String
  ts : String
  aphelionHash : Option String
  localHash : Option String
  reasonCode : Option String
  deriving DecidableEq

namespace StoredRow

/-- The values of the columns that are not NULL. -/
def requiredItems (row : StoredRow) : List (String × String) :=
  [("claim_id", row.claimId), ("envelope_message_id", row.envelopeMessageId),
    ("outcome", row.outcome), ("package_id", row.packageId), ("session_id", row.sessionId),
    ("signer_id", row.signerId), ("signer_manifest_digest", row.signerManifestDigest),
    ("source", row.source), ("ts", row.ts)]

def optionalItems (row : StoredRow) : List (String × Option String) :=
  [("aphelion_hash", row.aphelionHash), ("local_hash", row.localHash),
    ("reason_code", row.reasonCode)]

/-- The row as it is read back, without the columns that are NULL. -/
def items (row : StoredRow) : List (String × Json) :=
  row.requiredItems.map (fun item => (item.1, .str item.2)) ++
    row.optionalItems.filterMap fun item => item.2.map fun value => (item.1, .str value)

/-- `length(value)`, which ends at a NUL character. -/
def sqliteText (value : String) : List Char := value.toList.takeWhile (· ≠ '\x00')

/-- `ts LIKE '____-__-__T__:__:__Z'`. -/
def likeTs (ts : String) : Bool :=
  let pattern := "____-__-__T__:__:__Z".toList
  (sqliteText ts).length = pattern.length &&
    (pattern.zip (sqliteText ts)).all fun (p, c) => p = '_' || p.toLower = c.toLower

/-- The `CHECK` constraints. -/
def checks (row : StoredRow) : Bool :=
  row.outcome ∈ outcomeValues &&
    ((sqliteText row.signerManifestDigest).length = 64 || row.signerManifestDigest = "") &&
    row.source ∈ sourceValues && likeTs row.ts

end StoredRow

abbrev AuditTable := List StoredRow

/-- The `INSERT`, with the `CHECK` constraints and `envelope_message_id` unique. -/
def insertRow (row : StoredRow) (table : AuditTable) : Except SqliteError AuditTable :=
  if row.checks ∧ row.envelopeMessageId ∉ table.map (·.envelopeMessageId) then .ok (table ++ [row])
  else .error .integrityError

/-! ## Binding a row -/

def bindText (data : Dict Json) (column : String) : Option String :=
  match data.get? column with
  | some (.str value) => some value
  | _ => none

/-- A value of an optional column, which is NULL where it is missing. -/
def bindOptional (data : Dict Json) (column : String) : Option (Option String) :=
  match data.get? column with
  | none | some .null => some none
  | some (.str value) => some (some value)
  | _ => none

/-- The row that the statement inserts, where all its values are texts. -/
def bindRow (data : Dict Json) : Option StoredRow := do
  return {
    claimId := ← bindText data "claim_id"
    envelopeMessageId := ← bindText data "envelope_message_id"
    outcome := ← bindText data "outcome"
    packageId := ← bindText data "package_id"
    sessionId := ← bindText data "session_id"
    signerId := ← bindText data "signer_id"
    signerManifestDigest := ← bindText data "signer_manifest_digest"
    source := ← bindText data "source"
    ts := ← bindText data "ts"
    aphelionHash := ← bindOptional data "aphelion_hash"
    localHash := ← bindOptional data "local_hash"
    reasonCode := ← bindOptional data "reason_code" }

namespace StoredRow

theorem keys_items (row : StoredRow) :
    (row.items.map Prod.fst).Sublist (requiredFields ++ optionalFields) := by
  have hoptional : ((row.optionalItems.filterMap fun item =>
      item.2.map fun value => (item.1, Json.str value)).map Prod.fst).Sublist
      (row.optionalItems.map Prod.fst) := by
    induction row.optionalItems with
    | nil => exact .slnil
    | cons item items ih =>
      cases hitem : item.2 with
      | none => simpa [List.filterMap_cons, hitem] using ih.cons item.1
      | some value => simpa [List.filterMap_cons, hitem] using ih
  simpa [items, requiredItems, optionalItems, requiredFields, optionalFields] using hoptional

theorem nodup_items (row : StoredRow) : (row.items.map Prod.fst).Nodup :=
  row.keys_items.nodup (by decide)

def dict (row : StoredRow) : Dict Json := ⟨row.items, row.nodup_items⟩

end StoredRow

variable {py : PyText}

theorem get?_cleaned {data : Dict Json} (column : String) :
    (cleaned data).get? column = (data.get? column).filter fun v => !isNull v :=
  Dict.get?_filter

@[simp] theorem bindText_cleaned (data : Dict Json) (column : String) :
    bindText (cleaned data) column = bindText data column := by
  unfold bindText
  rw [get?_cleaned]
  cases data.get? column with
  | none => rfl
  | some v => cases v <;> rfl

@[simp] theorem bindOptional_cleaned (data : Dict Json) (column : String) :
    bindOptional (cleaned data) column = bindOptional data column := by
  unfold bindOptional
  rw [get?_cleaned]
  cases data.get? column with
  | none => rfl
  | some v => cases v <;> rfl

theorem bindRow_cleaned (data : Dict Json) : bindRow (cleaned data) = bindRow data := by
  simp only [bindRow, bindText_cleaned, bindOptional_cleaned]

theorem bindText_of_get? {data : Dict Json} {column value : String}
    (h : data.get? column = some (.str value)) : bindText data column = some value := by
  simp [bindText, h]

theorem bindOptional_of_get? {data : Dict Json} {column : String}
    (h : data.get? column = none ∨ IsText data column) :
    ∃ value, bindOptional data column = some value ∧ data.get? column = value.map .str := by
  cases h with
  | inl h => exact ⟨none, by simp [bindOptional, h], h⟩
  | inr h =>
    obtain ⟨value, hvalue⟩ := h
    exact ⟨some value, by simp [bindOptional, hvalue], hvalue⟩

/-- A dictionary of the fields of the schema that agrees with a row on each of them. -/
theorem StoredRow.perm_items {data : Dict Json} {row : StoredRow}
    (hfields : ∀ name ∈ data.keys, name ∈ requiredFields ++ optionalFields)
    (hrequired : ∀ item ∈ row.requiredItems, data.get? item.1 = some (.str item.2))
    (hoptional : ∀ item ∈ row.optionalItems, data.get? item.1 = item.2.map .str) :
    data.items.Perm row.items := by
  refine Dict.perm_of_get? (e := row.dict) fun key => ?_
  ext v
  rw [Dict.get?_eq_some (d := row.dict)]
  constructor
  · intro hget
    have hkey := hfields key (List.mem_map_of_mem (Dict.get?_eq_some.1 hget))
    cases List.mem_append.1 hkey with
    | inl h =>
      obtain ⟨item, hitem, rfl⟩ : ∃ item ∈ row.requiredItems, item.1 = key := List.mem_map.1 h
      obtain rfl : .str item.2 = v := by simpa [hrequired item hitem] using hget
      exact List.mem_append_left _ (List.mem_map_of_mem hitem)
    | inr h =>
      obtain ⟨item, hitem, rfl⟩ : ∃ item ∈ row.optionalItems, item.1 = key := List.mem_map.1 h
      obtain ⟨value, hvalue, rfl⟩ := Option.map_eq_some_iff.1 ((hoptional item hitem).symm.trans hget)
      exact List.mem_append_right _ (List.mem_filterMap.2 ⟨item, hitem, by simp [hvalue]⟩)
  · intro hmem
    cases List.mem_append.1 hmem with
    | inl h =>
      obtain ⟨item, hitem, heq⟩ := List.mem_map.1 h
      cases heq
      exact hrequired item hitem
    | inr h =>
      obtain ⟨item, hitem, heq⟩ := List.mem_filterMap.1 h
      obtain ⟨value, hvalue, hitem'⟩ := Option.map_eq_some_iff.1 heq
      cases hitem'
      simpa [hvalue] using hoptional item hitem

/-- A well formed row is stored as what it holds. -/
theorem bindRow_of_wellFormed {data : Dict Json} (h : WellFormed py data) :
    ∃ row, bindRow data = some row ∧ data.items.Perm row.items := by
  obtain ⟨claimId, hclaim⟩ := h.required "claim_id" (by decide)
  obtain ⟨messageId, hmessage⟩ := h.required "envelope_message_id" (by decide)
  obtain ⟨outcome, houtcome⟩ := h.required "outcome" (by decide)
  obtain ⟨packageId, hpackage⟩ := h.required "package_id" (by decide)
  obtain ⟨sessionId, hsession⟩ := h.required "session_id" (by decide)
  obtain ⟨signerId, hsigner⟩ := h.required "signer_id" (by decide)
  obtain ⟨digest, hdigest⟩ := h.required "signer_manifest_digest" (by decide)
  obtain ⟨source, hsource⟩ := h.required "source" (by decide)
  obtain ⟨ts, hts⟩ := h.required "ts" (by decide)
  obtain ⟨aphelionHash, hbindA, haphelion⟩ :=
    bindOptional_of_get? (h.optional "aphelion_hash" (by decide))
  obtain ⟨localHash, hbindL, hlocal⟩ := bindOptional_of_get? (h.optional "local_hash" (by decide))
  obtain ⟨reasonCode, hbindR, hreason⟩ :=
    bindOptional_of_get? (h.optional "reason_code" (by decide))
  refine ⟨⟨claimId, messageId, outcome, packageId, sessionId, signerId, digest, source, ts,
    aphelionHash, localHash, reasonCode⟩, ?_, StoredRow.perm_items h.fields ?_ ?_⟩
  · simp [bindRow, bindText_of_get? hclaim, bindText_of_get? hmessage, bindText_of_get? houtcome,
      bindText_of_get? hpackage, bindText_of_get? hsession, bindText_of_get? hsigner,
      bindText_of_get? hdigest, bindText_of_get? hsource, bindText_of_get? hts, hbindA, hbindL,
      hbindR]
  · simp [StoredRow.requiredItems, hclaim, hmessage, houtcome, hpackage, hsession, hsigner,
      hdigest, hsource, hts]
  · simp [StoredRow.optionalItems, haphelion, hlocal, hreason]

/-! ## The digest of a row -/

/-- `AuditRow.sha256_hex`. -/
def AuditRow.sha256Hex (D : HexDigest) (row : AuditRow) : Except ValueError String :=
  (canonicalDumps D (.obj row.data.items)).map D.sha256

/-- The digest of a row as the database returns it. -/
def StoredRow.sha256Hex (D : HexDigest) (row : StoredRow) : Except ValueError String :=
  (canonicalDumps D (.obj row.items)).map D.sha256

/-- An accepted row is stored as a row with its digest. -/
theorem bindRow_of_canonicalizeRow {data : Dict Json} {r : AuditRow}
    (h : canonicalizeRow py data = .ok r) :
    ∃ row, bindRow data = some row ∧ bindRow r.data = some row ∧ r.data.items.Perm row.items := by
  obtain ⟨rfl, hwf⟩ := canonicalizeRow_wellFormed h
  obtain ⟨row, hbind, hperm⟩ := bindRow_of_wellFormed hwf
  exact ⟨row, (bindRow_cleaned data).symm.trans hbind, hbind, hperm⟩

/-- The exceptions of the `aphelion` package and of the operating system that callers tell apart. -/
inductive AphelionError where
  | fileNotFound
  | permission
  | os
  | tar
  | security
  | verification
  | semantic
  | signerVerification (code : String)
  | schema (code : String)
  | other (name : String)
  deriving DecidableEq

/-- The exceptions of the audit chain and of its callers. -/
inductive Exc where
  | sqlite (e : SqliteError)
  | auditDbUsage (msg : String)
  | auditDbWrite (msg : String)
  | auditRow (e : RowError)
  | auditWriteOrder
  | value (e : ValueError)
  | aphelionUnreachable (reason : String)
  | parallaxIngest (reasonCode : String)
  | aphelion (e : AphelionError)
  | other (name : String)
  deriving DecidableEq

instance : SqliteExc Exc where
  ofSqlite := .sqlite
  sqlite?
    | .sqlite e => some e
    | _ => none
  sqlite?_ofSqlite _ := rfl

variable {τ : Type}

/-- `assert_audit_row_committed`. -/
def assertAuditRowCommitted {σ : Type} (committed : Bool) : Act σ Exc Unit :=
  if committed then pure () else throw .auditWriteOrder

/-- `canonicalize_row(dict(row.data))`, once more. -/
def revalidate {σ : Type} (py : PyText) (row : AuditRow) : Act σ Exc Unit := do
  let _ ← Act.ofExcept ((canonicalizeRow py row.data).mapError .auditRow)
  pure ()

/-- The `INSERT` of a row that has been validated. -/
def insertAuditRow (row : AuditRow) : Act (Session AuditTable τ) Exc Unit :=
  match bindRow row.data with
  | some stored => Sqlite.execute (insertRow stored)
  | none => throw (.sqlite .otherError)

def writeAuditRow (py : PyText) (row : AuditRow) : Act (Session AuditTable τ) Exc Unit := do
  if ← Act.look Session.inTransaction then
    throw (.auditDbUsage "write_audit_row requires a connection in autocommit state")
  else
    revalidate py row
    Sqlite.transaction (.auditDbWrite "audit_db begin-immediate failed (locked or busy)")
      (.auditDbWrite "audit_db commit failed (disk full or locked)") (insertAuditRow row)

/-- The loop over the rows of a batch. -/
def insertAuditRows (py : PyText) : List AuditRow → Act (Session AuditTable τ) Exc Unit
  | [] => pure ()
  | row :: rows => do
    revalidate py row
    insertAuditRow row
    insertAuditRows py rows

def writeAuditRowsAtomic (py : PyText) (rows : List AuditRow) :
    Act (Session AuditTable τ) Exc Unit := do
  if rows.isEmpty then pure ()
  else if ← Act.look Session.inTransaction then
    throw (.auditDbUsage "write_audit_rows_atomic requires a connection in autocommit state")
  else
    Sqlite.transaction (.auditDbWrite "audit_db begin-immediate failed (locked or busy)")
      (.auditDbWrite "audit_db batch commit failed (disk full or locked)")
      (insertAuditRows py rows)
    assertAuditRowCommitted true

/-! ## What the writers do -/

/-- The row that is stored for a row that the validation accepts. -/
def accepted (py : PyText) (row : AuditRow) : Option StoredRow :=
  match canonicalizeRow py row.data with
  | .ok _ => bindRow row.data
  | .error _ => none

/-- From a table and the answers to the next statements: every row of a batch goes in, or the first
that does not is valid and refused for its integrity. -/
def OnlyIntegrity (py : PyText) : List Answer → AuditTable → List AuditRow → Prop
  | _, _, [] => True
  | answers, table, row :: rows =>
    ∃ stored, accepted py row = some stored ∧
      match answers.head? with
      | some (.raises e _) => e = .integrityError
      | _ =>
        match insertRow stored table with
        | .ok table' => OnlyIntegrity py answers.tail table' rows
        | .error _ => True

/-- A row fails in another way. -/
def RowFault (e : Exc) : Prop := (∃ x, e = .auditRow x) ∨ ∃ q, q ≠ .integrityError ∧ e = .sqlite q

open Act Sqlite

variable {J : AuditTable → τ → Prop} {s : Session AuditTable τ} {row : AuditRow}

theorem accepted_eq_some {stored : StoredRow} :
    accepted py row = some stored ↔
      (∃ r, canonicalizeRow py row.data = .ok r) ∧ bindRow row.data = some stored := by
  unfold accepted
  cases canonicalizeRow py row.data with
  | ok r => simp
  | error e => simp

theorem accepted_of_canonicalizeRow {r : AuditRow} (h : canonicalizeRow py row.data = .ok r) :
    ∃ stored, accepted py row = some stored := by
  obtain ⟨stored, hbind, -⟩ := bindRow_of_canonicalizeRow h
  exact ⟨stored, accepted_eq_some.2 ⟨⟨r, h⟩, hbind⟩⟩

theorem insertRow_eq_ok {stored : StoredRow} {table table' : AuditTable}
    (h : insertRow stored table = .ok table') :
    table' = table ++ [stored] ∧ stored.envelopeMessageId ∉ table.map (·.envelopeMessageId) := by
  unfold insertRow at h
  split_ifs at h with hrow
  exact ⟨(Except.ok.inj h).symm, hrow.2⟩

theorem insertRow_eq_error {stored : StoredRow} {table : AuditTable} {e : SqliteError}
    (h : insertRow stored table = .error e) : e = .integrityError := by
  unfold insertRow at h
  split_ifs at h
  exact (Except.error.inj h).symm

theorem keeps_revalidate {I : Session AuditTable τ → Prop} {Q : Except Exc Unit → _ → Prop}
    (hok : ∀ stored, accepted py row = some stored → Q (.ok ()) s)
    (herror : accepted py row = none → ∀ e, Q (.error (.auditRow e)) s) :
    Keeps I (revalidate py row) s Q := by
  cases h : canonicalizeRow py row.data with
  | ok r =>
    obtain ⟨stored, hstored⟩ := accepted_of_canonicalizeRow h
    have hrun : revalidate py row = (pure () : Act (Session AuditTable τ) Exc Unit) := by
      simp [revalidate, h]
      rfl
    rw [hrun]
    exact keeps_pure (hok stored hstored)
  | error e =>
    have hrun : revalidate py row = (throw (.auditRow e) : Act (Session AuditTable τ) Exc Unit) := by
      simp [revalidate, h]
      rfl
    rw [hrun]
    exact keeps_throw (herror (by simp [accepted, h]) e)

theorem keeps_insertAuditRow {stored : StoredRow} {table : AuditTable}
    (hbind : bindRow row.data = some stored) (hs : s.conn.working = some table)
    (hJ : J s.conn.db s.own) :
    Keeps (fun t => J t.conn.db t.own) (insertAuditRow row) s fun r t =>
      t.conn.db = s.conn.db ∧ t.own = s.own ∧ t.answers = s.answers.tail ∧
      ((r = .ok () ∧ ¬ s.NextRaises ∧
          ∃ table', insertRow stored table = .ok table' ∧ t.conn.working = some table') ∨
        ∃ e, r = .error (.sqlite e) ∧
          ((∃ rolledBack, s.answers.head? = some (.raises e rolledBack)) ∨
            (¬ s.NextRaises ∧ insertRow stored table = .error e))) := by
  unfold insertAuditRow
  rw [hbind]
  exact keeps_execute hs hJ

section OnlyIntegrity

variable {stored : StoredRow} {answers : List Answer} {table : AuditTable} {rows : List AuditRow}

theorem onlyIntegrity_raises {e : SqliteError} {rolledBack : Bool}
    (hrow : accepted py row = some stored) (hhead : answers.head? = some (.raises e rolledBack)) :
    OnlyIntegrity py answers table (row :: rows) ↔ e = .integrityError := by
  simp [OnlyIntegrity, hrow, hhead]

theorem onlyIntegrity_refused {e : SqliteError} (hrow : accepted py row = some stored)
    (hhead : ¬ ∃ e rolledBack, answers.head? = some (.raises e rolledBack))
    (hinsert : insertRow stored table = .error e) :
    OnlyIntegrity py answers table (row :: rows) := by
  refine ⟨stored, hrow, ?_⟩
  split
  · exact absurd ⟨_, _, ‹_›⟩ hhead
  · simp [hinsert]

theorem onlyIntegrity_inserted {table' : AuditTable} (hrow : accepted py row = some stored)
    (hhead : ¬ ∃ e rolledBack, answers.head? = some (.raises e rolledBack))
    (hinsert : insertRow stored table = .ok table') :
    OnlyIntegrity py answers table (row :: rows) ↔
      OnlyIntegrity py answers.tail table' rows := by
  simp only [OnlyIntegrity, hrow, Option.some.injEq, exists_eq_left', hinsert]
  split
  · exact absurd ⟨_, _, ‹_›⟩ hhead
  · rfl

end OnlyIntegrity

/-- The loop over a batch stops at the first row that does not go in. -/
theorem keeps_insertAuditRows (rows : List AuditRow) {s : Session AuditTable τ} {table : AuditTable}
    (hs : s.conn.working = some table) (hJ : J s.conn.db s.own) :
    Keeps (fun t => J t.conn.db t.own) (insertAuditRows py rows) s fun r t =>
      t.conn.db = s.conn.db ∧ t.own = s.own ∧
      ((r = .ok () ∧ OnlyIntegrity py s.answers table rows ∧ ∃ stored,
          rows.map (accepted py) = stored.map some ∧ t.conn.working = some (table ++ stored)) ∨
        (r = .error (.sqlite .integrityError) ∧ OnlyIntegrity py s.answers table rows) ∨
        ∃ e, r = .error e ∧ RowFault e ∧ ¬ OnlyIntegrity py s.answers table rows) := by
  induction rows generalizing s table with
  | nil => exact keeps_pure ⟨rfl, rfl, .inl ⟨rfl, trivial, [], rfl, by simpa using hs⟩⟩
  | cons row rows ih =>
    refine keeps_bind (Q := fun r t => t = s ∧
        ((r = .ok () ∧ ∃ stored, accepted py row = some stored) ∨
          (accepted py row = none ∧ ∃ e, r = .error (.auditRow e)))) (keeps_revalidate ?_ ?_) ?_ ?_
    · intro stored hstored
      exact ⟨rfl, .inl ⟨rfl, stored, hstored⟩⟩
    · intro hnone e
      exact ⟨rfl, .inr ⟨hnone, e, rfl⟩⟩
    · rintro a t ⟨rfl, ⟨-, stored, hstored⟩ | ⟨-, e, h⟩⟩
      · refine keeps_bind (keeps_insertAuditRow (accepted_eq_some.1 hstored).2 hs hJ) ?_ ?_
        · rintro a u ⟨hdb, hown, hanswers, ⟨-, hnext, table', hinsert, hw⟩ | ⟨e, h, -⟩⟩
          · obtain ⟨rfl, -⟩ := insertRow_eq_ok hinsert
            refine (ih hw (by rwa [hdb, hown])).mono ?_
            rintro r v ⟨hdb', hown', hcases⟩
            rw [hanswers, ← onlyIntegrity_inserted hstored hnext hinsert] at hcases
            refine ⟨hdb'.trans hdb, hown'.trans hown, ?_⟩
            obtain ⟨hr, honly, rest, hrest, hw'⟩ | h := hcases
            · exact .inl ⟨hr, honly, stored :: rest, by simp [hstored, hrest], by simpa using hw'⟩
            · exact .inr h
          · cases h
        · rintro e u ⟨hdb, hown, -, ⟨h, -⟩ | ⟨e', he, hreason⟩⟩
          · cases h
          obtain rfl : e = .sqlite e' := by simpa using he
          refine ⟨hdb, hown, .inr ?_⟩
          obtain ⟨rolledBack, hhead⟩ | ⟨hnext, hinsert⟩ := hreason
          · by_cases hintegrity : e' = .integrityError
            · subst hintegrity
              exact .inl ⟨rfl, (onlyIntegrity_raises hstored hhead).2 rfl⟩
            · refine .inr ⟨_, rfl, .inr ⟨e', hintegrity, rfl⟩, fun honly => hintegrity ?_⟩
              exact (onlyIntegrity_raises hstored hhead).1 honly
          · obtain rfl := insertRow_eq_error hinsert
            exact .inl ⟨rfl, onlyIntegrity_refused hstored hnext hinsert⟩
      · cases h
    · rintro e t ⟨rfl, ⟨h, -⟩ | ⟨hnone, e', he⟩⟩
      · cases h
      · refine ⟨rfl, rfl, .inr (.inr ⟨e, rfl, .inl ⟨e', by simpa using he⟩, ?_⟩)⟩
        rintro ⟨stored, hstored, -⟩
        simp [hnone] at hstored

/-- The failures of a batch that its caller knows. -/
def Known (e : Exc) : Prop := e = .sqlite .integrityError ∨ ∃ msg, e = .auditDbWrite msg

/-- The other failures of a batch. -/
def Unknown (e : Exc) : Prop := RowFault e ∨ ∃ msg, e = .auditDbUsage msg

/-- The connection is outside a transaction, and if `BEGIN` succeeds then the first row that does
not go in, if any, is valid and refused for its integrity. -/
def OnlyKnown (py : PyText) (rows : List AuditRow) (s : Session AuditTable τ) : Prop :=
  s.inTransaction = false ∧ (s.NextRaises ∨ OnlyIntegrity py s.answers.tail s.conn.db rows)

/-- How the write of a batch ends: it commits the accepted rows in order, or it raises and leaves
the connection as it was. -/
theorem keeps_writeAuditRowsAtomic {rows : List AuditRow} (hrows : rows ≠ [])
    (hJ : J s.conn.db s.own)
    (hcommit : ∀ stored, rows.map (accepted py) = stored.map some → J (s.conn.db ++ stored) s.own) :
    Keeps (fun t => J t.conn.db t.own) (writeAuditRowsAtomic py rows) s fun r t =>
      t.own = s.own ∧
      ((r = .ok () ∧ OnlyKnown py rows s ∧ ∃ stored, rows.map (accepted py) = stored.map some ∧
          t.conn = ⟨s.conn.db ++ stored, none⟩) ∨
        ∃ e, r = .error e ∧ t.conn = s.conn ∧
          ((Known e ∧ OnlyKnown py rows s) ∨ (Unknown e ∧ ¬ OnlyKnown py rows s))) := by
  have hempty : rows.isEmpty = false := by simpa using hrows
  unfold writeAuditRowsAtomic
  rw [hempty]
  refine keeps_bind (Q := fun r t => r = .ok s.inTransaction ∧ t = s) (keeps_look ⟨rfl, rfl⟩) ?_
    (by rintro e t ⟨h, -⟩; cases h)
  rintro a t ⟨ha, rfl⟩
  obtain rfl : a = t.inTransaction := by simpa using ha
  by_cases hin : t.inTransaction = true
  · rw [if_pos hin]
    refine keeps_throw ⟨rfl, .inr ⟨_, rfl, rfl, .inr ⟨.inr ⟨_, rfl⟩, ?_⟩⟩⟩
    rintro ⟨hout, -⟩
    rw [hin] at hout
    cases hout
  rw [if_neg hin]
  have hout : t.inTransaction = false := by simpa using hin
  have hclosed : t.conn.working = none := by simpa [Session.inTransaction] using hin
  have hsame : (⟨t.conn.db, none⟩ : Prog.Conn AuditTable) = t.conn := by rw [← hclosed]
  refine keeps_bind (keeps_transaction hclosed hJ
    (fun _ => keeps_insertAuditRows rows rfl hJ) ?_ ?_) ?_ ?_
  · rintro r v ⟨hdb, hown, -⟩
    exact ⟨hdb, hown⟩
  · rintro v ⟨-, -, ⟨-, -, stored, hstored, hw⟩ | ⟨h, -⟩ | ⟨e, h, -⟩⟩
    · exact ⟨_, hw, hcommit stored hstored⟩
    · cases h
    · cases h
  · rintro a ⟨⟨db, working⟩, answers, own⟩ ⟨hnone, hown, hended⟩
    obtain rfl : working = none := hnone
    refine keeps_pure ⟨hown, .inl ⟨rfl, ?_⟩⟩
    cases hended with
    | committed hnext hv hw =>
      obtain ⟨-, -, ⟨-, honly, stored, hstored, hw'⟩ | ⟨h, -⟩ | ⟨e, h, -⟩⟩ := hv
      · obtain rfl := Option.some.inj (hw.symm.trans hw')
        exact ⟨⟨hout, .inr honly⟩, stored, hstored, rfl⟩
      · cases h
      · cases h
  · rintro e ⟨⟨db, working⟩, answers, own⟩ ⟨hnone, hown, hended⟩
    obtain rfl : working = none := hnone
    refine ⟨hown, .inr ⟨e, rfl, ?_⟩⟩
    cases hended with
    | notBegun hnext => exact ⟨hsame, .inl ⟨.inr ⟨_, rfl⟩, hout, .inl hnext⟩⟩
    | failed hnext hv =>
      refine ⟨hsame, ?_⟩
      obtain ⟨-, -, ⟨h, -⟩ | ⟨he, honly⟩ | ⟨e', he, hfault, honly⟩⟩ := hv
      · cases h
      · obtain rfl : e = .sqlite .integrityError := by simpa using he
        exact .inl ⟨.inl rfl, hout, .inr honly⟩
      · obtain rfl : e = e' := by simpa using he
        exact .inr ⟨.inl hfault, fun h => h.2.elim hnext honly⟩
    | notCommitted hnext hv =>
      refine ⟨hsame, .inl ⟨.inr ⟨_, rfl⟩, hout, .inr ?_⟩⟩
      obtain ⟨-, -, ⟨-, honly, -⟩ | ⟨h, -⟩ | ⟨e, h, -⟩⟩ := hv
      · exact honly
      · cases h
      · cases h

end ParallaxKernel.Apex
