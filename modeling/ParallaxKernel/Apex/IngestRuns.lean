import ParallaxKernel.Apex.AphelionIngest

/-!
# Runs of the ingest pipeline

What a run of `ingest_package` commits, and from which content of the package file. A run that
raises changes nothing; the rows that a run commits come from the content that was in place when the
file was opened for the third time.
-/

namespace ParallaxKernel.Apex

open Lib Act Sqlite

variable {Tar Bytes : Type} {lib : AphelionLib Tar Bytes} {py : PyText} {args : IngestArgs Bytes}
variable {s t : Session AuditTable (Drop Tar)}

/-! ## Rows -/

theorem bindRow_rowData {claimId messageId packageId sessionId timestamp : String}
    {envelope : SignatureEnvelope} {row : StoredRow}
    (h : bindRow (rowData claimId messageId packageId sessionId envelope timestamp) = some row) :
    row.packageId = packageId ∧ row.claimId = claimId := by
  have hrow : bindRow (rowData claimId messageId packageId sessionId envelope timestamp) =
      some ⟨claimId, messageId, "hit", packageId, sessionId, envelope.signerId,
        envelope.packageCanonicalHash, "aphelion", timestamp, none, none, none⟩ := rfl
  obtain rfl := Option.some.inj (h.symm.trans hrow)
  exact ⟨rfl, rfl⟩

/-- The rows that are stored for a batch name the package and the claims in order. -/
theorem stored_of_canonicalRows {packageId : String} {envelope : SignatureEnvelope} {n : Nat}
    {claims : List (String × List (String × Json))} {rows : List AuditRow}
    {stored : List StoredRow}
    (hrows : canonicalRows py args packageId envelope n claims = .ok rows)
    (hstored : rows.map (accepted py) = stored.map some) :
    stored.map (fun row => (row.packageId, row.claimId)) =
      claims.map fun claim => (packageId, claim.1) := by
  induction claims generalizing n rows stored with
  | nil =>
    obtain rfl : [] = rows := Except.ok.inj hrows
    obtain rfl : stored = [] := by simpa using hstored
    rfl
  | cons claim claims ih =>
    obtain ⟨claimId, fm⟩ := claim
    obtain ⟨row, hrow, hloop⟩ := except_bind_eq_ok.1 hrows
    obtain ⟨rest, hrest, hcons⟩ := except_bind_eq_ok.1 hloop
    obtain rfl : row :: rest = rows := Except.ok.inj hcons
    cases stored with
    | nil => cases hstored
    | cons first stored =>
      obtain ⟨hfirst, hstored⟩ := List.cons.inj hstored
      have hdata : row.data = cleaned (rowData claimId (args.uuid4 n) packageId args.sessionId
          envelope args.now.isoZ) := by
        cases hc : canonicalizeRow py (rowData claimId (args.uuid4 n) packageId args.sessionId
            envelope args.now.isoZ) with
        | ok r =>
          rw [hc] at hrow
          obtain rfl : r = row := Except.ok.inj hrow
          rw [(canonicalizeRow_wellFormed hc).1]
        | error e =>
          rw [hc] at hrow
          cases hrow
      have hbind := (accepted_eq_some.1 hfirst).2
      rw [hdata, bindRow_cleaned] at hbind
      obtain ⟨hpackage, hclaim⟩ := bindRow_rowData hbind
      rw [List.map_cons, List.map_cons, ih hrest hstored, hpackage, hclaim]

theorem canonicalRows_length {packageId : String} {envelope : SignatureEnvelope} {n : Nat}
    {claims : List (String × List (String × Json))} {rows : List AuditRow}
    (hrows : canonicalRows py args packageId envelope n claims = .ok rows) :
    rows.length = claims.length := by
  induction claims generalizing n rows with
  | nil =>
    obtain rfl : [] = rows := Except.ok.inj hrows
    rfl
  | cons claim claims ih =>
    obtain ⟨row, -, hloop⟩ := except_bind_eq_ok.1 hrows
    obtain ⟨rest, hrest, hcons⟩ := except_bind_eq_ok.1 hloop
    obtain rfl : row :: rest = rows := Except.ok.inj hcons
    rw [List.length_cons, List.length_cons, ih hrest]

theorem claimsOf_ne_nil {tar : Tar} {packageId : String}
    {claims : List (String × List (String × Json))}
    (h : claimsOf lib tar = .ok (packageId, claims)) : claims ≠ [] := by
  obtain ⟨unpacked, -, h⟩ := except_bind_eq_ok.1 h
  obtain ⟨manifest, -, h⟩ := except_bind_eq_ok.1 h
  obtain ⟨id, -, h⟩ := except_bind_eq_ok.1 h
  obtain ⟨parsed, hparsed, h⟩ := except_bind_eq_ok.1 h
  cases h
  unfold parseClaims at hparsed
  split at hparsed
  · rename_i entry entries _
    obtain ⟨pairs, hpairs, h⟩ := except_bind_eq_ok.1 hparsed
    obtain ⟨u, -, h⟩ := except_bind_eq_ok.1 h
    cases h
    rintro rfl
    rw [List.mapM_cons] at hpairs
    obtain ⟨first, -, h⟩ := except_bind_eq_ok.1 hpairs
    obtain ⟨rest, -, h⟩ := except_bind_eq_ok.1 h
    cases h
  · cases hparsed

/-! ## What a run changes -/

/-- Neither the rows nor the index have changed. -/
def Untouched (s t : Session AuditTable (Drop Tar)) : Prop :=
  t.conn.db = s.conn.db ∧ t.own.index = s.own.index

def entriesOf (drop : Drop Tar) : List IndexEntry := (drop.index.map (·.entries)).getD []

/-- What is new in the rows and in the index comes from one content of the package file. -/
def ComesFrom (lib : AphelionLib Tar Bytes) (s t : Session AuditTable (Drop Tar)) (tar : Tar) :
    Prop :=
  ∃ packageId claims, claimsOf lib tar = .ok (packageId, claims) ∧
    (∃ rows, t.conn.db = s.conn.db ++ rows ∧
      rows.map (fun row => (row.packageId, row.claimId)) =
        claims.map fun claim => (packageId, claim.1)) ∧
    ∀ entry ∈ entriesOf t.own, entry ∈ entriesOf s.own ∨
      (entry.packageId = packageId ∧ (entry.claimId, entry.subject) ∈ subjectsOf claims)

/-- The gates of verification and of trust, for the contents that they read. -/
def Gates (lib : AphelionLib Tar Bytes) (args : IngestArgs Bytes) (verified checked : Tar) : Prop :=
  ∃ trusted envelope, loadTrustStore lib args.isEmpty args.pems = .ok trusted ∧
    verifySingle lib verified = .ok envelope ∧ verifyTrust lib trusted envelope checked = .ok ()

theorem keeps_writeBatch {J : AuditTable → Drop Tar → Prop} {rows : List AuditRow}
    (hrows : rows ≠ []) (hJ : J s.conn.db s.own)
    (hcommit : ∀ stored, rows.map (accepted py) = stored.map some → J (s.conn.db ++ stored) s.own) :
    Keeps (fun t => J t.conn.db t.own) (writeBatch py rows) s fun r t =>
      t.own = s.own ∧
      ((r = .ok rows.length ∧ OnlyKnown py rows s ∧ ∃ stored,
          rows.map (accepted py) = stored.map some ∧ t.conn = ⟨s.conn.db ++ stored, none⟩) ∨
        ∃ e, r = .error e ∧ t.conn = s.conn ∧
          ((∃ code, e = .parallaxIngest code) ↔ OnlyKnown py rows s)) := by
  refine keeps_bind (Q := fun r t => t.own = s.own ∧
      ((r = .ok () ∧ OnlyKnown py rows s ∧ ∃ stored,
          rows.map (accepted py) = stored.map some ∧ t.conn = ⟨s.conn.db ++ stored, none⟩) ∨
        ∃ e, r = .error e ∧ t.conn = s.conn ∧
          ((∃ code, e = .parallaxIngest code) ↔ OnlyKnown py rows s)))
    (keeps_tryCatch (keeps_writeAuditRowsAtomic hrows hJ hcommit) ?_ ?_) ?_ ?_
  · rintro a t ⟨hown, ⟨-, hdone⟩ | ⟨e, h, -⟩⟩
    · exact ⟨hown, .inl ⟨rfl, hdone⟩⟩
    · cases h
  · rintro e t ⟨hown, ⟨h, -⟩ | ⟨e', he, hconn, hcases⟩⟩
    · cases h
    obtain rfl : e = e' := by simpa using he
    obtain ⟨hknown, honly⟩ | ⟨hunknown, honly⟩ := hcases
    · obtain rfl | ⟨msg, rfl⟩ := hknown
      · exact keeps_throw ⟨hown, .inr ⟨_, rfl, hconn, iff_of_true ⟨_, rfl⟩ honly⟩⟩
      · exact keeps_throw ⟨hown, .inr ⟨_, rfl, hconn, iff_of_true ⟨_, rfl⟩ honly⟩⟩
    · obtain (⟨x, rfl⟩ | ⟨q, hq, rfl⟩) | ⟨msg, rfl⟩ := hunknown
      · exact keeps_throw ⟨hown, .inr ⟨_, rfl, hconn, iff_of_false (by simp) honly⟩⟩
      · cases q with
        | integrityError => exact absurd rfl hq
        | operationalError =>
          exact keeps_throw ⟨hown, .inr ⟨_, rfl, hconn, iff_of_false (by simp) honly⟩⟩
        | otherError =>
          exact keeps_throw ⟨hown, .inr ⟨_, rfl, hconn, iff_of_false (by simp) honly⟩⟩
      · exact keeps_throw ⟨hown, .inr ⟨_, rfl, hconn, iff_of_false (by simp) honly⟩⟩
  · rintro a t ⟨hown, ⟨-, hdone⟩ | ⟨e, h, -⟩⟩
    · exact keeps_pure ⟨hown, .inl ⟨rfl, hdone⟩⟩
    · cases h
  · rintro e t ⟨hown, ⟨h, -⟩ | ⟨e', he, hfailed⟩⟩
    · cases h
    · obtain rfl : e = e' := by simpa using he
      exact ⟨hown, .inr ⟨e, rfl, hfailed⟩⟩

/-- From the batch of one content on: its rows, then its entries of the index, or nothing. -/
theorem keeps_commitBatch {envelope : SignatureEnvelope} {tar : Tar} {batch : ClaimMappingBatch}
    (hbatch : buildBatch lib py args envelope tar = .ok batch) :
    Keeps (fun t => t.own.opened = s.own.opened ∧ (Untouched s t ∨ ComesFrom lib s t tar))
      (commitBatch py args batch) s fun r t => ∀ e, r = .error e → Untouched s t := by
  obtain ⟨⟨packageId, claims⟩, hclaims, h⟩ := except_bind_eq_ok.1 hbatch
  obtain ⟨rows, hrows, h⟩ := except_bind_eq_ok.1 h
  obtain rfl := Except.ok.inj h
  have hne : rows ≠ [] := by
    rintro rfl
    exact claimsOf_ne_nil hclaims (List.length_eq_zero_iff.1 (canonicalRows_length hrows).symm)
  have hnew (stored : List StoredRow) (hstored : rows.map (accepted py) = stored.map some)
      (t : Session AuditTable (Drop Tar)) (hdb : t.conn.db = s.conn.db ++ stored)
      (hindex : ∀ entry ∈ entriesOf t.own, entry ∈ entriesOf s.own ∨
        (entry.packageId = packageId ∧ (entry.claimId, entry.subject) ∈ subjectsOf claims)) :
      ComesFrom lib s t tar :=
    ⟨packageId, claims, hclaims, ⟨stored, hdb, stored_of_canonicalRows hrows hstored⟩, hindex⟩
  refine keeps_bind (keeps_writeBatch (J := fun db own => own.opened = s.own.opened ∧
    (Untouched s ⟨⟨db, none⟩, [], own⟩ ∨ ComesFrom lib s ⟨⟨db, none⟩, [], own⟩ tar)) hne ?_ ?_) ?_ ?_
  · exact ⟨rfl, .inl ⟨rfl, rfl⟩⟩
  · intro stored hstored
    exact ⟨rfl, .inr (hnew stored hstored _ rfl fun entry h => .inl h)⟩
  · rintro n t ⟨hown, ⟨-, -, stored, hstored, hconn⟩ | ⟨e, h, -⟩⟩
    · refine keeps_bind (keeps_modify ?_ (Q := fun r _ => r = .ok ()) rfl) ?_ ?_
      · have hdb : t.conn.db = s.conn.db ++ stored := by rw [hconn]
        cases args.indexSaved with
        | true =>
          refine ⟨by simp [hown], .inr (hnew stored hstored _ hdb ?_)⟩
          intro entry hentry
          obtain h | ⟨hpackage, -, hsubject⟩ := mem_updateIndex hentry
          · rw [hown] at h
            exact .inl h
          · exact .inr ⟨hpackage, hsubject⟩
        | false =>
          refine ⟨by simp [hown], .inr (hnew stored hstored _ hdb ?_)⟩
          intro entry hentry
          exact .inl (by simpa [hown] using hentry)
      · intro a u h
        exact keeps_pure fun e h => by cases h
      · intro e u h
        cases h
    · cases h
  · rintro e t ⟨hown, ⟨h, -⟩ | ⟨e', -, hconn, -⟩⟩
    · cases h
    · intro _ _
      exact ⟨by rw [hconn], by rw [hown]⟩

/-! ## Runs -/

/-- What the package file is when it is opened for the first, the second and the third time. -/
def firstRead (drop : Drop Tar) : Tar := drop.reopened.file

def secondRead (drop : Drop Tar) : Tar := drop.reopened.reopened.file

def thirdRead (drop : Drop Tar) : Tar := drop.reopened.reopened.reopened.file

/-- A run that raises changes nothing, and what a run commits comes from its third read. -/
theorem keeps_ingestPackage :
    Keeps (fun t => Untouched s t ∨ (t.own.opened.getLast? = some (thirdRead s.own) ∧
        Gates lib args (firstRead s.own) (secondRead s.own) ∧ ComesFrom lib s t (thirdRead s.own)))
      (ingestPackage lib py args) s fun r t => ∀ e, r = .error e → Untouched s t := by
  refine keeps_ofExcept_bind (fun _ _ => ?_) fun e _ _ _ => ⟨rfl, rfl⟩
  refine keeps_ofExcept_bind (fun _ _ => ?_) fun e _ _ _ => ⟨rfl, rfl⟩
  refine keeps_ofExcept_bind (fun trusted htrusted => ?_) fun e _ _ _ => ⟨rfl, rfl⟩
  refine keeps_ofExcept_bind (fun _ _ => ?_) fun e _ _ _ => ⟨rfl, rfl⟩
  refine keeps_step_bind rfl (.inl ⟨rfl, rfl⟩) ?_
  refine keeps_ofExcept_bind (fun envelope henvelope => ?_) fun e _ _ _ => ⟨rfl, rfl⟩
  refine keeps_step_bind rfl (.inl ⟨rfl, rfl⟩) ?_
  refine keeps_ofExcept_bind (fun _ htrust => ?_) fun e _ _ _ => ⟨rfl, rfl⟩
  refine keeps_step_bind rfl (.inl ⟨rfl, rfl⟩) ?_
  refine keeps_ofExcept_bind (fun batch hbatch => ?_) fun e _ _ _ => ⟨rfl, rfl⟩
  refine ((keeps_commitBatch hbatch).mono_inv ?_).mono ?_
  · rintro t ⟨hopened, h | h⟩
    · exact .inl h
    · refine .inr ⟨?_, ⟨trusted, envelope, htrusted, henvelope, htrust⟩, h⟩
      rw [hopened]
      exact List.getLast?_concat
  · intro r t h
    exact h

/-! ## One content for all -/

/-- What is promised of a batch: the write commits its accepted rows in order or leaves the table
and no transaction, each of its failures has a reason code, and a run that fails changes neither the
rows nor the index. -/
structure BatchGuarantee (lib : AphelionLib Tar Bytes) (py : PyText) (args : IngestArgs Bytes)
    (rows : List AuditRow) (s : Session AuditTable (Drop Tar)) : Prop where
  atomic : let run := writeAuditRowsAtomic py rows s
    (run.result = .ok () ∧ ∃ stored, rows.map (accepted py) = stored.map some ∧
      run.final.conn = ⟨s.conn.db ++ stored, none⟩) ∨
    ∃ e, run.result = .error e ∧ run.final.conn = ⟨s.conn.db, none⟩
  mapped : ∀ e, (writeBatch py rows s).result = .error e → ∃ code, e = .parallaxIngest code
  unchanged : ∀ e, (ingestPackage lib py args s).result = .error e →
    Untouched s (ingestPackage lib py args s).final

/-- The guarantee holds exactly when the connection is outside a transaction and, where `BEGIN` succeeds,
the first row that does not go in, if any, is valid and refused for its integrity. -/
theorem batchGuarantee_iff (lib : AphelionLib Tar Bytes) (py : PyText) (args : IngestArgs Bytes)
    (row : AuditRow) (rows : List AuditRow) (s : Session AuditTable (Drop Tar)) :
    BatchGuarantee lib py args (row :: rows) s ↔ OnlyKnown py (row :: rows) s := by
  have hwrite : Keeps (fun _ => True) (writeAuditRowsAtomic py (row :: rows)) s _ :=
    keeps_writeAuditRowsAtomic (J := fun _ _ => True) (List.cons_ne_nil row rows) trivial
      fun _ _ => trivial
  have hbatch : Keeps (fun _ => True) (writeBatch py (row :: rows)) s _ :=
    keeps_writeBatch (J := fun _ _ => True) (List.cons_ne_nil row rows) trivial fun _ _ => trivial
  constructor
  · intro h
    obtain ⟨-, ⟨-, honly, -⟩ | ⟨e, he, -, hmapped⟩⟩ := hbatch.2
    · exact honly
    · exact hmapped.1 (h.mapped e he)
  · intro honly
    have hclosed : s.conn.working = none := by
      simpa [OnlyKnown, Session.inTransaction] using honly.1
    refine ⟨?_, ?_, fun e he => keeps_ingestPackage.2 e he⟩
    · obtain ⟨-, ⟨hok, -, hstored⟩ | ⟨e, he, hconn, -⟩⟩ := hwrite.2
      · exact .inl ⟨hok, hstored⟩
      · refine .inr ⟨e, he, ?_⟩
        rw [hconn, ← hclosed]
    · intro e he
      obtain ⟨-, ⟨hok, -⟩ | ⟨e', he', -, hmapped⟩⟩ := hbatch.2
      · rw [hok] at he
        cases he
      · obtain rfl : e' = e := by simpa using he'.symm.trans he
        exact hmapped.2 honly

/-! ## Two files -/

/-- Of the two files, the one that is `true` is signed by a trusted signer. -/
def AphelionLib.sample : AphelionLib Bool Json where
  verifyPackage signed := if signed then .ok [⟨"ann", ""⟩] else .error .verification
  extractSignerManifests _ := .ok [("ann", .obj [("signer_id", .str "ann"),
    ("algorithm", .str "ed25519"), ("public_key_b64", .str "AA=="), ("key_fingerprint", .str "f1")])]
  unpack signed := .ok {
    manifest := .ok (.obj [("package_id", .str "01963f7d-7000-7000-8000-0000000000aa"),
      ("claims", .arr [.obj [("path", .str "claims/tea.md"), ("claim_id", .str
        (if signed then "01963f7d-7000-7000-8000-000000000011"
        else "01963f7d-7000-7000-8000-000000000666"))]])])
    claim := fun _ => .ok "---" }
  canonicalLoads := .ok
  parseFrontmatter _ := .ok [("subject", .str "tea")]
  validateV03Fields _ := .ok ()
  computeKeyFingerprint _ := "f1"

def IngestArgs.sample : IngestArgs Json where
  packageDir := ⟨false, true, false, true, true⟩
  trustStoreDir := ⟨false, true, false, true, true⟩
  pems := some [.ok .null]
  isEmpty _ := false
  packagePath := ⟨"/drop/tea.aphelion.tar", "tea.aphelion.tar", true, true, false, true, true⟩
  sessionId := "ingest:1"
  now := ⟨2026, 5, 9, 14, 23, 11, 0, some 0⟩
  uuid4 _ := "7b0c5a52-3f0e-4d61-9c55-0a4f3f7d9b11"
  packages := []
  builtAt := .finite ⟨false, "0.0".toList, by decide⟩
  indexSaved := true

def sampleSession (writer : List (List Bool)) (answers : List Answer) :
    Session AuditTable (Drop Bool) :=
  ⟨⟨[], none⟩, answers, ⟨true, writer, [], none⟩⟩

def sampleRow : AuditRow where
  data := rowData "01963f7d-7000-7000-8000-000000000011" "7b0c5a52-3f0e-4d61-9c55-0a4f3f7d9b11"
    "01963f7d-7000-7000-8000-0000000000aa" "ingest:1" ⟨"ann", ""⟩ "2026-05-09T14:23:11Z"

/-- The disk is full at the `INSERT`: what escapes is not an error with a reason code. -/
theorem sample_diskFull :
    let s := sampleSession [] [.runs, .raises .operationalError true]
    (writeBatch .ascii [sampleRow] s).result = .error (.sqlite .operationalError) ∧
      ¬ BatchGuarantee .sample .ascii .sample [sampleRow] s := by
  have hraised : (writeBatch .ascii [sampleRow]
      (sampleSession [] [.runs, .raises .operationalError true])).result =
      .error (.sqlite .operationalError) := by decide +kernel
  refine ⟨hraised, fun h => ?_⟩
  obtain ⟨code, hcode⟩ := h.mapped _ hraised
  cases hcode

end ParallaxKernel.Apex
