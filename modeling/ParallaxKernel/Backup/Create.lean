import ParallaxKernel.Lib.Act
import ParallaxKernel.Lib.ExplicitTransaction
import ParallaxKernel.Lib.Json
import ParallaxKernel.Lib.Wal

/-!
# Backups

`backup.py`. A backup reads a live database at several moments: it checkpoints the log, counts rows,
hashes the file and copies it. Other connections may commit and checkpoint before each of these
steps. What the queries answer for the content of a database and the digest of a file are
parameters.
-/

namespace ParallaxKernel.Backup

open Lib Wal

/-! ## Manifests -/

/-- `_COUNTED_TABLES`. -/
def countedTables : List String :=
  ["sources", "memories", "claims", "decisions", "events", "index_state"]

/-- The queries of a manifest. -/
inductive Query where
  | schemaVersion
  | count (table : String)
  | distinctHashes (table : String)
  deriving DecidableEq

/-- `_row_counts`: the name of each count and its query. -/
def rowCountQueries : List (String × Query) := countedTables.map fun table => (table, .count table)

/-- `_content_hash_counts`. -/
def contentHashQueries : List (String × Query) :=
  [("memories_hash_count", .distinctHashes "memories"),
    ("claims_hash_count", .distinctHashes "claims")]

structure BackupManifest where
  parallaxVersion : String
  schemaVersion : Int
  createdAt : String
  dbSha256 : String
  rowCounts : List (String × Int)
  contentHashCounts : List (String × Int)
  deriving DecidableEq

def countsDict (counts : List (String × Int)) : Json :=
  .obj (counts.map fun count => (count.1, .int count.2))

/-- `to_dict`. -/
def BackupManifest.toDict (m : BackupManifest) : Json :=
  .obj [("parallax_version", .str m.parallaxVersion), ("schema_version", .int m.schemaVersion),
    ("created_at", .str m.createdAt), ("db_sha256", .str m.dbSha256),
    ("row_counts", countsDict m.rowCounts), ("content_hash_counts", countsDict m.contentHashCounts)]

def textOf : Option Json → Option String
  | some (.str s) => some s
  | _ => none

def intOf : Option Json → Option Int
  | some (.int n) => some n
  | _ => none

def countsOf : Option Json → Option (List (String × Int))
  | some (.obj ms) => ms.mapM fun m => (intOf (some m.2)).map fun n => (m.1, n)
  | _ => none

/-- `from_dict`, of a dictionary with values of the types that `to_dict` writes. -/
def BackupManifest.fromDict : Json → Option BackupManifest
  | .obj data => do
    return {
      parallaxVersion := ← textOf (Json.member? "parallax_version" data)
      schemaVersion := ← intOf (Json.member? "schema_version" data)
      createdAt := ← textOf (Json.member? "created_at" data)
      dbSha256 := ← textOf (Json.member? "db_sha256" data)
      rowCounts := ← countsOf (Json.member? "row_counts" data)
      contentHashCounts := ← countsOf (Json.member? "content_hash_counts" data) }
  | _ => none

theorem countsOf_countsDict (counts : List (String × Int)) :
    countsOf (some (countsDict counts)) = some counts := by
  simp only [countsOf, countsDict, List.mapM_map]
  induction counts with
  | nil => rfl
  | cons count counts ih =>
    rw [List.mapM_cons, ih]
    rfl

theorem fromDict_toDict (m : BackupManifest) : BackupManifest.fromDict m.toDict = some m := by
  simp only [BackupManifest.toDict, BackupManifest.fromDict]
  simp [Json.member?, textOf, intOf, countsOf_countsDict]

/-! ## Archives -/

/-- The type of a member of a tar file. -/
inductive MemberKind where
  | file
  | dir
  | link
  | special
  deriving DecidableEq

structure Member where
  name : String
  kind : MemberKind
  deriving DecidableEq

/-- What an archive holds: the database under `db/parallax.db`, the members below `vault` and the
parsed `manifest.json`. -/
structure Archive (Page : Type) where
  db : Option (MemberKind × List Page)
  vault : Option (List Member)
  manifest : Option Json

inductive BackupError where
  | fileNotFound
  | fileExists
  | runtime
  | sqlite (e : SqliteError)
  | tar
  | manifest
  | verification (diffs : List String)
  deriving DecidableEq

/-! ## The steps of a backup -/

variable {Page : Type} [Inhabited Page]

/-- A database, and what other connections do to it before each of the next steps. -/
structure Site (Page : Type) where
  disk : Disk Page
  others : List (List (Event Page))

/-- The database as the next step finds it. -/
def Site.found (s : Site Page) : Disk Page := (s.others.headD []).foldl Event.apply s.disk

/-- A step, after what other connections did before it. -/
def onDisk {α : Type} (f : Disk Page → Except BackupError α × Disk Page) :
    Act (Site Page) BackupError α :=
  .step fun s => ((f s.found).1, ⟨(f s.found).2, s.others.tail⟩)

/-- What the queries answer. -/
abbrev Sql (Page : Type) := Query → List Page → Except SqliteError Int

/-- What a backup finds beside the database: whether its path names a file or a link to one, whether
the archive is there already, the members that `tar.add` makes of the vault where that is a
directory, the row that the checkpoint answers, and whether the connection is the last one when it
is closed, so that SQLite checkpoints the log. -/
structure BackupArgs where
  isFile : Bool
  isLink : Bool
  archiveExists : Bool
  vault : Option (List Member)
  parallaxVersion : String
  createdAt : String
  checkpointRow : Except SqliteError (Option Int)
  lastToClose : Bool

section Create

variable (sql : Sql Page) (sha256 : List Page → String)

def close (lastToClose : Bool) : Act (Site Page) BackupError Unit :=
  onDisk fun d => (.ok (), if lastToClose then d.truncate else d)

/-- `try: p` with `finally: conn.close()`. -/
def closing {α : Type} (lastToClose : Bool) (p : Act (Site Page) BackupError α) :
    Act (Site Page) BackupError α :=
  p.andThen fun r => do
    close lastToClose
    Act.ofExcept r

/-- `_checkpoint_truncate`. -/
def checkpointTruncate (args : BackupArgs) : Act (Site Page) BackupError Unit := do
  let row ← closing args.lastToClose (onDisk fun d =>
    match args.checkpointRow with
    | .ok (some 0) => (.ok (some 0), d.truncate)
    | .ok row => (.ok row, d)
    | .error e => (.error (.sqlite e), d))
  if row = some 0 then pure () else throw .runtime

def query (q : Query) : Act (Site Page) BackupError Int :=
  onDisk fun d => ((sql q d.effective).mapError .sqlite, d)

def queries : List (String × Query) → Act (Site Page) BackupError (List (String × Int))
  | [] => pure []
  | (name, q) :: rest => do
    let n ← query sql q
    return (name, n) :: (← queries rest)

/-- `compute_manifest_from_db`. -/
def computeManifestFromDb (parallaxVersion createdAt : String) (lastToClose : Bool) :
    Act (Site Page) BackupError BackupManifest := do
  let (schemaVersion, rowCounts, contentHashCounts) ← closing lastToClose (do
    let schemaVersion ← query sql .schemaVersion
    let rowCounts ← queries sql rowCountQueries
    let contentHashCounts ← queries sql contentHashQueries
    return (schemaVersion, rowCounts, contentHashCounts))
  let dbSha256 ← onDisk fun d => (.ok (sha256 d.main), d)
  return { parallaxVersion, schemaVersion, createdAt, dbSha256, rowCounts, contentHashCounts }

def createBackup (args : BackupArgs) : Act (Site Page) BackupError (Archive Page) := do
  if !args.isFile then throw .fileNotFound
  else if args.archiveExists then throw .fileExists
  else
    checkpointTruncate args
    let manifest ← computeManifestFromDb sql sha256 args.parallaxVersion args.createdAt
      args.lastToClose
    let file ← onDisk fun d => (.ok d.main, d)
    let kind := if args.isLink then MemberKind.link else .file
    return { db := some (kind, file), vault := args.vault, manifest := some manifest.toDict }

end Create

/-! ## What a manifest says of a database -/

section Describes

/-- Named counts, where the queries answer `v`. -/
def countsFrom (v : Query → Except SqliteError Int) (qs : List (String × Query)) :
    Except SqliteError (List (String × Int)) :=
  qs.mapM fun q => (v q.2).map (q.1, ·)

/-- The schema version and the counts of a manifest. -/
def countsOfContent (v : Query → Except SqliteError Int) :
    Except SqliteError (Int × List (String × Int) × List (String × Int)) := do
  let schemaVersion ← v .schemaVersion
  let rowCounts ← countsFrom v rowCountQueries
  let contentHashCounts ← countsFrom v contentHashQueries
  return (schemaVersion, rowCounts, contentHashCounts)

variable (sql : Sql Page) (sha256 : List Page → String)

/-- The manifest is that of the file. -/
def Describes (m : BackupManifest) (file : List Page) : Prop :=
  m.dbSha256 = sha256 file ∧
    countsOfContent (sql · file) = .ok (m.schemaVersion, m.rowCounts, m.contentHashCounts)

variable {sql sha256} {v : Query → Except SqliteError Int}

theorem countsFrom_names {qs : List (String × Query)} {counts : List (String × Int)}
    (h : countsFrom v qs = .ok counts) : counts.map Prod.fst = qs.map Prod.fst := by
  induction qs generalizing counts with
  | nil =>
    obtain rfl : [] = counts := by simpa [countsFrom, pure, Except.pure] using h
    rfl
  | cons q qs ih =>
    rw [countsFrom, List.mapM_cons] at h
    obtain ⟨count, hcount, h⟩ := except_bind_eq_ok.1 h
    obtain ⟨rest, hrest, h⟩ := except_bind_eq_ok.1 h
    obtain rfl : count :: rest = counts := by simpa [pure, Except.pure] using h
    have hname : count.1 = q.1 := by
      cases hv : v q.2 with
      | ok n => rw [hv] at hcount; cases hcount; rfl
      | error e => rw [hv] at hcount; cases hcount
    rw [List.map_cons, List.map_cons, ih hrest, hname]

omit [Inhabited Page] in
/-- Both kinds of counts are named once each. -/
theorem Describes.names_nodup {m : BackupManifest} {file : List Page}
    (h : Describes sql sha256 m file) :
    (m.rowCounts.map Prod.fst).Nodup ∧ (m.contentHashCounts.map Prod.fst).Nodup := by
  obtain ⟨-, hcounts⟩ := h
  rw [countsOfContent] at hcounts
  obtain ⟨_, -, hcounts⟩ := except_bind_eq_ok.1 hcounts
  obtain ⟨rowCounts, hrow, hcounts⟩ := except_bind_eq_ok.1 hcounts
  obtain ⟨hashCounts, hhash, hcounts⟩ := except_bind_eq_ok.1 hcounts
  cases hcounts
  rw [countsFrom_names hrow, countsFrom_names hhash]
  constructor <;> decide

/-! ## Runs of the queries -/

/-- From sites that satisfy `P` the computation ends as `x` does, where it returns in sites that
satisfy `Q`. -/
def Follows {α : Type} (p : Act (Site Page) BackupError α) (x : Except SqliteError α)
    (P Q : Site Page → Prop) : Prop :=
  ∀ s, P s → (p s).result = x.mapError .sqlite ∧ ∀ a, x = .ok a → Q (p s).final

omit [Inhabited Page] in
theorem follows_bind {α β : Type} {p : Act (Site Page) BackupError α}
    {k : α → Act (Site Page) BackupError β} {x : Except SqliteError α}
    {f : α → Except SqliteError β} {P Q R : Site Page → Prop} (hp : Follows p x P Q)
    (hk : ∀ a, Follows (k a) (f a) Q R) : Follows (p >>= k) (x >>= f) P R := by
  intro s hs
  obtain ⟨hresult, hfinal⟩ := hp s hs
  rw [Act.bind_apply, hresult]
  cases x with
  | ok a => exact hk a _ (hfinal a rfl)
  | error e => exact ⟨rfl, fun b hb => by cases hb⟩

omit [Inhabited Page] in
theorem follows_pure {α : Type} (a : α) {P : Site Page → Prop} :
    Follows (pure a) (.ok a) P P :=
  fun _ hs => ⟨rfl, fun _ _ => hs⟩

/-- In a site where `n + 1` steps are to come, the queries answer `v` at the next step, and `n`
steps are to come after it. -/
def Answers (sql : Sql Page) (v : Query → Except SqliteError Int) (K : Nat → Site Page → Prop) :
    Prop :=
  ∀ n s, K (n + 1) s → (∀ q, sql q s.found.effective = v q) ∧ K n ⟨s.found, s.others.tail⟩

variable {K : Nat → Site Page → Prop}

theorem follows_query (h : Answers sql v K) (q : Query) (n : Nat) :
    Follows (query sql q) (v q) (K (n + 1)) (K n) := by
  intro s hs
  obtain ⟨hv, hnext⟩ := h n s hs
  rw [← hv q]
  exact ⟨rfl, fun _ _ => hnext⟩

theorem follows_queries (h : Answers sql v K) (qs : List (String × Query)) (n : Nat) :
    Follows (queries sql qs) (countsFrom v qs) (K (n + qs.length)) (K n) := by
  induction qs with
  | nil => exact follows_pure []
  | cons q qs ih =>
    rw [queries, countsFrom, List.mapM_cons]
    have hbind : ((v q.2).map (q.1, ·) >>= fun count => do
        let counts ← countsFrom v qs
        return count :: counts) = (v q.2 >>= fun m => do
        let counts ← countsFrom v qs
        return (q.1, m) :: counts) := by
      cases v q.2 <;> rfl
    exact hbind ▸ follows_bind (follows_query h q.2 _) fun m =>
      follows_bind ih fun counts => follows_pure _

/-- The queries of a manifest are nine steps. -/
theorem follows_counts (h : Answers sql v K) (n : Nat) :
    Follows (do
      let schemaVersion ← query sql .schemaVersion
      let rowCounts ← queries sql rowCountQueries
      let contentHashCounts ← queries sql contentHashQueries
      return (schemaVersion, rowCounts, contentHashCounts))
      (countsOfContent v) (K (n + 9)) (K n) :=
  follows_bind (follows_query h .schemaVersion (n + 8)) fun _ =>
    follows_bind (follows_queries h rowCountQueries (n + 2)) fun _ =>
      follows_bind (follows_queries h contentHashQueries n) fun _ => follows_pure _

/-- A site after the connection is closed. -/
def Site.closed (s : Site Page) (lastToClose : Bool) : Site Page :=
  ⟨if lastToClose then s.found.truncate else s.found, s.others.tail⟩

theorem closing_apply {α : Type} (lastToClose : Bool) (p : Act (Site Page) BackupError α)
    (s : Site Page) :
    (closing lastToClose p s).result = (p s).result ∧
      (closing lastToClose p s).final = (p s).final.closed lastToClose := ⟨rfl, rfl⟩

/-- A manifest is what the queries answer and the digest of the file after closing. -/
theorem computeManifest_spec (sha256 : List Page → String) (h : Answers sql v K) {n : Nat} {s : Site Page} (hs : K (n + 9) s)
    (parallaxVersion createdAt : String) (lastToClose : Bool) :
    (∃ e, countsOfContent v = .error e ∧
      (computeManifestFromDb sql sha256 parallaxVersion createdAt lastToClose s).result =
        .error (.sqlite e)) ∨
    ∃ t counts, K n t ∧ countsOfContent v = .ok counts ∧
      (computeManifestFromDb sql sha256 parallaxVersion createdAt lastToClose s).result =
        .ok ⟨parallaxVersion, counts.1, createdAt, sha256 (t.closed lastToClose).found.main,
          counts.2.1, counts.2.2⟩ ∧
      (computeManifestFromDb sql sha256 parallaxVersion createdAt lastToClose s).final =
        ⟨(t.closed lastToClose).found, (t.closed lastToClose).others.tail⟩ := by
  obtain ⟨hresult, hfinal⟩ := follows_counts h n s hs
  simp only [computeManifestFromDb]
  rw [Act.bind_apply, (closing_apply lastToClose _ s).1, hresult]
  cases hcounts : countsOfContent v with
  | error e => exact .inl ⟨e, rfl, rfl⟩
  | ok counts => exact .inr ⟨_, counts, hfinal counts hcounts, rfl, rfl, rfl⟩

end Describes

end ParallaxKernel.Backup
