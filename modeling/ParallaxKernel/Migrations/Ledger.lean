import Mathlib.Data.List.Sort
import Mathlib.Logic.Function.Basic
import ParallaxKernel.Lib.ExplicitTransaction
import ParallaxKernel.Lib.Runs

/-!
# The ledger of migrations

The framework of `migrations/__init__.py`: `pending`, `migrate_to_latest`, `migrate_down_to` and
`migration_plan`, each migration in the explicit transaction of `_manual_tx`. Several processes may
upgrade one database at a time. Whatever fails or crashes, the ledger lists the first migrations of
the registry and the data is what they have made.
-/

namespace ParallaxKernel.Migrations

open Lib Act Sqlite

/-! ## Databases -/

inductive Exc where
  | sqlite (e : SqliteError)
  | valueError (msg : String)
  | overflowError (msg : String)
  /-- `schema_migrations references unknown version …`. -/
  | unknownVersion (version : Nat)
  deriving DecidableEq

instance : SqliteExc Exc where
  ofSqlite := .sqlite
  sqlite?
    | .sqlite e => some e
    | _ => none
  sqlite?_ofSqlite _ := rfl

/-- A row of `schema_migrations`. -/
structure LedgerRow where
  version : Nat
  name : String
  appliedAt : String
  deriving DecidableEq

/-- A database: the ledger, empty where its table is missing, and everything beside it. -/
structure Base (δ : Type) where
  data : δ
  ledger : List LedgerRow

/-- The set of `applied_versions`, in the order of the rows. -/
def Base.appliedVersions {δ : Type} (b : Base δ) : List Nat := b.ledger.map (·.version)

/-! ## Migrations -/

variable {δ : Type}

/-- What `up` and `down` do to the data: statements, each of which may raise, and what is decided
upon between them. -/
inductive Script (δ : Type) where
  | done
  | raise (e : Exc)
  | execute (f : δ → Except SqliteError δ) (next : δ → Script δ)

/-- On a connection. -/
def Script.run : Script δ → Act (Session (Base δ) Unit) Exc Unit
  | .done => pure ()
  | .raise e => throw e
  | .execute f next => do
    Sqlite.execute fun b => (f b.data).map fun data => { b with data := data }
    let data ← look fun s => s.conn.view.data
    (next data).run

/-- Where every statement runs. -/
def Script.eval : Script δ → δ → Except Exc δ
  | .done, data => .ok data
  | .raise e, _ => .error e
  | .execute f next, data =>
    match f data with
    | .ok data' => (next data').eval data'
    | .error e => .error (.sqlite e)

structure Migration (δ : Type) where
  version : Nat
  name : String
  up : Script δ
  down : Script δ

/-- The versions and names of `MIGRATIONS`. -/
def registryNames : List (Nat × String) :=
  [(1, "initial_schema"), (2, "events_append_only"), (3, "claim_metadata"),
    (4, "events_user_time_index"), (5, "claim_metadata_fk"), (6, "events_session_id"),
    (7, "claim_content_hash_user_id"), (8, "normalize_naive_created_at"), (9, "api_tokens"),
    (10, "memory_cards"), (11, "crosswalk"), (12, "crosswalk_aphelion_doc_id"),
    (13, "events_event_type_correlation_id_index"), (14, "events_fts_trigram")]

def pending (registry : List (Migration δ)) (b : Base δ) : List (Migration δ) :=
  (registry.insertionSort (·.version ≤ ·.version)).filter (·.version ∉ b.appliedVersions)

/-! ## One migration -/

/-- `_manual_tx`. -/
def manualTx {σ : Type} (body : Act (Session σ Unit) Exc Unit) : Act (Session σ Unit) Exc Unit := do
  beginImmediate
  tryCatch (do body; commit) fun e => do
    exceptSqlite rollback fun q => if q = .operationalError then pure () else throw (.sqlite q)
    throw e

/-- `INSERT INTO schema_migrations`, whose primary key is the version. -/
def insertRow (row : LedgerRow) : Act (Session (Base δ) Unit) Exc Unit :=
  Sqlite.execute fun b =>
    if row.version ∈ b.appliedVersions then .error .integrityError
    else .ok { b with ledger := b.ledger ++ [row] }

def deleteRow (version : Nat) : Act (Session (Base δ) Unit) Exc Unit :=
  Sqlite.execute fun b => .ok { b with ledger := b.ledger.filter (·.version ≠ version) }

def applyOne (m : Migration δ) (now : String) : Act (Session (Base δ) Unit) Exc Unit :=
  manualTx do
    m.up.run
    insertRow ⟨m.version, m.name, now⟩

def revertOne (m : Migration δ) : Act (Session (Base δ) Unit) Exc Unit :=
  manualTx do
    m.down.run
    deleteRow m.version

/-! ## Processes -/

/-- A call on its way: what is still to do and what it has done. -/
inductive Call (δ : Type) where
  | migrateToLatest (todo : List (Migration δ)) (newlyApplied : List Nat)
  | migrateDownTo (targetVersion : Int) (todo : List Nat) (reverted : List Nat)

/-- One database and the calls of the processes on it. -/
structure Fleet (ι δ : Type) where
  base : Base δ
  calls : ι → Option (Call δ)

inductive Action (ι : Type) where
  | migrateToLatest (i : ι)
  | migrateDownTo (i : ι) (targetVersion : Int)
  /-- The next transaction of a call, with the answers that its statements get. -/
  | transact (i : ι) (answers : List Answer) (now : String)
  /-- A call that has nothing left to do returns. -/
  | finish (i : ι)
  | crash (i : ι)

namespace Fleet

variable {ι : Type} [DecidableEq ι]

def setCall (s : Fleet ι δ) (i : ι) (call : Option (Call δ)) : Fleet ι δ :=
  { s with calls := Function.update s.calls i call }

/-- The versions to revert, the last one first. -/
def toRevert (b : Base δ) (targetVersion : Int) : List Nat :=
  ((b.appliedVersions.filter fun v : Nat => decide (targetVersion < (v : Int))).insertionSort
    (· ≤ ·)).reverse

@[simp] theorem setCall_base (s : Fleet ι δ) (i : ι) (call : Option (Call δ)) :
    (s.setCall i call).base = s.base := rfl

@[simp] theorem setCall_self (s : Fleet ι δ) (i : ι) (call : Option (Call δ)) :
    (s.setCall i call).calls i = call := by simp [setCall]

@[simp] theorem setCall_other (s : Fleet ι δ) {i j : ι} (h : j ≠ i) (call : Option (Call δ)) :
    (s.setCall i call).calls j = s.calls j := by simp [setCall, h]

/-- One transaction on the database, which leaves the call as `after` says if it returns. -/
def attempt (s : Fleet ι δ) (i : ι) (p : Act (Session (Base δ) Unit) Exc Unit)
    (answers : List Answer) (after : Call δ) : Fleet ι δ :=
  let r := p ⟨⟨s.base, none⟩, answers, ()⟩
  { s.setCall i (if r.result = .ok () then some after else none) with base := r.final.conn.db }

def step (registry : List (Migration δ)) (s : Fleet ι δ) : Action ι → Option (Fleet ι δ)
  | .migrateToLatest i =>
    match s.calls i with
    | some _ => none
    | none => some (s.setCall i (some (.migrateToLatest (pending registry s.base) [])))
  | .migrateDownTo i targetVersion =>
    match s.calls i with
    | some _ => none
    | none => some (s.setCall i (some (.migrateDownTo targetVersion
      (toRevert s.base targetVersion) [])))
  | .transact i answers now =>
    match s.calls i with
    | some (.migrateToLatest (m :: todo) newlyApplied) =>
      some (s.attempt i (applyOne m now) answers
        (.migrateToLatest todo (newlyApplied ++ [m.version])))
    | some (.migrateDownTo targetVersion (v :: todo) reverted) =>
      match registry.find? (·.version = v) with
      | none => some (s.setCall i none)
      | some m =>
        some (s.attempt i (revertOne m) answers
          (.migrateDownTo targetVersion todo (reverted ++ [v])))
    | _ => none
  | .finish i =>
    match s.calls i with
    | some (.migrateToLatest [] _) | some (.migrateDownTo _ [] _) => some (s.setCall i none)
    | _ => none
  | .crash i => some (s.setCall i none)

end Fleet

/-! ## Plans -/

section Transaction

variable {σ : Type} {s : Session σ Unit}

/-- A statement of an open transaction leaves what is committed as it is. -/
theorem keeps_data {w : σ} (f : σ → Except SqliteError σ) (hs : s.conn.working = some w) :
    Keeps (fun _ => True) (Sqlite.execute f : Act (Session σ Unit) Exc Unit) s fun r t =>
      t.conn.db = s.conn.db ∧ (r = .ok () → ∃ w', f w = .ok w' ∧ t.conn.working = some w') := by
  refine (keeps_execute (J := fun _ _ => True) hs trivial).mono ?_
  rintro r t ⟨hdb, -, -, ⟨-, -, w', hf, hw'⟩ | ⟨e, rfl, -⟩⟩
  · exact ⟨hdb, fun _ => ⟨w', hf, hw'⟩⟩
  · exact ⟨hdb, fun h => by cases h⟩

theorem keeps_rollback {Q : Except Exc Unit → Session σ Unit → Prop} (e : Exc)
    (h : Q (.error e) { s with conn := { s.conn with working := none } }) :
    Keeps (fun _ => True) (do
      exceptSqlite rollback fun q => if q = .operationalError then pure () else throw (.sqlite q)
      throw e : Act (Session σ Unit) Exc Unit) s Q := by
  refine keeps_bind (Q := fun r t => r = .ok () ∧
    t = { s with conn := { s.conn with working := none } }) ?_ ?_ ?_
  · refine keeps_exceptSqlite (Q := fun r t => (r = .ok () ∨
      r = .error (SqliteExc.ofSqlite .operationalError)) ∧
      t = { s with conn := { s.conn with working := none } }) (keeps_step trivial ⟨?_, rfl⟩) ?_ ?_
    · dsimp only
      split_ifs
      · exact .inl rfl
      · exact .inr rfl
    · rintro t ⟨-, rfl⟩
      exact ⟨rfl, rfl⟩
    · rintro e' t ⟨he, rfl⟩
      refine ⟨.operationalError, by simpa using he, ?_⟩
      rw [if_pos rfl]
      exact keeps_pure ⟨rfl, rfl⟩
  · rintro a t ⟨-, rfl⟩
    exact keeps_throw h
  · rintro e' t ⟨he, -⟩
    cases he

/-- The bracket commits what its body has made or nothing. -/
theorem manualTx_cases {body : Act (Session σ Unit) Exc Unit} {B : σ → σ → Prop} (b : σ)
    (hbody : ∀ (s : Session σ Unit) (w : σ), s.conn.working = some w →
      Keeps (fun _ => True) body s fun r t => t.conn.db = s.conn.db ∧
        (r = .ok () → ∃ w', B w w' ∧ t.conn.working = some w'))
    (answers : List Answer) :
    let r := manualTx body ⟨⟨b, none⟩, answers, ()⟩
    (r.result = .ok () ∧ B b r.final.conn.db) ∨
      ((∃ e, r.result = .error e) ∧ r.final.conn.db = b) := by
  suffices hkeeps : Keeps (fun _ => True) (manualTx body) ⟨⟨b, none⟩, answers, ()⟩ fun r t =>
      (r = .ok () ∧ B b t.conn.db) ∨ ((∃ e, r = .error e) ∧ t.conn.db = b) from hkeeps.2
  refine keeps_bind (Q := fun r t => t.conn.db = b ∧ (r = .ok () → t.conn.working = some b))
    (keeps_statement ?_ ?_) ?_ ?_
  · intro e rolledBack _ w _
    exact ⟨trivial, rfl, fun h => by cases h⟩
  · intro _
    exact ⟨trivial, rfl, fun _ => rfl⟩
  · rintro a t ⟨hdb, hopen⟩
    refine keeps_tryCatch (Q := fun r u => (r = .ok () ∧ B b u.conn.db) ∨
      ((∃ e, r = .error e) ∧ u.conn.db = b)) ?_ ?_ ?_
    · refine keeps_bind (hbody t b (hopen rfl)) ?_ ?_
      · rintro a u ⟨hsame, hmade⟩
        obtain ⟨w', hB, hw'⟩ := hmade rfl
        refine keeps_statement ?_ ?_
        · intro e rolledBack _ w _
          exact ⟨trivial, .inr ⟨⟨_, rfl⟩, hsame.trans hdb⟩⟩
        · intro _
          rw [hw']
          exact ⟨trivial, .inl ⟨rfl, hB⟩⟩
      · rintro e u ⟨hsame, -⟩
        exact .inr ⟨⟨e, rfl⟩, hsame.trans hdb⟩
    · rintro a u (⟨-, hB⟩ | ⟨⟨e, he⟩, -⟩)
      · exact .inl ⟨rfl, hB⟩
      · cases he
    · rintro e u (⟨he, -⟩ | ⟨-, hsame⟩)
      · cases he
      · exact keeps_rollback e (.inr ⟨⟨e, rfl⟩, hsame⟩)
  · rintro e t ⟨hdb, -⟩
    exact .inr ⟨⟨e, rfl⟩, hdb⟩

end Transaction

theorem keeps_script (c : Script δ) {s : Session (Base δ) Unit} {w : Base δ}
    (hs : s.conn.working = some w) :
    Keeps (fun _ => True) c.run s fun r t => t.conn.db = s.conn.db ∧
      (r = .ok () → ∃ data, c.eval w.data = .ok data ∧
        t.conn.working = some { w with data := data }) := by
  induction c generalizing s w with
  | done => exact keeps_pure ⟨rfl, fun _ => ⟨w.data, rfl, hs⟩⟩
  | raise e => exact keeps_throw ⟨rfl, fun h => by cases h⟩
  | execute f next ih =>
    refine keeps_bind (keeps_data _ hs) ?_ ?_
    · rintro a t ⟨hdb, hran⟩
      obtain ⟨w', hf, hw'⟩ := hran rfl
      obtain ⟨data, hdata, rfl⟩ : ∃ data, f w.data = .ok data ∧ w' = { w with data := data } := by
        cases hdata : f w.data with
        | error e =>
          rw [hdata] at hf
          cases hf
        | ok data =>
          rw [hdata] at hf
          exact ⟨data, rfl, (Except.ok.inj hf).symm⟩
      have hview : t.conn.view.data = data := by rw [Prog.Conn.view, hw']; rfl
      refine keeps_look_bind ?_
      rw [hview]
      refine (ih data hw').mono ?_
      rintro r u ⟨hsame, hmade⟩
      refine ⟨hsame.trans hdb, fun hr => ?_⟩
      rw [Script.eval, hdata]
      exact hmade hr
    · rintro e t ⟨hdb, -⟩
      exact ⟨hdb, fun h => by cases h⟩

/-- What a migration makes of a database, if it is committed. -/
theorem applyOne_cases (m : Migration δ) (now : String) (b : Base δ) (answers : List Answer) :
    let r := applyOne m now ⟨⟨b, none⟩, answers, ()⟩
    (r.result = .ok () ∧ ∃ data, m.up.eval b.data = .ok data ∧ m.version ∉ b.appliedVersions ∧
      r.final.conn.db = ⟨data, b.ledger ++ [⟨m.version, m.name, now⟩]⟩) ∨
    ((∃ e, r.result = .error e) ∧ r.final.conn.db = b) := by
  refine manualTx_cases (B := fun w w' => ∃ data, m.up.eval w.data = .ok data ∧
    m.version ∉ w.appliedVersions ∧ w' = ⟨data, w.ledger ++ [⟨m.version, m.name, now⟩]⟩)
    b ?_ answers
  intro s w hs
  refine keeps_bind (keeps_script m.up hs) ?_ ?_
  · rintro a t ⟨hdb, hmade⟩
    obtain ⟨data, hup, ht⟩ := hmade rfl
    refine (keeps_data _ ht).mono ?_
    rintro r u ⟨hsame, hrow⟩
    refine ⟨hsame.trans hdb, fun hr => ?_⟩
    obtain ⟨w', hw', hu⟩ := hrow hr
    dsimp only at hw'
    split_ifs at hw' with hfresh
    exact ⟨w', ⟨data, hup, hfresh, (Except.ok.inj hw').symm⟩, hu⟩
  · rintro e t ⟨hdb, -⟩
    exact ⟨hdb, fun h => by cases h⟩

theorem revertOne_cases (m : Migration δ) (b : Base δ) (answers : List Answer) :
    let r := revertOne m ⟨⟨b, none⟩, answers, ()⟩
    (r.result = .ok () ∧ ∃ data, m.down.eval b.data = .ok data ∧
      r.final.conn.db = ⟨data, b.ledger.filter (·.version ≠ m.version)⟩) ∨
    ((∃ e, r.result = .error e) ∧ r.final.conn.db = b) := by
  refine manualTx_cases (B := fun w w' => ∃ data, m.down.eval w.data = .ok data ∧
    w' = ⟨data, w.ledger.filter (·.version ≠ m.version)⟩) b ?_ answers
  intro s w hs
  refine keeps_bind (keeps_script m.down hs) ?_ ?_
  · rintro a t ⟨hdb, hmade⟩
    obtain ⟨data, hdown, ht⟩ := hmade rfl
    refine (keeps_data _ ht).mono ?_
    rintro r u ⟨hsame, hrow⟩
    refine ⟨hsame.trans hdb, fun hr => ?_⟩
    obtain ⟨w', hw', hu⟩ := hrow hr
    exact ⟨w', ⟨data, hdown, (Except.ok.inj hw').symm⟩, hu⟩
  · rintro e t ⟨hdb, -⟩
    exact ⟨hdb, fun h => by cases h⟩

/-! ## The registry -/

section Registry

variable {registry : List (Migration δ)} {k : Nat}

theorem length_of_names (h : registry.map (fun m => (m.version, m.name)) = registryNames) :
    registry.length = 14 := by
  simpa [registryNames] using congrArg List.length h

theorem versions_of_names
    (h : registry.map (fun m => (m.version, m.name)) = registryNames) :
    registry.map (·.version) = List.range' 1 registry.length := by
  have hversions := congrArg (List.map Prod.fst) h
  rw [List.map_map] at hversions
  rw [length_of_names h]
  exact hversions

variable (hregistry : registry.map (·.version) = List.range' 1 registry.length)
include hregistry

theorem version_getElem {m : Migration δ} (hm : registry[k]? = some m) : m.version = k + 1 := by
  have hk : (registry.map (·.version))[k]? = some m.version := by rw [List.getElem?_map, hm]; rfl
  obtain ⟨hlt, -⟩ := List.getElem?_eq_some_iff.1 hm
  rw [hregistry, List.getElem?_range' hlt] at hk
  have hversion := Option.some.inj hk
  omega

theorem versions_take (hk : k ≤ registry.length) :
    (registry.take k).map (·.version) = List.range' 1 k := by
  rw [List.map_take, hregistry, List.take_range'_of_length_ge hk]

theorem versions_drop : (registry.drop k).map (·.version) =
    List.range' (1 + k) (registry.length - k) := by
  rw [List.map_drop, hregistry, List.drop_range', Nat.mul_one]

theorem sorted_registry : registry.Pairwise fun m n => m.version ≤ n.version := by
  have hsorted := List.pairwise_le_range' (s := 1) (n := registry.length) 1
  rw [← hregistry, List.pairwise_map] at hsorted
  exact hsorted

theorem find_registry {m : Migration δ} (hm : registry[k]? = some m) :
    registry.find? (·.version = k + 1) = some m := by
  obtain ⟨hk, hget⟩ := List.getElem?_eq_some_iff.1 hm
  rw [List.find?_eq_some_iff_getElem]
  refine ⟨by simpa using version_getElem hregistry hm, k, hk, hget, fun j hj => ?_⟩
  have hversion := version_getElem hregistry (List.getElem?_eq_getElem (hj.trans hk))
  simp only [hversion, Bool.not_eq_eq_eq_not, Bool.not_true, decide_eq_false_iff_not]
  omega

/-- Behind the first migrations the others are pending. -/
theorem pending_eq {b : Base δ} (hk : k ≤ registry.length)
    (hb : b.appliedVersions = List.range' 1 k) : pending registry b = registry.drop k := by
  have hfirst : (registry.take k).filter (·.version ∉ b.appliedVersions) = [] := by
    rw [List.filter_eq_nil_iff]
    intro m hm
    have hversion := List.mem_map_of_mem (f := (·.version)) hm
    rw [versions_take hregistry hk, ← hb] at hversion
    simpa using hversion
  have hrest : (registry.drop k).filter (·.version ∉ b.appliedVersions) = registry.drop k := by
    rw [List.filter_eq_self]
    intro m hm
    have hversion := List.mem_map_of_mem (f := (·.version)) hm
    rw [versions_drop hregistry, List.mem_range'_1] at hversion
    rw [hb, decide_eq_true_iff, List.mem_range'_1]
    omega
  calc pending registry b
      = (registry.take k ++ registry.drop k).filter (·.version ∉ b.appliedVersions) := by
        rw [pending, List.Pairwise.insertionSort_eq (sorted_registry hregistry),
          List.take_append_drop]
    _ = registry.drop k := by rw [List.filter_append, hfirst, hrest, List.nil_append]

end Registry

theorem filter_range' (p : ℕ → Prop) [DecidablePred p] (hp : ∀ a b, a ≤ b → p a → p b) (k : ℕ) :
    ∃ l ≤ k, (∀ v, 1 ≤ v → v ≤ k → (p v ↔ l < v)) ∧
      (List.range' 1 k).filter p = List.range' (l + 1) (k - l) := by
  induction k with
  | zero => exact ⟨0, le_refl 0, by omega, rfl⟩
  | succ k ih =>
    obtain ⟨l, hl, hiff, hfilter⟩ := ih
    rw [List.range'_1_concat, List.filter_append, hfilter]
    by_cases hlast : p (1 + k)
    · refine ⟨l, by omega, fun v h1 hv => ?_, ?_⟩
      · obtain hlt | rfl := Nat.lt_or_eq_of_le hv
        · exact hiff v h1 (by omega)
        · rw [Nat.add_comm k 1]
          exact iff_of_true hlast (by omega)
      · have hlength : k + 1 - l = (k - l) + 1 := by omega
        rw [hlength, List.range'_1_concat]
        have hend : l + 1 + (k - l) = 1 + k := by omega
        simp [hlast, hend]
    · have hnone : ∀ v, v ≤ 1 + k → ¬ p v := fun v hv h => hlast (hp v _ hv h)
      refine ⟨k + 1, le_refl _, fun v _ hv => iff_of_false (hnone v (by omega)) (by omega), ?_⟩
      have hempty : k - l = 0 := by
        by_contra hne
        exact hnone (l + 1) (by omega) ((hiff (l + 1) (by omega) (by omega)).2 (by omega))
      simp [hlast, hempty]

/-! ## In step -/

/-- The data after the first migrations: each level is made by an `up` from the one before it or by
a `down` from the one behind it. -/
inductive Level (registry : List (Migration δ)) (start : δ) : Nat → δ → Prop
  | start : Level registry start 0 start
  | up {k : Nat} {data data' : δ} {m : Migration δ} (h : Level registry start k data)
    (hm : registry[k]? = some m) (hup : m.up.eval data = .ok data') :
    Level registry start (k + 1) data'
  | down {k : Nat} {data data' : δ} {m : Migration δ} (h : Level registry start (k + 1) data)
    (hm : registry[k]? = some m) (hdown : m.down.eval data = .ok data') :
    Level registry start k data'

/-- The ledger lists the first `k` migrations, and the data is at their level. -/
structure InStep (registry : List (Migration δ)) (start : δ) (k : Nat) (b : Base δ) : Prop where
  le : k ≤ registry.length
  ledger : b.ledger.map (fun row => (row.version, row.name)) =
    (registry.take k).map fun m => (m.version, m.name)
  level : Level registry start k b.data

section InStep

variable {registry : List (Migration δ)} {start : δ} {k : Nat} {b : Base δ}
  (hregistry : registry.map (·.version) = List.range' 1 registry.length)
include hregistry

theorem InStep.appliedVersions (h : InStep registry start k b) :
    b.appliedVersions = List.range' 1 k := by
  have hversions := congrArg (List.map Prod.fst) h.ledger
  rw [List.map_map, List.map_map] at hversions
  exact hversions.trans (versions_take hregistry h.le)

/-- The only migration that can be applied is the next one. -/
theorem InStep.applied (h : InStep registry start k b) {m : Migration δ} {j : Nat}
    (hm : registry[j]? = some m) (hj : j ≤ k) (hfresh : m.version ∉ b.appliedVersions) {data : δ}
    (hup : m.up.eval b.data = .ok data) (now : String) :
    j = k ∧ InStep registry start (k + 1) ⟨data, b.ledger ++ [⟨m.version, m.name, now⟩]⟩ := by
  rw [h.appliedVersions hregistry, List.mem_range'_1, version_getElem hregistry hm] at hfresh
  obtain rfl : j = k := by omega
  obtain ⟨hlt, hget⟩ := List.getElem?_eq_some_iff.1 hm
  refine ⟨rfl, hlt, ?_, .up h.level hm hup⟩
  rw [List.map_append, h.ledger, List.take_add_one, hm, List.map_append]
  rfl

theorem InStep.reverted (h : InStep registry start (k + 1) b) {m : Migration δ}
    (hm : registry[k]? = some m) {data : δ} (hdown : m.down.eval b.data = .ok data) :
    InStep registry start k ⟨data, b.ledger.filter (·.version ≠ m.version)⟩ := by
  have hversion := version_getElem hregistry hm
  have hledger := h.ledger
  rw [List.take_add_one, hm, List.map_append] at hledger
  obtain ⟨rows, last, hrows, hfirst, hlast⟩ := List.map_eq_append_iff.1 hledger
  obtain ⟨row, rfl⟩ : ∃ row, last = [row] := List.length_eq_one_iff.1 (by
    simpa using congrArg List.length hlast)
  have hrow : row.version = m.version := (Prod.mk.inj (List.singleton_inj.1 hlast)).1
  have hold : ∀ r ∈ rows, r.version ≠ m.version := by
    intro r hr heq
    have hmem := List.mem_map_of_mem (f := Prod.fst) (List.mem_map_of_mem
      (f := fun row : LedgerRow => (row.version, row.name)) hr)
    rw [hfirst, List.map_map] at hmem
    have hle : k ≤ registry.length := Nat.le_of_succ_le h.le
    have hrange : r.version ∈ List.range' 1 k := by
      rw [← versions_take hregistry hle]
      exact hmem
    rw [List.mem_range'_1, heq, hversion] at hrange
    omega
  have hkept : b.ledger.filter (·.version ≠ m.version) = rows := by
    rw [hrows, List.filter_append, List.filter_eq_self.2 fun r hr => by simpa using hold r hr]
    simp [hrow]
  exact ⟨Nat.le_of_succ_le h.le, by rw [hkept]; exact hfirst, .down h.level hm hdown⟩

end InStep

/-! ## Runs -/

section Runs

variable {ι : Type} [DecidableEq ι]

/-- Nobody upgrades while a downgrade is under way, and a downgrade starts with nobody else. -/
def Guarded (s : Fleet ι δ) : Action ι → Prop
  | .migrateToLatest _ => ∀ i target todo reverted,
    s.calls i ≠ some (.migrateDownTo target todo reverted)
  | .migrateDownTo _ _ => ∀ i, s.calls i = none
  | _ => True

/-- What the calls on their way have to do, when the ledger lists `k` migrations. -/
inductive Calls (registry : List (Migration δ)) (k : Nat) (calls : ι → Option (Call δ)) : Prop
  /-- Each upgrade goes on with a migration that is not beyond the next one. -/
  | upgrades (h : ∀ i call, calls i = some call →
      ∃ j ≤ k, ∃ done, call = .migrateToLatest (registry.drop j) done)
  | downgrade (i : ι) (target : Int) (l : Nat) (reverted : List Nat) (hl : l ≤ k)
      (hi : calls i = some (.migrateDownTo target (List.range' (l + 1) (k - l)).reverse reverted))
      (hothers : ∀ j, j ≠ i → calls j = none)
      (htarget : ∀ v, 1 ≤ v → v ≤ k → (target < (v : Int) ↔ l < v))

def Fleet.Inv (registry : List (Migration δ)) (start : δ) (s : Fleet ι δ) : Prop :=
  ∃ k, InStep registry start k s.base ∧ Calls registry k s.calls

variable {registry : List (Migration δ)} {start : δ} {s t : Fleet ι δ}
  (hregistry : registry.map (·.version) = List.range' 1 registry.length)
include hregistry

omit hregistry in
theorem Calls.drop {k : Nat} {calls : ι → Option (Call δ)} (h : Calls registry k calls) (i : ι) :
    Calls registry k (Function.update calls i none) := by
  cases h with
  | upgrades hall =>
    refine .upgrades fun j call hj => ?_
    by_cases hji : j = i
    · rw [hji, Function.update_self] at hj
      cases hj
    · rw [Function.update_of_ne hji] at hj
      exact hall j call hj
  | downgrade d target l reverted hl hd hothers htarget =>
    by_cases hdi : d = i
    · refine .upgrades fun j call hj => ?_
      by_cases hji : j = i
      · rw [hji, Function.update_self] at hj
        cases hj
      · rw [Function.update_of_ne hji, hothers j (hdi ▸ hji)] at hj
        cases hj
    · refine .downgrade d target l reverted hl ?_ (fun j hj => ?_) htarget
      · rwa [Function.update_of_ne hdi]
      · by_cases hji : j = i
        · rw [hji, Function.update_self]
        · rw [Function.update_of_ne hji, hothers j hj]

/-- A transaction of an upgrade: the next migration, or nothing. -/
theorem Fleet.Inv.upgraded {i : ι} {m : Migration δ} {todo : List (Migration δ)}
    {newlyApplied : List Nat} (hinv : s.Inv registry start)
    (hi : s.calls i = some (.migrateToLatest (m :: todo) newlyApplied)) (answers : List Answer)
    (now : String) : (s.attempt i (applyOne m now) answers
      (.migrateToLatest todo (newlyApplied ++ [m.version]))).Inv registry start := by
  obtain ⟨k, hin, hcalls⟩ := hinv
  cases hcalls with
  | downgrade d target l reverted _ hd hothers =>
    by_cases hdi : i = d
    · rw [hdi, hd] at hi
      cases hi
    · rw [hothers i hdi] at hi
      cases hi
  | upgrades hall =>
    obtain ⟨j, hj, done, hcall⟩ := hall i _ hi
    obtain ⟨hdrop, -⟩ := Call.migrateToLatest.inj hcall
    have hm : registry[j]? = some m := by
      rw [← List.head?_drop, ← hdrop]
      rfl
    have htodo : todo = registry.drop (j + 1) := by
      rw [← List.tail_drop, ← hdrop]
      rfl
    obtain ⟨hok, data, hup, hfresh, hbase⟩ | ⟨⟨e, herror⟩, hbase⟩ :=
      applyOne_cases m now s.base answers
    · obtain ⟨rfl, hnext⟩ := hin.applied hregistry hm hj hfresh hup now
      refine ⟨j + 1, ?_, .upgrades fun i' call hi' => ?_⟩
      · rw [Fleet.attempt, hbase]
        exact hnext
      · rw [Fleet.attempt, if_pos hok] at hi'
        by_cases hii : i' = i
        · rw [hii] at hi'
          rw [← Option.some.inj ((s.setCall_self i _).symm.trans hi'), htodo]
          exact ⟨j + 1, le_refl _, _, rfl⟩
        · obtain ⟨j', hj', hcall'⟩ := hall i' call ((s.setCall_other hii _).symm.trans hi')
          exact ⟨j', by omega, hcall'⟩
    · refine ⟨k, ?_, ?_⟩
      · rw [Fleet.attempt, hbase]
        exact hin
      · rw [Fleet.attempt, if_neg (by rw [herror]; exact fun h => by cases h)]
        exact (Calls.upgrades hall).drop i

theorem Fleet.Inv.downgraded {i : ι} {target : Int} {v : Nat} {todo reverted : List Nat}
    {m : Migration δ} (hinv : s.Inv registry start)
    (hi : s.calls i = some (.migrateDownTo target (v :: todo) reverted))
    (hfind : registry.find? (·.version = v) = some m) (answers : List Answer) :
    (s.attempt i (revertOne m) answers
      (.migrateDownTo target todo (reverted ++ [v]))).Inv registry start := by
  obtain ⟨k, hin, hcalls⟩ := hinv
  have hdrop := hcalls.drop i
  cases hcalls with
  | upgrades hall =>
    obtain ⟨j, -, done, hcall⟩ := hall i _ hi
    cases hcall
  | downgrade d target' l reverted' hl hd hothers htarget =>
    obtain rfl : i = d := by
      by_contra hid
      rw [hothers i hid] at hi
      cases hi
    rw [hd] at hi
    obtain ⟨rfl, htodo, rfl⟩ := Call.migrateDownTo.inj (Option.some.inj hi)
    obtain ⟨k, rfl⟩ : ∃ k', k = k' + 1 := by
      cases k with
      | zero =>
        rw [Nat.zero_sub] at htodo
        cases htodo
      | succ k => exact ⟨k, rfl⟩
    have hlk : l ≤ k := by
      by_contra hlt
      obtain rfl : l = k + 1 := by omega
      rw [Nat.sub_self] at htodo
      cases htodo
    have hlength : k + 1 - l = (k - l) + 1 := by omega
    rw [hlength, List.range'_1_concat, List.reverse_append] at htodo
    obtain ⟨hv, htodo⟩ := List.cons.inj htodo
    have hm : registry[k]? = some m := by
      obtain ⟨m', hk⟩ : ∃ m', registry[k]? = some m' := ⟨_, List.getElem?_eq_getElem hin.le⟩
      have hversion : v = k + 1 := by omega
      rw [hk, ← find_registry hregistry hk, ← hfind, hversion]
    obtain ⟨hok, data, hdown, hbase⟩ | ⟨⟨e, herror⟩, hbase⟩ := revertOne_cases m s.base answers
    · refine ⟨k, ?_, .downgrade i target' l (reverted' ++ [v]) hlk ?_ (fun j hj => ?_) ?_⟩
      · rw [Fleet.attempt, hbase]
        exact hin.reverted hregistry hm hdown
      · rw [Fleet.attempt, if_pos hok, ← htodo]
        exact s.setCall_self i _
      · exact (s.setCall_other hj _).trans (hothers j hj)
      · intro w h1 hw
        exact htarget w h1 (by omega)
    · refine ⟨k + 1, ?_, ?_⟩
      · rw [Fleet.attempt, hbase]
        exact hin
      · rw [Fleet.attempt, if_neg (by rw [herror]; exact fun h => by cases h)]
        exact hdrop

/-- The invariant of a step. -/
theorem Fleet.Inv.step {a : Action ι} (hinv : s.Inv registry start) (hguarded : Guarded s a)
    (hstep : s.step registry a = some t) : t.Inv registry start := by
  have hwhole := hinv
  obtain ⟨k, hin, hcalls⟩ := hinv
  cases a with
  | migrateToLatest i =>
    simp only [Fleet.step] at hstep
    split at hstep
    · cases hstep
    cases hstep
    cases hcalls with
    | downgrade d target l reverted _ hd => exact absurd hd (hguarded d _ _ _)
    | upgrades hall =>
      refine ⟨k, hin, .upgrades fun j call hj => ?_⟩
      by_cases hji : j = i
      · rw [hji, Fleet.setCall_self] at hj
        cases hj
        refine ⟨k, le_refl k, [], ?_⟩
        rw [pending_eq hregistry hin.le (hin.appliedVersions hregistry)]
      · rw [Fleet.setCall_other s hji] at hj
        exact hall j call hj
  | migrateDownTo i target =>
    simp only [Fleet.step] at hstep
    split at hstep
    · cases hstep
    cases hstep
    obtain ⟨l, hl, htarget, hfilter⟩ := filter_range' (fun v : Nat => target < (v : Int))
      (fun a b hab ha => by omega) k
    refine ⟨k, hin, .downgrade i target l [] hl ?_ (fun j hj => ?_) htarget⟩
    · have hsorted := List.pairwise_le_range' (s := l + 1) (n := k - l) 1
      rw [Fleet.setCall_self, Fleet.toRevert, hin.appliedVersions hregistry,
        hfilter, List.Pairwise.insertionSort_eq hsorted]
    · rw [Fleet.setCall_other s hj]
      exact hguarded j
  | transact i answers now =>
    simp only [Fleet.step] at hstep
    split at hstep
    · rename_i m todo newlyApplied hi
      cases hstep
      exact hwhole.upgraded hregistry hi answers now
    · rename_i target v todo reverted hi
      split at hstep
      · cases hstep
        exact ⟨k, hin, hcalls.drop i⟩
      · rename_i m hfind
        cases hstep
        exact hwhole.downgraded hregistry hi hfind answers
    · cases hstep
  | finish i =>
    simp only [Fleet.step] at hstep
    split at hstep
    · cases hstep
      exact ⟨k, hin, hcalls.drop i⟩
    · cases hstep
      exact ⟨k, hin, hcalls.drop i⟩
    · cases hstep
  | crash i =>
    cases hstep
    exact ⟨k, hin, hcalls.drop i⟩

/-- Every run of guarded steps keeps the ledger in step. -/
theorem Fleet.Inv.run {actions : List (Action ι)} (hinv : s.Inv registry start)
    (hguarded : Along (Fleet.step registry) (fun s a _ => Guarded s a) s actions)
    (hrun : actions.foldlM (Fleet.step registry) s = some t) : t.Inv registry start :=
  hguarded.inv (fun _ _ _ hs hstep hguard => hs.step hregistry hguard hstep) hinv hrun

omit hregistry [DecidableEq ι] in
/-- Before the first migration. -/
theorem inv_initial : (Fleet.Inv registry start ⟨⟨start, []⟩, fun _ : ι => none⟩) := by
  refine ⟨0, ⟨Nat.zero_le _, rfl, .start⟩, .upgrades fun i call hi => ?_⟩
  cases hi

omit hregistry in
/-- An upgrade that has nothing left to do has the whole registry behind it. -/
theorem Fleet.Inv.upgrade_done {i : ι} {newlyApplied : List Nat} (hinv : s.Inv registry start)
    (hi : s.calls i = some (.migrateToLatest [] newlyApplied)) :
    InStep registry start registry.length s.base := by
  obtain ⟨k, hin, hcalls⟩ := hinv
  cases hcalls with
  | downgrade d target l reverted _ hd hothers =>
    by_cases hdi : i = d
    · rw [hdi, hd] at hi
      cases hi
    · rw [hothers i hdi] at hi
      cases hi
  | upgrades hall =>
    obtain ⟨j, hj, done, hcall⟩ := hall i _ hi
    obtain ⟨hnil, -⟩ := Call.migrateToLatest.inj hcall
    have hlength := List.drop_eq_nil_iff.1 hnil.symm
    have hle := hin.le
    obtain rfl : k = registry.length := by omega
    exact hin

/-- A downgrade that has nothing left to do has left no version above its target. -/
theorem Fleet.Inv.downgrade_done {i : ι} {target : Int} {reverted : List Nat}
    (hinv : s.Inv registry start)
    (hi : s.calls i = some (.migrateDownTo target [] reverted)) :
    ∀ v ∈ s.base.appliedVersions, (v : Int) ≤ target := by
  obtain ⟨k, hin, hcalls⟩ := hinv
  cases hcalls with
  | upgrades hall =>
    obtain ⟨j, -, done, hcall⟩ := hall i _ hi
    cases hcall
  | downgrade d target' l reverted' hl hd hothers htarget =>
    obtain rfl : i = d := by
      by_contra hid
      rw [hothers i hid] at hi
      cases hi
    rw [hd] at hi
    obtain ⟨rfl, htodo, -⟩ := Call.migrateDownTo.inj (Option.some.inj hi)
    have hempty : k - l = 0 := by simpa using congrArg List.length htodo
    intro v hv
    rw [hin.appliedVersions hregistry, List.mem_range'_1] at hv
    have hnot := (not_congr (htarget v hv.1 (by omega))).2 (by omega)
    omega

end Runs

/-! ## Any number of processes -/

section Main

variable {ι : Type} [DecidableEq ι] {registry : List (Migration δ)} {start : δ}
  (hregistry : registry.map (fun m => (m.version, m.name)) = registryNames)
include hregistry

/-- Whatever statements fail, whatever processes crash and however the upgrades interleave, the
ledger lists the first migrations of the registry and the data is what they have made. An upgrade
that returns has brought the database to the last version, a downgrade below its target. -/
theorem ledger_in_step (actions : List (Action ι)) {t : Fleet ι δ}
    (hguarded : Along (Fleet.step registry) (fun s a _ => Guarded s a)
      ⟨⟨start, []⟩, fun _ => none⟩ actions)
    (hrun : actions.foldlM (Fleet.step registry) ⟨⟨start, []⟩, fun _ => none⟩ = some t) :
    (∃ k, InStep registry start k t.base) ∧
    (∀ i newlyApplied, t.calls i = some (.migrateToLatest [] newlyApplied) →
      InStep registry start 14 t.base) ∧
    ∀ i target reverted, t.calls i = some (.migrateDownTo target [] reverted) →
      ∀ v ∈ t.base.appliedVersions, (v : Int) ≤ target := by
  have hversions := versions_of_names hregistry
  have hlength := length_of_names hregistry
  have hinv := inv_initial.run hversions hguarded hrun
  refine ⟨?_, fun i newlyApplied hi => ?_, fun i target reverted hi => ?_⟩
  · obtain ⟨k, hin, -⟩ := hinv
    exact ⟨k, hin⟩
  · rw [← hlength]
    exact hinv.upgrade_done hi
  · exact hinv.downgrade_done hversions hi

end Main

/-- Migrations that write down their versions. -/
def sampleRegistry : List (Migration (List Nat)) :=
  registryNames.map fun entry => ⟨entry.1, entry.2,
    .execute (fun data => .ok (data ++ [entry.1])) fun _ => .done,
    .execute (fun data => .ok (data.filter (· ≠ entry.1))) fun _ => .done⟩

/-- Two processes upgrade, the second one crashes in its way, and the first one finds its second
migration applied already. -/
def sampleActions : List (Action Bool) :=
  [.migrateToLatest false, .migrateToLatest true, .transact true [] "t1", .crash true,
    .transact false [] "t2"]

theorem sample_guarded : Along (Fleet.step sampleRegistry) (fun s a _ => Guarded s a)
    ⟨⟨[], []⟩, fun _ => none⟩ sampleActions := by
  have hidle : ∀ i, ∀ call : Call (List Nat), (fun _ : Bool => none) i ≠ some call := by
    intro i call h
    cases h
  intro t ht
  cases ht
  refine ⟨fun i target todo reverted => hidle i _, fun t ht => ?_⟩
  cases ht
  refine ⟨fun i target todo reverted h => ?_, fun t ht => ?_⟩
  · cases i with
    | false => cases h
    | true => cases h
  cases ht
  refine ⟨trivial, fun t ht => ?_⟩
  cases ht
  exact ⟨trivial, fun t ht => ⟨trivial, trivial⟩⟩

theorem ledger_in_step_sample : ∃ t, sampleActions.foldlM (Fleet.step sampleRegistry)
      ⟨⟨[], []⟩, fun _ => none⟩ = some t ∧ ∃ k, InStep sampleRegistry [] k t.base := by
  obtain ⟨t, hrun⟩ : ∃ t, sampleActions.foldlM (Fleet.step sampleRegistry)
      ⟨⟨[], []⟩, fun _ => none⟩ = some t := Option.isSome_iff_exists.1 (by decide +kernel)
  exact ⟨t, hrun, (ledger_in_step (by rfl) sampleActions sample_guarded hrun).1⟩

/-! ## What a plan announces -/

section Plan

variable {ι : Type} [DecidableEq ι] {registry : List (Migration δ)} {start : δ} {k : Nat}
  {b : Base δ}

/-- The upgrade of a process is on its way through these versions, or it has ended. -/
def Fleet.On (i : ι) (versions : List Nat) (s : Fleet ι δ) : Prop :=
  s.calls i = none ∨ ∃ todo newlyApplied, s.calls i = some (.migrateToLatest todo newlyApplied) ∧
    newlyApplied ++ todo.map (·.version) = versions

/-- The process starts no call. -/
def Action.Spares (i : ι) : Action ι → Prop
  | .migrateToLatest j | .migrateDownTo j _ => j ≠ i
  | _ => True

/-- A step of anybody leaves an upgrade on its way. -/
theorem Fleet.On.step {i : ι} {versions : List Nat} {s t : Fleet ι δ} {a : Action ι}
    (h : s.On i versions) (ha : a.Spares i) (hstep : s.step registry a = some t) :
    t.On i versions := by
  have hset : ∀ (j : ι) (call : Option (Call δ)), (j = i → call = .none) →
      (s.setCall j call).On i versions := by
    intro j call hcall
    by_cases hij : i = j
    · refine .inl ?_
      rw [hij, Fleet.setCall_self]
      exact hcall hij.symm
    · rw [Fleet.On, Fleet.setCall_other s hij]
      exact h
  cases a with
  | migrateToLatest j =>
    simp only [Fleet.step] at hstep
    split at hstep
    · cases hstep
    · cases hstep
      exact hset j _ fun hj => absurd hj ha
  | migrateDownTo j target =>
    simp only [Fleet.step] at hstep
    split at hstep
    · cases hstep
    · cases hstep
      exact hset j _ fun hj => absurd hj ha
  | transact j answers now =>
    simp only [Fleet.step] at hstep
    split at hstep
    · rename_i m todo newlyApplied hj
      cases hstep
      by_cases hok : (applyOne m now ⟨⟨s.base, .none⟩, answers, ()⟩).result = .ok ()
      · by_cases hij : i = j
        · obtain hnone | ⟨todo', done, hi, heq⟩ := h
          · rw [hij, hj] at hnone
            cases hnone
          · rw [hij, hj] at hi
            obtain ⟨rfl, rfl⟩ := Call.migrateToLatest.inj (Option.some.inj hi)
            refine .inr ⟨todo, newlyApplied ++ [m.version], ?_, ?_⟩
            · rw [Fleet.attempt, if_pos hok, hij]
              exact s.setCall_self j _
            · rw [← heq]
              simp
        · rw [Fleet.On, Fleet.attempt]
          rw [Fleet.On] at h
          rwa [Fleet.setCall_other s hij]
      · have hended := hset j .none fun _ => rfl
        rw [Fleet.On, Fleet.attempt, if_neg hok]
        exact hended
    · rename_i target v todo reverted hj
      have hij : i ≠ j := by
        rintro rfl
        obtain hnone | ⟨todo', done, hi, -⟩ := h
        · rw [hj] at hnone
          cases hnone
        · rw [hj] at hi
          cases hi
      split at hstep
      · cases hstep
        exact hset j _ fun _ => rfl
      · cases hstep
        rw [Fleet.On, Fleet.attempt]
        rw [Fleet.On] at h
        rwa [Fleet.setCall_other s hij]
    · cases hstep
  | finish j =>
    simp only [Fleet.step] at hstep
    split at hstep
    · cases hstep
      exact hset j _ fun _ => rfl
    · cases hstep
      exact hset j _ fun _ => rfl
    · cases hstep
  | crash j =>
    cases hstep
    exact hset j _ fun _ => rfl

theorem Fleet.On.run {i : ι} {versions : List Nat} {actions : List (Action ι)} {s t : Fleet ι δ}
    (h : s.On i versions) (hspare : ∀ a ∈ actions, a.Spares i)
    (hrun : actions.foldlM (Fleet.step registry) s = some t) : t.On i versions := by
  induction actions generalizing s with
  | nil =>
    cases hrun
    exact h
  | cons a actions ih =>
    obtain ⟨u, hstep, hrun⟩ := Option.bind_eq_some_iff.1 hrun
    exact ih (h.step (hspare a List.mem_cons_self) hstep)
      (fun a' ha' => hspare a' (List.mem_cons_of_mem a ha')) hrun

end Plan

end ParallaxKernel.Migrations
