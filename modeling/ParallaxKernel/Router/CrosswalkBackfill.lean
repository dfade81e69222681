import Mathlib.Data.List.Sort
import Mathlib.Data.Prod.Lex
import Mathlib.Data.String.Basic
import ParallaxKernel.Store.Schema

/-!
# Backfilling the crosswalk

`backfill_crosswalk`. A call scans the memories and claims of a user from the start and stops at
the batch limit, rows that are mapped already counted in: what lies beyond the limit is not reached
by a later call either.
-/

namespace ParallaxKernel.Router

open Store

/-! ## The table -/

inductive MappingState where
  | mapped
  | unmapped
  | conflict
  deriving DecidableEq

/-- A row of `crosswalk`. -/
structure CrosswalkRow where
  userId : String
  canonicalRef : String
  parallaxTargetKind : String
  parallaxTargetId : String
  queryType : Option String
  state : MappingState
  contentHash : String
  sourceId : Option String
  vaultPath : Option String
  aphelionDocId : Option String
  lastEventIdSeen : Option String
  lastEmbeddedAt : Option String
  createdAt : String
  updatedAt : String
  deriving DecidableEq

namespace CrosswalkRow

/-- The primary key. -/
def ref (r : CrosswalkRow) : String × String := (r.userId, r.canonicalRef)

/-- The columns of `idx_crosswalk_user_target`. -/
def target (r : CrosswalkRow) : String × String × String :=
  (r.userId, r.parallaxTargetKind, r.parallaxTargetId)

/-- The rows cannot stand in one table. -/
def clashes (r s : CrosswalkRow) : Bool := s.ref == r.ref || s.target == r.target

end CrosswalkRow

/-- The table, within its two constraints. -/
structure Crosswalk where
  rows : List CrosswalkRow
  ref_nodup : (rows.map CrosswalkRow.ref).Nodup
  target_nodup : (rows.map CrosswalkRow.target).Nodup

namespace Crosswalk

theorem nodup_ref_nil : (([] : List CrosswalkRow).map CrosswalkRow.ref).Nodup := List.nodup_nil

def empty : Crosswalk := ⟨[], nodup_ref_nil, List.nodup_nil⟩

def insert (c : Crosswalk) (r : CrosswalkRow) (h : ¬ c.rows.any r.clashes = true) :
    Crosswalk where
  rows := c.rows ++ [r]
  ref_nodup := by
    rw [List.map_append]
    refine List.nodup_append_comm.1 (List.nodup_cons.2 ⟨?_, c.ref_nodup⟩)
    intro hmem
    obtain ⟨s, hs, href⟩ := List.mem_map.1 hmem
    exact h (List.any_eq_true.2 ⟨s, hs, by simp [CrosswalkRow.clashes, href]⟩)
  target_nodup := by
    rw [List.map_append]
    refine List.nodup_append_comm.1 (List.nodup_cons.2 ⟨?_, c.target_nodup⟩)
    intro hmem
    obtain ⟨s, hs, htarget⟩ := List.mem_map.1 hmem
    exact h (List.any_eq_true.2 ⟨s, hs, by simp [CrosswalkRow.clashes, htarget]⟩)

/-- `INSERT OR IGNORE`. -/
def insertOrIgnore (c : Crosswalk) (r : CrosswalkRow) : Crosswalk :=
  if h : c.rows.any r.clashes = true then c else c.insert r h

end Crosswalk

/-- The core tables and the crosswalk. -/
structure Tables where
  db : Db
  crosswalk : Crosswalk

/-! ## The scan -/

/-- What a scan reads of a memory or a claim. -/
structure Target where
  kind : String
  id : String
  contentHash : String
  sourceId : Option String
  deriving DecidableEq

/-- The row that a target is mapped by. -/
def Target.row (t : Target) (userId now : String) : CrosswalkRow where
  userId := userId
  canonicalRef := t.kind ++ ":" ++ t.id
  parallaxTargetKind := t.kind
  parallaxTargetId := t.id
  queryType := none
  state := .mapped
  contentHash := t.contentHash
  sourceId := t.sourceId
  vaultPath := none
  aphelionDocId := none
  lastEventIdSeen := none
  lastEmbeddedAt := none
  createdAt := now
  updatedAt := now

/-- The memories of a user, `ORDER BY created_at ASC, memory_id ASC`. -/
def memoryTargets (db : Db) (userId : String) : List Target :=
  let rows := (db.memories.filter (·.userId == userId)).insertionSort fun m n =>
    toLex (m.createdAt, m.memoryId) ≤ toLex (n.createdAt, n.memoryId)
  rows.map fun m => ⟨"memory", m.memoryId, m.contentHash, m.sourceId⟩

/-- The claims of a user, `ORDER BY created_at ASC, claim_id ASC`. -/
def claimTargets (db : Db) (userId : String) : List Target :=
  let rows := (db.claims.filter (·.userId == userId)).insertionSort fun c d =>
    toLex (c.createdAt, c.claimId) ≤ toLex (d.createdAt, d.claimId)
  rows.map fun c => ⟨"claim", c.claimId, c.contentHash, some c.sourceId⟩

structure BackfillStats where
  rowsExamined : Nat
  rowsInserted : Nat
  rowsSkippedExisting : Nat
  batchLimitReached : Bool
  memoriesInserted : Nat
  claimsInserted : Nat
  deriving DecidableEq

/-- Nothing examined yet. -/
def BackfillStats.start : BackfillStats := ⟨0, 0, 0, false, 0, 0⟩

/-- The counts after one more row. -/
def BackfillStats.count (stats : BackfillStats) (t : Target) (inserted : Bool) : BackfillStats :=
  let stats := { stats with rowsExamined := stats.rowsExamined + 1 }
  if inserted then
    let stats := { stats with rowsInserted := stats.rowsInserted + 1 }
    if t.kind = "memory" then { stats with memoriesInserted := stats.memoriesInserted + 1 }
    else { stats with claimsInserted := stats.claimsInserted + 1 }
  else { stats with rowsSkippedExisting := stats.rowsSkippedExisting + 1 }

@[simp] theorem BackfillStats.count_rowsExamined (stats : BackfillStats) (t : Target)
    (inserted : Bool) : (stats.count t inserted).rowsExamined = stats.rowsExamined + 1 := by
  unfold count
  split_ifs <;> rfl

@[simp] theorem BackfillStats.count_batchLimitReached (stats : BackfillStats) (t : Target)
    (inserted : Bool) :
    (stats.count t inserted).batchLimitReached = stats.batchLimitReached := by
  unfold count
  split_ifs <;> rfl

@[simp] theorem BackfillStats.count_rowsInserted (stats : BackfillStats) (t : Target)
    (inserted : Bool) :
    (stats.count t inserted).rowsInserted = stats.rowsInserted + inserted.toNat := by
  unfold count
  cases inserted with
  | false => rfl
  | true =>
    dsimp only
    split_ifs
    · rfl
    · rfl
    · contradiction

/-- The loop over the rows of one table. -/
def scan (userId now : String) (limit : Nat) :
    List Target → Crosswalk × BackfillStats → Crosswalk × BackfillStats
  | [], (c, stats) => (c, stats)
  | t :: rows, (c, stats) =>
    if limit ≤ stats.rowsExamined then (c, { stats with batchLimitReached := true })
    else
      let inserted := !c.rows.any (t.row userId now).clashes
      scan userId now limit rows
        (c.insertOrIgnore (t.row userId now), stats.count t inserted)

/-- `backfill_crosswalk` for the limit in force. `gated` says whether a live `SQLiteGate` wraps the
connection. -/
def backfillCrosswalk (gated : Bool) (userId : String) (limit : Nat) (now : String) (x : Tables) :
    Except Exc (Tables × BackfillStats) :=
  if gated then
    .error (.valueError ("backfill_crosswalk(conn=...) called with a connection that is " ++
      "currently wrapped by a live SQLiteGate. Use a dedicated sqlite3.Connection for the " ++
      "backfill (see module docstring)."))
  else
    let (c, stats) := scan userId now limit (memoryTargets x.db userId) (x.crosswalk, .start)
    if stats.batchLimitReached then .ok ({ x with crosswalk := c }, stats)
    else
      let (c, stats) := scan userId now limit (claimTargets x.db userId) (c, stats)
      .ok ({ x with crosswalk := c }, stats)

/-! ## What a scan leaves -/

namespace Crosswalk

theorem mem_insertOrIgnore {c : Crosswalk} {r s : CrosswalkRow}
    (h : s ∈ (c.insertOrIgnore r).rows) : s ∈ c.rows ∨ s = r := by
  unfold insertOrIgnore at h
  split at h
  · exact .inl h
  · simpa [insert] using h

theorem subset_insertOrIgnore (c : Crosswalk) (r : CrosswalkRow) :
    c.rows ⊆ (c.insertOrIgnore r).rows := by
  unfold insertOrIgnore
  split
  · exact List.Subset.refl _
  · exact List.subset_append_left _ _

theorem insertOrIgnore_blocked (c : Crosswalk) (r : CrosswalkRow) :
    ∃ s ∈ (c.insertOrIgnore r).rows, r.clashes s = true := by
  unfold insertOrIgnore
  split
  · next h => exact List.any_eq_true.1 h
  · exact ⟨r, by simp [insert], by simp [CrosswalkRow.clashes]⟩

theorem length_insertOrIgnore (c : Crosswalk) (r : CrosswalkRow) :
    (c.insertOrIgnore r).rows.length = c.rows.length + (!c.rows.any r.clashes).toNat := by
  unfold insertOrIgnore
  split
  · next h => simp [h]
  · next h => simp [Bool.eq_false_iff.2 h, insert]

theorem insertOrIgnore_of_blocked {c : Crosswalk} {r : CrosswalkRow}
    (h : ∃ s ∈ c.rows, r.clashes s = true) : c.insertOrIgnore r = c :=
  dif_pos (List.any_eq_true.2 h)

/-- The rows of a set of users that the new row does not belong to stay. -/
theorem filter_insertOrIgnore (c : Crosswalk) {r : CrosswalkRow} {p : CrosswalkRow → Bool}
    (h : p r = false) : (c.insertOrIgnore r).rows.filter p = c.rows.filter p := by
  unfold insertOrIgnore
  split
  · rfl
  · simp [insert, h]

/-- The crosswalk after the inserts for the targets. -/
def fill (userId now : String) (targets : List Target) (c : Crosswalk) : Crosswalk :=
  targets.foldl (fun c t => c.insertOrIgnore (t.row userId now)) c

variable {userId now : String} {targets : List Target} {c : Crosswalk}

@[simp] theorem fill_nil : c.fill userId now [] = c := rfl

@[simp] theorem fill_cons (t : Target) :
    c.fill userId now (t :: targets) =
      (c.insertOrIgnore (t.row userId now)).fill userId now targets := rfl

theorem fill_append (targets' : List Target) : c.fill userId now (targets ++ targets') =
    (c.fill userId now targets).fill userId now targets' := List.foldl_append

theorem mem_fill {r : CrosswalkRow} (h : r ∈ (c.fill userId now targets).rows) :
    r ∈ c.rows ∨ ∃ t ∈ targets, r = t.row userId now := by
  induction targets generalizing c with
  | nil => exact .inl h
  | cons t targets ih =>
    rw [fill_cons] at h
    cases ih h with
    | inl hmem =>
      cases mem_insertOrIgnore hmem with
      | inl hold => exact .inl hold
      | inr hnew => exact .inr ⟨t, List.mem_cons_self, hnew⟩
    | inr hnew =>
      obtain ⟨t', ht', hr⟩ := hnew
      exact .inr ⟨t', List.mem_cons_of_mem t ht', hr⟩

theorem subset_fill : c.rows ⊆ (c.fill userId now targets).rows := by
  induction targets generalizing c with
  | nil => exact List.Subset.refl _
  | cons t targets ih => exact fun r hr => ih (subset_insertOrIgnore c _ hr)

variable (userId now c) in
/-- Every target has its row or is kept from one by a row that clashes with it. -/
theorem fill_blocked {t : Target} (ht : t ∈ targets) :
    ∃ r ∈ (c.fill userId now targets).rows, (t.row userId now).clashes r = true := by
  induction targets generalizing c with
  | nil => exact absurd ht List.not_mem_nil
  | cons t' targets ih =>
    rw [fill_cons]
    cases List.mem_cons.1 ht with
    | inl heq =>
      obtain ⟨r, hr, hclash⟩ := insertOrIgnore_blocked c (t'.row userId now)
      exact ⟨r, subset_fill hr, heq ▸ hclash⟩
    | inr hmem => exact ih _ hmem

theorem fill_of_blocked
    (h : ∀ t ∈ targets, ∃ r ∈ c.rows, (t.row userId now).clashes r = true) :
    c.fill userId now targets = c := by
  induction targets with
  | nil => rfl
  | cons t targets ih =>
    rw [fill_cons, insertOrIgnore_of_blocked (h t List.mem_cons_self)]
    exact ih fun t' ht' => h t' (List.mem_cons_of_mem t ht')

theorem filter_fill {p : CrosswalkRow → Bool}
    (h : ∀ t : Target, p (t.row userId now) = false) :
    (c.fill userId now targets).rows.filter p = c.rows.filter p := by
  induction targets generalizing c with
  | nil => rfl
  | cons t targets ih => rw [fill_cons, ih, filter_insertOrIgnore c (h t)]

end Crosswalk

section Scan

variable (userId now : String) (limit : Nat)

/-- A scan does the inserts for the rows that the limit leaves it. -/
theorem scan_crosswalk (rows : List Target) (c : Crosswalk) (stats : BackfillStats) :
    (scan userId now limit rows (c, stats)).1 =
      c.fill userId now (rows.take (limit - stats.rowsExamined)) := by
  induction rows generalizing c stats with
  | nil => simp [scan]
  | cons t rows ih =>
    rw [scan]
    split_ifs with hlimit
    · simp [Nat.sub_eq_zero_of_le hlimit]
    · obtain ⟨room, hroom⟩ : ∃ room, limit - stats.rowsExamined = room + 1 :=
        ⟨limit - stats.rowsExamined - 1, by omega⟩
      have hrest : limit - (stats.rowsExamined + 1) = room := by omega
      rw [ih, BackfillStats.count_rowsExamined, hrest, hroom, List.take_succ_cons, Crosswalk.fill_cons]

/-- The limit counts the rows that are examined. -/
theorem scan_reached (rows : List Target) (c : Crosswalk) (stats : BackfillStats)
    (h : stats.batchLimitReached = false) :
    ((scan userId now limit rows (c, stats)).2.batchLimitReached = true ↔
      limit < stats.rowsExamined + rows.length ∧ rows ≠ []) ∧
    ((scan userId now limit rows (c, stats)).2.batchLimitReached = false →
      (scan userId now limit rows (c, stats)).2.rowsExamined =
        stats.rowsExamined + rows.length) := by
  induction rows generalizing c stats with
  | nil => simp [scan, h]
  | cons t rows ih =>
    rw [scan]
    split_ifs with hlimit
    · simp only [List.length_cons, ne_eq, reduceCtorEq, not_false_eq_true, and_true, true_iff,
        false_implies]
      omega
    · obtain ⟨ih, ihexamined⟩ := ih (c.insertOrIgnore (t.row userId now))
        (stats.count t (!c.rows.any (t.row userId now).clashes)) (by simpa using h)
      rw [BackfillStats.count_rowsExamined] at ih ihexamined
      refine ⟨?_, fun hnot => ?_⟩
      · rw [ih, List.length_cons]
        cases rows with
        | nil =>
          have hnot : ¬ limit < stats.rowsExamined + 1 := by omega
          simp [hnot]
        | cons t' rows =>
          simp only [ne_eq, reduceCtorEq, not_false_eq_true, and_true]
          omega
      · rw [ihexamined hnot, List.length_cons]
        omega

/-- The rows that a scan reports as inserted are those that the table has gained. -/
theorem scan_inserted (rows : List Target) (c : Crosswalk) (stats : BackfillStats) :
    (scan userId now limit rows (c, stats)).2.rowsInserted + c.rows.length =
      stats.rowsInserted + (scan userId now limit rows (c, stats)).1.rows.length := by
  induction rows generalizing c stats with
  | nil => rfl
  | cons t rows ih =>
    rw [scan]
    split_ifs with hlimit
    · rfl
    · have hrest := ih (c.insertOrIgnore (t.row userId now))
        (stats.count t (!c.rows.any (t.row userId now).clashes))
      rw [BackfillStats.count_rowsInserted, Crosswalk.length_insertOrIgnore] at hrest
      dsimp only at hrest ⊢
      omega

end Scan

/-- The rows that a backfill of the user goes through. -/
def targets (db : Db) (userId : String) : List Target :=
  memoryTargets db userId ++ claimTargets db userId

/-- One call maps the first targets, up to the limit, and says whether there are more. -/
theorem backfillCrosswalk_ok (userId : String) (limit : Nat) (now : String) (x : Tables) :
    ∃ stats, backfillCrosswalk false userId limit now x =
      .ok ({ x with crosswalk :=
        x.crosswalk.fill userId now ((targets x.db userId).take limit) }, stats) ∧
      (stats.batchLimitReached = true ↔ limit < (targets x.db userId).length) ∧
      stats.rowsInserted + x.crosswalk.rows.length =
        (x.crosswalk.fill userId now ((targets x.db userId).take limit)).rows.length := by
  obtain ⟨hreached, hexamined⟩ := scan_reached userId now limit (memoryTargets x.db userId)
    x.crosswalk .start rfl
  have hfill := scan_crosswalk userId now limit (memoryTargets x.db userId) x.crosswalk .start
  have hinserted := scan_inserted userId now limit (memoryTargets x.db userId) x.crosswalk .start
  unfold backfillCrosswalk targets
  simp only [Bool.false_eq_true, if_false]
  generalize scan userId now limit (memoryTargets x.db userId) (x.crosswalk, .start) = first at *
  obtain ⟨c, stats⟩ := first
  simp only [BackfillStats.start, Nat.zero_add, Nat.sub_zero] at hreached hexamined hfill hinserted
  dsimp only
  cases hstop : stats.batchLimitReached with
  | true =>
    obtain ⟨hmore, -⟩ := hreached.1 hstop
    have htake : (memoryTargets x.db userId ++ claimTargets x.db userId).take limit =
        (memoryTargets x.db userId).take limit :=
      List.take_append_of_le_length (Nat.le_of_lt hmore)
    rw [htake, ← hfill, List.length_append]
    exact ⟨stats, rfl, iff_of_true hstop (by omega), hinserted⟩
  | false =>
    have hmemories := hexamined hstop
    have hroom : (memoryTargets x.db userId).length ≤ limit := by
      by_contra hmore
      have hnonempty : memoryTargets x.db userId ≠ [] := by
        intro hnil
        simp [hnil] at hmore
      rw [hreached.2 ⟨Nat.lt_of_not_le hmore, hnonempty⟩] at hstop
      cases hstop
    obtain ⟨hreached', -⟩ := scan_reached userId now limit (claimTargets x.db userId) c stats hstop
    have hfill' := scan_crosswalk userId now limit (claimTargets x.db userId) c stats
    have hinserted' := scan_inserted userId now limit (claimTargets x.db userId) c stats
    have htotal : (scan userId now limit (claimTargets x.db userId) (c, stats)).1 =
        x.crosswalk.fill userId now
          ((memoryTargets x.db userId ++ claimTargets x.db userId).take limit) := by
      rw [hfill', List.take_append, Crosswalk.fill_append, hfill, hmemories]
    rw [← htotal]
    refine ⟨_, rfl, ?_, by omega⟩
    rw [hreached', hmemories, List.length_append]
    refine and_iff_left_of_imp fun hmore hnil => ?_
    rw [hnil] at hmore
    simp only [List.length_nil] at hmore
    omega

/-! ## Calls until the limit is not reached -/

/-- Calls one after the other: what the call of each number returns. -/
def calls (gated : Bool) (userId : String) (limit : Nat) (clock : Nat → String) (x : Tables) :
    Nat → Except Exc (Tables × BackfillStats)
  | 0 => backfillCrosswalk gated userId limit (clock 0) x
  | n + 1 => do
    let (y, _) ← calls gated userId limit clock x n
    backfillCrosswalk gated userId limit (clock (n + 1)) y

/-- Exactly one row maps the entity. -/
def Crosswalk.Maps (c : Crosswalk) (userId kind id : String) : Prop :=
  ∃! r, r ∈ c.rows ∧ r.target = (userId, kind, id)

/-- The tables after the last call: everything of the user is mapped, nothing else has changed, and
no further call inserts a row. -/
structure Backfilled (userId : String) (x y : Tables) : Prop where
  memories : ∀ m ∈ x.db.memories, m.userId = userId →
    y.crosswalk.Maps userId "memory" m.memoryId
  claims : ∀ c ∈ x.db.claims, c.userId = userId → y.crosswalk.Maps userId "claim" c.claimId
  db_eq : y.db = x.db
  others : y.crosswalk.rows.filter (·.userId != userId) =
    x.crosswalk.rows.filter (·.userId != userId)
  idle : ∀ limit now, ∃ stats, backfillCrosswalk false userId limit now y = .ok (y, stats) ∧
    stats.rowsInserted = 0

/-- Calling again as long as the limit was reached comes to an end, with everything mapped. -/
def Completes (gated : Bool) (userId : String) (limit : Nat) (clock : Nat → String) (x : Tables) :
    Prop :=
  ∃ n y stats, calls gated userId limit clock x n = .ok (y, stats) ∧
    stats.batchLimitReached = false ∧
    (∀ i < n, ∃ z stats, calls gated userId limit clock x i = .ok (z, stats) ∧
      stats.batchLimitReached = true) ∧
    Backfilled userId x y

/-- A backfill can complete: the connection is not gated, one batch holds all memories and claims
of the user, and a row that has the reference of one of them leaves it its own row. -/
structure Completable (gated : Bool) (userId : String) (limit : Nat) (x : Tables) : Prop where
  not_gated : gated = false
  one_batch : (x.db.memories.filter (·.userId == userId)).length +
    (x.db.claims.filter (·.userId == userId)).length ≤ limit
  refs_free : ∀ t ∈ targets x.db userId, ∀ r ∈ x.crosswalk.rows,
    r.ref = (userId, t.kind ++ ":" ++ t.id) →
    ∃ s ∈ x.crosswalk.rows, s.target = (userId, t.kind, t.id)

theorem length_targets (db : Db) (userId : String) : (targets db userId).length =
    (db.memories.filter (·.userId == userId)).length +
      (db.claims.filter (·.userId == userId)).length := by
  simp [targets, memoryTargets, claimTargets, List.length_insertionSort]

theorem mem_memoryTargets {db : Db} {userId : String} {t : Target} :
    t ∈ memoryTargets db userId ↔ ∃ m ∈ db.memories, m.userId = userId ∧
      t = ⟨"memory", m.memoryId, m.contentHash, m.sourceId⟩ := by
  simp only [memoryTargets, List.mem_map, List.mem_insertionSort, List.mem_filter, beq_iff_eq,
    and_assoc, eq_comm (a := t)]

theorem mem_claimTargets {db : Db} {userId : String} {t : Target} :
    t ∈ claimTargets db userId ↔ ∃ c ∈ db.claims, c.userId = userId ∧
      t = ⟨"claim", c.claimId, c.contentHash, some c.sourceId⟩ := by
  simp only [claimTargets, List.mem_map, List.mem_insertionSort, List.mem_filter, beq_iff_eq,
    and_assoc, eq_comm (a := t)]

theorem targets_kind {db : Db} {userId : String} {t : Target} (ht : t ∈ targets db userId) :
    t.kind = "memory" ∨ t.kind = "claim" := by
  cases List.mem_append.1 ht with
  | inl h =>
    obtain ⟨m, -, -, rfl⟩ := mem_memoryTargets.1 h
    exact .inl rfl
  | inr h =>
    obtain ⟨c, -, -, rfl⟩ := mem_claimTargets.1 h
    exact .inr rfl

/-- A reference names one memory or claim. -/
theorem ref_inj {s t : Target} (hs : s.kind = "memory" ∨ s.kind = "claim")
    (ht : t.kind = "memory" ∨ t.kind = "claim")
    (h : s.kind ++ ":" ++ s.id = t.kind ++ ":" ++ t.id) : s.kind = t.kind ∧ s.id = t.id := by
  have hlist := congrArg String.toList h
  simp only [String.toList_append] at hlist
  rcases hs with hs | hs <;> rcases ht with ht | ht <;> rw [hs, ht] at hlist ⊢
  · exact ⟨rfl, String.toList_inj.1 (by simpa using hlist)⟩
  · simp at hlist
  · simp at hlist
  · exact ⟨rfl, String.toList_inj.1 (by simpa using hlist)⟩

theorem maps_iff (c : Crosswalk) (userId kind id : String) :
    c.Maps userId kind id ↔ ∃ r ∈ c.rows, r.target = (userId, kind, id) := by
  constructor
  · rintro ⟨r, ⟨hr, htarget⟩, -⟩
    exact ⟨r, hr, htarget⟩
  · rintro ⟨r, hr, htarget⟩
    refine ⟨r, ⟨hr, htarget⟩, ?_⟩
    rintro s ⟨hs, hs'⟩
    exact List.inj_on_of_nodup_map c.target_nodup hs hr (hs'.trans htarget.symm)

/-- After a scan of all targets, one is mapped unless another row holds its reference. -/
theorem maps_fill_iff {x : Tables} {userId : String} (now : String) {t : Target}
    (ht : t ∈ targets x.db userId) :
    (x.crosswalk.fill userId now (targets x.db userId)).Maps userId t.kind t.id ↔
      ∀ r ∈ x.crosswalk.rows, r.ref = (userId, t.kind ++ ":" ++ t.id) →
        ∃ s ∈ x.crosswalk.rows, s.target = (userId, t.kind, t.id) := by
  have hkind := targets_kind ht
  rw [maps_iff]
  constructor
  · rintro ⟨s, hs, htarget⟩ r hr href
    cases Crosswalk.mem_fill hs with
    | inl hold => exact ⟨s, hold, htarget⟩
    | inr hnew =>
      obtain ⟨t', -, rfl⟩ := hnew
      have hname : t'.kind = t.kind ∧ t'.id = t.id := by
        simpa [CrosswalkRow.target, Target.row] using htarget
      have heq : r = t'.row userId now :=
        List.inj_on_of_nodup_map (x.crosswalk.fill userId now (targets x.db userId)).ref_nodup
          (Crosswalk.subset_fill hr) hs
          (by rw [href, CrosswalkRow.ref, Target.row, hname.1, hname.2])
      exact ⟨r, hr, heq ▸ htarget⟩
  · intro h
    obtain ⟨r, hr, hclash⟩ := Crosswalk.fill_blocked userId now x.crosswalk ht
    simp only [CrosswalkRow.clashes, Bool.or_eq_true, beq_iff_eq] at hclash
    cases hclash with
    | inr htarget => exact ⟨r, hr, htarget⟩
    | inl href =>
      cases Crosswalk.mem_fill hr with
      | inl hold =>
        obtain ⟨s, hs, htarget⟩ := h r hold href
        exact ⟨s, Crosswalk.subset_fill hs, htarget⟩
      | inr hnew =>
        obtain ⟨t', ht', rfl⟩ := hnew
        have hname := ref_inj (targets_kind ht') hkind (Prod.mk.inj href).2
        exact ⟨_, hr, by rw [CrosswalkRow.target, Target.row, hname.1, hname.2]⟩

/-- After a scan of all targets, no call inserts anything. -/
theorem idle_fill (x : Tables) (userId now : String) (limit : Nat) (now' : String) :
    ∃ stats, backfillCrosswalk false userId limit now'
      { x with crosswalk := x.crosswalk.fill userId now (targets x.db userId) } =
      .ok ({ x with crosswalk := x.crosswalk.fill userId now (targets x.db userId) }, stats) ∧
      stats.rowsInserted = 0 := by
  obtain ⟨stats, hok, -, hinserted⟩ := backfillCrosswalk_ok userId limit now'
    { x with crosswalk := x.crosswalk.fill userId now (targets x.db userId) }
  have hsame : (x.crosswalk.fill userId now (targets x.db userId)).fill userId now'
      ((targets x.db userId).take limit) = x.crosswalk.fill userId now (targets x.db userId) :=
    Crosswalk.fill_of_blocked fun t ht =>
      Crosswalk.fill_blocked userId now x.crosswalk (List.mem_of_mem_take ht)
  dsimp only at hok hinserted
  rw [hsame] at hok hinserted
  exact ⟨stats, hok, by omega⟩

theorem backfilled_fill_iff (x : Tables) (userId now : String) :
    Backfilled userId x
      { x with crosswalk := x.crosswalk.fill userId now (targets x.db userId) } ↔
    ∀ t ∈ targets x.db userId, ∀ r ∈ x.crosswalk.rows,
      r.ref = (userId, t.kind ++ ":" ++ t.id) →
      ∃ s ∈ x.crosswalk.rows, s.target = (userId, t.kind, t.id) := by
  constructor
  · intro h t ht
    rw [← maps_fill_iff now ht]
    cases List.mem_append.1 ht with
    | inl hmemory =>
      obtain ⟨m, hm, huser, rfl⟩ := mem_memoryTargets.1 hmemory
      exact h.memories m hm huser
    | inr hclaim =>
      obtain ⟨c, hc, huser, rfl⟩ := mem_claimTargets.1 hclaim
      exact h.claims c hc huser
  · intro h
    constructor
    · intro m hm huser
      have ht : ⟨"memory", m.memoryId, m.contentHash, m.sourceId⟩ ∈ targets x.db userId :=
        List.mem_append_left _ (mem_memoryTargets.2 ⟨m, hm, huser, rfl⟩)
      exact (maps_fill_iff now ht).2 (h _ ht)
    · intro c hc huser
      have ht : ⟨"claim", c.claimId, c.contentHash, some c.sourceId⟩ ∈ targets x.db userId :=
        List.mem_append_right _ (mem_claimTargets.2 ⟨c, hc, huser, rfl⟩)
      exact (maps_fill_iff now ht).2 (h _ ht)
    · rfl
    · exact Crosswalk.filter_fill fun t => by simp [Target.row]
    · exact fun limit now' => idle_fill x userId now limit now'

/-- Beyond the limit, every call reports that it was reached. -/
theorem calls_reached {userId : String} {limit : Nat} {x : Tables}
    (h : limit < (targets x.db userId).length) (clock : Nat → String) (n : Nat) :
    ∃ y stats, calls false userId limit clock x n = .ok (y, stats) ∧ y.db = x.db ∧
      stats.batchLimitReached = true := by
  induction n with
  | zero =>
    obtain ⟨stats, hok, hreached, -⟩ := backfillCrosswalk_ok userId limit (clock 0) x
    exact ⟨_, stats, hok, rfl, hreached.2 h⟩
  | succ n ih =>
    obtain ⟨y, stats, hcall, hdb, -⟩ := ih
    obtain ⟨stats', hok, hreached, -⟩ := backfillCrosswalk_ok userId limit (clock (n + 1)) y
    have hnext : calls false userId limit clock x (n + 1) =
        backfillCrosswalk false userId limit (clock (n + 1)) y := by
      rw [calls, hcall]
      rfl
    rw [hdb] at hreached
    exact ⟨_, stats', hnext.trans hok, hdb, hreached.2 h⟩

theorem calls_gated (userId : String) (limit : Nat) (clock : Nat → String) (x : Tables) (n : Nat) :
    ∃ e, calls true userId limit clock x n = .error e := by
  induction n with
  | zero => exact ⟨_, rfl⟩
  | succ n ih =>
    obtain ⟨e, he⟩ := ih
    exact ⟨e, by rw [calls, he]; rfl⟩

/-- Calls complete the backfill exactly if one batch does. -/
theorem completes_iff (gated : Bool) (userId : String) (limit : Nat) (clock : Nat → String)
    (x : Tables) : Completes gated userId limit clock x ↔ Completable gated userId limit x := by
  constructor
  · rintro ⟨n, y, stats, hcall, hreached, hbefore, hdone⟩
    have hgated : gated = false := by
      by_contra hgated
      obtain ⟨e, he⟩ := calls_gated userId limit clock x n
      rw [Bool.not_eq_false] at hgated
      rw [hgated, he] at hcall
      cases hcall
    subst hgated
    have hbatch : (targets x.db userId).length ≤ limit := by
      by_contra hmore
      obtain ⟨y', stats', hcall', -, hreached'⟩ :=
        calls_reached (Nat.lt_of_not_le hmore) clock n
      rw [hcall] at hcall'
      cases hcall'
      rw [hreached] at hreached'
      cases hreached'
    have hn : n = 0 := by
      by_contra hn
      obtain ⟨z, stats', hfirst, hreached'⟩ := hbefore 0 (Nat.pos_of_ne_zero hn)
      obtain ⟨stats₀, hok, hreached₀, -⟩ := backfillCrosswalk_ok userId limit (clock 0) x
      rw [calls, hok] at hfirst
      cases hfirst
      exact absurd (hreached₀.1 hreached') (by omega)
    subst hn
    obtain ⟨stats₀, hok, -, -⟩ := backfillCrosswalk_ok userId limit (clock 0) x
    rw [calls, hok, List.take_of_length_le hbatch] at hcall
    cases hcall
    exact ⟨rfl, length_targets x.db userId ▸ hbatch,
      (backfilled_fill_iff x userId (clock 0)).1 hdone⟩
  · rintro ⟨rfl, hbatch, hrefs⟩
    rw [← length_targets] at hbatch
    obtain ⟨stats, hok, hreached, -⟩ := backfillCrosswalk_ok userId limit (clock 0) x
    rw [List.take_of_length_le hbatch] at hok
    refine ⟨0, _, stats, hok, ?_, fun i hi => absurd hi (Nat.not_lt_zero i),
      (backfilled_fill_iff x userId (clock 0)).2 hrefs⟩
    rw [Bool.eq_false_iff]
    exact fun hmore => absurd (hreached.1 hmore) (by omega)

/-! ### Two memories, one at a time -/

def sampleMemory (id : String) : Memory where
  memoryId := id
  userId := "u"
  sourceId := none
  vaultPath := "users/u/memories/" ++ id ++ ".md"
  title := none
  summary := none
  contentHash := id
  state := "active"
  createdAt := "2026-04-21T00:00:00.000000+00:00"
  updatedAt := "2026-04-21T00:00:00.000000+00:00"

def sampleTables : Tables where
  db := { Db.empty with memories := [sampleMemory "a", sampleMemory "b"] }
  crosswalk := .empty

/-- With a limit of one, the second memory is never reached. -/
theorem backfill_stuck :
    ¬ ∀ x userId limit, 1 ≤ limit → ∀ clock, Completes false userId limit clock x := by
  intro h
  have hdone := h sampleTables "u" 1 (Nat.le_refl 1) fun _ => "2026-04-22T00:00:00+00:00"
  have hbatch := ((completes_iff _ _ _ _ _).1 hdone).one_batch
  revert hbatch
  decide

end ParallaxKernel.Router
