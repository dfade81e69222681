import ParallaxKernel.Lib.Act
import ParallaxKernel.Lib.Regex
import ParallaxKernel.Router.CrosswalkBackfill
import ParallaxKernel.Router.DualRead

/-!
# Planning and running a backfill

`BackfillRunner`: the plan, the dry run and the run that writes each enumerate the claims and
memories of a user themselves. The crosswalk has two unique keys, and the upsert of a run resolves a
conflict on the reference only: a run with a target that another reference holds raises.
-/

namespace ParallaxKernel.Router

open Lib Store

/-! ## Routing -/

/-- `CROSSWALK_SEED`. -/
def crosswalkSeed : List (String × QueryType) :=
  [("Intent.TEMPORAL", .temporalContext),
    ("Intent.MULTI_SESSION", .recentContext),
    ("Intent.PREFERENCE", .entityProfile),
    ("Intent.USER_FACT", .entityProfile),
    ("Intent.KNOWLEDGE_UPDATE", .changeTrace),
    ("RetrieveKind.recent", .recentContext),
    ("RetrieveKind.file", .artifactContext),
    ("RetrieveKind.decision", .changeTrace),
    ("RetrieveKind.bug", .changeTrace),
    ("RetrieveKind.entity", .entityProfile),
    ("RetrieveKind.timeline", .temporalContext)]

/-- `resolve`; `none` where it raises `UnroutableQueryError`. -/
def resolve (legacy : String) : Option QueryType :=
  (crosswalkSeed.find? (·.1 == legacy)).map (·.2)

/-- A letter under `re.IGNORECASE`. -/
def anyCase (p c : Char) : Bool := c.toLower == p || (p == 'i' && (c == 'İ' || c == 'ı'))

/-- A word under `re.IGNORECASE`. -/
def word : List Char → Regex
  | [] => .opt (.cls fun _ => false)
  | [p] => .cls (anyCase p)
  | p :: ps => .seq (.cls (anyCase p)) (word ps)

/-- `_BUG_RE`. -/
def bugRe : Regex :=
  .seq
    (.alt (word "fix".toList)
      (.alt
        (.seq (word "bug".toList)
          (.seq (.opt (.cls fun c => c = '_' || c = '-')) (word "fix".toList)))
        (word "bugfix".toList)))
    (.alt (.chr ':') .eol)

/-- `_classify_claim_predicate`. Among the characters that `str.lower` maps to letters of ASCII
alone there are only letters of ASCII. -/
def classifyClaimPredicate (predicate : String) : String :=
  if (predicate.toList.take 9).map Char.toLower = "decision:".toList then "RetrieveKind.decision"
  else if (bugRe.match_ predicate.toList).isSome then "RetrieveKind.bug"
  else "RetrieveKind.entity"

example : classifyClaimPredicate "Decision:db" = "RetrieveKind.decision" := by decide
example : classifyClaimPredicate "bug-FIX" = "RetrieveKind.bug" := by decide
example : classifyClaimPredicate "bugs" = "RetrieveKind.entity" := by decide

/-! ## The rows of a scope -/

inductive Scope where
  | all
  | sample
  deriving DecidableEq

/-- The limit for a scope: 50, or `_MAX_BACKFILL_ROWS`. -/
def Scope.limit : Scope → Nat
  | .sample => 50
  | .all => 10000

/-- `ORDER BY created_at DESC, claim_id ASC LIMIT ?`. -/
def claimRows (db : Db) (userId : String) (limit : Nat) : List Store.Claim :=
  ((db.claims.filter (·.userId == userId)).insertionSort fun c d =>
    toLex (OrderDual.toDual c.createdAt, c.claimId) ≤
      toLex (OrderDual.toDual d.createdAt, d.claimId)).take limit

/-- `ORDER BY created_at DESC, memory_id ASC LIMIT ?`. -/
def memoryRows (db : Db) (userId : String) (limit : Nat) : List Memory :=
  ((db.memories.filter (·.userId == userId)).insertionSort fun m n =>
    toLex (OrderDual.toDual m.createdAt, m.memoryId) ≤
      toLex (OrderDual.toDual n.createdAt, n.memoryId)).take limit

/-- What a loop of the enumeration reads of a row. -/
structure Entry extends Target where
  probeKey : String
  vaultPath : Option String
  deriving DecidableEq

def claimEntry (c : Store.Claim) : Entry where
  kind := "claim"
  id := c.claimId
  contentHash := c.contentHash
  sourceId := some c.sourceId
  probeKey := classifyClaimPredicate c.predicate
  vaultPath := none

def memoryEntry (m : Memory) : Entry where
  kind := "memory"
  id := m.memoryId
  contentHash := m.contentHash
  sourceId := m.sourceId
  probeKey := "RetrieveKind.recent"
  vaultPath := some m.vaultPath

namespace Entry

def canonicalRef (t : Entry) : String := t.kind ++ ":" ++ t.id

def state (t : Entry) : MappingState :=
  match resolve t.probeKey with
  | some _ => .mapped
  | none => .unmapped

/-- The row that an upsert of the entry passes. -/
def crosswalkRow (t : Entry) (userId now : String) : CrosswalkRow where
  userId := userId
  canonicalRef := t.canonicalRef
  parallaxTargetKind := t.kind
  parallaxTargetId := t.id
  queryType := (resolve t.probeKey).map QueryType.value
  state := t.state
  contentHash := t.contentHash
  sourceId := t.sourceId
  vaultPath := t.vaultPath
  aphelionDocId := none
  lastEventIdSeen := none
  lastEmbeddedAt := none
  createdAt := now
  updatedAt := now

end Entry

/-! ## The upsert -/

/-- `DO UPDATE SET`, for the row that holds the reference. -/
def CrosswalkRow.update (s r : CrosswalkRow) : CrosswalkRow :=
  { s with
    parallaxTargetKind := r.parallaxTargetKind
    parallaxTargetId := r.parallaxTargetId
    queryType := r.queryType
    state := r.state
    contentHash := r.contentHash
    sourceId := r.sourceId
    vaultPath := r.vaultPath
    updatedAt := r.updatedAt }

def targetTaken : Exc :=
  .integrityError ("UNIQUE constraint failed: crosswalk.user_id, " ++
    "crosswalk.parallax_target_kind, crosswalk.parallax_target_id")

namespace Crosswalk

/-- The row that holds the reference of `r` gets the values of `r`. -/
def updateRow (r s : CrosswalkRow) : CrosswalkRow := if s.ref = r.ref then s.update r else s

@[simp] theorem updateRow_ref (r s : CrosswalkRow) : (updateRow r s).ref = s.ref := by
  unfold updateRow
  split_ifs <;> rfl

theorem updateRow_target (r s : CrosswalkRow) :
    (updateRow r s).target = if s.ref = r.ref then r.target else s.target := by
  unfold updateRow
  split_ifs with h
  · have huser : s.userId = r.userId := congrArg Prod.fst h
    simp [CrosswalkRow.target, CrosswalkRow.update, huser]
  · rfl

/-- The rows after an upsert. -/
def upsertRows (c : Crosswalk) (r : CrosswalkRow) : List CrosswalkRow :=
  if c.rows.any (·.ref == r.ref) then c.rows.map (updateRow r) else c.rows ++ [r]

/-- No other row holds the target of `r`. -/
def Free (c : Crosswalk) (r : CrosswalkRow) : Prop := ∀ s ∈ c.rows, s.target = r.target → s.ref = r.ref

instance (c : Crosswalk) (r : CrosswalkRow) : Decidable (c.Free r) :=
  inferInstanceAs (Decidable (∀ s ∈ c.rows, s.target = r.target → s.ref = r.ref))

variable {c : Crosswalk} {r : CrosswalkRow}

theorem upsertRows_ref_nodup : ((c.upsertRows r).map CrosswalkRow.ref).Nodup := by
  unfold upsertRows
  split_ifs with hany
  · rw [List.map_map]
    have hsame : CrosswalkRow.ref ∘ updateRow r = CrosswalkRow.ref := funext (updateRow_ref r)
    rw [hsame]
    exact c.ref_nodup
  · rw [List.map_append]
    refine List.nodup_append_comm.1 (List.nodup_cons.2 ⟨?_, c.ref_nodup⟩)
    intro hmem
    obtain ⟨s, hs, href⟩ := List.mem_map.1 hmem
    exact hany (List.any_eq_true.2 ⟨s, hs, by simpa using href⟩)

theorem upsertRows_target_nodup (h : c.Free r) :
    ((c.upsertRows r).map CrosswalkRow.target).Nodup := by
  unfold upsertRows
  split_ifs with hany
  · rw [List.map_map]
    refine List.Nodup.map_on ?_ (List.Nodup.of_map _ c.ref_nodup)
    intro s hs t ht heq
    simp only [Function.comp_apply, updateRow_target] at heq
    split_ifs at heq with hsr htr htr
    · exact List.inj_on_of_nodup_map c.ref_nodup hs ht (hsr.trans htr.symm)
    · exact absurd (h t ht heq.symm) htr
    · exact absurd (h s hs heq) hsr
    · exact List.inj_on_of_nodup_map c.target_nodup hs ht heq
  · rw [List.map_append]
    refine List.nodup_append_comm.1 (List.nodup_cons.2 ⟨?_, c.target_nodup⟩)
    intro hmem
    obtain ⟨s, hs, htarget⟩ := List.mem_map.1 hmem
    exact hany (List.any_eq_true.2 ⟨s, hs, by simpa using h s hs htarget⟩)

/-- `_upsert_crosswalk`. -/
def upsert (c : Crosswalk) (r : CrosswalkRow) : Except Exc Crosswalk :=
  if h : c.Free r then .ok ⟨c.upsertRows r, upsertRows_ref_nodup, upsertRows_target_nodup h⟩
  else .error targetTaken

end Crosswalk

/-! ## The enumeration -/

structure EnumCounts where
  rowsMapped : Nat
  rowsUnmapped : Nat
  writesPerformed : Nat
  deriving DecidableEq

/-- One row more of a state. -/
def EnumCounts.count (n : EnumCounts) : MappingState → EnumCounts
  | .mapped => { n with rowsMapped := n.rowsMapped + 1 }
  | _ => { n with rowsUnmapped := n.rowsUnmapped + 1 }

/-- One of the two loops of `_enumerate`. -/
def enumerateRows (write : Bool) (userId now : String) :
    List Entry → Crosswalk × EnumCounts → Except Exc (Crosswalk × EnumCounts)
  | [], acc => .ok acc
  | t :: rows, (c, n) => do
    let n := n.count t.state
    if write then
      let c ← c.upsert (t.crosswalkRow userId now)
      enumerateRows write userId now rows (c, { n with writesPerformed := n.writesPerformed + 1 })
    else enumerateRows write userId now rows (c, n)

structure BackfillRequest where
  userId : String
  dryRun : Bool
  scope : Scope

/-- `_enumerate`: the crosswalk, the counts and the number of rows examined. -/
def enumerate (write : Bool) (request : BackfillRequest) (now : String) (x : Tables) :
    Except Exc (Crosswalk × EnumCounts × Nat) := do
  let claims := claimRows x.db request.userId request.scope.limit
  let (c, n) ← enumerateRows write request.userId now (claims.map claimEntry)
    (x.crosswalk, ⟨0, 0, 0⟩)
  let memories := memoryRows x.db request.userId request.scope.limit
  let (c, n) ← enumerateRows write request.userId now (memories.map memoryEntry) (c, n)
  .ok (c, n, claims.length + memories.length)

structure BackfillReport where
  rowsExamined : Nat
  rowsMapped : Nat
  rowsUnmapped : Nat
  rowsConflict : Nat
  writesPerformed : Nat
  deriving DecidableEq

/-- What a run raises. The messages of the last two hold an incident id. -/
inductive RunError where
  | raised (e : Exc)
  | coreViolated
  | dryRunViolated
  deriving DecidableEq

/-- `_core_fingerprint`, and `_table_snapshot` of the crosswalk. -/
structure Fingerprint where
  core : Db → String
  crosswalk : Crosswalk → String

/-- `run` on a connection that nobody else writes. After a raise the transaction is rolled back, so
the tables are the ones before. -/
def run (F : Fingerprint) (request : BackfillRequest) (now : String) (x : Tables) :
    Except RunError (Tables × BackfillReport) :=
  match enumerate (!request.dryRun) request now x with
  | .error e => .error (.raised e)
  | .ok (c, n, examined) =>
    let y : Tables := { x with crosswalk := c }
    if F.core x.db ≠ F.core y.db then .error .coreViolated
    else if request.dryRun = true ∧ F.crosswalk x.crosswalk ≠ F.crosswalk y.crosswalk then
      .error .dryRunViolated
    else .ok (y, ⟨examined, n.rowsMapped, n.rowsUnmapped, 0, n.writesPerformed⟩)

/-! ## The plan -/

/-- An entry of the plan. -/
structure Planned where
  canonicalRef : String
  targetKind : String
  targetId : String
  state : MappingState
  queryType : Option String
  deriving DecidableEq

def planClaim (c : Store.Claim) : Planned :=
  match resolve (classifyClaimPredicate c.predicate) with
  | some queryType => ⟨"claim:" ++ c.claimId, "claim", c.claimId, .mapped, some queryType.value⟩
  | none => ⟨"claim:" ++ c.claimId, "claim", c.claimId, .unmapped, none⟩

def planMemory (m : Memory) : Planned :=
  match resolve "RetrieveKind.recent" with
  | some queryType => ⟨"memory:" ++ m.memoryId, "memory", m.memoryId, .mapped, some queryType.value⟩
  | none => ⟨"memory:" ++ m.memoryId, "memory", m.memoryId, .unmapped, none⟩

/-- `plan_upserts`. -/
def planUpserts (userId : String) (scope : Scope) (db : Db) : List Planned :=
  ((claimRows db userId scope.limit).map planClaim ++
    (memoryRows db userId scope.limit).map planMemory).insertionSort
      fun p q => p.canonicalRef ≤ q.canonicalRef

/-- What the plan says of a row. -/
def CrosswalkRow.planned (r : CrosswalkRow) : Planned where
  canonicalRef := r.canonicalRef
  targetKind := r.parallaxTargetKind
  targetId := r.parallaxTargetId
  state := r.state
  queryType := r.queryType

/-- The entries of both loops. -/
def entries (db : Db) (userId : String) (scope : Scope) : List Entry :=
  (claimRows db userId scope.limit).map claimEntry ++
    (memoryRows db userId scope.limit).map memoryEntry

/-! ## What upserts leave -/

namespace Crosswalk

variable {c y : Crosswalk} {r s : CrosswalkRow} {rows : List CrosswalkRow}

/-- The row under the reference of `r` after an upsert. -/
def upserted (c : Crosswalk) (r : CrosswalkRow) : CrosswalkRow :=
  match c.rows.find? (·.ref == r.ref) with
  | some s => s.update r
  | none => r

@[simp] theorem upserted_ref : (c.upserted r).ref = r.ref := by
  unfold upserted
  split
  · next s hs =>
    have href : s.ref = r.ref := by simpa using List.find?_some hs
    exact href
  · rfl

theorem upserted_target : (c.upserted r).target = r.target := by
  unfold upserted
  split
  · next s hs =>
    have href : s.ref = r.ref := by simpa using List.find?_some hs
    have huser : s.userId = r.userId := congrArg Prod.fst href
    simp [CrosswalkRow.target, CrosswalkRow.update, huser]
  · rfl

theorem mem_upsertRows : s ∈ c.upsertRows r ↔ (s ∈ c.rows ∧ s.ref ≠ r.ref) ∨ s = c.upserted r := by
  unfold upsertRows upserted
  cases hfind : c.rows.find? (·.ref == r.ref) with
  | none =>
    have hnone : ∀ t ∈ c.rows, t.ref ≠ r.ref := by simpa using List.find?_eq_none.1 hfind
    have hany : ¬ (c.rows.any (·.ref == r.ref)) = true := by simpa using hnone
    rw [if_neg hany, List.mem_append, List.mem_singleton]
    exact or_congr_left (iff_self_and.2 fun hs => hnone s hs)
  | some t =>
    have ht := List.mem_of_find?_eq_some hfind
    have href : t.ref = r.ref := by simpa using List.find?_some hfind
    have hany : (c.rows.any (·.ref == r.ref)) = true :=
      List.any_eq_true.2 ⟨t, ht, by simpa using href⟩
    rw [if_pos hany, List.mem_map]
    constructor
    · rintro ⟨u, hu, rfl⟩
      by_cases hur : u.ref = r.ref
      · refine .inr ?_
        have hut : u = t := List.inj_on_of_nodup_map c.ref_nodup hu ht (hur.trans href.symm)
        rw [updateRow, if_pos hur, hut]
      · rw [updateRow, if_neg hur]
        exact .inl ⟨hu, hur⟩
    · rintro (⟨hs, hne⟩ | rfl)
      · exact ⟨s, hs, if_neg hne⟩
      · exact ⟨t, ht, if_pos href⟩

/-- Rows under other references stay. -/
theorem filter_upsertRows {p : CrosswalkRow → Bool} (hp : ∀ s, s.ref = r.ref → p s = false) :
    (c.upsertRows r).filter p = c.rows.filter p := by
  unfold upsertRows
  split_ifs with hany
  · have hsame : ∀ s ∈ c.rows, updateRow r s = s ∨ (p s = false ∧ p (updateRow r s) = false) := by
      intro s _
      by_cases hs : s.ref = r.ref
      · exact .inr ⟨hp s hs, hp _ (by rwa [updateRow_ref])⟩
      · exact .inl (if_neg hs)
    generalize c.rows = rows at hsame
    induction rows with
    | nil => rfl
    | cons s rows ih =>
      have hrest := ih fun t ht => hsame t (List.mem_cons_of_mem s ht)
      obtain hself | ⟨hs, hupdated⟩ := hsame s List.mem_cons_self
      · rw [List.map_cons, hself, List.filter_cons, List.filter_cons, hrest]
      · rw [List.map_cons, List.filter_cons_of_neg (by simp [hupdated]),
          List.filter_cons_of_neg (by simp [hs]), hrest]
  · rw [List.filter_append, List.filter_singleton, hp r rfl]
    exact List.append_nil _

theorem upsert_of_free (h : c.Free r) : ∃ y, c.upsert r = .ok y ∧ y.rows = c.upsertRows r :=
  ⟨_, dif_pos h, rfl⟩

theorem upsert_eq_ok (h : c.upsert r = .ok y) : c.Free r ∧ y.rows = c.upsertRows r := by
  unfold upsert at h
  split_ifs at h with hfree
  cases h
  exact ⟨hfree, rfl⟩

/-- Upserts one after the other. -/
def upsertAll : List CrosswalkRow → Crosswalk → Except Exc Crosswalk
  | [], c => .ok c
  | r :: rows, c => c.upsert r >>= upsertAll rows

/-- A row that holds the target of one of the rows has its reference, or that of a row before. -/
def AllFree (c : Crosswalk) (rows : List CrosswalkRow) : Prop :=
  ∀ before r after, rows = before ++ r :: after →
    ∀ s ∈ c.rows, s.target = r.target → s.ref ∈ (before ++ [r]).map CrosswalkRow.ref

theorem allFree_cons (htarget : r.target ∉ rows.map CrosswalkRow.target) :
    c.AllFree (r :: rows) ↔ c.Free r ∧ ∀ y : Crosswalk, y.rows = c.upsertRows r → y.AllFree rows := by
  constructor
  · intro h
    have hfree : c.Free r := by
      intro s hs hsr
      simpa using h [] r rows rfl s hs hsr
    refine ⟨hfree, fun y hy before t after hrows s hs hst => ?_⟩
    rw [hy, mem_upsertRows] at hs
    obtain ⟨hs, hne⟩ | rfl := hs
    · have hmem := h (r :: before) t after (by rw [hrows, List.cons_append]) s hs hst
      rw [List.cons_append, List.map_cons, List.mem_cons] at hmem
      exact hmem.resolve_left hne
    · rw [upserted_target] at hst
      refine absurd (List.mem_map.2 ⟨t, ?_, hst.symm⟩) htarget
      rw [hrows]
      exact List.mem_append_right _ List.mem_cons_self
  · rintro ⟨hfree, hrest⟩ before t after hrows s hs hst
    cases before with
    | nil =>
      obtain ⟨rfl, -⟩ := List.cons.inj hrows
      simpa using hfree s hs hst
    | cons u before =>
      obtain ⟨rfl, htail⟩ := List.cons.inj hrows
      rw [List.cons_append, List.map_cons, List.mem_cons]
      by_cases href : s.ref = r.ref
      · exact .inl href
      · obtain ⟨y, -, hy⟩ := upsert_of_free hfree
        refine .inr (hrest y hy before t after htail s ?_ hst)
        rw [hy, mem_upsertRows]
        exact .inl ⟨hs, href⟩

/-- Upserts of rows with different targets raise unless the targets are free. -/
theorem upsertAll_ok_iff (htargets : (rows.map CrosswalkRow.target).Nodup) :
    (∃ y, upsertAll rows c = .ok y) ↔ c.AllFree rows := by
  induction rows generalizing c with
  | nil =>
    refine iff_of_true ⟨c, rfl⟩ fun before r after hnil => ?_
    cases before <;> cases hnil
  | cons r rows ih =>
    rw [List.map_cons, List.nodup_cons] at htargets
    rw [allFree_cons htargets.1]
    constructor
    · rintro ⟨y, hy⟩
      rw [upsertAll] at hy
      cases hupsert : c.upsert r with
      | error e =>
        rw [hupsert] at hy
        cases hy
      | ok d =>
        rw [hupsert] at hy
        obtain ⟨hfree, hd⟩ := upsert_eq_ok hupsert
        have hrest := (ih htargets.2).1 ⟨y, hy⟩
        refine ⟨hfree, fun d' hd' => ?_⟩
        intro before t after hrows s hs
        exact hrest before t after hrows s (by rwa [hd, ← hd'])
    · rintro ⟨hfree, hrest⟩
      obtain ⟨d, hd, hrows⟩ := upsert_of_free hfree
      obtain ⟨y, hy⟩ := (ih htargets.2).2 (hrest d hrows)
      exact ⟨y, by rw [upsertAll, hd]; exact hy⟩

/-- Upserts succeed one by one. -/
theorem upsertAll_cons (h : upsertAll (r :: rows) c = .ok y) :
    ∃ d, c.Free r ∧ d.rows = c.upsertRows r ∧ upsertAll rows d = .ok y := by
  rw [upsertAll] at h
  cases hupsert : c.upsert r with
  | error e =>
    rw [hupsert] at h
    cases h
  | ok d =>
    rw [hupsert] at h
    obtain ⟨hfree, hd⟩ := upsert_eq_ok hupsert
    exact ⟨d, hfree, hd, h⟩

theorem filter_upsertAll {p : CrosswalkRow → Bool}
    (hp : ∀ s, s.ref ∈ rows.map CrosswalkRow.ref → p s = false) (h : upsertAll rows c = .ok y) :
    y.rows.filter p = c.rows.filter p := by
  induction rows generalizing c with
  | nil =>
    cases h
    rfl
  | cons r rows ih =>
    obtain ⟨d, -, hd, h⟩ := upsertAll_cons h
    rw [ih (fun s hs => hp s (List.mem_cons_of_mem _ hs)) h, hd]
    exact filter_upsertRows fun s hs => hp s (by rw [hs]; exact List.mem_cons_self)

end Crosswalk

/-- A row has the reference of another and all that an upsert sets but for the time. -/
structure CrosswalkRow.Carries (s r : CrosswalkRow) : Prop where
  ref : s.ref = r.ref
  target : s.target = r.target
  queryType : s.queryType = r.queryType
  state : s.state = r.state
  contentHash : s.contentHash = r.contentHash
  sourceId : s.sourceId = r.sourceId
  vaultPath : s.vaultPath = r.vaultPath

namespace Crosswalk

variable {c y : Crosswalk} {r s : CrosswalkRow} {rows : List CrosswalkRow}

theorem upserted_carries : (c.upserted r).Carries r ∧ (c.upserted r).updatedAt = r.updatedAt := by
  have href := upserted_ref (c := c) (r := r)
  have htarget := upserted_target (c := c) (r := r)
  revert href htarget
  unfold upserted
  split
  · intro href htarget
    exact ⟨⟨href, htarget, rfl, rfl, rfl, rfl, rfl⟩, rfl⟩
  · intro href htarget
    exact ⟨⟨href, htarget, rfl, rfl, rfl, rfl, rfl⟩, rfl⟩

theorem mem_upsertAll_of_ne (h : upsertAll rows c = .ok y) (hs : s ∈ c.rows)
    (hne : s.ref ∉ rows.map CrosswalkRow.ref) : s ∈ y.rows := by
  induction rows generalizing c with
  | nil =>
    cases h
    exact hs
  | cons r rows ih =>
    obtain ⟨d, -, hd, h⟩ := upsertAll_cons h
    rw [List.map_cons, List.mem_cons, not_or] at hne
    refine ih h ?_ hne.2
    rw [hd, mem_upsertRows]
    exact .inl ⟨hs, hne.1⟩

/-- After upserts under different references there is a row for each. -/
theorem exists_carries (hrefs : (rows.map CrosswalkRow.ref).Nodup) (h : upsertAll rows c = .ok y)
    (hr : r ∈ rows) : ∃ s ∈ y.rows, s.Carries r ∧ s.updatedAt = r.updatedAt := by
  induction rows generalizing c with
  | nil => cases hr
  | cons t rows ih =>
    obtain ⟨d, -, hd, hrest⟩ := upsertAll_cons h
    rw [List.map_cons, List.nodup_cons] at hrefs
    obtain rfl | hr := List.mem_cons.1 hr
    · refine ⟨c.upserted r, mem_upsertAll_of_ne hrest ?_ ?_, upserted_carries⟩
      · rw [hd, mem_upsertRows]
        exact .inr rfl
      · rw [upserted_ref]
        exact hrefs.1
    · exact ih hrefs.2 hrest hr

/-! ### Upserts over what they left -/

local instance lawfulBEqRef : LawfulBEq (String × String) := inferInstance

/-- The rows under the references get a new time. -/
def touch (refs : List (String × String)) (now : String) (s : CrosswalkRow) : CrosswalkRow :=
  if s.ref ∈ refs then { s with updatedAt := now } else s

theorem touch_touch (r : String × String) (refs : List (String × String)) (now : String)
    (s : CrosswalkRow) : touch refs now (touch [r] now s) = touch (r :: refs) now s := by
  unfold touch
  by_cases hr : s.ref = r
  · have href : ({ s with updatedAt := now } : CrosswalkRow).ref = s.ref := rfl
    simp [hr, href]
  · simp [hr]

theorem Carries.touch_of (refs : List (String × String)) (now : String) (h : s.Carries r) :
    (touch refs now s).Carries r := by
  unfold touch
  split_ifs
  · exact ⟨h.ref, h.target, h.queryType, h.state, h.contentHash, h.sourceId, h.vaultPath⟩
  · exact h

theorem upsertRows_of_carries (hs : s ∈ c.rows) (hcarries : s.Carries r) :
    c.Free r ∧ c.upsertRows r = c.rows.map (touch [r.ref] r.updatedAt) := by
  constructor
  · intro t ht htarget
    have hts : t = s :=
      List.inj_on_of_nodup_map c.target_nodup ht hs (htarget.trans hcarries.target.symm)
    exact hts ▸ hcarries.ref
  · have hany : (c.rows.any (·.ref == r.ref)) = true :=
      List.any_eq_true.2 ⟨s, hs, by simpa using hcarries.ref⟩
    rw [upsertRows, if_pos hany]
    refine List.map_congr_left fun t ht => ?_
    unfold updateRow touch
    by_cases htr : t.ref = r.ref
    · have hts : t = s := List.inj_on_of_nodup_map c.ref_nodup ht hs (htr.trans hcarries.ref.symm)
      subst hts
      rw [if_pos htr, if_pos (List.mem_singleton.2 htr)]
      have htarget := hcarries.target
      simp only [CrosswalkRow.target, Prod.mk.injEq] at htarget
      simp only [CrosswalkRow.update, ← htarget.2.1, ← htarget.2.2, ← hcarries.queryType,
        ← hcarries.state, ← hcarries.contentHash, ← hcarries.sourceId, ← hcarries.vaultPath]
    · rw [if_neg htr, if_neg (by simpa using htr)]

/-- Upserts of rows that are there already give them a new time. -/
theorem upsertAll_of_carries {now : String} (hnow : ∀ r ∈ rows, r.updatedAt = now)
    (hcarries : ∀ r ∈ rows, ∃ s ∈ c.rows, s.Carries r) :
    ∃ y, upsertAll rows c = .ok y ∧
      y.rows = c.rows.map (touch (rows.map CrosswalkRow.ref) now) := by
  induction rows generalizing c with
  | nil =>
    refine ⟨c, rfl, ?_⟩
    have hself : touch ([].map CrosswalkRow.ref) now = id := by
      funext s
      exact if_neg List.not_mem_nil
    rw [hself, List.map_id]
  | cons r rows ih =>
    obtain ⟨s, hs, hsr⟩ := hcarries r List.mem_cons_self
    obtain ⟨hfree, hrows⟩ := upsertRows_of_carries hs hsr
    obtain ⟨d, hd, hdrows⟩ := upsert_of_free hfree
    rw [hrows, hnow r List.mem_cons_self] at hdrows
    obtain ⟨y, hy, hyrows⟩ := ih (c := d) (fun t ht => hnow t (List.mem_cons_of_mem r ht)) (by
      intro t ht
      obtain ⟨u, hu, hut⟩ := hcarries t (List.mem_cons_of_mem r ht)
      refine ⟨touch [r.ref] now u, ?_, Carries.touch_of _ _ hut⟩
      rw [hdrows]
      exact List.mem_map_of_mem hu)
    refine ⟨y, by rw [upsertAll, hd]; exact hy, ?_⟩
    rw [hyrows, hdrows, List.map_map, List.map_cons]
    exact List.map_congr_left fun t _ => touch_touch r.ref _ now t

end Crosswalk

/-! ## The three enumerations -/

/-- The counts after a list of rows. -/
def EnumCounts.countAll (n : EnumCounts) (rows : List Entry) : EnumCounts :=
  rows.foldl (fun n t => n.count t.state) n

theorem EnumCounts.count_writes (n : EnumCounts) (state : MappingState) (k : Nat) :
    { n.count state with writesPerformed := k } = { n with writesPerformed := k }.count state := by
  cases state <;> rfl

@[simp] theorem EnumCounts.count_writesPerformed (n : EnumCounts) (state : MappingState) :
    (n.count state).writesPerformed = n.writesPerformed := by
  cases state <;> rfl

@[simp] theorem EnumCounts.countAll_writesPerformed (n : EnumCounts) (rows : List Entry) :
    (n.countAll rows).writesPerformed = n.writesPerformed := by
  induction rows generalizing n with
  | nil => rfl
  | cons t rows ih => exact (ih (n.count t.state)).trans (n.count_writesPerformed t.state)

/-- The writes counted before do not matter for the other counts. -/
theorem EnumCounts.countAll_writes (n : EnumCounts) (rows : List Entry) (k l : Nat) :
    { { n with writesPerformed := k }.countAll rows with writesPerformed := l } =
      { n.countAll rows with writesPerformed := l } := by
  induction rows generalizing n with
  | nil => rfl
  | cons t rows ih =>
    unfold countAll at ih ⊢
    rw [List.foldl_cons, List.foldl_cons, ← count_writes]
    exact ih (n.count t.state)

theorem enumerateRows_dry (userId now : String) (rows : List Entry) (c : Crosswalk)
    (n : EnumCounts) : enumerateRows false userId now rows (c, n) = .ok (c, n.countAll rows) := by
  induction rows generalizing n with
  | nil => rfl
  | cons t rows ih => exact ih (n.count t.state)

theorem enumerateRows_write (userId now : String) (rows : List Entry) (c : Crosswalk)
    (n : EnumCounts) : enumerateRows true userId now rows (c, n) =
      (Crosswalk.upsertAll (rows.map fun t => t.crosswalkRow userId now) c).map fun d =>
        (d, { n.countAll rows with writesPerformed := n.writesPerformed + rows.length }) := by
  induction rows generalizing c n with
  | nil => rfl
  | cons t rows ih =>
    rw [enumerateRows, List.map_cons, Crosswalk.upsertAll]
    cases c.upsert (t.crosswalkRow userId now) with
    | error e => rfl
    | ok d =>
      refine (ih d _).trans ?_
      simp only [EnumCounts.count_writesPerformed, EnumCounts.countAll_writes, List.length_cons]
      rw [Nat.add_right_comm, Nat.add_assoc]
      rfl

theorem EnumCounts.countAll_append (n : EnumCounts) (rows rows' : List Entry) :
    n.countAll (rows ++ rows') = (n.countAll rows).countAll rows' := List.foldl_append

theorem Crosswalk.upsertAll_append (rows rows' : List CrosswalkRow) (c : Crosswalk) :
    Crosswalk.upsertAll (rows ++ rows') c =
      Crosswalk.upsertAll rows c >>= Crosswalk.upsertAll rows' := by
  induction rows generalizing c with
  | nil => rfl
  | cons r rows ih =>
    rw [List.cons_append, upsertAll, upsertAll]
    cases c.upsert r with
    | error e => rfl
    | ok d => exact ih d

variable {db : Db} {userId : String} {scope : Scope} {F : Fingerprint} {now : String} {x : Tables}

/-- The counts of the entries, none of them written. -/
def counts (db : Db) (userId : String) (scope : Scope) : EnumCounts :=
  EnumCounts.countAll ⟨0, 0, 0⟩ (entries db userId scope)

/-- The report of a run, for the writes it has made. -/
def reportOf (db : Db) (userId : String) (scope : Scope) (writes : Nat) : BackfillReport where
  rowsExamined := (entries db userId scope).length
  rowsMapped := (counts db userId scope).rowsMapped
  rowsUnmapped := (counts db userId scope).rowsUnmapped
  rowsConflict := 0
  writesPerformed := writes

theorem run_dry (F : Fingerprint) (userId : String) (scope : Scope) (now : String) (x : Tables) :
    run F ⟨userId, true, scope⟩ now x = .ok (x, reportOf x.db userId scope 0) := by
  have henum : enumerate false ⟨userId, true, scope⟩ now x = .ok (x.crosswalk,
      counts x.db userId scope, (entries x.db userId scope).length) := by
    simp only [enumerate, enumerateRows_dry, entries, counts, EnumCounts.countAll_append,
      List.length_append, List.length_map]
    rfl
  have hwrites : (counts x.db userId scope).writesPerformed = 0 :=
    EnumCounts.countAll_writesPerformed _ _
  unfold run
  rw [show (!true) = false from rfl, henum]
  simp [reportOf, hwrites]

/-- A run that writes upserts the entries. -/
theorem run_write (F : Fingerprint) (userId : String) (scope : Scope) (now : String) (x : Tables) :
    run F ⟨userId, false, scope⟩ now x =
      match Crosswalk.upsertAll
        ((entries x.db userId scope).map fun t => t.crosswalkRow userId now) x.crosswalk with
      | .error e => .error (.raised e)
      | .ok c => .ok (⟨x.db, c⟩,
          reportOf x.db userId scope (entries x.db userId scope).length) := by
  have henum : enumerate true ⟨userId, false, scope⟩ now x =
      (Crosswalk.upsertAll
        ((entries x.db userId scope).map fun t => t.crosswalkRow userId now) x.crosswalk).map
        fun c => (c, { counts x.db userId scope with
          writesPerformed := (entries x.db userId scope).length },
          (entries x.db userId scope).length) := by
    simp only [enumerate, enumerateRows_write, entries, counts, EnumCounts.countAll_append,
      List.map_append, Crosswalk.upsertAll_append, List.length_append, List.length_map]
    cases Crosswalk.upsertAll (((claimRows x.db userId scope.limit).map claimEntry).map
      fun t => t.crosswalkRow userId now) x.crosswalk with
    | error e => rfl
    | ok c =>
      simp only [Except.map, except_ok_bind, EnumCounts.countAll_writes, Nat.zero_add]
      cases Crosswalk.upsertAll (((memoryRows x.db userId scope.limit).map memoryEntry).map
        fun t => t.crosswalkRow userId now) c <;> rfl
  unfold run
  rw [show (!false) = true from rfl, henum]
  cases Crosswalk.upsertAll
    ((entries x.db userId scope).map fun t => t.crosswalkRow userId now) x.crosswalk with
  | error e => rfl
  | ok c => simp [Except.map, reportOf]

/-! ## The plan and the run -/

/-- The primary keys of the two tables. -/
structure PrimaryKeys (db : Db) : Prop where
  memories : (db.memories.map (·.memoryId)).Nodup
  claims : (db.claims.map (·.claimId)).Nodup

/-- The rows that the entries are upserted as. -/
def entryRows (db : Db) (userId : String) (scope : Scope) (now : String) : List CrosswalkRow :=
  (entries db userId scope).map fun t => t.crosswalkRow userId now

theorem entries_kind {t : Entry} (ht : t ∈ entries db userId scope) :
    t.kind = "memory" ∨ t.kind = "claim" := by
  obtain ht | ht := List.mem_append.1 ht
  · obtain ⟨c, -, rfl⟩ := List.mem_map.1 ht
    exact .inr rfl
  · obtain ⟨m, -, rfl⟩ := List.mem_map.1 ht
    exact .inl rfl

theorem entries_nodup (h : PrimaryKeys db) :
    ((entries db userId scope).map fun t => (t.kind, t.id)).Nodup := by
  have hclaims : ((claimRows db userId scope.limit).map (·.claimId)).Nodup := by
    refine List.Nodup.sublist ((List.take_sublist _ _).map _) ?_
    refine ((List.perm_insertionSort _ _).map _).nodup_iff.2 ?_
    exact h.claims.sublist (List.filter_sublist.map _)
  have hmemories : ((memoryRows db userId scope.limit).map (·.memoryId)).Nodup := by
    refine List.Nodup.sublist ((List.take_sublist _ _).map _) ?_
    refine ((List.perm_insertionSort _ _).map _).nodup_iff.2 ?_
    exact h.memories.sublist (List.filter_sublist.map _)
  rw [entries, List.map_append, List.map_map, List.map_map]
  refine List.Nodup.append ?_ ?_ ?_
  · refine List.Nodup.of_map Prod.snd ?_
    rw [List.map_map]
    exact hclaims
  · refine List.Nodup.of_map Prod.snd ?_
    rw [List.map_map]
    exact hmemories
  · intro key hc hm
    obtain ⟨c, -, rfl⟩ := List.mem_map.1 hc
    obtain ⟨m, -, heq⟩ := List.mem_map.1 hm
    have hkind : "memory" = "claim" := congrArg Prod.fst heq
    exact absurd hkind (by decide)

theorem entryRows_target_nodup (h : PrimaryKeys db) :
    ((entryRows db userId scope now).map CrosswalkRow.target).Nodup := by
  have hpair : (entryRows db userId scope now).map CrosswalkRow.target =
      ((entries db userId scope).map fun t => (t.kind, t.id)).map fun key => (userId, key) := by
    simp only [entryRows, List.map_map]
    rfl
  rw [hpair]
  exact (entries_nodup h).map fun key key' heq => congrArg Prod.snd heq

theorem entries_ref_nodup (h : PrimaryKeys db) :
    ((entries db userId scope).map Entry.canonicalRef).Nodup := by
  refine List.Nodup.map_on ?_ (List.Nodup.of_map _ (entries_nodup h))
  intro t ht u hu href
  obtain ⟨hkind, hid⟩ := ref_inj (s := t.toTarget) (t := u.toTarget) (entries_kind ht)
    (entries_kind hu) href
  exact List.inj_on_of_nodup_map (entries_nodup h) ht hu (Prod.ext hkind hid)

theorem entryRows_ref_nodup (h : PrimaryKeys db) :
    ((entryRows db userId scope now).map CrosswalkRow.ref).Nodup := by
  have hpair : (entryRows db userId scope now).map CrosswalkRow.ref =
      ((entries db userId scope).map Entry.canonicalRef).map fun ref => (userId, ref) := by
    simp only [entryRows, List.map_map]
    rfl
  rw [hpair]
  exact (entries_ref_nodup h).map fun ref ref' heq => congrArg Prod.snd heq

/-- The plan has an entry for each row of a run. -/
theorem planUpserts_perm (db : Db) (userId : String) (scope : Scope) (now : String) :
    (planUpserts userId scope db).Perm
      ((entryRows db userId scope now).map CrosswalkRow.planned) := by
  have hclaim (c : Store.Claim) :
      planClaim c = ((claimEntry c).crosswalkRow userId now).planned := by
    unfold planClaim CrosswalkRow.planned Entry.crosswalkRow Entry.state
    dsimp only [claimEntry]
    cases resolve (classifyClaimPredicate c.predicate) <;> rfl
  have hmemory (m : Memory) :
      planMemory m = ((memoryEntry m).crosswalkRow userId now).planned := by
    unfold planMemory CrosswalkRow.planned Entry.crosswalkRow Entry.state
    dsimp only [memoryEntry]
    cases resolve "RetrieveKind.recent" <;> rfl
  refine (List.perm_insertionSort _ _).trans (.of_eq ?_)
  simp only [entryRows, entries, List.map_append, List.map_map]
  exact congrArg₂ (· ++ ·) (List.map_congr_left fun c _ => hclaim c)
    (List.map_congr_left fun m _ => hmemory m)

/-- The row has a reference of the plan. -/
def inPlan (userId : String) (plan : List Planned) (r : CrosswalkRow) : Bool :=
  r.userId == userId && (plan.map Planned.canonicalRef).contains r.canonicalRef

theorem inPlan_iff (r : CrosswalkRow) : inPlan userId (planUpserts userId scope db) r = true ↔
    r.ref ∈ (entryRows db userId scope now).map CrosswalkRow.ref := by
  have hrefs := (planUpserts_perm db userId scope now).map Planned.canonicalRef
  rw [inPlan, Bool.and_eq_true, beq_iff_eq, List.contains_iff_mem, hrefs.mem_iff]
  simp only [entryRows, List.map_map, List.mem_map, Function.comp_apply]
  constructor
  · rintro ⟨huser, t, ht, href⟩
    exact ⟨t, ht, Prod.ext huser.symm href⟩
  · rintro ⟨t, ht, href⟩
    exact ⟨(congrArg Prod.fst href).symm, t, ht, congrArg Prod.snd href⟩

/-- A run has done what the plan and the dry run say, and a run after it changes times only. -/
structure AsPlanned (F : Fingerprint) (userId : String) (scope : Scope) (now : String)
    (x y : Tables) (report : BackfillReport) : Prop where
  planned : ((y.crosswalk.rows.filter (inPlan userId (planUpserts userId scope x.db))).map
    CrosswalkRow.planned).Perm (planUpserts userId scope x.db)
  touched : ∀ r ∈ y.crosswalk.rows, inPlan userId (planUpserts userId scope x.db) r = true →
    r.updatedAt = now
  others : y.crosswalk.rows.filter (fun r => !inPlan userId (planUpserts userId scope x.db) r) =
    x.crosswalk.rows.filter fun r => !inPlan userId (planUpserts userId scope x.db) r
  db_eq : y.db = x.db
  dryRun : ∃ dry, run F ⟨userId, true, scope⟩ now x = .ok (x, dry) ∧
    dry.rowsExamined = report.rowsExamined ∧ dry.rowsMapped = report.rowsMapped ∧
    dry.rowsUnmapped = report.rowsUnmapped
  again : ∀ later, ∃ z, run F ⟨userId, false, scope⟩ later y = .ok (z, report) ∧ z.db = y.db ∧
    z.crosswalk.rows = y.crosswalk.rows.map fun r =>
      if inPlan userId (planUpserts userId scope x.db) r then { r with updatedAt := later } else r

/-- A row that holds the target of an entry has the reference of that entry, or of an entry that is
written before it. -/
def TargetsFree (userId : String) (rows : List Entry) (c : Crosswalk) : Prop :=
  ∀ before t after, rows = before ++ t :: after →
    ∀ r ∈ c.rows, r.target = (userId, t.kind, t.id) →
      r.canonicalRef ∈ (before ++ [t]).map Entry.canonicalRef

theorem allFree_entryRows (c : Crosswalk) :
    c.AllFree (entryRows db userId scope now) ↔ TargetsFree userId (entries db userId scope) c := by
  have hmem (rows : List Entry) (s : CrosswalkRow) (hs : s.userId = userId) :
      s.ref ∈ (rows.map fun t => t.crosswalkRow userId now).map CrosswalkRow.ref ↔
        s.canonicalRef ∈ rows.map Entry.canonicalRef := by
    simp only [List.map_map, List.mem_map, Function.comp_apply]
    refine exists_congr fun t => and_congr_right fun _ => ?_
    constructor
    · intro href
      exact congrArg Prod.snd href
    · intro href
      exact Prod.ext hs.symm href
  constructor
  · intro h before t after hrows s hs htarget
    have hfree := h (before.map fun t => t.crosswalkRow userId now) (t.crosswalkRow userId now)
      (after.map fun t => t.crosswalkRow userId now) (by rw [entryRows, hrows]; simp) s hs htarget
    rw [← hmem _ s (congrArg Prod.fst htarget), List.map_append]
    exact hfree
  · intro h before r after hrows s hs htarget
    obtain ⟨tbefore, trest, hsplit, rfl, hrest⟩ := List.map_eq_append_iff.1 hrows
    obtain ⟨t, tafter, rfl, rfl, rfl⟩ := List.map_eq_cons_iff.1 hrest
    have hfree := h tbefore t tafter hsplit s hs htarget
    rw [← hmem _ s (congrArg Prod.fst htarget), List.map_append] at hfree
    exact hfree

theorem CrosswalkRow.Carries.planned_eq {s r : CrosswalkRow} (h : s.Carries r) :
    s.planned = r.planned := by
  have href := congrArg Prod.snd h.ref
  have htarget := congrArg Prod.snd h.target
  simp only [CrosswalkRow.ref] at href
  simp only [CrosswalkRow.target, Prod.mk.injEq] at htarget
  simp only [CrosswalkRow.planned, href, htarget.1, htarget.2, h.queryType, h.state]

/-- What a run has written is what was planned. -/
theorem asPlanned_of_ok (hkeys : PrimaryKeys x.db) {c : Crosswalk}
    (h : Crosswalk.upsertAll (entryRows x.db userId scope now) x.crosswalk = .ok c) :
    AsPlanned F userId scope now x ⟨x.db, c⟩
      (reportOf x.db userId scope (entries x.db userId scope).length) where
  planned := by
    refine List.Perm.trans ?_ (planUpserts_perm x.db userId scope now).symm
    have hfound : ∀ r ∈ c.rows, inPlan userId (planUpserts userId scope x.db) r = true →
        ∃ t ∈ entryRows x.db userId scope now, r.Carries t := by
      intro r hr hplan
      obtain ⟨t, ht, href⟩ := List.mem_map.1 ((inPlan_iff r).1 hplan)
      obtain ⟨s, hs, hcarries, -⟩ := Crosswalk.exists_carries (entryRows_ref_nodup hkeys) h ht
      have hrs : r = s :=
        List.inj_on_of_nodup_map c.ref_nodup hr hs (href.symm.trans hcarries.ref.symm)
      exact ⟨t, ht, hrs ▸ hcarries⟩
    refine (List.perm_ext_iff_of_nodup ?_ ?_).2 fun p => ?_
    · refine List.Nodup.map_on ?_ ((List.Nodup.of_map _ c.ref_nodup).filter _)
      intro r hr s hs heq
      obtain ⟨hr, hrplan⟩ := List.mem_filter.1 hr
      obtain ⟨hs, hsplan⟩ := List.mem_filter.1 hs
      rw [inPlan, Bool.and_eq_true, beq_iff_eq] at hrplan hsplan
      have href : r.canonicalRef = s.canonicalRef := congrArg Planned.canonicalRef heq
      exact List.inj_on_of_nodup_map c.ref_nodup hr hs
        (Prod.ext (hrplan.1.trans hsplan.1.symm) href)
    · refine List.Nodup.of_map Planned.canonicalRef ?_
      have hrefs : ((entryRows x.db userId scope now).map CrosswalkRow.planned).map
          Planned.canonicalRef = (entries x.db userId scope).map Entry.canonicalRef := by
        simp only [entryRows, List.map_map]
        rfl
      rw [hrefs]
      exact entries_ref_nodup hkeys
    · simp only [List.mem_map, List.mem_filter]
      constructor
      · rintro ⟨r, ⟨hr, hplan⟩, rfl⟩
        obtain ⟨t, ht, hcarries⟩ := hfound r hr hplan
        exact ⟨t, ht, hcarries.planned_eq.symm⟩
      · rintro ⟨t, ht, rfl⟩
        obtain ⟨s, hs, hcarries, -⟩ := Crosswalk.exists_carries (entryRows_ref_nodup hkeys) h ht
        refine ⟨s, ⟨hs, ?_⟩, hcarries.planned_eq⟩
        rw [inPlan_iff, hcarries.ref]
        exact List.mem_map_of_mem ht
  touched := by
    intro r hr hplan
    rw [inPlan_iff] at hplan
    obtain ⟨t, ht, href⟩ := List.mem_map.1 hplan
    obtain ⟨s, hs, hcarries, htime⟩ := Crosswalk.exists_carries (entryRows_ref_nodup hkeys) h ht
    have hrs : r = s :=
      List.inj_on_of_nodup_map c.ref_nodup hr hs (href.symm.trans hcarries.ref.symm)
    obtain ⟨u, -, rfl⟩ := List.mem_map.1 ht
    rw [hrs, htime]
    rfl
  others := by
    refine Crosswalk.filter_upsertAll (fun s hs => ?_) h
    rw [← inPlan_iff] at hs
    simp [hs]
  db_eq := rfl
  dryRun := ⟨_, run_dry F userId scope now x, rfl, rfl, rfl⟩
  again := by
    intro later
    have hcarried : ∀ r ∈ entryRows x.db userId scope later, ∃ s ∈ c.rows, s.Carries r := by
      intro r hr
      obtain ⟨t, ht, rfl⟩ := List.mem_map.1 hr
      obtain ⟨s, hs, hcarries, -⟩ := Crosswalk.exists_carries (entryRows_ref_nodup hkeys) h
        (List.mem_map_of_mem (f := fun t => t.crosswalkRow userId now) ht)
      exact ⟨s, hs, hcarries.ref, hcarries.target, hcarries.queryType, hcarries.state,
        hcarries.contentHash, hcarries.sourceId, hcarries.vaultPath⟩
    have htimes : ∀ r ∈ entryRows x.db userId scope later, r.updatedAt = later := by
      intro r hr
      obtain ⟨t, -, rfl⟩ := List.mem_map.1 hr
      rfl
    obtain ⟨z, hz, hrows⟩ := Crosswalk.upsertAll_of_carries htimes hcarried
    refine ⟨⟨x.db, z⟩, ?_, rfl, ?_⟩
    · rw [run_write]
      exact (congrArg (fun result => match result with
        | .error e => Except.error (RunError.raised e)
        | .ok c => .ok ((⟨x.db, c⟩ : Tables),
            reportOf x.db userId scope (entries x.db userId scope).length)) hz)
    · rw [hrows]
      refine List.map_congr_left fun r _ => ?_
      unfold Crosswalk.touch
      by_cases hplan : inPlan userId (planUpserts userId scope x.db) r = true
      · rw [if_pos ((inPlan_iff r).1 hplan), if_pos hplan]
      · rw [if_neg (mt (inPlan_iff r).2 hplan), if_neg hplan]

/-- The plan and the dry run predict a run if and only if the targets are free. -/
theorem predicted_iff (hkeys : PrimaryKeys x.db) :
    (∃ y report, run F ⟨userId, false, scope⟩ now x = .ok (y, report) ∧
      AsPlanned F userId scope now x y report) ↔
    TargetsFree userId (entries x.db userId scope) x.crosswalk := by
  rw [← allFree_entryRows,
    ← Crosswalk.upsertAll_ok_iff (entryRows_target_nodup hkeys), run_write]
  constructor
  · rintro ⟨y, report, hrun, -⟩
    cases hupsert : Crosswalk.upsertAll (entryRows x.db userId scope now) x.crosswalk with
    | error e =>
      unfold entryRows at hupsert
      rw [hupsert] at hrun
      cases hrun
    | ok c => exact ⟨c, rfl⟩
  · rintro ⟨c, hc⟩
    refine ⟨⟨x.db, c⟩, _, ?_, asPlanned_of_ok hkeys hc⟩
    unfold entryRows at hc
    rw [hc]

/-! ### A claim under another reference -/

def mappedClaim : Store.Claim where
  claimId := "c1"
  userId := "u"
  subject := "db"
  predicate := "decision:use"
  object := "sqlite"
  sourceId := "direct:u"
  contentHash := "h"
  confidence := none
  state := "auto"
  createdAt := "2026-04-21T00:00:00.000000+00:00"
  updatedAt := "2026-04-21T00:00:00.000000+00:00"

/-- The row of the claim under the reference `ref`. -/
def claimRowUnder (ref : String) : CrosswalkRow :=
  { (claimEntry mappedClaim).crosswalkRow "u" "2026-04-22T00:00:00.000000+00:00" with
    canonicalRef := ref }

def tablesUnder (ref : String) : Tables where
  db := { Db.empty with claims := [mappedClaim] }
  crosswalk := ⟨[claimRowUnder ref], List.nodup_singleton _, List.nodup_singleton _⟩

def sampleFingerprint : Fingerprint where
  core := fun _ => ""
  crosswalk := fun _ => ""

theorem tablesUnder_keys (ref : String) : PrimaryKeys (tablesUnder ref).db :=
  ⟨List.nodup_nil, List.nodup_singleton _⟩

theorem predicted_sample : ∃ y report,
    run sampleFingerprint ⟨"u", false, .sample⟩ "2026-04-23" (tablesUnder "claim:c1") =
      .ok (y, report) ∧
    AsPlanned sampleFingerprint "u" .sample "2026-04-23" (tablesUnder "claim:c1") y report := by
  refine (predicted_iff (tablesUnder_keys _)).2 fun before t after hrows r hr _ => ?_
  obtain rfl := List.mem_singleton.1 hr
  have hone : entries (tablesUnder "claim:c1").db "u" .sample = [claimEntry mappedClaim] := by
    decide
  rw [hone] at hrows
  cases before with
  | nil =>
    obtain ⟨rfl, -⟩ := List.cons.inj hrows
    decide
  | cons u before =>
    have hlength := congrArg List.length hrows
    simp at hlength

/-- A plan and a dry run for a claim whose target another reference holds, and the run. -/
theorem run_not_predicted :
    planUpserts "u" .sample (tablesUnder "legacy:c1").db =
      [⟨"claim:c1", "claim", "c1", .mapped, some "change_trace"⟩] ∧
    run sampleFingerprint ⟨"u", true, .sample⟩ "2026-04-23" (tablesUnder "legacy:c1") =
      .ok (tablesUnder "legacy:c1", ⟨1, 1, 0, 0, 0⟩) ∧
    run sampleFingerprint ⟨"u", false, .sample⟩ "2026-04-23" (tablesUnder "legacy:c1") =
      .error (.raised targetTaken) := by
  refine ⟨by decide, ?_, ?_⟩
  · rw [run_dry]
    rfl
  · rw [run_write]
    rfl

end ParallaxKernel.Router
