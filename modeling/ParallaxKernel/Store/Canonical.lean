import ParallaxKernel.Lib.ColumnSweep
import ParallaxKernel.Lib.IsoInstant
import ParallaxKernel.Store.Migrations

/-!
# The sweep of migration 8

`m0008_normalize_naive_created_at.up` statement by statement: the triggers that keep the log
append-only are dropped, the timestamps of seven tables are rewritten row by row, and the triggers
come back whatever happened.
-/

namespace ParallaxKernel.Store

open Lib

/-! ## The instant of a timestamp -/

/-- The instant that a timestamp denotes, in microseconds from 1970; without an offset it is in
UTC. -/
def instantOf (value : String) : Option Int :=
  let ts :=
    if value.toList.getLast? = some 'Z' then String.ofList value.toList.dropLast ++ "+00:00"
    else value
  (DateTime.fromIsoformat ts).toOption.map DateTime.timestamp

/-- The timestamp denotes an instant that `datetime` can hold in UTC. -/
def Representable (value : String) : Prop :=
  ∃ us dt, instantOf value = some us ∧ DateTime.ofTimestamp us = some dt

theorem canonicalize_eq {value : String} {us : Int} {dt : DateTime}
    (hus : instantOf value = some us) (hdt : DateTime.ofTimestamp us = some dt) :
    canonicalize value = .ok dt.isoformatUtc := by
  unfold instantOf at hus
  unfold canonicalize
  dsimp only at hus ⊢
  generalize (if value.toList.getLast? = some 'Z' then
    String.ofList value.toList.dropLast ++ "+00:00" else value) = ts at hus ⊢
  cases hts : DateTime.fromIsoformat ts with
  | error e => simp [hts, Except.toOption] at hus
  | ok read =>
    obtain rfl : read.timestamp = us := by simpa [hts, Except.toOption] using hus
    simp only [bind, Except.bind, DateTime.toUtc_eq, hdt]

theorem instantOf_isoformatUtc {us : Int} {dt : DateTime}
    (hdt : DateTime.ofTimestamp us = some dt) : instantOf dt.isoformatUtc = some us := by
  obtain ⟨hvalid, hoffset, hus⟩ := DateTime.ofTimestamp_spec hdt
  have hlast : dt.isoformatUtc.toList.getLast? = some '0' := by
    rw [DateTime.isoformatUtc_split]
    simp [List.getLast?_append, List.getLast?_cons]
  simp only [instantOf, hlast]
  rw [if_neg (by decide), DateTime.fromIsoformat_isoformatUtc hvalid hoffset]
  exact congrArg some hus

section Representable

variable {value : String}

theorem Representable.canonicalize_ok (h : Representable value) :
    canonicalize value = .ok (canonicalTime value) := by
  obtain ⟨us, dt, hus, hdt⟩ := h
  rw [canonicalTime, canonicalize_eq hus hdt]
  rfl

theorem canonicalTime_eq {us : Int} {dt : DateTime} (hus : instantOf value = some us)
    (hdt : DateTime.ofTimestamp us = some dt) : canonicalTime value = dt.isoformatUtc := by
  rw [canonicalTime, canonicalize_eq hus hdt]
  rfl

/-- The canonical form denotes the same instant. -/
theorem Representable.instant_kept (h : Representable value) :
    instantOf (canonicalTime value) = instantOf value := by
  obtain ⟨us, dt, hus, hdt⟩ := h
  rw [canonicalTime_eq hus hdt, instantOf_isoformatUtc hdt, hus]

theorem Representable.canonical (h : Representable value) :
    Representable (canonicalTime value) := by
  obtain ⟨us, dt, hus, hdt⟩ := h
  refine ⟨us, dt, ?_, hdt⟩
  rw [canonicalTime_eq hus hdt, instantOf_isoformatUtc hdt]

theorem Representable.canonical_idem (h : Representable value) :
    canonicalTime (canonicalTime value) = canonicalTime value := by
  obtain ⟨us, dt, hus, hdt⟩ := h
  rw [canonicalTime_eq hus hdt, canonicalTime_eq (instantOf_isoformatUtc hdt) hdt]

/-- Canonical forms are in the order of the instants. -/
theorem canonicalTime_lt_iff {v w : String} (hv : Representable v) (hw : Representable w) :
    canonicalTime v < canonicalTime w ↔ ∃ m n, instantOf v = some m ∧ instantOf w = some n ∧
      m < n := by
  obtain ⟨m, a, hm, ha⟩ := hv
  obtain ⟨n, b, hn, hb⟩ := hw
  rw [canonicalTime_eq hm ha, canonicalTime_eq hn hb, DateTime.isoformatUtc_lt_iff ha hb, hm, hn]
  simp

end Representable

/-! ## The tables with timestamps -/

structure ClaimMetadata where
  claimId : String
  reaffirmCount : Int
  lastSeenAt : String
  supersededBy : Option String
  supersededAt : Option String
  createdAt : String
  updatedAt : String

structure DecisionRow where
  decisionId : String
  userId : String
  targetKind : String
  targetId : String
  action : String
  actor : String
  approvalTier : Option String
  state : String
  rationale : Option String
  createdAt : String

structure IndexState where
  rowid : Int
  indexName : String
  version : Int
  lastBuiltAt : Option String
  sourceWatermark : Option String
  docCount : Option Int
  state : String
  errorText : Option String

/-- The tables of version 7, where they exist, and the triggers on the log. -/
@[ext] structure TimedTables where
  sources : Option (List Source)
  memories : Option (List Memory)
  claims : Option (List Claim)
  claimMetadata : Option (List ClaimMetadata)
  decisions : Option (List DecisionRow)
  events : Option (List Event)
  indexState : Option (List IndexState)
  eventsNoUpdate : Bool
  eventsNoDelete : Bool

/-- A column that is not null. -/
def textColumn {α : Type} (get : α → String) (set : String → α → α)
    (h : ∀ a, set (get a) a = a) : Column α String where
  get a := some (get a)
  set := set
  set_get a v hv := by
    obtain rfl := Option.some.inj hv
    exact h a

namespace TimedTables

/-- What the append-only trigger makes of an update. -/
def appendOnly (t : TimedTables) : Option Exc :=
  if t.eventsNoUpdate then some (.integrityError "events are append-only") else none

def sourcesTable : SweptTable TimedTables Exc Source String String where
  rows := sources
  put rows t := { t with sources := some rows }
  refused _ := none
  pk := Source.sourceId
  columns := [textColumn Source.ingestedAt (fun v s => { s with ingestedAt := v }) fun _ => rfl]
  rows_put _ _ := rfl
  put_put _ _ _ := rfl
  put_rows t rows h := by
    rw [← h]
  refused_put _ _ := rfl
  pk_set := by simp [textColumn]
  independent := by simp

@[simp] theorem rows_sourcesTable (t : TimedTables) : sourcesTable.rows t = t.sources := rfl

def memoriesTable : SweptTable TimedTables Exc Memory String String where
  rows := memories
  put rows t := { t with memories := some rows }
  refused _ := none
  pk := Memory.memoryId
  columns :=
    [textColumn Memory.createdAt (fun v m => { m with createdAt := v }) fun _ => rfl,
      textColumn Memory.updatedAt (fun v m => { m with updatedAt := v }) fun _ => rfl]
  rows_put _ _ := rfl
  put_put _ _ _ := rfl
  put_rows t rows h := by
    rw [← h]
  refused_put _ _ := rfl
  pk_set := by simp [textColumn]
  independent := by simp [textColumn]

@[simp] theorem rows_memoriesTable (t : TimedTables) : memoriesTable.rows t = t.memories := rfl

def claimsTable : SweptTable TimedTables Exc Claim String String where
  rows := claims
  put rows t := { t with claims := some rows }
  refused _ := none
  pk := Claim.claimId
  columns :=
    [textColumn Claim.createdAt (fun v c => { c with createdAt := v }) fun _ => rfl,
      textColumn Claim.updatedAt (fun v c => { c with updatedAt := v }) fun _ => rfl]
  rows_put _ _ := rfl
  put_put _ _ _ := rfl
  put_rows t rows h := by
    rw [← h]
  refused_put _ _ := rfl
  pk_set := by simp [textColumn]
  independent := by simp [textColumn]

@[simp] theorem rows_claimsTable (t : TimedTables) : claimsTable.rows t = t.claims := rfl

def claimMetadataTable : SweptTable TimedTables Exc ClaimMetadata String String where
  rows := claimMetadata
  put rows t := { t with claimMetadata := some rows }
  refused _ := none
  pk := ClaimMetadata.claimId
  columns :=
    [textColumn ClaimMetadata.lastSeenAt (fun v c => { c with lastSeenAt := v }) fun _ => rfl,
      { get := ClaimMetadata.supersededAt
        set := fun v c => { c with supersededAt := some v }
        set_get := fun c v h => by rw [← h] },
      textColumn ClaimMetadata.createdAt (fun v c => { c with createdAt := v }) fun _ => rfl,
      textColumn ClaimMetadata.updatedAt (fun v c => { c with updatedAt := v }) fun _ => rfl]
  rows_put _ _ := rfl
  put_put _ _ _ := rfl
  put_rows t rows h := by
    rw [← h]
  refused_put _ _ := rfl
  pk_set := by simp [textColumn]
  independent := by simp [textColumn]

@[simp] theorem rows_claimMetadataTable (t : TimedTables) :
    claimMetadataTable.rows t = t.claimMetadata := rfl

def decisionsTable : SweptTable TimedTables Exc DecisionRow String String where
  rows := decisions
  put rows t := { t with decisions := some rows }
  refused _ := none
  pk := DecisionRow.decisionId
  columns := [textColumn DecisionRow.createdAt (fun v d => { d with createdAt := v }) fun _ => rfl]
  rows_put _ _ := rfl
  put_put _ _ _ := rfl
  put_rows t rows h := by
    rw [← h]
  refused_put _ _ := rfl
  pk_set := by simp [textColumn]
  independent := by simp

@[simp] theorem rows_decisionsTable (t : TimedTables) : decisionsTable.rows t = t.decisions := rfl

def eventsTable : SweptTable TimedTables Exc Event String String where
  rows := events
  put rows t := { t with events := some rows }
  refused := appendOnly
  pk := Event.eventId
  columns := [textColumn Event.createdAt (fun v e => { e with createdAt := v }) fun _ => rfl]
  rows_put _ _ := rfl
  put_put _ _ _ := rfl
  put_rows t rows h := by
    rw [← h]
  refused_put _ _ := rfl
  pk_set := by simp [textColumn]
  independent := by simp

@[simp] theorem rows_eventsTable (t : TimedTables) : eventsTable.rows t = t.events := rfl

def indexStateTable : SweptTable TimedTables Exc IndexState Int String where
  rows := indexState
  put rows t := { t with indexState := some rows }
  refused _ := none
  pk := IndexState.rowid
  columns :=
    [{ get := IndexState.lastBuiltAt
       set := fun v i => { i with lastBuiltAt := some v }
       set_get := fun i v h => by rw [← h] }]
  rows_put _ _ := rfl
  put_put _ _ _ := rfl
  put_rows t rows h := by
    rw [← h]
  refused_put _ _ := rfl
  pk_set := by simp
  independent := by simp

@[simp] theorem rows_indexStateTable (t : TimedTables) :
    indexStateTable.rows t = t.indexState := rfl

/-! ## The migration -/

/-- `DROP TRIGGER IF EXISTS` for both triggers. -/
def dropTriggers : Act TimedTables Exc Unit := do
  Act.modify fun t => { t with eventsNoUpdate := false }
  Act.modify fun t => { t with eventsNoDelete := false }

/-- `CREATE TRIGGER IF NOT EXISTS … ON events`. -/
def createTrigger (set : TimedTables → TimedTables) : Act TimedTables Exc Unit := Act.step fun t =>
  if t.events.isSome then (.ok (), set t)
  else (.error (.operationalError "no such table: main.events"), t)

def createTriggers : Act TimedTables Exc Unit := do
  createTrigger fun t => { t with eventsNoUpdate := true }
  createTrigger fun t => { t with eventsNoDelete := true }

/-- The loop over `_TS_COLUMNS`. -/
def sweepAll : Act TimedTables Exc Unit := do
  sourcesTable.sweep canonicalize
  memoriesTable.sweep canonicalize
  claimsTable.sweep canonicalize
  claimMetadataTable.sweep canonicalize
  decisionsTable.sweep canonicalize
  eventsTable.sweep canonicalize
  indexStateTable.sweep canonicalize

/-- `m0008_normalize_naive_created_at.up`. -/
def canonicalUp : Act TimedTables Exc Unit := do
  dropTriggers
  sweepAll.andThen fun r => do
    createTriggers
    Act.done r

/-! ## What the sweep leaves -/

end TimedTables

def ClaimMetadata.canonical (c : ClaimMetadata) : ClaimMetadata :=
  { c with
    lastSeenAt := canonicalTime c.lastSeenAt
    supersededAt := c.supersededAt.map canonicalTime
    createdAt := canonicalTime c.createdAt
    updatedAt := canonicalTime c.updatedAt }

def DecisionRow.canonical (d : DecisionRow) : DecisionRow :=
  { d with createdAt := canonicalTime d.createdAt }

def IndexState.canonical (i : IndexState) : IndexState :=
  { i with lastBuiltAt := i.lastBuiltAt.map canonicalTime }

namespace TimedTables

/-- Every timestamp in its canonical form, the rest as it was, and the triggers in force. -/
def canonical (t : TimedTables) : TimedTables where
  sources := t.sources.map (·.map Source.canonical)
  memories := t.memories.map (·.map Memory.canonical)
  claims := t.claims.map (·.map Claim.canonical)
  claimMetadata := t.claimMetadata.map (·.map ClaimMetadata.canonical)
  decisions := t.decisions.map (·.map DecisionRow.canonical)
  events := t.events.map (·.map Event.canonical)
  indexState := t.indexState.map (·.map IndexState.canonical)
  eventsNoUpdate := true
  eventsNoDelete := true

/-- The timestamps of the tables, where they are not null. -/
def times (t : TimedTables) : List String :=
  sourcesTable.values t ++ memoriesTable.values t ++ claimsTable.values t ++
    claimMetadataTable.values t ++ decisionsTable.values t ++ eventsTable.values t ++
    indexStateTable.values t

/-- Rows have primary keys of their own. -/
structure Keyed (t : TimedTables) : Prop where
  sources : sourcesTable.Keyed t
  memories : memoriesTable.Keyed t
  claims : claimsTable.Keyed t
  claimMetadata : claimMetadataTable.Keyed t
  decisions : decisionsTable.Keyed t
  events : eventsTable.Keyed t
  indexState : indexStateTable.Keyed t

theorem rewrite_sources (t : TimedTables) : sourcesTable.rewrite canonicalTime t =
    { t with sources := t.sources.map (·.map Source.canonical) } := by
  obtain ⟨_ | rows⟩ := t <;> rfl

theorem rewrite_memories (t : TimedTables) : memoriesTable.rewrite canonicalTime t =
    { t with memories := t.memories.map (·.map Memory.canonical) } := by
  obtain ⟨_, _ | rows⟩ := t <;> rfl

theorem rewrite_claims (t : TimedTables) : claimsTable.rewrite canonicalTime t =
    { t with claims := t.claims.map (·.map Claim.canonical) } := by
  obtain ⟨_, _, _ | rows⟩ := t <;> rfl

theorem rewriteRow_claimMetadata (c : ClaimMetadata) :
    rewriteRow canonicalTime claimMetadataTable.columns c = c.canonical := by
  obtain ⟨_, _, _, _, _ | supersededAt⟩ := c <;> rfl

theorem rewrite_claimMetadata (t : TimedTables) : claimMetadataTable.rewrite canonicalTime t =
    { t with claimMetadata := t.claimMetadata.map (·.map ClaimMetadata.canonical) } := by
  obtain ⟨_, _, _, _ | rows⟩ := t
  · rfl
  · have hrows := List.map_congr_left (l := rows) fun c _ => rewriteRow_claimMetadata c
    exact congrArg (fun rows => claimMetadataTable.put rows _) hrows

theorem rewrite_decisions (t : TimedTables) : decisionsTable.rewrite canonicalTime t =
    { t with decisions := t.decisions.map (·.map DecisionRow.canonical) } := by
  obtain ⟨_, _, _, _, _ | rows⟩ := t <;> rfl

theorem rewrite_events (t : TimedTables) : eventsTable.rewrite canonicalTime t =
    { t with events := t.events.map (·.map Event.canonical) } := by
  obtain ⟨_, _, _, _, _, _ | rows⟩ := t <;> rfl

theorem rewriteRow_indexState (i : IndexState) :
    rewriteRow canonicalTime indexStateTable.columns i = i.canonical := by
  obtain ⟨_, _, _, _ | lastBuiltAt⟩ := i <;> rfl

theorem rewrite_indexState (t : TimedTables) : indexStateTable.rewrite canonicalTime t =
    { t with indexState := t.indexState.map (·.map IndexState.canonical) } := by
  obtain ⟨_, _, _, _, _, _, _ | rows⟩ := t
  · rfl
  · have hrows := List.map_congr_left (l := rows) fun i _ => rewriteRow_indexState i
    exact congrArg (fun rows => indexStateTable.put rows _) hrows

section Sweep

variable {α κ : Type} [DecidableEq κ] {T : SweptTable TimedTables Exc α κ String}
  {s t : TimedTables}

/-- The sweep of one table, whatever was done to the others before. -/
theorem keeps_sweep_canonicalize (hrows : T.rows s = T.rows t) (hrefused : T.refused s = none)
    (hkeyed : T.Keyed t) (htimes : ∀ v ∈ T.values t, Representable v) :
    Act.Keeps (fun _ => True) (T.sweep canonicalize) s fun r u =>
      r = .ok () ∧ u = T.rewrite canonicalTime s := by
  refine SweptTable.keeps_sweep hrefused ?_ ?_
  · rwa [SweptTable.Keyed, hrows]
  · intro v hv
    rw [SweptTable.values, hrows] at hv
    exact (htimes v hv).canonicalize_ok

theorem keeps_sweep_then (hrows : T.rows s = T.rows t) (hrefused : T.refused s = none)
    (hkeyed : T.Keyed t) (htimes : ∀ v ∈ T.values t, Representable v)
    {k : Act TimedTables Exc Unit} {R : Except Exc Unit → TimedTables → Prop}
    (h : Act.Keeps (fun _ => True) k (T.rewrite canonicalTime s) R) :
    Act.Keeps (fun _ => True) (T.sweep canonicalize >>= fun _ => k) s R := by
  refine Act.keeps_bind (keeps_sweep_canonicalize hrows hrefused hkeyed htimes) ?_ ?_
  · rintro _ u ⟨-, rfl⟩
    exact h
  · rintro e u ⟨he, -⟩
    cases he

end Sweep

theorem keeps_sweepAll {t : TimedTables} (hkeyed : t.Keyed)
    (htimes : ∀ v ∈ t.times, Representable v) :
    Act.Keeps (fun _ => True) sweepAll { t with eventsNoUpdate := false, eventsNoDelete := false }
      fun r u => r = .ok () ∧
        u = { t.canonical with eventsNoUpdate := false, eventsNoDelete := false } := by
  simp only [times, List.forall_mem_append, and_assoc] at htimes
  obtain ⟨hsources, hmemories, hclaims, hmetadata, hdecisions, hevents, hindex⟩ := htimes
  unfold sweepAll
  refine keeps_sweep_then (t := t) (by simp) rfl hkeyed.sources hsources ?_
  rw [rewrite_sources]
  refine keeps_sweep_then (t := t) (by simp) rfl hkeyed.memories hmemories ?_
  rw [rewrite_memories]
  refine keeps_sweep_then (t := t) (by simp) rfl hkeyed.claims hclaims ?_
  rw [rewrite_claims]
  refine keeps_sweep_then (t := t) (by simp) rfl hkeyed.claimMetadata hmetadata ?_
  rw [rewrite_claimMetadata]
  refine keeps_sweep_then (t := t) (by simp) rfl hkeyed.decisions hdecisions ?_
  rw [rewrite_decisions]
  refine keeps_sweep_then (t := t) (by simp) (by rfl) hkeyed.events hevents ?_
  rw [rewrite_events]
  refine (keeps_sweep_canonicalize (t := t) (by simp) rfl hkeyed.indexState hindex).mono ?_
  rintro _ u ⟨rfl, rfl⟩
  rw [rewrite_indexState]
  exact ⟨rfl, rfl⟩

theorem keeps_dropTriggers (t : TimedTables) :
    Act.Keeps (fun _ => True) dropTriggers t fun r u => r = .ok () ∧
      u = { t with eventsNoUpdate := false, eventsNoDelete := false } :=
  Act.keeps_step_bind (t := { t with eventsNoUpdate := false }) rfl trivial
    (Act.keeps_modify trivial ⟨rfl, rfl⟩)

theorem keeps_createTriggers {t : TimedTables} (hexists : t.events.isSome = true) :
    Act.Keeps (fun _ => True) createTriggers t fun r u => r = .ok () ∧
      u = { t with eventsNoUpdate := true, eventsNoDelete := true } := by
  refine Act.keeps_step_bind (t := { t with eventsNoUpdate := true }) (if_pos hexists) trivial ?_
  refine Act.keeps_step trivial ?_
  dsimp only
  rw [if_pos hexists]
  exact ⟨rfl, rfl⟩

theorem keeps_canonicalUp {t : TimedTables} (hexists : t.events.isSome = true)
    (hkeyed : t.Keyed) (htimes : ∀ v ∈ t.times, Representable v) :
    Act.Keeps (fun _ => True) canonicalUp t fun r u => r = .ok () ∧ u = t.canonical := by
  refine Act.keeps_bind (keeps_dropTriggers t) ?_ fun e u h => nomatch h.1
  rintro _ _ ⟨-, rfl⟩
  refine Act.keeps_andThen (keeps_sweepAll hkeyed htimes) ?_
  rintro _ _ ⟨rfl, rfl⟩
  have hcanonical : t.canonical.events.isSome = true := by
    simpa [canonical] using hexists
  refine Act.keeps_bind (keeps_createTriggers hcanonical) ?_ fun e u h => nomatch h.1
  rintro _ _ ⟨-, rfl⟩
  exact Act.keeps_done ⟨rfl, rfl⟩

theorem values_map {α κ : Type} {T : SweptTable TimedTables Exc α κ String} {s t : TimedTables}
    {f : α → α} (hrows : T.rows t = (T.rows s).map (·.map f))
    (hf : ∀ a, T.columns.filterMap (·.get (f a)) =
      (T.columns.filterMap (·.get a)).map canonicalTime) :
    T.values t = (T.values s).map canonicalTime := by
  unfold SweptTable.values
  rw [hrows]
  cases T.rows s with
  | none => rfl
  | some rows => simp [List.flatMap_map, List.map_flatMap, hf]

theorem keyed_map {α κ : Type} {T : SweptTable TimedTables Exc α κ String} {s t : TimedTables}
    {f : α → α} (hrows : T.rows t = (T.rows s).map (·.map f)) (hf : ∀ a, T.pk (f a) = T.pk a)
    (h : T.Keyed s) : T.Keyed t := by
  unfold SweptTable.Keyed at h ⊢
  rw [hrows]
  cases hs : T.rows s with
  | none => exact List.nodup_nil
  | some rows => simpa [hs, Function.comp_def, hf] using h

theorem times_canonical (t : TimedTables) : t.canonical.times = t.times.map canonicalTime := by
  have hsources : sourcesTable.values t.canonical = (sourcesTable.values t).map canonicalTime :=
    values_map (f := Source.canonical) (by simp [canonical]) fun _ => rfl
  have hmemories : memoriesTable.values t.canonical = (memoriesTable.values t).map canonicalTime :=
    values_map (f := Memory.canonical) (by simp [canonical]) fun _ => rfl
  have hclaims : claimsTable.values t.canonical = (claimsTable.values t).map canonicalTime :=
    values_map (f := Claim.canonical) (by simp [canonical]) fun _ => rfl
  have hmetadata : claimMetadataTable.values t.canonical =
      (claimMetadataTable.values t).map canonicalTime := by
    refine values_map (f := ClaimMetadata.canonical) (by simp [canonical]) ?_
    rintro ⟨_, _, _, _, _ | supersededAt⟩ <;> rfl
  have hdecisions : decisionsTable.values t.canonical =
      (decisionsTable.values t).map canonicalTime :=
    values_map (f := DecisionRow.canonical) (by simp [canonical]) fun _ => rfl
  have hevents : eventsTable.values t.canonical = (eventsTable.values t).map canonicalTime :=
    values_map (f := Event.canonical) (by simp [canonical]) fun _ => rfl
  have hindex : indexStateTable.values t.canonical =
      (indexStateTable.values t).map canonicalTime := by
    refine values_map (f := IndexState.canonical) (by simp [canonical]) ?_
    rintro ⟨_, _, _, _ | lastBuiltAt⟩ <;> rfl
  simp only [times, List.map_append, hsources, hmemories, hclaims, hmetadata, hdecisions, hevents,
    hindex]

theorem Keyed.canonical {t : TimedTables} (h : t.Keyed) : t.canonical.Keyed where
  sources :=
    keyed_map (f := Source.canonical) (by simp [TimedTables.canonical]) (fun _ => rfl) h.sources
  memories :=
    keyed_map (f := Memory.canonical) (by simp [TimedTables.canonical]) (fun _ => rfl) h.memories
  claims :=
    keyed_map (f := Claim.canonical) (by simp [TimedTables.canonical]) (fun _ => rfl) h.claims
  claimMetadata :=
    keyed_map (f := ClaimMetadata.canonical) (by simp [TimedTables.canonical]) (fun _ => rfl)
      h.claimMetadata
  decisions :=
    keyed_map (f := DecisionRow.canonical) (by simp [TimedTables.canonical]) (fun _ => rfl)
      h.decisions
  events :=
    keyed_map (f := Event.canonical) (by simp [TimedTables.canonical]) (fun _ => rfl) h.events
  indexState :=
    keyed_map (f := IndexState.canonical) (by simp [TimedTables.canonical]) (fun _ => rfl)
      h.indexState

/-- Where every timestamp is canonical, nothing changes. -/
theorem canonical_of_fixed {t : TimedTables} (h : ∀ v ∈ t.times, canonicalTime v = v)
    (hnoUpdate : t.eventsNoUpdate = true) (hnoDelete : t.eventsNoDelete = true) :
    t.canonical = t := by
  simp only [times, List.forall_mem_append, and_assoc] at h
  obtain ⟨hsources, hmemories, hclaims, hmetadata, hdecisions, hevents, hindex⟩ := h
  have hsources := (rewrite_sources t).symm.trans (SweptTable.rewrite_of_fixed hsources)
  have hmemories := (rewrite_memories t).symm.trans (SweptTable.rewrite_of_fixed hmemories)
  have hclaims := (rewrite_claims t).symm.trans (SweptTable.rewrite_of_fixed hclaims)
  have hmetadata := (rewrite_claimMetadata t).symm.trans (SweptTable.rewrite_of_fixed hmetadata)
  have hdecisions := (rewrite_decisions t).symm.trans (SweptTable.rewrite_of_fixed hdecisions)
  have hevents := (rewrite_events t).symm.trans (SweptTable.rewrite_of_fixed hevents)
  have hindex := (rewrite_indexState t).symm.trans (SweptTable.rewrite_of_fixed hindex)
  apply TimedTables.ext
  · exact (congrArg sources hsources :)
  · exact (congrArg memories hmemories :)
  · exact (congrArg claims hclaims :)
  · exact (congrArg claimMetadata hmetadata :)
  · exact (congrArg decisions hdecisions :)
  · exact (congrArg events hevents :)
  · exact (congrArg indexState hindex :)
  · exact hnoUpdate.symm
  · exact hnoDelete.symm

/-- Migration 8 succeeds, keeps every instant and every other column, puts the canonical forms in
the order of their instants, restores the triggers, and changes nothing when it runs again. -/
theorem canonical_sweep (t : TimedTables) (hexists : t.events.isSome = true) (hkeyed : t.Keyed)
    (htimes : ∀ v ∈ t.times, Representable v) :
    (canonicalUp t).result = .ok () ∧ (canonicalUp t).final = t.canonical ∧
    t.canonical.eventsNoUpdate = true ∧ t.canonical.eventsNoDelete = true ∧
    (∀ v ∈ t.times, instantOf (canonicalTime v) = instantOf v) ∧
    t.canonical.times = t.times.map canonicalTime ∧
    (∀ v ∈ t.canonical.times, ∀ w ∈ t.canonical.times, v < w ↔
      ∃ m n, instantOf v = some m ∧ instantOf w = some n ∧ m < n) ∧
    (canonicalUp t.canonical).result = .ok () ∧ (canonicalUp t.canonical).final = t.canonical := by
  obtain ⟨hresult, hfinal⟩ := (keeps_canonicalUp hexists hkeyed htimes).2
  have hcanonical : ∀ v ∈ t.canonical.times, Representable v ∧ canonicalTime v = v := by
    intro v hv
    rw [times_canonical] at hv
    obtain ⟨w, hw, rfl⟩ := List.mem_map.1 hv
    exact ⟨(htimes w hw).canonical, (htimes w hw).canonical_idem⟩
  obtain ⟨hagain, hsame⟩ := (keeps_canonicalUp (t := t.canonical)
    (by simpa [TimedTables.canonical] using hexists) hkeyed.canonical fun v hv =>
      (hcanonical v hv).1).2
  refine ⟨hresult, hfinal, rfl, rfl, fun v hv => (htimes v hv).instant_kept, times_canonical t, ?_,
    hagain, hsame.trans (canonical_of_fixed (fun v hv => (hcanonical v hv).2) rfl rfl)⟩
  intro v hv w hw
  obtain ⟨hvtime, hveq⟩ := hcanonical v hv
  obtain ⟨hwtime, hweq⟩ := hcanonical w hw
  have hlt := canonicalTime_lt_iff hvtime hwtime
  rwa [hveq, hweq] at hlt

/-- The tables as the migration of the whole store sees them. -/
def toOldDb (version : Nat) (t : TimedTables) : OldDb where
  version := version
  db :=
    { sources := t.sources.getD []
      memories := t.memories.getD []
      claims := t.claims.getD []
      decisions := (t.decisions.getD []).map fun d => ⟨d.decisionId, d.userId⟩
      events := t.events.getD [] }
  claimMetadataTimes := claimMetadataTable.values t
  decisionTimes := decisionsTable.values t
  indexStateTimes := indexStateTable.values t

theorem times_toOldDb (version : Nat) (t : TimedTables) : (t.toOldDb version).times = t.times := by
  have hsources : (t.sources.getD []).map (·.ingestedAt) = sourcesTable.values t :=
    List.map_eq_flatMap
  have hevents : (t.events.getD []).map (·.createdAt) = eventsTable.values t :=
    List.map_eq_flatMap
  simp only [OldDb.times, toOldDb, hsources, hevents]
  rfl

/-- The migration of the whole store leaves what the sweep leaves. -/
theorem m0008_toOldDb (version : Nat) {t : TimedTables}
    (htimes : ∀ v ∈ t.times, Representable v) : ∃ y,
      m0008 (t.toOldDb version) = .ok y ∧ y.db = (t.canonical.toOldDb version).db := by
  obtain ⟨y, -, hdb, hsettles⟩ := m0008_settles (t.toOldDb version)
  refine ⟨y, hsettles.done ?_, hdb.trans ?_⟩
  · intro v hv
    rw [times_toOldDb] at hv
    rw [(htimes v hv).canonicalize_ok]
    rfl
  · obtain ⟨_ | sources, _ | memories, _ | claims, metadata, _ | decisions, _ | events⟩ := t <;>
      simp [Db.canonical, toOldDb, canonical, DecisionRow.canonical]

section Sample

/-- Timestamps in several forms, and one that is null. -/
def sampleTimed : TimedTables where
  sources := some [⟨"ext", "parallax://external/ext", "external", "", "ann", "2026-01-01 00:00:00",
    "ingested"⟩]
  memories := none
  claims := some
    [⟨"C1", "ann", "s", "p", "o", "ext", "", none, "auto", "2026-01-01T08:00:00+08:00",
      "2025-12-31T23:59:59.5Z"⟩]
  claimMetadata := some []
  decisions := some []
  events := some
    [⟨"E1", "ann", "system", "claim.created", none, none, "\x7b\x7d", none, "2026-01-01", none⟩]
  indexState := some [⟨1, "chroma", 1, none, none, none, "stale", none⟩]
  eventsNoUpdate := true
  eventsNoDelete := true

theorem sampleTimed_representable : ∀ v ∈ sampleTimed.times, Representable v := by
  have htimes : sampleTimed.times = ["2026-01-01 00:00:00", "2026-01-01T08:00:00+08:00",
      "2025-12-31T23:59:59.5Z", "2026-01-01"] := rfl
  rw [htimes]
  simp only [List.forall_mem_cons, List.not_mem_nil, false_imp_iff, implies_true, and_true]
  exact ⟨⟨1767225600000000, _, by decide +kernel, rfl⟩,
    ⟨1767225600000000, _, by decide +kernel, rfl⟩,
    ⟨1767225599500000, _, by decide +kernel, rfl⟩, ⟨1767225600000000, _, by decide +kernel, rfl⟩⟩

theorem canonical_sweep_sample : (canonicalUp sampleTimed).result = .ok () ∧
    (canonicalUp sampleTimed).final = sampleTimed.canonical ∧
    (canonicalUp sampleTimed.canonical).final = sampleTimed.canonical := by
  have hkeyed : sampleTimed.Keyed := by
    constructor <;> unfold SweptTable.Keyed <;> decide
  have h := canonical_sweep sampleTimed rfl hkeyed sampleTimed_representable
  exact ⟨h.1, h.2.1, h.2.2.2.2.2.2.2.2⟩

end Sample

end TimedTables
end ParallaxKernel.Store
