import ParallaxKernel.Canary.Dod
import ParallaxKernel.Lib.Grouping

/-!
# The canary counters

`collect_canary_snapshot` and the counter and histogram families of `CanaryExporter.collect` in
`canary/exporter.py`, over the tables that `OutcomeStore.record` and `AuditLog.record` write. Counts
are recomputed at every scrape.
-/

namespace ParallaxKernel.Canary.Dod.Exporter

open Lib

/-! ## Writes -/

/-- A call of `OutcomeStore.record` or of `AuditLog.record` whose statement succeeds. -/
inductive StoreOp where
  | outcome (eventId stage outcome : String) (recordedAt : Option String) (now : String)
  | audit (eventId : String) (row : AuditRow)

def step (s : State) : StoreOp → State
  | .outcome eventId stage outcome recordedAt now =>
    { s with outcomes := recordOutcome s.outcomes eventId stage outcome recordedAt now }
  | .audit eventId row => { s with audit := s.audit.record eventId row }

def run (ops : List StoreOp) : State := ops.foldl step .empty

/-! ## Snapshots -/

/-- `ERROR_STATUS_FLOOR`. -/
def errorStatusFloor : Int := 500

/-- `CANARY_DURATION_BUCKETS_MS`. -/
def canaryDurationBucketsMs : List ℚ :=
  [1, 5 / 2, 5, 10, 25, 50, 75, 100, 150, 250, 500, 1000]

/-- `_BASELINE_STAGES`. -/
def baselineStages : List String := knownStages.insertionSort (· ≤ ·)

/-- `_BASELINE_OUTCOMES`. -/
def baselineOutcomes : List String := knownOutcomes.insertionSort (· ≤ ·)

structure CanarySnapshot where
  events : List ((String × String) × Nat)
  errors : List (String × Nat)
  durationsMs : List (String × List SqlReal)
  deriving DecidableEq

/-- The audit row of the event has an error status. -/
def isError (audit : AuditLog) (row : OutcomeRecord) : Bool :=
  (audit row.eventId).any fun a => errorStatusFloor ≤ a.responseStatus

/-- The latency in the audit row of the event. -/
def latencyOf (audit : AuditLog) (row : OutcomeRecord) : Option SqlReal :=
  (audit row.eventId).bind (·.latencyMs)

/-- `collect_canary_snapshot` of a store that has both tables. -/
def collectCanarySnapshot (s : State) : CanarySnapshot where
  events := (groupBy (fun row : OutcomeRecord => (row.stage, row.outcome)) s.outcomes).map
    fun g => (g.1, g.2.length)
  errors := (groupBy OutcomeRecord.stage (s.outcomes.filter (isError s.audit))).map
    fun g => (g.1, g.2.length)
  durationsMs := (groupBy Prod.fst (s.outcomes.filterMap fun row =>
    (latencyOf s.audit row).map fun latency => (row.stage, latency))).map
      fun g => (g.1, g.2.map Prod.snd)

namespace CanarySnapshot

/-- The counts of the cells with one outcome, by stage. -/
def withOutcome (snapshot : CanarySnapshot) (outcome : String) : List (String × Nat) :=
  snapshot.events.filterMap fun cell =>
    if cell.1.2 = outcome then some (cell.1.1, cell.2) else none

def discrepancies (snapshot : CanarySnapshot) : List (String × Nat) :=
  snapshot.withOutcome "discrepancy"

def dataLoss (snapshot : CanarySnapshot) : List (String × Nat) :=
  snapshot.withOutcome "data_loss"

def stages (snapshot : CanarySnapshot) : List String :=
  (baselineStages ++ snapshot.events.map (·.1.1)).dedup.insertionSort (· ≤ ·)

def eventCells (snapshot : CanarySnapshot) : List (String × String) :=
  (baselineStages.product baselineOutcomes ++ snapshot.events.map Prod.fst).dedup.insertionSort
    fun a b => a.1 < b.1 ∨ a.1 = b.1 ∧ a.2 ≤ b.2

end CanarySnapshot

/-! ## Series -/

/-- The series of the counters and of the histogram by their labels; a bucket has its upper bound,
the one for `+Inf` none. -/
inductive Series where
  | events (stage outcome : String)
  | eventErrors (stage : String)
  | discrepancy (stage : String)
  | dataLossEvents (stage : String)
  | durationBucket (stage : String) (bound : Option ℚ)
  | durationCount (stage : String)
  deriving DecidableEq

/-- `_cumulative_buckets`. -/
def cumulativeBuckets (values : List SqlReal) : List (Option ℚ × Nat) :=
  (canaryDurationBucketsMs.map fun bound =>
    (some bound, values.countP fun v => v ≤ .ofRat bound)) ++ [(none, values.length)]

/-- `CanaryExporter.collect`, as far as it renders counters and the histogram; the count of the
histogram is that of its last bucket. -/
def collect (snapshot : CanarySnapshot) : List (Series × Nat) :=
  (snapshot.eventCells.map fun cell =>
    (.events cell.1 cell.2, (snapshot.events.lookup cell).getD 0)) ++
  (snapshot.stages.map fun stage =>
    (.eventErrors stage, (snapshot.errors.lookup stage).getD 0)) ++
  (snapshot.stages.map fun stage =>
    (.discrepancy stage, (snapshot.discrepancies.lookup stage).getD 0)) ++
  (snapshot.stages.map fun stage =>
    (.dataLossEvents stage, (snapshot.dataLoss.lookup stage).getD 0)) ++
  snapshot.stages.flatMap fun stage =>
    let values := (snapshot.durationsMs.lookup stage).getD []
    ((cumulativeBuckets values).map fun bucket => (.durationBucket stage bucket.1, bucket.2)) ++
      [(.durationCount stage, values.length)]

/-- What a scrape exports. -/
def scrape (s : State) : List (Series × Nat) := collect (collectCanarySnapshot s)

/-! ## What a series counts -/

/-- The outcome is one of those that the series counts. -/
def counts (audit : AuditLog) : Series → OutcomeRecord → Bool
  | .events stage outcome, row => row.stage = stage && row.outcome = outcome
  | .eventErrors stage, row => row.stage = stage && isError audit row
  | .discrepancy stage, row => row.stage = stage && row.outcome = "discrepancy"
  | .dataLossEvents stage, row => row.stage = stage && row.outcome = "data_loss"
  | .durationBucket stage (some bound), row =>
    row.stage = stage && (latencyOf audit row).any fun v => v ≤ .ofRat bound
  | .durationBucket stage none, row | .durationCount stage, row =>
    row.stage = stage && (latencyOf audit row).isSome

def value (s : State) (k : Series) : Nat := s.outcomes.countP (counts s.audit k)

/-- The series is exported. -/
def Exported (s : State) : Series → Prop
  | .events stage outcome => (stage ∈ knownStages ∧ outcome ∈ knownOutcomes) ∨
      ∃ row ∈ s.outcomes, row.stage = stage ∧ row.outcome = outcome
  | .durationBucket stage bound =>
    (stage ∈ knownStages ∨ ∃ row ∈ s.outcomes, row.stage = stage) ∧
      ∀ b, bound = some b → b ∈ canaryDurationBucketsMs
  | .eventErrors stage | .discrepancy stage | .dataLossEvents stage | .durationCount stage =>
    stage ∈ knownStages ∨ ∃ row ∈ s.outcomes, row.stage = stage

section Scrape

variable {α κ β : Type} [DecidableEq κ] {s : State} {stage outcome : String}

/-- What stands under a key after every group is rendered. -/
theorem lookup_groups [BEq κ] [LawfulBEq κ] {f : α → κ} {xs : List α} {render : List α → β}
    {d : β} (hnil : render [] = d) (key : κ) :
    (((groupBy f xs).map fun g => (g.1, render g.2)).lookup key).getD d =
      render (xs.filter fun x => f x = key) := by
  rw [← (isGrouped_groupBy f xs).group key]
  induction groupBy f xs with
  | nil => simp [hnil]
  | cons g gs ih =>
    rw [List.map_cons, List.lookup_cons, groupOf_cons]
    by_cases hkey : key = g.1
    · rw [if_pos hkey, beq_iff_eq.2 hkey]
      rfl
    · rw [if_neg hkey, beq_eq_false_iff_ne.2 hkey]
      exact ih

theorem lookup_events (s : State) (stage outcome : String) :
    ((collectCanarySnapshot s).events.lookup (stage, outcome)).getD 0 =
      value s (.events stage outcome) := by
  refine (@lookup_groups _ _ _ _ _ _ (fun row : OutcomeRecord => (row.stage, row.outcome)) s.outcomes
    List.length 0 rfl (stage, outcome)).trans ?_
  rw [value, List.countP_eq_length_filter]
  congr 1
  refine List.filter_congr fun row _ => ?_
  simp [counts]

theorem lookup_withOutcome (snapshot : CanarySnapshot) (stage outcome : String) :
    (snapshot.withOutcome outcome).lookup stage = snapshot.events.lookup (stage, outcome) := by
  rw [CanarySnapshot.withOutcome]
  induction snapshot.events with
  | nil => rfl
  | cons cell cells ih =>
    obtain ⟨⟨stage', outcome'⟩, n⟩ := cell
    rw [List.filterMap_cons, List.lookup_cons]
    by_cases houtcome : outcome' = outcome
    · subst houtcome
      by_cases hstage : stage = stage'
      · simp [hstage]
      · have hcell : ((stage, outcome') == (stage', outcome')) = false :=
          beq_eq_false_iff_ne.2 fun h => hstage (Prod.mk.inj h).1
        rw [hcell, if_pos rfl]
        simpa only [List.lookup_cons, beq_eq_false_iff_ne.2 hstage] using ih
    · have hcell : ((stage, outcome) == (stage', outcome')) = false :=
        beq_eq_false_iff_ne.2 fun h => houtcome (Prod.mk.inj h).2.symm
      rw [hcell, if_neg houtcome]
      exact ih

theorem lookup_errors (s : State) (stage : String) :
    ((collectCanarySnapshot s).errors.lookup stage).getD 0 = value s (.eventErrors stage) := by
  refine (lookup_groups rfl stage).trans ?_
  rw [value, List.countP_eq_length_filter, List.filter_filter]
  rfl

theorem lookup_durationsMs (s : State) (stage : String) :
    ((collectCanarySnapshot s).durationsMs.lookup stage).getD [] =
      (s.outcomes.filter fun row => row.stage = stage).filterMap (latencyOf s.audit) := by
  refine (lookup_groups rfl stage).trans ?_
  induction s.outcomes with
  | nil => rfl
  | cons row rows ih =>
    by_cases hstage : row.stage = stage
    · cases hlatency : latencyOf s.audit row with
      | none => simpa [hstage, hlatency] using ih
      | some latency => simpa [hstage, hlatency] using ih
    · cases hlatency : latencyOf s.audit row with
      | none => simpa [hstage, hlatency] using ih
      | some latency => simpa [hstage, hlatency] using ih

theorem mem_events_keys {key : String × String} :
    key ∈ (collectCanarySnapshot s).events.map Prod.fst ↔
      ∃ row ∈ s.outcomes, row.stage = key.1 ∧ row.outcome = key.2 := by
  have hkeys : (collectCanarySnapshot s).events.map Prod.fst =
      (groupBy (fun row : OutcomeRecord => (row.stage, row.outcome)) s.outcomes).map Prod.fst := by
    simp [collectCanarySnapshot, Function.comp_def]
  rw [hkeys, (isGrouped_groupBy _ _).key_mem]
  simp [Prod.ext_iff]

theorem mem_stages :
    stage ∈ (collectCanarySnapshot s).stages ↔
      stage ∈ knownStages ∨ ∃ row ∈ s.outcomes, row.stage = stage := by
  rw [CanarySnapshot.stages, List.mem_insertionSort, List.mem_dedup, List.mem_append,
    baselineStages, List.mem_insertionSort]
  refine or_congr_right ?_
  constructor
  · intro h
    obtain ⟨cell, hcell, rfl⟩ := List.mem_map.1 h
    obtain ⟨row, hrow, hstage, -⟩ := mem_events_keys.1 (List.mem_map_of_mem hcell)
    exact ⟨row, hrow, hstage⟩
  · rintro ⟨row, hrow, rfl⟩
    have hmem : (row.stage, row.outcome) ∈ (collectCanarySnapshot s).events.map Prod.fst :=
      mem_events_keys.2 ⟨row, hrow, rfl, rfl⟩
    obtain ⟨cell, hcell, heq⟩ := List.mem_map.1 hmem
    exact List.mem_map.2 ⟨cell, hcell, congrArg Prod.fst heq⟩

theorem mem_eventCells :
    (stage, outcome) ∈ (collectCanarySnapshot s).eventCells ↔
      (stage ∈ knownStages ∧ outcome ∈ knownOutcomes) ∨
        ∃ row ∈ s.outcomes, row.stage = stage ∧ row.outcome = outcome := by
  rw [CanarySnapshot.eventCells, List.mem_insertionSort, List.mem_dedup, List.mem_append,
    mem_events_keys, List.pair_mem_product, baselineStages, baselineOutcomes,
    List.mem_insertionSort, List.mem_insertionSort]

theorem length_latencies (s : State) (stage : String) :
    ((s.outcomes.filter fun row => row.stage = stage).filterMap (latencyOf s.audit)).length =
      value s (.durationCount stage) := by
  rw [value, List.length_filterMap_eq_countP, List.countP_filter]
  exact List.countP_congr fun row _ => by simp [counts, and_comm]

theorem countP_latencies (s : State) (stage : String) (bound : ℚ) :
    ((s.outcomes.filter fun row => row.stage = stage).filterMap (latencyOf s.audit)).countP
        (fun v => v ≤ .ofRat bound) = value s (.durationBucket stage (some bound)) := by
  rw [value, List.countP_filterMap, List.countP_filter]
  refine List.countP_congr fun row _ => ?_
  cases hlatency : latencyOf s.audit row <;> simp [counts, hlatency, and_comm]

/-- A scrape exports its series with what they count. -/
theorem mem_scrape {k : Series} {v : Nat} :
    (k, v) ∈ scrape s ↔ Exported s k ∧ v = value s k := by
  have hcells : ∀ cell, cell ∈ (collectCanarySnapshot s).eventCells ↔
      (cell.1 ∈ knownStages ∧ cell.2 ∈ knownOutcomes) ∨
        ∃ row ∈ s.outcomes, row.stage = cell.1 ∧ row.outcome = cell.2 := fun cell => mem_eventCells
  have hstages : ∀ stage, stage ∈ (collectCanarySnapshot s).stages ↔
      stage ∈ knownStages ∨ ∃ row ∈ s.outcomes, row.stage = stage := fun stage => mem_stages
  simp only [scrape, collect, CanarySnapshot.discrepancies, CanarySnapshot.dataLoss,
    lookup_withOutcome, lookup_events, lookup_errors, lookup_durationsMs, List.mem_append,
    List.mem_map, List.mem_flatMap, List.mem_singleton, hcells, hstages, Prod.mk.injEq]
  cases k with
  | events stage outcome => simp [Exported, lookup_events, eq_comm]
  | eventErrors stage => simp [Exported, eq_comm]
  | discrepancy stage =>
    have hvalue : value s (.discrepancy stage) = value s (.events stage "discrepancy") := rfl
    simp [Exported, hvalue, eq_comm]
  | dataLossEvents stage =>
    have hvalue : value s (.dataLossEvents stage) = value s (.events stage "data_loss") := rfl
    simp [Exported, hvalue, eq_comm]
  | durationBucket stage bound =>
    cases bound with
    | none =>
      have hvalue : value s (.durationBucket stage none) = value s (.durationCount stage) := rfl
      simp only [cumulativeBuckets, length_latencies, hvalue]
      simp [Exported, eq_comm (a := v)]
    | some b =>
      simp only [Exported, cumulativeBuckets, countP_latencies]
      simp [and_assoc, eq_comm (a := v)]
  | durationCount stage => simp [Exported, length_latencies]

end Scrape

/-! ## Counters that never go backwards -/

/-- The events that are recorded for a stage, those with one outcome alone where it is given. -/
def recordedFor (stage : String) (outcome : Option String) (ops : List StoreOp) : List String :=
  ops.filterMap fun
    | .outcome eventId stage' outcome' _ _ =>
      if stage' = stage ∧ stage' ∈ knownStages ∧ outcome' ∈ knownOutcomes ∧
          (outcome = none ∨ outcome = some outcome') then some eventId
      else none
    | .audit _ _ => none

/-- The sum of the events series of a stage. -/
def eventsTotal (series : List (Series × Nat)) (stage : String) : Nat :=
  (series.filterMap fun
    | (.events stage' _, v) => if stage' = stage then some v else none
    | _ => none).sum

/-- Scrapes after prefixes of the writes: no series goes back, the events of a stage are those that
are recorded for it, and a loss stays counted. -/
structure NeverBackwards (ops : List StoreOp) : Prop where
  monotone : ∀ earlier later, earlier <+: later → later <+: ops → ∀ k v,
    (k, v) ∈ scrape (run earlier) → ∃ v', (k, v') ∈ scrape (run later) ∧ v ≤ v'
  events : ∀ before, before <+: ops → ∀ stage ∈ knownStages,
    eventsTotal (scrape (run before)) stage = (recordedFor stage none before).dedup.length
  losses : ∀ before, before <+: ops → ∀ stage, ∀ v,
    (.dataLossEvents stage, v) ∈ scrape (run before) →
    (recordedFor stage (some "data_loss") before).dedup.length ≤ v

/-- The write leaves what it finds as it counts: an outcome that is recorded again is the same, and
an audit row that is written over stays an error if it was one, and stays within every bucket. -/
def Steady (s : State) : StoreOp → Prop
  | .outcome eventId stage outcome _ _ => stage ∈ knownStages → outcome ∈ knownOutcomes →
      ∀ row ∈ s.outcomes, row.eventId = eventId → row.stage = stage ∧ row.outcome = outcome
  | .audit eventId new => ∀ row ∈ s.outcomes, row.eventId = eventId →
      ∀ old, s.audit eventId = some old →
        (errorStatusFloor ≤ old.responseStatus → errorStatusFloor ≤ new.responseStatus) ∧
        ∀ v, old.latencyMs = some v → ∃ v', new.latencyMs = some v' ∧
          ∀ bound ∈ canaryDurationBucketsMs, v ≤ .ofRat bound → v' ≤ .ofRat bound

/-- Every write of a sequence is steady where it comes. -/
def SteadyRun (ops : List StoreOp) : Prop :=
  ∀ before op, before ++ [op] <+: ops → Steady (run before) op

/-! ## Steps -/

section Steps

variable {s s' : State} {op : StoreOp} {k : Series} {f : OutcomeRecord → OutcomeRecord}
  {added : List OutcomeRecord}

theorem countP_lt_countP {α : Type} {p q : α → Bool} {xs : List α} {a : α}
    (h : ∀ x ∈ xs, q x = true → p x = true) (ha : a ∈ xs) (hp : p a = true) (hq : q a ≠ true) :
    xs.countP q < xs.countP p := by
  obtain ⟨before, after, rfl⟩ := List.append_of_mem ha
  have hbefore : before.countP q ≤ before.countP p :=
    List.countP_mono_left fun x hx => h x (List.mem_append_left _ hx)
  have hafter : after.countP q ≤ after.countP p :=
    List.countP_mono_left fun x hx => h x (List.mem_append_right _ (List.mem_cons_of_mem a hx))
  rw [List.countP_append, List.countP_append, List.countP_cons_of_neg hq,
    List.countP_cons_of_pos hp]
  omega

/-- A series that keeps counting the rows it counts does not go back. -/
theorem value_le (hrows : s'.outcomes = s.outcomes.map f ++ added)
    (h : ∀ row ∈ s.outcomes, counts s.audit k row = true → counts s'.audit k (f row) = true) :
    value s k ≤ value s' k := by
  rw [value, value, hrows, List.countP_append, List.countP_map]
  exact (List.countP_mono_left h).trans (Nat.le_add_right _ _)

/-- A series that drops a row, and takes up no other, goes back. -/
theorem value_lt (hrows : s'.outcomes = s.outcomes.map f)
    (h : ∀ row ∈ s.outcomes, counts s'.audit k (f row) = true → counts s.audit k row = true)
    {row : OutcomeRecord} (hrow : row ∈ s.outcomes) (hcounts : counts s.audit k row = true)
    (hdropped : counts s'.audit k (f row) ≠ true) : value s' k < value s k := by
  rw [value, value, hrows, List.countP_map]
  exact countP_lt_countP h hrow hcounts hdropped

/-- Rows count by their event, their stage and their outcome. -/
theorem counts_congr {audit : AuditLog} {row row' : OutcomeRecord}
    (hid : row'.eventId = row.eventId) (hstage : row'.stage = row.stage)
    (houtcome : row'.outcome = row.outcome) : counts audit k row' = counts audit k row := by
  have herror : isError audit row' = isError audit row := by rw [isError, hid, isError]
  have hlatency : latencyOf audit row' = latencyOf audit row := by rw [latencyOf, hid, latencyOf]
  cases k with
  | durationBucket stage bound => cases bound <;> simp only [counts, hstage, hlatency]
  | _ => simp only [counts, hstage, houtcome, herror, hlatency]

/-- Of the audit log a row needs what is there for its event. -/
theorem counts_audit_congr {audit audit' : AuditLog} {row : OutcomeRecord}
    (h : audit' row.eventId = audit row.eventId) : counts audit' k row = counts audit k row := by
  have herror : isError audit' row = isError audit row := by rw [isError, h, isError]
  have hlatency : latencyOf audit' row = latencyOf audit row := by rw [latencyOf, h, latencyOf]
  cases k with
  | durationBucket stage bound => cases bound <;> simp only [counts, hlatency]
  | _ => simp only [counts, herror, hlatency]

/-- A steady write keeps the rows, but for their times, and adds further ones. -/
theorem Steady.exists_rows (hsteady : Steady s op) :
    ∃ f added, (step s op).outcomes = s.outcomes.map f ++ added ∧
      ∀ row ∈ s.outcomes, (f row).eventId = row.eventId ∧ (f row).stage = row.stage ∧
        (f row).outcome = row.outcome := by
  cases op with
  | audit eventId new => exact ⟨id, [], by simp [step], fun row _ => ⟨rfl, rfl, rfl⟩⟩
  | outcome eventId stage outcome recordedAt now =>
    simp only [step, recordOutcome]
    split_ifs with hunknown hold
    · exact ⟨id, [], by simp, fun row _ => ⟨rfl, rfl, rfl⟩⟩
    · rw [not_or, not_not, not_not] at hunknown
      refine ⟨_, [], (List.append_nil _).symm, fun row hrow => ?_⟩
      by_cases hid : row.eventId = eventId
      · obtain ⟨hstage, houtcome⟩ := hsteady hunknown.1 hunknown.2 row hrow hid
        rw [if_pos hid]
        exact ⟨rfl, hstage.symm, houtcome.symm⟩
      · rw [if_neg hid]
        exact ⟨rfl, rfl, rfl⟩
    · exact ⟨id, _, by rw [List.map_id], fun row _ => ⟨rfl, rfl, rfl⟩⟩

theorem record_audit (audit : AuditLog) (eventId : String) (new : AuditRow) :
    ∃ row, audit.record eventId new eventId = some row ∧
      row.responseStatus = new.responseStatus ∧ row.latencyMs = new.latencyMs := by
  rw [AuditLog.record, Function.update_self]
  cases audit eventId with
  | none => exact ⟨new, rfl, rfl, rfl⟩
  | some old => exact ⟨_, rfl, rfl, rfl⟩

theorem record_audit_of_ne (audit : AuditLog) {eventId other : String} (new : AuditRow)
    (hne : other ≠ eventId) : audit.record eventId new other = audit other := by
  rw [AuditLog.record, Function.update_of_ne hne]

/-- A row stays an error, and within the buckets, in every series that counts it. -/
theorem counts_of_audit {audit audit' : AuditLog} {row : OutcomeRecord} (hk : Exported s k)
    (herror : isError audit row = true → isError audit' row = true)
    (hlatency : ∀ v, latencyOf audit row = some v → ∃ v', latencyOf audit' row = some v' ∧
      ∀ bound ∈ canaryDurationBucketsMs, v ≤ .ofRat bound → v' ≤ .ofRat bound)
    (hcounts : counts audit k row = true) : counts audit' k row = true := by
  have hknown : (latencyOf audit row).isSome = true → (latencyOf audit' row).isSome = true := by
    intro h
    obtain ⟨v, hv⟩ := Option.isSome_iff_exists.1 h
    obtain ⟨v', hv', -⟩ := hlatency v hv
    rw [hv']
    rfl
  cases k with
  | events stage outcome => exact hcounts
  | discrepancy stage => exact hcounts
  | dataLossEvents stage => exact hcounts
  | eventErrors stage =>
    simp only [counts, Bool.and_eq_true] at hcounts ⊢
    exact ⟨hcounts.1, herror hcounts.2⟩
  | durationCount stage =>
    simp only [counts, Bool.and_eq_true] at hcounts ⊢
    exact ⟨hcounts.1, hknown hcounts.2⟩
  | durationBucket stage bound =>
    cases bound with
    | none =>
      simp only [counts, Bool.and_eq_true] at hcounts ⊢
      exact ⟨hcounts.1, hknown hcounts.2⟩
    | some b =>
      simp only [counts, Bool.and_eq_true] at hcounts ⊢
      obtain ⟨v, hv, hle⟩ := (Option.any_eq_true _ _).1 hcounts.2
      obtain ⟨v', hv', hbuckets⟩ := hlatency v hv
      refine ⟨hcounts.1, ?_⟩
      rw [hv']
      exact decide_eq_true (hbuckets b (hk.2 b rfl) (of_decide_eq_true hle))

/-- After a steady write a series still counts the rows that it counts. -/
theorem Steady.counts (hsteady : Steady s op) (hk : Exported s k) {row : OutcomeRecord}
    (hrow : row ∈ s.outcomes) (hcounts : counts s.audit k row = true) :
    Exporter.counts (step s op).audit k row = true := by
  cases op with
  | outcome eventId stage outcome recordedAt now => exact hcounts
  | audit eventId new =>
    have haudit : (step s (.audit eventId new)).audit = s.audit.record eventId new := rfl
    by_cases hid : row.eventId = eventId
    · obtain ⟨row', hrow', hstatus, hlatency'⟩ := record_audit s.audit eventId new
      refine counts_of_audit hk (fun herror => ?_) (fun v hv => ?_) hcounts
      · obtain ⟨old, hold, herror⟩ := (Option.any_eq_true _ _).1 herror
        rw [hid] at hold
        rw [isError, haudit, hid, hrow', Option.any_some, hstatus]
        exact decide_eq_true ((hsteady row hrow hid old hold).1 (of_decide_eq_true herror))
      · obtain ⟨old, hold, hv⟩ := Option.bind_eq_some_iff.1 hv
        rw [hid] at hold
        rw [latencyOf, haudit, hid, hrow', Option.bind_some, hlatency']
        exact (hsteady row hrow hid old hold).2 v hv
    · rw [haudit, counts_audit_congr (record_audit_of_ne s.audit new hid)]
      exact hcounts

theorem Steady.value_le (hsteady : Steady s op) (hk : Exported s k) :
    value s k ≤ value (step s op) k := by
  obtain ⟨f, added, hrows, hsame⟩ := hsteady.exists_rows
  refine Exporter.value_le hrows fun row hrow hcounts => ?_
  obtain ⟨hid, hstage, houtcome⟩ := hsame row hrow
  rw [counts_congr hid hstage houtcome]
  exact hsteady.counts hk hrow hcounts

theorem Steady.exported (hsteady : Steady s op) (hk : Exported s k) :
    Exported (step s op) k := by
  obtain ⟨f, added, hrows, hsame⟩ := hsteady.exists_rows
  have hkept {row : OutcomeRecord} (hrow : row ∈ s.outcomes) :
      ∃ row' ∈ (step s op).outcomes, row'.stage = row.stage ∧ row'.outcome = row.outcome := by
    refine ⟨f row, ?_, (hsame row hrow).2.1, (hsame row hrow).2.2⟩
    rw [hrows]
    exact List.mem_append_left _ (List.mem_map_of_mem hrow)
  have hstages {stage : String} (h : stage ∈ knownStages ∨ ∃ row ∈ s.outcomes, row.stage = stage) :
      stage ∈ knownStages ∨ ∃ row ∈ (step s op).outcomes, row.stage = stage := by
    refine h.imp_right ?_
    rintro ⟨row, hrow, rfl⟩
    obtain ⟨row', hrow', hstage, -⟩ := hkept hrow
    exact ⟨row', hrow', hstage⟩
  cases k with
  | events stage outcome =>
    refine Or.imp_right ?_ hk
    rintro ⟨row, hrow, rfl, rfl⟩
    obtain ⟨row', hrow', hstage, houtcome⟩ := hkept hrow
    exact ⟨row', hrow', hstage, houtcome⟩
  | durationBucket stage bound => exact ⟨hstages hk.1, hk.2⟩
  | eventErrors stage => exact hstages hk
  | discrepancy stage => exact hstages hk
  | dataLossEvents stage => exact hstages hk
  | durationCount stage => exact hstages hk

/-! ## Writes that are not steady -/

/-- The series at a row's stage are exported. -/
theorem exported_of_mem {row : OutcomeRecord} (hrow : row ∈ s.outcomes) :
    Exported s (.events row.stage row.outcome) ∧ Exported s (.eventErrors row.stage) ∧
      Exported s (.durationCount row.stage) ∧
      ∀ bound ∈ canaryDurationBucketsMs, Exported s (.durationBucket row.stage (some bound)) :=
  ⟨.inr ⟨row, hrow, rfl, rfl⟩, .inr ⟨row, hrow, rfl⟩, .inr ⟨row, hrow, rfl⟩,
    fun _ hbound => ⟨.inr ⟨row, hrow, rfl⟩, fun _ h => Option.some.inj h ▸ hbound⟩⟩

/-- A write after which no series has gone back is steady. -/
theorem steady_of_value_le (h : ∀ k, Exported s k → value s k ≤ value (step s op) k) :
    Steady s op := by
  cases op with
  | outcome eventId stage outcome recordedAt now =>
    intro hstage houtcome row hrow hid
    by_contra hother
    have hmem : eventId ∈ s.outcomes.map OutcomeRecord.eventId :=
      List.mem_map.2 ⟨row, hrow, hid⟩
    refine absurd (h _ (exported_of_mem hrow).1) (not_le.2 ?_)
    refine @value_lt _ (step s (.outcome eventId stage outcome recordedAt now)) _
      (fun row => if row.eventId = eventId then
        { row with stage, outcome, recordedAt := recordedAt.getD row.recordedAt } else row)
      (by simp [step, recordOutcome, hstage, houtcome, hmem]) (fun row' _ hcounts => ?_) row hrow
      (by simp [counts]) ?_
    · by_cases hid' : row'.eventId = eventId
      · rw [if_pos hid'] at hcounts
        simp only [counts, Bool.and_eq_true, decide_eq_true_eq] at hcounts
        exact absurd ⟨hcounts.1.symm, hcounts.2.symm⟩ hother
      · rw [if_neg hid'] at hcounts
        exact hcounts
    · rw [if_pos hid]
      intro hsame
      simp only [counts, Bool.and_eq_true, decide_eq_true_eq] at hsame
      exact hother ⟨hsame.1.symm, hsame.2.symm⟩
  | audit eventId new =>
    intro row hrow hid old hold
    obtain ⟨row', hrow', hstatus, hlatency'⟩ := record_audit s.audit eventId new
    have haudit : (step s (.audit eventId new)).audit = s.audit.record eventId new := rfl
    -- a series drops the row if it counts no row of the event after the write
    have hdrop {k : Series} (hk : Exported s k) (hcounts : counts s.audit k row = true) :
        ∃ r : OutcomeRecord, r.eventId = eventId ∧ counts (s.audit.record eventId new) k r = true := by
      by_contra! hdropped
      refine absurd (h k hk) (not_le.2 ?_)
      refine @value_lt _ _ _ id (by simp [step]) (fun r _ hr => ?_) row hrow hcounts
        (hdropped row hid)
      by_cases hr' : r.eventId = eventId
      · exact absurd hr (hdropped r hr')
      · rwa [haudit, id_eq, counts_audit_congr (record_audit_of_ne s.audit new hr')] at hr
    refine ⟨fun herror => ?_, fun v hv => ?_⟩
    · obtain ⟨r, hr, hcounts⟩ := hdrop (exported_of_mem hrow).2.1
        (by simpa [counts, isError, hid, hold] using herror)
      simpa [counts, isError, hr, hrow', hstatus] using (Bool.and_eq_true_iff.1 hcounts).2
    · obtain ⟨r, hr, hcounts⟩ := hdrop (exported_of_mem hrow).2.2.1
        (by simp [counts, latencyOf, hid, hold, hv])
      obtain ⟨v', hv'⟩ : ∃ v', new.latencyMs = some v' := by
        have hsome := (Bool.and_eq_true_iff.1 hcounts).2
        rw [latencyOf, hr, hrow', Option.bind_some, hlatency'] at hsome
        exact Option.isSome_iff_exists.1 hsome
      refine ⟨v', hv', fun bound hbound hle => ?_⟩
      obtain ⟨r, hr, hcounts⟩ := hdrop ((exported_of_mem hrow).2.2.2 bound hbound)
        (by simp [counts, latencyOf, hid, hold, hv, hle])
      simpa [counts, latencyOf, hr, hrow', hlatency', hv'] using
        (Bool.and_eq_true_iff.1 hcounts).2

end Steps

/-! ## Runs -/

section Runs

variable {ops : List StoreOp} {stage : String} {outcome : Option String}

theorem run_append (before after : List StoreOp) :
    run (before ++ after) = after.foldl step (run before) := List.foldl_append

theorem run_append_singleton (before : List StoreOp) (op : StoreOp) :
    run (before ++ [op]) = step (run before) op := run_append before [op]

theorem SteadyRun.earlier {earlier : List StoreOp} (h : SteadyRun ops) (hbegins : earlier <+: ops) :
    SteadyRun earlier :=
  fun before op hbefore => h before op (hbefore.trans hbegins)

theorem SteadyRun.last {before : List StoreOp} {op : StoreOp} (h : SteadyRun (before ++ [op])) :
    Steady (run before) op := h before op (List.prefix_refl _)

/-- No series goes back in a steady run. -/
theorem SteadyRun.monotone {earlier rest : List StoreOp} (h : SteadyRun (earlier ++ rest))
    {k : Series} (hk : Exported (run earlier) k) :
    Exported (run (earlier ++ rest)) k ∧
      value (run earlier) k ≤ value (run (earlier ++ rest)) k := by
  induction rest using List.reverseRecOn with
  | nil =>
    rw [List.append_nil]
    exact ⟨hk, le_rfl⟩
  | append_singleton rest op ih =>
    rw [← List.append_assoc] at h ⊢
    obtain ⟨hexported, hle⟩ := ih (h.earlier (List.prefix_append _ _))
    rw [run_append_singleton]
    exact ⟨h.last.exported hexported, hle.trans (h.last.value_le hexported)⟩

/-- The rows of a steady run are what has been recorded. -/
structure Recorded (ops : List StoreOp) (s : State) : Prop where
  nodup : (s.outcomes.map OutcomeRecord.eventId).Nodup
  known : ∀ row ∈ s.outcomes, row.stage ∈ knownStages ∧ row.outcome ∈ knownOutcomes
  recorded : ∀ stage outcome eventId, eventId ∈ recordedFor stage outcome ops ↔
    ∃ row ∈ s.outcomes, row.eventId = eventId ∧ row.stage = stage ∧
      (outcome = none ∨ outcome = some row.outcome)

theorem mem_recordedFor_append {op : StoreOp} {eventId : String} :
    eventId ∈ recordedFor stage outcome (ops ++ [op]) ↔
      eventId ∈ recordedFor stage outcome ops ∨ eventId ∈ recordedFor stage outcome [op] := by
  rw [recordedFor, List.filterMap_append, List.mem_append]
  rfl

theorem mem_recordedFor_singleton {eventId eventId' stage' outcome' now : String}
    {recordedAt : Option String} :
    eventId' ∈ recordedFor stage outcome [.outcome eventId stage' outcome' recordedAt now] ↔
      eventId' = eventId ∧ stage' = stage ∧ stage' ∈ knownStages ∧ outcome' ∈ knownOutcomes ∧
        (outcome = none ∨ outcome = some outcome') := by
  simp only [recordedFor, List.filterMap_cons, List.filterMap_nil]
  split_ifs with h
  · rw [List.mem_singleton]
    exact ⟨fun hid => ⟨hid, h⟩, fun hall => hall.1⟩
  · simp only [List.not_mem_nil, false_iff]
    exact fun hall => h hall.2

theorem SteadyRun.recorded (h : SteadyRun ops) : Recorded ops (run ops) := by
  induction ops using List.reverseRecOn with
  | nil => exact ⟨List.nodup_nil, nofun, fun _ _ _ => by simp [recordedFor, run, State.empty]⟩
  | append_singleton ops op ih =>
    obtain ⟨hnodup, hknown, hrecorded⟩ := ih (h.earlier (List.prefix_append _ _))
    have hsteady := h.last
    rw [run_append_singleton]
    cases op with
    | audit eventId new =>
      refine ⟨hnodup, hknown, fun stage outcome eventId' => ?_⟩
      rw [mem_recordedFor_append, hrecorded]
      simp [recordedFor, step]
    | outcome eventId stage outcome recordedAt now =>
      simp only [step, recordOutcome]
      split_ifs with hunknown hold
      · refine ⟨hnodup, hknown, fun stage' outcome' eventId' => ?_⟩
        rw [mem_recordedFor_append, hrecorded, mem_recordedFor_singleton, or_iff_left]
        rintro ⟨-, -, hstage, houtcome, -⟩
        exact hunknown.elim (fun hno => hno hstage) fun hno => hno houtcome
      · rw [not_or, not_not, not_not] at hunknown
        obtain ⟨old, hmem, hid⟩ := List.mem_map.1 hold
        have hsame := hsteady hunknown.1 hunknown.2
        -- the rows stay but for the time of the event
        have hrows (r : OutcomeRecord) (hr : r ∈ (run ops).outcomes) :
            let r' := if r.eventId = eventId then
              { r with stage, outcome, recordedAt := recordedAt.getD r.recordedAt } else r
            r'.eventId = r.eventId ∧ r'.stage = r.stage ∧ r'.outcome = r.outcome := by
          by_cases hr' : r.eventId = eventId
          · obtain ⟨hstage, houtcome⟩ := hsame r hr hr'
            simp [hr', hstage, houtcome]
          · simp [hr']
        refine ⟨?_, fun r hr => ?_, fun stage' outcome' eventId' => ?_⟩
        · have hids := List.map_congr_left fun r hr => (hrows r hr).1
          simp only [List.map_map, Function.comp_def]
          rw [hids]
          exact hnodup
        · obtain ⟨r, hold, rfl⟩ := List.mem_map.1 hr
          obtain ⟨-, hstage, houtcome⟩ := hrows r hold
          rw [hstage, houtcome]
          exact hknown r hold
        · rw [mem_recordedFor_append, hrecorded, mem_recordedFor_singleton]
          constructor
          · rintro (⟨r, hr, hrid, hrstage, hroutcome⟩ | ⟨rfl, rfl, -, -, hroutcome⟩)
            · obtain ⟨hid', hstage', houtcome'⟩ := hrows r hr
              exact ⟨_, List.mem_map_of_mem hr, hid'.trans hrid, hstage'.trans hrstage, by
                rwa [houtcome']⟩
            · obtain ⟨hid', hstage', houtcome'⟩ := hrows old hmem
              obtain ⟨hstage, houtcome⟩ := hsame old hmem hid
              exact ⟨_, List.mem_map_of_mem hmem, hid'.trans hid, hstage'.trans hstage, by
                rwa [houtcome', houtcome]⟩
          · rintro ⟨r', hr', hrid, hrstage, hroutcome⟩
            obtain ⟨r, hr, rfl⟩ := List.mem_map.1 hr'
            obtain ⟨hid', hstage', houtcome'⟩ := hrows r hr
            exact .inl ⟨r, hr, hid'.symm.trans hrid, hstage'.symm.trans hrstage, by
              rwa [houtcome'] at hroutcome⟩
      · rw [not_or, not_not, not_not] at hunknown
        refine ⟨?_, fun r hr => ?_, fun stage' outcome' eventId' => ?_⟩
        · rw [List.map_append, List.map_singleton]
          exact List.nodup_append.2 ⟨hnodup, List.nodup_singleton _, by
            intro a ha b hb hab
            obtain rfl : a = eventId := hab.trans (List.mem_singleton.1 hb)
            exact hold ha⟩
        · obtain hr | hr := List.mem_append.1 hr
          · exact hknown r hr
          · rw [List.mem_singleton.1 hr]
            exact hunknown
        · rw [mem_recordedFor_append, hrecorded, mem_recordedFor_singleton]
          constructor
          · rintro (⟨r, hr, hall⟩ | ⟨rfl, rfl, -, -, houtcome'⟩)
            · exact ⟨r, List.mem_append_left _ hr, hall⟩
            · exact ⟨_, List.mem_append_right _ (List.mem_singleton_self _), rfl, rfl, houtcome'⟩
          · rintro ⟨r, hr, hrid, hrstage, hroutcome⟩
            obtain hr | hr := List.mem_append.1 hr
            · exact .inl ⟨r, hr, hrid, hrstage, hroutcome⟩
            · obtain rfl := List.mem_singleton.1 hr
              exact .inr ⟨hrid.symm, hrstage, hunknown.1, hunknown.2, hroutcome⟩

/-- The rows of a stage are as many as the events recorded for it. -/
theorem Recorded.length_dedup {s : State} (h : Recorded ops s) (stage : String)
    (outcome : Option String) :
    (recordedFor stage outcome ops).dedup.length =
      s.outcomes.countP fun row => row.stage = stage ∧ (outcome = none ∨ outcome = some row.outcome) := by
  rw [List.countP_eq_length_filter, ← List.length_map OutcomeRecord.eventId]
  refine List.Perm.length_eq ((List.perm_ext_iff_of_nodup (List.nodup_dedup _) ?_).2 fun e => ?_)
  · exact h.nodup.sublist (List.filter_sublist.map _)
  · rw [List.mem_dedup, h.recorded]
    simp only [List.mem_map, List.mem_filter, decide_eq_true_eq]
    constructor
    · rintro ⟨row, hrow, hid, hstage, houtcome⟩
      exact ⟨row, ⟨hrow, hstage, houtcome⟩, hid⟩
    · rintro ⟨row, ⟨hrow, hstage, houtcome⟩, hid⟩
      exact ⟨row, hrow, hid, hstage, houtcome⟩

theorem eventCells_nodup (snapshot : CanarySnapshot) : snapshot.eventCells.Nodup :=
  (List.perm_insertionSort _ _).nodup_iff.2 (List.nodup_dedup _)

/-- The events series of a stage sum to its rows. -/
theorem eventsTotal_scrape (s : State) (stage : String) :
    eventsTotal (scrape s) stage = s.outcomes.countP fun row => row.stage = stage := by
  let cells := (collectCanarySnapshot s).eventCells.filter fun cell => cell.1 = stage
  have hcells : eventsTotal (scrape s) stage =
      (cells.map fun cell => value s (.events cell.1 cell.2)).sum := by
    have hothers (stages : List String) :
        (stages.flatMap fun _ => ([] : List Nat)) = [] := by simp
    have hfilter (all : List (String × String)) :
        (all.filterMap fun cell => if cell.1 = stage then
          some (((collectCanarySnapshot s).events.lookup cell).getD 0) else none) =
        (all.filter fun cell => cell.1 = stage).map fun cell =>
          value s (.events cell.1 cell.2) := by
      induction all with
      | nil => rfl
      | cons cell all ih =>
        by_cases hstage : cell.1 = stage
        · subst hstage
          simpa using ⟨lookup_events s cell.1 cell.2, ih⟩
        · simpa [hstage] using ih
    simp only [eventsTotal, scrape, collect, List.filterMap_append, List.filterMap_map,
      List.filterMap_flatMap, Function.comp_def, hfilter, cells]
    simp [hothers]
  have hvalue (cell : String × String) (hcell : cell ∈ cells) :
      value s (.events cell.1 cell.2) =
        ((s.outcomes.filter fun row => row.stage = stage).filter fun row =>
          (row.stage, row.outcome) = cell).countP fun _ => true := by
    have hstage : cell.1 = stage := of_decide_eq_true (List.mem_filter.1 hcell).2
    rw [value, List.countP_true, List.filter_filter, ← List.countP_eq_length_filter]
    refine List.countP_congr fun row _ => ?_
    simp only [counts, Bool.and_eq_true, decide_eq_true_eq, Prod.ext_iff]
    rw [← hstage]
    exact ⟨fun h => ⟨h, h.1⟩, fun h => h.1⟩
  rw [hcells, List.map_congr_left hvalue,
    sum_countP_filter ((eventCells_nodup _).filter _) (fun row hrow => ?_), List.countP_true,
    ← List.countP_eq_length_filter]
  obtain ⟨hrow, hstage⟩ := List.mem_filter.1 hrow
  exact List.mem_filter.2 ⟨mem_eventCells.2 (.inr ⟨row, hrow, rfl, rfl⟩), hstage⟩

end Runs

/-- The counters never go backwards, and count what has been recorded, exactly if no write changes
what an earlier one counts for. -/
theorem neverBackwards_iff (ops : List StoreOp) : NeverBackwards ops ↔ SteadyRun ops := by
  constructor
  · intro h before op hbegins
    refine steady_of_value_le fun k hk => ?_
    have hbefore : before <+: before ++ [op] := List.prefix_append _ _
    obtain ⟨v', hv', hle⟩ := h.monotone before (before ++ [op]) hbefore hbegins k
      (value (run before) k) (mem_scrape.2 ⟨hk, rfl⟩)
    rw [← run_append_singleton, ← (mem_scrape.1 hv').2]
    exact hle
  · intro h
    refine ⟨?_, ?_, ?_⟩
    · rintro earlier later ⟨rest, rfl⟩ hlater k v hv
      obtain ⟨hk, rfl⟩ := mem_scrape.1 hv
      obtain ⟨hk', hle⟩ := (h.earlier hlater).monotone hk
      exact ⟨_, mem_scrape.2 ⟨hk', rfl⟩, hle⟩
    · intro before hbefore stage _
      rw [eventsTotal_scrape, (h.earlier hbefore).recorded.length_dedup]
      exact List.countP_congr fun row _ => by simp
    · intro before hbefore stage v hv
      rw [(mem_scrape.1 hv).2, (h.earlier hbefore).recorded.length_dedup, value]
      refine (List.countP_congr fun row _ => ?_).le
      simp [counts, eq_comm (a := "data_loss")]

/-- A loss that is recorded again with another outcome is no longer counted. -/
theorem loss_uncounted : ¬ ∀ ops, NeverBackwards ops := by
  intro hclaim
  let first : StoreOp := .outcome "e" "m4_1pct" "data_loss" none "2026-05-01T12:00:00.100Z"
  let second : StoreOp := .outcome "e" "m4_1pct" "ok" none "2026-05-01T12:05:00.000Z"
  have hcounted : (.dataLossEvents "m4_1pct", 1) ∈ scrape (run [first]) :=
    mem_scrape.2 ⟨.inl (by decide), by decide +kernel⟩
  obtain ⟨v', hv', hle⟩ := (hclaim [first, second]).monotone [first] [first, second]
    ⟨[second], rfl⟩ (List.prefix_refl _) _ 1 hcounted
  have hzero : value (run [first, second]) (.dataLossEvents "m4_1pct") = 0 := by decide +kernel
  rw [(mem_scrape.1 hv').2, hzero] at hle
  exact absurd hle (by decide)

end ParallaxKernel.Canary.Dod.Exporter
