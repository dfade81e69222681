import ParallaxKernel.Router.DecisionLog
import ParallaxKernel.Router.DualRead

/-!
# The rates of the decisions that are logged

The rates of a window of the log, against the decisions that the router has logged in it. The router
writes no `crosswalk_status` and no `circuit_breaker_tripped`, so two of them are always zero.
-/

namespace ParallaxKernel.Router.DecisionLog

open Lib DualReadMetrics

/-! ## The dictionary of `_log_decision` -/

/-- The names of the dictionary. -/
def decisionNames : List String :=
  ["correlation_id", "query_type", "outcome", "winning_source", "policy_version",
    "write_error_observed", "conflict_event_id", "data_quality_flag", "traffic_source"]

/-- `str` or `None`. -/
def optional : Option String → PyJson
  | none => .null
  | some s => .str (.ofString s)

def decisionMembers (d : DecisionRecord) : List (String × PyJson) :=
  [("correlation_id", .str (.ofString d.correlationId)),
    ("query_type", .str (.ofString d.queryType)),
    ("outcome", .str (.ofString d.outcome.value)),
    ("winning_source", optional (d.winningSource.map WinningSource.value)),
    ("policy_version", .str (.ofString d.policyVersion)),
    ("write_error_observed", .bool d.writeErrorObserved),
    ("conflict_event_id", optional d.conflictEventId),
    ("data_quality_flag", .str (.ofString d.dataQualityFlag)),
    ("traffic_source", .str (.ofString d.trafficSource))]

theorem keys_decision (d : DecisionRecord) :
    ((decisionMembers d).map fun m => (PyStr.ofString m.1, m.2)).map Prod.fst =
      decisionNames.map PyStr.ofString := by
  simp only [decisionMembers, decisionNames, List.map_cons, List.map_nil]

theorem plain_optional (s : Option String) : (optional s).Unpaired ∧ (optional s).DistinctKeys := by
  cases s with
  | none => exact ⟨trivial, trivial⟩
  | some s => exact ⟨unpaired_ofString s, trivial⟩

/-- The values are flat. -/
theorem plain_decision {d : DecisionRecord} {m : String × PyJson} (hm : m ∈ decisionMembers d) :
    m.2.Unpaired ∧ m.2.DistinctKeys := by
  simp only [decisionMembers, List.mem_cons, List.not_mem_nil, or_false] at hm
  obtain rfl | rfl | rfl | rfl | rfl | rfl | rfl | rfl | rfl := hm
  · exact ⟨unpaired_ofString _, trivial⟩
  · exact ⟨unpaired_ofString _, trivial⟩
  · exact ⟨unpaired_ofString _, trivial⟩
  · exact plain_optional _
  · exact ⟨unpaired_ofString _, trivial⟩
  · exact ⟨trivial, trivial⟩
  · exact plain_optional _
  · exact ⟨unpaired_ofString _, trivial⟩
  · exact ⟨unpaired_ofString _, trivial⟩

theorem distinctMembers_iff {ms : List (PyStr × PyJson)} :
    PyJson.DistinctMembers ms ↔ ∀ m ∈ ms, m.2.DistinctKeys := by
  induction ms with
  | nil => exact iff_of_true trivial fun m hm => absurd hm List.not_mem_nil
  | cons m ms ih =>
    rw [List.forall_mem_cons, ← ih]
    exact Iff.rfl

/-- The dictionary that `_log_decision` appends. -/
def decisionDict (d : DecisionRecord) : Shadow.Record where
  members := (decisionMembers d).map fun m => (.ofString m.1, m.2)
  unpaired := by
    rw [unpaired_obj_iff]
    intro m hm
    obtain ⟨n, hn, rfl⟩ := List.mem_map.1 hm
    exact ⟨unpaired_ofString n.1, (plain_decision hn).1⟩
  distinct := by
    refine ⟨?_, distinctMembers_iff.2 fun m hm => ?_⟩
    · rw [keys_decision]
      exact List.Nodup.map ofString_injective (by decide)
    · obtain ⟨n, hn, rfl⟩ := List.mem_map.1 hm
      exact (plain_decision hn).2

/-- A call of `_log_decision`. -/
structure LogCall where
  env : LogEnv
  decision : DecisionRecord
  now : Int
  io : Io

def LogCall.append (l : LogCall) : Append := ⟨l.env, decisionDict l.decision, l.now, l.io⟩

/-! ## What the rates see of a decision -/

/-- The record of a decision as it is loaded. -/
def loadedRecord (d : DecisionRecord) (us : Int) (iso : String) : Record :=
  PyJson.sortMembers (buildRecord (decisionDict d).members us iso)

variable {d : DecisionRecord} {us : Int} {iso : String}

theorem get_decision {name : String} {x : PyJson} (h : (name, x) ∈ decisionMembers d) :
    get (decisionDict d).members name = some x :=
  member?_eq_some (decisionDict d).distinct.1 (List.mem_map.2 ⟨(name, x), h, rfl⟩)

theorem get_own {name : String} {x : PyJson}
    (h : (name, x) ∈ ownMembers (decisionDict d).members us iso) :
    get (loadedRecord d us iso) name = some (PyJson.sortKeys x) := by
  have hnodup := nodup_buildRecord (decisionDict d) us iso
  have hmem : (PyStr.ofString name, x) ∈ buildRecord (decisionDict d).members us iso :=
    List.mem_append_left _ (List.mem_map.2 ⟨(name, x), h, rfl⟩)
  rw [DualReadMetrics.get, loadedRecord, member?_sortMembers _ hnodup, member?_eq_some hnodup hmem]
  rfl

theorem get_foreign {name : String} (hown : name ∉ ownNames) (hdecision : name ∉ decisionNames) :
    get (loadedRecord d us iso) name = none := by
  have hnodup := nodup_buildRecord (decisionDict d) us iso
  rw [DualReadMetrics.get, loadedRecord, member?_sortMembers _ hnodup, PyJson.member?,
    List.find?_eq_none.2]
  · rfl
  intro m hm heq
  have hkey : m.1 ∈ ownNames.map PyStr.ofString ∨ m.1 ∈ decisionNames.map PyStr.ofString := by
    obtain hm | hm := List.mem_append.1 (List.mem_reverse.1 hm)
    · rw [← own_keys]
      exact .inl (List.mem_map_of_mem hm)
    · rw [← keys_decision d]
      exact .inr (List.mem_map_of_mem (List.mem_filter.1 hm).1)
  rw [beq_iff_eq.1 heq] at hkey
  obtain h | h := hkey
  · exact hown ((List.mem_map_of_injective ofString_injective).1 h)
  · exact hdecision ((List.mem_map_of_injective ofString_injective).1 h)

/-- What the record says of a field of the decision that the writer takes over as it is. -/
theorem get_taken (name : String) (default x : PyJson) (hx : (name, x) ∈ decisionMembers d)
    (h : (name, (get (decisionDict d).members name).getD default) ∈
      ownMembers (decisionDict d).members us iso) :
    get (loadedRecord d us iso) name = some (PyJson.sortKeys x) := by
  rw [get_decision hx, Option.getD_some] at h
  exact get_own h

theorem sortKeys_optional (s : Option String) : PyJson.sortKeys (optional s) = optional s := by
  cases s <;> rfl

theorem text?_ofString {s : String} : text? (some (.str (.ofString s))) =
    if s = "" then none else some (.ofString s) := by
  have hnil : PyStr.ofString s = [] ↔ s = "" := by
    constructor
    · exact fun h => ofString_injective h
    · rintro rfl
      rfl
  simp only [text?, hnil]

theorem normalizeOutcome_loaded :
    normalizeOutcome (loadedRecord d us iso) = some (.ofString d.outcome.value) := by
  have hget : get (loadedRecord d us iso) "outcome" = some (.str (.ofString d.outcome.value)) :=
    get_taken "outcome" (.str []) (.str (.ofString d.outcome.value)) (by simp [decisionMembers])
      (by simp [ownMembers])
  have hne : d.outcome.value ≠ "" := by cases d.outcome <;> decide
  rw [normalizeOutcome, hget, text?_ofString, if_neg hne]
  rfl

theorem hasOutcome_loaded {name : String} (o : DualReadOutcome) (hname : o.value = name) :
    hasOutcome name (loadedRecord d us iso) = decide (d.outcome = o) := by
  have hvalue : ∀ o o' : DualReadOutcome, o.value = o'.value ↔ o = o' := by
    intro o o'
    cases o <;> cases o' <;> decide
  rw [hasOutcome, normalizeOutcome_loaded, ← hname]
  simp only [Option.some.injEq, ofString_injective.eq_iff, hvalue]

theorem diverge_loaded :
    hasOutcome "diverge" (loadedRecord d us iso) = decide (d.outcome = .diverge) :=
  hasOutcome_loaded .diverge rfl

theorem unreachable_loaded : hasOutcome "aphelion_unreachable" (loadedRecord d us iso) =
    decide (d.outcome = .aphelionUnreachable) := hasOutcome_loaded .aphelionUnreachable rfl

theorem qualityFlag_loaded : qualityFlag (loadedRecord d us iso) =
    .ofString (if d.dataQualityFlag = "" then "normal" else d.dataQualityFlag) := by
  have hget : get (loadedRecord d us iso) "data_quality_flag" =
      some (.str (.ofString d.dataQualityFlag)) :=
    get_taken "data_quality_flag" (.str (.ofString "normal")) (.str (.ofString d.dataQualityFlag))
      (by simp [decisionMembers]) (by simp [ownMembers])
  rw [qualityFlag, hget, text?_ofString]
  split_ifs with h
  · rfl
  · rfl

theorem writeError_loaded :
    DualReadMetrics.isTrue "write_error_observed" (loadedRecord d us iso) =
      d.writeErrorObserved := by
  have hdict : get (decisionDict d).members "write_error_observed" =
      some (.bool d.writeErrorObserved) := get_decision (by simp [decisionMembers])
  have hget : get (loadedRecord d us iso) "write_error_observed" =
      some (PyJson.sortKeys (.bool d.writeErrorObserved)) := by
    refine get_own ?_
    simp [ownMembers, hdict, Session.truthy]
  rw [DualReadMetrics.isTrue, hget]
  rfl

/-- A decision that `arbitration_conflict_rate` counts. -/
def conflicts (d : DecisionRecord) : Bool :=
  decide (d.winningSource = some .tie) || decide (d.winningSource = some .fallback) ||
    d.conflictEventId.any (· ≠ "")

theorem isConflict_loaded : isConflict (loadedRecord d us iso) = conflicts d := by
  have hsource : get (loadedRecord d us iso) "winning_source" =
      some (optional (d.winningSource.map WinningSource.value)) := by
    rw [get_taken "winning_source" .null (optional (d.winningSource.map WinningSource.value))
      (by simp [decisionMembers]) (by simp [ownMembers]), sortKeys_optional]
  have hevent : get (loadedRecord d us iso) "conflict_event_id" =
      some (optional d.conflictEventId) := by
    rw [get_taken "conflict_event_id" .null (optional d.conflictEventId)
      (by simp [decisionMembers]) (by simp [ownMembers]), sortKeys_optional]
  have hsome : (text? (some (optional d.conflictEventId))).isSome =
      d.conflictEventId.any (· ≠ "") := by
    cases d.conflictEventId with
    | none => rfl
    | some s =>
      rw [optional, text?_ofString, Option.any_some]
      split_ifs with h
      · simp [h]
      · simp [h]
  rw [isConflict, hsource, hevent, hsome, conflicts]
  cases d.winningSource with
  | none => simp [optional]
  | some w => cases w <;> simp [optional, WinningSource.value, ofString_injective.eq_iff]

theorem isMiss_loaded : isMiss (loadedRecord d us iso) = false := by
  rw [isMiss, get_foreign (by decide) (by decide)]

theorem circuit_loaded :
    DualReadMetrics.isTrue "circuit_breaker_tripped" (loadedRecord d us iso) = false := by
  rw [DualReadMetrics.isTrue, get_foreign (by decide) (by decide)]

/-- The decisions that a rate counts. -/
def countsDecision : Rate → DecisionRecord → Bool
  | .discrepancy, d => decide (d.outcome = .diverge)
  | .arbitrationConflict, d => conflicts d
  | .writeError, d => d.writeErrorObserved
  | .aphelionUnreachable, d => decide (d.outcome = .aphelionUnreachable)
  | .crosswalkMiss, _ => false

/-- The decisions of its denominator. -/
def admitsDecision (dataQualityFilter : Option (List PyStr)) (k : Rate) (d : DecisionRecord) :
    Bool :=
  decide (PyStr.ofString (if d.dataQualityFlag = "" then "normal" else d.dataQualityFlag) ∈
    dataQualityFilter.getD defaultDataQualityFilter) &&
    (k == .aphelionUnreachable || !decide (d.outcome = .aphelionUnreachable))

theorem counts_loaded (k : Rate) : k.counts (loadedRecord d us iso) = countsDecision k d := by
  cases k with
  | discrepancy =>
    rw [Rate.counts, countsDecision, diverge_loaded]
  | arbitrationConflict =>
    rw [Rate.counts, countsDecision, isConflict_loaded]
  | writeError =>
    rw [Rate.counts, countsDecision, writeError_loaded]
  | aphelionUnreachable =>
    rw [Rate.counts, countsDecision, unreachable_loaded]
  | crosswalkMiss =>
    rw [Rate.counts, countsDecision, isMiss_loaded]

theorem admits_loaded (dataQualityFilter : Option (List PyStr)) (k : Rate) :
    k.admits dataQualityFilter (loadedRecord d us iso) = admitsDecision dataQualityFilter k d := by
  rw [Rate.admits, qualityFlag_loaded, unreachable_loaded, admitsDecision]

/-! ## The rates of a window -/

variable {lower : PyStr → PyStr}

/-- The call writes a line, and its timestamp is in the window. -/
def LogCall.inLog (lower : PyStr → PyStr) (c : Option Int) (l : LogCall) : Bool :=
  isLogEnabled lower l.env && decide (l.io = .writes) && inWindow c (recordedUs l.now)

/-- What is loaded of the calls is the records of those that are in the log. -/
theorem logged_calls {calls : List LogCall} (hclock : ∀ l ∈ calls, l.append.Clocked)
    (c : Option Int) :
    ∃ recorded : LogCall → String, (logged lower (calls.map LogCall.append)).filter
        (fun r => inWindow c r.1) =
      (calls.filter (LogCall.inLog lower c)).map fun l =>
        (recordedUs l.now, loadedRecord l.decision (recordedUs l.now) (recorded l)) := by
  refine ⟨fun l =>
    ((DateTime.ofTimestamp (recordedUs l.now)).map DateTime.isoformatUtc).getD "", ?_⟩
  rw [logged]
  induction calls with
  | nil => rfl
  | cons l calls ih =>
    obtain ⟨hl, hcalls⟩ := List.forall_mem_cons.1 hclock
    obtain ⟨anchor, recorded, hanchor, hrecorded⟩ := hl.exists_times
    have hanchor' : DateTime.ofTimestamp l.now = some anchor := hanchor
    have hrecorded' : DateTime.ofTimestamp (recordedUs l.now) = some recorded := hrecorded
    rw [List.map_cons, List.filterMap_cons, List.filter_cons]
    by_cases hwrites : isLogEnabled lower l.env = true ∧ l.io = .writes
    · have hentry : l.append.entry? lower = some ⟨dailyName stem anchor, recordedUs l.now,
          buildRecord (decisionDict l.decision).members (recordedUs l.now)
            recorded.isoformatUtc⟩ := by
        rw [Append.entry?, hanchor, hrecorded]
        exact if_pos hwrites
      rw [hentry]
      simp only [List.map_cons, List.filter_cons, ih hcalls, LogCall.inLog, hwrites.1, hwrites.2,
        decide_true, Bool.true_and, Entry.loaded]
      split_ifs
      · simp only [List.map_cons, hrecorded', Option.map_some, Option.getD_some]
        rfl
      · rfl
    · have hentry : l.append.entry? lower = none := by
        rw [Append.entry?]
        exact if_neg hwrites
      have hout : l.inLog lower c = false := by
        rw [LogCall.inLog]
        by_cases henabled : isLogEnabled lower l.env = true
        · have hio : l.io ≠ .writes := fun hio => hwrites ⟨henabled, hio⟩
          simp [hio]
        · simp [henabled]
      rw [hentry, hout, ih hcalls]
      simp

/-- The rates of a window of the log are the shares of the decisions logged in it; whatever the
decisions are, no crosswalk miss and no open circuit is ever counted. -/
theorem rates_of_log {calls : List LogCall} (hclock : ∀ l ∈ calls, l.append.Clocked)
    {since : Option Int} {now : Int} {c : Option Int} (hcutoff : cutoff since now = .ok c)
    (dataQualityFilter : Option (List PyStr)) :
    ∃ loaded rates, loadRecords (run lower (calls.map LogCall.append)) since now = .ok loaded ∧
      computeAllRates loaded.records dataQualityFilter = .ok rates ∧
      (∀ k : Rate, rates.rate k = share (countsDecision k)
        (((calls.filter (LogCall.inLog lower c)).map LogCall.decision).filter
          (admitsDecision dataQualityFilter k))) ∧
      rates.crosswalkMissRate = 0 ∧ rates.circuitOpenCount = 0 := by
  obtain ⟨recorded, hlogged⟩ := @logged_calls lower _ hclock c
  have happends : ∀ a ∈ calls.map LogCall.append, a.Clocked := by
    intro a ha
    obtain ⟨l, hl, rfl⟩ := List.mem_map.1 ha
    exact hclock l hl
  have hperm := (perm_sortByKey Prod.fst ((logged lower (calls.map LogCall.append)).filter
    fun r => inWindow c r.1)).map Prod.snd
  rw [hlogged, List.map_map] at hperm
  have hrate : ∀ k : Rate, (allRates dataQualityFilter ((sortByKey Prod.fst ((logged lower
      (calls.map LogCall.append)).filter fun r => inWindow c r.1)).map Prod.snd)).rate k =
      share (countsDecision k) (((calls.filter (LogCall.inLog lower c)).map LogCall.decision).filter
        (admitsDecision dataQualityFilter k)) := by
    intro k
    rw [rate_allRates, denominator_eq, hlogged, share_perm (hperm.filter _), List.filter_map,
      share_map, List.filter_map, share_map]
    simp only [Function.comp_def, counts_loaded, admits_loaded]
  refine ⟨_, _, load_run happends hcutoff, computeAllRates_eq, hrate, ?_, ?_⟩
  · refine (hrate .crosswalkMiss).trans ?_
    have hnone : ∀ ds : List DecisionRecord, ds.countP (countsDecision .crosswalkMiss) = 0 :=
      fun ds => List.countP_eq_zero.2 fun d _ => Bool.false_ne_true
    rw [share, hnone]
    simp
  · rw [allRates, circuitOpenCount, List.countP_eq_zero]
    intro r hr
    rw [hlogged] at hr
    obtain ⟨l, -, rfl⟩ := List.mem_map.1 ((hperm.mem_iff).1 (List.mem_filter.1 hr).1)
    rw [Function.comp_apply, circuit_loaded]
    exact Bool.false_ne_true

/-- A divergence and an answer without the other store, an hour apart. -/
def sampleCalls : List LogCall :=
  [⟨⟨none, some (.ofString "on")⟩, ⟨"c1", "recent_context", .diverge, some .parallax, "v0.3.0-rc",
      false, none, "normal", "natural"⟩, 0, .writes⟩,
    ⟨⟨none, some (.ofString "on")⟩, ⟨"c2", "recent_context", .aphelionUnreachable, some .fallback,
      "v0.3.0-rc", false, some "E1", "normal", "natural"⟩, 3600000000, .writes⟩]

/-- The unreachable answer does not count among the answers compared. -/
theorem rates_of_log_sample : ∃ loaded rates,
    loadRecords (run id (sampleCalls.map LogCall.append)) (some 7200000000) 7200000000 = .ok loaded ∧
      computeAllRates loaded.records none = .ok rates ∧ rates.discrepancyRate = 1 := by
  have hclock : ∀ l ∈ sampleCalls, l.append.Clocked := by
    intro l hl
    simp only [sampleCalls, List.mem_cons, List.not_mem_nil, or_false] at hl
    obtain rfl | rfl := hl
    · exact ⟨by decide, by decide⟩
    · exact ⟨by decide, by decide⟩
  have hcutoff : cutoff (some 7200000000) 7200000000 = .ok (some 0) := by rfl
  obtain ⟨loaded, rates, hload, hrates, hvalues, -, -⟩ :=
    @rates_of_log id _ hclock _ _ _ hcutoff none
  refine ⟨loaded, rates, hload, hrates, (hvalues .discrepancy).trans ?_⟩
  decide +kernel

end ParallaxKernel.Router.DecisionLog
