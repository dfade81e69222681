import ParallaxKernel.Router.DualRead
import ParallaxKernel.Router.LogLines
import ParallaxKernel.Session.Hooks

/-!
# The shadow interceptor and its log

`ShadowInterceptor` of `router/shadow.py` logs how the shadow router compares with the canonical
one, and `shadow/discrepancy.py` reads the log. Nothing that was logged is lost or malformed,
whatever day the clock has reached when the line is written.
-/

namespace ParallaxKernel.Shadow

open Lib Session Router

/-! ## Decisions -/

inductive ArbitrationOutcome where
  | match_
  | shadowOnly
  | canonicalOnly
  | diverge
  deriving DecidableEq

def ArbitrationOutcome.value : ArbitrationOutcome → String
  | match_ => "match"
  | shadowOnly => "shadow_only"
  | canonicalOnly => "canonical_only"
  | diverge => "diverge"

inductive CrosswalkStatus where
  | ok
  | miss
  | conflict
  | skipped
  deriving DecidableEq

def CrosswalkStatus.value : CrosswalkStatus → String
  | ok => "ok"
  | miss => "miss"
  | conflict => "conflict"
  | skipped => "skipped"

def schemaVersion : String := "1.0"

structure ShadowDecisionLog where
  queryType : String
  selectedPort : String
  crosswalkStatus : CrosswalkStatus
  arbitrationOutcome : ArbitrationOutcome
  latencyMs : PyFloat
  correlationId : String
  timestamp : String
  userId : String
  schemaVersion : String

namespace ShadowDecisionLog

/-- The names of the fields. -/
def fieldNames : List String :=
  ["query_type", "selected_port", "crosswalk_status", "arbitration_outcome", "latency_ms",
    "correlation_id", "timestamp", "user_id", "schema_version"]

/-- `dataclasses.asdict`, by the names of the fields. -/
def fields (entry : ShadowDecisionLog) : List (String × PyJson) :=
  [("query_type", .str (.ofString entry.queryType)),
    ("selected_port", .str (.ofString entry.selectedPort)),
    ("crosswalk_status", .str (.ofString entry.crosswalkStatus.value)),
    ("arbitration_outcome", .str (.ofString entry.arbitrationOutcome.value)),
    ("latency_ms", .float entry.latencyMs),
    ("correlation_id", .str (.ofString entry.correlationId)),
    ("timestamp", .str (.ofString entry.timestamp)),
    ("user_id", .str (.ofString entry.userId)),
    ("schema_version", .str (.ofString entry.schemaVersion))]

def asdict (entry : ShadowDecisionLog) : List (PyStr × PyJson) :=
  entry.fields.map fun m => (.ofString m.1, m.2)

end ShadowDecisionLog

/-! ## The interceptor -/

/-- What of the environment `_is_enabled` reads. -/
structure ShadowModeEnv where
  shadowMode : Option PyStr
  shadowUserAllowlist : Option PyStr

/-- `_is_enabled`, where `lower` is `str.lower`. -/
def isEnabled (lower : PyStr → PyStr) (env : ShadowModeEnv) (userId : String) : Bool :=
  if lower (stripText (env.shadowMode.getD (.ofString "false"))) ≠ .ofString "true" then false
  else
    let allow := (((env.shadowUserAllowlist.getD []).splitOn (.scalar ',')).map stripText).filter
      fun u => u ≠ []
    decide (PyStr.ofString userId ∈ allow)

section Interceptor

variable {V : Type} (py : Python V) (lower : PyStr → PyStr)

/-- A request with what the two routers answer to it; the readings of the clock, in microseconds,
for the timestamp and for the name of the file; and whether the line can be written. -/
structure ShadowCall (V : Type) where
  env : ShadowModeEnv
  request : QueryRequest
  canonical : RetrievalEvidence V
  shadow : Except PyError (ShadowEvidence V)
  correlationId : String
  latencyMs : PyFloat
  timestamp : Int
  written : Int
  writes : Bool

/-- The outcome of the comparison. -/
def compare (canonical : RetrievalEvidence V) (shadow : Except PyError (ShadowEvidence V)) :
    ArbitrationOutcome × CrosswalkStatus :=
  match shadow >>= hitsEqual py canonical with
  | .ok true => (.match_, .ok)
  | .ok false => (.diverge, .ok)
  | .error _ => (.shadowOnly, .skipped)

def stem : String := "shadow-decisions-"

/-- What is logged of a call. -/
def ShadowCall.entry (call : ShadowCall V) (timestamp : DateTime) : ShadowDecisionLog where
  queryType := call.request.queryType.value
  selectedPort := "QueryPort"
  crosswalkStatus := (compare py call.canonical call.shadow).2
  arbitrationOutcome := (compare py call.canonical call.shadow).1
  latencyMs := call.latencyMs
  correlationId := call.correlationId
  timestamp := timestamp.isoformatUtc
  userId := call.request.userId
  schemaVersion := schemaVersion

/-- `query`: the log directory after it, and the evidence that it returns. -/
def query (dir : List (String × List Char)) (call : ShadowCall V) :
    List (String × List Char) × RetrievalEvidence V :=
  if isEnabled lower call.env call.request.userId then
    match DateTime.ofTimestamp call.timestamp, DateTime.ofTimestamp call.written with
    | some timestamp, some today =>
      if call.writes then
        (appendText (dailyName stem today) (renderLine (call.entry py timestamp).asdict) dir,
          call.canonical)
      else (dir, call.canonical)
    | _, _ => (dir, call.canonical)
  else (dir, call.canonical)

end Interceptor

/-! ## The reader -/

structure LoadResult where
  records : List (List (PyStr × PyJson))
  rawLines : List (List Char)
  malformed : Nat

/-- The lines of a file, and how many of the malformed ones count. -/
def scanFile (cutoff : Option Int) (file : String × List Char) :
    List (Int × List (PyStr × PyJson) × List Char) × Nat :=
  let fileInWindow := cutoff.all fun c => (fileDate stem file.1).any fun date => dayOf c ≤ date
  let lines := (splitlines file.2).map readLine
  (lines.filterMap LogLine.record?, if fileInWindow then lines.countP LogLine.isMalformed else 0)

/-- `load_records`, of a directory; `cutoff` is the start of the window. -/
def loadRecords (dir : List (String × List Char)) (cutoff : Option Int) : LoadResult :=
  let scanned := (logFiles stem dir).map (scanFile cutoff)
  let records := (sortByKey Prod.fst (scanned.flatMap Prod.fst)).filter fun r =>
    cutoff.all (· ≤ r.1)
  { records := records.map fun r => r.2.1
    rawLines := records.map fun r => r.2.2
    malformed := (scanned.map Prod.snd).sum }

mutual

/-- No object of the value repeats a key. -/
def hasDistinctKeys : PyJson → Bool
  | .arr xs => haveDistinctKeys xs
  | .obj ms => decide (ms.map Prod.fst).Nodup && membersHaveDistinctKeys ms
  | _ => true

def haveDistinctKeys : List PyJson → Bool
  | [] => true
  | x :: xs => hasDistinctKeys x && haveDistinctKeys xs

def membersHaveDistinctKeys : List (PyStr × PyJson) → Bool
  | [] => true
  | (_, x) :: ms => hasDistinctKeys x && membersHaveDistinctKeys ms

end

/-- `is_record_consistent`: a line that repeats a key is not what `json.dumps` makes of the
dictionary. -/
def isRecordConsistent (record : List (PyStr × PyJson)) (rawLine : List Char) : Bool :=
  let names := ShadowDecisionLog.fieldNames.map PyStr.ofString
  if !((record.map Prod.fst).all (· ∈ names) && names.all (· ∈ record.map Prod.fst)) then false
  else
    match PyJson.member? (.ofString "schema_version") record with
    | some (.str sv) =>
      if !(PyStr.ofString "1.").isPrefixOf sv then false
      else
        hasDistinctKeys (.obj record) &&
          decide ((PyJson.dumpsSorted (.obj record)).toList = rawLine)
    | _ => false

/-- `checksum_consistency`. -/
def checksumConsistency (result : LoadResult) : ℚ :=
  let total := result.records.length + result.malformed
  if total = 0 then 1
  else
    ((result.records.zip result.rawLines).countP fun r => isRecordConsistent r.1 r.2 : Nat) / total

/-- `r.get("arbitration_outcome") == "diverge"`. -/
def isDiverge (record : List (PyStr × PyJson)) : Bool :=
  match PyJson.member? (.ofString "arbitration_outcome") record with
  | some (.str o) => decide (o = .ofString "diverge")
  | _ => false

/-- `discrepancy_rate`. -/
def discrepancyRate (result : LoadResult) : ℚ :=
  if result.records.isEmpty then 0
  else (result.records.countP isDiverge : Nat) / result.records.length

/-! ## A record -/

section Records

variable {entry : ShadowDecisionLog}

theorem flat_fields {m : String × PyJson} (hm : m ∈ entry.fields) :
    m.2.Unpaired ∧ PyJson.sortKeys m.2 = m.2 ∧ hasDistinctKeys m.2 = true := by
  simp only [ShadowDecisionLog.fields, List.mem_cons, List.not_mem_nil, or_false] at hm
  have hstr : ∀ s : String, (PyJson.str (.ofString s)).Unpaired := fun s =>
    PyJson.unpaired_ofChars s.toList
  obtain rfl | rfl | rfl | rfl | rfl | rfl | rfl | rfl | rfl := hm
  · exact ⟨hstr _, rfl, rfl⟩
  · exact ⟨hstr _, rfl, rfl⟩
  · exact ⟨hstr _, rfl, rfl⟩
  · exact ⟨hstr _, rfl, rfl⟩
  · exact ⟨trivial, rfl, rfl⟩
  · exact ⟨hstr _, rfl, rfl⟩
  · exact ⟨hstr _, rfl, rfl⟩
  · exact ⟨hstr _, rfl, rfl⟩
  · exact ⟨hstr _, rfl, rfl⟩

theorem keys_asdict (entry : ShadowDecisionLog) :
    entry.asdict.map Prod.fst = ShadowDecisionLog.fieldNames.map PyStr.ofString := by
  simp only [ShadowDecisionLog.asdict, ShadowDecisionLog.fields, ShadowDecisionLog.fieldNames,
    List.map_cons, List.map_nil]

theorem nodup_asdict (entry : ShadowDecisionLog) : (entry.asdict.map Prod.fst).Nodup := by
  rw [keys_asdict]
  exact List.Nodup.map ofString_injective (by decide)

theorem unpaired_asdict (entry : ShadowDecisionLog) : (PyJson.obj entry.asdict).Unpaired := by
  rw [unpaired_obj_iff]
  intro m hm
  obtain ⟨n, hn, rfl⟩ := List.mem_map.1 hm
  exact ⟨PyJson.unpaired_ofChars n.1.toList, (flat_fields hn).1⟩

/-- The record as its line is read back. -/
def loaded (entry : ShadowDecisionLog) : List (PyStr × PyJson) := PyJson.sortMembers entry.asdict

theorem loaded_eq (entry : ShadowDecisionLog) :
    loaded entry = entry.asdict.insertionSort (KeyLe PyJson.codes) := by
  have hflat : entry.asdict.map (fun m => (m.1, PyJson.sortKeys m.2)) = entry.asdict := by
    rw [ShadowDecisionLog.asdict, List.map_map]
    refine List.map_congr_left fun m hm => ?_
    rw [Function.comp_apply, (flat_fields hm).2.1]
  rw [loaded, PyJson.sortMembers_eq, hflat]

theorem perm_loaded (entry : ShadowDecisionLog) : (loaded entry).Perm entry.asdict := by
  rw [loaded_eq]
  exact List.perm_insertionSort _ _

/-- The field of a record that is read back. -/
theorem member?_loaded {name : String} {x : PyJson} (h : (name, x) ∈ entry.fields) :
    PyJson.member? (.ofString name) (loaded entry) = some x := by
  have hmem : (PyStr.ofString name, x) ∈ entry.asdict := List.mem_map.2 ⟨(name, x), h, rfl⟩
  rw [loaded, member?_sortMembers _ (nodup_asdict entry),
    member?_eq_some (nodup_asdict entry) hmem, Option.map_some, (flat_fields h).2.1]

/-- Sorting what is sorted changes nothing. -/
theorem dumpsSorted_loaded (entry : ShadowDecisionLog) :
    PyJson.dumpsSorted (.obj (loaded entry)) = PyJson.dumpsSorted (.obj entry.asdict) := by
  have hsorted : PyJson.sortMembers (loaded entry) = loaded entry := by
    have hflat : (loaded entry).map (fun m => (m.1, PyJson.sortKeys m.2)) = loaded entry := by
      rw [List.map_congr_left (g := id), List.map_id]
      intro m hm
      obtain ⟨n, hn, rfl⟩ := List.mem_map.1 ((perm_loaded entry).mem_iff.1 hm)
      rw [(flat_fields hn).2.1]
      rfl
    rw [PyJson.sortMembers_eq, hflat]
    nth_rewrite 1 [loaded_eq]
    rw [loaded_eq]
    exact List.Pairwise.insertionSort_eq (List.pairwise_insertionSort _ _)
  have hkeys : PyJson.sortKeys (.obj (loaded entry)) = PyJson.sortKeys (.obj entry.asdict) := by
    rw [PyJson.sortKeys, PyJson.sortKeys, hsorted]
    rfl
  rw [PyJson.dumpsSorted, PyJson.dumpsSorted, hkeys]

end Records

/-- A record that was logged is consistent. -/
theorem isRecordConsistent_loaded {entry : ShadowDecisionLog}
    (hversion : entry.schemaVersion = schemaVersion) :
    isRecordConsistent (loaded entry) (PyJson.dumpsSorted (.obj entry.asdict)).toList = true := by
  have hkeys : ((loaded entry).map Prod.fst).Perm
      (ShadowDecisionLog.fieldNames.map PyStr.ofString) := by
    rw [← keys_asdict entry]
    exact (perm_loaded entry).map Prod.fst
  have hnames : (((loaded entry).map Prod.fst).all
        (· ∈ ShadowDecisionLog.fieldNames.map PyStr.ofString) &&
      (ShadowDecisionLog.fieldNames.map PyStr.ofString).all
        (· ∈ (loaded entry).map Prod.fst)) = true := by
    rw [Bool.and_eq_true, List.all_eq_true, List.all_eq_true]
    exact ⟨fun k hk => decide_eq_true (hkeys.mem_iff.1 hk),
      fun k hk => decide_eq_true (hkeys.mem_iff.2 hk)⟩
  have hmember : PyJson.member? (.ofString "schema_version") (loaded entry) =
      some (.str (.ofString "1.0")) := by
    rw [member?_loaded (x := .str (.ofString entry.schemaVersion))
      (by simp [ShadowDecisionLog.fields]), hversion]
    rfl
  have hdistinct : hasDistinctKeys (.obj (loaded entry)) = true := by
    have hmembers : ∀ ms : List (PyStr × PyJson), (∀ m ∈ ms, hasDistinctKeys m.2 = true) →
        membersHaveDistinctKeys ms = true := by
      intro ms hms
      induction ms with
      | nil => rfl
      | cons m ms ih =>
        obtain ⟨hm, hms⟩ := List.forall_mem_cons.1 hms
        rw [membersHaveDistinctKeys, hm, ih hms]
        rfl
    rw [hasDistinctKeys, Bool.and_eq_true, decide_eq_true_eq]
    refine ⟨((perm_loaded entry).map Prod.fst).nodup_iff.2 (nodup_asdict entry), hmembers _ ?_⟩
    intro m hm
    obtain ⟨n, hn, rfl⟩ := List.mem_map.1 ((perm_loaded entry).mem_iff.1 hm)
    exact (flat_fields hn).2.2
  have hprefix : (PyStr.ofString "1.").isPrefixOf (PyStr.ofString "1.0") = true := by decide +kernel
  simp only [isRecordConsistent, hnames, hmember, hprefix, hdistinct, dumpsSorted_loaded]
  rfl

/-- The line of what was logged is read back. -/
theorem readLine_asdict {entry : ShadowDecisionLog} {us : Int} {dt : DateTime}
    (hdt : DateTime.ofTimestamp us = some dt) (htimestamp : entry.timestamp = dt.isoformatUtc) :
    readLine (PyJson.dumpsSorted (.obj entry.asdict)).toList =
      .record us (loaded entry) (PyJson.dumpsSorted (.obj entry.asdict)).toList := by
  have hmem : (PyStr.ofString "timestamp", PyJson.str (.ofString dt.isoformatUtc)) ∈
      entry.asdict := by
    rw [← htimestamp]
    exact List.mem_map.2 ⟨("timestamp", .str (.ofString entry.timestamp)),
      by simp [ShadowDecisionLog.fields], rfl⟩
  rw [loaded]
  exact readLine_dumpsSorted (unpaired_asdict entry) (nodup_asdict entry) hdt hmem

/-! ## Runs -/

/-- A line of the log: its file, its timestamp and what it logs. -/
structure Entry where
  name : String
  timestamp : Int
  log : ShadowDecisionLog

namespace Entry

def line (e : Entry) : List Char := renderLine e.log.asdict

/-- What its line is read as. -/
def read (e : Entry) : Int × List (PyStr × PyJson) × List Char :=
  (e.timestamp, loaded e.log, (PyJson.dumpsSorted (.obj e.log.asdict)).toList)

def readLine (e : Entry) : LogLine :=
  .record e.timestamp (loaded e.log) (PyJson.dumpsSorted (.obj e.log.asdict)).toList

theorem read_fst (e : Entry) : e.read.1 = e.timestamp := by
  simp only [read]

theorem read_record (e : Entry) : e.read.2.1 = loaded e.log := by
  simp only [read]

theorem read_rawLine (e : Entry) :
    e.read.2.2 = (PyJson.dumpsSorted (.obj e.log.asdict)).toList := by
  simp only [read]

/-- The file is one of the log, and the line is read back. -/
structure Sound (e : Entry) : Prop where
  file : (starOf stem e.name).isSome = true
  version : e.log.schemaVersion = schemaVersion
  instant : ∃ dt, DateTime.ofTimestamp e.timestamp = some dt ∧ e.log.timestamp = dt.isoformatUtc

end Entry

section Runs

variable {V : Type} (py : Python V) (lower : PyStr → PyStr)

/-- The entry that a call logs. -/
def ShadowCall.entry? (call : ShadowCall V) : Option Entry :=
  if isEnabled lower call.env call.request.userId && call.writes then
    match DateTime.ofTimestamp call.timestamp, DateTime.ofTimestamp call.written with
    | some timestamp, some today =>
      some ⟨dailyName stem today, call.timestamp, call.entry py timestamp⟩
    | _, _ => none
  else none

/-- The log directory, empty at first, after some calls. -/
def run (calls : List (ShadowCall V)) : List (String × List Char) :=
  calls.foldl (fun dir call => (query py lower dir call).1) []

/-- What some calls have logged, in their order. -/
def entries (calls : List (ShadowCall V)) : List Entry :=
  calls.filterMap (ShadowCall.entry? py lower)

variable {py lower}

theorem entry?_sound {call : ShadowCall V} {e : Entry} (h : call.entry? py lower = some e) :
    e.Sound := by
  rw [ShadowCall.entry?] at h
  split_ifs at h
  split at h
  · rename_i timestamp today htimestamp htoday
    cases h
    refine ⟨?_, rfl, ⟨timestamp, htimestamp, rfl⟩⟩
    rw [starOf_dailyName]
    rfl
  · cases h

theorem query_fst (dir : List (String × List Char)) (call : ShadowCall V) :
    (query py lower dir call).1 =
      (call.entry? py lower).elim dir fun e => appendText e.name e.line dir := by
  rw [query, ShadowCall.entry?]
  by_cases henabled : isEnabled lower call.env call.request.userId = true
  · rw [if_pos henabled, henabled, Bool.true_and]
    cases DateTime.ofTimestamp call.timestamp with
    | none =>
      split_ifs
      · rfl
      · rfl
    | some timestamp =>
      cases DateTime.ofTimestamp call.written with
      | none =>
        split_ifs
        · rfl
        · rfl
      | some today =>
        dsimp only
        split_ifs
        · rfl
        · rfl
  · rw [if_neg henabled]
    simp [henabled]

/-- What the files of a run hold. -/
theorem run_eq (calls : List (ShadowCall V)) :
    run py lower calls = filesOf Entry.line (groupBy Entry.name (entries py lower calls)) := by
  induction calls using List.reverseRecOn with
  | nil => rfl
  | append_singleton calls call ih =>
    have hrun : run py lower (calls ++ [call]) = (query py lower (run py lower calls) call).1 := by
      rw [run, List.foldl_append]
      rfl
    rw [hrun, query_fst, ih, entries, entries, List.filterMap_append]
    cases hentry : call.entry? py lower with
    | none => simp [hentry]
    | some e =>
      simp only [Option.elim_some, List.filterMap_cons, hentry, List.filterMap_nil]
      rw [appendText_filesOf, groupBy, groupBy, List.foldl_append]
      rfl

/-- What a file of sound entries holds. -/
theorem scanFile_entries (c : Option Int) {name : String} {es : List Entry}
    (h : ∀ e ∈ es, e.Sound) :
    scanFile c (name, es.flatMap Entry.line) = (es.map Entry.read, 0) := by
  have hlines : (splitlines (es.flatMap Entry.line)).map Router.readLine =
      es.map Entry.readLine := by
    have hflat : es.flatMap Entry.line = (es.map fun e => e.log.asdict).flatMap renderLine := by
      rw [List.flatMap_map]
      rfl
    rw [hflat, splitlines_renderLine, List.map_map, List.map_map]
    refine List.map_congr_left fun e he => ?_
    obtain ⟨dt, hdt, htimestamp⟩ := (h e he).instant
    have hread := readLine_asdict hdt htimestamp
    rw [Function.comp_apply, Function.comp_apply]
    exact hread
  have hmalformed : (es.map Entry.readLine).countP LogLine.isMalformed = 0 := by
    rw [List.countP_eq_zero]
    intro line hline
    obtain ⟨e, -, rfl⟩ := List.mem_map.1 hline
    exact Bool.false_ne_true
  have hrecords : (es.map Entry.readLine).filterMap LogLine.record? = es.map Entry.read := by
    rw [List.filterMap_map, ← List.filterMap_eq_map]
    refine List.filterMap_congr fun e _ => ?_
    simp only [Function.comp_apply, Entry.readLine, LogLine.record?, Entry.read]
  rw [scanFile, hlines]
  simp only [hmalformed, hrecords, ite_self]

/-- The records of a log and their lines, as they are loaded. -/
def resultOf (es : List Entry) : LoadResult where
  records := es.map fun e => loaded e.log
  rawLines := es.map fun e => (PyJson.dumpsSorted (.obj e.log.asdict)).toList
  malformed := 0

theorem checksumConsistency_loaded {es : List Entry}
    (hversion : ∀ e ∈ es, e.log.schemaVersion = schemaVersion) :
    checksumConsistency (resultOf es) = 1 := by
  have hcount : ((resultOf es).records.zip (resultOf es).rawLines).countP
      (fun r => isRecordConsistent r.1 r.2) = es.length := by
    rw [resultOf, List.zip_map', List.countP_map, List.countP_eq_length]
    intro e he
    simp only [Function.comp_apply]
    exact isRecordConsistent_loaded (hversion e he)
  have htotal : (resultOf es).records.length + (resultOf es).malformed = es.length := by
    simp only [resultOf, List.length_map, Nat.add_zero]
  simp only [checksumConsistency, htotal, hcount]
  split_ifs with hempty
  · rfl
  · exact div_self (Nat.cast_ne_zero.2 hempty)

theorem isDiverge_loaded (log : ShadowDecisionLog) :
    isDiverge (loaded log) = decide (log.arbitrationOutcome = .diverge) := by
  have hmem : ("arbitration_outcome", PyJson.str (.ofString log.arbitrationOutcome.value)) ∈
      log.fields := by
    simp [ShadowDecisionLog.fields]
  rw [isDiverge, member?_loaded hmem]
  refine decide_eq_decide.2 ⟨fun h => ?_, fun h => h ▸ rfl⟩
  have hvalue := ofString_injective h
  cases houtcome : log.arbitrationOutcome with
  | diverge => rfl
  | match_ => simp [houtcome, ArbitrationOutcome.value] at hvalue
  | shadowOnly => simp [houtcome, ArbitrationOutcome.value] at hvalue
  | canonicalOnly => simp [houtcome, ArbitrationOutcome.value] at hvalue

theorem discrepancyRate_loaded (es : List Entry) :
    discrepancyRate (resultOf es) =
      share (fun e => decide (e.log.arbitrationOutcome = .diverge)) es := by
  cases es with
  | nil =>
    rw [share]
    simp [discrepancyRate, resultOf]
  | cons e es =>
    have hrecords : (resultOf (e :: es)).records.isEmpty = false := by
      rw [resultOf, List.map_cons, List.isEmpty_cons]
    rw [discrepancyRate, hrecords, if_neg Bool.false_ne_true, share]
    simp only [resultOf, List.countP_map, List.length_map, Function.comp_def, isDiverge_loaded]

/-- What is loaded of a run: the entries of the window, sorted by their timestamps. -/
theorem load_run (calls : List (ShadowCall V)) (c : Option Int) :
    ∃ es : List Entry, es.Perm ((entries py lower calls).filter fun e => c.all (· ≤ e.timestamp)) ∧
      es.Pairwise (fun a b => a.timestamp ≤ b.timestamp) ∧
      loadRecords (run py lower calls) c = resultOf es := by
  have hsound : ∀ e ∈ entries py lower calls, e.Sound := by
    intro e he
    obtain ⟨call, -, hentry⟩ := List.mem_filterMap.1 he
    exact entry?_sound hentry
  rw [run_eq]
  generalize entries py lower calls = es at hsound ⊢
  have hgrouped := isGrouped_groupBy Entry.name es
  obtain ⟨gs, hgs⟩ : ∃ gs, gs = (groupBy Entry.name es).insertionSort fun a b => a.1 ≤ b.1 :=
    ⟨_, rfl⟩
  have hperm : gs.Perm (groupBy Entry.name es) := hgs ▸ List.perm_insertionSort _ _
  have hfiles : logFiles stem (filesOf Entry.line (groupBy Entry.name es)) =
      filesOf Entry.line gs := by
    rw [hgs]
    refine logFiles_filesOf Entry.line fun g hg => ?_
    obtain ⟨e, he, hname⟩ := (hgrouped.key_mem g.1).1 (List.mem_map_of_mem hg)
    rw [← hname]
    exact (hsound e he).file
  have hscan : (filesOf Entry.line gs).map (scanFile c) =
      gs.map fun g => (g.2.map Entry.read, 0) := by
    rw [filesOf, List.map_map]
    refine List.map_congr_left fun g hg => scanFile_entries c fun e he => ?_
    rw [hgrouped.of_mem (hperm.mem_iff.1 hg)] at he
    exact hsound e (List.mem_filter.1 he).1
  have hflat : (gs.map fun g => (g.2.map Entry.read, (0 : Nat))).flatMap Prod.fst =
      (gs.flatMap Prod.snd).map Entry.read := by
    rw [List.flatMap_map, List.map_flatMap]
  refine ⟨(sortByKey Entry.timestamp (gs.flatMap Prod.snd)).filter fun e => c.all (· ≤ e.timestamp),
    ?_, ?_, ?_⟩
  · exact ((perm_sortByKey _ _).trans ((hperm.flatMap_right _).trans hgrouped.flatten)).filter _
  · exact (pairwise_sortByKey _ _).filter _
  · have hrecords : (sortByKey Prod.fst ((gs.flatMap Prod.snd).map Entry.read)).filter
        (fun r => c.all (· ≤ r.1)) = ((sortByKey Entry.timestamp (gs.flatMap Prod.snd)).filter
          fun e => c.all (· ≤ e.timestamp)).map Entry.read := by
      rw [← map_sortByKey Entry.read Entry.read_fst, List.filter_map]
      rfl
    have hzero : (((filesOf Entry.line gs).map (scanFile c)).map Prod.snd).sum = 0 := by
      rw [hscan, List.map_map]
      refine List.sum_eq_zero fun n hn => ?_
      obtain ⟨g, -, rfl⟩ := List.mem_map.1 hn
      rfl
    simp only [loadRecords, hfiles, hzero]
    rw [hscan, hflat, hrecords, List.map_map, List.map_map]
    simp only [resultOf, Function.comp_def, Entry.read_record, Entry.read_rawLine]

/-- Nothing that is logged is lost: a window of the log holds what was logged in it, sorted, every
line is consistent, and the share of divergences is theirs. -/
theorem shadow_log_complete (calls : List (ShadowCall V)) (c : Option Int) :
    ∃ es : List Entry, es.Perm ((entries py lower calls).filter fun e => c.all (· ≤ e.timestamp)) ∧
      es.Pairwise (fun a b => a.timestamp ≤ b.timestamp) ∧
      (loadRecords (run py lower calls) c).records = es.map (fun e => loaded e.log) ∧
      (loadRecords (run py lower calls) c).malformed = 0 ∧
      checksumConsistency (loadRecords (run py lower calls) c) = 1 ∧
      discrepancyRate (loadRecords (run py lower calls) c) =
        share (fun e => decide (e.log.arbitrationOutcome = .diverge))
          ((entries py lower calls).filter fun e => c.all (· ≤ e.timestamp)) := by
  obtain ⟨es, hperm, hsorted, hload⟩ := @load_run V py lower calls c
  have hversion : ∀ e ∈ es, e.log.schemaVersion = schemaVersion := by
    intro e he
    obtain ⟨call, -, hentry⟩ := List.mem_filterMap.1 (List.mem_filter.1 (hperm.mem_iff.1 he)).1
    exact (entry?_sound hentry).version
  rw [hload]
  refine ⟨es, hperm, hsorted, rfl, rfl, checksumConsistency_loaded hversion, ?_⟩
  rw [discrepancyRate_loaded, share_perm hperm]

end Runs

end ParallaxKernel.Shadow
