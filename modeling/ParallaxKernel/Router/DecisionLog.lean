import ParallaxKernel.Lib.Double
import ParallaxKernel.Router.DualReadMetrics
import ParallaxKernel.Router.LogLines

/-!
# The log of dual-read decisions

`append_decision` of `dual_read_decision_log.py` writes a line to the file of the day, and
`load_records` of `dual_read_metrics.py` reads the lines of a window. What was appended in the
window is what is loaded.
-/

namespace ParallaxKernel.Router.DecisionLog

open Lib Session DualReadMetrics

/-! ## The writer -/

/-- What of the environment `is_log_enabled` reads. -/
structure LogEnv where
  dualReadLogEnabled : Option PyStr
  dualRead : Option PyStr

/-- The file system when a decision is appended. -/
inductive Io where
  | writes
  | mkdirFails
  | openFails
  deriving DecidableEq

/-- A call of `append_decision`, whose decision has JSON values; the clock in microseconds. -/
structure Append where
  env : LogEnv
  decision : Shadow.Record
  now : Int
  io : Io

/-- The directory of the log, if there is one. -/
abbrev LogDir := Option (List (String × List Char))

def stem : String := "dual-read-decisions-"

section Writer

variable (lower : PyStr → PyStr)

/-- `raw.strip().lower() in ("1", "true", "yes", "on")`. -/
def selected (raw : PyStr) : Bool :=
  decide (lower (stripText raw) ∈ ["1", "true", "yes", "on"].map PyStr.ofString)

def isLogEnabled (env : LogEnv) : Bool :=
  match env.dualReadLogEnabled with
  | some raw => selected lower raw
  | none => selected lower (env.dualRead.getD [])

/-- `int(anchor.timestamp() * 1_000_000)`, with the rounding of either operation. -/
def recordedUs (now : Int) : Int :=
  let seconds := roundBinary (now / 1000000)
  let product := roundBinary (seconds * 1000000)
  if product < 0 then ⌈product⌉ else ⌊product⌋

/-- The members of a record that the writer owns, by their names. -/
def ownMembers (decision : Record) (timestampUsUtc : Int) (timestampIso : String) :
    List (String × PyJson) :=
  let get (name : String) (default : PyJson) := (get decision name).getD default
  [("schema_version", .str (.ofString "1.0")),
    ("timestamp_us_utc", .int timestampUsUtc),
    ("timestamp", .str (.ofString timestampIso)),
    ("correlation_id", get "correlation_id" (.str [])),
    ("query_type", get "query_type" (.str [])),
    ("outcome", get "outcome" (.str [])),
    ("winning_source", get "winning_source" .null),
    ("policy_version", get "policy_version" (.str [])),
    ("write_error_observed", .bool (truthy (get "write_error_observed" (.bool false)))),
    ("conflict_event_id", get "conflict_event_id" .null),
    ("data_quality_flag", get "data_quality_flag" (.str (.ofString "normal")))]

/-- `_build_record`. -/
def buildRecord (decision : Record) (timestampUsUtc : Int) (timestampIso : String) : Record :=
  let out := (ownMembers decision timestampUsUtc timestampIso).map fun m =>
    (PyStr.ofString m.1, m.2)
  out ++ decision.filter fun m => m.1 ∉ out.map Prod.fst

/-- `append_decision`: the directory after it, and the name of the file that it returns. -/
def appendDecision (dir : LogDir) (a : Append) : LogDir × Option String :=
  if isLogEnabled lower a.env then
    match DateTime.ofTimestamp a.now, DateTime.ofTimestamp (recordedUs a.now) with
    | some anchor, some recorded =>
      let line := renderLine
        (buildRecord a.decision.members (recordedUs a.now) recorded.isoformatUtc)
      match a.io with
      | .mkdirFails => (dir, none)
      | .openFails => (some (dir.getD []), none)
      | .writes =>
        (some (appendText (dailyName stem anchor) line (dir.getD [])), some (dailyName stem anchor))
    | _, _ => (dir, none)
  else (dir, none)

end Writer

/-! ## The reader -/

structure LoadResult where
  records : List Record
  dirMissing : Bool
  malformed : Nat

/-- `now - since`, where there is a window. -/
def cutoff (since : Option Int) (now : Int) : Except DateTime.Error (Option Int) :=
  match since with
  | none => .ok none
  | some since =>
    if (DateTime.ofTimestamp (now - since)).isSome then .ok (some (now - since))
    else .error (.overflow "date value out of range")

/-- The record is not older than the window. -/
def inWindow (cutoff : Option Int) (timestamp : Int) : Bool := cutoff.all (· ≤ timestamp)

/-- What a file adds: its records in the window, and its malformed lines. -/
def scanFile (cutoff : Option Int) (file : String × List Char) : List (Int × Record) × Nat :=
  let fileDate := fileDate stem file.1
  let fileInWindow := cutoff.all fun c => fileDate.any fun date => dayOf c ≤ date
  if cutoff.any fun c => fileDate.any fun date => date < dayOf c then ([], 0)
  else
    let lines := (splitlines file.2).map readLine
    ((lines.filterMap LogLine.record?).filterMap fun r =>
        if inWindow cutoff r.1 then some (r.1, r.2.1) else none,
      if fileInWindow then lines.countP LogLine.isMalformed else 0)

def loadRecords (dir : LogDir) (since : Option Int) (now : Int) :
    Except DateTime.Error LoadResult :=
  match dir with
  | none => .ok ⟨[], true, 0⟩
  | some files => do
    let cutoff ← cutoff since now
    let scanned := (logFiles stem files).map (scanFile cutoff)
    return {
      records := (sortByKey Prod.fst (scanned.flatMap Prod.fst)).map Prod.snd
      dirMissing := false
      malformed := (scanned.map Prod.snd).sum }

/-! ## The clock -/

/-- Rounding does not go below a double. -/
theorem bits_le_roundBinary {x : ℚ} {n e : ℤ} (h0 : 0 ≤ n) (hn : n ≤ 2 ^ 53) (he : -1074 ≤ e)
    (h : n * 2 ^ e ≤ x) : n * 2 ^ e ≤ roundBinary x := by
  have hpos : (0 : ℚ) ≤ n * 2 ^ e :=
    mul_nonneg (by exact_mod_cast h0) (zpow_nonneg (by norm_num) e)
  calc (n : ℚ) * 2 ^ e = roundBinary (n * 2 ^ e) :=
        (roundBinary_of_bits (by rwa [abs_of_nonneg h0]) he).symm
    _ ≤ roundBinary x := roundBinary_mono hpos h

/-- Rounding does not go above a double. -/
theorem roundBinary_le_bits {x : ℚ} {n e : ℤ} (hx : 0 ≤ x) (h0 : 0 ≤ n) (hn : n ≤ 2 ^ 53)
    (he : -1074 ≤ e) (h : x ≤ n * 2 ^ e) : roundBinary x ≤ n * 2 ^ e := by
  calc roundBinary x ≤ roundBinary (n * 2 ^ e) := roundBinary_mono hx h
    _ = n * 2 ^ e := roundBinary_of_bits (by rwa [abs_of_nonneg h0]) he

/-- The recorded timestamp is in the second of the clock: until 2106 neither rounding goes beyond
it. -/
theorem recordedUs_second {now : Int} (hnow : 0 ≤ now) (hlt : now < 2 ^ 32 * 1000000) :
    recordedUs now / 1000000 = now / 1000000 := by
  obtain ⟨s, r, hs, hr, rfl⟩ : ∃ s r : Int, 0 ≤ s ∧ (0 ≤ r ∧ r ≤ 999999) ∧ now = s * 1000000 + r :=
    ⟨now / 1000000, now % 1000000, by omega, by omega, by omega⟩
  have hs0 : (0 : ℚ) ≤ s := by exact_mod_cast hs
  have hr0 : (0 : ℚ) ≤ r := by exact_mod_cast hr.1
  have hr1 : (r : ℚ) ≤ 999999 := by exact_mod_cast hr.2
  have hx : ((s * 1000000 + r : Int) : ℚ) / 1000000 = s + r / 1000000 := by
    push_cast
    ring
  -- the seconds are rounded to a number from `s` on, and by 2 ^ -20 at least below the next second
  have hlow : (s : ℚ) ≤ roundBinary (s + r / 1000000) := by
    have h := bits_le_roundBinary (x := s + r / 1000000) (n := s) (e := 0) hs (by omega) (by decide)
    rw [zpow_zero, mul_one] at h
    exact h (by linarith)
  have hhigh : roundBinary (s + r / 1000000) ≤ s + 1 - 1 / 1048576 := by
    have heq : (((s + 1) * 1048576 - 1 : Int) : ℚ) * 2 ^ (-20 : ℤ) = s + 1 - 1 / 1048576 := by
      push_cast
      norm_num
      ring
    rw [← heq]
    refine roundBinary_le_bits (by positivity) (by omega) (by omega) (by decide) ?_
    rw [heq]
    linarith
  -- the microseconds, by one half at least below those of the next second
  have hlow' : ((s * 1000000 : Int) : ℚ) ≤
      roundBinary (roundBinary (s + r / 1000000) * 1000000) := by
    have h := bits_le_roundBinary (x := roundBinary (s + r / 1000000) * 1000000)
      (n := s * 1000000) (e := 0) (by omega) (by omega) (by decide)
    rw [zpow_zero, mul_one] at h
    refine h ?_
    push_cast
    linarith
  have hhigh' : roundBinary (roundBinary (s + r / 1000000) * 1000000) <
      ((s + 1) * 1000000 : Int) := by
    have heq : ((((s + 1) * 1000000) * 2 - 1 : Int) : ℚ) * 2 ^ (-1 : ℤ) =
        ((s + 1) * 1000000 : Int) - 1 / 2 := by
      push_cast
      norm_num
      ring
    have h := roundBinary_le_bits (x := roundBinary (s + r / 1000000) * 1000000)
      (n := ((s + 1) * 1000000) * 2 - 1) (e := -1) (by linarith) (by omega) (by omega) (by decide)
    rw [heq] at h
    refine lt_of_le_of_lt (h ?_) (by linarith)
    push_cast
    linarith
  have hfloor : recordedUs (s * 1000000 + r) =
      ⌊roundBinary (roundBinary (s + r / 1000000) * 1000000)⌋ := by
    rw [recordedUs, hx]
    refine if_neg (not_lt.2 (le_trans ?_ hlow'))
    exact_mod_cast (by omega : (0 : Int) ≤ s * 1000000)
  have hge := Int.le_floor.2 hlow'
  have hlt' := Int.floor_lt.2 hhigh'
  rw [hfloor]
  omega

/-! ## Records -/

section Records

variable {decision : Shadow.Record} {us : Int} {iso : String}

/-- The names that the writer owns. -/
def ownNames : List String :=
  ["schema_version", "timestamp_us_utc", "timestamp", "correlation_id", "query_type", "outcome",
    "winning_source", "policy_version", "write_error_observed", "conflict_event_id",
    "data_quality_flag"]

theorem own_keys (d : Record) : ((ownMembers d us iso).map fun m => (PyStr.ofString m.1, m.2)).map
    Prod.fst = ownNames.map PyStr.ofString := by
  simp only [ownMembers, ownNames, List.map_cons, List.map_nil]

theorem nodup_buildRecord (decision : Shadow.Record) (us : Int) (iso : String) :
    ((buildRecord decision.members us iso).map Prod.fst).Nodup := by
  have hown : (ownNames.map PyStr.ofString).Nodup := List.Nodup.map ofString_injective (by decide)
  have hrest : ((decision.members.filter fun m => m.1 ∉ ownNames.map PyStr.ofString).map
      Prod.fst).Nodup := decision.distinct.1.sublist (List.filter_sublist.map Prod.fst)
  rw [buildRecord, List.map_append, own_keys, List.nodup_append]
  refine ⟨hown, hrest, ?_⟩
  rintro key hkey _ hother rfl
  obtain ⟨m, hm, rfl⟩ := List.mem_map.1 hother
  have hnot := (List.mem_filter.1 hm).2
  simp only [decide_eq_true_eq] at hnot
  exact hnot hkey

theorem unpaired_get (name : String) {default : PyJson} (hdefault : default.Unpaired) :
    ((get decision.members name).getD default).Unpaired := by
  rw [DualReadMetrics.get, PyJson.member?]
  cases hfind : decision.members.reverse.find? (·.1 == PyStr.ofString name) with
  | none => exact hdefault
  | some m =>
    have hm := List.mem_reverse.1 (List.mem_of_find?_eq_some hfind)
    exact (unpaired_obj_iff.1 decision.unpaired m hm).2

theorem unpaired_ofString (s : String) : (PyStr.ofString s).unpaired = true :=
  PyJson.unpaired_ofChars s.toList

theorem unpaired_buildRecord (decision : Shadow.Record) (us : Int) (iso : String) :
    (PyJson.obj (buildRecord decision.members us iso)).Unpaired := by
  rw [unpaired_obj_iff, buildRecord]
  intro m hm
  obtain hown | hrest := List.mem_append.1 hm
  · obtain ⟨n, hn, rfl⟩ := List.mem_map.1 hown
    refine ⟨unpaired_ofString n.1, ?_⟩
    simp only [ownMembers, List.mem_cons, List.not_mem_nil, or_false] at hn
    obtain rfl | rfl | rfl | rfl | rfl | rfl | rfl | rfl | rfl | rfl | rfl := hn
    · exact unpaired_ofString _
    · trivial
    · exact unpaired_ofString _
    · exact unpaired_get _ rfl
    · exact unpaired_get _ rfl
    · exact unpaired_get _ rfl
    · exact unpaired_get _ trivial
    · exact unpaired_get _ rfl
    · trivial
    · exact unpaired_get _ trivial
    · exact unpaired_get _ (unpaired_ofString _)
  · exact unpaired_obj_iff.1 decision.unpaired m (List.mem_filter.1 hrest).1

end Records

/-! ## What is appended -/

/-- A line of the log: its file, its timestamp and its record. -/
structure Entry where
  name : String
  timestamp : Int
  record : Record

namespace Entry

/-- What its line is read as. -/
def read (e : Entry) : LogLine :=
  .record e.timestamp (PyJson.sortMembers e.record) (PyJson.dumpsSorted (.obj e.record)).toList

/-- The file is that of the day of the timestamp, and the line is read back. -/
structure Sound (e : Entry) : Prop where
  dated : ∃ us dt, DateTime.ofTimestamp us = some dt ∧ e.name = dailyName stem dt ∧
    dayOf us = dayOf e.timestamp
  read : readLine (PyJson.dumpsSorted (.obj e.record)).toList = e.read

/-- What is loaded of the entry. -/
def loaded (e : Entry) : Int × Record := (e.timestamp, PyJson.sortMembers e.record)

def line (e : Entry) : List Char := renderLine e.record

theorem Sound.file {e : Entry} (h : e.Sound) :
    (starOf stem e.name).isSome = true ∧ fileDate stem e.name = some (dayOf e.timestamp) := by
  obtain ⟨us, dt, hdt, hname, hday⟩ := h.dated
  rw [hname, starOf_dailyName, fileDate_dailyName stem hdt, hday]
  exact ⟨rfl, rfl⟩

/-- Entries of one instant are in one file. -/
theorem Sound.name_eq {e f : Entry} (he : e.Sound) (hf : f.Sound)
    (h : e.timestamp = f.timestamp) : e.name = f.name := by
  obtain ⟨m, a, ha, hname, hday⟩ := he.dated
  obtain ⟨n, b, hb, hname', hday'⟩ := hf.dated
  rw [hname, hname']
  exact dailyName_congr stem ha hb (by rw [hday, hday', h])

end Entry

section Runs

variable (lower : PyStr → PyStr)

/-- The entry that a call appends. -/
def Append.entry? (a : Append) : Option Entry :=
  if isLogEnabled lower a.env = true ∧ a.io = .writes then
    match DateTime.ofTimestamp a.now, DateTime.ofTimestamp (recordedUs a.now) with
    | some anchor, some recorded =>
      some ⟨dailyName stem anchor, recordedUs a.now,
        buildRecord a.decision.members (recordedUs a.now) recorded.isoformatUtc⟩
    | _, _ => none
  else none

/-- The directory exists after the call. -/
def Append.makesDir (a : Append) : Bool := isLogEnabled lower a.env && decide (a.io ≠ .mkdirFails)

/-- The clock is between 1970 and 2106. -/
def Append.Clocked (a : Append) : Prop := 0 ≤ a.now ∧ a.now < 2 ^ 32 * 1000000

/-- The directory after some calls. -/
def run (actions : List Append) : LogDir :=
  actions.foldl (fun dir a => (appendDecision lower dir a).1) none

theorem exists_ofTimestamp {us : Int} (h0 : 0 ≤ us) (hlt : us < 2 ^ 32 * 1000000) :
    ∃ dt, DateTime.ofTimestamp us = some dt := by
  have hmax : (DateTime.maxOrdinal : Int) = 3652059 := rfl
  have hrange : ¬ ((us + 719163 * 86400000000) / 86400000000 < 1 ∨
      (DateTime.maxOrdinal : Int) < (us + 719163 * 86400000000) / 86400000000) := by
    rw [hmax]
    omega
  simp only [DateTime.ofTimestamp]
  exact ⟨_, if_neg hrange⟩

variable {lower}

theorem Append.Clocked.exists_times {a : Append} (h : a.Clocked) :
    ∃ anchor recorded, DateTime.ofTimestamp a.now = some anchor ∧
      DateTime.ofTimestamp (recordedUs a.now) = some recorded := by
  have hsecond := recordedUs_second h.1 h.2
  obtain ⟨h0, hlt⟩ := h
  obtain ⟨anchor, hanchor⟩ := exists_ofTimestamp h0 hlt
  obtain ⟨recorded, hrecorded⟩ : ∃ dt, DateTime.ofTimestamp (recordedUs a.now) = some dt :=
    exists_ofTimestamp (by omega) (by omega)
  exact ⟨anchor, recorded, hanchor, hrecorded⟩

theorem Append.Clocked.sound {a : Append} (h : a.Clocked) {e : Entry}
    (he : a.entry? lower = some e) : e.Sound := by
  obtain ⟨anchor, recorded, hanchor, hrecorded⟩ := h.exists_times
  rw [Append.entry?, hanchor, hrecorded] at he
  split_ifs at he
  cases he
  refine ⟨⟨a.now, anchor, hanchor, rfl, ?_⟩, ?_⟩
  · have hsecond := recordedUs_second h.1 h.2
    change dayOf a.now = dayOf (recordedUs a.now)
    rw [dayOf, dayOf]
    omega
  · refine readLine_dumpsSorted (unpaired_buildRecord a.decision _ _)
      (nodup_buildRecord a.decision _ _) hrecorded ?_
    rw [buildRecord, List.mem_append, List.mem_map]
    exact .inl ⟨("timestamp", .str (.ofString recorded.isoformatUtc)), by simp [ownMembers], rfl⟩

/-- A call appends its entry, or it leaves the files as they are. -/
theorem getD_appendDecision {a : Append} (h : a.Clocked) (dir : LogDir) :
    (appendDecision lower dir a).1.getD [] =
      (a.entry? lower).elim (dir.getD []) fun e => appendText e.name e.line (dir.getD []) := by
  obtain ⟨anchor, recorded, hanchor, hrecorded⟩ := h.exists_times
  rw [appendDecision, Append.entry?, hanchor, hrecorded]
  by_cases henabled : isLogEnabled lower a.env = true
  · rw [if_pos henabled]
    cases hio : a.io with
    | mkdirFails => rw [if_neg (by simp)]; rfl
    | openFails => rw [if_neg (by simp)]; rfl
    | writes =>
      rw [if_pos ⟨henabled, rfl⟩]
      rfl
  · rw [if_neg henabled, if_neg fun h => henabled h.1]
    rfl

theorem isSome_appendDecision {a : Append} (h : a.Clocked) (dir : LogDir) :
    (appendDecision lower dir a).1.isSome = (dir.isSome || a.makesDir lower) := by
  obtain ⟨anchor, recorded, hanchor, hrecorded⟩ := h.exists_times
  rw [appendDecision, Append.makesDir, hanchor, hrecorded]
  by_cases henabled : isLogEnabled lower a.env = true
  · rw [if_pos henabled, henabled]
    cases hio : a.io with
    | mkdirFails => simp
    | openFails => simp
    | writes => simp
  · rw [if_neg henabled]
    simp [henabled]

/-- What the files of a run hold. -/
theorem getD_run {actions : List Append} (h : ∀ a ∈ actions, a.Clocked) :
    (run lower actions).getD [] =
      filesOf Entry.line (groupBy Entry.name (actions.filterMap (Append.entry? lower))) := by
  induction actions using List.reverseRecOn with
  | nil => rfl
  | append_singleton actions a ih =>
    have hrun : run lower (actions ++ [a]) = (appendDecision lower (run lower actions) a).1 := by
      rw [run, List.foldl_append]
      rfl
    have hbefore := ih fun b hb => h b (List.mem_append_left _ hb)
    rw [hrun, getD_appendDecision (h a (by simp)), hbefore, List.filterMap_append]
    cases hentry : a.entry? lower with
    | none => simp [hentry]
    | some e =>
      simp only [Option.elim_some, List.filterMap_cons, hentry, List.filterMap_nil]
      rw [appendText_filesOf, groupBy, groupBy, List.foldl_append]
      rfl

theorem isSome_run {actions : List Append} (h : ∀ a ∈ actions, a.Clocked) :
    (run lower actions).isSome = actions.any (Append.makesDir lower) := by
  induction actions using List.reverseRecOn with
  | nil => rfl
  | append_singleton actions a ih =>
    have hrun : run lower (actions ++ [a]) = (appendDecision lower (run lower actions) a).1 := by
      rw [run, List.foldl_append]
      rfl
    rw [hrun, isSome_appendDecision (h a (by simp)),
      ih fun b hb => h b (List.mem_append_left _ hb)]
    simp

end Runs

/-! ## What is loaded -/

/-- The lines of a file of sound entries: all are read back, and those in the window are loaded. -/
theorem scanFile_entries (c : Option Int) {name : String} {es : List Entry}
    (h : ∀ e ∈ es, e.Sound ∧ e.name = name) :
    scanFile c (name, es.flatMap Entry.line) =
      ((es.filter fun e => inWindow c e.timestamp).map Entry.loaded, 0) := by
  have hlines : (splitlines (es.flatMap Entry.line)).map readLine = es.map Entry.read := by
    have hflat : es.flatMap Entry.line = (es.map Entry.record).flatMap renderLine := by
      rw [List.flatMap_map]
      rfl
    rw [hflat, splitlines_renderLine, List.map_map, List.map_map]
    refine List.map_congr_left fun e he => ?_
    rw [Function.comp_apply, Function.comp_apply]
    exact (h e he).1.read
  have hmalformed : (es.map Entry.read).countP LogLine.isMalformed = 0 := by
    rw [List.countP_eq_zero]
    intro line hline
    obtain ⟨e, -, rfl⟩ := List.mem_map.1 hline
    exact Bool.false_ne_true
  have hrecords : ((es.map Entry.read).filterMap LogLine.record?).filterMap
      (fun r => if inWindow c r.1 then some (r.1, r.2.1) else none) =
      (es.filter fun e => inWindow c e.timestamp).map Entry.loaded := by
    rw [← List.filterMap_eq_map, ← List.filterMap_eq_map, List.filterMap_filter,
      List.filterMap_filterMap, List.filterMap_filterMap]
    refine List.filterMap_congr fun e _ => ?_
    simp only [Function.comp_apply, Option.bind_some, Entry.read, LogLine.record?, Entry.loaded]
  rw [scanFile, hlines]
  simp only [hmalformed, hrecords, ite_self]
  -- a file that is skipped holds nothing of the window
  split_ifs with hskip
  · rw [List.filter_eq_nil_iff.2, List.map_nil]
    intro e he
    cases c with
    | none => cases hskip
    | some c =>
      obtain ⟨hsound, rfl⟩ := h e he
      rw [Option.any_some, hsound.file.2, Option.any_some, decide_eq_true_eq] at hskip
      simp only [inWindow, Option.all_some, decide_eq_true_eq, not_le]
      rw [dayOf, dayOf] at hskip
      omega
  · rfl

section Loaded

variable {lower : PyStr → PyStr}

/-- What a run of appends has logged, in the order of the calls: the recorded timestamps, and the
records as their lines are read back. -/
def logged (lower : PyStr → PyStr) (actions : List Append) : List (Int × Record) :=
  (actions.filterMap (Append.entry? lower)).map Entry.loaded

/-- The files of sound entries are files of the log. -/
theorem starOf_group {es : List Entry} (hsound : ∀ e ∈ es, e.Sound) :
    ∀ g ∈ groupBy Entry.name es, (starOf stem g.1).isSome = true := by
  intro g hg
  have hgrouped := isGrouped_groupBy Entry.name es
  obtain ⟨e, he, hname⟩ := (hgrouped.key_mem g.1).1 (List.mem_map_of_mem hg)
  rw [← hname]
  exact (hsound e he).file.1

/-- What the files of sound entries add. -/
theorem scanned_eq {es : List Entry} (hsound : ∀ e ∈ es, e.Sound) (c : Option Int) :
    sortByKey Prod.fst (((logFiles stem (filesOf Entry.line (groupBy Entry.name es))).map
        (scanFile c)).flatMap Prod.fst) =
      sortByKey Prod.fst ((es.map Entry.loaded).filter fun r => inWindow c r.1) ∧
    (((logFiles stem (filesOf Entry.line (groupBy Entry.name es))).map (scanFile c)).map
      Prod.snd).sum = 0 := by
  have hfiles := logFiles_filesOf Entry.line (starOf_group hsound)
  obtain ⟨gs, hgs⟩ : ∃ gs, gs = (groupBy Entry.name es).insertionSort fun a b => a.1 ≤ b.1 :=
    ⟨_, rfl⟩
  have hperm : gs.Perm (groupBy Entry.name es) := hgs ▸ List.perm_insertionSort _ _
  rw [← hgs] at hfiles
  have hgrouped := isGrouped_groupBy Entry.name es
  have hscan : (filesOf Entry.line gs).map (scanFile c) =
      gs.map fun g => ((g.2.filter fun e => inWindow c e.timestamp).map Entry.loaded, 0) := by
    rw [filesOf, List.map_map]
    refine List.map_congr_left fun g hg => scanFile_entries c fun e he => ?_
    rw [hgrouped.of_mem (hperm.mem_iff.1 hg), List.mem_filter, decide_eq_true_eq] at he
    exact ⟨hsound e he.1, he.2⟩
  have hflat : (gs.map fun g => ((g.2.filter fun e => inWindow c e.timestamp).map Entry.loaded,
      (0 : Nat))).flatMap Prod.fst =
      ((gs.flatMap Prod.snd).filter fun e => inWindow c e.timestamp).map Entry.loaded := by
    rw [List.flatMap_map, List.filter_flatMap, List.map_flatMap]
  have hkey : ∀ e : Entry, (Entry.loaded e).1 = e.timestamp := fun _ => rfl
  have hfilter : (es.map Entry.loaded).filter (fun r => inWindow c r.1) =
      (es.filter fun e => inWindow c e.timestamp).map Entry.loaded := by
    rw [List.filter_map]
    rfl
  rw [hfiles, hscan, hflat, hfilter]
  constructor
  · -- entries of one instant are in one file, so the order of the files does not matter
    have hone := hgrouped.sortByKey_flatMap Entry.timestamp hperm
      fun e he f hf h => (hsound e he).name_eq (hsound f hf) h
    rw [← map_sortByKey Entry.loaded hkey, ← map_sortByKey Entry.loaded hkey,
      ← filter_sortByKey_comm, ← filter_sortByKey_comm, hone]
  · rw [List.map_map]
    exact List.sum_eq_zero fun n hn => by
      obtain ⟨g, -, rfl⟩ := List.mem_map.1 hn
      rfl

/-- What is loaded of a run. -/
theorem load_run {actions : List Append} (hclock : ∀ a ∈ actions, a.Clocked)
    {since : Option Int} {now : Int} {c : Option Int} (hcutoff : cutoff since now = .ok c) :
    loadRecords (run lower actions) since now = .ok
      { records := (sortByKey Prod.fst ((logged lower actions).filter fun r => inWindow c r.1)).map
          Prod.snd
        dirMissing := !actions.any (Append.makesDir lower)
        malformed := 0 } := by
  have hfiles := @getD_run lower _ hclock
  have hsome := @isSome_run lower _ hclock
  have hsound : ∀ e ∈ actions.filterMap (Append.entry? lower), e.Sound := by
    intro e he
    obtain ⟨a, ha, hentry⟩ := List.mem_filterMap.1 he
    exact (hclock a ha).sound hentry
  rw [logged]
  generalize actions.filterMap (Append.entry? lower) = es at hfiles hsound ⊢
  cases hrun : run lower actions with
  | none =>
    rw [hrun] at hfiles hsome
    have hnil : es = [] := by
      have hgroups : groupBy Entry.name es = [] := List.map_eq_nil_iff.1 hfiles.symm
      have hflatten := (isGrouped_groupBy Entry.name es).flatten
      rw [hgroups] at hflatten
      exact List.nil_perm.1 hflatten
    rw [loadRecords, ← hsome, hnil]
    rfl
  | some files =>
    rw [hrun] at hfiles hsome
    rw [Option.getD_some] at hfiles
    have hscanned := scanned_eq hsound c
    rw [loadRecords, ← hsome, hfiles, hcutoff]
    simp only [bind, Except.bind, hscanned.1, hscanned.2]
    rfl

/-- What the calls have built, in their order: the recorded timestamps and the records. -/
def built (lower : PyStr → PyStr) (actions : List Append) : List (Int × Record) :=
  (actions.filterMap (Append.entry? lower)).map fun e => (e.timestamp, e.record)

/-- A record that is read back has the value of each key, with sorted keys inside it. -/
def ReadsAs (read written : Record) : Prop :=
  ∀ key, PyJson.member? key read = (PyJson.member? key written).map PyJson.sortKeys

theorem entry?_nodup {a : Append} {e : Entry} (h : a.entry? lower = some e) :
    (e.record.map Prod.fst).Nodup := by
  rw [Append.entry?] at h
  split_ifs at h
  split at h
  · cases h
    exact nodup_buildRecord a.decision _ _
  · cases h

/-- Whatever was appended in the window is loaded, and nothing else, in the order of the timestamps
and for one timestamp in the order of the calls; no line is malformed. -/
theorem load_appended {actions : List Append} (hclock : ∀ a ∈ actions, a.Clocked)
    {since : Option Int} {now : Int} {c : Option Int} (hcutoff : cutoff since now = .ok c) :
    ∃ loaded, loadRecords (run lower actions) since now = .ok loaded ∧
      List.Forall₂ ReadsAs loaded.records
        ((sortByKey Prod.fst ((built lower actions).filter fun r => inWindow c r.1)).map Prod.snd) ∧
      loaded.malformed = 0 ∧ loaded.dirMissing = !actions.any (Append.makesDir lower) := by
  refine ⟨_, load_run hclock hcutoff, ?_, rfl, rfl⟩
  have hloaded : logged lower actions =
      (built lower actions).map fun r => (r.1, PyJson.sortMembers r.2) := by
    rw [logged, built, List.map_map]
    rfl
  have hnodup : ∀ r ∈ built lower actions, (r.2.map Prod.fst).Nodup := by
    intro r hr
    obtain ⟨e, he, rfl⟩ := List.mem_map.1 hr
    obtain ⟨a, -, hentry⟩ := List.mem_filterMap.1 he
    exact entry?_nodup hentry
  have hsorted : sortByKey Prod.fst ((logged lower actions).filter fun r => inWindow c r.1) =
      (sortByKey Prod.fst ((built lower actions).filter fun r => inWindow c r.1)).map
        fun r => (r.1, PyJson.sortMembers r.2) := by
    have hkey : ∀ r : Int × Record, (r.1, PyJson.sortMembers r.2).1 = r.1 := fun _ => rfl
    rw [hloaded, List.filter_map]
    exact (map_sortByKey _ hkey _).symm
  rw [hsorted, List.map_map, List.forall₂_map_left_iff, List.forall₂_map_right_iff,
    List.forall₂_same]
  intro r hr key
  have hmem := (List.mem_filter.1 ((perm_sortByKey Prod.fst _).mem_iff.1 hr)).1
  exact member?_sortMembers key (hnodup r hmem)

end Loaded

/-! ### One decision of two is in the window -/

/-- A decision with nothing but its outcome. -/
def sampleDecision : Shadow.Record where
  members := [(.ofString "outcome", .str (.ofString "match"))]
  unpaired := ⟨unpaired_ofString _, unpaired_ofString _, trivial⟩
  distinct := ⟨List.nodup_singleton _, trivial, trivial⟩

def sampleAppend (now : Int) : Append :=
  ⟨⟨none, some (.ofString " true")⟩, sampleDecision, now, .writes⟩

theorem load_appended_sample :
    ∃ loaded, loadRecords (run id [sampleAppend 0, sampleAppend 7200000001]) (some 3600000000)
        7200000001 = .ok loaded ∧
      loaded.records.length = 1 ∧ loaded.malformed = 0 ∧ loaded.dirMissing = false := by
  have hclock : ∀ a ∈ [sampleAppend 0, sampleAppend 7200000001], a.Clocked := by
    intro a ha
    simp only [List.mem_cons, List.not_mem_nil, or_false] at ha
    obtain rfl | rfl := ha
    · exact ⟨by decide, by decide⟩
    · exact ⟨by decide, by decide⟩
  have hcutoff : cutoff (some 3600000000) 7200000001 = .ok (some 3600000001) := by rfl
  obtain ⟨loaded, hload, hrecords, hmalformed, hdir⟩ := @load_appended id _ hclock _ _ _ hcutoff
  refine ⟨loaded, hload, ?_, hmalformed, ?_⟩
  · rw [hrecords.length_eq]
    decide +kernel
  · rw [hdir]
    decide +kernel

end ParallaxKernel.Router.DecisionLog
