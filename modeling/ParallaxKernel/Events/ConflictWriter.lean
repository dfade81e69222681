import ParallaxKernel.Lib.IsoOrder
import ParallaxKernel.Lib.Json
import ParallaxKernel.Router.DualRead
import ParallaxKernel.Store.Schema
import Mathlib.Data.Finset.Max

/-!
# Conflict events

`write_conflict_event` of `events/conflict_writer.py`. A call reads the clock, looks for a row of
its key within the window, and inserts a row where there is none. Calls run on connections of their
own, in autocommit mode: each statement is a step, and a statement may fail. Other code may insert
events of other types in between. The counters and the log are left out.
-/

namespace ParallaxKernel.Events

open Lib Store Router

/-! ## Decisions and evidence -/

/-- A decision with the time at which `arbitrate` made it. -/
structure TimedDecision extends LiveArbitrationDecision where
  decidedAtUsUtc : Int

inductive DataQualityFlag where
  | coldStart
  | corpusImmature
  | normal
  deriving DecidableEq

def DataQualityFlag.value : DataQualityFlag → String
  | coldStart => "cold_start"
  | corpusImmature => "corpus_immature"
  | normal => "normal"

/-- The payload of a call. Evidence that is missing or of another class is `none`. -/
structure ConflictPayload where
  primary : Option (RetrievalEvidence Json)
  secondary : Option (RetrievalEvidence Json)
  userId : Option Json

structure ConflictCall where
  decision : TimedDecision
  payload : ConflictPayload
  dataQualityFlag : DataQualityFlag
  nowUsUtc : Option Int

def noCanonicalRefSentinel : String := "__no_canonical_ref__"

def conflictEventSystemUserId : String := "__system__"

/-- `DEDUP_WINDOW_SECONDS` in microseconds. -/
def dedupWindowUs : Int := 3600 * 1000000

/-- `_evidence_first_id`. -/
def evidenceFirstId (ev : Option (RetrievalEvidence Json)) : Option String :=
  match ev.bind (·.hits.head?) with
  | none => none
  | some first =>
    match first.lookup "id" with
    | some (.str ref) => if ref = "" then none else some ref
    | _ => none

/-- `_derive_canonical_ref`. -/
def deriveCanonicalRef (payload : ConflictPayload) : String :=
  match evidenceFirstId payload.primary with
  | some ref => ref
  | none =>
    match evidenceFirstId payload.secondary with
    | some ref => ref
    | none => noCanonicalRefSentinel

def dedupKey (decision : TimedDecision) : String := "rule:" ++ decision.tieBreakerRule

/-- `_decision_payload_dict`. -/
def decisionPayload (decision : TimedDecision) : Json :=
  .obj [("winning_source", .str decision.winningSource.value),
    ("tie_breaker_rule", .str decision.tieBreakerRule),
    ("conflict_event_id", (decision.conflictEventId.map Json.str).getD .null),
    ("policy_version", .str decision.policyVersion),
    ("correlation_id", .str decision.correlationId),
    ("query_type", .str decision.queryType.value),
    ("reason_code", .str decision.reasonCode),
    ("decided_at_us_utc", .int decision.decidedAtUsUtc)]

/-- `_build_envelope`. -/
def buildEnvelope (decision : TimedDecision) (timestampUsUtc : Int) (flag : DataQualityFlag) :
    Json :=
  .obj [("event_type", .str "arbitration_conflict"),
    ("correlation_id", .str decision.correlationId), ("timestamp_us_utc", .int timestampUsUtc),
    ("schema_version", .str "1.0"), ("payload", decisionPayload decision),
    ("data_quality_flag", .str flag.value)]

/-- `_now_iso_from_us`; `none` where it raises. -/
def nowIsoFromUs (nowUsUtc : Int) : Option String :=
  (DateTime.ofTimestamp nowUsUtc).map DateTime.isoformatUtc

/-! ## The statements -/

/-- The timestamp of an envelope, where it is an integer; `True` and `False` are integers. -/
def envelopeTimestamp (ms : List (String × Json)) : Option Int :=
  match Json.member? "timestamp_us_utc" ms with
  | some (.int ts) => some ts
  | some (.bool b) => some (if b then 1 else 0)
  | _ => none

/-- The rows that the dedup query selects from. -/
def candidates (events : List Event) (canonicalRef conflictField windowStart : String) :
    List Event :=
  events.filter fun row => row.eventType = "arbitration_conflict" ∧
    row.targetId = some canonicalRef ∧ row.approvalTier = some conflictField ∧
    windowStart ≤ row.createdAt

/-- `ORDER BY created_at DESC LIMIT 1`, with the choice that SQLite makes between equals. -/
def newest (choice : Nat) (rows : List Event) : Option Event :=
  let first := rows.filter fun row => rows.all fun other => decide (other.createdAt ≤ row.createdAt)
  first[choice % first.length]?

/-- `_select_existing_event_id`; `none` where it raises. -/
def selectExistingEventId (events : List Event) (choice : Nat) (canonicalRef conflictField : String)
    (windowStartUs : Int) : Option (Option String) := do
  let windowStart ← nowIsoFromUs windowStartUs
  match newest choice (candidates events canonicalRef conflictField windowStart) with
  | none => some none
  | some row =>
    match Json.loads row.payloadJson with
    | none => some none
    | some (.obj ms) =>
      match envelopeTimestamp ms with
      | none => some none
      | some ts => some (if windowStartUs ≤ ts then some row.eventId else none)
    | some _ => none

/-- The row that a call inserts; `none` where it raises, also because the id is taken. -/
def insertEventRow (events : List Event) (call : ConflictCall) (tsUs : Int) (eventId : String) :
    Option Event := do
  let createdAt ← nowIsoFromUs tsUs
  if eventId ∈ events.map Event.eventId then none
  else some {
    eventId
    userId :=
      match call.payload.userId with
      | some (.str uid) => if uid = "" then conflictEventSystemUserId else uid
      | _ => conflictEventSystemUserId
    actor := "system"
    eventType := "arbitration_conflict"
    targetKind := some "arbitration_conflict_dedup"
    targetId := some (deriveCanonicalRef call.payload)
    payloadJson := Json.dumpsSorted (buildEnvelope call.decision tsUs call.dataQualityFlag)
    approvalTier := some (dedupKey call.decision)
    createdAt
    sessionId := none }

/-! ## The calls -/

/-- Where a call stands: `checked` remembers how many rows its query has seen. -/
inductive Progress where
  | idle
  | started (tsUs : Int)
  | checked (tsUs : Int) (seen : Nat)
  | returned (tsUs : Int) (eventId : String)
  deriving DecidableEq

variable {ι : Type} [DecidableEq ι]

structure State (ι : Type) where
  events : List Event
  progress : ι → Progress

def State.initial : State ι := ⟨[], fun _ => .idle⟩

inductive Action (ι : Type) where
  | clock (c : ι) (now : Int)
  | select (c : ι) (choice : Nat) (fails : Bool)
  | insert (c : ι) (eventId : String) (fails : Bool)
  | other (event : Event)

def State.move (s : State ι) (c : ι) (p : Progress) : State ι :=
  { s with progress := Function.update s.progress c p }

variable (calls : ι → ConflictCall)

/-- The answer of a query of a call. -/
def selectOf (s : State ι) (c : ι) (tsUs : Int) (choice : Nat) (fails : Bool) :
    Option (Option String) :=
  if fails then none
  else selectExistingEventId s.events choice (deriveCanonicalRef (calls c).payload)
    (dedupKey (calls c).decision) (tsUs - dedupWindowUs)

/-- The row that a call inserts, where the statement does not fail. -/
def rowOf (s : State ι) (c : ι) (tsUs : Int) (eventId : String) (fails : Bool) : Option Event :=
  if fails then none else insertEventRow s.events (calls c) tsUs eventId

/-- `write_conflict_event`, step by step. -/
def step (s : State ι) : Action ι → Option (State ι)
  | .clock c now =>
    match s.progress c with
    | .idle => some (s.move c (.started ((calls c).nowUsUtc.getD now)))
    | _ => none
  | .select c choice fails =>
    match s.progress c with
    | .started tsUs =>
      match selectOf calls s c tsUs choice fails with
      | none => some (s.move c (.returned tsUs ""))
      | some (some existing) => some (s.move c (.returned tsUs existing))
      | some none => some (s.move c (.checked tsUs s.events.length))
    | _ => none
  | .insert c eventId fails =>
    match s.progress c with
    | .checked tsUs _ =>
      match rowOf calls s c tsUs eventId fails with
      | none => some (s.move c (.returned tsUs ""))
      | some row => some ({ s with events := s.events ++ [row] }.move c (.returned tsUs eventId))
    | _ => none
  | .other event =>
    if event.eventType = "arbitration_conflict" ∨ event.eventId ∈ s.events.map Event.eventId then
      none
    else some { s with events := s.events ++ [event] }

def run (actions : List (Action ι)) : Option (State ι) :=
  actions.foldlM (step calls) State.initial

/-! ## What is claimed -/

def isConflict (row : Event) : Bool := row.eventType = "arbitration_conflict"

/-- The columns that a key is stored in. -/
def rowKey (row : Event) : Option String × Option String := (row.targetId, row.approvalTier)

def callKey (call : ConflictCall) : Option String × Option String :=
  (some (deriveCanonicalRef call.payload), some (dedupKey call.decision))

/-- The envelope timestamp of a row. -/
def rowTimestamp (row : Event) : Option Int :=
  match Json.loads row.payloadJson with
  | some (.obj ms) => envelopeTimestamp ms
  | _ => none

/-- Conflict rows of one key lie more than the window apart. -/
def Apart (row row' : Event) : Prop :=
  isConflict row → isConflict row' → rowKey row = rowKey row' →
    ∀ t t', rowTimestamp row = some t → rowTimestamp row' = some t' → dedupWindowUs < (t - t').natAbs

/-- What the events and the answers of the calls satisfy. -/
structure Correct (s : State ι) : Prop where
  deduped : s.events.Pairwise Apart
  answers : ∀ c tsUs eventId, s.progress c = .returned tsUs eventId → eventId ≠ "" →
    ∃ row ∈ s.events, row.eventId = eventId ∧ isConflict row ∧ rowKey row = callKey (calls c) ∧
      ∃ t, rowTimestamp row = some t ∧ tsUs - dedupWindowUs ≤ t

/-- Since the query of a call that inserts, no row of its key has come that lies within the
window. -/
def Alone (s : State ι) : Action ι → Prop
  | .insert c eventId fails => ∀ tsUs seen row, s.progress c = .checked tsUs seen →
      rowOf calls s c tsUs eventId fails = some row →
      ∀ other ∈ s.events.drop seen, isConflict other → rowKey other = callKey (calls c) →
        ∀ t, rowTimestamp other = some t → dedupWindowUs < (t - tsUs).natAbs
  | _ => True

/-- No call inserts on a query that another insert has overtaken. -/
def Undisturbed (s : State ι) : List (Action ι) → Prop
  | [] => True
  | action :: actions =>
    Alone calls s action ∧ ∀ t, step calls s action = some t → Undisturbed t actions

/-! ## The statements -/

variable {calls}

theorem exists_newest (choice : Nat) {rows : List Event} (h : rows ≠ []) :
    ∃ row ∈ rows, newest choice rows = some row := by
  obtain ⟨top, htop, hmax⟩ := Finset.exists_max_image rows.toFinset Event.createdAt
    (by simpa [Finset.nonempty_iff_ne_empty] using h)
  have hfirst : top ∈ rows.filter fun row =>
      rows.all fun other => decide (other.createdAt ≤ row.createdAt) := by
    refine List.mem_filter.2 ⟨List.mem_toFinset.1 htop, List.all_eq_true.2 fun other hother => ?_⟩
    exact decide_eq_true (hmax other (List.mem_toFinset.2 hother))
  have hlt := Nat.mod_lt choice (List.length_pos_of_mem hfirst)
  refine ⟨_, (List.mem_filter.1 (List.getElem_mem hlt)).1, ?_⟩
  rw [newest, List.getElem?_eq_getElem hlt]

theorem mem_of_newest {choice : Nat} {rows : List Event} {row : Event}
    (h : newest choice rows = some row) : row ∈ rows :=
  (List.mem_filter.1 (List.mem_of_getElem? h)).1

/-- A conflict row as the writer writes it. -/
def Written (row : Event) : Prop :=
  ∃ t dt, rowTimestamp row = some t ∧ DateTime.ofTimestamp t = some dt ∧
    row.createdAt = DateTime.isoformatUtc dt

/-- Of written rows the texts tell which are within the window. -/
theorem mem_candidates {events : List Event} {ref field : String} {startUs : Int}
    {windowStart : String} (hstart : nowIsoFromUs startUs = some windowStart) {row : Event}
    {t : Int} (hwritten : Written row) (ht : rowTimestamp row = some t) :
    row ∈ candidates events ref field windowStart ↔
      row ∈ events ∧ isConflict row ∧ rowKey row = (some ref, some field) ∧ startUs ≤ t := by
  obtain ⟨u, dt, hu, hdt, hcreated⟩ := hwritten
  obtain rfl : u = t := Option.some.inj (hu.symm.trans ht)
  obtain ⟨sdt, hsdt, rfl⟩ := Option.map_eq_some_iff.1 hstart
  have htext : DateTime.isoformatUtc sdt ≤ row.createdAt ↔ startUs ≤ u := by
    rw [hcreated, ← not_lt, DateTime.isoformatUtc_lt_iff hdt hsdt, not_lt]
  simp [candidates, isConflict, rowKey, htext, and_assoc]

/-- A query that finds nothing. -/
theorem select_none {events : List Event} {choice : Nat} {ref field : String} {startUs : Int}
    (hwritten : ∀ row ∈ events, isConflict row → Written row)
    (h : selectExistingEventId events choice ref field startUs = some none) :
    ∀ row ∈ events, isConflict row → rowKey row = (some ref, some field) →
      ∀ t, rowTimestamp row = some t → t < startUs := by
  intro row hrow hconflict hkey t ht
  by_contra hlt
  rw [selectExistingEventId] at h
  obtain ⟨windowStart, hstart, h⟩ := Option.bind_eq_some_iff.1 h
  have hcandidate : row ∈ candidates events ref field windowStart :=
    (mem_candidates hstart (hwritten row hrow hconflict) ht).2
      ⟨hrow, hconflict, hkey, not_lt.1 hlt⟩
  obtain ⟨top, htop, hnewest⟩ := exists_newest choice (List.ne_nil_of_mem hcandidate)
  -- The newest candidate is a written row, so the check of its envelope agrees with the query.
  obtain ⟨htopMem, htopConflict⟩ : top ∈ events ∧ isConflict top := by
    simp only [candidates, List.mem_filter, decide_eq_true_eq] at htop
    exact ⟨htop.1, decide_eq_true htop.2.1⟩
  have htopWritten := hwritten top htopMem htopConflict
  obtain ⟨u, -, hu, -, -⟩ := id htopWritten
  have hrecent := ((mem_candidates hstart htopWritten hu).1 htop).2.2.2
  simp only [hnewest] at h
  rw [rowTimestamp] at hu
  split at h
  · next hloads => rw [hloads] at hu; cases hu
  · next ms hloads =>
    rw [hloads] at hu
    simp only [hu, if_pos hrecent] at h
    cases h
  · cases h

/-- A query that finds a row. -/
theorem select_some {events : List Event} {choice : Nat} {ref field eventId : String}
    {startUs : Int}
    (h : selectExistingEventId events choice ref field startUs = some (some eventId)) :
    ∃ row ∈ events, row.eventId = eventId ∧ isConflict row ∧
      rowKey row = (some ref, some field) ∧ ∃ t, rowTimestamp row = some t ∧ startUs ≤ t := by
  rw [selectExistingEventId] at h
  obtain ⟨windowStart, -, h⟩ := Option.bind_eq_some_iff.1 h
  cases hnewest : newest choice (candidates events ref field windowStart) with
  | none => rw [hnewest] at h; cases h
  | some row =>
    simp only [hnewest] at h
    have hrow := mem_of_newest hnewest
    simp only [candidates, List.mem_filter, decide_eq_true_eq] at hrow
    obtain ⟨hmem, htype, href, hfield, -⟩ := hrow
    split at h
    · cases h
    · next ms hloads =>
      cases hts : envelopeTimestamp ms with
      | none => rw [hts] at h; cases h
      | some t =>
        simp only [hts] at h
        split at h
        · next hle =>
          cases h
          refine ⟨row, hmem, rfl, decide_eq_true htype, by rw [rowKey, href, hfield], t, ?_, hle⟩
          rw [rowTimestamp, hloads, ← hts]
        · cases h
    · cases h

theorem sortKeys_envelope (decision : TimedDecision) (tsUs : Int) (flag : DataQualityFlag) :
    Json.sortKeys (buildEnvelope decision tsUs flag) =
      .obj [("correlation_id", .str decision.correlationId),
        ("data_quality_flag", .str flag.value), ("event_type", .str "arbitration_conflict"),
        ("payload", Json.sortKeys (decisionPayload decision)), ("schema_version", .str "1.0"),
        ("timestamp_us_utc", .int tsUs)] := by
  simp only [buildEnvelope, Json.sortKeys, Json.sortMembers, Json.insertMember, String.reduceLT,
    if_true, if_false]

/-- The envelope keeps its timestamp through the text. -/
theorem rowTimestamp_envelope {decision : TimedDecision} {tsUs : Int} {flag : DataQualityFlag}
    {row : Event} (h : row.payloadJson = Json.dumpsSorted (buildEnvelope decision tsUs flag)) :
    rowTimestamp row = some tsUs := by
  rw [rowTimestamp, h, Json.dumpsSorted, Json.loads_dumps, sortKeys_envelope]
  rfl

/-- An inserted row. -/
theorem insertEventRow_spec {events : List Event} {call : ConflictCall} {tsUs : Int}
    {eventId : String} {row : Event} (h : insertEventRow events call tsUs eventId = some row) :
    row.eventId = eventId ∧ isConflict row ∧ rowKey row = callKey call ∧
      rowTimestamp row = some tsUs ∧ Written row := by
  rw [insertEventRow] at h
  obtain ⟨createdAt, hcreated, h⟩ := Option.bind_eq_some_iff.1 h
  obtain ⟨dt, hdt, rfl⟩ := Option.map_eq_some_iff.1 hcreated
  split at h
  · cases h
  · cases h
    exact ⟨rfl, rfl, rfl, rowTimestamp_envelope rfl, tsUs, dt, rowTimestamp_envelope rfl, hdt, rfl⟩

/-! ## The invariant -/

/-- What holds in every state, whatever the order of the steps. -/
structure Inv (calls : ι → ConflictCall) (s : State ι) : Prop where
  written : ∀ row ∈ s.events, isConflict row → Written row
  checked : ∀ c tsUs seen, s.progress c = .checked tsUs seen → seen ≤ s.events.length ∧
    ∀ row ∈ s.events.take seen, isConflict row → rowKey row = callKey (calls c) →
      ∀ t, rowTimestamp row = some t → t < tsUs - dedupWindowUs
  answers : ∀ c tsUs eventId, s.progress c = .returned tsUs eventId → eventId ≠ "" →
    ∃ row ∈ s.events, row.eventId = eventId ∧ isConflict row ∧ rowKey row = callKey (calls c) ∧
      ∃ t, rowTimestamp row = some t ∧ tsUs - dedupWindowUs ≤ t

omit [DecidableEq ι] in
theorem Inv.initial : Inv calls (State.initial : State ι) :=
  ⟨fun _ h => absurd h List.not_mem_nil, (fun _ _ _ h => nomatch h), fun _ _ _ h => nomatch h⟩

variable {s t : State ι}

/-- A call moves on. -/
theorem Inv.move (h : Inv calls s) {c : ι} {p : Progress}
    (hchecked : ∀ tsUs seen, p = .checked tsUs seen → seen ≤ s.events.length ∧
      ∀ row ∈ s.events.take seen, isConflict row → rowKey row = callKey (calls c) →
        ∀ t, rowTimestamp row = some t → t < tsUs - dedupWindowUs)
    (hanswers : ∀ tsUs eventId, p = .returned tsUs eventId → eventId ≠ "" →
      ∃ row ∈ s.events, row.eventId = eventId ∧ isConflict row ∧
        rowKey row = callKey (calls c) ∧
          ∃ t, rowTimestamp row = some t ∧ tsUs - dedupWindowUs ≤ t) :
    Inv calls (s.move c p) := by
  refine ⟨h.written, fun d tsUs seen hd => ?_, fun d tsUs eventId hd => ?_⟩
  · by_cases hdc : d = c
    · subst hdc
      simp only [State.move, Function.update_self] at hd
      exact hchecked tsUs seen hd
    · simp only [State.move, Function.update_of_ne hdc] at hd
      exact h.checked d tsUs seen hd
  · by_cases hdc : d = c
    · subst hdc
      simp only [State.move, Function.update_self] at hd
      exact hanswers tsUs eventId hd
    · simp only [State.move, Function.update_of_ne hdc] at hd
      exact h.answers d tsUs eventId hd

omit [DecidableEq ι] in
/-- A row is added. -/
theorem Inv.append (h : Inv calls s) {row : Event} (hrow : isConflict row → Written row) :
    Inv calls { s with events := s.events ++ [row] } := by
  refine ⟨fun other hother => ?_, fun c tsUs seen hc => ?_, fun c tsUs eventId hc hne => ?_⟩
  · cases List.mem_append.1 hother with
    | inl hold => exact h.written other hold
    | inr hnew => rwa [List.mem_singleton.1 hnew]
  · obtain ⟨hseen, hrows⟩ := h.checked c tsUs seen hc
    rw [List.take_append_of_le_length hseen]
    exact ⟨by rw [List.length_append]; omega, hrows⟩
  · obtain ⟨other, hother, hrest⟩ := h.answers c tsUs eventId hc hne
    exact ⟨other, List.mem_append_left _ hother, hrest⟩

/-- What a step does to the events: nothing, or it adds a row of another type, or the row of a call
whose query found nothing. -/
inductive Adds (calls : ι → ConflictCall) (s t : State ι) : Action ι → Prop where
  | nothing {action : Action ι} (halone : Alone calls s action) (h : t.events = s.events) :
      Adds calls s t action
  | other (row : Event) (hother : isConflict row = false) (h : t.events = s.events ++ [row]) :
      Adds calls s t (.other row)
  | conflict (c : ι) (eventId : String) (fails : Bool) (tsUs : Int) (seen : Nat) (row : Event)
      (hc : s.progress c = .checked tsUs seen)
      (hrow : rowOf calls s c tsUs eventId fails = some row)
      (h : t.events = s.events ++ [row]) : Adds calls s t (.insert c eventId fails)

omit [DecidableEq ι] in
theorem rowOf_spec {c : ι} {tsUs : Int} {eventId : String} {fails : Bool} {row : Event}
    (h : rowOf calls s c tsUs eventId fails = some row) :
    row.eventId = eventId ∧ isConflict row ∧ rowKey row = callKey (calls c) ∧
      rowTimestamp row = some tsUs ∧ Written row := by
  rw [rowOf] at h
  split at h
  · cases h
  · exact insertEventRow_spec h

theorem Inv.step (h : Inv calls s) {action : Action ι} (hstep : step calls s action = some t) :
    Inv calls t ∧ Adds calls s t action := by
  cases action with
  | clock c now =>
    simp only [Events.step] at hstep
    split at hstep
    · cases hstep
      exact ⟨h.move (fun _ _ hp => nomatch hp) (fun _ _ hp => nomatch hp), .nothing trivial rfl⟩
    · cases hstep
  | select c choice fails =>
    simp only [Events.step] at hstep
    split at hstep
    · next tsUs hc =>
      split at hstep
      · cases hstep
        refine ⟨h.move (fun _ _ hp => nomatch hp) fun _ _ hp hne => ?_, .nothing trivial rfl⟩
        cases hp
        exact absurd rfl hne
      · next existing hselect =>
        cases hstep
        refine ⟨h.move (fun _ _ hp => nomatch hp) fun _ _ hp _ => ?_, .nothing trivial rfl⟩
        cases hp
        rw [selectOf] at hselect
        split at hselect
        · cases hselect
        · exact select_some hselect
      · next hselect =>
        cases hstep
        refine ⟨h.move (fun _ _ hp => ?_) (fun _ _ hp => nomatch hp), .nothing trivial rfl⟩
        cases hp
        rw [selectOf] at hselect
        split at hselect
        · cases hselect
        · rw [List.take_length]
          exact ⟨le_rfl, select_none h.written hselect⟩
    · cases hstep
  | insert c eventId fails =>
    simp only [Events.step] at hstep
    split at hstep
    · next tsUs seen hc =>
      split at hstep
      · next hnone =>
        cases hstep
        refine ⟨h.move (fun _ _ hp => nomatch hp) fun _ _ hp hne => ?_, .nothing ?_ rfl⟩
        · cases hp
          exact absurd rfl hne
        · intro tsUs' seen' row hc' hrow
          rw [hc] at hc'
          cases hc'
          rw [hnone] at hrow
          cases hrow
      · next row hrow =>
        cases hstep
        obtain ⟨hid, hconflict, hkey, hts, hwritten⟩ := rowOf_spec hrow
        refine ⟨(h.append fun _ => hwritten).move (fun _ _ hp => nomatch hp) fun _ _ hp _ => ?_,
          .conflict c eventId fails tsUs seen row hc hrow rfl⟩
        cases hp
        refine ⟨row, List.mem_append_right _ List.mem_cons_self, hid, hconflict, hkey, tsUs, hts, ?_⟩
        rw [dedupWindowUs]
        omega
    · cases hstep
  | other event =>
    simp only [Events.step] at hstep
    split at hstep
    · cases hstep
    · next hother =>
      cases hstep
      have hconflict : isConflict event = false :=
        decide_eq_false fun htype => hother (.inl htype)
      exact ⟨h.append (fun hc => absurd hc (ne_true_of_eq_false hconflict)),
        .other event hconflict rfl⟩

/-- A step keeps the rows apart exactly when it is one that no other insert has overtaken. -/
theorem deduped_step_iff (h : Inv calls s) {action : Action ι}
    (hstep : step calls s action = some t) :
    t.events.Pairwise Apart ↔ s.events.Pairwise Apart ∧ Alone calls s action := by
  cases (h.step hstep).2 with
  | nothing halone hevents => rw [hevents, and_iff_left halone]
  | other row hother hevents =>
    rw [hevents, List.pairwise_append]
    have hapart : ∀ r ∈ s.events, ∀ r' ∈ [row], Apart r r' := by
      intro r _ r' hr' _ hconflict
      rw [List.mem_singleton.1 hr', hother] at hconflict
      cases hconflict
    simp only [List.pairwise_singleton, and_iff_left hapart]
    rfl
  | conflict c eventId fails tsUs seen row hc hrow hevents =>
    obtain ⟨-, hconflict, hkey, hts, -⟩ := rowOf_spec hrow
    obtain ⟨hseen, hrows⟩ := h.checked c tsUs seen hc
    rw [hevents, List.pairwise_append]
    simp only [List.pairwise_singleton, true_and, List.mem_singleton, forall_eq]
    refine and_congr_right fun _ => ?_
    constructor
    · intro hapart tsUs' seen' row' hc' hrow' other hother hoc hok u hu
      rw [hc] at hc'
      cases hc'
      exact hapart other (List.mem_of_mem_drop hother) hoc hconflict (hok.trans hkey.symm) u tsUs
        hu hts
    · intro halone r hr hrc _ hrk u u' hu hu'
      obtain rfl : u' = tsUs := Option.some.inj (hu'.symm.trans hts)
      rw [← List.take_append_drop seen s.events] at hr
      cases List.mem_append.1 hr with
      | inl hold =>
        -- The query has seen the row, so it lies before the window.
        have hlt := hrows r hold hrc (hrk.trans hkey) u hu
        omega
      | inr hnew => exact halone u' seen row hc hrow r hnew hrc (hrk.trans hkey) u hu

/-! ## Runs -/

/-- A run reaches its states one after another. -/
theorem foldlM_correct_iff (actions : List (Action ι)) (h : Inv calls s)
    (hrun : actions.foldlM (step calls) s = some t) :
    Inv calls t ∧
      (t.events.Pairwise Apart ↔ s.events.Pairwise Apart ∧ Undisturbed calls s actions) := by
  induction actions generalizing s with
  | nil =>
    cases hrun
    exact ⟨h, (and_iff_left trivial).symm⟩
  | cons action actions ih =>
    obtain ⟨u, hu, hrun⟩ := Option.bind_eq_some_iff.1 hrun
    obtain ⟨hinv, hiff⟩ := ih (h.step hu).1 hrun
    refine ⟨hinv, ?_⟩
    rw [hiff, deduped_step_iff h hu, and_assoc]
    refine and_congr_right fun _ => and_congr_right fun _ => ?_
    constructor
    · intro hrest u' hu'
      rw [hu] at hu'
      cases hu'
      exact hrest
    · exact fun hrest => hrest u hu

theorem Undisturbed.take {actions : List (Action ι)} (h : Undisturbed calls s actions) (n : Nat) :
    Undisturbed calls s (actions.take n) := by
  induction actions generalizing s n with
  | nil => rwa [List.take_nil]
  | cons action actions ih =>
    cases n with
    | zero => exact trivial
    | succ n => exact ⟨h.1, fun t ht => ih (h.2 t ht) n⟩

theorem writeConflictEvent_correct_iff (calls : ι → ConflictCall) (actions : List (Action ι))
    (hrun : (run calls actions).isSome) :
    (∀ n s, run calls (actions.take n) = some s → Correct calls s) ↔
      Undisturbed calls State.initial actions := by
  constructor
  · intro h
    obtain ⟨s, hs⟩ := Option.isSome_iff_exists.1 hrun
    have hcorrect := h actions.length s (by rw [List.take_length, hs])
    exact ((foldlM_correct_iff actions .initial hs).2.1 hcorrect.deduped).2
  · intro h n s hs
    obtain ⟨hinv, hiff⟩ := foldlM_correct_iff (actions.take n) .initial hs
    exact ⟨hiff.2 ⟨List.Pairwise.nil, h.take n⟩, hinv.answers⟩

/-! ## Two calls at once -/

/-- Calls without evidence. -/
def sampleCall : ConflictCall where
  decision := {
    winningSource := .fallback
    tieBreakerRule := "source-level"
    conflictEventId := none
    policyVersion := "v0.3.0-rc"
    correlationId := "c"
    queryType := .recentContext
    reasonCode := "source-level/recent_context/fallback"
    decidedAtUsUtc := 0 }
  payload := ⟨none, none, none⟩
  dataQualityFlag := .coldStart
  nowUsUtc := none

theorem writeConflictEvent_correct_sample :
    (∀ n s, run (fun _ : Nat => sampleCall)
        (List.take n [.clock 0 0, .select 0 0 false, .insert 0 "a" false]) = some s →
      Correct (fun _ : Nat => sampleCall) s) ↔
      Undisturbed (fun _ : Nat => sampleCall) State.initial
        [.clock 0 0, .select 0 0 false, .insert 0 "a" false] :=
  writeConflictEvent_correct_iff _ _ (by decide +kernel)

/-- Both queries run before either row is inserted. -/
def sampleRace : List (Action Nat) :=
  [.clock 0 0, .clock 1 1, .select 0 0 false, .select 1 0 false, .insert 0 "a" false,
    .insert 1 "b" false]

theorem sampleRace_duplicates :
    ∃ s, run (fun _ => sampleCall) sampleRace = some s ∧ ¬ Correct (fun _ => sampleCall) s := by
  refine ⟨_, rfl, fun h => ?_⟩
  have hapart := List.rel_of_pairwise_cons h.deduped List.mem_cons_self
  have hlt := hapart rfl rfl rfl 0 1 (rowTimestamp_envelope rfl) (rowTimestamp_envelope rfl)
  revert hlt
  decide

end ParallaxKernel.Events
