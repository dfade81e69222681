import ParallaxKernel.Canary.Dod

/-!
# Duplicate requests and the promotion gate

A run with further requests inserted that the handler answers from its cache, beside the run
without them. The duplicates write over the latencies of their originals.
-/

namespace ParallaxKernel.Canary.Dod

open Lib

variable (uuidInt : String → Option Nat)

/-- The operation is a request that the handler answers from its cache. -/
def IsHit (s : State) : Op → Prop
  | .handle r => isUuid7 uuidInt r.eventId = true ∧ (lookup s r).isSome = true
  | _ => False

/-- A run with its inserted requests marked, each of them a hit when it comes. -/
structure DuplicatedRun where
  ops : List (Bool × Op)
  inserted : ∀ before op after, ops = before ++ (true, op) :: after →
    IsHit uuidInt (run uuidInt (before.map Prod.snd)) op

/-- The operation writes the row of the event. -/
def writes (s : State) (op : Op) (eventId : String) : Bool :=
  match op with
  | .handle r => r.eventId = eventId && isUuid7 uuidInt r.eventId && !r.recordFails &&
      ((lookup s r).isSome || r.response.isSome)
  | _ => false

/-- A step, and the events whose row an inserted request has written last. -/
def stepMarked (acc : State × (String → Bool)) (op : Bool × Op) : State × (String → Bool) :=
  (step uuidInt acc.1 op.2, fun e => if writes uuidInt acc.1 op.2 e then op.1 else acc.2 e)

def runMarked (ops : List (Bool × Op)) : State × (String → Bool) :=
  ops.foldl (stepMarked uuidInt) (.empty, fun _ => false)

namespace DuplicatedRun

variable {uuidInt} (d : DuplicatedRun uuidInt)

/-- The run with the duplicates. -/
def duplicated : State := run uuidInt (d.ops.map Prod.snd)

/-- The run without them. -/
def original : State := run uuidInt ((d.ops.filter fun op => !op.1).map Prod.snd)

/-- The row of the event was last written by an inserted request. -/
def overwritten : String → Bool := (runMarked uuidInt d.ops).2

end DuplicatedRun

/-- The rows of a join that have a latency. -/
def timed (rows : List JoinedRow) : List (String × SqlReal) :=
  rows.filterMap fun row => row.latencyMs.map fun latency => (row.eventId, latency)

/-- What the slowest requests reach, as many of them as stand from the 99th percentile on, as many
requests reach that were not written over. -/
def SlowestKept (overwritten : String → Bool) (sample : List (String × SqlReal)) : Prop :=
  let slowest := sample.length - quantileIndex (99 / 100) sample.length
  ∀ x : SqlReal, .ofRat 0 < x → slowest ≤ sample.countP (fun entry => x ≤ entry.2) →
    slowest ≤ sample.countP fun entry => x ≤ entry.2 ∧ overwritten entry.1 = false

/-! ## The two runs side by side -/

/-- The rows of one event in the two runs. -/
def RowSim (overwritten : Bool) : Option AuditRow → Option AuditRow → Prop
  | none, none => True
  | some a, some a' => a'.responseStatus = a.responseStatus ∧ a'.responseBody = a.responseBody ∧
      a'.latencyMs = (if overwritten then a.latencyMs.map fun _ => .ofRat 0 else a.latencyMs) ∧
      (a.responseBody.isSome → a.latencyMs.isSome)
  | _, _ => False

structure Sim (overwritten : String → Bool) (s t : State) : Prop where
  outcomes : t.outcomes = s.outcomes
  rows : ∀ e, RowSim (overwritten e) (s.audit e) (t.audit e)

section Simulation

variable {uuidInt} {overwritten : String → Bool} {s t : State}

theorem Sim.cached (h : Sim overwritten s t) (e : String) :
    t.audit.cached e = s.audit.cached e := by
  have hrow := h.rows e
  simp only [AuditLog.cached]
  cases hs : s.audit e with
  | none =>
    cases ht : t.audit e with
    | none => rfl
    | some a' =>
      rw [hs, ht] at hrow
      exact hrow.elim
  | some a =>
    cases ht : t.audit e with
    | none =>
      rw [hs, ht] at hrow
      exact hrow.elim
    | some a' =>
      rw [hs, ht] at hrow
      obtain ⟨hstatus, hbody, -, -⟩ := hrow
      simp only [Option.bind_some, hstatus, hbody]

theorem Sim.lookup (h : Sim overwritten s t) (r : Request) : lookup t r = lookup s r := by
  rw [Dod.lookup, Dod.lookup, h.cached]

theorem RowSim.cases {o : Bool} {a b : Option AuditRow} (h : RowSim o a b) :
    a = none ∧ b = none ∨ ∃ row row', a = some row ∧ b = some row' ∧
      RowSim o (some row) (some row') := by
  cases a with
  | none =>
    cases b with
    | none => exact .inl ⟨rfl, rfl⟩
    | some row' => exact h.elim
  | some row =>
    cases b with
    | none => exact h.elim
    | some row' => exact .inr ⟨row, row', rfl, rfl, h⟩

/-- A row that both runs write. -/
theorem RowSim.record {o : Bool} {audit audit' : AuditLog} {e body : String} {row : AuditRow}
    {latency : SqlReal} (h : RowSim o (audit e) (audit' e)) (hbody : row.responseBody = some body)
    (hlatency : row.latencyMs = some latency) :
    RowSim false ((audit.record e row) e) ((audit'.record e row) e) := by
  simp only [AuditLog.record, Function.update_self]
  obtain ⟨ha, hb⟩ | ⟨old, old', ha, hb, -⟩ := h.cases <;>
    simp [ha, hb, RowSim, hbody, hlatency]

/-- A row that a duplicate writes over. -/
theorem RowSim.overwrite {o : Bool} {audit audit' : AuditLog} {e : String} {row : AuditRow}
    {cached : CachedResponse} (h : RowSim o (audit e) (audit' e))
    (hcached : audit.cached e = some cached) (hstatus : row.responseStatus = cached.status)
    (hbody : row.responseBody = some cached.body) (hlatency : row.latencyMs = some (.ofRat 0)) :
    RowSim true (audit e) ((audit'.record e row) e) := by
  obtain ⟨a, ha, hmap⟩ := Option.bind_eq_some_iff.1 hcached
  obtain ⟨body, hrowbody, rfl⟩ := Option.map_eq_some_iff.1 hmap
  obtain ⟨hnone, -⟩ | ⟨old, old', hold, hold', -, -, -, hlat⟩ := h.cases
  · rw [ha] at hnone
    cases hnone
  · rw [ha] at hold
    obtain rfl := Option.some.inj hold
    obtain ⟨latency, hsome⟩ := Option.isSome_iff_exists.1 (hlat (by rw [hrowbody]; rfl))
    simp [AuditLog.record, ha, hold', RowSim, hstatus, hbody, hlatency, hrowbody, hsome]

/-- What a call writes: the row of its event, or nothing. -/
theorem Sim.persist (h : Sim overwritten s t) (r : Request) (response : CachedResponse)
    (latency : NNRat) (hit : Bool) :
    Sim (fun e => if r.eventId = e && !r.recordFails then false else overwritten e)
      (persist s r response latency hit) (persist t r response latency hit) := by
  rw [Dod.persist, Dod.persist]
  cases hfails : r.recordFails with
  | true =>
    rw [if_pos rfl, if_pos rfl]
    simpa using h
  | false =>
    rw [if_neg Bool.false_ne_true, if_neg Bool.false_ne_true]
    refine ⟨h.outcomes, fun e => ?_⟩
    by_cases he : r.eventId = e
    · subst he
      simpa using (h.rows r.eventId).record rfl rfl
    · have hrow := h.rows e
      simpa [he, AuditLog.record, Function.update_of_ne (Ne.symm he)] using hrow

/-- What a duplicate writes. -/
theorem Sim.persistHit (h : Sim overwritten s t) {r : Request} {cached : CachedResponse}
    (hcached : s.audit.cached r.eventId = some cached) :
    Sim (fun e => if r.eventId = e && !r.recordFails then true else overwritten e) s
      (Dod.persist t r cached 0 true) := by
  rw [Dod.persist]
  cases hfails : r.recordFails with
  | true =>
    rw [if_pos rfl]
    simpa using h
  | false =>
    rw [if_neg Bool.false_ne_true]
    refine ⟨h.outcomes, fun e => ?_⟩
    by_cases he : r.eventId = e
    · subst he
      simpa using (h.rows r.eventId).overwrite hcached rfl rfl rfl
    · have hrow := h.rows e
      simpa [he, AuditLog.record, Function.update_of_ne (Ne.symm he)] using hrow

/-- A step that both runs take. -/
theorem Sim.step (h : Sim overwritten s t) (op : Op) :
    Sim (fun e => if writes uuidInt t op e then false else overwritten e)
      (step uuidInt s op) (Dod.step uuidInt t op) := by
  cases op with
  | handle r =>
    simp only [Dod.step, handle, writes, h.lookup]
    cases hvalid : isUuid7 uuidInt r.eventId with
    | false => simpa using h
    | true =>
      cases hlookup : Dod.lookup s r with
      | some cached => simpa using h.persist r cached 0 true
      | none =>
        cases hresponse : r.response with
        | none => simpa using h
        | some response => simpa using h.persist r response r.latencyMs false
  | recordOutcome eventId stage outcome recordedAt now =>
    refine ⟨?_, h.rows⟩
    simp only [Dod.step, h.outcomes]
  | recordAck eventId ackBy ts createdAt =>
    simp only [Dod.step, writes]
    by_cases hack : ackBy = ""
    · simpa [hack] using h
    · rw [if_neg hack, if_neg hack]
      refine ⟨h.outcomes, fun e => ?_⟩
      by_cases he : e = eventId
      · subst he
        simp only [AuditLog.recordAck, Function.update_self]
        obtain ⟨ha, hb⟩ | ⟨old, old', ha, hb, hrow⟩ := (h.rows e).cases
        · simp [ha, hb, RowSim]
        · simpa [ha, hb, RowSim] using hrow
      · simpa [AuditLog.recordAck, Function.update_of_ne he] using h.rows e

/-- A duplicate, which only one of the runs takes. -/
theorem Sim.hit (h : Sim overwritten s t) {op : Op} (hop : IsHit uuidInt t op) :
    Sim (fun e => if writes uuidInt t op e then true else overwritten e) s
      (Dod.step uuidInt t op) := by
  cases op with
  | handle r =>
    obtain ⟨hvalid, hlookup⟩ := hop
    obtain ⟨cached, hlookup⟩ := Option.isSome_iff_exists.1 hlookup
    have hcached : s.audit.cached r.eventId = some cached := by
      rw [h.lookup, Dod.lookup] at hlookup
      split at hlookup
      · cases hlookup
      · exact hlookup
    simpa [Dod.step, handle, writes, hvalid, hlookup] using h.persistHit hcached
  | recordOutcome => exact hop.elim
  | recordAck => exact hop.elim

theorem runMarked_fst (ops : List (Bool × Op)) :
    (runMarked uuidInt ops).1 = run uuidInt (ops.map Prod.snd) := by
  induction ops using List.reverseRecOn with
  | nil => rfl
  | append_singleton ops op ih =>
    rw [runMarked, List.foldl_append, List.map_append, run, List.foldl_append]
    exact congrArg (Dod.step uuidInt · op.2) ih

/-- The run with the duplicates differs in the rows that they have written over. -/
theorem DuplicatedRun.sim (d : DuplicatedRun uuidInt) :
    Sim d.overwritten d.original d.duplicated := by
  obtain ⟨ops, inserted⟩ := d
  simp only [overwritten, original, duplicated]
  rw [← runMarked_fst ops]
  induction ops using List.reverseRecOn with
  | nil => exact ⟨rfl, fun _ => trivial⟩
  | append_singleton ops op ih =>
    have hbegins := ih fun before o after hops => inserted before o (after ++ [op]) (by
      rw [hops, List.append_assoc, List.cons_append])
    have hstep : runMarked uuidInt (ops ++ [op]) =
        stepMarked uuidInt (runMarked uuidInt ops) op := by
      rw [runMarked, List.foldl_append]
      rfl
    rw [hstep, stepMarked, List.filter_append, List.map_append, run, List.foldl_append]
    obtain ⟨mark, op⟩ := op
    cases mark with
    | true =>
      have hhit := inserted ops op [] rfl
      rw [← runMarked_fst] at hhit
      exact hbegins.hit hhit
    | false => exact hbegins.step op

end Simulation

/-! ## Latencies of a run -/

/-- No latency in the log is negative. -/
def NonNegative (audit : AuditLog) : Prop :=
  ∀ e row latency, audit e = some row → row.latencyMs = some latency → .ofRat 0 ≤ latency

theorem NonNegative.persist {s : State} (h : NonNegative s.audit) (r : Request)
    (response : CachedResponse) (latency : NNRat) (hit : Bool) :
    NonNegative (persist s r response latency hit).audit := by
  rw [Dod.persist]
  split
  · exact h
  · intro e row x hrow hx
    by_cases he : e = r.eventId
    · subst he
      cases hold : s.audit r.eventId with
      | none =>
        simp only [AuditLog.record, Function.update_self, hold] at hrow
        obtain rfl := Option.some.inj hrow
        obtain rfl := Option.some.inj hx
        exact SqlReal.ofRat_le_ofRat.2 latency.2
      | some old =>
        simp only [AuditLog.record, Function.update_self, hold] at hrow
        obtain rfl := Option.some.inj hrow
        obtain rfl := Option.some.inj hx
        exact SqlReal.ofRat_le_ofRat.2 latency.2
    · exact h e row x (by simpa [AuditLog.record, he] using hrow) hx

theorem NonNegative.recordAck {audit : AuditLog} (h : NonNegative audit)
    (eventId ackBy ts createdAt : String) :
    NonNegative (audit.recordAck eventId ackBy ts createdAt) := by
  intro e row x hrow hx
  by_cases he : e = eventId
  · subst he
    cases hold : audit e with
    | none =>
      simp only [AuditLog.recordAck, Function.update_self, hold] at hrow
      obtain rfl := Option.some.inj hrow
      cases hx
    | some old =>
      simp only [AuditLog.recordAck, Function.update_self, hold] at hrow
      obtain rfl := Option.some.inj hrow
      exact h e old x hold hx
  · exact h e row x (by simpa [AuditLog.recordAck, he] using hrow) hx

theorem NonNegative.step {s : State} (h : NonNegative s.audit) (op : Op) :
    NonNegative (step uuidInt s op).audit := by
  cases op with
  | handle r =>
    rw [Dod.step, handle]
    split
    · split
      · exact h.persist r _ 0 true
      · split
        · exact h
        · exact h.persist r _ r.latencyMs false
    · exact h
  | recordOutcome => exact h
  | recordAck eventId ackBy ts createdAt =>
    rw [Dod.step]
    split
    · exact h
    · exact h.recordAck eventId ackBy ts createdAt

theorem nonNegative_run (ops : List Op) : NonNegative (run uuidInt ops).audit := by
  induction ops using List.reverseRecOn with
  | nil => exact nofun
  | append_singleton ops op ih =>
    rw [run, List.foldl_append]
    exact ih.step uuidInt op

theorem timed_nonneg {s : State} (h : NonNegative s.audit) (stage sinceIso untilIso : String) :
    ∀ entry ∈ timed (auditRows s stage sinceIso untilIso), SqlReal.ofRat 0 ≤ entry.2 := by
  intro entry hentry
  obtain ⟨row, hrow, hentry⟩ := List.mem_filterMap.1 hentry
  obtain ⟨latency, hlatency, rfl⟩ := Option.map_eq_some_iff.1 hentry
  obtain ⟨outcome, -, hrow⟩ := List.mem_filterMap.1 hrow
  obtain ⟨auditRow, haudit, rfl⟩ := Option.map_eq_some_iff.1 hrow
  exact h _ _ _ haudit hlatency

/-! ## What the gate sees -/

section Gate

variable {overwritten : String → Bool} {s t : State}

/-- The row of a join after the duplicates. -/
def zeroed (overwritten : String → Bool) (row : JoinedRow) : JoinedRow :=
  { row with
    latencyMs := if overwritten row.eventId then row.latencyMs.map fun _ => .ofRat 0 else row.latencyMs }

theorem Sim.auditRows (h : Sim overwritten s t) (stage sinceIso untilIso : String) :
    auditRows t stage sinceIso untilIso =
      (Dod.auditRows s stage sinceIso untilIso).map (zeroed overwritten) := by
  rw [Dod.auditRows, Dod.auditRows, windowOutcomes, windowOutcomes, h.outcomes, List.map_filterMap]
  refine List.filterMap_congr fun row _ => ?_
  obtain ⟨ha, hb⟩ | ⟨old, old', ha, hb, hstatus, -, hlatency, -⟩ := (h.rows row.eventId).cases
  · simp [ha, hb]
  · simp [ha, hb, hstatus, hlatency, zeroed]

/-- The latency of an event after the duplicates. -/
def zeroedLatency (overwritten : String → Bool) (entry : String × SqlReal) : SqlReal :=
  if overwritten entry.1 then .ofRat 0 else entry.2

theorem filterMap_zeroed (rows : List JoinedRow) :
    (rows.map (zeroed overwritten)).filterMap JoinedRow.latencyMs =
      (timed rows).map (zeroedLatency overwritten) := by
  rw [List.filterMap_map, timed, List.map_filterMap]
  refine List.filterMap_congr fun row _ => ?_
  cases hlatency : row.latencyMs <;> cases hrow : overwritten row.eventId <;>
    simp [zeroed, zeroedLatency, hlatency, hrow]

theorem filterMap_latencyMs (rows : List JoinedRow) :
    rows.filterMap JoinedRow.latencyMs = (timed rows).map Prod.snd := by
  rw [timed, List.map_filterMap]
  refine List.filterMap_congr fun row _ => ?_
  cases row.latencyMs <;> rfl

/-- The 99th percentile of a sample. -/
def p99 (sample : List SqlReal) : SqlReal := quantile (sample.insertionSort (· ≤ ·)) (99 / 100)

/-- Of the metrics only the 99th percentile can change. -/
theorem metricsOf_zeroed_iff (splitReady : Bool) (rows : List JoinedRow)
    (outcomes : List OutcomeRecord) :
    metricsOf splitReady (rows.map (zeroed overwritten)) outcomes =
        metricsOf splitReady rows outcomes ↔
      p99 ((timed rows).map (zeroedLatency overwritten)) = p99 ((timed rows).map Prod.snd) := by
  have hcount : (rows.map (zeroed overwritten)).countP (fun row => 500 ≤ row.responseStatus) =
      rows.countP fun row => 500 ≤ row.responseStatus := by
    rw [List.countP_map]
    rfl
  simp only [metricsOf, List.length_map, hcount, filterMap_zeroed, filterMap_latencyMs rows,
    List.length_insertionSort]
  constructor
  · intro h
    simp only [List.cons.injEq, MetricResult.mk.injEq, true_and, and_true] at h
    exact h.1
  · intro h
    rw [p99, p99] at h
    rw [h]

theorem quantile_eq (sorted : List SqlReal) (q : ℚ) :
    quantile sorted q = sorted.getD (quantileIndex q sorted.length) (.ofRat 0) := by
  unfold quantile
  split
  · rfl
  · simp [quantileIndex]
  · rfl

/-- The percentile reaches a value if the slowest requests do. -/
theorem le_p99_iff {sample : List SqlReal} (hne : sample ≠ []) (x : SqlReal) :
    x ≤ p99 sample ↔ sample.length - quantileIndex (99 / 100) sample.length ≤
      sample.countP fun y => x ≤ y := by
  have hperm : (sample.insertionSort (· ≤ ·)).Perm sample := List.perm_insertionSort _ sample
  have hsorted : (sample.insertionSort (· ≤ ·)).Pairwise (· ≤ ·) :=
    List.pairwise_insertionSort _ sample
  have hpos : 0 < sample.length := List.length_pos_of_ne_nil hne
  have hindex : quantileIndex (99 / 100) sample.length <
      (sample.insertionSort (· ≤ ·)).length := by
    rw [hperm.length_eq, quantileIndex]
    omega
  rw [p99, quantile_eq, hperm.length_eq, List.getD_eq_getElem?_getD,
    List.getElem?_eq_getElem hindex, Option.getD_some,
    le_getElem_iff hsorted hindex, hperm.length_eq, hperm.countP_eq]

theorem p99_nonneg {sample : List SqlReal} (hsample : ∀ x ∈ sample, .ofRat 0 ≤ x) : .ofRat 0 ≤ p99 sample := by
  obtain rfl | hne := eq_or_ne sample []
  · exact le_rfl
  · rw [le_p99_iff hne, List.countP_eq_length.2 fun x hx => decide_eq_true (hsample x hx)]
    exact Nat.sub_le _ _

/-- The percentile stays if the slowest requests are not written over. -/
theorem p99_zeroed_iff {sample : List (String × SqlReal)} (hsample : ∀ entry ∈ sample, SqlReal.ofRat 0 ≤ entry.2) :
    p99 (sample.map (zeroedLatency overwritten)) = p99 (sample.map Prod.snd) ↔
      SlowestKept overwritten sample := by
  obtain rfl | hne := eq_or_ne sample []
  · exact iff_of_true rfl fun _ _ h => h
  have hnonneg : ∀ x ∈ sample.map Prod.snd, SqlReal.ofRat 0 ≤ x := by
    intro x hx
    obtain ⟨entry, hentry, rfl⟩ := List.mem_map.1 hx
    exact hsample entry hentry
  have hzeroedNonneg : ∀ x ∈ sample.map (zeroedLatency overwritten), SqlReal.ofRat 0 ≤ x := by
    intro x hx
    obtain ⟨entry, hentry, rfl⟩ := List.mem_map.1 hx
    rw [zeroedLatency]
    split
    · exact le_rfl
    · exact hsample entry hentry
  have hkept (x : SqlReal) (hx : SqlReal.ofRat 0 < x) : (sample.map (zeroedLatency overwritten)).countP
      (fun y => x ≤ y) = sample.countP fun entry => x ≤ entry.2 ∧ overwritten entry.1 = false := by
    rw [List.countP_map]
    refine List.countP_congr fun entry _ => ?_
    cases hentry : overwritten entry.1 <;> simp [zeroedLatency, hentry, hx]
  have hall (x : SqlReal) : (sample.map Prod.snd).countP (fun y => x ≤ y) =
      sample.countP fun entry => x ≤ entry.2 := by
    rw [List.countP_map]
    rfl
  have hzeroed (x : SqlReal) := @le_p99_iff (sample.map (zeroedLatency overwritten))
    (by simpa using hne) x
  have horiginal (x : SqlReal) := @le_p99_iff (sample.map Prod.snd) (by simpa using hne) x
  simp only [List.length_map] at hzeroed horiginal
  constructor
  · intro h x hx hslowest
    rw [← hkept x hx, ← hzeroed, h, horiginal, hall]
    exact hslowest
  · intro h
    refine le_antisymm ?_ ?_
    · obtain hzero | hpos := (p99_nonneg hzeroedNonneg).eq_or_lt
      · rw [← hzero]
        exact p99_nonneg hnonneg
      · have hreached := (hzeroed _).1 le_rfl
        rw [hkept _ hpos] at hreached
        rw [horiginal, hall]
        refine hreached.trans (List.countP_mono_left fun entry _ hentry => ?_)
        simp only [decide_eq_true_eq] at hentry ⊢
        exact hentry.1
    · obtain hzero | hpos := (p99_nonneg hnonneg).eq_or_lt
      · rw [← hzero]
        exact p99_nonneg hzeroedNonneg
      · have hreached := (horiginal _).1 le_rfl
        rw [hall] at hreached
        rw [hzeroed, hkept _ hpos]
        exact h _ hpos hreached

end Gate

/-- The duplicates move the gate exactly if they write over one of the slowest requests that the
99th percentile needs. -/
theorem computeDod_duplicated_iff (d : DuplicatedRun uuidInt) (splitReady : Bool) (stage : String)
    (windowDays until_ : Int) :
    computeDod splitReady d.duplicated stage windowDays until_ =
        computeDod splitReady d.original stage windowDays until_ ↔
      ∀ sinceIso untilIso, stage ∈ knownStages →
        resolveWindow windowDays until_ = .ok (sinceIso, untilIso) →
        SlowestKept d.overwritten (timed (auditRows d.original stage sinceIso untilIso)) := by
  rw [computeDod, computeDod]
  by_cases hstage : stage ∈ knownStages
  · rw [if_neg (not_not.2 hstage), if_neg (not_not.2 hstage)]
    cases hwindow : resolveWindow windowDays until_ with
    | error e => exact iff_of_true rfl fun _ _ _ h => nomatch h
    | ok window =>
      obtain ⟨sinceIso, untilIso⟩ := window
      have hoccurred : windowOutcomes d.duplicated stage sinceIso untilIso =
          windowOutcomes d.original stage sinceIso untilIso := by
        rw [windowOutcomes, windowOutcomes, d.sim.outcomes]
      dsimp only
      rw [hoccurred, d.sim.auditRows stage sinceIso untilIso]
      have hmetrics := @metricsOf_zeroed_iff d.overwritten splitReady
        (auditRows d.original stage sinceIso untilIso)
        (windowOutcomes d.original stage sinceIso untilIso)
      have hsample : ∀ entry ∈ timed (auditRows d.original stage sinceIso untilIso),
          SqlReal.ofRat 0 ≤ entry.2 := timed_nonneg (nonNegative_run uuidInt _) stage sinceIso untilIso
      rw [p99_zeroed_iff hsample] at hmetrics
      constructor
      · intro h sinceIso' untilIso' _ hok
        cases hok
        exact hmetrics.1 (congrArg DodReport.metrics (Except.ok.inj h))
      · intro h
        rw [hmetrics.2 (h sinceIso untilIso hstage rfl)]
  · rw [if_pos hstage, if_pos hstage]
    exact iff_of_true rfl fun _ _ h => absurd h hstage

/-- A slow request. -/
def slowRequest : Request where
  eventId := "01890a5d-ac96-774b-bcce-b302099a8057"
  requestAt := "2026-05-01T12:00:00.000000+00:00"
  createdAt := "2026-05-01T12:00:00.000Z"
  latencyMs := 250
  response := some ⟨200, "done"⟩
  lookupFails := false
  recordFails := false

/-- `uuid.UUID(value).int` of its id. -/
def slowUuidInt (value : String) : Option Nat :=
  if value = slowRequest.eventId then some 0x01890a5dac96774bbcceb302099a8057 else none

/-- The slow request, its outcome and a duplicate of the request. -/
def repeatedSlow : DuplicatedRun slowUuidInt where
  ops :=
    [(false, .handle slowRequest),
      (false, .recordOutcome slowRequest.eventId "m4_1pct" "ok" none "2026-05-01T12:00:00.100Z"),
      (true, .handle slowRequest)]
  inserted := by
    intro before op after h
    match before with
    | [] => cases h
    | [_] => cases h
    | [_, _] =>
      cases h
      exact ⟨by decide +kernel, by decide +kernel⟩
    | _ :: _ :: _ :: rest =>
      have hlength := congrArg List.length h
      simp only [List.cons_append, List.length_cons, List.length_append, List.length_nil] at hlength
      omega

theorem repeatedSlow_moves : computeDod true repeatedSlow.duplicated "m4_1pct" 7 1778000000000000 ≠
    computeDod true repeatedSlow.original "m4_1pct" 7 1778000000000000 := by
  decide +kernel

end ParallaxKernel.Canary.Dod
