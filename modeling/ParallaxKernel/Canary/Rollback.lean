import Mathlib.Data.List.Induction
import ParallaxKernel.Canary.Triggers

/-!
# The rollback controller

`RollbackController` of `canary/rollback.py`. Its mutex makes each call one step, so a run is a
list of calls. A transition returns the row that `_persist_state` hands to the state store. The
main result relates every transition of a run to what was really observed before it.
-/

namespace ParallaxKernel.Canary

open Lib

inductive CanaryState where
  | running
  | tripped
  | awaitingAck
  deriving DecidableEq

def CanaryState.value : CanaryState → String
  | .running => "running"
  | .tripped => "tripped"
  | .awaitingAck => "awaiting_ack"

/-- The arguments of `_persist_state`. -/
structure StateRow where
  state : CanaryState
  trippedBy : Option String
  deriving DecidableEq

structure RollbackController where
  cooldown : ℚ
  t1 : SlidingWindow
  t2 : SlidingWindow
  t3 : SlidingWindow
  t4 : Nat
  t5 : SlidingWindow
  state : CanaryState
  trippedAt : Option ℚ
  trippedBy : Option String
  lastEvaluations : List TriggerEvaluation
  lastGateEvaluation : TriggerEvaluation
  lastAckBy : Option String
  lastAckAt : Option String

/-- `COOLDOWN_SECONDS`. -/
def cooldownSeconds : ℚ := 30 * 60

namespace RollbackController

/-- `RollbackController.__init__`, at the clock reading `now`. -/
def new (cooldown now : ℚ) : RollbackController where
  cooldown := cooldown
  t1 := .new windowT1Seconds
  t2 := .new windowT2Seconds
  t3 := .new windowT3Seconds
  t4 := 0
  t5 := .new windowT5Seconds
  state := .running
  trippedAt := none
  trippedBy := none
  lastEvaluations := []
  lastGateEvaluation := (evaluateT5 (.new windowT5Seconds) now).1
  lastAckBy := none
  lastAckAt := none

def observeRequest (c : RollbackController) (isError : Bool) (latencyMs : ℚ) (isMismatch : Bool)
    (now : ℚ) : RollbackController :=
  { c with
    t1 := c.t1.add now (indicator isError)
    t2 := c.t2.add now (indicator isMismatch)
    t3 := c.t3.add now latencyMs
    t5 := c.t5.add now 1 }

/-- A negative count raises before anything is recorded. -/
def observeDataLoss (c : RollbackController) (count : Int) : RollbackController :=
  match recordT4 c.t4 count with
  | some total => { c with t4 := total }
  | none => c

/-- An active gate downgrades every verdict. -/
def downgrade (gateActive : Bool) (ev : TriggerEvaluation) : TriggerEvaluation :=
  if gateActive then { ev with verdict := .insufficientData } else ev

def evaluateTriggers (c : RollbackController) (ts : ℚ) (gateActive : Bool) :
    List TriggerEvaluation × RollbackController :=
  let (ev1, t1) := evaluateT1 c.t1 ts
  let (ev2, t2) := evaluateT2 c.t2 ts
  let (ev3, t3) := evaluateT3 c.t3 ts
  let ev4 := evaluateT4 c.t4
  ([ev1, ev2, ev3, ev4].map (downgrade gateActive), { c with t1 := t1, t2 := t2, t3 := t3 })

def firstBreach (evaluations : List TriggerEvaluation) : Option TriggerEvaluation :=
  evaluations.find? fun ev => ev.verdict = .breach

def trip (c : RollbackController) (ts : ℚ) (breach : TriggerEvaluation) :
    RollbackController × Option StateRow :=
  ({ c with state := .tripped, trippedAt := some ts, trippedBy := some breach.triggerId },
    some ⟨.tripped, some breach.triggerId⟩)

/-- The cooldown has passed since the trip. -/
def cooledDown (c : RollbackController) (ts : ℚ) : Bool :=
  c.trippedAt.any fun trippedAt => decide (c.cooldown ≤ ts - trippedAt)

/-- What `evaluate` does once the triggers are evaluated. -/
def transition (c : RollbackController) (ts : ℚ) : RollbackController × Option StateRow :=
  match c.state with
  | .running =>
    match firstBreach c.lastEvaluations with
    | some breach => c.trip ts breach
    | none => (c, none)
  | .tripped =>
    if c.cooledDown ts then
      ({ c with state := .awaitingAck }, some ⟨.awaitingAck, c.trippedBy⟩)
    else (c, none)
  | .awaitingAck => (c, none)

/-- The first half of `evaluate`: the gate, then the triggers. -/
def evaluated (c : RollbackController) (ts : ℚ) : RollbackController :=
  let (gate, t5) := evaluateT5 c.t5 ts
  let gateActive := gate.verdict = .insufficientData
  let (evaluations, c) := evaluateTriggers { c with t5 := t5 } ts gateActive
  { c with lastEvaluations := evaluations, lastGateEvaluation := gate }

def evaluate (c : RollbackController) (ts : ℚ) : RollbackController × Option StateRow :=
  (c.evaluated ts).transition ts

/-- `acknowledge`, with the time of the wall clock for a missing `ack_at`: whether it did
anything. -/
def acknowledge (c : RollbackController) (ackBy : String) (ackAt : Option String)
    (wallClock : String) : Bool × RollbackController × Option StateRow :=
  if ackBy = "" then (false, c, none)
  else
    let resolvedAt := (ackAt.filter (· ≠ "")).getD wallClock
    if c.state ≠ .awaitingAck then (false, c, none)
    else
      (true,
        { c with
          state := .running
          trippedAt := none
          trippedBy := none
          lastAckBy := some ackBy
          lastAckAt := some resolvedAt
          t1 := c.t1.reset
          t2 := c.t2.reset
          t3 := c.t3.reset
          t4 := 0 },
        some ⟨.running, none⟩)

end RollbackController

/-! ## Runs -/

inductive Call where
  | observeRequest (isError : Bool) (latencyMs : ℚ) (isMismatch : Bool) (now : ℚ)
  | observeDataLoss (count : Int)
  | evaluate (now : ℚ)
  | acknowledge (ackBy : String) (ackAt : Option String) (wallClock : String)

/-- The reading of the monotonic clock that a call uses. -/
def Call.clock : Call → Option ℚ
  | .observeRequest _ _ _ now | .evaluate now => some now
  | .observeDataLoss _ | .acknowledge .. => none

/-- The controller after a call and the row it persists. -/
def RollbackController.call (c : RollbackController) : Call → RollbackController × Option StateRow
  | .observeRequest isError latencyMs isMismatch now =>
    (c.observeRequest isError latencyMs isMismatch now, none)
  | .observeDataLoss count => (c.observeDataLoss count, none)
  | .evaluate now => c.evaluate now
  | .acknowledge ackBy ackAt wallClock => (c.acknowledge ackBy ackAt wallClock).2

/-- The call is an acknowledgement that succeeds. -/
def RollbackController.acknowledges (c : RollbackController) : Call → Bool
  | .acknowledge ackBy ackAt wallClock => (c.acknowledge ackBy ackAt wallClock).1
  | _ => false

/-- A run so far: the controller, all its calls, those since the last acknowledgement, and the
clock reading at which it last tripped. -/
structure Run where
  controller : RollbackController
  calls : List Call
  sinceAck : List Call
  lastTrip : Option ℚ

def Run.start (cooldown now : ℚ) : Run := ⟨.new cooldown now, [], [], none⟩

def Run.step (r : Run) (call : Call) : Run where
  controller := (r.controller.call call).1
  calls := r.calls ++ [call]
  sinceAck := if r.controller.acknowledges call then [] else r.sinceAck ++ [call]
  lastTrip :=
    if r.controller.state = .running ∧ (r.controller.call call).1.state ≠ .running then call.clock
    else r.lastTrip

def Run.after (cooldown now : ℚ) (calls : List Call) : Run :=
  calls.foldl Run.step (.start cooldown now)

def clocks (calls : List Call) : List ℚ := calls.filterMap Call.clock

/-- The clock readings of a run do not decrease. -/
def Monotonic (calls : List Call) : Prop := (clocks calls).Pairwise (· ≤ ·)

/-! ## What was observed -/

/-- A request as it was observed. -/
structure Request where
  isError : Bool
  latencyMs : ℚ
  isMismatch : Bool

def Call.request : Call → Option (ℚ × Request)
  | .observeRequest isError latencyMs isMismatch now => some (now, ⟨isError, latencyMs, isMismatch⟩)
  | _ => none

/-- The requests of a run, with their times. -/
def requests (calls : List Call) : List (ℚ × Request) := calls.filterMap Call.request

/-- The requests of the last `seconds`. -/
def recent (seconds now : ℚ) (calls : List Call) : List Request :=
  (since (now - seconds) (requests calls)).map (·.2)

/-- The data losses that a call counts. -/
def Call.losses : Call → Nat
  | .observeDataLoss count => count.toNat
  | _ => 0

def losses (calls : List Call) : Nat := (calls.map Call.losses).sum

/-- At least half a percent of a non-empty sample. -/
def RateReached (sample : List Request) (p : Request → Bool) : Prop :=
  0 < sample.length ∧ (5 / 1000 : ℚ) ≤ (sample.countP p : ℚ) / sample.length

/-- A condition of T1 to T4 holds at the time `now`. -/
def Breached (calls : List Call) (now : ℚ) : Prop :=
  RateReached (recent 300 now calls) (·.isError) ∨
  RateReached (recent 180 now calls) (·.isMismatch) ∨
  (∃ p99, IsNearestRank (99 / 100) ((recent 300 now calls).map (·.latencyMs)) p99 ∧ 100 ≤ p99) ∨
  0 < losses calls

/-! ## The windows of a run -/

/-- The window holds what matters of the log, whose times are among the clock readings so far. -/
structure Follows (w : SlidingWindow) (seconds : ℚ) (log : List (ℚ × ℚ)) (readings : List ℚ) :
    Prop where
  width : w.windowSeconds = seconds
  times : ∀ e ∈ log, e.1 ∈ readings
  tracks : ∀ last, (∀ t ∈ readings, t ≤ last) → Tracks (last - seconds) w.data log

namespace Follows

variable {w : SlidingWindow} {seconds now : ℚ} {log : List (ℚ × ℚ)} {readings : List ℚ}

theorem new (seconds : ℚ) : Follows (.new seconds) seconds [] [] :=
  ⟨rfl, by simp, fun _ _ => .empty _⟩

theorem mono (h : Follows w seconds log readings) {readings' : List ℚ}
    (hsub : readings ⊆ readings') : Follows w seconds log readings' :=
  ⟨h.width, fun e he => hsub (h.times e he), fun last hlast =>
    h.tracks last fun t ht => hlast t (hsub ht)⟩

theorem add (h : Follows w seconds log readings) (hnow : ∀ t ∈ readings, t ≤ now) (value : ℚ) :
    Follows (w.add now value) seconds (log ++ [(now, value)]) (readings ++ [now]) := by
  refine ⟨h.width, fun e he => ?_, fun last hlast => ?_⟩
  · rcases List.mem_append.1 he with he | he
    · exact List.mem_append_left _ (h.times e he)
    · simp [List.mem_singleton.1 he]
  · have hle : now - seconds ≤ last - seconds := sub_le_sub_right (hlast now (by simp)) _
    exact ((h.tracks now hnow).push fun e he => hnow _ (h.times e he)).mono hle

theorem evicted_data (h : Follows w seconds log readings) (hnow : ∀ t ∈ readings, t ≤ now) :
    (w.evicted now).data = since (now - seconds) log := by
  rw [SlidingWindow.evicted, h.width]
  exact (h.tracks now hnow).evict_queue le_rfl

theorem evicted (h : Follows w seconds log readings) (hnow : ∀ t ∈ readings, t ≤ now) :
    Follows (w.evicted now) seconds log (readings ++ [now]) := by
  refine ⟨h.width, fun e he => List.mem_append_left _ (h.times e he), fun last hlast => ?_⟩
  have hle : now - seconds ≤ last - seconds := sub_le_sub_right (hlast now (by simp)) _
  rw [SlidingWindow.evicted, h.width]
  exact ((h.tracks now hnow).evict le_rfl).mono hle

theorem reset (h : Follows w seconds log readings) : Follows w.reset seconds [] readings :=
  ⟨h.width, by simp, fun _ _ => .empty _⟩

end Follows

/-- The log that a window keeps of some calls: a value of each request. -/
def logOf (value : Request → ℚ) (calls : List Call) : List (ℚ × ℚ) :=
  (requests calls).map fun r => (r.1, value r.2)

theorem logOf_append (value : Request → ℚ) (calls calls' : List Call) :
    logOf value (calls ++ calls') = logOf value calls ++ logOf value calls' := by
  simp [logOf, requests]

theorem clocks_append (calls calls' : List Call) :
    clocks (calls ++ calls') = clocks calls ++ clocks calls' :=
  List.filterMap_append ..

theorem losses_snoc (calls : List Call) (call : Call) :
    losses (calls ++ [call]) = losses calls + call.losses := by
  simp [losses]

/-- The part of a window's log that lies in the window. -/
theorem since_logOf (value : Request → ℚ) (seconds now : ℚ) (calls : List Call) :
    (since (now - seconds) (logOf value calls)).map (·.2) =
      (recent seconds now calls).map value := by
  simp only [since, logOf, recent, List.filter_map, List.map_map]
  rfl

/-- The controller remembers when it tripped until it runs again. -/
def Run.TripKept (r : Run) : Prop :=
  r.controller.state ≠ .running → r.controller.trippedAt = r.lastTrip

/-- What ties the controller to what was observed. -/
structure Run.Faithful (cooldown : ℚ) (r : Run) : Prop where
  cooldown : r.controller.cooldown = cooldown
  t1 : Follows r.controller.t1 300 (logOf (fun q => indicator q.isError) r.sinceAck)
    (clocks r.calls)
  t2 : Follows r.controller.t2 180 (logOf (fun q => indicator q.isMismatch) r.sinceAck)
    (clocks r.calls)
  t3 : Follows r.controller.t3 300 (logOf Request.latencyMs r.sinceAck) (clocks r.calls)
  t4 : r.controller.t4 = losses r.sinceAck
  t5 : Follows r.controller.t5 300 (logOf (fun _ => 1) r.calls) (clocks r.calls)
  trip : r.TripKept

theorem Run.Faithful.start (cooldown now : ℚ) : (Run.start cooldown now).Faithful cooldown where
  cooldown := rfl
  t1 := .new _
  t2 := .new _
  t3 := .new _
  t4 := rfl
  t5 := .new _
  trip h := absurd rfl h

/-! ## Steps -/

namespace RollbackController

variable (c : RollbackController) (now : ℚ)

@[simp] theorem evaluated_state : (c.evaluated now).state = c.state := rfl
@[simp] theorem evaluated_cooldown : (c.evaluated now).cooldown = c.cooldown := rfl
@[simp] theorem evaluated_trippedAt : (c.evaluated now).trippedAt = c.trippedAt := rfl
@[simp] theorem evaluated_trippedBy : (c.evaluated now).trippedBy = c.trippedBy := rfl
@[simp] theorem evaluated_cooledDown (ts : ℚ) :
    (c.evaluated now).cooledDown ts = c.cooledDown ts := rfl
@[simp] theorem evaluated_t1 : (c.evaluated now).t1 = c.t1.evicted now := rfl
@[simp] theorem evaluated_t2 : (c.evaluated now).t2 = c.t2.evicted now := rfl
@[simp] theorem evaluated_t3 : (c.evaluated now).t3 = c.t3.evicted now := rfl
@[simp] theorem evaluated_t4 : (c.evaluated now).t4 = c.t4 := rfl
@[simp] theorem evaluated_t5 : (c.evaluated now).t5 = c.t5.evicted now := rfl

/-- The gate passes and a trigger breaches. -/
def BreachFound : Prop :=
  t5MinHits ≤ (c.t5.evicted now).data.length ∧
    ((evaluateT1 c.t1 now).1.verdict = .breach ∨ (evaluateT2 c.t2 now).1.verdict = .breach ∨
      (evaluateT3 c.t3 now).1.verdict = .breach ∨ (evaluateT4 c.t4).verdict = .breach)

theorem firstBreach_evaluated :
    (firstBreach (c.evaluated now).lastEvaluations).isSome = true ↔ c.BreachFound now := by
  rw [BreachFound, ← evaluateT5_pass]
  simp only [evaluated, evaluateTriggers, firstBreach]
  by_cases hgate : (evaluateT5 c.t5 now).1.verdict = .insufficientData
  · simp [hgate, downgrade]
  · simp [hgate, downgrade]

/-- What `transition` can do. -/
theorem transition_cases :
    (c.transition now = (c, none)) ∨
    (∃ breach, c.state = .running ∧ firstBreach c.lastEvaluations = some breach ∧
      c.transition now = c.trip now breach) ∨
    (c.state = .tripped ∧ c.cooledDown now = true ∧
      c.transition now =
        ({ c with state := .awaitingAck }, some ⟨.awaitingAck, c.trippedBy⟩)) := by
  unfold transition
  cases hstate : c.state with
  | running =>
    cases hbreach : firstBreach c.lastEvaluations with
    | none => exact .inl rfl
    | some breach => exact .inr (.inl ⟨breach, rfl, rfl, rfl⟩)
  | tripped =>
    by_cases hcool : c.cooledDown now = true
    · exact .inr (.inr ⟨rfl, hcool, by simp [hcool]⟩)
    · exact .inl (by simp [hcool])
  | awaitingAck => exact .inl rfl

/-- `evaluate` leaves `RUNNING` for `TRIPPED`, at a breach and only then. -/
theorem evaluate_running (hstate : c.state = .running) :
    ((c.evaluate now).1.state = .tripped ∧ c.BreachFound now) ∨
      ((c.evaluate now).1.state = .running ∧ ¬ c.BreachFound now) := by
  rw [← firstBreach_evaluated]
  simp only [evaluate, transition, evaluated_state, hstate]
  cases hbreach : firstBreach (c.evaluated now).lastEvaluations with
  | none => exact .inr ⟨hstate, by simp⟩
  | some breach => exact .inl ⟨rfl, rfl⟩

theorem evaluate_tripped (hstate : c.state = .tripped) :
    ((c.evaluate now).1.state = .awaitingAck ∧ c.cooledDown now = true) ∨
      (c.evaluate now).1.state = .tripped := by
  simp only [evaluate, transition, evaluated_state, hstate]
  by_cases hcool : (c.evaluated now).cooledDown now = true
  · exact .inl ⟨by simp [hcool], hcool⟩
  · exact .inr (by simp [hcool, hstate])

theorem evaluate_awaitingAck (hstate : c.state = .awaitingAck) :
    (c.evaluate now).1.state = .awaitingAck := by
  simp [evaluate, transition, hstate]

/-- `evaluate` evicts from the windows and touches nothing else that triggers look at. -/
theorem evaluate_windows :
    (c.evaluate now).1.cooldown = c.cooldown ∧ (c.evaluate now).1.t1 = c.t1.evicted now ∧
      (c.evaluate now).1.t2 = c.t2.evicted now ∧ (c.evaluate now).1.t3 = c.t3.evicted now ∧
      (c.evaluate now).1.t4 = c.t4 ∧ (c.evaluate now).1.t5 = c.t5.evicted now := by
  unfold evaluate
  obtain h | ⟨breach, -, -, h⟩ | ⟨-, -, h⟩ := (c.evaluated now).transition_cases now
  all_goals
    rw [h]
    exact ⟨rfl, rfl, rfl, rfl, rfl, rfl⟩

/-- When it tripped is set at the trip and kept until the acknowledgement. -/
theorem evaluate_trippedAt (hrun : (c.evaluate now).1.state ≠ .running) :
    (c.evaluate now).1.trippedAt = if c.state = .running then some now else c.trippedAt := by
  unfold evaluate at hrun ⊢
  obtain h | ⟨breach, hstate, -, h⟩ | ⟨hstate, -, h⟩ := (c.evaluated now).transition_cases now
  · rw [h] at hrun ⊢
    exact (if_neg hrun).symm
  · rw [h]
    exact (if_pos hstate).symm
  · rw [h, if_neg]
    · rfl
    · intro hrunning
      exact nomatch hstate.symm.trans hrunning

theorem acknowledge_cases (ackBy : String) (ackAt : Option String) (wallClock : String) :
    c.acknowledge ackBy ackAt wallClock = (false, c, none) ∨
    (ackBy ≠ "" ∧ c.state = .awaitingAck ∧ ∃ c', c.acknowledge ackBy ackAt wallClock =
      (true, c', some ⟨.running, none⟩) ∧ c'.state = .running ∧ c'.cooldown = c.cooldown ∧
      c'.t1 = c.t1.reset ∧ c'.t2 = c.t2.reset ∧ c'.t3 = c.t3.reset ∧ c'.t4 = 0 ∧
      c'.t5 = c.t5) := by
  unfold acknowledge
  by_cases hby : ackBy = ""
  · exact .inl (if_pos hby)
  · by_cases hstate : c.state = .awaitingAck
    · rw [if_neg hby, if_neg (not_not.2 hstate)]
      exact .inr ⟨hby, hstate, _, rfl, rfl, rfl, rfl, rfl, rfl, rfl, rfl⟩
    · exact .inl (by simp [hstate])

end RollbackController

theorem le_of_monotonic {calls : List Call} {call : Call} {now : ℚ}
    (h : Monotonic (calls ++ [call])) (hclock : call.clock = some now) :
    ∀ t ∈ clocks calls, t ≤ now := by
  intro t ht
  rw [Monotonic, clocks_append] at h
  exact (List.pairwise_append.1 h).2.2 t ht now (by simp [clocks, hclock])

theorem clocks_subset (calls : List Call) (call : Call) :
    clocks calls ⊆ clocks (calls ++ [call]) := by
  rw [clocks_append]
  exact List.subset_append_left ..

theorem logOf_unobserved (value : Request → ℚ) (calls : List Call) {call : Call}
    (h : call.request = none) : logOf value (calls ++ [call]) = logOf value calls := by
  simp [logOf, requests, h]

namespace Follows

variable {w : SlidingWindow} {seconds now : ℚ} {value : Request → ℚ} {calls all : List Call}

/-- A request goes into the window as it goes into the log. -/
theorem observed (h : Follows w seconds (logOf value calls) (clocks all))
    (hnow : ∀ t ∈ clocks all, t ≤ now) (q : Request) :
    Follows (w.add now (value q)) seconds
      (logOf value (calls ++ [.observeRequest q.isError q.latencyMs q.isMismatch now]))
      (clocks (all ++ [.observeRequest q.isError q.latencyMs q.isMismatch now])) := by
  rw [logOf_append, clocks_append]
  exact h.add hnow _

theorem evaluated (h : Follows w seconds (logOf value calls) (clocks all))
    (hnow : ∀ t ∈ clocks all, t ≤ now) :
    Follows (w.evicted now) seconds (logOf value (calls ++ [.evaluate now]))
      (clocks (all ++ [.evaluate now])) := by
  rw [logOf_unobserved value calls rfl, clocks_append]
  exact h.evicted hnow

/-- A call that observes no request leaves a window as it is. -/
theorem unobserved (h : Follows w seconds (logOf value calls) (clocks all)) (call : Call)
    (hcall : call.request = none) :
    Follows w seconds (logOf value (calls ++ [call])) (clocks (all ++ [call])) := by
  rw [logOf_unobserved value calls hcall]
  exact h.mono (clocks_subset all call)

end Follows

theorem Run.TripKept.step {r : Run} (h : r.TripKept) (call : Call) : (r.step call).TripKept := by
  have hkept (hsame : (r.controller.call call).1.state = r.controller.state)
      (htripped : (r.controller.call call).1.trippedAt = r.controller.trippedAt) :
      (r.step call).TripKept := by
    intro hstate
    have hlast : (r.step call).lastTrip = r.lastTrip :=
      if_neg fun hand => hand.2 (hsame.trans hand.1)
    rw [hlast, ← h fun hrun => hstate (hsame.trans hrun)]
    exact htripped
  cases call with
  | observeRequest isError latencyMs isMismatch now => exact hkept rfl rfl
  | observeDataLoss count =>
    apply hkept <;>
      · simp only [RollbackController.call, RollbackController.observeDataLoss]
        cases recordT4 r.controller.t4 count <;> rfl
  | evaluate now =>
    intro hstate
    refine (r.controller.evaluate_trippedAt now hstate).trans ?_
    by_cases hrunning : r.controller.state = .running
    · rw [if_pos hrunning]
      exact (if_pos ⟨hrunning, hstate⟩).symm
    · rw [if_neg hrunning, h hrunning]
      exact (if_neg fun hand => hrunning hand.1).symm
  | acknowledge ackBy ackAt wallClock =>
    obtain hrefused | ⟨-, -, c', hack, hstate', -⟩ :=
      r.controller.acknowledge_cases ackBy ackAt wallClock
    · exact hkept (by rw [RollbackController.call, hrefused])
        (by rw [RollbackController.call, hrefused])
    · intro hne
      refine absurd ?_ hne
      simpa only [Run.step, RollbackController.call, hack] using hstate'

/-- Each call keeps the windows true to what was observed. -/
theorem Run.Faithful.step {cooldown : ℚ} {r : Run} (h : r.Faithful cooldown) {call : Call}
    (hclock : Monotonic (r.calls ++ [call])) : (r.step call).Faithful cooldown := by
  cases call with
  | observeRequest isError latencyMs isMismatch now =>
    have hnow := le_of_monotonic hclock rfl
    refine ⟨h.cooldown, h.t1.observed hnow ⟨isError, latencyMs, isMismatch⟩,
      h.t2.observed hnow ⟨isError, latencyMs, isMismatch⟩,
      h.t3.observed hnow ⟨isError, latencyMs, isMismatch⟩, ?_,
      h.t5.observed hnow ⟨isError, latencyMs, isMismatch⟩, h.trip.step _⟩
    exact h.t4.trans
      (losses_snoc r.sinceAck (.observeRequest isError latencyMs isMismatch now)).symm
  | observeDataLoss count =>
    have hcontroller : (r.step (.observeDataLoss count)).controller =
        { r.controller with t4 := r.controller.t4 + count.toNat } := by
      simp only [Run.step, RollbackController.call, RollbackController.observeDataLoss, recordT4]
      by_cases hneg : count < 0
      · have hzero : count.toNat = 0 := by omega
        simp [hneg, hzero]
      · simp [hneg]
    refine ⟨?_, ?_, ?_, ?_, ?_, ?_, h.trip.step _⟩
    all_goals rw [hcontroller]
    · exact h.cooldown
    · exact h.t1.unobserved (.observeDataLoss count) rfl
    · exact h.t2.unobserved (.observeDataLoss count) rfl
    · exact h.t3.unobserved (.observeDataLoss count) rfl
    · exact (congrArg (· + count.toNat) h.t4).trans
        (losses_snoc r.sinceAck (.observeDataLoss count)).symm
    · exact h.t5.unobserved (.observeDataLoss count) rfl
  | evaluate now =>
    have hnow := le_of_monotonic hclock rfl
    obtain ⟨hcooldown, h1, h2, h3, h4, h5⟩ := r.controller.evaluate_windows now
    refine ⟨hcooldown.trans h.cooldown, h1 ▸ h.t1.evaluated hnow, h2 ▸ h.t2.evaluated hnow,
      h3 ▸ h.t3.evaluated hnow, ?_, h5 ▸ h.t5.evaluated hnow, h.trip.step _⟩
    exact (h4.trans h.t4).trans (losses_snoc r.sinceAck (.evaluate now)).symm
  | acknowledge ackBy ackAt wallClock =>
    have hsub := clocks_subset r.calls (.acknowledge ackBy ackAt wallClock)
    obtain hrefused | ⟨hby, hstate, c', hack, hstate', hcooldown, h1, h2, h3, h4, h5⟩ :=
      r.controller.acknowledge_cases ackBy ackAt wallClock
    · have hstep : r.step (.acknowledge ackBy ackAt wallClock) =
          ⟨r.controller, r.calls ++ [.acknowledge ackBy ackAt wallClock],
            r.sinceAck ++ [.acknowledge ackBy ackAt wallClock], r.lastTrip⟩ := by
        simp [Run.step, RollbackController.call, RollbackController.acknowledges, hrefused]
      rw [hstep]
      exact ⟨h.cooldown, h.t1.unobserved _ rfl, h.t2.unobserved _ rfl, h.t3.unobserved _ rfl,
        h.t4.trans (losses_snoc r.sinceAck (.acknowledge ackBy ackAt wallClock)).symm,
        h.t5.unobserved _ rfl, h.trip⟩
    · have hstep : r.step (.acknowledge ackBy ackAt wallClock) =
          ⟨c', r.calls ++ [.acknowledge ackBy ackAt wallClock], [], r.lastTrip⟩ := by
        simp [Run.step, RollbackController.call, RollbackController.acknowledges, hack, hstate]
      rw [hstep]
      exact ⟨hcooldown.trans h.cooldown, h1 ▸ h.t1.reset.mono hsub, h2 ▸ h.t2.reset.mono hsub,
        h3 ▸ h.t3.reset.mono hsub, h4, h5 ▸ h.t5.unobserved _ rfl, fun hne => absurd hstate' hne⟩

theorem Run.after_snoc (cooldown start : ℚ) (calls : List Call) (call : Call) :
    Run.after cooldown start (calls ++ [call]) = (Run.after cooldown start calls).step call := by
  simp [Run.after]

theorem Run.after_calls (cooldown start : ℚ) (calls : List Call) :
    (Run.after cooldown start calls).calls = calls := by
  induction calls using List.reverseRecOn with
  | nil => rfl
  | append_singleton calls call ih => rw [Run.after_snoc, Run.step, ih]

theorem Monotonic.init {calls : List Call} {call : Call} (h : Monotonic (calls ++ [call])) :
    Monotonic calls := by
  rw [Monotonic, clocks_append] at h
  exact (List.pairwise_append.1 h).1

theorem Run.faithful (cooldown start : ℚ) {calls : List Call} (h : Monotonic calls) :
    (Run.after cooldown start calls).Faithful cooldown := by
  induction calls using List.reverseRecOn with
  | nil => exact .start cooldown start
  | append_singleton calls call ih =>
    rw [Run.after_snoc]
    exact (ih h.init).step (by rwa [Run.after_calls])

/-! ## Safety -/

theorem RateReached.iff_mean {sample : List Request} {p : Request → Bool} :
    RateReached sample p ↔ 0 < sample.length ∧
      (5 / 1000 : ℚ) ≤ (sample.map fun q => indicator (p q)).sum / sample.length := by
  rw [RateReached, sum_indicator]

/-- What the controller finds in its windows is what really holds. -/
theorem Run.Faithful.breachFound {cooldown now : ℚ} {r : Run} (h : r.Faithful cooldown)
    (hnow : ∀ t ∈ clocks r.calls, t ≤ now) :
    r.controller.BreachFound now ↔
      50 ≤ (recent 300 now r.calls).length ∧ Breached r.sinceAck now := by
  have hlen {w : SlidingWindow} {seconds : ℚ} {value : Request → ℚ} {calls : List Call}
      (hw : Follows w seconds (logOf value calls) (clocks r.calls)) :
      (w.evicted now).data.length = (recent seconds now calls).length := by
    rw [hw.evicted_data hnow, ← List.length_map (f := Prod.snd), since_logOf, List.length_map]
  have hvalues {w : SlidingWindow} {seconds : ℚ} {value : Request → ℚ} {calls : List Call}
      (hw : Follows w seconds (logOf value calls) (clocks r.calls)) :
      (w.evicted now).data.map (·.2) = (recent seconds now calls).map value := by
    rw [hw.evicted_data hnow, since_logOf]
  have h1 : (evaluateT1 r.controller.t1 now).1.verdict = .breach ↔
      RateReached (recent 300 now r.sinceAck) (·.isError) := by
    rw [evaluateT1, evaluateRate_breach, RateReached.iff_mean, hlen h.t1, hvalues h.t1, t1Threshold]
  have h2 : (evaluateT2 r.controller.t2 now).1.verdict = .breach ↔
      RateReached (recent 180 now r.sinceAck) (·.isMismatch) := by
    rw [evaluateT2, evaluateRate_breach, RateReached.iff_mean, hlen h.t2, hvalues h.t2, t2Threshold]
  have h3 : (evaluateT3 r.controller.t3 now).1.verdict = .breach ↔
      ∃ p99, IsNearestRank (99 / 100) ((recent 300 now r.sinceAck).map (·.latencyMs)) p99 ∧
        100 ≤ p99 := by
    rw [evaluateT3_breach, hvalues h.t3, t3ThresholdMs]
  rw [RollbackController.BreachFound, h1, h2, h3, evaluateT4_breach, hlen h.t5, h.t4]
  rfl

/-- Only an evaluation changes the state, or an acknowledgement after the cooldown. -/
theorem RollbackController.call_state (c : RollbackController) (call : Call) :
    (c.call call).1.state = c.state ∨ (∃ now, call = .evaluate now) ∨
    ∃ ackBy ackAt wallClock, call = .acknowledge ackBy ackAt wallClock ∧ ackBy ≠ "" ∧
      c.state = .awaitingAck ∧ (c.call call).1.state = .running := by
  cases call with
  | observeRequest isError latencyMs isMismatch now => exact .inl rfl
  | observeDataLoss count =>
    simp only [RollbackController.call, RollbackController.observeDataLoss]
    cases recordT4 c.t4 count <;> exact .inl rfl
  | evaluate now => exact .inr (.inl ⟨now, rfl⟩)
  | acknowledge ackBy ackAt wallClock =>
    obtain hrefused | ⟨hby, hstate, c', hack, hrunning, -⟩ :=
      c.acknowledge_cases ackBy ackAt wallClock
    · exact .inl (by rw [RollbackController.call, hrefused])
    · refine .inr (.inr ⟨ackBy, ackAt, wallClock, rfl, hby, hstate, ?_⟩)
      rw [RollbackController.call, hack]
      exact hrunning

/-- Every transition of a run is due, none that is due is missed, and a data loss stays pending
until it has tripped the controller. -/
theorem rollback_safety {cooldown start : ℚ} {calls : List Call} {call : Call}
    (hclock : Monotonic (calls ++ [call])) :
    let r := Run.after cooldown start calls
    let state := r.controller.state
    let state' := (r.step call).controller.state
    (state = .running → (state' = .running ∨ state' = .tripped) ∧
      (state' ≠ .running ↔ ∃ now, call = .evaluate now ∧ 50 ≤ (recent 300 now calls).length ∧
        Breached r.sinceAck now)) ∧
    (state = .tripped → state' ≠ .tripped → state' = .awaitingAck ∧ ∃ now trippedAt,
      call = .evaluate now ∧ r.lastTrip = some trippedAt ∧ cooldown ≤ now - trippedAt) ∧
    (state = .awaitingAck → state' ≠ .awaitingAck → state' = .running ∧
      ∃ ackBy ackAt wallClock, call = .acknowledge ackBy ackAt wallClock ∧ ackBy ≠ "") ∧
    (state = .running → 0 < losses r.sinceAck → 0 < r.controller.t4 ∧
      ∀ now, call = .evaluate now → 50 ≤ (recent 300 now calls).length → state' = .tripped) := by
  intro r state state'
  have hfaithful : r.Faithful cooldown := Run.faithful cooldown start hclock.init
  have hcalls : r.calls = calls := Run.after_calls ..
  have hbreach {now : ℚ} (hcall : call = .evaluate now) : r.controller.BreachFound now ↔
      50 ≤ (recent 300 now calls).length ∧ Breached r.sinceAck now := by
    rw [← hcalls]
    refine hfaithful.breachFound ?_
    rw [hcalls]
    exact le_of_monotonic hclock (by rw [hcall]; rfl)
  have hrunning (hstate : state = .running) : (state' = .running ∨ state' = .tripped) ∧
      (state' ≠ .running ↔ ∃ now, call = .evaluate now ∧ 50 ≤ (recent 300 now calls).length ∧
        Breached r.sinceAck now) := by
    obtain hsame | ⟨now, rfl⟩ | ⟨_, _, _, -, -, hawaiting, -⟩ := r.controller.call_state call
    · refine ⟨.inl (hsame.trans hstate), fun hne => absurd (hsame.trans hstate) hne, ?_⟩
      rintro ⟨now, rfl, hdue⟩
      rcases r.controller.evaluate_running now hstate with ⟨htripped, -⟩ | ⟨-, hnot⟩
      · exact fun hback => nomatch htripped.symm.trans hback
      · exact absurd ((hbreach rfl).2 hdue) hnot
    · rcases r.controller.evaluate_running now hstate with ⟨htripped, hfound⟩ | ⟨hstays, hnot⟩
      · refine ⟨.inr htripped, fun _ => ⟨now, rfl, (hbreach rfl).1 hfound⟩, fun _ hback => ?_⟩
        exact nomatch htripped.symm.trans hback
      · refine ⟨.inl hstays, fun hne => absurd hstays hne, ?_⟩
        rintro ⟨_, hcall, hdue⟩
        cases hcall
        exact absurd ((hbreach rfl).2 hdue) hnot
    · exact nomatch hstate.symm.trans hawaiting
  refine ⟨hrunning, fun hstate hleaves => ?_, fun hstate hleaves => ?_, fun hstate hloss => ?_⟩
  · obtain hsame | ⟨now, rfl⟩ | ⟨_, _, _, -, -, hawaiting, -⟩ := r.controller.call_state call
    · exact absurd (hsame.trans hstate) hleaves
    · rcases r.controller.evaluate_tripped now hstate with ⟨hawaiting, hcool⟩ | hstays
      · obtain ⟨trippedAt, htripped, hpassed⟩ := (Option.any_eq_true ..).1 hcool
        refine ⟨hawaiting, now, trippedAt, rfl, ?_, ?_⟩
        · rw [← hfaithful.trip (fun hrun => nomatch hstate.symm.trans hrun), htripped]
        · simpa [hfaithful.cooldown] using hpassed
      · exact absurd hstays hleaves
    · exact nomatch hstate.symm.trans hawaiting
  · obtain hsame | ⟨now, rfl⟩ | ⟨ackBy, ackAt, wallClock, rfl, hby, -, hback⟩ :=
      r.controller.call_state call
    · exact absurd (hsame.trans hstate) hleaves
    · exact absurd (r.controller.evaluate_awaitingAck now hstate) hleaves
    · exact ⟨hback, ackBy, ackAt, wallClock, rfl, hby⟩
  · refine ⟨hfaithful.t4 ▸ hloss, fun now hcall hhits => ?_⟩
    obtain ⟨hor, hiff⟩ := hrunning hstate
    have hdue : Breached r.sinceAck now := .inr (.inr (.inr hloss))
    exact hor.resolve_left (hiff.2 ⟨now, hcall, hhits, hdue⟩)

/-- Fifty failing requests trip the controller. -/
theorem rollback_safety_sample :
    ((Run.after cooldownSeconds 0 (List.replicate 50 (.observeRequest true 1 false 10))).step
      (.evaluate 20)).controller.state ≠ .running := by
  refine ((rollback_safety ?_).1 (by decide +kernel)).2.2
    ⟨20, rfl, by decide +kernel, .inl ⟨by decide +kernel, by decide +kernel⟩⟩
  show List.Pairwise _ _
  decide +kernel

end ParallaxKernel.Canary
