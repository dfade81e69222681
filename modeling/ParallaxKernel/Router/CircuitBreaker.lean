import Mathlib.Algebra.Order.Ring.Rat
import Mathlib.Logic.Function.Basic
import ParallaxKernel.Lib.Runs
import ParallaxKernel.Lib.SlidingWindow
import ParallaxKernel.Router.DualRead

/-!
# The circuit breaker

`BreakerState` of `router/circuit_breaker.py`, called by any number of threads. Reading the clock,
taking the lock and the body under the lock are steps of their own; the clock does not go back.
Clock readings and rates are exact rationals.
-/

namespace ParallaxKernel.Router

open Lib

/-! ## The breaker -/

namespace CircuitBreaker

def windowSeconds : ℚ := 300
def tripThreshold : ℚ := 1 / 100
def minObservations : Nat := 50

/-- `circuit_breaker_tripped_total` stands beside the fields. -/
structure BreakerState where
  tripped : Bool
  trippedAt : Option ℚ
  observations : List (ℚ × Bool)
  trippedTotal : Nat
  deriving DecidableEq

def BreakerState.new : BreakerState := ⟨false, none, [], 0⟩

/-- `_evict_old`. -/
def evictOld (b : BreakerState) (nowTs : ℚ) : BreakerState :=
  { b with observations := evict (nowTs - windowSeconds) b.observations }

/-- `unreachable_count / total`. -/
def unreachableRate (observations : List (ℚ × Bool)) : ℚ :=
  observations.countP (·.2) / observations.length

/-- The body of `record_unreachable_observation`; `wall` is what `datetime.now(UTC)` reads. -/
def recordUnreachableObservation (b : BreakerState) (nowTs : ℚ) (observedUnreachable : Bool)
    (wall : ℚ) : BreakerState :=
  let b := evictOld { b with observations := b.observations ++ [(nowTs, observedUnreachable)] } nowTs
  if b.tripped then b
  else if b.observations.length < minObservations then b
  else if tripThreshold < unreachableRate b.observations then
    { b with tripped := true, trippedAt := some wall, trippedTotal := b.trippedTotal + 1 }
  else b

def reset (b : BreakerState) : BreakerState :=
  { b with tripped := false, trippedAt := none, observations := [] }

def currentUnreachableRate (b : BreakerState) (nowTs : ℚ) : Option ℚ × BreakerState :=
  let b := evictOld b nowTs
  if b.observations.length < minObservations then (none, b)
  else (some (unreachableRate b.observations), b)

def observationCount (b : BreakerState) (nowTs : ℚ) : Nat × BreakerState :=
  let b := evictOld b nowTs
  (b.observations.length, b)

/-! ## The threads -/

inductive Call where
  | isTripped
  | record (observedUnreachable : Bool)
  | reset
  | currentUnreachableRate
  | observationCount
  deriving DecidableEq

/-- `_record` of the router records what a dual read came to, unless the secondary was skipped. -/
def recordCall (outcome : DualReadOutcome) : Option Call :=
  if outcome = .skipped then none else some (.record (outcome = .aphelionUnreachable))

inductive Result where
  | unit
  | bool (b : Bool)
  | rate (rate : Option ℚ)
  | count (n : Nat)
  deriving DecidableEq

/-- Where a call stands, with what it has read of the clock. -/
inductive Progress where
  | idle
  | read (nowTs : ℚ)
  | locked (nowTs : Option ℚ)
  | returned (result : Result)
  deriving DecidableEq

variable {ι : Type} [DecidableEq ι]

/-- `log` and `evaluations` are what the statements speak of: the observations recorded since the
last reset, and for each evaluation since then the observations recorded by then and its cutoff. -/
structure State (ι : Type) where
  breaker : BreakerState
  now : ℚ
  holder : Option ι
  progress : ι → Progress
  log : List (ℚ × Bool)
  evaluations : List (List (ℚ × Bool) × ℚ)

def State.initial : State ι := ⟨.new, 0, none, fun _ => .idle, [], []⟩

inductive Action (ι : Type) where
  | tick (now : ℚ)
  | advance (c : ι) (wall : ℚ)

def State.move (s : State ι) (c : ι) (p : Progress) : State ι :=
  { s with progress := Function.update s.progress c p }

def State.acquire (s : State ι) (c : ι) (nowTs : Option ℚ) : Option (State ι) :=
  if s.holder = none then some (({ s with holder := some c } : State ι).move c (.locked nowTs))
  else none

/-- The body of a call, which ends with the lock being released. -/
def State.leave (s : State ι) (c : ι) (b : BreakerState) (result : Result) : State ι :=
  ({ s with breaker := b, holder := none } : State ι).move c (.returned result)

/-- A body that evaluates the window at `nowTs`. -/
def State.evaluated (s : State ι) (log : List (ℚ × Bool)) (nowTs : ℚ) : State ι :=
  { s with log := log, evaluations := s.evaluations ++ [(log, nowTs - windowSeconds)] }

/-- The next step of a call. -/
def advance (s : State ι) (c : ι) (wall : ℚ) : Call → Progress → Option (State ι)
  | .record _, .idle => some (s.move c (.read s.now))
  | .record _, .read nowTs => s.acquire c (some nowTs)
  | .record u, .locked (some nowTs) =>
    some ((s.evaluated (s.log ++ [(nowTs, u)]) nowTs).leave c
      (recordUnreachableObservation s.breaker nowTs u wall) .unit)
  | .isTripped, .idle | .reset, .idle | .currentUnreachableRate, .idle | .observationCount, .idle =>
    s.acquire c none
  | .isTripped, .locked none => some (s.leave c s.breaker (.bool s.breaker.tripped))
  | .reset, .locked none =>
    some (({ s with log := [], evaluations := [] } : State ι).leave c (reset s.breaker) .unit)
  | .currentUnreachableRate, .locked none | .observationCount, .locked none =>
    some (s.move c (.locked (some s.now)))
  | .currentUnreachableRate, .locked (some nowTs) =>
    let r := currentUnreachableRate s.breaker nowTs
    some ((s.evaluated s.log nowTs).leave c r.2 (.rate r.1))
  | .observationCount, .locked (some nowTs) =>
    let r := observationCount s.breaker nowTs
    some ((s.evaluated s.log nowTs).leave c r.2 (.count r.1))
  | _, _ => none

def step (calls : ι → Call) (s : State ι) : Action ι → Option (State ι)
  | .tick now => if s.now ≤ now then some { s with now := now } else none
  | .advance c wall => advance s c wall (calls c) (s.progress c)

/-! ## What is claimed -/

variable (calls : ι → Call)

/-- The reading at which a step evaluates the window. -/
def evaluates (s : State ι) : Action ι → Option ℚ
  | .tick _ => none
  | .advance c _ =>
    match calls c, s.progress c with
    | .record _, .locked (some nowTs) | .currentUnreachableRate, .locked (some nowTs)
    | .observationCount, .locked (some nowTs) => some nowTs
    | _, _ => none

/-- The reading and the outcome that a step records. -/
def records (s : State ι) : Action ι → Option (ℚ × Bool)
  | .tick _ => none
  | .advance c _ =>
    match calls c, s.progress c with
    | .record u, .locked (some nowTs) => some (nowTs, u)
    | _, _ => none

/-- A step that is the body of `reset`. -/
def Resets (s : State ι) : Action ι → Prop
  | .tick _ => False
  | .advance c _ => calls c = .reset ∧ s.progress c = .locked none

/-- The observations that are at most 300 seconds old. -/
def window (nowTs : ℚ) (log : List (ℚ × Bool)) : List (ℚ × Bool) :=
  since (nowTs - windowSeconds) log

/-- What a step does, in terms of the observations recorded since the last reset. -/
structure StepCorrect (s : State ι) (a : Action ι) (t : State ι) : Prop where
  exact_ : ∀ nowTs, evaluates calls s a = some nowTs →
    t.breaker.observations = window nowTs t.log
  trips : s.breaker.tripped = false → (t.breaker.tripped = true ↔
    ∃ x, records calls s a = some x ∧ minObservations ≤ (window x.1 t.log).length ∧
      tripThreshold < unreachableRate (window x.1 t.log))
  cleared : s.breaker.tripped = true → t.breaker.tripped = false → Resets calls s a
  counted : t.breaker.trippedTotal =
    s.breaker.trippedTotal + if !s.breaker.tripped && t.breaker.tripped then 1 else 0

/-- An evaluation at which nothing that has expired was recorded after something that has not, and
nothing that has not expired had expired at an earlier evaluation. -/
def Timely (s : State ι) (a : Action ι) (t : State ι) : Prop :=
  ∀ nowTs, evaluates calls s a = some nowTs →
    (t.log.Pairwise fun x y => nowTs - windowSeconds ≤ x.1 → nowTs - windowSeconds ≤ y.1) ∧
      ∀ e ∈ s.evaluations, ∀ x ∈ e.1, nowTs - windowSeconds ≤ x.1 → e.2 ≤ x.1

/-! ## Steps -/

variable {calls} {s t : State ι} {a : Action ι}

/-- What a step may do. -/
inductive Effect (calls : ι → Call) (s : State ι) (a : Action ι) (t : State ι) : Prop where
  | quiet (hevaluates : evaluates calls s a = none) (hrecords : records calls s a = none)
      (hbreaker : t.breaker = s.breaker) (hlog : t.log = s.log)
      (hevaluations : t.evaluations = s.evaluations)
  | reset (hevaluates : evaluates calls s a = none) (hrecords : records calls s a = none)
      (hresets : Resets calls s a) (hbreaker : t.breaker = CircuitBreaker.reset s.breaker)
      (hlog : t.log = []) (hevaluations : t.evaluations = [])
  | read (nowTs : ℚ) (hevaluates : evaluates calls s a = some nowTs)
      (hrecords : records calls s a = none) (hbreaker : t.breaker = evictOld s.breaker nowTs)
      (hlog : t.log = s.log)
      (hevaluations : t.evaluations = s.evaluations ++ [(t.log, nowTs - windowSeconds)])
  | record (nowTs : ℚ) (u : Bool) (wall : ℚ) (hevaluates : evaluates calls s a = some nowTs)
      (hrecords : records calls s a = some (nowTs, u))
      (hbreaker : t.breaker = recordUnreachableObservation s.breaker nowTs u wall)
      (hlog : t.log = s.log ++ [(nowTs, u)])
      (hevaluations : t.evaluations = s.evaluations ++ [(t.log, nowTs - windowSeconds)])

theorem acquire_same {c : ι} {nowTs : Option ℚ} (h : s.acquire c nowTs = some t) :
    t.breaker = s.breaker ∧ t.log = s.log ∧ t.evaluations = s.evaluations := by
  rw [State.acquire] at h
  split at h
  · cases h
    exact ⟨rfl, rfl, rfl⟩
  · cases h

theorem currentUnreachableRate_snd (b : BreakerState) (nowTs : ℚ) :
    (currentUnreachableRate b nowTs).2 = evictOld b nowTs := by
  unfold currentUnreachableRate
  dsimp only
  split_ifs <;> rfl

theorem step_effect (h : step calls s a = some t) : Effect calls s a t := by
  cases a with
  | tick now =>
    rw [step] at h
    split at h
    · cases h
      exact .quiet rfl rfl rfl rfl rfl
    · cases h
  | advance c wall =>
    -- The cases are those of the call and of where it stands.
    rw [step, advance.eq_def] at h
    split at h
    case h_1 hcall hp | h_8 hcall hp | h_10 hcall hp | h_11 hcall hp =>
      cases h
      exact .quiet (by simp only [evaluates, hcall, hp]) (by simp only [records, hcall, hp])
        rfl rfl rfl
    case h_2 hcall hp | h_4 hcall hp | h_5 hcall hp | h_6 hcall hp | h_7 hcall hp =>
      obtain ⟨hbreaker, hlog, hevaluations⟩ := acquire_same h
      exact .quiet (by simp only [evaluates, hcall, hp]) (by simp only [records, hcall, hp])
        hbreaker hlog hevaluations
    case h_3 u nowTs hcall hp =>
      cases h
      exact .record nowTs u wall (by simp only [evaluates, hcall, hp])
        (by simp only [records, hcall, hp]) rfl rfl rfl
    case h_9 hcall hp =>
      cases h
      exact .reset (by simp only [evaluates, hcall, hp]) (by simp only [records, hcall, hp])
        ⟨hcall, hp⟩ rfl rfl rfl
    case h_12 nowTs hcall hp =>
      cases h
      exact .read nowTs (by simp only [evaluates, hcall, hp]) (by simp only [records, hcall, hp])
        (currentUnreachableRate_snd s.breaker nowTs) rfl rfl
    case h_13 nowTs hcall hp =>
      cases h
      exact .read nowTs (by simp only [evaluates, hcall, hp]) (by simp only [records, hcall, hp])
        rfl rfl rfl
    case h_14 => cases h

theorem record_observations (b : BreakerState) (nowTs : ℚ) (u : Bool) (wall : ℚ) :
    (recordUnreachableObservation b nowTs u wall).observations =
      evict (nowTs - windowSeconds) (b.observations ++ [(nowTs, u)]) := by
  unfold recordUnreachableObservation
  dsimp only
  split_ifs <;> rfl

theorem record_tripped (b : BreakerState) (nowTs : ℚ) (u : Bool) (wall : ℚ) :
    (recordUnreachableObservation b nowTs u wall).tripped = true ↔ b.tripped = true ∨
      minObservations ≤ (recordUnreachableObservation b nowTs u wall).observations.length ∧
      tripThreshold <
        unreachableRate (recordUnreachableObservation b nowTs u wall).observations := by
  rw [record_observations]
  unfold recordUnreachableObservation
  dsimp only [evictOld]
  split_ifs with htripped hfew hrate
  · simp [htripped]
  · simp [htripped, not_le.2 hfew]
  · simp [not_lt.1 hfew, hrate]
  · simp [htripped, hrate]

theorem record_trippedTotal (b : BreakerState) (nowTs : ℚ) (u : Bool) (wall : ℚ) :
    (recordUnreachableObservation b nowTs u wall).trippedTotal = b.trippedTotal +
      if !b.tripped && (recordUnreachableObservation b nowTs u wall).tripped then 1 else 0 := by
  unfold recordUnreachableObservation
  dsimp only [evictOld]
  split_ifs <;> simp_all

/-! ## Runs -/

/-- The deque is what the evaluations have left of the observations. -/
def Inv (s : State ι) : Prop := Evaluated s.evaluations s.breaker.observations s.log

omit [DecidableEq ι] in
theorem Inv.initial : Inv (State.initial : State ι) := Evaluated.empty

omit [DecidableEq ι] in
/-- A step that evaluates a queue. -/
theorem evaluation_iff {nowTs : ℚ} {queue log : List (ℚ × Bool)}
    (h : Evaluated s.evaluations queue log) (hevaluates : evaluates calls s a = some nowTs)
    (hobservations : t.breaker.observations = evict (nowTs - windowSeconds) queue)
    (hlog : t.log = log)
    (hevaluations : t.evaluations = s.evaluations ++ [(t.log, nowTs - windowSeconds)]) :
    (t.breaker.observations = window nowTs t.log ↔ Timely calls s a t) ∧
      (t.breaker.observations = window nowTs t.log → Inv t) := by
  rw [Timely, hevaluates, hlog, hobservations, window, h.evict_eq_since_iff]
  refine ⟨by simp, fun hexact => ?_⟩
  rw [Inv, hevaluations, hobservations, hlog]
  exact h.evict (h.evict_eq_since_iff.2 hexact)

theorem stepCorrect_iff (h : Inv s) (hstep : step calls s a = some t) :
    (StepCorrect calls s a t ↔ Timely calls s a t) ∧ (StepCorrect calls s a t → Inv t) := by
  cases step_effect hstep with
  | quiet hevaluates hrecords hbreaker hlog hevaluations =>
    have hcorrect : StepCorrect calls s a t := by
      refine ⟨fun nowTs hnow => ?_, fun hs => ?_, fun hs ht => ?_, ?_⟩
      · rw [hevaluates] at hnow
        cases hnow
      · simp [hbreaker, hs, hrecords]
      · rw [hbreaker, hs] at ht
        cases ht
      · simp [hbreaker]
    have htimely : Timely calls s a t := fun nowTs hnow => by
      rw [hevaluates] at hnow
      cases hnow
    refine ⟨iff_of_true hcorrect htimely, fun _ => ?_⟩
    rw [Inv, hbreaker, hlog, hevaluations]
    exact h
  | reset hevaluates hrecords hresets hbreaker hlog hevaluations =>
    have hcorrect : StepCorrect calls s a t := by
      refine ⟨fun nowTs hnow => ?_, fun _ => ?_, fun _ _ => hresets, ?_⟩
      · rw [hevaluates] at hnow
        cases hnow
      · simp [hbreaker, CircuitBreaker.reset, hrecords]
      · simp [hbreaker, CircuitBreaker.reset]
    have htimely : Timely calls s a t := fun nowTs hnow => by
      rw [hevaluates] at hnow
      cases hnow
    refine ⟨iff_of_true hcorrect htimely, fun _ => ?_⟩
    rw [Inv, hbreaker, hlog, hevaluations]
    exact Evaluated.empty
  | read nowTs hevaluates hrecords hbreaker hlog hevaluations =>
    have hobservations : t.breaker.observations =
        evict (nowTs - windowSeconds) s.breaker.observations := by
      rw [hbreaker]
      rfl
    obtain ⟨hiff, hinv⟩ := evaluation_iff h hevaluates hobservations hlog hevaluations
    have hcorrect : StepCorrect calls s a t ↔ t.breaker.observations = window nowTs t.log := by
      refine ⟨fun hc => hc.exact_ nowTs hevaluates, fun hexact => ⟨?_, ?_, ?_, ?_⟩⟩
      · intro nowTs' hnow
        rw [hevaluates] at hnow
        cases hnow
        exact hexact
      · intro hs
        simp [hbreaker, evictOld, hs, hrecords]
      · intro hs ht
        rw [hbreaker, evictOld, hs] at ht
        cases ht
      · simp [hbreaker, evictOld]
    exact ⟨hcorrect.trans hiff, fun hc => hinv (hcorrect.1 hc)⟩
  | record nowTs u wall hevaluates hrecords hbreaker hlog hevaluations =>
    have hobservations : t.breaker.observations =
        evict (nowTs - windowSeconds) (s.breaker.observations ++ [(nowTs, u)]) := by
      rw [hbreaker, record_observations]
    obtain ⟨hiff, hinv⟩ :=
      evaluation_iff (h.push (nowTs, u)) hevaluates hobservations hlog hevaluations
    have hcorrect : StepCorrect calls s a t ↔ t.breaker.observations = window nowTs t.log := by
      refine ⟨fun hc => hc.exact_ nowTs hevaluates, fun hexact => ⟨?_, ?_, ?_, ?_⟩⟩
      · intro nowTs' hnow
        rw [hevaluates] at hnow
        cases hnow
        exact hexact
      · intro hs
        have htripped := record_tripped s.breaker nowTs u wall
        rw [← hbreaker, hs, hexact] at htripped
        simp [htripped, hrecords]
      · intro hs ht
        have htripped := (record_tripped s.breaker nowTs u wall).2 (.inl hs)
        rw [← hbreaker, ht] at htripped
        cases htripped
      · rw [hbreaker, record_trippedTotal]
    exact ⟨hcorrect.trans hiff, fun hc => hinv (hcorrect.1 hc)⟩

theorem breaker_correct_iff (calls : ι → Call) (actions : List (Action ι)) :
    Along (step calls) (StepCorrect calls) State.initial actions ↔
      Along (step calls) (Timely calls) State.initial actions :=
  along_iff (Q := Timely calls) (fun _ _ _ => stepCorrect_iff) Inv.initial actions

omit [DecidableEq ι] in
/-- Readings in the order of the bodies: nothing recorded is later than the reading, and no earlier
evaluation had a later cutoff. -/
theorem timely_of_ordered (hlog : Timed t.log)
    (hevaluations : ∀ nowTs, evaluates calls s a = some nowTs →
      ∀ e ∈ s.evaluations, e.2 ≤ nowTs - windowSeconds) : Timely calls s a t := by
  intro nowTs hnow
  refine ⟨hlog.imp fun hle h => h.trans hle, fun e he x _ hx => ?_⟩
  exact (hevaluations nowTs hnow e he).trans hx

/-- A thread that is overtaken between the clock and the lock: its observation lies behind a later
one, and outlives its 300 seconds. -/
def sampleCalls : Nat → Call
  | 0 | 1 => .record false
  | _ => .observationCount

def sampleOvertaken : List (Action Nat) :=
  [.advance 0 0, .tick 10, .advance 1 0, .advance 1 0, .advance 1 0, .advance 0 0, .advance 0 0,
    .tick 305, .advance 2 0, .advance 2 0, .advance 2 0]

theorem sampleOvertaken_stale :
    ¬ Along (step sampleCalls) (StepCorrect sampleCalls) State.initial sampleOvertaken := by
  intro h
  have hlast := Along.reached sampleOvertaken.dropLast [] h rfl rfl
  have hexact := hlast.exact_ 305 rfl
  revert hexact
  decide +kernel

end CircuitBreaker
end ParallaxKernel.Router
