import Mathlib.Tactic.Linarith
import ParallaxKernel.Lib.Runs
import ParallaxKernel.Router.CircuitBreaker

/-!
# Requests in flight

A process of the server, from its start to the end of the drain: the middleware that freezes the
flag of a request and keeps the gauge (`middleware/dual_read_snapshot.py`, `router/inflight.py`),
the query route, the breaker that its answers feed, and the drain of `lifespan.py`. Threads and
coroutines take their steps in any order, and the operator turns the flags at any time.
-/

namespace ParallaxKernel.Server.Lifespan

open Lib Router Router.CircuitBreaker

/-! ## The process -/

structure Env where
  dualRead : Option String
  memoryRouter : Option String

/-- `os.getenv(name, "false").strip().lower() == "true"`. -/
def saysTrue (value : Option String) : Bool := (Store.strip (value.getD "false")).toLower = "true"

def isDualReadEnabled (env : Env) : Bool := saysTrue env.dualRead

def isRouterEnabled (env : Env) : Bool := saysTrue env.memoryRouter

/-- `INFLIGHT_EXCLUDED_PATHS`. -/
def inflightExcludedPaths : List String := ["/metrics", "/healthz"]

/-- How far a request is: received; with the flag read; in `call_next`, with its snapshot; with its
query asked, and what the breaker is still to be told of it; left. -/
inductive Progress where
  | received
  | flagged (envSaysTrue : Bool)
  | running (dualRead : Bool)
  | asked (feeds : List Bool)
  | left

structure Request where
  path : String
  progress : Progress

/-- The request is in `call_next` and counts as in flight. -/
def Request.inflight (r : Request) : Bool :=
  !(inflightExcludedPaths.contains r.path) &&
    match r.progress with
    | .running _ | .asked _ => true
    | _ => false

/-- `_drain_inflight`: asleep until `wake`, or returned. -/
inductive Drain where
  | serving
  | draining (start wake : ℚ)
  | complete
  | timedOut (start : ℚ) (inflightCount : Int)

def Drain.returned : Drain → Bool
  | complete | timedOut _ _ => true
  | _ => false

/-- `invoked` are the requests whose query has gone to the secondary. -/
structure Process where
  env : Env
  breaker : BreakerState
  requests : List Request
  gauge : Int
  invoked : List Nat
  now : ℚ
  drain : Drain
  drainTimeouts : Nat

def Process.initial (env : Env) (now : ℚ) : Process :=
  ⟨env, .new, [], 0, [], now, .serving, 0⟩

def Process.move (s : Process) (i : Nat) (r : Request) (p : Progress) : Process :=
  { s with requests := s.requests.set i { r with progress := p } }

def drainTimeoutSeconds : ℚ := 900

def drainPollIntervalSeconds : ℚ := 1 / 2

/-! ## Steps -/

section Steps

variable {V : Type} (py : Python V)

/-- What a query is asked with, and what comes of the two stores and of the hooks. -/
structure QueryInput (V : Type) where
  request : QueryRequest
  trafficSource : Option String
  drawn : String
  hooks : Hooks
  primary : Except PyError (RetrievalEvidence V)
  reply : Reply V

def invokesSecondary : Effect → Bool
  | .secondaryInvoked => true
  | _ => false

def fed? : Effect → Option Bool
  | .breakerFed observedUnreachable => some observedUnreachable
  | _ => none

/-- What `_dispatch_with_router` does with the snapshot of the request. Its router is a new one,
without a live counter and an events connection. -/
def dispatchWithRouter (env : Env) (breaker : BreakerState) (dualRead : Bool)
    (input : QueryInput V) : Response V :=
  DualReadRouter.query py ⟨2, 0⟩
    { input.hooks with
      isTripped := .ok breaker.tripped, recordBreaker := .ok (), liveCounter := none
      writeConflict := none }
    ⟨input.request, none, some dualRead, input.trafficSource, isDualReadEnabled env, input.drawn⟩
    input.primary input.reply

/-- What happens: the operator sets a flag or resets the breaker, time passes, a request comes in,
reads the flag, enters `call_next`, asks its query, tells the breaker, leaves `call_next` with a
response or an exception, and the drain begins and polls. -/
inductive Action (V : Type) where
  | setDualRead (value : Option String)
  | setMemoryRouter (value : Option String)
  | reset
  | tick (now : ℚ)
  | receive (path : String)
  | readFlag (i : Nat)
  | enter (i : Nat)
  | query (i : Nat) (input : QueryInput V)
  | record (i : Nat) (wall : ℚ)
  | leave (i : Nat)
  | shutdown
  | poll

/-- The body of the loop of `_drain_inflight`. -/
def poll (s : Process) (start : ℚ) : Process :=
  if s.gauge ≤ 0 then { s with drain := .complete }
  else
    let remaining := start + drainTimeoutSeconds - s.now
    if remaining ≤ 0 then
      { s with drain := .timedOut start s.gauge, drainTimeouts := s.drainTimeouts + 1 }
    else
      { s with drain := .draining start (s.now + min drainPollIntervalSeconds (max remaining 0)) }

/-- A request leaves `call_next`, unless the breaker is still to be told of its query. -/
def leave (s : Process) (i : Nat) (r : Request) : Option Process :=
  match r.progress with
  | .running _ | .asked [] =>
    some { s.move i r .left with gauge := if r.inflight then s.gauge - 1 else s.gauge }
  | _ => none

/-- A step of the process; once the drain has returned it is gone. -/
def step (s : Process) (a : Action V) : Option Process :=
  if s.drain.returned then none
  else
    match a with
    | .setDualRead value => some { s with env := { s.env with dualRead := value } }
    | .setMemoryRouter value => some { s with env := { s.env with memoryRouter := value } }
    | .reset => some { s with breaker := CircuitBreaker.reset s.breaker }
    | .tick now => if s.now ≤ now then some { s with now := now } else none
    | .receive path => some { s with requests := s.requests ++ [⟨path, .received⟩] }
    | .readFlag i => do
      let r ← s.requests[i]?
      match r.progress with
      | .received => some (s.move i r (.flagged (isDualReadEnabled s.env)))
      | _ => none
    | .enter i => do
      let r ← s.requests[i]?
      match r.progress with
      | .flagged envSaysTrue =>
        let entered := { r with progress := .running (envSaysTrue && !s.breaker.tripped) }
        some { s with
          requests := s.requests.set i entered
          gauge := if entered.inflight then s.gauge + 1 else s.gauge }
      | _ => none
    | .query i input => do
      let r ← s.requests[i]?
      match r.progress with
      | .running dualRead =>
        if r.path = "/query" ∧ isRouterEnabled s.env then
          let effects := (dispatchWithRouter py s.env s.breaker dualRead input).effects
          some { s.move i r (.asked (effects.filterMap fed?)) with
            invoked := if effects.any invokesSecondary then s.invoked ++ [i] else s.invoked }
        else none
      | _ => none
    | .record i wall => do
      let r ← s.requests[i]?
      match r.progress with
      | .asked (u :: feeds) =>
        some { s.move i r (.asked feeds) with
          breaker := recordUnreachableObservation s.breaker s.now u wall }
      | _ => none
    | .leave i => do
      let r ← s.requests[i]?
      leave s i r
    | .shutdown =>
      match s.drain with
      | .serving => some { s with drain := .draining s.now s.now }
      | _ => none
    | .poll =>
      match s.drain with
      | .draining start wake => if wake ≤ s.now then some (poll s start) else none
      | _ => none

/-- What each step can do, with its guards. -/
inductive Stepped (s : Process) : Action V → Process → Prop
  | setDualRead (value) :
    Stepped s (.setDualRead value) { s with env := { s.env with dualRead := value } }
  | setMemoryRouter (value) :
    Stepped s (.setMemoryRouter value) { s with env := { s.env with memoryRouter := value } }
  | reset : Stepped s .reset { s with breaker := CircuitBreaker.reset s.breaker }
  | tick {now} (hnow : s.now ≤ now) : Stepped s (.tick now) { s with now := now }
  | receive (path) :
    Stepped s (.receive path) { s with requests := s.requests ++ [⟨path, .received⟩] }
  | readFlag {i r} (hr : s.requests[i]? = some r) (hprogress : r.progress = .received) :
    Stepped s (.readFlag i) (s.move i r (.flagged (isDualReadEnabled s.env)))
  | enter {i r envSaysTrue entered} (hr : s.requests[i]? = some r)
    (hprogress : r.progress = .flagged envSaysTrue)
    (hentered : entered = { r with progress := .running (envSaysTrue && !s.breaker.tripped) }) :
    Stepped s (.enter i)
      { s with
        requests := s.requests.set i entered
        gauge := if entered.inflight then s.gauge + 1 else s.gauge }
  | query {i r dualRead input effects} (hr : s.requests[i]? = some r)
    (hprogress : r.progress = .running dualRead) (hpath : r.path = "/query")
    (heffects : effects = (dispatchWithRouter py s.env s.breaker dualRead input).effects) :
    Stepped s (.query i input)
      { s.move i r (.asked (effects.filterMap fed?)) with
        invoked := if effects.any invokesSecondary then s.invoked ++ [i] else s.invoked }
  | record {i r u feeds} (wall) (hr : s.requests[i]? = some r)
    (hprogress : r.progress = .asked (u :: feeds)) :
    Stepped s (.record i wall)
      { s.move i r (.asked feeds) with
        breaker := recordUnreachableObservation s.breaker s.now u wall }
  | leave {i r} (hr : s.requests[i]? = some r)
    (hprogress : (∃ dualRead, r.progress = .running dualRead) ∨ r.progress = .asked []) :
    Stepped s (.leave i)
      { s.move i r .left with gauge := if r.inflight then s.gauge - 1 else s.gauge }
  | shutdown (hdrain : s.drain = .serving) :
    Stepped s .shutdown { s with drain := .draining s.now s.now }
  | poll {start wake} (hdrain : s.drain = .draining start wake) (hwake : wake ≤ s.now) :
    Stepped s .poll (poll s start)

variable {py} {s t : Process} {a : Action V}

theorem step_cases (h : step py s a = some t) : s.drain.returned = false ∧ Stepped py s a t := by
  unfold step at h
  split_ifs at h with hreturned
  refine ⟨Bool.eq_false_iff.2 hreturned, ?_⟩
  cases a with
  | setDualRead value =>
    cases h
    exact .setDualRead value
  | setMemoryRouter value =>
    cases h
    exact .setMemoryRouter value
  | reset =>
    cases h
    exact .reset
  | tick now =>
    simp only at h
    split_ifs at h with hnow
    cases h
    exact .tick hnow
  | receive path =>
    cases h
    exact .receive path
  | readFlag i =>
    obtain ⟨r, hr, h⟩ := Option.bind_eq_some_iff.1 h
    split at h
    · rename_i hprogress
      cases h
      exact .readFlag hr hprogress
    · cases h
  | enter i =>
    obtain ⟨r, hr, h⟩ := Option.bind_eq_some_iff.1 h
    split at h
    · rename_i envSaysTrue hprogress
      cases h
      exact .enter hr hprogress rfl
    · cases h
  | query i input =>
    obtain ⟨r, hr, h⟩ := Option.bind_eq_some_iff.1 h
    split at h
    · rename_i dualRead hprogress
      split_ifs at h with hroute
      cases h
      exact .query hr hprogress hroute.1 rfl
    · cases h
  | record i wall =>
    obtain ⟨r, hr, h⟩ := Option.bind_eq_some_iff.1 h
    split at h
    · rename_i u feeds hprogress
      cases h
      exact .record wall hr hprogress
    · cases h
  | leave i =>
    obtain ⟨r, hr, h⟩ := Option.bind_eq_some_iff.1 h
    rw [Lifespan.leave] at h
    split at h
    · rename_i dualRead hprogress
      cases h
      exact .leave hr (.inl ⟨dualRead, hprogress⟩)
    · rename_i hprogress
      cases h
      exact .leave hr (.inr hprogress)
    · cases h
  | shutdown =>
    simp only at h
    split at h
    · rename_i hdrain
      cases h
      exact .shutdown hdrain
    · cases h
  | poll =>
    simp only at h
    split at h
    · rename_i start wake hdrain
      split_ifs at h with hwake
      cases h
      exact .poll hdrain hwake
    · cases h

end Steps

/-! ## The gauge -/

/-- The count after one request goes on. -/
theorem countP_inflight_set {rs : List Request} {i : Nat} {r r' : Request} (hr : rs[i]? = some r) :
    ((rs.set i r').countP Request.inflight : Int) + (if r.inflight then 1 else 0) =
      rs.countP Request.inflight + if r'.inflight then 1 else 0 := by
  obtain ⟨hi, rfl⟩ := List.getElem?_eq_some_iff.1 hr
  rw [List.countP_set hi]
  have hpos : rs[i].inflight = true → 0 < rs.countP Request.inflight := fun h =>
    List.countP_pos_iff.2 ⟨rs[i], List.getElem_mem hi, h⟩
  split_ifs with hold hnew
  · have := hpos hold
    omega
  · have := hpos hold
    omega
  · omega
  · omega

def GaugeCounts (s : Process) : Prop := s.gauge = s.requests.countP Request.inflight

section Runs

variable {V : Type} {py : Python V} {s t : Process} {a : Action V}

/-- A request that goes on outside `call_next`, or within it. -/
theorem GaugeCounts.move (h : GaugeCounts s) {i : Nat} {r : Request} {p : Progress}
    (hr : s.requests[i]? = some r)
    (hp : ({ r with progress := p } : Request).inflight = r.inflight) :
    s.gauge = (s.move i r p).requests.countP Request.inflight := by
  have hcount := @countP_inflight_set s.requests i r { r with progress := p } hr
  rw [hp] at hcount
  rw [GaugeCounts] at h
  simp only [Process.move]
  omega

theorem gauge_step (h : GaugeCounts s) (hstep : Stepped py s a t) : GaugeCounts t := by
  cases hstep with
  | setDualRead | setMemoryRouter | reset | tick | shutdown => exact h
  | receive path =>
    simpa [GaugeCounts, Request.inflight] using h
  | @readFlag i r hr hprogress =>
    exact h.move hr (by simp [Request.inflight, hprogress])
  | @enter i r envSaysTrue entered hr hprogress hentered =>
    -- The flagged request was not in flight before.
    have hbefore : r.inflight = false := by simp [Request.inflight, hprogress]
    have hcount := @countP_inflight_set s.requests i r entered hr
    rw [hbefore] at hcount
    rw [GaugeCounts] at h ⊢
    simp only [Bool.false_eq_true, if_false] at hcount
    dsimp only
    split_ifs at hcount ⊢ <;> omega
  | @query i r dualRead input effects hr hprogress hpath heffects =>
    exact h.move hr (by simp [Request.inflight, hprogress])
  | @record i r u feeds wall hr hprogress =>
    exact h.move hr (by simp [Request.inflight, hprogress])
  | @leave i r hr hprogress =>
    have hafter : ({ r with progress := .left } : Request).inflight = false := by
      simp [Request.inflight]
    have hcount := @countP_inflight_set s.requests i r { r with progress := .left } hr
    rw [hafter] at hcount
    rw [GaugeCounts] at h ⊢
    simp only [Bool.false_eq_true, if_false] at hcount
    simp only [Process.move]
    split_ifs at hcount ⊢ <;> omega
  | @poll start wake hdrain hwake =>
    rw [Lifespan.poll]
    dsimp only
    split_ifs
    · exact h
    · exact h
    · exact h

/-! ## The drain -/

def isPoll : Action V → Bool
  | .poll => true
  | _ => false

/-- The drain after some polls. A poll that does not end it puts the next one half a second later,
or at the deadline. -/
def DrainSound (s : Process) (polls : Nat) : Prop :=
  match s.drain with
  | .serving => s.drainTimeouts = 0 ∧ polls = 0
  | .draining start wake =>
    s.drainTimeouts = 0 ∧ polls ≤ 1800 ∧ min ((polls : ℚ) / 2) 900 ≤ wake - start
  | .complete => s.drainTimeouts = 0 ∧ polls ≤ 1801 ∧ s.gauge ≤ 0
  | .timedOut start n =>
    s.drainTimeouts = 1 ∧ polls ≤ 1801 ∧ n = s.gauge ∧ 0 < n ∧ start + 900 ≤ s.now

/-- The drain goes on as it was. -/
theorem DrainSound.frame {polls : Nat} (h : DrainSound s polls)
    (hreturned : s.drain.returned = false) (hdrain : t.drain = s.drain)
    (htimeouts : t.drainTimeouts = s.drainTimeouts) : DrainSound t polls := by
  unfold DrainSound at h ⊢
  rw [hdrain, htimeouts]
  cases hs : s.drain with
  | serving => simpa only [hs] using h
  | draining start wake => simpa only [hs] using h
  | complete => simp [hs, Drain.returned] at hreturned
  | timedOut start n => simp [hs, Drain.returned] at hreturned

theorem poll_sound {polls : Nat} {start wake : ℚ} (h : DrainSound s polls)
    (hdrain : s.drain = .draining start wake) (hwake : wake ≤ s.now) :
    DrainSound (poll s start) (polls + 1) := by
  unfold DrainSound at h
  simp only [hdrain] at h
  obtain ⟨htimeouts, hpolls, hslept⟩ := h
  rw [poll]
  dsimp only
  split_ifs with hclean hdeadline
  · exact ⟨htimeouts, by omega, hclean⟩
  · refine ⟨by simp [htimeouts], by omega, rfl, by omega, ?_⟩
    simp only [drainTimeoutSeconds] at hdeadline ⊢
    linarith
  · -- Before the deadline, so the polls have not slept it away.
    simp only [drainTimeoutSeconds, not_le] at hdeadline
    have hbefore : (polls : ℚ) / 2 < 900 := by
      by_contra hlate
      rw [min_eq_right (not_lt.1 hlate)] at hslept
      linarith
    have hcount : (polls : ℚ) < 1800 := by linarith
    have hcount : polls < 1800 := by exact_mod_cast hcount
    rw [min_eq_left hbefore.le] at hslept
    refine ⟨htimeouts, by omega, ?_⟩
    simp only [drainTimeoutSeconds, drainPollIntervalSeconds, max_eq_left hdeadline.le]
    push_cast
    obtain hhalf | hrest := le_total (1 / 2 : ℚ) (start + 900 - s.now)
    · rw [min_eq_left hhalf]
      exact (min_le_left _ _).trans (by linarith)
    · rw [min_eq_right hrest]
      exact (min_le_right _ _).trans (by linarith)

theorem drain_step {polls : Nat} (h : DrainSound s polls) (hreturned : s.drain.returned = false)
    (hstep : Stepped py s a t) : DrainSound t (polls + if isPoll a then 1 else 0) := by
  cases hstep with
  | setDualRead | setMemoryRouter | reset | tick | receive | readFlag | enter | query | record
  | leave => exact h.frame hreturned rfl rfl
  | shutdown hdrain =>
    unfold DrainSound at h
    simp only [hdrain] at h
    obtain ⟨htimeouts, rfl⟩ := h
    refine ⟨htimeouts, by simp [isPoll], ?_⟩
    simp [isPoll]
  | poll hdrain hwake => exact poll_sound h hdrain hwake

/-- What holds after a run. -/
theorem run_sound {env : Env} {now : ℚ} {actions : List (Action V)}
    (hrun : actions.foldlM (step py) (.initial env now) = some s) :
    GaugeCounts s ∧ DrainSound s (actions.countP isPoll) := by
  induction actions using List.reverseRecOn generalizing s with
  | nil =>
    cases hrun
    exact ⟨rfl, rfl, rfl⟩
  | append_singleton actions a ih =>
    rw [List.foldlM_append] at hrun
    obtain ⟨u, hu, hstep⟩ := Option.bind_eq_some_iff.1 hrun
    rw [List.foldlM_cons] at hstep
    obtain ⟨v, hv, hlast⟩ := Option.bind_eq_some_iff.1 hstep
    cases hlast
    obtain ⟨hgauge, hdrain⟩ := ih hu
    obtain ⟨hreturned, hstepped⟩ := step_cases hv
    refine ⟨gauge_step hgauge hstepped, ?_⟩
    rw [List.countP_append, List.countP_singleton]
    exact drain_step hdrain hreturned hstepped

/-- The gauge counts the requests in flight, in every order of steps. The drain returns after 1801
polls at most: clean once none is in flight, and with a timeout, counted once, only when its 900
seconds have passed and some are. -/
theorem drain_accounted {env : Env} {now : ℚ} {actions : List (Action V)}
    (hrun : actions.foldlM (step py) (.initial env now) = some s) :
    s.gauge = s.requests.countP Request.inflight ∧
      (s.drain = .complete → ∀ r ∈ s.requests, r.inflight = false) ∧
      (∀ start n, s.drain = .timedOut start n → n = s.requests.countP Request.inflight ∧ 0 < n ∧
        start + drainTimeoutSeconds ≤ s.now) ∧
      (s.drainTimeouts = 1 ∧ (∃ start n, s.drain = .timedOut start n) ∨
        s.drainTimeouts = 0 ∧ ∀ start n, s.drain ≠ .timedOut start n) ∧
      actions.countP isPoll ≤ 1801 := by
  obtain ⟨hgauge, hdrain⟩ := run_sound hrun
  rw [GaugeCounts] at hgauge
  unfold DrainSound at hdrain
  refine ⟨hgauge, ?_, ?_, ?_, ?_⟩
  · intro hcomplete r hr
    simp only [hcomplete] at hdrain
    have hnone : s.requests.countP Request.inflight = 0 := by omega
    exact Bool.eq_false_iff.2 (List.countP_eq_zero.1 hnone r hr)
  · intro start n htimedOut
    simp only [htimedOut] at hdrain
    obtain ⟨-, -, hn, hpos, hdeadline⟩ := hdrain
    exact ⟨hn.trans hgauge, hpos, hdeadline⟩
  · cases hs : s.drain with
    | serving =>
      simp only [hs] at hdrain
      exact .inr ⟨hdrain.1, fun _ _ => Drain.noConfusion⟩
    | draining start wake =>
      simp only [hs] at hdrain
      exact .inr ⟨hdrain.1, fun _ _ => Drain.noConfusion⟩
    | complete =>
      simp only [hs] at hdrain
      exact .inr ⟨hdrain.1, fun _ _ => Drain.noConfusion⟩
    | timedOut start n =>
      simp only [hs] at hdrain
      exact .inl ⟨hdrain.1, start, n, rfl⟩
  · cases hs : s.drain with
    | serving =>
      simp only [hs] at hdrain
      omega
    | draining start wake =>
      simp only [hs] at hdrain
      omega
    | complete =>
      simp only [hs] at hdrain
      exact hdrain.2.1
    | timedOut start n =>
      simp only [hs] at hdrain
      exact hdrain.2.1

def samplePython : Python (Option Int) where
  none := none
  isNone := Option.isNone
  ne a b := .ok (a != b)
  isClose a b := .ok (a == b)

def sampleQuery : QueryInput (Option Int) where
  request := ⟨.recentContext, "u", "", 10, none, none, 1, none⟩
  trafficSource := none
  drawn := "c"
  hooks := ⟨.ok false, .ok false, .ok (), .ok (), none, .ok (), .ok (), none, .ok (), .ok ()⟩
  primary := .ok ⟨[], [], [], [], "none"⟩
  reply := .late

def sampleEnv : Env := ⟨some "true", some "true"⟩

/-- One request has passed the middleware and another is before it when the flag goes off. -/
def sampleBefore : List (Action (Option Int)) :=
  [.receive "/query", .readFlag 0, .enter 0, .receive "/query", .setDualRead none]

/-- Both are answered, and the drain finds none of them in flight. -/
def sampleAfter : List (Action (Option Int)) :=
  [.readFlag 1, .enter 1, .query 0 sampleQuery, .query 1 sampleQuery, .record 0 1000, .leave 0,
    .shutdown, .poll, .tick 1, .leave 1, .poll]

theorem drain_accounted_sample :
    ∃ s, (sampleBefore ++ sampleAfter).foldlM (step samplePython) (.initial sampleEnv 0) = some s ∧
      s.gauge = s.requests.countP Request.inflight ∧
      (s.drain = .complete → ∀ r ∈ s.requests, r.inflight = false) := by
  obtain ⟨s, hs⟩ := Option.isSome_iff_exists.1 (show
    ((sampleBefore ++ sampleAfter).foldlM (step samplePython)
      (.initial sampleEnv 0)).isSome = true by decide +kernel)
  exact ⟨s, hs, (drain_accounted hs).1, (drain_accounted hs).2.1⟩

/-! ## Rolling back -/

/-- The two ways to turn the secondary off. -/
inductive Rollback where
  | flag
  | breaker

namespace Rollback

/-- The rollback is in force. -/
def Holds : Rollback → Process → Prop
  | flag, s => isDualReadEnabled s.env = false
  | breaker, s => s.breaker.tripped = true

def undone : Rollback → Action V → Bool
  | flag, .setDualRead value => saysTrue value
  | breaker, .reset => true
  | _, _ => false

/-- A request this far may still ask the secondary. -/
def armed : Rollback → Progress → Bool
  | _, .running dualRead => dualRead
  | flag, .flagged envSaysTrue => envSaysTrue
  | _, _ => false

def ArmedAt (mode : Rollback) (rs : List Request) (i : Nat) : Prop :=
  ∃ r, rs[i]? = some r ∧ r.path = "/query" ∧ mode.armed r.progress = true

end Rollback

/-- The query has been asked. -/
def Progress.spent : Progress → Bool
  | .asked _ | .left => true
  | _ => false

def SpentAt (rs : List Request) (i : Nat) : Prop := ∃ r, rs[i]? = some r ∧ r.progress.spent = true

theorem getElem?_set {rs : List Request} {i j : Nat} {r r' : Request} (hr : rs[i]? = some r) :
    (rs.set i r')[j]? = if j = i then some r' else rs[j]? := by
  obtain ⟨hi, -⟩ := List.getElem?_eq_some_iff.1 hr
  rw [List.getElem?_set]
  by_cases hj : j = i
  · simp [hj, hi]
  · simp [hj, Ne.symm hj]

variable {mode : Rollback} {rs : List Request} {i j : Nat} {r r' : Request}

/-- One request goes on; if it is armed then, another has been. -/
theorem Rollback.ArmedAt.of_set (hr : rs[i]? = some r)
    (harmed : r'.path = "/query" → mode.armed r'.progress = true → mode.ArmedAt rs i)
    (h : mode.ArmedAt (rs.set i r') j) : mode.ArmedAt rs j := by
  obtain ⟨r₁, hr₁, hpath, hprogress⟩ := h
  rw [getElem?_set hr] at hr₁
  split_ifs at hr₁ with hj
  · cases hr₁
    exact hj ▸ harmed hpath hprogress
  · exact ⟨r₁, hr₁, hpath, hprogress⟩

theorem SpentAt.set (hr : rs[i]? = some r)
    (hspent : r.progress.spent = true → r'.progress.spent = true) (h : SpentAt rs j) :
    SpentAt (rs.set i r') j := by
  obtain ⟨r₁, hr₁, hprogress⟩ := h
  by_cases hj : j = i
  · subst hj
    rw [hr] at hr₁
    cases hr₁
    exact ⟨r', by rw [getElem?_set hr, if_pos rfl], hspent hprogress⟩
  · exact ⟨r₁, by rw [getElem?_set hr, if_neg hj, hr₁], hprogress⟩

theorem any_invokesSecondary {effects : List Effect} :
    effects.any invokesSecondary = true ↔ .secondaryInvoked ∈ effects := by
  rw [List.any_eq_true]
  constructor
  · rintro ⟨e, he, hinvokes⟩
    cases e with
    | secondaryInvoked => exact he
    | _ => exact absurd hinvokes Bool.false_ne_true
  · intro he
    exact ⟨_, he, rfl⟩

/-- The secondary is asked only under a snapshot that says so, whatever the flag says meanwhile. -/
theorem dispatchWithRouter_invokes {env : Env} {breaker : BreakerState} {dualRead : Bool}
    {input : QueryInput V}
    (h : (dispatchWithRouter py env breaker dualRead input).effects.any invokesSecondary = true) :
    dualRead = true := by
  cases dualRead with
  | true => rfl
  | false =>
    rw [any_invokesSecondary] at h
    cases hprimary : input.primary with
    | error e =>
      simp [dispatchWithRouter, DualReadRouter.query, QueryCall.enabled, QueryCall.dispatched,
        countAttempt, wiringGuard, hprimary, pure, Except.pure] at h
    | ok primary =>
      simp [dispatchWithRouter, DualReadRouter.query, QueryCall.enabled, QueryCall.dispatched,
        countAttempt, wiringGuard, hprimary, skip, invoked_recordOutcome, logDecision, mem_attempt,
        pure, Except.pure] at h

theorem tripped_record (b : BreakerState) (nowTs wall : ℚ) (u : Bool) (h : b.tripped = true) :
    (recordUnreachableObservation b nowTs u wall).tripped = true := by
  simp [recordUnreachableObservation, evictOld, h]

/-- A rollback stays in force until it is undone. -/
theorem Rollback.Holds.step (h : mode.Holds s) (hkept : mode.undone a = false)
    (hstep : Stepped py s a t) : mode.Holds t := by
  cases mode with
  | flag =>
    cases hstep with
    | setDualRead value => exact hkept
    | setMemoryRouter value => exact h
    | poll hdrain hwake =>
      rw [Lifespan.poll]
      dsimp only
      split_ifs <;> exact h
    | _ => exact h
  | breaker =>
    cases hstep with
    | reset => cases hkept
    | record wall hr hprogress => exact tripped_record _ _ _ _ h
    | poll hdrain hwake =>
      rw [Lifespan.poll]
      dsimp only
      split_ifs <;> exact h
    | _ => exact h

/-- What has become of the secondaries since `s`: only requests armed then have asked, each once. -/
structure Since (mode : Rollback) (s t : Process) (late : List Nat) : Prop where
  holds : mode.Holds t
  invoked : t.invoked = s.invoked ++ late
  nodup : late.Nodup
  late : ∀ i ∈ late, mode.ArmedAt s.requests i ∧ SpentAt t.requests i
  armed : ∀ i, mode.ArmedAt t.requests i → mode.ArmedAt s.requests i

theorem Since.start (h : mode.Holds s) : Since mode s s [] :=
  ⟨h, (List.append_nil _).symm, .nil, fun _ hi => absurd hi List.not_mem_nil, fun _ hi => hi⟩

variable {u : Process} {late : List Nat}

/-- Nobody asks the secondary, and nobody is armed who was not. -/
theorem Since.frame (h : Since mode s t late) (hholds : mode.Holds u)
    (hinvoked : u.invoked = t.invoked)
    (hspent : ∀ i, SpentAt t.requests i → SpentAt u.requests i)
    (harmed : ∀ i, mode.ArmedAt u.requests i → mode.ArmedAt t.requests i) : Since mode s u late :=
  ⟨hholds, hinvoked.trans h.invoked, h.nodup,
    fun i hi => ⟨(h.late i hi).1, hspent i (h.late i hi).2⟩, fun i hi => h.armed i (harmed i hi)⟩

/-- One request goes on, without asking the secondary. -/
theorem Since.move (h : Since mode s t late) (hr : t.requests[i]? = some r) (hholds : mode.Holds u)
    (hinvoked : u.invoked = t.invoked) (hrequests : u.requests = t.requests.set i r')
    (hspent : r.progress.spent = true → r'.progress.spent = true)
    (harmed : r'.path = "/query" → mode.armed r'.progress = true → mode.ArmedAt t.requests i) :
    Since mode s u late := by
  refine h.frame hholds hinvoked ?_ ?_
  · intro j hj
    rw [hrequests]
    exact hj.set hr hspent
  · intro j hj
    rw [hrequests] at hj
    exact hj.of_set hr harmed

/-- An armed request asks the secondary. -/
theorem Since.ask (h : Since mode s t late) (hr : t.requests[i]? = some r)
    (harmed : mode.ArmedAt t.requests i) (hunspent : r.progress.spent = false)
    (hholds : mode.Holds u) (hinvoked : u.invoked = t.invoked ++ [i])
    (hrequests : u.requests = t.requests.set i r') (hspent : r'.progress.spent = true)
    (hunarmed : mode.armed r'.progress = false) : Since mode s u (late ++ [i]) := by
  have hnew : i ∉ late := by
    intro hi
    obtain ⟨r₁, hr₁, hspent₁⟩ := (h.late i hi).2
    rw [hr] at hr₁
    cases hr₁
    rw [hunspent] at hspent₁
    cases hspent₁
  refine ⟨hholds, ?_, ?_, ?_, ?_⟩
  · rw [hinvoked, h.invoked, List.append_assoc]
  · rw [List.nodup_append]
    exact ⟨h.nodup, List.nodup_singleton i,
      fun j hj k hk hjk => hnew (List.mem_singleton.1 hk ▸ hjk ▸ hj)⟩
  · intro j hj
    rw [hrequests]
    obtain hj | hj := List.mem_append.1 hj
    · exact ⟨(h.late j hj).1, (h.late j hj).2.set hr fun _ => hspent⟩
    · obtain rfl := List.mem_singleton.1 hj
      exact ⟨h.armed j harmed, r', by rw [getElem?_set hr, if_pos rfl], hspent⟩
  · intro j hj
    rw [hrequests] at hj
    refine h.armed j (hj.of_set hr fun _ hp => ?_)
    rw [hunarmed] at hp
    cases hp

theorem Since.stepped (h : Since mode s t late) (hkept : mode.undone a = false)
    (hstep : Stepped py t a u) : ∃ more, Since mode s u (late ++ more) := by
  have hholds := h.holds.step hkept hstep
  cases hstep with
  | setDualRead | setMemoryRouter | reset | tick | shutdown =>
    exact ⟨[], by simpa using h.frame hholds rfl (fun _ hi => hi) (fun _ hi => hi)⟩
  | receive path =>
    refine ⟨[], ?_⟩
    rw [List.append_nil]
    refine h.frame hholds rfl ?_ ?_
    · rintro i ⟨r, hr, hspent⟩
      obtain ⟨hi, -⟩ := List.getElem?_eq_some_iff.1 hr
      exact ⟨r, by rw [← hr]; exact List.getElem?_append_left hi, hspent⟩
    · rintro i ⟨r, hr, hpath, harmed⟩
      by_cases hi : i < t.requests.length
      · exact ⟨r, by rw [← hr]; exact (List.getElem?_append_left hi).symm, hpath, harmed⟩
      · -- What has just come in is not armed.
        have hnew : r = ⟨path, .received⟩ := by
          have hmem := List.mem_of_getElem? hr
          simp only [List.getElem?_append_right (not_lt.1 hi)] at hr
          exact (List.mem_singleton.1 (List.mem_of_getElem? hr))
        subst hnew
        cases mode <;> simp [Rollback.armed] at harmed
  | @readFlag i r hr hprogress =>
    refine ⟨[], ?_⟩
    rw [List.append_nil]
    refine h.move hr hholds rfl rfl (by simp [hprogress, Progress.spent]) ?_
    intro _ harmed
    cases mode with
    | flag =>
      have hoff : isDualReadEnabled t.env = false := h.holds
      simp [Rollback.armed, hoff] at harmed
    | breaker => simp [Rollback.armed] at harmed
  | @enter i r envSaysTrue entered hr hprogress hentered =>
    refine ⟨[], ?_⟩
    rw [List.append_nil]
    refine h.move hr hholds rfl rfl (by simp [hprogress, Progress.spent]) ?_
    intro hpath harmed
    subst hentered
    cases mode with
    | flag =>
      obtain ⟨henv, -⟩ : envSaysTrue = true ∧ t.breaker.tripped = false := by
        simpa [Rollback.armed] using harmed
      exact ⟨r, hr, hpath, by rw [hprogress]; exact henv⟩
    | breaker =>
      have htripped : t.breaker.tripped = true := h.holds
      simp [Rollback.armed, htripped] at harmed
  | @query i r dualRead input effects hr hprogress hpath heffects =>
    have hspent : r.progress.spent = true →
        (Progress.asked (effects.filterMap fed?)).spent = true := fun _ => rfl
    have hunarmed : mode.armed (.asked (effects.filterMap fed?)) = false := by
      cases mode <;> rfl
    by_cases hinvokes : effects.any invokesSecondary = true
    · -- The request was armed, and has not asked before.
      have hdualRead : dualRead = true := dispatchWithRouter_invokes (heffects ▸ hinvokes)
      have harmed : mode.ArmedAt t.requests i := by
        refine ⟨r, hr, hpath, ?_⟩
        rw [hprogress, hdualRead]
        cases mode <;> rfl
      exact ⟨[i], h.ask hr harmed (by simp [hprogress, Progress.spent]) hholds (if_pos hinvokes) rfl
        rfl hunarmed⟩
    · refine ⟨[], ?_⟩
      rw [List.append_nil]
      refine h.move hr hholds (if_neg hinvokes) rfl hspent fun _ hp => ?_
      rw [hunarmed] at hp
      cases hp
  | @record i r v feeds wall hr hprogress =>
    refine ⟨[], ?_⟩
    rw [List.append_nil]
    refine h.move hr hholds rfl rfl (fun _ => rfl) fun _ hp => ?_
    cases mode <;> cases hp
  | @leave i r hr hprogress =>
    refine ⟨[], ?_⟩
    rw [List.append_nil]
    refine h.move hr hholds rfl rfl (fun _ => rfl) fun _ hp => ?_
    cases mode <;> cases hp
  | poll hdrain hwake =>
    refine ⟨[], ?_⟩
    rw [List.append_nil]
    refine h.frame hholds ?_ ?_ ?_
    · rw [Lifespan.poll]
      dsimp only
      split_ifs <;> rfl
    · intro i hi
      rw [Lifespan.poll]
      dsimp only
      split_ifs <;> exact hi
    · intro i hi
      rw [Lifespan.poll] at hi
      dsimp only at hi
      split_ifs at hi <;> exact hi

theorem Since.after {bs : List (Action V)} (hbs : ∀ a ∈ bs, mode.undone a = false)
    (h : Since mode s t late) (hrun : bs.foldlM (step py) t = some u) :
    ∃ more, Since mode s u (late ++ more) := by
  induction bs generalizing t late with
  | nil =>
    cases hrun
    exact ⟨[], by rwa [List.append_nil]⟩
  | cons b bs ih =>
    rw [List.foldlM_cons] at hrun
    obtain ⟨v, hv, hrest⟩ := Option.bind_eq_some_iff.1 hrun
    obtain ⟨hb, hbs⟩ := List.forall_mem_cons.1 hbs
    obtain ⟨more, hmore⟩ := h.stepped hb (step_cases hv).2
    obtain ⟨rest, hsince⟩ := ih hbs hmore hrest
    exact ⟨more ++ rest, by rwa [← List.append_assoc]⟩

/-- Once the flag is off, or the breaker tripped, the secondary is asked by requests only that had
passed the middleware before, once each; and once none is in flight it is not asked again. -/
theorem rollback_drains {env : Env} {now : ℚ} {as bs : List (Action V)}
    (hs : as.foldlM (step py) (.initial env now) = some s) (hholds : mode.Holds s)
    (hbs : ∀ a ∈ bs, mode.undone a = false) (ht : bs.foldlM (step py) s = some t) :
    ∃ late : List Nat, t.invoked = s.invoked ++ late ∧ late.Nodup ∧
      (∀ i ∈ late, mode.ArmedAt s.requests i) ∧
      (s.gauge = 0 → (∀ r ∈ s.requests, r.progress ≠ .flagged true) → late = []) := by
  obtain ⟨late, hsince⟩ := (Since.start hholds).after hbs ht
  rw [List.nil_append] at hsince
  refine ⟨late, hsince.invoked, hsince.nodup, fun i hi => (hsince.late i hi).1, ?_⟩
  intro hgauge hflagged
  refine List.eq_nil_iff_forall_not_mem.2 fun i hi => ?_
  obtain ⟨r, hr, hpath, harmed⟩ := (hsince.late i hi).1
  have hmem := List.mem_of_getElem? hr
  have hcounts := (run_sound hs).1
  rw [GaugeCounts, hgauge] at hcounts
  have hnone : s.requests.countP Request.inflight = 0 := by omega
  have hinflight := List.countP_eq_zero.1 hnone r hmem
  cases hprogress : r.progress with
  | running dualRead =>
    exact hinflight (by simp [Request.inflight, inflightExcludedPaths, hpath, hprogress])
  | flagged envSaysTrue =>
    rw [hprogress] at harmed
    cases mode with
    | flag => exact hflagged r hmem (by rw [hprogress]; exact congrArg _ harmed)
    | breaker => cases harmed
  | received => cases mode <;> simp [Rollback.armed, hprogress] at harmed
  | asked feeds => cases mode <;> simp [Rollback.armed, hprogress] at harmed
  | left => cases mode <;> simp [Rollback.armed, hprogress] at harmed

theorem rollback_drains_sample :
    ∃ s t, sampleBefore.foldlM (step samplePython) (.initial sampleEnv 0) = some s ∧
      sampleAfter.foldlM (step samplePython) s = some t ∧
      ∃ late : List Nat, t.invoked = s.invoked ++ late ∧ late.Nodup ∧
        ∀ i ∈ late, Rollback.flag.ArmedAt s.requests i := by
  have hboth : ((sampleBefore.foldlM (step samplePython) (.initial sampleEnv 0)).bind fun s =>
      if isDualReadEnabled s.env then none
      else sampleAfter.foldlM (step samplePython) s).isSome = true := by decide +kernel
  obtain ⟨t, ht⟩ := Option.isSome_iff_exists.1 hboth
  obtain ⟨s, hs, ht⟩ := Option.bind_eq_some_iff.1 ht
  split_ifs at ht with hoff
  have hholds : Rollback.flag.Holds s := Bool.eq_false_iff.2 hoff
  obtain ⟨late, hinvoked, hnodup, hlate, -⟩ := rollback_drains hs hholds (by decide) ht
  exact ⟨s, t, hs, ht, late, hinvoked, hnodup, hlate⟩

end Runs

end ParallaxKernel.Server.Lifespan
