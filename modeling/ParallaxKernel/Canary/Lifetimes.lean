import ParallaxKernel.Canary.Rollback

/-!
# Controllers across processes

`RollbackStateStore` of `canary/rollback_state.py` and the controllers that one after the other
write its row. SQLite refuses a connection outside the thread that opened it, and `record` swallows
that refusal; apart from it writes succeed. A process can exit between any two calls; one that
exits within a call leaves the row as it was before the call or after it.
-/

namespace ParallaxKernel.Canary

/-- `RollbackStateStore.record` on a store that the thread `owner` opened. -/
def recordState (owner thread : Nat) (row : Option StateRow) (new : StateRow) : Option StateRow :=
  if thread = owner then some new else row

/-- A live controller and the thread that opened its store. -/
structure Process where
  run : Run
  storeThread : Nat

/-- The durable row and the process that is alive. -/
structure World where
  row : Option StateRow
  live : Option Process

def World.fresh : World := ⟨none, none⟩

inductive Event where
  | construct (cooldown now : ℚ) (storeThread thread : Nat)
  | call (thread : Nat) (call : Call)
  | exit

/-- `_persist_state`. -/
def persistState (p : Process) (thread : Nat) (row : Option StateRow) :
    Option StateRow → Option StateRow
  | some new => recordState p.storeThread thread row new
  | none => row

/-- One event, where it can happen: one process lives at a time. -/
def World.step (w : World) : Event → Option World
  | .construct cooldown now storeThread thread =>
    match w.live with
    | some _ => none
    | none => some
      { row := recordState storeThread thread w.row ⟨.running, none⟩
        live := some ⟨.start cooldown now, storeThread⟩ }
  | .call thread call =>
    w.live.map fun p =>
      { row := persistState p thread w.row (p.run.controller.call call).2
        live := some { p with run := p.run.step call } }
  | .exit => w.live.map fun _ => { w with live := none }

def World.play (w : World) (events : List Event) : Option World := events.foldlM World.step w

theorem World.play_snoc (w : World) (events : List Event) (e : Event) :
    w.play (events ++ [e]) = (w.play events).bind fun v => v.step e := by
  simp [World.play, List.foldlM_append]

theorem World.play_append (w : World) (events events' : List Event) :
    w.play (events ++ events') = (w.play events).bind fun v => v.play events' := by
  simp [World.play, List.foldlM_append]

/-- The row says so. -/
def World.Says (w : World) (state : CanaryState) : Prop := w.row.map (·.state) = some state

instance (w : World) (state : CanaryState) : Decidable (w.Says state) :=
  inferInstanceAs (Decidable (_ = _))

/-- The call makes a transition. -/
def RollbackController.Due (c : RollbackController) : Call → Prop
  | .evaluate now => (c.state = .running ∧ c.BreachFound now) ∨
      (c.state = .tripped ∧ c.cooledDown now = true)
  | .acknowledge ackBy _ _ => c.state = .awaitingAck ∧ ackBy ≠ ""
  | _ => False

/-- What the code leaves to its callers: no controller is constructed over a trip that nobody has
acknowledged, and transitions happen on the thread that opened the store. -/
def World.Guarded (w : World) : Event → Prop
  | .construct .. => ∀ row ∈ w.row, row.state = .running
  | .call thread call => ∀ p ∈ w.live, p.run.controller.Due call → thread = p.storeThread
  | .exit => True

/-- The cooldown was over at an evaluation, and an acknowledgement succeeded after it. -/
def AckedAfterCooldown (w : World) (events : List Event) : Prop :=
  ∃ before between after thread thread' now ack, events =
      before ++ .call thread (.evaluate now) :: (between ++ .call thread' ack :: after) ∧
    (∃ v p trippedAt, w.play before = some v ∧ v.live = some p ∧
      p.run.lastTrip = some trippedAt ∧ p.run.controller.cooldown ≤ now - trippedAt) ∧
    ∃ v p, w.play (before ++ .call thread (.evaluate now) :: between) = some v ∧
      v.live = some p ∧ p.run.controller.acknowledges ack = true

/-! ## Transitions and rows -/

/-- A call makes a transition, and persists it, exactly when one is due. -/
theorem RollbackController.call_due (c : RollbackController) (call : Call) :
    (c.Due call ∧ ∃ row, (c.call call).2 = some row ∧ row.state = (c.call call).1.state) ∨
    (¬ c.Due call ∧ (c.call call).2 = none ∧ (c.call call).1.state = c.state) := by
  cases call with
  | observeRequest isError latencyMs isMismatch now => exact .inr ⟨nofun, rfl, rfl⟩
  | observeDataLoss count =>
    refine .inr ⟨nofun, rfl, ?_⟩
    simp only [RollbackController.call, RollbackController.observeDataLoss]
    cases recordT4 c.t4 count <;> rfl
  | evaluate now =>
    have hfound := c.firstBreach_evaluated now
    cases hstate : c.state with
    | running =>
      simp only [RollbackController.call, RollbackController.evaluate,
        RollbackController.transition, RollbackController.evaluated_state, hstate]
      cases hbreach : RollbackController.firstBreach (c.evaluated now).lastEvaluations with
      | some breach =>
        exact .inl ⟨.inl ⟨hstate, hfound.1 (by rw [hbreach]; rfl)⟩, _, rfl, rfl⟩
      | none =>
        refine .inr ⟨?_, rfl, hstate⟩
        rintro (⟨-, hdue⟩ | ⟨htripped, -⟩)
        · simpa [hbreach] using hfound.2 hdue
        · cases hstate.symm.trans htripped
    | tripped =>
      simp only [RollbackController.call, RollbackController.evaluate,
        RollbackController.transition, RollbackController.evaluated_state,
        RollbackController.evaluated_cooledDown, hstate]
      by_cases hcool : c.cooledDown now = true
      · exact .inl ⟨.inr ⟨hstate, hcool⟩, by simp [hcool]⟩
      · refine .inr ⟨?_, by simp [hcool], by simp [hcool, hstate]⟩
        rintro (⟨hrunning, -⟩ | ⟨-, hdue⟩)
        · cases hstate.symm.trans hrunning
        · exact hcool hdue
    | awaitingAck =>
      refine .inr ⟨?_, ?_, ?_⟩
      · rintro (⟨hrunning, -⟩ | ⟨htripped, -⟩)
        · cases hstate.symm.trans hrunning
        · cases hstate.symm.trans htripped
      · simp [RollbackController.call, RollbackController.evaluate,
          RollbackController.transition, hstate]
      · exact c.evaluate_awaitingAck now hstate
  | acknowledge ackBy ackAt wallClock =>
    by_cases hdue : c.Due (.acknowledge ackBy ackAt wallClock)
    · obtain ⟨hstate, hby⟩ := hdue
      obtain hrefused | ⟨-, -, c', hack, hrunning, -⟩ := c.acknowledge_cases ackBy ackAt wallClock
      · simp [RollbackController.acknowledge, hstate, hby] at hrefused
      · simp only [RollbackController.call, hack]
        exact .inl ⟨⟨hstate, hby⟩, _, rfl, hrunning.symm⟩
    · obtain hrefused | ⟨hby, hstate, -⟩ := c.acknowledge_cases ackBy ackAt wallClock
      · rw [RollbackController.call, hrefused]
        exact .inr ⟨hdue, rfl, rfl⟩
      · exact absurd ⟨hstate, hby⟩ hdue

/-! ## Guarded runs -/

/-- Every event of the run is guarded where it happens. -/
def World.GuardedRun (w : World) : List Event → Prop
  | [] => True
  | e :: events => w.Guarded e ∧ ∀ v, w.step e = some v → v.GuardedRun events

theorem World.guardedRun_append {w : World} {events events' : List Event} :
    w.GuardedRun (events ++ events') ↔
      w.GuardedRun events ∧ ∀ v, w.play events = some v → v.GuardedRun events' := by
  induction events generalizing w with
  | nil => simp [GuardedRun, World.play]
  | cons e events ih =>
    simp only [List.cons_append, GuardedRun, ih, and_assoc, forall_and]
    have hplay : w.play (e :: events) = (w.step e).bind fun v => v.play events := rfl
    refine and_congr_right fun _ => and_congr_right fun _ => ?_
    rw [hplay]
    cases w.step e <;> simp

theorem World.guardedRun_snoc {w : World} {events : List Event} {e : Event} :
    w.GuardedRun (events ++ [e]) ↔
      w.GuardedRun events ∧ ∀ v, w.play events = some v → v.Guarded e := by
  rw [guardedRun_append]
  simp [GuardedRun]

/-- The row of a live controller is its state; before the first write it is running. -/
def World.Mirrors (w : World) : Prop :=
  ∀ p, w.live = some p → p.run.TripKept ∧
    (w.row.map (·.state)).getD .running = p.run.controller.state

theorem World.Mirrors.step {w v : World} {e : Event} (h : w.Mirrors) (hguarded : w.Guarded e)
    (hstep : w.step e = some v) : v.Mirrors := by
  cases e with
  | construct cooldown now storeThread thread =>
    simp only [World.step] at hstep
    cases hlive : w.live with
    | some p => simp [hlive] at hstep
    | none =>
      obtain rfl : _ = v := by simpa [hlive] using hstep
      rintro p ⟨⟩
      refine ⟨fun hne => absurd rfl hne, ?_⟩
      simp only [recordState]
      split_ifs
      · rfl
      · cases hrow : w.row with
        | none => rfl
        | some row => exact hguarded row hrow
  | call thread call =>
    obtain ⟨p, hlive, rfl⟩ := Option.map_eq_some_iff.1 hstep
    obtain ⟨hkept, hrow⟩ := h p hlive
    rintro q ⟨⟩
    refine ⟨hkept.step call, ?_⟩
    obtain ⟨hdue, row, hpersisted, hstate⟩ | ⟨-, hnone, hsame⟩ := p.run.controller.call_due call
    · obtain rfl := hguarded p hlive hdue
      simp only [hpersisted, persistState, recordState, if_true]
      exact hstate
    · simp only [hnone, persistState]
      exact hrow.trans hsame.symm
  | exit =>
    obtain ⟨p, hlive, rfl⟩ := Option.map_eq_some_iff.1 hstep
    rintro q ⟨⟩

theorem World.mirrors {events : List Event} {w : World}
    (hguarded : World.fresh.GuardedRun events) (hplay : World.fresh.play events = some w) :
    w.Mirrors := by
  induction events using List.reverseRecOn generalizing w with
  | nil =>
    obtain rfl : World.fresh = w := by simpa [World.play] using hplay
    rintro p ⟨⟩
  | append_singleton events e ih =>
    rw [World.play_snoc] at hplay
    obtain ⟨v, hv, hstep⟩ := Option.bind_eq_some_iff.1 hplay
    obtain ⟨hbefore, hlast⟩ := World.guardedRun_snoc.1 hguarded
    exact (ih hbefore hv).step (hlast v hv) hstep

/-! ## Trips survive -/

/-- The cooldown was over at an evaluation. -/
def CooledDown (w : World) (events : List Event) : Prop :=
  ∃ before between thread now, events = before ++ .call thread (.evaluate now) :: between ∧
    ∃ v p trippedAt, w.play before = some v ∧ v.live = some p ∧
      p.run.lastTrip = some trippedAt ∧ p.run.controller.cooldown ≤ now - trippedAt

theorem CooledDown.snoc {w : World} {events : List Event} (h : CooledDown w events) (e : Event) :
    CooledDown w (events ++ [e]) := by
  obtain ⟨before, between, thread, now, rfl, hcool⟩ := h
  exact ⟨before, between ++ [e], thread, now, by simp, hcool⟩

theorem AckedAfterCooldown.snoc {w : World} {events : List Event}
    (h : AckedAfterCooldown w events) (e : Event) : AckedAfterCooldown w (events ++ [e]) := by
  obtain ⟨before, between, after, thread, thread', now, ack, rfl, hcool, hack⟩ := h
  exact ⟨before, between, after ++ [e], thread, thread', now, ack, by simp, hcool, hack⟩

/-- How far a row that said tripped has come. -/
def Progress (w : World) (events : List Event) (v : World) : Prop :=
  v.Says .tripped ∨ (v.Says .awaitingAck ∧ CooledDown w events) ∨ AckedAfterCooldown w events

theorem World.Says.state_eq {w : World} {p : Process} {state : CanaryState} (h : w.Says state)
    (hmirrors : w.Mirrors) (hlive : w.live = some p) : p.run.controller.state = state := by
  have hrow := (hmirrors p hlive).2
  rwa [show w.row.map (·.state) = some state from h, Option.getD_some, eq_comm] at hrow

/-- The row after a guarded call on a live controller. -/
theorem World.says_of_due {w v : World} {thread : Nat} {call : Call} {p : Process}
    (hguarded : w.Guarded (.call thread call)) (hlive : w.live = some p)
    (hstep : w.step (.call thread call) = some v) (hdue : p.run.controller.Due call) :
    v.Says (p.run.controller.call call).1.state := by
  obtain ⟨q, hq, rfl⟩ := Option.map_eq_some_iff.1 hstep
  obtain rfl : p = q := Option.some.inj (hlive.symm.trans hq)
  obtain rfl := hguarded p hlive hdue
  obtain ⟨-, row, hpersisted, hstate⟩ | ⟨hnot, -⟩ := p.run.controller.call_due call
  · simpa [World.Says, hpersisted, persistState, recordState] using hstate
  · exact absurd hdue hnot

theorem World.says_of_not_due {w v : World} {thread : Nat} {call : Call} {p : Process}
    {state : CanaryState} (hlive : w.live = some p)
    (hstep : w.step (.call thread call) = some v) (hdue : ¬ p.run.controller.Due call)
    (htells : w.Says state) : v.Says state := by
  obtain ⟨q, hq, rfl⟩ := Option.map_eq_some_iff.1 hstep
  obtain rfl : p = q := Option.some.inj (hlive.symm.trans hq)
  obtain ⟨hnow, -⟩ | ⟨-, hnone, -⟩ := p.run.controller.call_due call
  · exact absurd hnow hdue
  · simpa only [World.Says, hnone, persistState] using htells

theorem not_construct {w : World} {state : CanaryState} {cooldown now : ℚ}
    {storeThread thread : Nat} (htells : w.Says state) (hstate : state ≠ .running) :
    ¬ w.Guarded (.construct cooldown now storeThread thread) := by
  intro hguarded
  obtain ⟨row, hrow, rfl⟩ := Option.map_eq_some_iff.1 htells
  exact hstate (hguarded row hrow)

/-- What a due call on a tripped controller is: the evaluation after the cooldown. -/
theorem Progress.of_tripped {w v u : World} {events : List Event} {thread : Nat} {call : Call}
    (hplay : w.play events = some v) (htells : v.Says .tripped) (hmirrors : v.Mirrors)
    (hguarded : v.Guarded (.call thread call)) (hstep : v.step (.call thread call) = some u) :
    Progress w (events ++ [.call thread call]) u := by
  obtain ⟨p, hlive, -⟩ := Option.map_eq_some_iff.1 hstep
  have hstate := htells.state_eq hmirrors hlive
  by_cases hdue : p.run.controller.Due call
  · have hnext := v.says_of_due hguarded hlive hstep hdue
    cases call with
    | evaluate now =>
      rcases p.run.controller.evaluate_tripped now hstate with ⟨hawaiting, hcool⟩ | htripped
      · obtain ⟨trippedAt, htrippedAt, hpassed⟩ := (Option.any_eq_true ..).1 hcool
        have hkept := (hmirrors p hlive).1 fun hrun => nomatch hstate.symm.trans hrun
        refine .inr (.inl ⟨hawaiting ▸ hnext, events, [], thread, now, rfl, v, p, trippedAt,
          hplay, hlive, hkept.symm.trans htrippedAt, ?_⟩)
        exact of_decide_eq_true hpassed
      · exact .inl (htripped ▸ hnext)
    | acknowledge ackBy ackAt wallClock => exact nomatch hstate.symm.trans hdue.1
    | observeRequest isError latencyMs isMismatch now => exact hdue.elim
    | observeDataLoss count => exact hdue.elim
  · exact .inl (v.says_of_not_due hlive hstep hdue htells)

/-- What a due call on a controller that awaits it is: the acknowledgement. -/
theorem Progress.of_awaitingAck {w v u : World} {events : List Event} {thread : Nat} {call : Call}
    (hplay : w.play events = some v) (htells : v.Says .awaitingAck) (hcool : CooledDown w events)
    (hmirrors : v.Mirrors) (hstep : v.step (.call thread call) = some u) :
    Progress w (events ++ [.call thread call]) u := by
  obtain ⟨p, hlive, -⟩ := Option.map_eq_some_iff.1 hstep
  have hstate := htells.state_eq hmirrors hlive
  by_cases hdue : p.run.controller.Due call
  · cases call with
    | evaluate now =>
      rcases hdue with ⟨hrunning, -⟩ | ⟨htripped, -⟩
      · exact nomatch hstate.symm.trans hrunning
      · exact nomatch hstate.symm.trans htripped
    | acknowledge ackBy ackAt wallClock =>
      obtain ⟨before, between, thread', now, rfl, hcooled⟩ := hcool
      have hack : p.run.controller.acknowledges (.acknowledge ackBy ackAt wallClock) = true := by
        simp [RollbackController.acknowledges, RollbackController.acknowledge, hdue.1, hdue.2]
      exact .inr (.inr ⟨before, between, [], thread', thread, now, _, by simp, hcooled, v, p,
        hplay, hlive, hack⟩)
    | observeRequest isError latencyMs isMismatch now => exact hdue.elim
    | observeDataLoss count => exact hdue.elim
  · exact .inr (.inl ⟨v.says_of_not_due hlive hstep hdue htells, hcool.snoc _⟩)

theorem Progress.step {w v u : World} {events : List Event} {e : Event}
    (hplay : w.play events = some v) (h : Progress w events v) (hmirrors : v.Mirrors)
    (hguarded : v.Guarded e) (hstep : v.step e = some u) : Progress w (events ++ [e]) u := by
  rcases h with htells | ⟨htells, hcool⟩ | hacked
  · cases e with
    | construct cooldown now storeThread thread => exact absurd hguarded (not_construct htells nofun)
    | call thread call => exact .of_tripped hplay htells hmirrors hguarded hstep
    | exit =>
      obtain ⟨p, -, rfl⟩ := Option.map_eq_some_iff.1 hstep
      exact .inl htells
  · cases e with
    | construct cooldown now storeThread thread => exact absurd hguarded (not_construct htells nofun)
    | call thread call => exact .of_awaitingAck hplay htells hcool hmirrors hstep
    | exit =>
      obtain ⟨p, -, rfl⟩ := Option.map_eq_some_iff.1 hstep
      exact .inr (.inl ⟨htells, hcool.snoc .exit⟩)
  · exact .inr (.inr (hacked.snoc e))

theorem Progress.of_play {before events : List Event} {w v : World}
    (hguarded : World.fresh.GuardedRun (before ++ events))
    (hbefore : World.fresh.play before = some w) (htells : w.Says .tripped)
    (hplay : w.play events = some v) : Progress w events v := by
  induction events using List.reverseRecOn generalizing v with
  | nil =>
    obtain rfl : w = v := by simpa [World.play] using hplay
    exact .inl htells
  | append_singleton events e ih =>
    rw [World.play_snoc] at hplay
    obtain ⟨u, hu, hstep⟩ := Option.bind_eq_some_iff.1 hplay
    rw [← List.append_assoc] at hguarded
    obtain ⟨hinit, hlast⟩ := World.guardedRun_snoc.1 hguarded
    have hwhole : World.fresh.play (before ++ events) = some u := by
      rw [World.play_append, hbefore]
      exact hu
    exact (ih hinit hu).step hu (World.mirrors hinit hwhole) (hlast u hwhole) hstep

/-- Where no controller is constructed over a trip and transitions happen on the thread of the
store, a trip outlives the processes and the row is the state after every transition. -/
theorem trip_survives {events : List Event} {w : World}
    (hguarded : World.fresh.GuardedRun events) (hplay : World.fresh.play events = some w) :
    (∀ before after v, events = before ++ after → World.fresh.play before = some v →
      v.Says .tripped → w.Says .running → AckedAfterCooldown v after) ∧
    ∀ before thread call v p, events = before ++ [.call thread call] →
      World.fresh.play before = some v → v.live = some p → p.run.controller.Due call →
      w.Says (p.run.controller.call call).1.state := by
  constructor
  · rintro before after v rfl hbefore htells hrunning
    have hafter : v.play after = some w := by
      rwa [World.play_append, hbefore, Option.bind_some] at hplay
    rcases Progress.of_play hguarded hbefore htells hafter with htripped | ⟨hawaiting, -⟩ | hacked
    · exact nomatch htripped.symm.trans hrunning
    · exact nomatch hawaiting.symm.trans hrunning
    · exact hacked
  · rintro before thread call v p rfl hbefore hlive hdue
    obtain ⟨-, hlast⟩ := World.guardedRun_snoc.1 hguarded
    rw [World.play_snoc, hbefore, Option.bind_some] at hplay
    exact v.says_of_due (hlast v hbefore) hlive hplay hdue

/-- Calls on the thread of the store are guarded. -/
theorem World.guardedRun_of_owner {w : World} {p : Process} (hlive : w.live = some p)
    (calls : List Call) : w.GuardedRun (calls.map (.call p.storeThread)) := by
  induction calls generalizing w p with
  | nil => trivial
  | cons call calls ih =>
    refine ⟨fun q hq _ => ?_, fun v hv => ?_⟩
    · rw [Option.some.inj (hlive.symm.trans hq)]
    · obtain ⟨q, hq, rfl⟩ := Option.map_eq_some_iff.1 hv
      obtain rfl : p = q := Option.some.inj (hlive.symm.trans hq)
      exact ih (p := { p with run := p.run.step call }) rfl

section Sample

/-- A controller with enough requests, all failing, that is evaluated. -/
def tripEvents (thread : Nat) : List Event :=
  .construct cooldownSeconds 0 1 1 ::
    ((List.replicate 50 (.observeRequest true 1 false 10)).map (.call 1) ++
      [.call thread (.evaluate 20)])

/-- The evaluation after the cooldown, and the acknowledgement. -/
def ackEvents : List Event :=
  [.evaluate 1820, .acknowledge "ann" none "2026-01-01T00:00:00+00:00"].map (.call 1)

theorem trip_survives_sample : ∃ v, World.fresh.play (tripEvents 1) = some v ∧ v.Says .tripped ∧
    AckedAfterCooldown v ackEvents := by
  have hruns : ((World.fresh.play (tripEvents 1)).any fun v => decide (v.Says .tripped) &&
      (v.play ackEvents).any fun w => decide (w.Says .running)) = true := by decide +kernel
  obtain ⟨v, hv, hboth⟩ := (Option.any_eq_true ..).1 hruns
  obtain ⟨htripped, hends⟩ := Bool.and_eq_true_iff.1 hboth
  obtain ⟨w, hw, hrunning⟩ := (Option.any_eq_true ..).1 hends
  have hguarded : World.fresh.GuardedRun (tripEvents 1 ++ ackEvents) := by
    refine ⟨nofun, fun u hu => ?_⟩
    cases hu
    exact World.guardedRun_of_owner (w := ⟨_, some ⟨.start cooldownSeconds 0, 1⟩⟩) rfl
      (List.replicate 50 (.observeRequest true 1 false 10) ++ [.evaluate 20, .evaluate 1820,
        .acknowledge "ann" none "2026-01-01T00:00:00+00:00"])
  have hplay : World.fresh.play (tripEvents 1 ++ ackEvents) = some w := by
    rw [World.play_append, hv]
    exact hw
  exact ⟨v, hv, of_decide_eq_true htripped, (trip_survives hguarded hplay).1 _ _ v rfl hv
    (of_decide_eq_true htripped) (of_decide_eq_true hrunning)⟩

/-- A new process says running over a trip that nobody acknowledged, and a trip on another thread
than the one that opened the store is not written at all. -/
theorem trip_forgotten :
    (∃ v w, World.fresh.play (tripEvents 1) = some v ∧ v.Says .tripped ∧
      v.play [.exit, .construct cooldownSeconds 30 2 2] = some w ∧ w.Says .running ∧
      ¬ AckedAfterCooldown v [.exit, .construct cooldownSeconds 30 2 2]) ∧
    ∃ v p, World.fresh.play (tripEvents 2) = some v ∧ v.live = some p ∧
      p.run.controller.state = .tripped ∧ v.Says .running := by
  have hrestart : ((World.fresh.play (tripEvents 1)).any fun v => decide (v.Says .tripped) &&
      (v.play [.exit, .construct cooldownSeconds 30 2 2]).any fun w =>
        decide (w.Says .running)) = true := by decide +kernel
  have hthread : ((World.fresh.play (tripEvents 2)).any fun v => decide (v.Says .running) &&
      v.live.any fun p => decide (p.run.controller.state = .tripped)) = true := by
    decide +kernel
  obtain ⟨v, hv, hboth⟩ := (Option.any_eq_true ..).1 hrestart
  obtain ⟨htripped, hends⟩ := Bool.and_eq_true_iff.1 hboth
  obtain ⟨w, hw, hrunning⟩ := (Option.any_eq_true ..).1 hends
  obtain ⟨u, hu, hboth'⟩ := (Option.any_eq_true ..).1 hthread
  obtain ⟨htells, hlives⟩ := Bool.and_eq_true_iff.1 hboth'
  obtain ⟨p, hp, hstate⟩ := (Option.any_eq_true ..).1 hlives
  refine ⟨⟨v, w, hv, of_decide_eq_true htripped, hw, of_decide_eq_true hrunning, ?_⟩,
    u, p, hu, hp, of_decide_eq_true hstate, of_decide_eq_true htells⟩
  rintro ⟨before, between, after, thread, thread', now, ack, hevents, -⟩
  have hmem : Event.call thread (.evaluate now) ∈
      [Event.exit, .construct cooldownSeconds 30 2 2] := hevents ▸ by simp
  simp at hmem

end Sample

end ParallaxKernel.Canary
