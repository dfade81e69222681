import Mathlib.Algebra.Group.Nat.Defs
import Mathlib.Data.List.Perm.Subperm
import Mathlib.Data.List.Nodup
import Mathlib.Logic.Function.Basic
import Mathlib.Order.Lattice
import ParallaxKernel.Lib.Runs

/-!
# The journal of drain timeouts

`server/drain_journal.py`, and the drain and the restore of `server/lifespan.py`. Processes share
one journal file, which nothing else writes; every process has a counter of its own. A call reads
the journal, writes a temporary file and renames it, and its process may end before each of these
steps. Totals are whole doubles.
-/

namespace ParallaxKernel.Server.Drain

open Lib

/-! ## The journal -/

/-- `x + 1.0`. At `2 ^ 53` the sum is rounded back. -/
def plusOne (x : Nat) : Nat := if x < 2 ^ 53 then x + 1 else x

variable {τ : Type}

/-- What `json.dump` writes and `json.loads` gives back. -/
structure Payload (τ : Type) where
  drainTimeoutTotal : Nat
  lastInflightCount : Int
  lastTimeoutSeconds : τ

structure DrainJournal (τ : Type) where
  total : Nat
  lastInflightCount : Option Int
  lastTimeoutSeconds : Option τ
  readable : Bool

/-- `read_drain_journal`. Reading the file may fail. -/
def readDrainJournal (file : Option (Payload τ)) (fails : Bool) : DrainJournal τ :=
  if fails then
    { total := 0, lastInflightCount := none, lastTimeoutSeconds := none, readable := false }
  else
    match file with
    | none =>
      { total := 0, lastInflightCount := none, lastTimeoutSeconds := none, readable := true }
    | some payload =>
      { total := payload.drainTimeoutTotal
        lastInflightCount := some payload.lastInflightCount
        lastTimeoutSeconds := some payload.lastTimeoutSeconds
        readable := true }

/-- The counter after `restore_drain_timeout_counter`, and the delta added. -/
def restoreDrainTimeoutCounter (journal : DrainJournal τ) (current : Nat) : Nat × Nat :=
  let delta : Int := journal.total - current
  if delta ≤ 0 then (current, 0) else (current + delta.toNat, delta.toNat)

/-! ## Processes and calls -/

variable {ι π : Type}

/-- A drain that times out, in one process. -/
structure DrainTimeout (π τ : Type) where
  process : π
  inflightCount : Int
  timeoutSeconds : τ

/-- Where a call of `record_drain_timeout` stands. `total` is what it writes; `seen` is how many
renames had taken place when it read the journal, and `fails` whether the reading failed. -/
inductive Progress where
  | idle
  | started
  | read (total seen : Nat) (fails : Bool)
  | written (total seen : Nat) (fails : Bool)
  | renamed (total : Nat)
  | returned (total : Nat)
  deriving DecidableEq

inductive Life where
  | unborn
  | running
  | dead
  deriving DecidableEq

/-- A process; `startedAt` is how many renames had taken place at its start, and `restored` is set
once it has run the restore. -/
structure Process where
  life : Life
  counter : Nat
  startedAt : Nat
  restored : Bool

/-- `drained` and `renamed` are the events so far, and those of them whose rename has taken place,
in their order. -/
structure State (ι π τ : Type) where
  file : Option (Payload τ)
  progress : ι → Progress
  process : π → Process
  drained : List ι
  renamed : List ι

def State.initial : State ι π τ where
  file := none
  progress _ := .idle
  process _ := { life := .unborn, counter := 0, startedAt := 0, restored := false }
  drained := []
  renamed := []

/-- The total that the journal holds. -/
def State.total (s : State ι π τ) : Nat := (readDrainJournal s.file false).total

/-- The steps of `record_drain_timeout`. -/
inductive CallStep where
  | read (fails : Bool)
  | write (fails : Bool)
  | rename (fails : Bool)
  | ret

inductive Action (ι π : Type) where
  | start (p : π)
  | crash (p : π)
  | restore (p : π) (fails : Bool)
  | drain (i : ι)
  | call (i : ι) (next : CallStep)

variable [DecidableEq ι] [DecidableEq π]

def State.move (s : State ι π τ) (i : ι) (p : Progress) : State ι π τ :=
  { s with progress := Function.update s.progress i p }

def State.set (s : State ι π τ) (p : π) (process : Process) : State ι π τ :=
  { s with process := Function.update s.process p process }

variable (timeouts : ι → DrainTimeout π τ)

/-- `record_drain_timeout`, step by step. -/
def advance (s : State ι π τ) (i : ι) : CallStep → Progress → Option (State ι π τ)
  | .read fails, .started =>
    let journal := readDrainJournal s.file fails
    some (s.move i (.read (plusOne journal.total) s.renamed.length fails))
  | .write fails, .read total seen unread =>
    if fails then some (s.move i (.returned 0))
    else some (s.move i (.written total seen unread))
  | .rename fails, .written total _ _ =>
    if fails then some (s.move i (.returned 0))
    else
      let payload : Payload τ :=
        { drainTimeoutTotal := total
          lastInflightCount := (timeouts i).inflightCount
          lastTimeoutSeconds := (timeouts i).timeoutSeconds }
      some ({ s with file := some payload, renamed := s.renamed ++ [i] }.move i (.renamed total))
  | .ret, .renamed total => some (s.move i (.returned total))
  | _, _ => none

/-- Processes start and end, restore their counters, drain and record. -/
def step (s : State ι π τ) : Action ι π → Option (State ι π τ)
  | .start p =>
    if (s.process p).life = .unborn then
      some (s.set p
        { life := .running, counter := 0, startedAt := s.renamed.length, restored := false })
    else none
  | .crash p =>
    if (s.process p).life = .running then some (s.set p { s.process p with life := .dead })
    else none
  | .restore p fails =>
    if (s.process p).life = .running then
      let journal := readDrainJournal s.file fails
      let counter := (restoreDrainTimeoutCounter journal (s.process p).counter).1
      some (s.set p { s.process p with counter, restored := true })
    else none
  | .drain i =>
    let p := (timeouts i).process
    if (s.process p).life = .running ∧ s.progress i = .idle then
      let s := { s with drained := s.drained ++ [i] }.move i .started
      some (s.set p { s.process p with counter := plusOne (s.process p).counter })
    else none
  | .call i next =>
    if (s.process (timeouts i).process).life = .running then
      advance timeouts s i next (s.progress i)
    else none

/-! ## What is claimed -/

/-- The events that the counter of a process can be about: its own and those in the journal. -/
def State.events (s : State ι π τ) (p : π) : List ι :=
  s.drained.filter fun i => (timeouts i).process = p ∨ i ∈ s.renamed

structure Correct (s : State ι π τ) : Prop where
  total : s.total = s.renamed.length
  returned : ∀ calls : List ι, calls.Nodup →
    (∀ i ∈ calls, ∃ total, total ≠ 0 ∧ s.progress i = .returned total) → calls.length ≤ s.total
  restored : ∀ p, (s.process p).restored = true → (s.process p).startedAt ≤ (s.process p).counter
  once : ∀ p, (s.events timeouts p).Nodup ∧
    (s.process p).counter ≤ (s.events timeouts p).length

/-- What is claimed of a step: the property holds after it, and the total has not decreased. -/
def StepCorrect (s : State ι π τ) (_ : Action ι π) (t : State ι π τ) : Prop :=
  Correct timeouts t ∧ s.total ≤ t.total

/-- A rename comes from a call that has read the journal as it still is, a restore can read the
journal, and doubles can count the events. -/
def Undisturbed (s : State ι π τ) : Action ι π → State ι π τ → Prop
  | .call i (.rename false), _ => ∀ total seen unread, s.progress i = .written total seen unread →
    (if unread then 0 else seen) = s.renamed.length ∧ s.renamed.length < 2 ^ 53
  | .restore p true, _ => (s.process p).startedAt ≤ (s.process p).counter
  | _, _ => True

/-! ## What the runs keep -/

theorem plusOne_eq_succ_iff {x n : Nat} (h : x ≤ n) : plusOne x = n + 1 ↔ x = n ∧ n < 2 ^ 53 := by
  rw [plusOne]
  split <;> omega

theorem plusOne_le (x : Nat) : x ≤ plusOne x ∧ plusOne x ≤ x + 1 := by
  rw [plusOne]
  split <;> omega

theorem restoreDrainTimeoutCounter_fst (journal : DrainJournal τ) (current : Nat) :
    (restoreDrainTimeoutCounter journal current).1 = max current journal.total := by
  rw [restoreDrainTimeoutCounter]
  split
  · exact (max_eq_left (by omega)).symm
  · dsimp only
    omega

theorem readDrainJournal_true (file : Option (Payload τ)) :
    (readDrainJournal file true).total = 0 := rfl

section Proofs

variable {timeouts} {s t : State ι π τ} {i : ι} {p : π} {action : Action ι π}

/-- What is known of a call that stands where `progress` says. -/
def CallInv (s : State ι π τ) (i : ι) : Progress → Prop
  | .idle => i ∉ s.drained
  | .started => i ∈ s.drained ∧ i ∉ s.renamed
  | .read total seen unread | .written total seen unread =>
    (i ∈ s.drained ∧ i ∉ s.renamed) ∧ total = plusOne (if unread then 0 else seen) ∧
      seen ≤ s.renamed.length
  | .renamed _ => i ∈ s.renamed
  | .returned total => i ∈ s.drained ∧ (total ≠ 0 → i ∈ s.renamed)

/-- What is known of a process after so many renames, of so many events that concern it. -/
structure ProcessInv (renames events : Nat) (process : Process) : Prop where
  startedAt : process.startedAt ≤ renames
  restored : process.restored = true → process.startedAt ≤ process.counter
  counter : process.counter ≤ events

theorem ProcessInv.mono {m n m' n' : Nat} {process : Process} (h : ProcessInv m n process)
    (hm : m ≤ m') (hn : n ≤ n') : ProcessInv m' n' process :=
  ⟨h.startedAt.trans hm, h.restored, h.counter.trans hn⟩

/-- What holds as long as no rename has overwritten another. -/
structure Inv (timeouts : ι → DrainTimeout π τ) (s : State ι π τ) : Prop where
  total : s.total = s.renamed.length
  drained_nodup : s.drained.Nodup
  renamed_nodup : s.renamed.Nodup
  renamed_subset : s.renamed ⊆ s.drained
  calls : ∀ i, CallInv s i (s.progress i)
  processes : ∀ p, ProcessInv s.renamed.length (s.events timeouts p).length (s.process p)

omit [DecidableEq ι] [DecidableEq π] in
theorem length_le_of_renamed {calls : List ι} (hnodup : calls.Nodup)
    (hsub : ∀ i ∈ calls, i ∈ s.renamed) : calls.length ≤ s.renamed.length :=
  (List.subperm_of_subset hnodup hsub).length_le

theorem Inv.initial : Inv timeouts (State.initial : State ι π τ) :=
  { total := rfl
    drained_nodup := List.nodup_nil
    renamed_nodup := List.nodup_nil
    renamed_subset := List.nil_subset _
    calls := fun _ => List.not_mem_nil
    processes := fun _ => ⟨Nat.le_refl 0, (nomatch ·), Nat.le_refl 0⟩ }

theorem Inv.correct (h : Inv timeouts s) : Correct timeouts s := by
  refine ⟨h.total, fun calls hnodup hcalls => ?_, fun p => (h.processes p).restored, fun p =>
    ⟨h.drained_nodup.filter _, (h.processes p).counter⟩⟩
  rw [h.total]
  refine length_le_of_renamed hnodup fun i hi => ?_
  obtain ⟨total, hne, hi⟩ := hcalls i hi
  have hcall := h.calls i
  rw [hi] at hcall
  exact hcall.2 hne

theorem Inv.total_le_events (h : Inv timeouts s) (p : π) :
    s.total ≤ (s.events timeouts p).length := by
  rw [h.total]
  refine (List.subperm_of_subset h.renamed_nodup fun i hi => ?_).length_le
  exact List.mem_filter.2 ⟨h.renamed_subset hi, decide_eq_true (.inr hi)⟩

/-- A step that only moves one call on. -/
theorem Inv.move (h : Inv timeouts s) {progress : Progress} (hi : CallInv s i progress) :
    Inv timeouts (s.move i progress) := by
  refine ⟨h.total, h.drained_nodup, h.renamed_nodup, h.renamed_subset, fun j => ?_, h.processes⟩
  by_cases hj : j = i
  · subst hj
    simp only [State.move, Function.update_self]
    exact hi
  · simp only [State.move, Function.update_of_ne hj]
    exact h.calls j

/-- A step that only changes one process. -/
theorem Inv.set (h : Inv timeouts s) {process : Process}
    (hp : ProcessInv s.renamed.length (s.events timeouts p).length process) :
    Inv timeouts (s.set p process) := by
  refine ⟨h.total, h.drained_nodup, h.renamed_nodup, h.renamed_subset, h.calls, fun q => ?_⟩
  by_cases hq : q = p
  · subst hq
    simp only [State.set, Function.update_self]
    exact hp
  · simp only [State.set, Function.update_of_ne hq]
    exact h.processes q

/-- A drain is an event of its process alone. -/
theorem Inv.drain (h : Inv timeouts s) (hi : s.progress i = .idle) :
    Inv timeouts (({ s with drained := s.drained ++ [i] }.move i .started).set (timeouts i).process
      { s.process (timeouts i).process with
        counter := plusOne (s.process (timeouts i).process).counter }) := by
  have hnew : i ∉ s.drained := by
    have hcall := h.calls i
    rwa [hi] at hcall
  have hunrenamed : i ∉ s.renamed := fun hmem => hnew (h.renamed_subset hmem)
  have hevents (q : π) : ((s.drained ++ [i]).filter fun j =>
      (timeouts j).process = q ∨ j ∈ s.renamed).length =
        (s.events timeouts q).length + if (timeouts i).process = q then 1 else 0 := by
    rw [List.filter_append, List.length_append, State.events]
    by_cases hq : (timeouts i).process = q <;> simp [hq, hunrenamed]
  have hmoved : Inv timeouts ({ s with drained := s.drained ++ [i] }.move i .started) := by
    refine ⟨h.total, ?_, h.renamed_nodup, ?_, fun j => ?_, fun q => ?_⟩
    · exact List.nodup_append_comm.1 (List.nodup_cons.2 ⟨hnew, h.drained_nodup⟩)
    · exact List.Subset.trans h.renamed_subset (List.subset_append_left s.drained [i])
    · by_cases hj : j = i
      · subst hj
        simp only [State.move, Function.update_self]
        exact ⟨List.mem_append_right s.drained List.mem_cons_self, hunrenamed⟩
      · have hcall := h.calls j
        simp only [State.move, Function.update_of_ne hj]
        cases hprogress : s.progress j with
        | idle =>
          rw [hprogress] at hcall
          simpa [CallInv, hj] using hcall
        | _ =>
          rw [hprogress] at hcall
          simp only [CallInv, List.mem_append] at hcall ⊢
          grind
    · refine (h.processes q).mono le_rfl ?_
      exact (Nat.le_add_right _ _).trans (hevents q).ge
  have hp := h.processes (timeouts i).process
  obtain ⟨hle, hle'⟩ := plusOne_le (s.process (timeouts i).process).counter
  have hlength := hevents (timeouts i).process
  rw [if_pos rfl] at hlength
  have hcounter := hp.counter
  exact hmoved.set ⟨hp.startedAt, fun hrestored => (hp.restored hrestored).trans hle,
    le_trans (by dsimp only; omega) hlength.ge⟩

/-- A rename that counts one event more. -/
theorem Inv.rename (h : Inv timeouts s) {payload : Payload τ} {total seen : Nat} {unread : Bool}
    (hi : s.progress i = .written total seen unread)
    (htotal : payload.drainTimeoutTotal = s.renamed.length + 1) :
    Inv timeouts ({ s with file := some payload, renamed := s.renamed ++ [i] }.move i
      (.renamed total)) := by
  have hcall := h.calls i
  rw [hi] at hcall
  obtain ⟨⟨hdrained, hnew⟩, -, -⟩ := hcall
  refine ⟨?_, h.drained_nodup, ?_, ?_, fun j => ?_, fun q => (h.processes q).mono ?_ ?_⟩
  · simpa [State.total, State.move, readDrainJournal] using htotal
  · exact List.nodup_append_comm.1 (List.nodup_cons.2 ⟨hnew, h.renamed_nodup⟩)
  · exact List.append_subset.2 ⟨h.renamed_subset, List.cons_subset.2 ⟨hdrained, List.nil_subset _⟩⟩
  · by_cases hj : j = i
    · subst hj
      simp only [State.move, Function.update_self]
      exact List.mem_append_right s.renamed List.mem_cons_self
    · have hcall := h.calls j
      simp only [State.move, Function.update_of_ne hj]
      cases hprogress : s.progress j with
      | idle =>
        rw [hprogress] at hcall
        exact hcall
      | _ =>
        rw [hprogress] at hcall
        simp only [CallInv, List.mem_append, List.length_append, List.mem_singleton] at hcall ⊢
        grind
  · simp [State.move]
  · refine List.Sublist.length_le (List.monotone_filter_right s.drained fun j hj => ?_)
    simp only [decide_eq_true_eq, State.move, List.mem_append] at hj ⊢
    exact hj.imp_right .inl

/-- Whether the claim holds of a step, and whether the runs go on as before. -/
def Settled (timeouts : ι → DrainTimeout π τ) (s : State ι π τ) (action : Action ι π)
    (t : State ι π τ) : Prop :=
  (StepCorrect timeouts s action t ↔ Undisturbed s action t) ∧
    (StepCorrect timeouts s action t → Inv timeouts t)

theorem Inv.settled (ht : Inv timeouts t) (htotal : s.total ≤ t.total)
    (hundisturbed : Undisturbed s action t) : Settled timeouts s action t :=
  ⟨iff_of_true ⟨ht.correct, htotal⟩ hundisturbed, fun _ => ht⟩

theorem Settled.move (h : Inv timeouts s) {progress : Progress} (hi : CallInv s i progress)
    (hundisturbed : Undisturbed s action (s.move i progress)) :
    Settled timeouts s action (s.move i progress) :=
  Inv.settled (h.move hi) le_rfl hundisturbed

theorem Settled.set (h : Inv timeouts s) {process : Process}
    (hp : ProcessInv s.renamed.length (s.events timeouts p).length process)
    (hundisturbed : Undisturbed s action (s.set p process)) :
    Settled timeouts s action (s.set p process) :=
  Inv.settled (h.set hp) le_rfl hundisturbed

theorem Settled.restore (h : Inv timeouts s) (fails : Bool) :
    Settled timeouts s (.restore p fails) (s.set p { s.process p with
      counter := (restoreDrainTimeoutCounter (readDrainJournal s.file fails)
        (s.process p).counter).1
      restored := true }) := by
  have hp := h.processes p
  rw [restoreDrainTimeoutCounter_fst]
  cases fails with
  | false =>
    refine .set h ⟨hp.startedAt, fun _ => ?_, ?_⟩ trivial
    · exact hp.startedAt.trans (h.total.ge.trans (le_max_right _ _))
    · exact max_le hp.counter (h.total_le_events p)
  | true =>
    rw [readDrainJournal_true, Nat.max_zero]
    have hkeep (hstarted : (s.process p).startedAt ≤ (s.process p).counter) :
        Inv timeouts (s.set p { s.process p with
          counter := (s.process p).counter, restored := true }) :=
      h.set ⟨hp.startedAt, fun _ => hstarted, hp.counter⟩
    have hneeded (hcorrect : StepCorrect timeouts s (.restore p true) (s.set p { s.process p with
        counter := (s.process p).counter, restored := true })) :
        (s.process p).startedAt ≤ (s.process p).counter := by
      have hrestored := hcorrect.1.restored p
      simpa [State.set] using hrestored
    exact ⟨⟨hneeded, fun hstarted => ⟨(hkeep hstarted).correct, le_rfl⟩⟩,
      fun hcorrect => hkeep (hneeded hcorrect)⟩

theorem Settled.rename (h : Inv timeouts s) {payload : Payload τ} {total seen : Nat}
    {unread : Bool} (hi : s.progress i = .written total seen unread)
    (hpayload : payload.drainTimeoutTotal = total) :
    Settled timeouts s (.call i (.rename false))
      ({ s with file := some payload, renamed := s.renamed ++ [i] }.move i (.renamed total)) := by
  have hcall := h.calls i
  rw [hi] at hcall
  obtain ⟨-, htotal, hseen⟩ := hcall
  have hread : (if unread then 0 else seen) ≤ s.renamed.length := by
    split <;> omega
  have hcount := plusOne_eq_succ_iff hread
  rw [← htotal, ← hpayload] at hcount
  have hundisturbed : Undisturbed s (.call i (.rename false)) (({ s with
      file := some payload, renamed := s.renamed ++ [i] } : State ι π τ).move i (.renamed total)) ↔
        payload.drainTimeoutTotal = s.renamed.length + 1 := by
    rw [hcount]
    constructor
    · intro hstep
      exact hstep total seen unread hi
    · intro hstep total' seen' unread' hi'
      rw [hi] at hi'
      cases hi'
      exact hstep
  have hneeded (hcorrect : StepCorrect timeouts s (.call i (.rename false)) (({ s with
      file := some payload, renamed := s.renamed ++ [i] } : State ι π τ).move i (.renamed total))) :
      payload.drainTimeoutTotal = s.renamed.length + 1 := by
    simpa [State.total, State.move, readDrainJournal] using hcorrect.1.total
  refine ⟨⟨fun hcorrect => hundisturbed.2 (hneeded hcorrect), fun hstep => ?_⟩, fun hcorrect =>
    h.rename hi (hneeded hcorrect)⟩
  have hinv := h.rename hi (hundisturbed.1 hstep)
  refine ⟨hinv.correct, ?_⟩
  rw [h.total, hinv.total]
  simp [State.move]

/-- A step of a call. -/
theorem advance_settled (h : Inv timeouts s) {next : CallStep}
    (hstep : advance timeouts s i next (s.progress i) = some t) :
    Settled timeouts s (.call i next) t := by
  have hcall := h.calls i
  generalize hprogress : s.progress i = progress at hstep hcall
  cases next with
  | read fails =>
    cases progress with
    | started =>
      cases hstep
      refine .move h ⟨hcall, ?_, le_rfl⟩ trivial
      cases fails with
      | true => rfl
      | false => exact congrArg plusOne h.total
    | _ => cases hstep
  | write fails =>
    cases progress with
    | read total seen unread =>
      cases fails with
      | true =>
        cases hstep
        exact .move h ⟨hcall.1.1, fun hne => absurd rfl hne⟩ trivial
      | false =>
        cases hstep
        exact .move h hcall trivial
    | _ => cases hstep
  | rename fails =>
    cases progress with
    | written total seen unread =>
      cases fails with
      | true =>
        cases hstep
        exact .move h ⟨hcall.1.1, fun hne => absurd rfl hne⟩ trivial
      | false =>
        cases hstep
        exact .rename h hprogress rfl
    | _ => cases hstep
  | ret =>
    cases progress with
    | renamed total =>
      cases hstep
      exact .move h ⟨h.renamed_subset hcall, fun _ => hcall⟩ trivial
    | _ => cases hstep

theorem step_settled (h : Inv timeouts s) (hstep : step timeouts s action = some t) :
    Settled timeouts s action t := by
  cases action with
  | start p =>
    rw [step] at hstep
    split at hstep
    · cases hstep
      exact .set h ⟨le_rfl, (fun hrestored => nomatch hrestored), Nat.zero_le _⟩ trivial
    · cases hstep
  | crash p =>
    rw [step] at hstep
    split at hstep
    · cases hstep
      have hp := h.processes p
      exact .set h ⟨hp.startedAt, hp.restored, hp.counter⟩ trivial
    · cases hstep
  | restore p fails =>
    rw [step] at hstep
    split at hstep
    · cases hstep
      exact .restore h fails
    · cases hstep
  | drain i =>
    rw [step] at hstep
    split at hstep
    · next hidle =>
      cases hstep
      exact (h.drain hidle.2).settled le_rfl trivial
    · cases hstep
  | call i next =>
    rw [step] at hstep
    split at hstep
    · exact advance_settled h hstep
    · cases hstep

end Proofs

/-- No drain timeout is lost or counted twice along a run exactly if it is undisturbed. -/
theorem drainJournal_correct_iff (actions : List (Action ι π)) :
    Along (step timeouts) (StepCorrect timeouts) State.initial actions ↔
      Along (step timeouts) Undisturbed State.initial actions :=
  along_iff (Q := Undisturbed) (fun _ _ _ h hstep => step_settled h hstep) Inv.initial actions

/-- Two processes that drain at the same time. -/
def overlap : List (Action Nat Nat) :=
  [.start 0, .start 1, .drain 0, .drain 1, .call 0 (.read false), .call 1 (.read false),
    .call 0 (.write false), .call 1 (.write false), .call 0 (.rename false),
    .call 1 (.rename false)]

theorem overlap_lost : ¬ Along (step fun i => (⟨i, 1, 900⟩ : DrainTimeout Nat Nat))
    (StepCorrect fun i => ⟨i, 1, 900⟩) State.initial overlap := by
  intro h
  have hstep := Along.reached overlap.dropLast [] h rfl rfl
  have htotal := hstep.1.total
  revert htotal
  decide

end ParallaxKernel.Server.Drain
