import Mathlib.Algebra.Order.Ring.Rat
import Mathlib.Logic.Function.Basic
import ParallaxKernel.Lib.Runs
import ParallaxKernel.Lib.SlidingWindow
import ParallaxKernel.Router.DualRead
import ParallaxKernel.Session.Hooks

/-!
# The live discrepancy counter

`LiveDiscrepancyCounter` of `router/discrepancy_live.py`, called by any number of threads. A call
reads the clock before it takes the lock, so that the bodies need not come in the order of their
readings. Rates are exact rationals; a reading is an element of any linear order.
-/

namespace ParallaxKernel.Router.DiscrepancyLive

open Lib Session

/-! ## The counter -/

inductive TrafficSource where
  | synthetic
  | natural
  deriving DecidableEq

/-- A user and a traffic source. -/
abbrev Key := PyStr × TrafficSource

abbrev Entry (T : Type) := T × DualReadOutcome

/-- `str.lower`, and `now - self.window_seconds`. -/
structure Platform (T : Type) where
  lower : PyStr → PyStr
  cutoff : T → T

inductive Op where
  | record (outcome : DualReadOutcome)
  | discrepancyRate
  | aphelionUnreachableRate

structure Call where
  userId : PyStr
  trafficSource : Option PyStr
  op : Op

section Counter

variable {T : Type} [LinearOrder T] (P : Platform T)

/-- `_normalize_traffic_source`. -/
def normalizeTrafficSource : Option PyStr → TrafficSource
  | none => .natural
  | some value =>
    if P.lower (stripText value) = .ofString "synthetic" then .synthetic else .natural

/-- The key of the deque that a call works on. -/
def Call.key (call : Call) : Key := (call.userId, normalizeTrafficSource P call.trafficSource)

/-- The rate that `discrepancy_rate` makes of the entries in the window. -/
def discrepancyRate (entries : List (Entry T)) : ℚ :=
  let denominator := entries.countP fun e => decide (e.2 ≠ .aphelionUnreachable)
  if denominator = 0 then 0
  else (entries.countP fun e => decide (e.2 = .diverge) : Nat) / denominator

/-- The rate that `aphelion_unreachable_rate` makes of the entries in the window. -/
def aphelionUnreachableRate (entries : List (Entry T)) : ℚ :=
  if entries.length = 0 then 0
  else (entries.countP fun e => decide (e.2 = .aphelionUnreachable) : Nat) / entries.length

/-- What a call returns for the entries in the window. -/
def Op.answer : Op → List (Entry T) → Option ℚ
  | .record _, _ => none
  | .discrepancyRate, entries => some (DiscrepancyLive.discrepancyRate entries)
  | .aphelionUnreachableRate, entries => some (DiscrepancyLive.aphelionUnreachableRate entries)

/-- The entry that a call appends. -/
def Op.entries (now : T) : Op → List (Entry T)
  | .record outcome => [(now, outcome)]
  | _ => []

abbrev Data (T : Type) := Key → List (Entry T)

/-- What a call leaves of its deque under the lock. `_trim` drops entries off the front. -/
def Call.window (data : Data T) (call : Call) (now : T) : List (Entry T) :=
  evict (P.cutoff now) (data (call.key P) ++ call.op.entries now)

/-- The body of a call under the lock. -/
def Call.body (data : Data T) (call : Call) (now : T) : Data T :=
  Function.update data (call.key P) (call.window P data now)

/-! ## The threads -/

/-- A body that was carried out: its call, the reading of the clock and what it returned. -/
structure Body (T : Type) where
  call : Call
  now : T
  answer : Option ℚ

/-- The clock, the calls that have read it and wait for the lock, the deques, and the bodies in the
order in which they held the lock. -/
structure State (T : Type) where
  clock : T
  waiting : List (Call × T)
  data : Data T
  done : List (Body T)

def State.initial (clock : T) : State T := ⟨clock, [], fun _ => [], []⟩

inductive Step (T : Type) where
  /-- A call reads the clock. -/
  | read (call : Call) (now : T)
  /-- One of the calls that wait takes the lock. -/
  | enter (i : Nat)

def step (s : State T) : Step T → Option (State T)
  | .read call now =>
    if s.clock ≤ now then some { s with clock := now, waiting := s.waiting ++ [(call, now)] }
    else none
  | .enter i =>
    match s.waiting[i]? with
    | none => none
    | some (call, now) => some
      { s with
        waiting := s.waiting.eraseIdx i
        data := call.body P s.data now
        done := s.done ++ [⟨call, now, call.op.answer (call.window P s.data now)⟩] }

/-! ## What is claimed -/

/-- A call of the key whose cutoff lies behind `now`. -/
def AgesOut (key : Key) (now : T) (b : Body T) : Prop := b.call.key P = key ∧ now < P.cutoff b.now

instance (key : Key) (now : T) (b : Body T) : Decidable (AgesOut P key now b) :=
  inferInstanceAs (Decidable (_ ∧ _))

/-- What a body recorded under the key. -/
def Body.recorded (key : Key) (b : Body T) : List (Entry T) :=
  if b.call.key P = key then b.call.op.entries b.now else []

/-- The outcomes recorded under the key that no call has aged out since. -/
def survivors (key : Key) : List (Body T) → List (Entry T)
  | [] => []
  | b :: later =>
    ((b.recorded P key).filter fun e => decide (∀ c ∈ b :: later, ¬ AgesOut P key e.1 c)) ++
      survivors key later

/-- The deques after bodies that were carried out one after the other. -/
def replay (done : List (Body T)) : Data T :=
  done.foldl (fun data b => b.call.body P data b.now) fun _ => []

/-- Every answer is the fraction over the outcomes in the window, whatever has been done under
other keys, and a key without outcomes in the window has the rate 0. -/
structure Exact (done : List (Body T)) : Prop where
  exact_ : ∀ before b after, done = before ++ b :: after →
    b.answer = b.call.op.answer
      (since (P.cutoff b.now) (survivors P (b.call.key P) before ++ b.call.op.entries b.now))
  independent : ∀ before b after, done = before ++ b :: after →
    b.answer = b.call.op.answer (b.call.window P
      (replay P (before.filter fun c => c.call.key P = b.call.key P)) b.now)
  decayed : ∀ before b after, done = before ++ b :: after →
    (∀ c ∈ before, ∀ e ∈ c.recorded P (b.call.key P), e.1 < P.cutoff b.now) →
    ∀ rate, b.answer = some rate → rate = 0

/-- A record that takes the lock finds no entry of its key with a later reading at the end of the
deque. -/
def InOrder (s : State T) : Step T → Prop
  | .read _ _ => True
  | .enter i => ∀ call now, s.waiting[i]? = some (call, now) →
      ∀ e ∈ call.op.entries now, ∀ last ∈ (s.data (call.key P)).getLast?, last.1 ≤ e.1

variable {P}

/-! ## Bodies -/

omit [LinearOrder T] in
theorem answer_nil (op : Op) : ∀ rate, op.answer ([] : List (Entry T)) = some rate → rate = 0 := by
  intro rate h
  cases op with
  | record outcome => cases h
  | discrepancyRate =>
    cases h
    rfl
  | aphelionUnreachableRate =>
    cases h
    rfl

theorem body_self (data : Data T) (call : Call) (now : T) :
    call.body P data now (call.key P) = call.window P data now := Function.update_self ..

theorem body_of_ne {key : Key} {call : Call} (h : call.key P ≠ key) (data : Data T) (now : T) :
    call.body P data now key = data key := Function.update_of_ne h.symm ..

/-- A body touches the deque of its own key only. -/
theorem body_congr {data data' : Data T} {call : Call} {key : Key} (h : data key = data' key)
    (now : T) : call.body P data now key = call.body P data' now key := by
  by_cases hkey : call.key P = key
  · subst hkey
    rw [body_self, body_self, Call.window, Call.window, h]
  · rw [body_of_ne hkey, body_of_ne hkey, h]

theorem replay_snoc (done : List (Body T)) (b : Body T) :
    replay P (done ++ [b]) = b.call.body P (replay P done) b.now := by
  rw [replay, List.foldl_append]
  rfl

/-- Bodies of other keys leave no trace in a deque. -/
theorem replay_filter (key : Key) (done : List (Body T)) :
    replay P (done.filter fun b => b.call.key P = key) key = replay P done key := by
  induction done using List.reverseRecOn with
  | nil => rfl
  | append_singleton done b ih =>
    rw [List.filter_append, replay_snoc]
    by_cases hkey : b.call.key P = key
    · rw [List.filter_cons_of_pos (by simpa using hkey), List.filter_nil, replay_snoc]
      exact body_congr ih b.now
    · rw [List.filter_cons_of_neg (by simpa using hkey), List.filter_nil, List.append_nil, ih,
        body_of_ne hkey]

/-- What stands in a deque was recorded under its key. -/
theorem mem_replay {key : Key} {done : List (Body T)} {e : Entry T} (h : e ∈ replay P done key) :
    ∃ b ∈ done, e ∈ b.recorded P key := by
  induction done using List.reverseRecOn with
  | nil => exact absurd h List.not_mem_nil
  | append_singleton done b ih =>
    have hbefore (h : e ∈ replay P done key) : ∃ c ∈ done ++ [b], e ∈ c.recorded P key := by
      obtain ⟨c, hc, he⟩ := ih h
      exact ⟨c, List.mem_append_left _ hc, he⟩
    rw [replay_snoc] at h
    by_cases hkey : b.call.key P = key
    · subst hkey
      rw [body_self, Call.window] at h
      obtain h | h := List.mem_append.1 ((List.dropWhile_sublist _).subset h)
      · exact hbefore h
      · exact ⟨b, by simp, by rwa [Body.recorded, if_pos rfl]⟩
    · rw [body_of_ne hkey] at h
      exact hbefore h

/-! ## Survivors -/

theorem not_agesOut_snoc {key : Key} {ts : T} {done : List (Body T)} {b c : Body T} :
    (∀ d ∈ c :: (done ++ [b]), ¬ AgesOut P key ts d) ↔
      (∀ d ∈ c :: done, ¬ AgesOut P key ts d) ∧ ¬ AgesOut P key ts b := by
  rw [← List.cons_append, List.forall_mem_append, List.forall_mem_singleton]

theorem survivors_snoc (key : Key) (done : List (Body T)) (b : Body T) :
    survivors P key (done ++ [b]) =
      if b.call.key P = key then since (P.cutoff b.now) (survivors P key done ++ b.recorded P key)
      else survivors P key done := by
  induction done with
  | nil =>
    by_cases hkey : b.call.key P = key
    · simp [survivors, AgesOut, hkey, since]
    · simp [survivors, Body.recorded, hkey]
  | cons c done ih =>
    rw [List.cons_append, survivors, ih]
    by_cases hkey : b.call.key P = key
    · have haged (ts : T) : ¬ AgesOut P key ts b ↔ P.cutoff b.now ≤ ts := by simp [AgesOut, hkey]
      rw [if_pos hkey, if_pos hkey, survivors, List.append_assoc, since_append (P.cutoff b.now)
        (List.filter _ _)]
      congr 1
      rw [since, List.filter_filter]
      refine List.filter_congr fun e _ => ?_
      rw [Bool.eq_iff_iff, Bool.and_eq_true, decide_eq_true_iff, decide_eq_true_iff,
        decide_eq_true_iff, not_agesOut_snoc, haged, and_comm]
    · have haged (ts : T) : ¬ AgesOut P key ts b := fun h => hkey h.1
      rw [if_neg hkey, if_neg hkey, survivors]
      congr 1
      refine List.filter_congr fun e _ => ?_
      rw [Bool.eq_iff_iff, decide_eq_true_iff, decide_eq_true_iff, not_agesOut_snoc]
      exact and_iff_left (haged e.1)

/-! ## Runs -/

/-- What holds of every run. -/
structure Replayed (s : State T) : Prop where
  data : s.data = replay P s.done
  answers : ∀ before b after, s.done = before ++ b :: after →
    b.answer = b.call.op.answer (b.call.window P (replay P before) b.now)

/-- What holds of a run in which the records take the lock in order. -/
structure Ordered (s : State T) : Prop where
  replayed : Replayed (P := P) s
  timed : ∀ key, Timed (s.data key)
  deques : ∀ key, s.data key = survivors P key s.done
  exact_ : ∀ before b after, s.done = before ++ b :: after →
    b.answer = b.call.op.answer
      (since (P.cutoff b.now) (survivors P (b.call.key P) before ++
        b.call.op.entries b.now))

/-- What a step may do. -/
theorem step_cases {s t : State T} {a : Step T} (h : step P s a = some t) :
    (t.data = s.data ∧ t.done = s.done) ∨
    ∃ i call now, a = .enter i ∧ s.waiting[i]? = some (call, now) ∧
      t.data = call.body P s.data now ∧
      t.done = s.done ++ [⟨call, now, call.op.answer (call.window P s.data now)⟩] := by
  cases a with
  | read call now =>
    rw [step] at h
    split_ifs at h
    cases h
    exact .inl ⟨rfl, rfl⟩
  | enter i =>
    rw [step] at h
    cases hwaiting : s.waiting[i]? with
    | none =>
      rw [hwaiting] at h
      cases h
    | some entry =>
      obtain ⟨call, now⟩ := entry
      rw [hwaiting] at h
      cases h
      exact .inr ⟨i, call, now, rfl, hwaiting, rfl, rfl⟩

omit [LinearOrder T] in
/-- A property of each body and those before it holds after a further body if it holds of this. -/
theorem forall_split_snoc {Q : List (Body T) → Body T → Prop} {done : List (Body T)} {b : Body T}
    (h : ∀ before c after, done = before ++ c :: after → Q before c) (hb : Q done b) :
    ∀ before c after, done ++ [b] = before ++ c :: after → Q before c := by
  intro before c after heq
  cases after using List.reverseRecOn with
  | nil =>
    obtain ⟨rfl, hc⟩ := List.append_inj' heq rfl
    cases hc
    exact hb
  | append_singleton after d =>
    have heq' : done ++ [b] = (before ++ c :: after) ++ [d] := by
      rw [heq, List.append_assoc, List.cons_append]
    exact h before c after (List.append_inj' heq' rfl).1

theorem Replayed.step {s t : State T} {a : Step T} (hs : Replayed (P := P) s)
    (h : DiscrepancyLive.step P s a = some t) : Replayed (P := P) t := by
  obtain ⟨hdata, hdone⟩ | ⟨i, call, now, -, -, hdata, hdone⟩ := step_cases h
  · exact ⟨by rw [hdata, hdone, hs.data], hdone ▸ hs.answers⟩
  · refine ⟨by rw [hdata, hdone, replay_snoc, hs.data], ?_⟩
    rw [hdone]
    exact forall_split_snoc hs.answers (by rw [hs.data])

theorem Ordered.step {s t : State T} {a : Step T} (hs : Ordered (P := P) s)
    (h : DiscrepancyLive.step P s a = some t) (horder : InOrder P s a) : Ordered (P := P) t := by
  have hreplayed := hs.replayed.step h
  obtain ⟨hdata, hdone⟩ | ⟨i, call, now, rfl, hwaiting, hdata, hdone⟩ := step_cases h
  · refine ⟨hreplayed, ?_, ?_, hdone ▸ hs.exact_⟩
    · rw [hdata]
      exact hs.timed
    · rw [hdata, hdone]
      exact hs.deques
  have htimed : Timed (s.data (call.key P) ++ call.op.entries now) := by
    refine timed_append (hs.timed _) ?_ fun e he => horder call now hwaiting e he
    cases call.op <;> simp [Op.entries, Timed]
  have hwindow : call.window P s.data now = since (P.cutoff now)
      (survivors P (call.key P) s.done ++ call.op.entries now) := by
    rw [Call.window, evict_eq_since htimed, hs.deques]
  refine ⟨hreplayed, ?_, ?_, ?_⟩
  · intro key
    rw [hdata]
    by_cases hkey : call.key P = key
    · subst hkey
      rw [body_self]
      exact htimed.sublist (List.dropWhile_sublist _)
    · rw [body_of_ne hkey]
      exact hs.timed key
  · intro key
    rw [hdata, hdone, survivors_snoc]
    by_cases hkey : call.key P = key
    · subst hkey
      rw [body_self, if_pos rfl, hwindow, Body.recorded, if_pos rfl]
    · rw [body_of_ne hkey, if_neg hkey, hs.deques]
  · rw [hdone]
    exact forall_split_snoc hs.exact_ (by rw [hwindow])

theorem Ordered.initial (clock : T) : Ordered (P := P) (.initial clock) where
  replayed := ⟨rfl, fun before b after h => by cases before <;> cases h⟩
  timed key := List.Pairwise.nil
  deques key := rfl
  exact_ before b after h := by cases before <;> cases h

/-- Whatever the order in which the calls take the lock. -/
theorem Replayed.independent {s : State T} (hs : Replayed (P := P) s) {before after : List (Body T)}
    {b : Body T} (h : s.done = before ++ b :: after) :
    b.answer = b.call.op.answer (b.call.window P
      (replay P (before.filter fun c => c.call.key P = b.call.key P)) b.now) := by
  rw [hs.answers before b after h, Call.window, Call.window, replay_filter]

theorem Replayed.decayed {s : State T} (hs : Replayed (P := P) s) {before after : List (Body T)}
    {b : Body T} (h : s.done = before ++ b :: after)
    (hold : ∀ c ∈ before, ∀ e ∈ c.recorded P (b.call.key P), e.1 < P.cutoff b.now) :
    ∀ rate, b.answer = some rate → rate = 0 := by
  intro rate hrate
  rw [hs.answers before b after h] at hrate
  have hempty : ∀ e ∈ replay P before (b.call.key P), e.1 < P.cutoff b.now := by
    intro e he
    obtain ⟨c, hc, he⟩ := mem_replay he
    exact hold c hc e he
  cases hop : b.call.op with
  | record outcome =>
    rw [hop] at hrate
    cases hrate
  | _ =>
    have hwindow : b.call.window P (replay P before) b.now = [] := by
      have hentries : b.call.op.entries b.now = [] := by
        rw [hop]
        rfl
      rw [Call.window, hentries, List.append_nil, evict, List.dropWhile_eq_nil_iff]
      simpa using hempty
    rw [hwindow] at hrate
    exact answer_nil _ rate hrate

variable (P)

/-- In every run in which no record takes the lock behind a later reading of its key, every answer
is exact. -/
theorem liveCounter_exact {clock : T} {steps : List (Step T)} {s : State T}
    (hrun : steps.foldlM (step P) (.initial clock) = some s)
    (horder : Along (step P) (fun s a _ => InOrder P s a) (.initial clock) steps) :
    Exact P s.done := by
  have hinv : Ordered (P := P) s :=
    horder.inv (fun s a t hs hstep h => hs.step hstep h) (.initial clock) hrun
  exact
    { exact_ := hinv.exact_
      independent := fun _ _ _ h => hinv.replayed.independent h
      decayed := fun _ _ _ h => hinv.replayed.decayed h }

end Counter

/-! ## Samples -/

/-- Readings in seconds, and a window of two seconds. -/
def samplePlatform : Platform Int where
  lower := id
  cutoff now := now - 2

def sampleRecord (outcome : DualReadOutcome) : Call := ⟨.ofString "ann", none, .record outcome⟩

def sampleRead : Call := ⟨.ofString "ann", none, .discrepancyRate⟩

/-- A record, and a rate that is read while the outcome is in the window. -/
def sampleSteps : List (Step Int) :=
  [.read (sampleRecord .diverge) 1, .enter 0, .read sampleRead 3, .enter 0]

theorem liveCounter_exact_sample :
    ∃ s, sampleSteps.foldlM (step samplePlatform) (.initial 0) = some s ∧
      Exact samplePlatform s.done := by
  have hrun : sampleSteps.foldlM (step samplePlatform) (.initial 0) = some _ := rfl
  refine ⟨_, hrun, liveCounter_exact samplePlatform hrun ?_⟩
  intro t ht
  refine ⟨trivial, ?_⟩
  cases ht
  intro t ht
  refine ⟨?_, ?_⟩
  · intro call now hwaiting e he last hlast
    cases hlast
  cases ht
  intro t ht
  refine ⟨trivial, ?_⟩
  cases ht
  intro t ht
  refine ⟨?_, trivial⟩
  intro call now hwaiting e he
  cases hwaiting
  cases he

/-- Two records that take the lock in the other order than they have read the clock. The first
reading is older than the window of the last call, but stands behind the second. -/
theorem liveCounter_stale : ∃ s,
    [.read (sampleRecord .match_) 1, .read (sampleRecord .diverge) 2, .enter 1, .enter 0,
      .read sampleRead 4, .enter 0].foldlM (step samplePlatform) (.initial 0) = some s ∧
    (∃ b, s.done.getLast? = some b ∧ b.answer = some (1 / 2)) ∧ ¬ Exact samplePlatform s.done := by
  have hanswer : discrepancyRate [((2 : Int), DualReadOutcome.diverge), (1, .match_)] = 1 / 2 := by
    simp [discrepancyRate]
  have hexpected : discrepancyRate [((2 : Int), DualReadOutcome.diverge)] = 1 := by
    simp [discrepancyRate]
  refine ⟨_, rfl, ⟨_, rfl, congrArg some hanswer⟩, ?_⟩
  intro h
  have hexact := h.exact_ [_, _] _ [] rfl
  have hhalf : some (1 / 2 : ℚ) = some 1 := by
    rw [← hanswer, ← hexpected]
    exact hexact
  simp at hhalf

end ParallaxKernel.Router.DiscrepancyLive
