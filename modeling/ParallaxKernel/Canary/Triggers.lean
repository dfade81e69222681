import ParallaxKernel.Lib.NearestRank
import ParallaxKernel.Lib.SlidingWindow

/-!
# The rollback triggers

`canary/triggers.py`. Clock readings, latencies and rates are exact rationals, and so is the factor
`0.99` of the rank. A trigger's `evaluate` evicts from its window, so it returns the window too.
-/

namespace ParallaxKernel.Canary

open Lib

def t1Threshold : ℚ := 5 / 1000
def t2Threshold : ℚ := 5 / 1000
def t3ThresholdMs : ℚ := 100
def t4Threshold : Nat := 0
def t5MinHits : Nat := 50

def windowT1Seconds : ℚ := 300
def windowT2Seconds : ℚ := 180
def windowT3Seconds : ℚ := 300
def windowT5Seconds : ℚ := 300

inductive TriggerVerdict where
  | pass
  | breach
  | insufficientData
  deriving DecidableEq

structure TriggerEvaluation where
  triggerId : String
  verdict : TriggerVerdict
  metricValue : ℚ
  threshold : ℚ
  windowSeconds : Option ℚ
  observations : Nat

/-! ## Windows -/

structure SlidingWindow where
  windowSeconds : ℚ
  data : List (ℚ × ℚ)

namespace SlidingWindow

def new (windowSeconds : ℚ) : SlidingWindow := ⟨windowSeconds, []⟩

def add (w : SlidingWindow) (ts value : ℚ) : SlidingWindow :=
  { w with data := w.data ++ [(ts, value)] }

/-- `_evict`. -/
def evicted (w : SlidingWindow) (now : ℚ) : SlidingWindow :=
  { w with data := evict (now - w.windowSeconds) w.data }

def values (w : SlidingWindow) (now : ℚ) : List ℚ × SlidingWindow :=
  ((w.evicted now).data.map (·.2), w.evicted now)

def count (w : SlidingWindow) (now : ℚ) : Nat × SlidingWindow :=
  ((w.evicted now).data.length, w.evicted now)

def reset (w : SlidingWindow) : SlidingWindow := { w with data := [] }

@[simp] theorem add_windowSeconds (w : SlidingWindow) (ts value : ℚ) :
    (w.add ts value).windowSeconds = w.windowSeconds := rfl

@[simp] theorem evicted_windowSeconds (w : SlidingWindow) (now : ℚ) :
    (w.evicted now).windowSeconds = w.windowSeconds := rfl

@[simp] theorem reset_windowSeconds (w : SlidingWindow) :
    w.reset.windowSeconds = w.windowSeconds := rfl

end SlidingWindow

/-! ## Triggers -/

/-- `1.0 if … else 0.0`. -/
def indicator (b : Bool) : ℚ := if b then 1 else 0

/-- What T1 and T2 share: the mean over the window against a threshold. -/
def evaluateRate (triggerId : String) (threshold windowSeconds : ℚ) (w : SlidingWindow)
    (now : ℚ) : TriggerEvaluation × SlidingWindow :=
  let (values, w) := w.values now
  let n := values.length
  let rate := if n = 0 then 0 else values.sum / n
  let verdict := if 0 < n ∧ threshold ≤ rate then .breach else .pass
  (⟨triggerId, verdict, rate, threshold, some windowSeconds, n⟩, w)

/-- `T1ErrorRateTrigger.evaluate`. -/
def evaluateT1 : SlidingWindow → ℚ → TriggerEvaluation × SlidingWindow :=
  evaluateRate "T1-error-rate" t1Threshold windowT1Seconds

/-- `T2DiscrepancyRateTrigger.evaluate`. -/
def evaluateT2 : SlidingWindow → ℚ → TriggerEvaluation × SlidingWindow :=
  evaluateRate "T2-discrepancy-rate" t2Threshold windowT2Seconds

/-- `max(0, min(n - 1, math.ceil(0.99 * n) - 1))`. -/
def rankIndex (n : Nat) : Nat :=
  (max 0 (min ((n : Int) - 1) (⌈(99 / 100 : ℚ) * n⌉ - 1))).toNat

/-- The evaluation of the latencies in the window. -/
def evaluateLatencies (values : List ℚ) : TriggerEvaluation :=
  let n := values.length
  if n = 0 then ⟨"T3-p99-latency", .pass, 0, t3ThresholdMs, some windowT3Seconds, 0⟩
  else
    let sortedValues := values.mergeSort fun x y => decide (x ≤ y)
    let p99 := sortedValues.getD (rankIndex n) 0
    let verdict := if t3ThresholdMs ≤ p99 then .breach else .pass
    ⟨"T3-p99-latency", verdict, p99, t3ThresholdMs, some windowT3Seconds, n⟩

/-- `T3P99LatencyTrigger.evaluate`. -/
def evaluateT3 (w : SlidingWindow) (now : ℚ) : TriggerEvaluation × SlidingWindow :=
  let (values, w) := w.values now
  (evaluateLatencies values, w)

/-- `T4DataLossTrigger.record`: none if the count is negative, which raises. -/
def recordT4 (total : Nat) (count : Int) : Option Nat :=
  if count < 0 then none else some (total + count.toNat)

/-- `T4DataLossTrigger.evaluate`. -/
def evaluateT4 (total : Nat) : TriggerEvaluation :=
  let verdict := if t4Threshold < total then .breach else .pass
  ⟨"T4-data-loss", verdict, total, t4Threshold, none, total⟩

/-- `T5MinHitsGate.evaluate`. -/
def evaluateT5 (w : SlidingWindow) (now : ℚ) : TriggerEvaluation × SlidingWindow :=
  let (n, w) := w.count now
  let verdict := if n < t5MinHits then .insufficientData else .pass
  (⟨"T5-min-hits-gate", verdict, n, t5MinHits, some windowT5Seconds, n⟩, w)

/-! ## When the triggers breach -/

@[simp] theorem evaluateRate_window (triggerId : String) (threshold windowSeconds : ℚ)
    (w : SlidingWindow) (now : ℚ) :
    (evaluateRate triggerId threshold windowSeconds w now).2 = w.evicted now := rfl

@[simp] theorem evaluateT1_window (w : SlidingWindow) (now : ℚ) :
    (evaluateT1 w now).2 = w.evicted now := rfl

@[simp] theorem evaluateT2_window (w : SlidingWindow) (now : ℚ) :
    (evaluateT2 w now).2 = w.evicted now := rfl

@[simp] theorem evaluateT3_window (w : SlidingWindow) (now : ℚ) :
    (evaluateT3 w now).2 = w.evicted now := rfl

@[simp] theorem evaluateT5_window (w : SlidingWindow) (now : ℚ) :
    (evaluateT5 w now).2 = w.evicted now := rfl

theorem evaluateRate_breach {triggerId : String} {threshold windowSeconds : ℚ}
    {w : SlidingWindow} {now : ℚ} :
    (evaluateRate triggerId threshold windowSeconds w now).1.verdict = .breach ↔
      0 < (w.evicted now).data.length ∧ threshold ≤
        ((w.evicted now).data.map (·.2)).sum / (w.evicted now).data.length := by
  simp only [evaluateRate, SlidingWindow.values, List.length_map]
  by_cases hn : (w.evicted now).data.length = 0
  · simp [hn]
  · have hpos : 0 < (w.evicted now).data.length := Nat.pos_of_ne_zero hn
    simp [hn, hpos]

theorem sum_indicator {α : Type} (xs : List α) (p : α → Bool) :
    (xs.map fun x => indicator (p x)).sum = xs.countP p := by
  induction xs with
  | nil => rfl
  | cons x xs ih =>
    rw [List.map_cons, List.sum_cons, ih, List.countP_cons]
    cases p x <;> simp [indicator, add_comm]

theorem ceil_rank {n : Nat} (hn : 0 < n) :
    rankIndex n < n ∧ ⌈(99 / 100 : ℚ) * n⌉ = (rankIndex n : Int) + 1 := by
  have hpos : (0 : ℚ) < n := by exact_mod_cast hn
  have hlow : 1 ≤ ⌈(99 / 100 : ℚ) * n⌉ := Int.one_le_ceil_iff.2 (by linarith)
  have hhigh : ⌈(99 / 100 : ℚ) * n⌉ ≤ n := Int.ceil_le.2 (by push_cast; linarith)
  unfold rankIndex
  omega

/-- T3 looks at the nearest-rank 99th percentile. -/
theorem evaluateLatencies_breach {xs : List ℚ} :
    (evaluateLatencies xs).verdict = .breach ↔
      ∃ v, IsNearestRank (99 / 100) xs v ∧ t3ThresholdMs ≤ v := by
  have hperm : (xs.mergeSort fun x y => decide (x ≤ y)).Perm xs := List.mergeSort_perm ..
  unfold evaluateLatencies
  cases Nat.eq_zero_or_pos xs.length with
  | inl hempty =>
    obtain rfl : xs = [] := List.eq_nil_of_length_eq_zero hempty
    constructor
    · intro h
      exact nomatch h
    · rintro ⟨v, hv, -⟩
      exact nomatch hv.mem
  | inr hpos =>
    obtain ⟨hlt, hceil⟩ := ceil_rank hpos
    have hlen : (xs.mergeSort fun x y => decide (x ≤ y)).length = xs.length := hperm.length_eq
    have hsorted : (xs.mergeSort fun x y => decide (x ≤ y)).Pairwise (· ≤ ·) := by
      simpa using @List.pairwise_mergeSort _ (fun x y : ℚ => decide (x ≤ y))
        (by simpa using fun _ _ _ => le_trans) (by simpa using le_total) xs
    have hrank : IsNearestRank (99 / 100) xs _ :=
      (isNearestRank_getElem hsorted (p := 99 / 100) (hlen ▸ hlt) (by rw [hlen, hceil])).perm hperm
    have hn : xs.length ≠ 0 := by omega
    have hget : (xs.mergeSort fun x y => decide (x ≤ y))[rankIndex xs.length]? = some _ :=
      List.getElem?_eq_getElem (hlen ▸ hlt)
    simp only [hn, if_false, List.getD_eq_getElem?_getD, hget, Option.getD_some]
    constructor
    · intro h
      exact ⟨_, hrank, by simpa using h⟩
    · rintro ⟨v, hv, hle⟩
      simpa [← hrank.unique hv] using hle

theorem evaluateT3_breach {w : SlidingWindow} {now : ℚ} :
    (evaluateT3 w now).1.verdict = .breach ↔
      ∃ v, IsNearestRank (99 / 100) ((w.evicted now).data.map (·.2)) v ∧ t3ThresholdMs ≤ v :=
  evaluateLatencies_breach

theorem evaluateT4_breach {total : Nat} : (evaluateT4 total).verdict = .breach ↔ 0 < total := by
  by_cases h : 0 < total <;> simp [evaluateT4, t4Threshold, h]

theorem evaluateT5_pass {w : SlidingWindow} {now : ℚ} :
    (evaluateT5 w now).1.verdict ≠ .insufficientData ↔
      t5MinHits ≤ (w.evicted now).data.length := by
  by_cases h : (w.evicted now).data.length < t5MinHits
  · simp [evaluateT5, SlidingWindow.count, h]
  · simpa [evaluateT5, SlidingWindow.count, h] using not_lt.1 h

end ParallaxKernel.Canary
