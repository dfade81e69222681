import Mathlib.Tactic.Common

/-!
# Retrying an action

An action that is run again after a retryable failure, up to a number of times, against the outcomes
of its runs one after another. The failure of the last run is passed on.
-/

namespace ParallaxKernel.Lib

variable {ε α : Type} (retryable : ε → Bool)

/-- The outcome of the last run, and how many runs there were, with `retries` runs left after the
first. -/
def retry (outcomes : Nat → Except ε α) : (retries : Nat) → Except ε α × Nat
  | 0 => (outcomes 0, 1)
  | retries + 1 =>
    match outcomes 0 with
    | .ok a => (.ok a, 1)
    | .error e =>
      if retryable e then
        let last := retry (fun i => outcomes (i + 1)) retries
        (last.1, last.2 + 1)
      else (.error e, 1)

/-- The action is run once more exactly after a retryable failure, as long as there are runs. -/
structure Retried (outcomes : Nat → Except ε α) (retries : Nat) (last : Except ε α × Nat) :
    Prop where
  pos : 0 < last.2
  le : last.2 ≤ retries + 1
  outcome : last.1 = outcomes (last.2 - 1)
  failed : ∀ i, i + 1 < last.2 → ∃ e, outcomes i = .error e ∧ retryable e = true
  stopped : ∀ e, last.1 = .error e → retryable e = true → last.2 = retries + 1

variable {retryable} {outcomes : Nat → Except ε α} {retries : Nat}

theorem retried_retry (outcomes : Nat → Except ε α) (retries : Nat) :
    Retried retryable outcomes retries (retry retryable outcomes retries) := by
  induction retries generalizing outcomes with
  | zero =>
    refine ⟨Nat.one_pos, Nat.le_refl _, rfl, fun i hi => ?_, fun _ _ _ => rfl⟩
    have hi : i + 1 < 1 := hi
    omega
  | succ retries ih =>
    rw [retry]
    cases hfirst : outcomes 0 with
    | ok a =>
      refine ⟨Nat.one_pos, by simp, hfirst.symm, fun i hi => ?_, nofun⟩
      have hi : i + 1 < 1 := hi
      omega
    | error e =>
      dsimp only
      split_ifs with hretryable
      · obtain ⟨hpos, hle, houtcome, hfailed, hstopped⟩ := ih fun i => outcomes (i + 1)
        refine ⟨Nat.succ_pos _, Nat.succ_le_succ hle, ?_, fun i hi => ?_, fun e he hr => ?_⟩
        · rw [houtcome]
          congr 1
          dsimp only
          omega
        · cases i with
          | zero => exact ⟨e, hfirst, hretryable⟩
          | succ i => exact hfailed i (Nat.lt_of_succ_lt_succ hi)
        · exact congrArg (· + 1) (hstopped e he hr)
      · refine ⟨Nat.one_pos, by simp, hfirst.symm, fun i hi => ?_, fun e' he hr => ?_⟩
        · have hi : i + 1 < 1 := hi
          omega
        · obtain rfl := Except.error.inj he
          exact absurd hr hretryable

/-- A run that is not retryable is the last. -/
theorem Retried.last_of_error {last : Except ε α × Nat} (h : Retried retryable outcomes retries last)
    {i : Nat} (hi : i < last.2) {e : ε} (he : outcomes i = .error e) (hr : retryable e = false) :
    i + 1 = last.2 := by
  by_contra hne
  obtain ⟨e', he', hr'⟩ := h.failed i (by omega)
  rw [he] at he'
  obtain rfl := Except.error.inj he'
  rw [hr] at hr'
  cases hr'

end ParallaxKernel.Lib
