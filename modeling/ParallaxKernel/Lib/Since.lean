import Mathlib.Data.List.Basic
import Mathlib.Data.List.Induction

/-!
# Since

What a log says about now: an entry of it has started something, and no later entry has stopped it.
What the steps of a state machine start and stop alike holds of its state exactly since.
-/

namespace ParallaxKernel.Lib

variable {σ α : Type}

/-- Some entry of the log starts it and no later one stops it. Both are told what stands before. -/
def Since (start stop : List α → α → Prop) (log : List α) : Prop :=
  ∃ before a after, log = before ++ a :: after ∧ start before a ∧
    ∀ between b rest, after = between ++ b :: rest → ¬ stop (before ++ a :: between) b

variable {start stop : List α → α → Prop}

theorem not_since_nil : ¬ Since start stop [] := by
  rintro ⟨before, a, after, hlog, -⟩
  simp at hlog

theorem since_concat (log : List α) (a : α) :
    Since start stop (log ++ [a]) ↔ start log a ∨ Since start stop log ∧ ¬ stop log a := by
  constructor
  · rintro ⟨before, b, after, hlog, hstart, hlasts⟩
    obtain rfl | ⟨between, c, rfl⟩ := List.eq_nil_or_concat' after
    · obtain ⟨rfl, hb⟩ := List.append_inj' hlog rfl
      cases hb
      exact .inl hstart
    · have hcut : log ++ [a] = (before ++ b :: between) ++ [c] := by simpa using hlog
      obtain ⟨rfl, hc⟩ := List.append_inj' hcut rfl
      cases hc
      refine .inr ⟨⟨before, b, between, rfl, hstart, ?_⟩, hlasts between a [] rfl⟩
      intro first d rest hsplit
      exact hlasts first d (rest ++ [a]) (by simp [hsplit])
  · rintro (hstart | ⟨⟨before, b, after, rfl, hstart, hlasts⟩, hgoes⟩)
    · refine ⟨log, a, [], rfl, hstart, ?_⟩
      intro between b rest hsplit
      simp at hsplit
    · refine ⟨before, b, after ++ [a], by simp, hstart, ?_⟩
      intro between c rest hsplit
      obtain rfl | ⟨rest, d, rfl⟩ := List.eq_nil_or_concat' rest
      · obtain ⟨rfl, hc⟩ := List.append_inj' hsplit rfl
        cases hc
        exact hgoes
      · have hcut : after ++ [a] = (between ++ c :: rest) ++ [d] := by simpa using hsplit
        exact hlasts between c rest (List.append_inj' hcut rfl).1

/-- The rule for runs: each step keeps the invariant, and starts and stops what the log says. -/
theorem since_foldl {step : σ → α → σ} {holds : σ → Prop} (Inv : List α → σ → Prop) {s : σ}
    (hs : Inv [] s) (hnot : ¬ holds s)
    (hstep : ∀ log t a, Inv log t → Inv (log ++ [a]) (step t a) ∧
      (holds (step t a) ↔ start log a ∨ holds t ∧ ¬ stop log a)) (log : List α) :
    Inv log (log.foldl step s) ∧ (holds (log.foldl step s) ↔ Since start stop log) := by
  induction log using List.reverseRecOn with
  | nil => exact ⟨hs, iff_of_false hnot not_since_nil⟩
  | append_singleton log a ih =>
    obtain ⟨hinv, hholds⟩ := ih
    obtain ⟨hnext, hturns⟩ := hstep log _ a hinv
    rw [List.foldl_append, List.foldl_cons, List.foldl_nil, since_concat, ← hholds]
    exact ⟨hnext, hturns⟩

end ParallaxKernel.Lib
