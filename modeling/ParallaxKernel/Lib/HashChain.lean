import Mathlib.Data.List.Forall2
import Mathlib.Data.List.Induction

/-!
# Chains of digests

A digest that takes in one record after another. If a step determines the digest before it and the
record, up to a relation, then the last digest determines all records, up to the relation.
-/

namespace ParallaxKernel.Lib

variable {δ ρ : Type} {R : ρ → ρ → Prop}

/-- The last digest of a chain; none before the first record. -/
def chain (step : Option δ → ρ → δ) (rs : List ρ) : Option δ :=
  rs.foldl (fun d r => some (step d r)) none

variable {step : Option δ → ρ → δ} {rs ss : List ρ}

@[simp] theorem chain_nil : chain step [] = none := rfl

@[simp] theorem chain_concat (r : ρ) : chain step (rs ++ [r]) = some (step (chain step rs) r) := by
  simp [chain]

/-- From the end of the chain: the last step is determined, and with it the chain before. -/
theorem chain_eq_iff
    (hstep : ∀ rs ss r s, step (chain step rs) r = step (chain step ss) s ↔
      chain step rs = chain step ss ∧ R r s) :
    chain step rs = chain step ss ↔ List.Forall₂ R rs ss := by
  induction rs using List.reverseRecOn generalizing ss with
  | nil =>
    cases ss using List.reverseRecOn with
    | nil => simp
    | append_singleton ss s => simp
  | append_singleton rs r ih =>
    cases ss using List.reverseRecOn with
    | nil => simp
    | append_singleton ss s =>
      rw [chain_concat, chain_concat, Option.some.injEq, hstep, ih]
      constructor
      · rintro ⟨hbefore, hlast⟩
        exact List.rel_append hbefore (.cons hlast .nil)
      · intro h
        have hlen : rs.length = ss.length := by simpa using h.length_eq
        rw [List.forall₂_iff_zip, List.zip_append hlen] at h
        refine ⟨List.forall₂_iff_zip.2 ⟨hlen, fun hmem => h.2 (by simp [hmem])⟩, ?_⟩
        exact h.2 (by simp)

end ParallaxKernel.Lib
