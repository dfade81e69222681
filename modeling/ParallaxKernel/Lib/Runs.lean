import Mathlib.Tactic.Common

/-!
# Runs of a step function

A step may be impossible. What every step of a run satisfies is the subject of `Along`; its rule
carries an invariant that the steps keep as long as they satisfy the property.
-/

namespace ParallaxKernel.Lib

variable {σ α : Type}

/-- Every step of the run from `s` satisfies `P`. -/
def Along (step : σ → α → Option σ) (P : σ → α → σ → Prop) : σ → List α → Prop
  | _, [] => True
  | s, a :: as => ∀ t, step s a = some t → P s a t ∧ Along step P t as

/-- Whether every step of a run satisfies a property is decided by running it. -/
instance instDecidableAlong (step : σ → α → Option σ) (P : σ → α → σ → Prop)
    [∀ s a t, Decidable (P s a t)] : ∀ s as, Decidable (Along step P s as)
  | _, [] => .isTrue trivial
  | s, a :: as =>
    match hstep : step s a with
    | none => .isTrue fun t ht => by
      rw [hstep] at ht
      cases ht
    | some t =>
      have := instDecidableAlong step P t as
      decidable_of_iff (P s a t ∧ Along step P t as)
        ⟨fun h u hu => by
          rw [hstep] at hu
          cases hu
          exact h, fun h => h t hstep⟩

variable {step : σ → α → Option σ} {P Q : σ → α → σ → Prop} {Inv : σ → Prop}

/-- Two properties that agree as long as they have held agree along every run. -/
theorem along_iff
    (h : ∀ s a t, Inv s → step s a = some t → (P s a t ↔ Q s a t) ∧ (P s a t → Inv t))
    {s : σ} (hs : Inv s) (as : List α) : Along step P s as ↔ Along step Q s as := by
  induction as generalizing s with
  | nil => exact Iff.rfl
  | cons a as ih =>
    refine forall_congr' fun t => forall_congr' fun ht => ?_
    obtain ⟨hPQ, hInv⟩ := h s a t hs ht
    constructor
    · intro hP
      exact ⟨hPQ.1 hP.1, (ih (hInv hP.1)).1 hP.2⟩
    · intro hQ
      have hP := hPQ.2 hQ.1
      exact ⟨hP, (ih (hInv hP)).2 hQ.2⟩

theorem along_append {s : σ} (as bs : List α) : Along step P s (as ++ bs) ↔
    Along step P s as ∧ ∀ t, as.foldlM step s = some t → Along step P t bs := by
  induction as generalizing s with
  | nil =>
    refine ⟨fun h => ⟨trivial, ?_⟩, fun h => h.2 s rfl⟩
    rintro t ht
    cases ht
    exact h
  | cons a as ih =>
    constructor
    · intro h
      refine ⟨fun u hu => ⟨(h u hu).1, ((ih).1 (h u hu).2).1⟩, fun t ht => ?_⟩
      obtain ⟨u, hu, hrest⟩ := Option.bind_eq_some_iff.1 ht
      exact ((ih).1 (h u hu).2).2 t hrest
    · rintro ⟨has, hbs⟩ u hu
      refine ⟨(has u hu).1, (ih).2 ⟨(has u hu).2, fun t ht => hbs t ?_⟩⟩
      rw [List.foldlM_cons]
      exact Option.bind_eq_some_iff.2 ⟨u, hu, ht⟩

/-- A step of a run that is reached satisfies what every step does. -/
theorem Along.reached {s : σ} (as bs : List α) {a : α} {t u : σ}
    (h : Along step P s (as ++ a :: bs)) (hrun : as.foldlM step s = some t)
    (hstep : step t a = some u) : P t a u := by
  induction as generalizing s with
  | nil =>
    cases hrun
    exact (h u hstep).1
  | cons b as ih =>
    obtain ⟨v, hv, hrun⟩ := Option.bind_eq_some_iff.1 hrun
    exact ih (h v hv).2 hrun

/-- What the steps keep that satisfy a property holds after a run of such steps. -/
theorem Along.inv (h : ∀ s a t, Inv s → step s a = some t → P s a t → Inv t) {s t : σ} {as : List α}
    (hs : Inv s) (halong : Along step P s as) (hrun : as.foldlM step s = some t) : Inv t := by
  induction as generalizing s with
  | nil =>
    cases hrun
    exact hs
  | cons a as ih =>
    obtain ⟨u, hstep, hrun⟩ := Option.bind_eq_some_iff.1 hrun
    obtain ⟨hP, halong⟩ := halong u hstep
    exact ih (h s a u hs hstep hP) halong hrun

/-- An invariant of the steps of a loop that may raise. -/
theorem foldlM_ok_of_inv {ε : Type} {I : σ → Prop} {f : σ → α → Except ε σ}
    {as : List α}
    (h : ∀ s, ∀ a ∈ as, ∀ t, I s → f s a = .ok t → I t) {s t : σ} (hs : I s)
    (hrun : as.foldlM f s = .ok t) : I t := by
  induction as generalizing s with
  | nil =>
    cases hrun
    exact hs
  | cons a as ih =>
    rw [List.foldlM_cons] at hrun
    cases hstep : f s a with
    | error e =>
      rw [hstep] at hrun
      cases hrun
    | ok u =>
      rw [hstep] at hrun
      exact ih (fun s b hb => h s b (List.mem_cons_of_mem a hb))
        (h s a List.mem_cons_self u hs hstep) hrun

end ParallaxKernel.Lib
