import Mathlib.Data.List.Infix

/-!
# Texts joined by a separator

A joined text can be cut again where the separator first occurs, if it occurs in no part and cannot
straddle the end of one.
-/

namespace ParallaxKernel.Lib

variable {α : Type} {sep p q r r' : List α}

/-- The separator occurs in `part ++ sep` at the end only. -/
def Clear (sep part : List α) : Prop := ∀ k < part.length, ¬ sep <+: (part ++ sep).drop k

instance [DecidableEq α] (sep part : List α) : Decidable (Clear sep part) :=
  inferInstanceAs (Decidable (∀ k < part.length, _))

theorem Clear.length_le (hq : Clear sep q) (h : p ++ sep ++ r = q ++ sep ++ r') :
    q.length ≤ p.length := by
  by_contra hlt
  refine hq p.length (by omega) ?_
  have hpre : sep <+: (q ++ sep ++ r').drop p.length := by
    rw [← h, List.append_assoc, List.drop_left]
    exact List.prefix_append sep r
  rw [List.drop_append_of_le_length (by simp; omega)] at hpre
  exact List.prefix_of_prefix_length_le hpre (List.prefix_append _ _) (by simp; omega)

/-- Where the first separator stands is determined by the joined text. -/
theorem Clear.cut (hp : Clear sep p) (hq : Clear sep q) (h : p ++ sep ++ r = q ++ sep ++ r') :
    p = q ∧ r = r' := by
  have hlen : p.length = q.length := le_antisymm (hp.length_le h.symm) (hq.length_le h)
  obtain ⟨hpq, hr⟩ := List.append_inj h (by simp [hlen])
  exact ⟨List.append_cancel_right hpq, hr⟩

/-- Joined lists of as many parts agree part by part, the last part being whatever it is. -/
theorem intercalate_inj {ps qs : List (List α)} (hlen : ps.length = qs.length)
    (hps : ∀ p ∈ ps.dropLast, Clear sep p) (hqs : ∀ q ∈ qs.dropLast, Clear sep q)
    (h : sep.intercalate ps = sep.intercalate qs) : ps = qs := by
  induction ps generalizing qs with
  | nil => exact (List.eq_nil_of_length_eq_zero hlen.symm).symm
  | cons p ps ih =>
    cases qs with
    | nil => simp at hlen
    | cons q qs =>
      cases ps with
      | nil =>
        obtain rfl : qs = [] := List.eq_nil_of_length_eq_zero (by simpa using hlen.symm)
        simpa using h
      | cons p' ps =>
        cases qs with
        | nil => simp at hlen
        | cons q' qs =>
          simp only [List.intercalate_cons_cons] at h
          obtain ⟨rfl, hrest⟩ := (hps p (by simp)).cut (hqs q (by simp)) h
          rw [ih (by simpa using hlen) (fun x hx => hps x (by simp_all))
            (fun x hx => hqs x (by simp_all)) hrest]

/-- A doubled character as the separator: no part contains it or ends with its half. -/
theorem clear_pair (c : α) (p : List α) :
    Clear [c, c] p ↔ ¬ [c, c] <:+: p ∧ p.getLast? ≠ some c := by
  constructor
  · intro h
    constructor
    · rintro ⟨s, t, rfl⟩
      exact h s.length (by simp) (by simp)
    · intro hlast
      obtain ⟨l, rfl⟩ := List.getLast?_eq_some_iff.1 hlast
      exact h l.length (by simp) (by simp)
  · rintro ⟨hwithin, hlast⟩ k hk hpre
    rw [List.drop_append_of_le_length hk.le] at hpre
    have hsuffix : p.drop k <:+ p := List.drop_suffix k p
    cases hd : p.drop k with
    | nil => exact absurd (List.drop_eq_nil_iff.1 hd) (by omega)
    | cons x xs =>
      rw [hd] at hpre hsuffix
      cases xs with
      | nil =>
        obtain rfl : c = x := by simpa using hpre
        obtain ⟨l, rfl⟩ := hsuffix
        exact hlast (by simp)
      | cons y ys =>
        obtain ⟨rfl, rfl⟩ : c = x ∧ c = y := by simpa using hpre
        exact hwithin (List.IsInfix.trans ⟨[], ys, rfl⟩ hsuffix.isInfix)

end ParallaxKernel.Lib
