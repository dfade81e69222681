import Mathlib.Algebra.Order.BigOperators.Group.List
import Mathlib.Data.List.Nodup

/-!
# Positional scores

A family of rankings gives each candidate the sum of the weights of its ranks. The order of the
rankings does not matter. Where weights fall from rank to rank, one that every ranking of another
puts before it scores more.
-/

namespace ParallaxKernel.Lib

variable {α M : Type} [DecidableEq α]

section Share

variable [AddCommMonoid M]

/-- What a ranking gives `a`, where its ranks begin with `n`. -/
def rankScore (w : Nat → M) : Nat → List α → α → M
  | _, [], _ => 0
  | n, b :: l, a => (if b = a then w n else 0) + rankScore w (n + 1) l a

def totalScore (w : Nat → M) (n : Nat) (family : List (List α)) (a : α) : M :=
  (family.map fun l => rankScore w n l a).sum

theorem rankScore_of_not_mem {w : Nat → M} {n : Nat} {l : List α} {a : α} (h : a ∉ l) :
    rankScore w n l a = 0 := by
  induction l generalizing n with
  | nil => rfl
  | cons b l ih =>
    rw [List.mem_cons, not_or] at h
    rw [rankScore, if_neg (Ne.symm h.1), ih h.2, add_zero]

theorem rankScore_cons_self {w : Nat → M} {n : Nat} {l : List α} {a : α} (h : a ∉ l) :
    rankScore w n (a :: l) a = w n := by
  rw [rankScore, if_pos rfl, rankScore_of_not_mem h, add_zero]

theorem rankScore_cons_of_ne {w : Nat → M} {n : Nat} {l : List α} {a b : α} (h : b ≠ a) :
    rankScore w n (b :: l) a = rankScore w (n + 1) l a := by
  rw [rankScore, if_neg h, zero_add]

/-- The last of a ranking gets the weight of its length. -/
theorem rankScore_concat {w : Nat → M} {n : Nat} {l : List α} {a : α} (h : a ∉ l) :
    rankScore w n (l ++ [a]) a = w (n + l.length) := by
  induction l generalizing n with
  | nil => exact rankScore_cons_self List.not_mem_nil
  | cons b l ih =>
    rw [List.mem_cons, not_or] at h
    rw [List.cons_append, rankScore_cons_of_ne (Ne.symm h.1), ih h.2, List.length_cons]
    congr 1
    omega

theorem totalScore_perm {w : Nat → M} {n : Nat} {family family' : List (List α)}
    (h : family.Perm family') (a : α) : totalScore w n family a = totalScore w n family' a :=
  (h.map _).sum_eq

end Share

section Order

variable [AddCommMonoid M] [PartialOrder M] {w : Nat → M}

/-- No rank weighs more than the first. -/
theorem rankScore_le (hpos : ∀ n, 0 ≤ w n) (hanti : Antitone w) {n : Nat} {l : List α}
    (hnodup : l.Nodup) (a : α) : rankScore w n l a ≤ w n := by
  induction l generalizing n with
  | nil => exact hpos n
  | cons b l ih =>
    rw [List.nodup_cons] at hnodup
    by_cases hb : b = a
    · rw [← hb, rankScore_cons_self hnodup.1]
    · rw [rankScore_cons_of_ne hb]
      exact (ih hnodup.2).trans (hanti n.le_succ)

/-- A ranking gives more to the earlier one. -/
theorem rankScore_lt (hpos : ∀ n, 0 ≤ w n) (hanti : StrictAnti w) {n : Nat} {l : List α} {a b : α}
    (hnodup : l.Nodup) (h : List.Sublist [a, b] l) : rankScore w n l b < rankScore w n l a := by
  induction l generalizing n with
  | nil => cases h
  | cons c l ih =>
    rw [List.nodup_cons] at hnodup
    cases h with
    | cons _ h =>
      have hne {d : α} (hd : d ∈ [a, b]) : c ≠ d := by
        rintro rfl
        exact hnodup.1 (h.subset hd)
      rw [rankScore_cons_of_ne (hne (by simp)), rankScore_cons_of_ne (hne (by simp))]
      exact ih hnodup.2 h
    | cons_cons _ h =>
      have hb : b ∈ l := List.singleton_sublist.1 h
      have hne : a ≠ b := by
        rintro rfl
        exact hnodup.1 hb
      rw [rankScore_cons_self hnodup.1, rankScore_cons_of_ne hne]
      exact (rankScore_le hpos hanti.antitone hnodup.2 b).trans_lt (hanti n.lt_succ_self)

/-- No list puts each of two before the other. -/
theorem not_pair_sublist (hpos : ∀ n, 0 ≤ w n) (hanti : StrictAnti w) {l : List α} {a b : α}
    (hnodup : l.Nodup) (h : List.Sublist [a, b] l) : ¬ List.Sublist [b, a] l := fun h' =>
  lt_asymm (rankScore_lt (n := 0) hpos hanti hnodup h) (rankScore_lt hpos hanti hnodup h')

variable [IsOrderedCancelAddMonoid M]

theorem rankScore_nonneg (hpos : ∀ n, 0 ≤ w n) (n : Nat) (l : List α) (a : α) : 0 ≤ rankScore w n l a := by
  induction l generalizing n with
  | nil => exact le_rfl
  | cons b l ih =>
    rw [rankScore]
    refine add_nonneg ?_ (ih (n + 1))
    split_ifs
    · exact hpos n
    · exact le_rfl

/-- No rank weighs less than the last. -/
theorem le_rankScore (hpos : ∀ n, 0 ≤ w n) (hanti : Antitone w) {n m : Nat} {l : List α} {a : α}
    (ha : a ∈ l) (hm : n + l.length ≤ m + 1) : w m ≤ rankScore w n l a := by
  induction l generalizing n with
  | nil => cases ha
  | cons b l ih =>
    rw [List.length_cons] at hm
    by_cases hb : b = a
    · rw [rankScore, if_pos hb]
      exact (hanti (by omega)).trans (le_add_of_nonneg_right (rankScore_nonneg hpos (n + 1) l a))
    · rw [rankScore_cons_of_ne hb]
      exact ih ((List.mem_cons.1 ha).resolve_left (Ne.symm hb)) (by omega)

/-- Unanimity: where every ranking of `b` puts `a` before it, `a` scores more. -/
theorem totalScore_lt (hpos : ∀ n, 0 ≤ w n) (hanti : StrictAnti w) (n : Nat)
    {family : List (List α)} {a b : α} (hnodup : ∀ l ∈ family, l.Nodup)
    (hbefore : ∀ l ∈ family, b ∈ l → List.Sublist [a, b] l) (hb : ∃ l ∈ family, b ∈ l) :
    totalScore w n family b < totalScore w n family a := by
  have hlt : ∀ l ∈ family, b ∈ l → rankScore w n l b < rankScore w n l a := by
    intro l hl hmem
    exact rankScore_lt hpos hanti (hnodup l hl) (hbefore l hl hmem)
  refine List.sum_lt_sum _ _ ?_ ?_
  · intro l hl
    by_cases hmem : b ∈ l
    · exact (hlt l hl hmem).le
    · rw [rankScore_of_not_mem hmem]
      exact rankScore_nonneg hpos n l a
  · obtain ⟨l, hl, hmem⟩ := hb
    exact ⟨l, hl, hlt l hl hmem⟩

end Order

end ParallaxKernel.Lib
