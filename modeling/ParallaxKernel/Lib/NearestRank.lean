import Mathlib.Algebra.Order.Floor.Ring
import Mathlib.Algebra.Order.Ring.Rat
import Mathlib.Data.List.Sort
import Mathlib.Data.Rat.Floor
import Mathlib.Tactic.Linarith

/-!
# Nearest-rank percentiles

The nearest-rank `p`-quantile of a sample is its least value that at least the fraction `p` of the
sample does not exceed. In the sorted sample it stands at place `⌈p * n⌉`.
-/

namespace ParallaxKernel.Lib

variable {α : Type} [LinearOrder α]

/-- How many of the sample do not exceed `v`. -/
def countLe (xs : List α) (v : α) : Nat := xs.countP fun x => decide (x ≤ v)

structure IsNearestRank (p : ℚ) (xs : List α) (v : α) : Prop where
  mem : v ∈ xs
  covers : p * xs.length ≤ countLe xs v
  least : ∀ w ∈ xs, p * xs.length ≤ countLe xs w → v ≤ w

theorem IsNearestRank.unique {p : ℚ} {xs : List α} {v w : α} (hv : IsNearestRank p xs v)
    (hw : IsNearestRank p xs w) : v = w :=
  le_antisymm (hv.least w hw.mem hw.covers) (hw.least v hv.mem hv.covers)

theorem IsNearestRank.perm {p : ℚ} {xs ys : List α} {v : α} (h : IsNearestRank p xs v)
    (hperm : xs.Perm ys) : IsNearestRank p ys v := by
  have hcount (w : α) : countLe xs w = countLe ys w := hperm.countP_eq _
  obtain ⟨hmem, hcovers, hleast⟩ := h
  rw [hperm.length_eq, hcount] at hcovers
  refine ⟨hperm.mem_iff.1 hmem, hcovers, fun w hw hle => hleast w (hperm.mem_iff.2 hw) ?_⟩
  rwa [hperm.length_eq, hcount]

variable {s : List α}

theorem succ_le_countLe (hs : s.Pairwise (· ≤ ·)) {i : Nat} (hi : i < s.length) :
    i + 1 ≤ countLe s s[i] := by
  have hall : ∀ x ∈ s.take (i + 1), x ≤ s[i] := by
    intro x hx
    obtain ⟨j, hj, rfl⟩ := List.mem_take_iff_getElem.1 hx
    rcases Nat.lt_or_ge j i with hji | hji
    · exact List.pairwise_iff_getElem.1 hs j i (by omega) hi hji
    · obtain rfl : j = i := by omega
      exact le_rfl
  calc i + 1 = (s.take (i + 1)).countP fun x => decide (x ≤ s[i]) := by
        rw [List.countP_eq_length.2 (by simpa using hall), List.length_take]
        omega
    _ ≤ countLe s s[i] := (List.take_sublist _ _).countP_le

theorem countLe_le (hs : s.Pairwise (· ≤ ·)) {i : Nat} (hi : i < s.length) {w : α}
    (hw : w < s[i]) : countLe s w ≤ i := by
  have hnone : (s.drop i).countP (fun x => decide (x ≤ w)) = 0 := by
    rw [List.countP_eq_zero]
    intro x hx
    obtain ⟨j, hj, rfl⟩ := List.mem_drop_iff_getElem.1 hx
    have hle : s[i] ≤ s[i + j] := by
      rcases Nat.eq_zero_or_pos j with rfl | hpos
      · exact le_rfl
      · exact List.pairwise_iff_getElem.1 hs i (i + j) hi (by omega) (by omega)
    simpa using hw.trans_le hle
  calc countLe s w
      = (s.take i).countP (fun x => decide (x ≤ w)) +
          (s.drop i).countP (fun x => decide (x ≤ w)) := by
        rw [countLe, ← List.countP_append, List.take_append_drop]
    _ ≤ i := by
        rw [hnone]
        exact List.countP_le_length.trans (by simp)

/-- The value at a place of a sorted sample reaches `x` if as many values reach `x` as stand from
that place on. -/
theorem le_getElem_iff (hs : s.Pairwise (· ≤ ·)) {i : Nat} (hi : i < s.length) {x : α} :
    x ≤ s[i] ↔ s.length - i ≤ s.countP fun y => decide (x ≤ y) := by
  constructor
  · intro hx
    have hall : ∀ y ∈ s.drop i, decide (x ≤ y) = true := by
      intro y hy
      obtain ⟨j, hj, rfl⟩ := List.mem_drop_iff_getElem.1 hy
      refine decide_eq_true (hx.trans ?_)
      rcases Nat.eq_zero_or_pos j with rfl | hpos
      · exact le_rfl
      · exact List.pairwise_iff_getElem.1 hs i (i + j) hi (by omega) (by omega)
    calc s.length - i = (s.drop i).countP fun y => decide (x ≤ y) := by
          rw [List.countP_eq_length.2 hall, List.length_drop]
      _ ≤ s.countP fun y => decide (x ≤ y) := (List.drop_sublist i s).countP_le
  · intro hcount
    by_contra hx
    have hsplit : s.countP (fun y => decide (x ≤ y)) =
        (s.take (i + 1)).countP (fun y => decide (x ≤ y)) +
          (s.drop (i + 1)).countP fun y => decide (x ≤ y) := by
      rw [← List.countP_append, List.take_append_drop]
    have hnone : (s.take (i + 1)).countP (fun y => decide (x ≤ y)) = 0 := by
      rw [List.countP_eq_zero]
      intro y hy
      obtain ⟨j, hj, rfl⟩ := List.mem_take_iff_getElem.1 hy
      have hle : s[j] ≤ s[i] := by
        rcases Nat.lt_or_ge j i with hji | hji
        · exact List.pairwise_iff_getElem.1 hs j i (by omega) hi hji
        · obtain rfl : j = i := by omega
          exact le_rfl
      simpa using hle.trans_lt (not_le.1 hx)
    have hrest := List.countP_le_length (p := fun y => decide (x ≤ y)) (l := s.drop (i + 1))
    rw [List.length_drop] at hrest
    omega

/-- In a sorted sample the nearest-rank quantile stands at its rank. -/
theorem isNearestRank_getElem (hs : s.Pairwise (· ≤ ·)) {p : ℚ} {i : Nat} (hi : i < s.length)
    (hrank : (⌈p * s.length⌉ : Int) = i + 1) : IsNearestRank p s s[i] := by
  refine ⟨List.getElem_mem hi, ?_, fun w hw hle => ?_⟩
  · have hceil : p * s.length ≤ ((i + 1 : Nat) : ℚ) := by
      have := Int.le_ceil (p * s.length)
      rw [hrank] at this
      exact_mod_cast this
    exact hceil.trans (by exact_mod_cast succ_le_countLe hs hi)
  · by_contra hlt
    have hcount : countLe s w ≤ i := countLe_le hs hi (not_le.1 hlt)
    have hceil : (⌈p * s.length⌉ : Int) ≤ countLe s w := Int.ceil_le.2 (by exact_mod_cast hle)
    omega

end ParallaxKernel.Lib
