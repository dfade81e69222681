import Mathlib.Data.List.Sort

/-!
# Best selections

The rows of a list that score highest, in descending order. Where some candidates were put aside
before the selection, it is one of all candidates if and only if enough of the others score as much
as each of them.
-/

namespace ParallaxKernel.Lib

variable {α κ : Type} [LinearOrder κ] (score : α → κ)

/-- The first `n` rows after a stable sort by descending score. -/
def top (n : Nat) (rows : List α) : List α :=
  (rows.insertionSort fun a b => score b ≤ score a).take n

/-- The chosen rows are `n` of the candidates, or all where there are fewer, in descending order,
and no other candidate scores more than one of them. -/
structure IsBest (n : Nat) (candidates chosen : List α) : Prop where
  sorted : chosen.Pairwise fun a b => score b ≤ score a
  length : chosen.length = min n candidates.length
  best : ∃ rest, (chosen ++ rest).Perm candidates ∧ ∀ a ∈ chosen, ∀ b ∈ rest, score b ≤ score a

variable {score}

theorem pairwise_sort (rows : List α) :
    (rows.insertionSort fun a b => score b ≤ score a).Pairwise fun a b => score b ≤ score a := by
  have htotal : Std.Total fun a b : α => score b ≤ score a :=
    ⟨fun a b => le_total (score b) (score a)⟩
  have htrans : IsTrans α fun a b => score b ≤ score a := ⟨fun a b c hab hbc => hbc.trans hab⟩
  exact List.pairwise_insertionSort _ rows

/-- The sorted rows fall into those at the top and the rest. -/
theorem exists_rest (score : α → κ) (n : Nat) (rows : List α) :
    ∃ rest, (top score n rows ++ rest).Perm rows ∧
      (top score n rows ++ rest).Pairwise fun a b => score b ≤ score a := by
  refine ⟨(rows.insertionSort fun a b => score b ≤ score a).drop n, ?_, ?_⟩
  · rw [top, List.take_append_drop]
    exact List.perm_insertionSort _ rows
  · rw [top, List.take_append_drop]
    exact pairwise_sort rows

theorem length_top (n : Nat) (rows : List α) : (top score n rows).length = min n rows.length := by
  rw [top, List.length_take, List.length_insertionSort]

theorem mem_of_mem_top {n : Nat} {rows : List α} {a : α} (h : a ∈ top score n rows) : a ∈ rows :=
  (List.mem_insertionSort _).1 (List.mem_of_mem_take h)

theorem nodup_map_top {β : Type} {key : α → β} {rows : List α} (h : (rows.map key).Nodup) (n : Nat) :
    ((top score n rows).map key).Nodup := by
  have hsorted := ((List.perm_insertionSort (fun a b => score b ≤ score a) rows).map key).nodup_iff
  exact (hsorted.2 h).sublist ((List.take_sublist n _).map key)

theorem top_perm {n : Nat} {rows : List α} (h : rows.length ≤ n) : (top score n rows).Perm rows := by
  rw [top, List.take_of_length_le (by rwa [List.length_insertionSort])]
  exact List.perm_insertionSort _ rows

/-- The rows at the top are a best selection. -/
theorem isBest_top (score : α → κ) (n : Nat) (rows : List α) :
    IsBest score n rows (top score n rows) := by
  obtain ⟨rest, hperm, hsorted⟩ := exists_rest score n rows
  rw [List.pairwise_append] at hsorted
  exact ⟨hsorted.1, length_top n rows, rest, hperm, hsorted.2.2⟩

/-- A row that as many score as much as there is room for scores no more than one at the top. -/
theorem le_of_mem_top {n : Nat} {rows : List α} {a d : α} (ha : a ∈ top score n rows)
    (h : n ≤ (rows.filter fun k => score d ≤ score k).length) : score d ≤ score a := by
  obtain ⟨rest, hperm, hsorted⟩ := exists_rest score n rows
  by_contra hlt
  have hrest : rest.filter (fun k => score d ≤ score k) = [] := by
    refine List.filter_eq_nil_iff.2 fun b hb hle => hlt ?_
    exact (of_decide_eq_true hle).trans ((List.pairwise_append.1 hsorted).2.2 a ha b hb)
  have hcount := (hperm.filter fun k => decide (score d ≤ score k)).length_eq
  have htop : ((top score n rows).filter fun k => score d ≤ score k).length <
      (top score n rows).length :=
    List.length_filter_lt_length_iff_exists.2 ⟨a, ha, by simpa using hlt⟩
  rw [List.filter_append, hrest, List.append_nil] at hcount
  have hlength : (top score n rows).length = min n rows.length := length_top n rows
  omega

/-- The top of the kept rows is a best selection of all rows if and only if there are enough kept
rows that score as much as each dropped one. -/
theorem isBest_top_iff (n : Nat) (kept dropped : List α) :
    IsBest score n (kept ++ dropped) (top score n kept) ↔
      ∀ d ∈ dropped, n ≤ (kept.filter fun k => score d ≤ score k).length := by
  obtain ⟨below, hperm, hsorted⟩ := exists_rest score n kept
  have hlength : (top score n kept).length = min n kept.length := length_top n kept
  constructor
  · intro h d hd
    obtain ⟨rest, hrest, hbest⟩ := h.best
    have hfull : (top score n kept).length = n := by
      have hpos := List.length_pos_of_mem hd
      have hmin := h.length
      rw [List.length_append] at hmin
      omega
    have hmem : d ∈ rest := by
      have hsame : (top score n kept ++ rest).Perm (top score n kept ++ (below ++ dropped)) := by
        rw [← List.append_assoc]
        exact hrest.trans (hperm.symm.append_right dropped)
      rw [List.perm_append_left_iff] at hsame
      exact hsame.mem_iff.2 (List.mem_append_right below hd)
    have hall : (top score n kept).filter (fun k => score d ≤ score k) = top score n kept :=
      List.filter_eq_self.2 fun a ha => decide_eq_true (hbest a ha d hmem)
    rw [← (hperm.filter _).length_eq, List.filter_append, hall, List.length_append, hfull]
    exact Nat.le_add_right n _
  · intro h
    refine ⟨(isBest_top score n kept).sorted, ?_, below ++ dropped, ?_, ?_⟩
    · cases dropped with
      | nil => rw [List.append_nil, hlength]
      | cons d dropped =>
        have hle := (h d List.mem_cons_self).trans (List.length_filter_le _ kept)
        rw [List.length_append, hlength]
        omega
    · rw [← List.append_assoc]
      exact hperm.append_right dropped
    · intro a ha b hb
      obtain hb | hb := List.mem_append.1 hb
      · exact (List.pairwise_append.1 hsorted).2.2 a ha b hb
      · exact le_of_mem_top ha (h b hb)

/-! ## Two lists cut before the selection -/

theorem IsBest.perm {n : Nat} {candidates candidates' chosen : List α}
    (h : IsBest score n candidates chosen) (hperm : candidates.Perm candidates') :
    IsBest score n candidates' chosen := by
  obtain ⟨rest, hrest, hbest⟩ := h.best
  exact ⟨h.sorted, hperm.length_eq ▸ h.length, rest, hrest.trans hperm, hbest⟩

/-- The selection from the first `n` of each list is one from both lists if and only if enough of
them score as much as each row behind a cut. -/
theorem isBest_cut_iff (n : Nat) (as bs : List α) :
    IsBest score n (as ++ bs) (top score n (as.take n ++ bs.take n)) ↔
      ∀ d, d ∈ as.drop n ∨ d ∈ bs.drop n →
        n ≤ ((as.take n).filter fun k => score d ≤ score k).length +
          ((bs.take n).filter fun k => score d ≤ score k).length := by
  have hperm : (as ++ bs).Perm ((as.take n ++ bs.take n) ++ (as.drop n ++ bs.drop n)) := by
    have hswap : ((as.take n ++ as.drop n) ++ (bs.take n ++ bs.drop n)).Perm
        ((as.take n ++ bs.take n) ++ (as.drop n ++ bs.drop n)) := by
      rw [List.append_assoc, List.append_assoc]
      exact (List.perm_append_comm_assoc _ _ _).append_left _
    rwa [List.take_append_drop, List.take_append_drop] at hswap
  have hcut : IsBest score n (as ++ bs) (top score n (as.take n ++ bs.take n)) ↔
      IsBest score n ((as.take n ++ bs.take n) ++ (as.drop n ++ bs.drop n))
        (top score n (as.take n ++ bs.take n)) :=
    ⟨fun h => h.perm hperm, fun h => h.perm hperm.symm⟩
  rw [hcut, isBest_top_iff]
  simp only [List.mem_append, List.filter_append, List.length_append]

/-- The rows before a cut in descending order all score as much as one behind it. -/
theorem le_filter_take {rows : List α} (hsorted : rows.Pairwise fun a b => score b ≤ score a)
    {n : Nat} {d : α} (hd : d ∈ rows.drop n) :
    n ≤ ((rows.take n).filter fun k => score d ≤ score k).length := by
  have hlt := List.length_pos_of_mem hd
  rw [List.length_drop] at hlt
  rw [← List.take_append_drop n rows, List.pairwise_append] at hsorted
  rw [List.filter_eq_self.2 fun a ha => decide_eq_true (hsorted.2.2 a ha d hd), List.length_take]
  omega

/-- Cutting two lists in descending order loses nothing. -/
theorem isBest_merge {as bs : List α} (has : as.Pairwise fun a b => score b ≤ score a)
    (hbs : bs.Pairwise fun a b => score b ≤ score a) (n : Nat) :
    IsBest score n (as ++ bs) (top score n (as.take n ++ bs.take n)) := by
  rw [isBest_cut_iff]
  rintro d (hd | hd)
  · exact (le_filter_take has hd).trans (Nat.le_add_right _ _)
  · exact (le_filter_take hbs hd).trans (Nat.le_add_left _ _)

end ParallaxKernel.Lib
