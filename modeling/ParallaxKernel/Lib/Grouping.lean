import Mathlib.Algebra.BigOperators.Ring.Finset
import Mathlib.Algebra.BigOperators.Ring.List
import Mathlib.Algebra.Order.BigOperators.Group.List
import Mathlib.Algebra.Order.Field.Rat
import Mathlib.Data.Rat.Cast.Order
import Mathlib.Tactic.Positivity

/-!
# Grouping a list, and shares of its groups

Groups by a key, in the order in which their keys come first. The share of the elements with a
property in the whole list is the mean of the shares in the groups, weighted by their lengths.
-/

namespace ParallaxKernel.Lib

variable {α κ : Type} [DecidableEq κ]

/-- `groups.setdefault(key, []).append(x)`. -/
def addToGroup (key : κ) (x : α) : List (κ × List α) → List (κ × List α)
  | [] => [(key, [x])]
  | g :: gs => if g.1 = key then (g.1, g.2 ++ [x]) :: gs else g :: addToGroup key x gs

def groupBy (f : α → κ) (xs : List α) : List (κ × List α) :=
  xs.foldl (fun gs x => addToGroup (f x) x gs) []

/-- The elements under a key; none where no element has it. -/
def groupOf (key : κ) (gs : List (κ × List α)) : List α := (gs.lookup key).getD []

example : groupBy (· % 2) [3, 4, 5] = [(1, [3, 5]), (0, [4])] := by decide

variable {f : α → κ} {xs : List α} {gs : List (κ × List α)} {key : κ} {x : α} {p : α → Bool}

theorem addToGroup_keys (key : κ) (x : α) (gs : List (κ × List α)) :
    (addToGroup key x gs).map Prod.fst =
      if key ∈ gs.map Prod.fst then gs.map Prod.fst else gs.map Prod.fst ++ [key] := by
  induction gs with
  | nil => simp [addToGroup]
  | cons g gs ih =>
    rw [addToGroup]
    by_cases hg : g.1 = key
    · simp [hg]
    · rw [if_neg hg, List.map_cons, ih]
      by_cases hmem : key ∈ gs.map Prod.fst
      · rw [if_pos hmem, if_pos (by simp [hmem]), List.map_cons]
      · rw [if_neg hmem, if_neg (by simpa [Ne.symm hg] using hmem), List.map_cons,
          List.cons_append]

theorem addToGroup_flatten (key : κ) (x : α) (gs : List (κ × List α)) :
    ((addToGroup key x gs).flatMap Prod.snd).Perm (gs.flatMap Prod.snd ++ [x]) := by
  induction gs with
  | nil => simp [addToGroup]
  | cons g gs ih =>
    rw [addToGroup]
    split_ifs with hg
    · simp only [List.flatMap_cons, List.append_assoc]
      exact List.perm_append_comm.append_left g.2
    · simpa using ih.append_left g.2

@[simp] theorem groupOf_nil (k : κ) : groupOf k ([] : List (κ × List α)) = [] := rfl

theorem groupOf_cons (k : κ) (g : κ × List α) (gs : List (κ × List α)) :
    groupOf k (g :: gs) = if k = g.1 then g.2 else groupOf k gs := by
  obtain ⟨k', ys⟩ := g
  unfold groupOf
  rw [List.lookup_cons]
  by_cases hk : k = k'
  · simp [hk]
  · rw [if_neg hk, beq_eq_false_iff_ne.2 hk]

theorem groupOf_addToGroup (key : κ) (x : α) (gs : List (κ × List α)) (k : κ) :
    groupOf k (addToGroup key x gs) = if k = key then groupOf k gs ++ [x] else groupOf k gs := by
  induction gs with
  | nil =>
    rw [addToGroup, groupOf_cons]
    split_ifs <;> rfl
  | cons g gs ih =>
    rw [addToGroup, groupOf_cons k g]
    by_cases hg : g.1 = key
    · rw [if_pos hg, groupOf_cons, hg]
      split_ifs <;> rfl
    · rw [if_neg hg, groupOf_cons, ih]
      by_cases hk : k = g.1
      · rw [if_pos hk, if_pos hk, if_neg (hk ▸ hg)]
      · rw [if_neg hk, if_neg hk]

/-- The groups of a list that is read from the left. -/
structure IsGrouped (f : α → κ) (xs : List α) (gs : List (κ × List α)) : Prop where
  keys_nodup : (gs.map Prod.fst).Nodup
  key_mem : ∀ k, k ∈ gs.map Prod.fst ↔ ∃ x ∈ xs, f x = k
  group : ∀ k, groupOf k gs = xs.filter fun x => decide (f x = k)
  flatten : (gs.flatMap Prod.snd).Perm xs

theorem IsGrouped.add (h : IsGrouped f xs gs) (x : α) :
    IsGrouped f (xs ++ [x]) (addToGroup (f x) x gs) where
  keys_nodup := by
    rw [addToGroup_keys]
    split_ifs with hmem
    · exact h.keys_nodup
    · exact List.nodup_append.2 ⟨h.keys_nodup, List.nodup_singleton _, by
        intro a ha b hb hab
        exact hmem (by simpa [← List.mem_singleton.1 hb, ← hab] using ha)⟩
  key_mem k := by
    rw [addToGroup_keys]
    split_ifs with hmem
    · rw [h.key_mem]
      constructor
      · rintro ⟨y, hy, rfl⟩
        exact ⟨y, by simp [hy], rfl⟩
      · rintro ⟨y, hy, rfl⟩
        obtain hy | hy := List.mem_append.1 hy
        · exact ⟨y, hy, rfl⟩
        · rw [List.mem_singleton.1 hy]
          exact (h.key_mem _).1 hmem
    · rw [List.mem_append, h.key_mem, List.mem_singleton]
      simp [or_and_right, exists_or, eq_comm]
  group k := by
    rw [groupOf_addToGroup, h.group, List.filter_append]
    by_cases hk : k = f x
    · simp [hk]
    · simp [hk, Ne.symm hk]
  flatten := (addToGroup_flatten _ _ _).trans (h.flatten.append_right [x])

theorem isGrouped_groupBy (f : α → κ) (xs : List α) : IsGrouped f xs (groupBy f xs) := by
  have hrun : ∀ ys gs, IsGrouped f ys gs →
      IsGrouped f (ys ++ xs) (xs.foldl (fun gs x => addToGroup (f x) x gs) gs) := by
    induction xs with
    | nil => simp
    | cons x xs ih =>
      intro ys gs h
      simpa using ih _ _ (h.add x)
  exact hrun [] [] ⟨List.nodup_nil, by simp, by simp [groupOf], List.Perm.refl _⟩

theorem sum_single {ks : List κ} (hks : ks.Nodup) (hkey : key ∈ ks) (n : Nat) :
    (ks.map fun k => if k = key then n else 0).sum = n := by
  induction ks with
  | nil => cases hkey
  | cons k ks ih =>
    obtain ⟨hk, hks⟩ := List.nodup_cons.1 hks
    rw [List.map_cons, List.sum_cons]
    by_cases heq : k = key
    · have hrest : ∀ i ∈ ks, (if i = key then n else 0) = 0 := by
        intro i hi
        rw [if_neg]
        rintro rfl
        exact hk (heq ▸ hi)
      rw [if_pos heq, List.map_congr_left hrest]
      simp
    · rw [if_neg heq, ih hks ((List.mem_cons.1 hkey).resolve_left (Ne.symm heq)), Nat.zero_add]

/-- The elements of a list, by the keys of a list that has them all. -/
theorem sum_countP_filter {ks : List κ} (hks : ks.Nodup) (hmem : ∀ x ∈ xs, f x ∈ ks)
    (p : α → Bool) :
    (ks.map fun k => (xs.filter fun x => decide (f x = k)).countP p).sum = xs.countP p := by
  induction xs with
  | nil => simp
  | cons x xs ih =>
    obtain ⟨hx, hxs⟩ := List.forall_mem_cons.1 hmem
    have hstep (k : κ) : ((x :: xs).filter fun y => decide (f y = k)).countP p =
        (xs.filter fun y => decide (f y = k)).countP p +
          if k = f x then (if p x then 1 else 0) else 0 := by
      by_cases hk : k = f x
      · simp [hk, List.countP_cons]
      · simp [hk, Ne.symm hk]
    simp only [hstep, List.sum_map_add, ih hxs, List.countP_cons]
    congr 1
    exact sum_single hks hx _

/-! ## Shares -/

/-- The share of the elements with a property; that of the empty list is zero. -/
def share (p : α → Bool) (xs : List α) : ℚ := xs.countP p / xs.length

theorem share_nonneg (p : α → Bool) (xs : List α) : 0 ≤ share p xs := by
  unfold share
  positivity

theorem share_le_one (p : α → Bool) (xs : List α) : share p xs ≤ 1 := by
  unfold share
  refine div_le_one_of_le₀ ?_ (by positivity)
  exact_mod_cast List.countP_le_length

theorem share_map {α β : Type} (f : α → β) (p : β → Bool) (xs : List α) :
    share p (xs.map f) = share (fun a => p (f a)) xs := by
  rw [share, share, List.countP_map, List.length_map]
  rfl

theorem share_perm {α : Type} {xs ys : List α} (h : xs.Perm ys) (p : α → Bool) :
    share p xs = share p ys := by
  rw [share, share, h.countP_eq, h.length_eq]

theorem share_mul_length (p : α → Bool) (xs : List α) :
    share p xs * xs.length = xs.countP p := by
  unfold share
  cases xs with
  | nil => simp
  | cons x xs =>
    rw [div_mul_cancel₀]
    simp
    positivity

/-- The parts have the elements of the list, as often as it has them. -/
structure Split (xs : List α) (parts : List (List α)) : Prop where
  countP (p : α → Bool) : (parts.map fun part => part.countP p).sum = xs.countP p

theorem Split.length {parts : List (List α)} (h : Split xs parts) :
    (parts.map List.length).sum = xs.length := by
  simpa using h.countP fun _ => true

/-- Elements are removed from the list and from every part. -/
theorem Split.filter {parts : List (List α)} (h : Split xs parts) (q : α → Bool) :
    Split (xs.filter q) (parts.map fun part => part.filter q) where
  countP p := by
    simpa [List.countP_filter, Function.comp_def] using h.countP fun x => p x && q x

theorem split_filter {ks : List κ} (hks : ks.Nodup) (hmem : ∀ x ∈ xs, f x ∈ ks) :
    Split xs (ks.map fun k => xs.filter fun x => decide (f x = k)) where
  countP p := by
    rw [List.map_map]
    exact sum_countP_filter hks hmem p

/-- The share of the whole is the weighted mean of the shares of the parts. -/
theorem Split.share_mul_length {parts : List (List α)} (h : Split xs parts) (p : α → Bool) :
    share p xs * xs.length = (parts.map fun part => share p part * part.length).sum := by
  simp only [Lib.share_mul_length]
  rw [← h.countP p, Nat.cast_list_sum, List.map_map]
  rfl

/-- A share that is below a bound in every part is below it in the whole. -/
theorem Split.share_lt {parts : List (List α)} (h : Split xs parts) (hne : parts ≠ [])
    {θ : ℚ} (hparts : ∀ part ∈ parts, share p part < θ) : share p xs < θ := by
  obtain ⟨part, hpart, hlen⟩ : ∃ part ∈ parts, xs ≠ [] → 0 < part.length := by
    by_contra hnone
    push Not at hnone
    obtain ⟨part, hpart⟩ := List.exists_mem_of_ne_nil parts hne
    have hzero : (parts.map List.length).sum = 0 := by
      refine List.sum_eq_zero fun n hn => ?_
      obtain ⟨part, hpart, rfl⟩ := List.mem_map.1 hn
      exact Nat.le_zero.1 (hnone part hpart).2
    exact (hnone part hpart).1 (List.eq_nil_of_length_eq_zero (h.length ▸ hzero))
  by_cases hxs : xs = []
  · have hnil : part = [] := by
      have hle : part.length ≤ (parts.map List.length).sum :=
        List.le_sum_of_mem (List.mem_map_of_mem hpart)
      rw [h.length, hxs] at hle
      exact List.eq_nil_of_length_eq_zero (Nat.le_zero.1 hle)
    simpa [hxs, hnil, share] using hparts part hpart
  · have hpos : (0 : ℚ) < xs.length := by
      exact_mod_cast List.length_pos_of_ne_nil hxs
    have hmean : share p xs * xs.length < θ * xs.length := by
      calc share p xs * xs.length
          = (parts.map fun part => share p part * part.length).sum := h.share_mul_length p
        _ < (parts.map fun part => θ * (part.length : ℚ)).sum := by
          refine List.sum_lt_sum _ _ (fun part hpart => ?_) ⟨part, hpart, ?_⟩
          · exact mul_le_mul_of_nonneg_right (hparts part hpart).le (Nat.cast_nonneg _)
          · exact mul_lt_mul_of_pos_right (hparts part hpart) (Nat.cast_pos.2 (hlen hxs))
        _ = θ * xs.length := by
          rw [List.sum_map_mul_left, ← h.length, Nat.cast_list_sum, List.map_map]
          rfl
    exact lt_of_mul_lt_mul_right hmean hpos.le

end ParallaxKernel.Lib
