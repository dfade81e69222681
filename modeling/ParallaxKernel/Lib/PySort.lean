import Mathlib.Data.List.Sort

/-!
# The sort of Python

What Python promises of `sorted`: it is a stable sort where `<` is a weak order on what is sorted.
Elsewhere (floats with a NaN among them) some order results.
-/

namespace ParallaxKernel.Lib

variable {α κ : Type}

/-- `<` is a weak order on the elements of a list. -/
structure WeakOrderOn (lt : α → α → Bool) (l : List α) : Prop where
  asymm : ∀ a ∈ l, ∀ b ∈ l, lt a b → lt b a = false
  trans : ∀ a ∈ l, ∀ b ∈ l, ∀ c ∈ l, lt b a = false → lt c b = false → lt c a = false

structure PySort where
  sorted : {α : Type} → (α → α → Bool) → List α → List α
  perm : ∀ {α : Type} (lt : α → α → Bool) (l : List α), (sorted lt l).Perm l
  pairwise : ∀ {α : Type} {lt : α → α → Bool} {l : List α}, WeakOrderOn lt l →
    (sorted lt l).Pairwise fun a b => lt b a = false
  stable : ∀ {α : Type} {lt : α → α → Bool} {l : List α} {a b : α}, WeakOrderOn lt l →
    lt b a = false → List.Sublist [a, b] l → List.Sublist [a, b] (sorted lt l)

/-- In a sorted list one comes before another that it may not follow. -/
theorem pair_sublist_of_pairwise {r : α → α → Prop} {l : List α} {a b : α} (h : l.Pairwise r)
    (ha : a ∈ l) (hb : b ∈ l) (hne : a ≠ b) (hnot : ¬ r b a) : List.Sublist [a, b] l := by
  induction l with
  | nil => cases ha
  | cons c l ih =>
    obtain ⟨hc, hl⟩ := List.pairwise_cons.1 h
    obtain rfl | htail := List.mem_cons.1 ha
    · obtain rfl | hlater := List.mem_cons.1 hb
      · exact absurd rfl hne
      · exact (List.singleton_sublist.2 hlater).cons_cons _
    · obtain rfl | hlater := List.mem_cons.1 hb
      · exact absurd (hc a htail) hnot
      · exact (ih hl htail hlater).cons c

/-- A function into a linear order that `<` agrees with orders the elements. -/
theorem WeakOrderOn.of_key [LinearOrder κ] {lt : α → α → Bool} {l : List α} (key : α → κ)
    (h : ∀ a ∈ l, ∀ b ∈ l, lt a b = true ↔ key a < key b) : WeakOrderOn lt l := by
  have hle : ∀ a ∈ l, ∀ b ∈ l, lt b a = false ↔ key a ≤ key b := by
    intro a ha b hb
    rw [← not_lt, ← h b hb a ha, Bool.not_eq_true]
  constructor
  · intro a ha b hb hlt
    exact (hle a ha b hb).2 ((h a ha b hb).1 hlt).le
  · intro a ha b hb c hc hab hbc
    exact (hle a ha c hc).2 (((hle a ha b hb).1 hab).trans ((hle b hb c hc).1 hbc))

theorem insertionSort_attach (lt : α → α → Bool) (l : List α) :
    l.insertionSort (fun a b => lt b a = false) =
      (l.attach.insertionSort fun a b => lt b.1 a.1 = false).map Subtype.val := by
  rw [List.map_insertionSort _ (fun a b => lt b a = false) Subtype.val l.attach fun _ _ _ _ => Iff.rfl,
    List.attach_map_subtype_val]

theorem total_attach {lt : α → α → Bool} {l : List α} (h : WeakOrderOn lt l) :
    Std.Total fun a b : {a // a ∈ l} => lt b.1 a.1 = false := by
  refine ⟨fun a b => ?_⟩
  cases hlt : lt b.1 a.1 with
  | false => exact .inl rfl
  | true => exact .inr (h.asymm _ b.2 _ a.2 hlt)

theorem trans_attach {lt : α → α → Bool} {l : List α} (h : WeakOrderOn lt l) :
    IsTrans {a // a ∈ l} fun a b => lt b.1 a.1 = false :=
  ⟨fun a b c hab hbc => h.trans _ a.2 _ b.2 _ c.2 hab hbc⟩

/-- Insertion sort is such a sort. -/
def PySort.insertion : PySort where
  sorted lt l := l.insertionSort fun a b => lt b a = false
  perm lt l := List.perm_insertionSort _ l
  pairwise := by
    intro α lt l h
    have := total_attach h
    have := trans_attach h
    rw [insertionSort_attach, List.pairwise_map]
    exact List.pairwise_insertionSort _ l.attach
  stable := by
    intro α lt l a b h hab hsub
    have := total_attach h
    have := trans_attach h
    rw [← List.attach_map_subtype_val l, List.sublist_map_iff] at hsub
    obtain ⟨c, hc, heq⟩ := hsub
    have hpair : c.Pairwise fun a b => lt b.1 a.1 = false := by
      have hmap : (c.map Subtype.val).Pairwise fun a b => lt b a = false := by
        rw [← heq]
        exact List.pairwise_pair.2 hab
      exact List.pairwise_map.1 hmap
    rw [insertionSort_attach, heq]
    exact (List.sublist_insertionSort hpair hc).map Subtype.val

end ParallaxKernel.Lib
