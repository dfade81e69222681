import Mathlib.Data.List.Sort
import ParallaxKernel.Lib.Grouping
import ParallaxKernel.Lib.Lines

/-!
# A log in files

Entries are appended to one file or another. Where entries with one sort key go to one file, reading
the files in any order and sorting what they hold gives the entries as they were written, sorted.
-/

namespace ParallaxKernel.Lib

/-! ## Sorting by a key -/

section Sorting

variable {α κ : Type} [LinearOrder κ]

/-- `sort(key=key)`. -/
def sortByKey (key : α → κ) (l : List α) : List α := l.insertionSort fun a b => key a ≤ key b

variable {key : α → κ} {l l' : List α}

instance instTotalKey (key : α → κ) : Std.Total fun a b : α => key a ≤ key b :=
  ⟨fun a b => le_total (key a) (key b)⟩

instance instTransKey (key : α → κ) : IsTrans α fun a b => key a ≤ key b := ⟨fun _ _ _ => le_trans⟩

theorem pairwise_sortByKey (key : α → κ) (l : List α) :
    (sortByKey key l).Pairwise fun a b => key a ≤ key b := List.pairwise_insertionSort _ l

theorem perm_sortByKey (key : α → κ) (l : List α) : (sortByKey key l).Perm l :=
  List.perm_insertionSort _ l

theorem filter_orderedInsert (a : α) (k : κ) (l : List α) :
    (l.orderedInsert (fun a b => key a ≤ key b) a).filter (fun b => decide (key b = k)) =
      (a :: l).filter fun b => decide (key b = k) := by
  induction l with
  | nil => rfl
  | cons b l ih =>
    rw [List.orderedInsert_cons]
    split_ifs with hle
    · rfl
    · rw [List.filter_cons, ih]
      by_cases hb : key b = k
      · -- `a` goes behind `b`, so its key is another one
        have ha : key a ≠ k := fun ha => hle (ha.trans hb.symm).le
        simp [ha, hb]
      · simp [hb, List.filter_cons]

/-- Elements with one key stay in their order. -/
theorem filter_sortByKey (key : α → κ) (k : κ) (l : List α) :
    (sortByKey key l).filter (fun a => decide (key a = k)) =
      l.filter fun a => decide (key a = k) := by
  induction l with
  | nil => rfl
  | cons a l ih =>
    have hsort : sortByKey key (a :: l) =
        (sortByKey key l).orderedInsert (fun a b => key a ≤ key b) a := rfl
    rw [hsort, filter_orderedInsert, List.filter_cons, List.filter_cons, ih]

/-- A sorted list is determined by its elements with each of the keys. -/
theorem eq_of_pairwise_key (h : l.Pairwise fun a b => key a ≤ key b)
    (h' : l'.Pairwise fun a b => key a ≤ key b)
    (hkeys : ∀ k, l.filter (fun a => decide (key a = k)) = l'.filter fun a => decide (key a = k)) :
    l = l' := by
  induction l generalizing l' with
  | nil =>
    cases l' with
    | nil => rfl
    | cons b l' =>
      have hb := hkeys (key b)
      simp at hb
  | cons a l ih =>
    obtain ⟨ha, hl⟩ := List.pairwise_cons.1 h
    cases l' with
    | nil =>
      have hb := hkeys (key a)
      simp at hb
    | cons b l' =>
      obtain ⟨hb, hl'⟩ := List.pairwise_cons.1 h'
      have hmem : ∀ {m m' : List α}, (∀ k, m.filter (fun a => decide (key a = k)) =
          m'.filter fun a => decide (key a = k)) → ∀ c ∈ m, c ∈ m' := by
        intro m m' heq c hc
        have hin : c ∈ m.filter fun a => decide (key a = key c) :=
          List.mem_filter.2 ⟨hc, decide_eq_true rfl⟩
        rw [heq (key c)] at hin
        exact (List.mem_filter.1 hin).1
      have hab : key a = key b := by
        refine le_antisymm ?_ ?_
        · have hkeys' := fun k => (hkeys k).symm
          obtain rfl | hlater := List.mem_cons.1 (hmem hkeys' b List.mem_cons_self)
          · exact le_refl _
          · exact ha b hlater
        · obtain rfl | hlater := List.mem_cons.1 (hmem hkeys a List.mem_cons_self)
          · exact le_refl _
          · exact hb a hlater
      have hhead := hkeys (key a)
      rw [List.filter_cons_of_pos (by simp), List.filter_cons_of_pos (by simp [hab])] at hhead
      obtain ⟨rfl, -⟩ := List.cons.inj hhead
      refine congrArg _ (ih hl hl' fun k => ?_)
      have hk := hkeys k
      by_cases hak : key a = k
      · simpa [hak] using hk
      · simpa [hak] using hk

/-- Two lists are sorted alike if they have the same elements with each of the keys. -/
theorem sortByKey_congr
    (h : ∀ k, l.filter (fun a => decide (key a = k)) = l'.filter fun a => decide (key a = k)) :
    sortByKey key l = sortByKey key l' := by
  refine eq_of_pairwise_key (pairwise_sortByKey key l) (pairwise_sortByKey key l') fun k => ?_
  rw [filter_sortByKey, filter_sortByKey, h k]

/-- Sorting and leaving out commute. -/
theorem filter_sortByKey_comm (p : α → Bool) (l : List α) :
    (sortByKey key l).filter p = sortByKey key (l.filter p) := by
  refine eq_of_pairwise_key ((pairwise_sortByKey key l).filter p) (pairwise_sortByKey key _)
    fun k => ?_
  rw [filter_sortByKey, List.filter_comm, filter_sortByKey, List.filter_comm]

/-- Sorting does not look beyond the keys. -/
theorem map_sortByKey {β : Type} (f : α → β) {key' : β → κ} (h : ∀ a, key' (f a) = key a)
    (l : List α) : (sortByKey key l).map f = sortByKey key' (l.map f) := by
  rw [sortByKey, sortByKey, List.map_insertionSort (fun a b => key a ≤ key b)
    (fun a b => key' a ≤ key' b) f l]
  intro a _ b _
  rw [h, h]

end Sorting

/-! ## Groups in any order -/

section Groups

variable {α κ ν : Type} [DecidableEq ν] [LinearOrder κ] {f : α → ν} {key : α → κ} {xs : List α}
  {gs : List (ν × List α)}

theorem groupOf_of_mem (hnodup : (gs.map Prod.fst).Nodup) {g : ν × List α} (hg : g ∈ gs) :
    groupOf g.1 gs = g.2 := by
  induction gs with
  | nil => cases hg
  | cons g' gs ih =>
    obtain ⟨hnew, hnodup⟩ := List.nodup_cons.1 hnodup
    rw [groupOf_cons]
    obtain rfl | hlater := List.mem_cons.1 hg
    · exact if_pos rfl
    · rw [if_neg, ih hnodup hlater]
      rintro heq
      exact hnew (heq ▸ List.mem_map_of_mem hlater)

theorem IsGrouped.of_mem (h : IsGrouped f xs gs) {g : ν × List α} (hg : g ∈ gs) :
    g.2 = xs.filter fun x => decide (f x = g.1) := by
  rw [← h.group, groupOf_of_mem h.keys_nodup hg]

/-- The elements with one key are in one group, in their order. -/
theorem filter_flatMap (hfiles : ∀ g ∈ gs, g.2 = xs.filter fun x => decide (f x = g.1))
    (hnodup : (gs.map Prod.fst).Nodup) {k : κ} {n : ν}
    (hone : ∀ x ∈ xs, key x = k → f x = n) :
    (gs.flatMap Prod.snd).filter (fun x => decide (key x = k)) =
      if n ∈ gs.map Prod.fst then xs.filter fun x => decide (key x = k) else [] := by
  induction gs with
  | nil => rfl
  | cons g gs ih =>
    obtain ⟨hnew, hnodup⟩ := List.nodup_cons.1 hnodup
    obtain ⟨hg, hgs⟩ := List.forall_mem_cons.1 hfiles
    rw [List.flatMap_cons, List.filter_append, ih hgs hnodup, hg, List.filter_filter]
    by_cases hn : g.1 = n
    · have hrest : n ∉ gs.map Prod.fst := hn ▸ hnew
      rw [if_neg hrest, if_pos (by simp [hn]), List.append_nil]
      refine List.filter_congr fun x hx => ?_
      by_cases hk : key x = k
      · simp [hk, hone x hx hk, hn]
      · simp [hk]
    · have hnone : (xs.filter fun x => decide (key x = k) && decide (f x = g.1)) = [] := by
        rw [List.filter_eq_nil_iff]
        intro x hx hboth
        simp only [Bool.and_eq_true, decide_eq_true_eq] at hboth
        exact hn (hboth.2.symm.trans (hone x hx hboth.1))
      rw [hnone, List.nil_append, List.map_cons]
      simp only [List.mem_cons, Ne.symm hn, false_or]

/-- Whatever the order of the files, sorting what they hold gives the sorted log. -/
theorem IsGrouped.sortByKey_flatMap (h : IsGrouped f xs gs) (key : α → κ) {gs' : List (ν × List α)}
    (hperm : gs'.Perm gs) (hone : ∀ x ∈ xs, ∀ y ∈ xs, key x = key y → f x = f y) :
    sortByKey key (gs'.flatMap Prod.snd) = sortByKey key xs := by
  have hfiles : ∀ g ∈ gs', g.2 = xs.filter fun x => decide (f x = g.1) :=
    fun g hg => h.of_mem (hperm.mem_iff.1 hg)
  have hnodup : (gs'.map Prod.fst).Nodup := ((hperm.map Prod.fst).nodup_iff).2 h.keys_nodup
  refine sortByKey_congr fun k => ?_
  by_cases hk : ∃ x ∈ xs, key x = k
  · obtain ⟨x, hx, hkx⟩ := hk
    rw [filter_flatMap hfiles hnodup (n := f x) fun y hy hky => hone y hy x hx (hky.trans hkx.symm),
      if_pos]
    rw [(hperm.map Prod.fst).mem_iff]
    exact (h.key_mem _).2 ⟨x, hx, rfl⟩
  · have hnone : ∀ {l : List α}, (∀ x ∈ l, x ∈ xs) →
        (l.filter fun x => decide (key x = k)) = [] := by
      intro l hl
      rw [List.filter_eq_nil_iff]
      intro x hx hkx
      exact hk ⟨x, hl x hx, by simpa using hkx⟩
    have hmem : ∀ x ∈ gs'.flatMap Prod.snd, x ∈ xs := by
      intro x hx
      exact (h.flatten.mem_iff).1 (((hperm.flatMap_right Prod.snd).mem_iff).1 hx)
    rw [hnone hmem, hnone fun x hx => hx]

end Groups

/-! ## Texts -/

section Texts

variable {α ν : Type} [DecidableEq ν]

/-- The file is opened to append, and the text is written. -/
def appendText (name : ν) (text : List Char) : List (ν × List Char) → List (ν × List Char)
  | [] => [(name, text)]
  | file :: files =>
    if file.1 = name then (file.1, file.2 ++ text) :: files
    else file :: appendText name text files

/-- The files of groups of entries, with the text of each. -/
def filesOf (render : α → List Char) (gs : List (ν × List α)) : List (ν × List Char) :=
  gs.map fun g => (g.1, g.2.flatMap render)

theorem appendText_filesOf (render : α → List Char) (n : ν) (x : α) (gs : List (ν × List α)) :
    appendText n (render x) (filesOf render gs) = filesOf render (addToGroup n x gs) := by
  induction gs with
  | nil => simp [filesOf, appendText, addToGroup]
  | cons g gs ih =>
    rw [filesOf, List.map_cons, appendText, addToGroup]
    by_cases hg : g.1 = n
    · simp [hg, filesOf]
    · rw [if_neg hg, if_neg hg]
      exact congrArg _ ih

end Texts

end ParallaxKernel.Lib
