import Mathlib.Data.Prod.Lex
import ParallaxKernel.Lib.Double
import ParallaxKernel.Lib.KeyedList
import ParallaxKernel.Lib.PartialMap
import ParallaxKernel.Lib.PositionalScore
import ParallaxKernel.Lib.PySort

/-!
# Rank fusion

`rrf_merge` of `retrieval/semantic.py`: the lists of a family give each index the sum of the weights
`1 / (k + rank)`, and the indices are sorted by descending score, by the tie-break and by themselves.
Scores are exact. Where every tie-break that is read is a number, the result respects unanimity and
does not depend on the order of the lists.
-/

namespace ParallaxKernel.Retrieval

open Lib

/-! ## Scores -/

/-- `RRF_K_DEFAULT`. -/
def rrfKDefault : Nat := 60

/-- What a rank counts. -/
def weight (k rank : Nat) : ℚ := 1 / (k + rank : Nat)

/-- `scores.get(idx, 0.0)`; the dictionary is the list of its items in the order of insertion. -/
def getScore (scores : List (Int × ℚ)) (idx : Int) : ℚ :=
  ((lookupKey Prod.fst idx scores).map Prod.snd).getD 0

/-- `scores[idx] = scores.get(idx, 0.0) + 1.0 / (k + rank)`. -/
def addRank (k : Nat) (scores : List (Int × ℚ)) (entry : Int × Nat) : List (Int × ℚ) :=
  let score := getScore scores entry.1 + weight k entry.2
  if entry.1 ∈ scores.map Prod.fst then
    updateKey Prod.fst entry.1 (fun _ => (entry.1, score)) scores
  else scores ++ [(entry.1, score)]

def addRanked (k : Nat) (scores : List (Int × ℚ)) (ranked : List Int) : List (Int × ℚ) :=
  (ranked.zipIdx 1).foldl (addRank k) scores

def fusedScores (k : Nat) (rankedLists : List (List Int)) : List (Int × ℚ) :=
  rankedLists.foldl (addRanked k) []

/-! ## Keys -/

/-- `(-scores[idx], tb, idx)`. -/
abbrev SortKey := ℚ × Double × Int

/-- `tie_break[idx]`; `none` where it raises `IndexError`. -/
def tieAt (tieBreak : List Double) (idx : Int) : Option Double :=
  if 0 ≤ idx then tieBreak[idx.toNat]?
  else if 0 ≤ idx + tieBreak.length then tieBreak[(idx + tieBreak.length).toNat]?
  else none

/-- `tie_break[idx] if tie_break is not None else 0.0`. -/
def tieOf : Option (List Double) → Int → Option Double
  | some tieBreak, idx => tieAt tieBreak idx
  | none, _ => some .zero

def sortKey (scores : List (Int × ℚ)) (tieBreak : Option (List Double)) (idx : Int) :
    Option SortKey :=
  (tieOf tieBreak idx).map fun tb => (-getScore scores idx, tb, idx)

/-- Tuples are ordered by the first items that are not equal. -/
def keyLt (a b : SortKey) : Bool :=
  if a.1 ≠ b.1 then a.1 < b.1
  else if !a.2.1.eq b.2.1 then a.2.1.lt b.2.1
  else a.2.2 < b.2.2

/-- The keys are made before they are compared, and each ends with its index; `none` where a tie-break
is missing. -/
def rrfMerge (T : PySort) (k : Nat) (tieBreak : Option (List Double))
    (rankedLists : List (List Int)) : Option (List Int) := do
  let scores := fusedScores k rankedLists
  let keys ← (scores.map Prod.fst).mapM (sortKey scores tieBreak)
  some ((T.sorted keyLt keys).map fun key => key.2.2)

/-! ## The scores are positional -/

/-- The weights as positions count them, from zero on. -/
def positionWeight (k n : Nat) : ℚ := weight k (n + 1)

theorem positionWeight_nonneg (k n : Nat) : 0 ≤ positionWeight k n := by
  rw [positionWeight, weight]
  positivity

theorem positionWeight_strictAnti (k : Nat) : StrictAnti (positionWeight k) := by
  intro m n h
  rw [positionWeight, positionWeight, weight, weight]
  refine one_div_lt_one_div_of_lt ?_ ?_
  · exact_mod_cast Nat.add_pos_right k m.succ_pos
  · exact_mod_cast Nat.add_lt_add_left (Nat.succ_lt_succ h) k

theorem map_fst_addRank (k : Nat) (scores : List (Int × ℚ)) (entry : Int × Nat) :
    (addRank k scores entry).map Prod.fst =
      if entry.1 ∈ scores.map Prod.fst then scores.map Prod.fst
      else scores.map Prod.fst ++ [entry.1] := by
  rw [addRank]
  split_ifs with hmem
  · rw [updateKey, List.map_map]
    refine List.map_congr_left fun p _ => ?_
    by_cases hp : p.1 = entry.1
    · rw [Function.comp_apply, if_pos hp, hp]
    · rw [Function.comp_apply, if_neg hp]
  · rw [List.map_append]
    rfl

/-- One rank adds its weight to one index. -/
theorem getScore_addRank (k : Nat) (scores : List (Int × ℚ)) (entry : Int × Nat) (i : Int) :
    getScore (addRank k scores entry) i =
      getScore scores i + if entry.1 = i then weight k entry.2 else 0 := by
  rw [addRank]
  split_ifs with hmem hi hi
  · -- the item of the index is changed in its place
    rw [getScore, updateKey, lookupKey_map (by intro p; split_ifs with hp <;> simp [hp]), ← hi]
    obtain ⟨p, hp, hidx⟩ := List.mem_map.1 hmem
    cases hlook : lookupKey Prod.fst entry.1 scores with
    | none => exact absurd hidx (lookupKey_eq_none.1 hlook p hp)
    | some q => simp [(lookupKey_mem hlook).2]
  · rw [getScore, updateKey, lookupKey_map (by intro p; split_ifs with hp <;> simp [hp]), add_zero]
    cases hlook : lookupKey Prod.fst i scores with
    | none => simp [getScore, hlook]
    | some q =>
      have hq : q.1 ≠ entry.1 := by
        rw [(lookupKey_mem hlook).2]
        exact Ne.symm hi
      simp [getScore, hlook, hq]
  · -- a new item
    have hlook : lookupKey Prod.fst i scores = none := by
      refine lookupKey_eq_none.2 fun p hp hidx => hmem ?_
      rw [hi, ← hidx]
      exact List.mem_map_of_mem hp
    simp [getScore, lookupKey_append, hi, hlook]
  · simp [getScore, lookupKey_append, hi]

theorem getScore_addRanks (k n : Nat) (scores : List (Int × ℚ)) (ranked : List Int) (i : Int) :
    getScore ((ranked.zipIdx (n + 1)).foldl (addRank k) scores) i =
      getScore scores i + rankScore (positionWeight k) n ranked i := by
  induction ranked generalizing n scores with
  | nil => simp [rankScore]
  | cons j ranked ih =>
    rw [List.zipIdx_cons, List.foldl_cons, ih (n + 1), getScore_addRank, rankScore, positionWeight,
      add_assoc]

/-- The dictionary holds the positional scores. -/
theorem getScore_fusedScores (k : Nat) (rankedLists : List (List Int)) (i : Int) :
    getScore (fusedScores k rankedLists) i = totalScore (positionWeight k) 0 rankedLists i := by
  have hfold : ∀ (lists : List (List Int)) (scores : List (Int × ℚ)),
      getScore (lists.foldl (addRanked k) scores) i =
        getScore scores i + totalScore (positionWeight k) 0 lists i := by
    intro lists
    induction lists with
    | nil => intro scores; simp [totalScore]
    | cons ranked lists ih =>
      intro scores
      rw [List.foldl_cons, ih, addRanked, getScore_addRanks, totalScore, totalScore, List.map_cons,
        List.sum_cons, add_assoc]
  rw [fusedScores, hfold]
  exact zero_add _

theorem nodup_keys_addRank {k : Nat} {scores : List (Int × ℚ)} (entry : Int × Nat)
    (h : (scores.map Prod.fst).Nodup) : ((addRank k scores entry).map Prod.fst).Nodup := by
  rw [map_fst_addRank]
  split_ifs with hmem
  · exact h
  · rw [← List.concat_eq_append]
    exact h.concat hmem

theorem mem_keys_addRank {k : Nat} {scores : List (Int × ℚ)} {entry : Int × Nat} {i : Int} :
    i ∈ (addRank k scores entry).map Prod.fst ↔ i ∈ scores.map Prod.fst ∨ i = entry.1 := by
  rw [map_fst_addRank]
  split_ifs with hmem
  · constructor
    · exact Or.inl
    · rintro (h | rfl)
      · exact h
      · exact hmem
  · rw [List.mem_append, List.mem_singleton]

/-- What is done rank by rank is done list by list. -/
theorem fusedScores_eq_foldl (k : Nat) (rankedLists : List (List Int)) :
    fusedScores k rankedLists =
      (rankedLists.flatMap fun ranked => ranked.zipIdx 1).foldl (addRank k) [] := by
  rw [fusedScores, List.foldl_flatMap]
  rfl

theorem keys_foldl {k : Nat} (entries : List (Int × Nat)) {scores : List (Int × ℚ)}
    (h : (scores.map Prod.fst).Nodup) :
    ((entries.foldl (addRank k) scores).map Prod.fst).Nodup ∧
      ∀ i, i ∈ (entries.foldl (addRank k) scores).map Prod.fst ↔
        i ∈ scores.map Prod.fst ∨ i ∈ entries.map Prod.fst := by
  induction entries generalizing scores with
  | nil => exact ⟨h, fun i => by simp⟩
  | cons entry entries ih =>
    obtain ⟨hnodup, hmem⟩ := ih (nodup_keys_addRank (k := k) entry h)
    refine ⟨hnodup, fun i => ?_⟩
    rw [List.foldl_cons, hmem, mem_keys_addRank, List.map_cons, List.mem_cons, or_assoc]

/-- Each index of a list has one score. -/
theorem keys_fusedScores (k : Nat) (rankedLists : List (List Int)) :
    ((fusedScores k rankedLists).map Prod.fst).Nodup ∧
      ∀ i, i ∈ (fusedScores k rankedLists).map Prod.fst ↔ ∃ l ∈ rankedLists, i ∈ l := by
  rw [fusedScores_eq_foldl]
  have hempty : (([] : List (Int × ℚ)).map Prod.fst).Nodup := List.nodup_nil
  obtain ⟨hnodup, hmem⟩ :=
    keys_foldl (k := k) (rankedLists.flatMap fun ranked => ranked.zipIdx 1) hempty
  refine ⟨hnodup, fun i => ?_⟩
  rw [hmem, List.map_flatMap]
  simp

/-! ## The order of the keys -/

theorem tieOf_natCast {t : List Double} {m : Nat} (h : m < t.length) :
    tieOf (some t) m = some t[m] := by
  rw [tieOf, tieAt, if_pos (Int.natCast_nonneg m)]
  exact List.getElem?_eq_getElem h

/-- Every tie-break that is read is there and a number. -/
def TiesAreNumbers (tieBreak : Option (List Double)) (rankedLists : List (List Int)) : Prop :=
  ∀ l ∈ rankedLists, ∀ i ∈ l, ∃ tb, tieOf tieBreak i = some tb ∧ tb ≠ .nan

/-- Every tie-break that is read is there. -/
def TiesAreGiven (tieBreak : Option (List Double)) (rankedLists : List (List Int)) : Prop :=
  ∀ l ∈ rankedLists, ∀ i ∈ l, ∃ tb, tieOf tieBreak i = some tb

theorem TiesAreNumbers.given {tieBreak : Option (List Double)} {rankedLists : List (List Int)}
    (h : TiesAreNumbers tieBreak rankedLists) : TiesAreGiven tieBreak rankedLists := by
  intro l hl i hi
  obtain ⟨tb, htb, -⟩ := h l hl i hi
  exact ⟨tb, htb⟩

/-- The place of a key in the order of the keys without NaN. -/
def SortKey.place (key : SortKey) : ℚ ×ₗ WithBot (WithTop ℚ) ×ₗ Int :=
  toLex (key.1, toLex (key.2.1.place, key.2.2))

theorem keyLt_iff {a b : SortKey} (ha : a.2.1 ≠ .nan) (hb : b.2.1 ≠ .nan) :
    keyLt a b = true ↔ a.place < b.place := by
  rw [keyLt, SortKey.place, SortKey.place, Prod.Lex.toLex_lt_toLex, Prod.Lex.toLex_lt_toLex,
    ← Double.lt_iff_place ha hb, ← Double.eq_iff_place ha hb]
  split_ifs with hscore heq
  · simp [hscore]
  · have hlt : a.2.1.eq b.2.1 = false := by simpa using heq
    rw [not_not] at hscore
    simp [hscore, hlt]
  · rw [not_not] at hscore
    have heq : a.2.1.eq b.2.1 = true := by simpa using heq
    have hlt : a.2.1.lt b.2.1 = false := by
      rw [← Bool.not_eq_true, Double.lt_iff_place ha hb, (Double.eq_iff_place ha hb).1 heq]
      exact lt_irrefl _
    simp [hscore, heq, hlt]

theorem weakOrderOn_keyLt {keys : List SortKey} (h : ∀ key ∈ keys, key.2.1 ≠ .nan) :
    WeakOrderOn keyLt keys :=
  .of_key SortKey.place fun a ha b hb => keyLt_iff (h a ha) (h b hb)

/-! ## The result -/

/-- The key of an index. -/
def keyOf (k : Nat) (tieBreak : Option (List Double)) (rankedLists : List (List Int)) (i : Int) :
    SortKey :=
  (-totalScore (positionWeight k) 0 rankedLists i, (tieOf tieBreak i).getD .nan, i)

def keysOf (k : Nat) (tieBreak : Option (List Double)) (rankedLists : List (List Int)) :
    List SortKey :=
  ((fusedScores k rankedLists).map Prod.fst).map (keyOf k tieBreak rankedLists)

variable {k : Nat} {tieBreak : Option (List Double)} {rankedLists : List (List Int)}

theorem mem_keysOf {key : SortKey} : key ∈ keysOf k tieBreak rankedLists ↔
    ∃ i, (∃ l ∈ rankedLists, i ∈ l) ∧ keyOf k tieBreak rankedLists i = key := by
  simp only [keysOf, List.mem_map (f := keyOf k tieBreak rankedLists), (keys_fusedScores k _).2]

theorem map_idx_keysOf :
    (keysOf k tieBreak rankedLists).map (fun key => key.2.2) =
      (fusedScores k rankedLists).map Prod.fst := by
  rw [keysOf, List.map_map]
  exact List.map_id _

theorem keyOf_ne_nan (h : TiesAreNumbers tieBreak rankedLists) {i : Int}
    (hi : ∃ l ∈ rankedLists, i ∈ l) : (keyOf k tieBreak rankedLists i).2.1 ≠ .nan := by
  obtain ⟨l, hl, hi⟩ := hi
  obtain ⟨tb, htb, hne⟩ := h l hl i hi
  rw [keyOf, htb]
  exact hne

theorem rrfMerge_eq (T : PySort) (h : TiesAreGiven tieBreak rankedLists) :
    rrfMerge T k tieBreak rankedLists =
      some ((T.sorted keyLt (keysOf k tieBreak rankedLists)).map fun key => key.2.2) := by
  have hkeys : ((fusedScores k rankedLists).map Prod.fst).mapM
      (sortKey (fusedScores k rankedLists) tieBreak) = some (keysOf k tieBreak rankedLists) := by
    refine mapM_eq_some fun i hi => ?_
    obtain ⟨l, hl, hi⟩ := ((keys_fusedScores k rankedLists).2 i).1 hi
    obtain ⟨tb, htb⟩ := h l hl i hi
    rw [sortKey, keyOf, htb, getScore_fusedScores]
    rfl
  rw [rrfMerge, hkeys]
  rfl

/-- Each index of a list comes once. -/
theorem rrfMerge_indices (T : PySort) (k : Nat) (h : TiesAreGiven tieBreak rankedLists) :
    ∃ merged, rrfMerge T k tieBreak rankedLists = some merged ∧ merged.Nodup ∧
      ∀ i, i ∈ merged ↔ ∃ l ∈ rankedLists, i ∈ l := by
  have hperm : ((T.sorted keyLt (keysOf k tieBreak rankedLists)).map fun key => key.2.2).Perm
      ((fusedScores k rankedLists).map Prod.fst) := by
    rw [← map_idx_keysOf]
    exact (T.perm keyLt _).map _
  refine ⟨_, rrfMerge_eq T h, hperm.nodup_iff.2 (keys_fusedScores k rankedLists).1, fun i => ?_⟩
  rw [hperm.mem_iff, (keys_fusedScores k rankedLists).2]

theorem sorted_keysOf (T : PySort) (h : TiesAreNumbers tieBreak rankedLists) :
    (T.sorted keyLt (keysOf k tieBreak rankedLists)).Pairwise fun a b => a.place ≤ b.place := by
  have hne : ∀ key ∈ keysOf k tieBreak rankedLists, key.2.1 ≠ .nan := by
    intro key hkey
    obtain ⟨i, hi, rfl⟩ := mem_keysOf.1 hkey
    exact keyOf_ne_nan h hi
  have hmem {key : SortKey} (hkey : key ∈ T.sorted keyLt (keysOf k tieBreak rankedLists)) :
      key.2.1 ≠ .nan := hne key ((T.perm keyLt _).mem_iff.1 hkey)
  refine (T.pairwise (weakOrderOn_keyLt hne)).imp_of_mem fun ha hb hlt => ?_
  rwa [← not_lt, ← keyLt_iff (hmem hb) (hmem ha), Bool.not_eq_true]

theorem place_injOn {a b : SortKey} (ha : a ∈ keysOf k tieBreak rankedLists)
    (hb : b ∈ keysOf k tieBreak rankedLists) (h : a.place = b.place) : a = b := by
  obtain ⟨i, -, rfl⟩ := mem_keysOf.1 ha
  obtain ⟨j, -, rfl⟩ := mem_keysOf.1 hb
  have hidx : i = j := congrArg (fun x => (ofLex (ofLex x).2).2) h
  rw [hidx]

theorem keysOf_perm {rankedLists' : List (List Int)} (h : rankedLists'.Perm rankedLists) :
    (keysOf k tieBreak rankedLists').Perm (keysOf k tieBreak rankedLists) := by
  have hkey : keyOf k tieBreak rankedLists' = keyOf k tieBreak rankedLists := by
    funext i
    rw [keyOf, keyOf, totalScore_perm h]
  rw [keysOf, keysOf, hkey]
  refine List.Perm.map _ ((List.perm_ext_iff_of_nodup (keys_fusedScores k _).1
    (keys_fusedScores k _).1).2 fun i => ?_)
  rw [(keys_fusedScores k _).2, (keys_fusedScores k _).2]
  simp only [h.mem_iff]

theorem TiesAreNumbers.perm {rankedLists' : List (List Int)}
    (h : TiesAreNumbers tieBreak rankedLists) (hperm : rankedLists'.Perm rankedLists) :
    TiesAreNumbers tieBreak rankedLists' :=
  fun l hl => h l (hperm.mem_iff.1 hl)

theorem sorted_keysOf_perm (T : PySort) {rankedLists' : List (List Int)}
    (h : TiesAreNumbers tieBreak rankedLists) (hperm : rankedLists'.Perm rankedLists) :
    T.sorted keyLt (keysOf k tieBreak rankedLists') =
      T.sorted keyLt (keysOf k tieBreak rankedLists) := by
  have hsame := (T.perm keyLt (keysOf k tieBreak rankedLists')).trans
    ((keysOf_perm hperm).trans (T.perm keyLt _).symm)
  refine List.Perm.eq_of_pairwise (fun a b ha hb hab hba => ?_)
    (sorted_keysOf T (h.perm hperm)) (sorted_keysOf T h) hsame
  have hmem {key : SortKey} (hkey : key ∈ T.sorted keyLt (keysOf k tieBreak rankedLists)) :
      key ∈ keysOf k tieBreak rankedLists := (T.perm keyLt _).mem_iff.1 hkey
  exact place_injOn (hmem (hsame.mem_iff.1 ha)) (hmem hb) (le_antisymm hab hba)

theorem pair_sublist_of_place (T : PySort) (h : TiesAreNumbers tieBreak rankedLists) {i j : Int}
    (hi : ∃ l ∈ rankedLists, i ∈ l) (hj : ∃ l ∈ rankedLists, j ∈ l)
    (hplace : (keyOf k tieBreak rankedLists i).place < (keyOf k tieBreak rankedLists j).place) :
    List.Sublist [i, j]
      ((T.sorted keyLt (keysOf k tieBreak rankedLists)).map fun key => key.2.2) := by
  have hmem {i : Int} (hi : ∃ l ∈ rankedLists, i ∈ l) :
      keyOf k tieBreak rankedLists i ∈ T.sorted keyLt (keysOf k tieBreak rankedLists) :=
    (T.perm keyLt _).mem_iff.2 (mem_keysOf.2 ⟨i, hi, rfl⟩)
  refine (pair_sublist_of_pairwise (sorted_keysOf T h) (hmem hi) (hmem hj) ?_ hplace.not_ge).map
    fun key => key.2.2
  intro heq
  rw [heq] at hplace
  exact lt_irrefl _ hplace

/-- The higher score comes first. -/
theorem pair_sublist_sorted (T : PySort) (h : TiesAreNumbers tieBreak rankedLists) {i j : Int}
    (hi : ∃ l ∈ rankedLists, i ∈ l) (hj : ∃ l ∈ rankedLists, j ∈ l)
    (hlt : totalScore (positionWeight k) 0 rankedLists j <
      totalScore (positionWeight k) 0 rankedLists i) :
    List.Sublist [i, j]
      ((T.sorted keyLt (keysOf k tieBreak rankedLists)).map fun key => key.2.2) :=
  pair_sublist_of_place T h hi hj (Prod.Lex.toLex_lt_toLex.2 (.inl (neg_lt_neg hlt)))

/-- Of two with one score the one with the lower tie-break comes first. -/
theorem pair_sublist_of_tie (T : PySort) (h : TiesAreNumbers tieBreak rankedLists) {i j : Int}
    (hi : ∃ l ∈ rankedLists, i ∈ l) (hj : ∃ l ∈ rankedLists, j ∈ l)
    (hle : totalScore (positionWeight k) 0 rankedLists j ≤
      totalScore (positionWeight k) 0 rankedLists i)
    (htie : (keyOf k tieBreak rankedLists i).2.1.place < (keyOf k tieBreak rankedLists j).2.1.place) :
    List.Sublist [i, j]
      ((T.sorted keyLt (keysOf k tieBreak rankedLists)).map fun key => key.2.2) := by
  obtain hlt | heq := hle.lt_or_eq
  · exact pair_sublist_sorted T h hi hj hlt
  · refine pair_sublist_of_place T h hi hj (Prod.Lex.toLex_lt_toLex.2 (.inr ⟨?_, ?_⟩))
    · exact congrArg Neg.neg heq.symm
    · exact Prod.Lex.toLex_lt_toLex.2 (.inl htie)

/-- Rank fusion respects unanimity: each index of a list comes once, one that every list of another
puts before it comes before it, and the order of the lists does not matter. -/
theorem rrfMerge_unanimous (T : PySort) (k : Nat) {tieBreak : Option (List Double)}
    {rankedLists : List (List Int)} (hnodup : ∀ l ∈ rankedLists, l.Nodup)
    (hties : TiesAreNumbers tieBreak rankedLists) :
    ∃ merged, rrfMerge T k tieBreak rankedLists = some merged ∧ merged.Nodup ∧
      (∀ i, i ∈ merged ↔ ∃ l ∈ rankedLists, i ∈ l) ∧
      (∀ a, ∀ b ∈ merged, (∀ l ∈ rankedLists, b ∈ l → List.Sublist [a, b] l) →
        List.Sublist [a, b] merged) ∧
      ∀ rankedLists', rankedLists'.Perm rankedLists →
        rrfMerge T k tieBreak rankedLists' = some merged := by
  obtain ⟨merged, hmerged, hmergedNodup, hmem⟩ := rrfMerge_indices T k hties.given
  refine ⟨merged, hmerged, hmergedNodup, hmem, ?_, ?_⟩
  · intro a b hb hbefore
    obtain ⟨l, hl, hbl⟩ := (hmem b).1 hb
    have ha : ∃ l ∈ rankedLists, a ∈ l := ⟨l, hl, (hbefore l hl hbl).subset (by simp)⟩
    have hpair := pair_sublist_sorted T hties ha ⟨l, hl, hbl⟩
      (totalScore_lt (positionWeight_nonneg k) (positionWeight_strictAnti k) 0 hnodup hbefore
        ⟨l, hl, hbl⟩)
    rw [rrfMerge_eq T hties.given, Option.some.injEq] at hmerged
    rwa [hmerged] at hpair
  · intro rankedLists' hsame
    rw [rrfMerge_eq T (hties.perm hsame).given, sorted_keysOf_perm T hties hsame,
      ← rrfMerge_eq T hties.given, hmerged]

/-- Both lists put 2 before 0, though one of them puts 1 between them. -/
theorem rrfMerge_unanimous_overlapping :
    ∃ merged, rrfMerge PySort.insertion rrfKDefault (some [.inf, .negInf, .inf])
        [[2, 0], [2, 1, 0]] = some merged ∧
      List.Sublist [2, 0] merged := by
  have hties : TiesAreNumbers (some [.inf, .negInf, .inf]) [[2, 0], [2, 1, 0]] := by
    intro l hl i hi
    simp only [List.mem_cons, List.not_mem_nil, or_false] at hl
    obtain rfl | rfl := hl
    all_goals
      simp only [List.mem_cons, List.not_mem_nil, or_false] at hi
      obtain rfl | rfl | rfl := hi <;> exact ⟨_, rfl, by simp⟩
  obtain ⟨merged, hmerged, -, hmem, hbefore, -⟩ :=
    rrfMerge_unanimous PySort.insertion rrfKDefault (by decide) hties
  exact ⟨merged, hmerged, hbefore 2 0 ((hmem 0).2 ⟨[2, 0], by decide, by decide⟩) (by decide)⟩

/-- With a NaN among the tie-breaks of equal scores, the order of the lists decides. -/
theorem nan_tie_depends_on_order :
    rrfMerge PySort.insertion rrfKDefault (some [.nan, .inf]) [[0], [1]] = some [0, 1] ∧
      rrfMerge PySort.insertion rrfKDefault (some [.nan, .inf]) [[1], [0]] = some [1, 0] := by
  decide +kernel

end ParallaxKernel.Retrieval
