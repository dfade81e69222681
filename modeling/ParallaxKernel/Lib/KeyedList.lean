import Mathlib.Data.List.Sort
import Mathlib.Data.List.Nodup
import Mathlib.Order.RelClasses

/-!
# Lists with a key

A table as the list of its rows: looking a row up by its key, adding and changing rows, and
sorting. Two tables with distinct keys and the same lookups hold the same rows.
-/

namespace ParallaxKernel.Lib

variable {α κ : Type}

section Lookup

variable [DecidableEq κ] (key : α → κ)

/-- The row with a key. -/
def lookupKey (k : κ) (rows : List α) : Option α := rows.find? fun a => key a = k

variable {key} {k : κ} {rows : List α} {a : α}

theorem lookupKey_mem (h : lookupKey key k rows = some a) : a ∈ rows ∧ key a = k :=
  ⟨List.mem_of_find?_eq_some h, by simpa using List.find?_some h⟩

theorem lookupKey_eq_none : lookupKey key k rows = none ↔ ∀ a ∈ rows, key a ≠ k := by
  simp [lookupKey]

theorem lookupKey_of_mem (hnodup : (rows.map key).Nodup) (ha : a ∈ rows) :
    lookupKey key (key a) rows = some a := by
  cases h : lookupKey key (key a) rows with
  | none => exact absurd rfl (lookupKey_eq_none.1 h a ha)
  | some b =>
    obtain ⟨hb, hkey⟩ := lookupKey_mem h
    rw [List.inj_on_of_nodup_map hnodup hb ha hkey]

theorem lookupKey_append : lookupKey key k (rows ++ [a]) =
    (lookupKey key k rows).or (if key a = k then some a else none) := by
  simp [lookupKey, List.find?_append, List.find?_singleton]

theorem lookupKey_map {f : α → α} (hf : ∀ a, key (f a) = key a) :
    lookupKey key k (rows.map f) = (lookupKey key k rows).map f := by
  simp [lookupKey, List.find?_map, Function.comp_def, hf]

/-- Tables with distinct keys that agree on every lookup hold the same rows. -/
theorem perm_of_lookupKey {rows' : List α} (hnodup : (rows.map key).Nodup)
    (hnodup' : (rows'.map key).Nodup) (h : ∀ k, lookupKey key k rows = lookupKey key k rows') :
    rows.Perm rows' := by
  refine (List.perm_ext_iff_of_nodup hnodup.of_map hnodup'.of_map).2 fun a =>
    ⟨fun ha => ?_, fun ha => ?_⟩
  · exact (lookupKey_mem ((h (key a)).symm.trans (lookupKey_of_mem hnodup ha))).1
  · exact (lookupKey_mem ((h (key a)).trans (lookupKey_of_mem hnodup' ha))).1

end Lookup

/-- `UPDATE … WHERE key = k`. -/
def updateKey [DecidableEq κ] (key : α → κ) (k : κ) (u : α → α) (rows : List α) : List α :=
  rows.map fun a => if key a = k then u a else a

/-- A row is changed in its place. -/
theorem updateKey_append [DecidableEq κ] {key : α → κ} {before after : List α} {a : α}
    (hnodup : ((before ++ a :: after).map key).Nodup) (u : α → α) :
    updateKey key (key a) u (before ++ a :: after) = before ++ u a :: after := by
  have hne : ∀ b ∈ before ++ after, key b ≠ key a := by
    intro b hb h
    have hperm : (before ++ a :: after).Perm (a :: (before ++ after)) := List.perm_middle
    rw [(hperm.map key).nodup_iff, List.map_cons, List.nodup_cons] at hnodup
    exact hnodup.1 (h ▸ List.mem_map_of_mem hb)
  have hkeep {rows : List α} (h : ∀ b ∈ rows, b ∈ before ++ after) :
      rows.map (fun b => if key b = key a then u b else b) = rows := by
    rw [List.map_congr_left fun b hb => if_neg (hne b (h b hb)), List.map_id']
  rw [updateKey, List.map_append, List.map_cons, if_pos rfl,
    hkeep fun b hb => List.mem_append_left _ hb, hkeep fun b hb => List.mem_append_right _ hb]

/-- Sorting brings the rows that pass a test into the one order in which their keys increase. -/
theorem filter_insertionSort [LinearOrder κ] {key : α → κ} {r : α → α → Prop} [DecidableRel r]
    [Std.Total r] [IsTrans α r] (hr : ∀ a b, r a b → key a ≤ key b) {p : α → Bool}
    {l target : List α} (hperm : (l.filter p).Perm target)
    (hsorted : target.Pairwise fun a b => key a < key b) :
    (l.insertionSort r).filter p = target := by
  have hperm' : ((l.insertionSort r).filter p).Perm target :=
    ((l.perm_insertionSort r).filter p).trans hperm
  refine List.Perm.eq_of_pairwise
    (fun a b ha hb (hab : key a ≤ key b) (hba : key b ≤ key a) => ?_)
    (((l.pairwise_insertionSort r).filter p).imp fun h => hr _ _ h)
    (hsorted.imp fun h => le_of_lt h) hperm'
  have hinj : (target.map key).Nodup := by
    rw [List.Nodup, List.pairwise_map]
    exact hsorted.imp fun h => ne_of_lt h
  exact List.inj_on_of_nodup_map hinj (hperm'.subset ha) hb (le_antisymm hab hba)

/-- Rows put into boxes, box by box, are the rows that have a box. -/
theorem flatMap_filter_perm [DecidableEq κ] {key : α → κ} {keys : List κ} (hnodup : keys.Nodup)
    (rows : List α) :
    (keys.flatMap fun k => rows.filter (key · = k)).Perm (rows.filter (key · ∈ keys)) := by
  induction keys with
  | nil => simp
  | cons k keys ih =>
    obtain ⟨hk, hnodup⟩ := List.nodup_cons.1 hnodup
    rw [List.flatMap_cons]
    refine ((ih hnodup).append_left _).trans ?_
    refine .trans (.of_eq ?_)
      (List.filter_append_perm (key · = k) (rows.filter (key · ∈ k :: keys)))
    rw [List.filter_filter, List.filter_filter]
    congr 1
    · refine List.filter_congr fun a _ => ?_
      by_cases ha : key a = k <;> simp [ha]
    · refine List.filter_congr fun a _ => ?_
      by_cases ha : key a = k
      · simp [ha, hk]
      · simp [ha]

/-- Of what is made of the rows of a table, row by row, one piece is about a given key. -/
theorem filter_mapIdx_singleton {β γ : Type} [DecidableEq κ] {key : α → κ} {f : α → γ → β}
    {p : β → Bool} {rows : List α} {a : α} (hnodup : (rows.map key).Nodup) (ha : a ∈ rows)
    (hp : ∀ b c, p (f b c) = decide (key b = key a)) (draw : Nat → γ) :
    ∃ c, (rows.mapIdx fun n b => f b (draw n)).filter p = [f a c] := by
  induction rows generalizing draw with
  | nil => simp at ha
  | cons b rows ih =>
    rw [List.map_cons, List.nodup_cons] at hnodup
    rw [List.mapIdx_cons, List.filter_cons, hp]
    rcases List.mem_cons.1 ha with rfl | ha
    · refine ⟨draw 0, ?_⟩
      have hnil : (rows.mapIdx fun n b => f b (draw (n + 1))).filter p = [] := by
        rw [List.filter_eq_nil_iff]
        intro x hx
        obtain ⟨n, hn, rfl⟩ := List.mem_mapIdx.1 hx
        have hne : key rows[n] ≠ key a := fun h =>
          hnodup.1 (h ▸ List.mem_map.2 ⟨_, List.getElem_mem hn, rfl⟩)
        simp [hp, hne]
      simp [hnil]
    · have hne : key b ≠ key a := fun h => hnodup.1 (h ▸ List.mem_map.2 ⟨a, ha, rfl⟩)
      simpa [hne] using ih hnodup.2 ha fun n => draw (n + 1)

/-- A fold passes over the elements that leave its state as it is. -/
theorem foldl_filter_of_fixed {β : Type} {f : β → α → β} {p : α → Bool}
    (h : ∀ a, p a = false → ∀ b, f b a = b) (l : List α) (b : β) :
    (l.filter p).foldl f b = l.foldl f b := by
  induction l generalizing b with
  | nil => rfl
  | cons a l ih =>
    cases hp : p a with
    | true => simp [hp, ih]
    | false => simp [hp, ih, h a hp b]

section FirstOfEach

variable [DecidableEq κ] (key : α → Option κ)

/-- Of the elements with one key only the first; an element without a key stays. -/
def firstOfEach : List α → List α
  | [] => []
  | a :: as => a :: (firstOfEach as).filter fun b => key b = none || key b ≠ key a

/-- One step of a loop that collects them, with the keys it has seen. -/
def collectFirst (acc : List κ × List α) (a : α) : List κ × List α :=
  match key a with
  | none => (acc.1, acc.2 ++ [a])
  | some k => if k ∈ acc.1 then acc else (k :: acc.1, acc.2 ++ [a])

variable {key}

theorem collectFirst_eq (as : List α) (seen : List κ) (kept : List α) :
    (as.foldl (collectFirst key) (seen, kept)).2 =
      kept ++ (firstOfEach key as).filter fun a => (key a).all (· ∉ seen) := by
  induction as generalizing seen kept with
  | nil => simp [firstOfEach]
  | cons a as ih =>
    rw [List.foldl_cons]
    cases hkey : key a with
    | none => simp [collectFirst, hkey, ih, firstOfEach]
    | some k =>
      by_cases hseen : k ∈ seen
      · have hstep : collectFirst key (seen, kept) a = (seen, kept) := by
          simp [collectFirst, hkey, hseen]
        rw [hstep, ih, firstOfEach, List.filter_cons_of_neg (by simp [hkey, hseen]),
          List.filter_filter]
        congr 1
        refine List.filter_congr fun b _ => ?_
        cases hb : key b with
        | none => simp
        | some j =>
          by_cases hj : j = k
          · simp [hj, hseen]
          · simp [hkey, hj]
      · have hstep : collectFirst key (seen, kept) a = (k :: seen, kept ++ [a]) := by
          simp [collectFirst, hkey, hseen]
        rw [hstep, ih, firstOfEach, List.filter_cons_of_pos (by simp [hkey, hseen]),
          List.filter_filter, List.append_assoc, List.singleton_append]
        congr 2
        refine List.filter_congr fun b _ => ?_
        cases hb : key b with
        | none => simp
        | some j => simp [hkey, Bool.and_comm]

/-- The loop keeps the first element of each key. -/
theorem collectFirst_nil (as : List α) :
    (as.foldl (collectFirst key) ([], [])).2 = firstOfEach key as := by
  rw [collectFirst_eq, List.nil_append, List.filter_eq_self]
  intro a _
  cases key a <;> simp

theorem firstOfEach_sublist (as : List α) : (firstOfEach key as).Sublist as := by
  induction as with
  | nil => exact List.Sublist.refl []
  | cons a as ih => exact (List.filter_sublist.trans ih).cons_cons a

/-- Elements with distinct keys all stay. -/
theorem firstOfEach_of_nodup {f : α → κ} {as : List α} (h : (as.map f).Nodup) :
    firstOfEach (fun a => some (f a)) as = as := by
  induction as with
  | nil => rfl
  | cons a as ih =>
    rw [List.map_cons, List.nodup_cons] at h
    rw [firstOfEach, ih h.2, List.filter_eq_self.2]
    intro b hb
    have hne : f b ≠ f a := fun heq => h.1 (heq ▸ List.mem_map_of_mem hb)
    simp [hne]

end FirstOfEach

end ParallaxKernel.Lib
