import Mathlib.Data.List.Chain
import Mathlib.Data.List.Forall2
import Mathlib.Tactic.Common

/-!
# Words and overlapping windows

The words of a list are its maximal pieces without a separator. A list is cut into windows of one
size of which each begins with the end of the one before, and it comes back when those beginnings
are dropped.
-/

namespace ParallaxKernel.Lib

variable {α : Type}

/-! ## Words -/

/-- The pieces between the separators that are not empty. -/
def words (sep : α → Bool) (cs : List α) : List (List α) := (cs.splitOnP sep).filter (· ≠ [])

/-- Not empty and without a separator. -/
def IsWord (sep : α → Bool) (w : List α) : Prop := w ≠ [] ∧ ∀ c ∈ w, sep c = false

variable {sep : α → Bool} {s : α} {w : List α} {ws : List (List α)}

theorem sep_of_mem_splitOnP {cs : List α} (hw : w ∈ cs.splitOnP sep) : ∀ c ∈ w, sep c = false := by
  induction cs generalizing w with
  | nil => simp_all
  | cons c cs ih =>
    rw [List.splitOnP_cons_eq_if_modifyHead] at hw
    cases hc : sep c with
    | true =>
      simp only [hc, if_true, List.mem_cons] at hw
      obtain rfl | hw := hw
      · simp
      · exact ih hw
    | false =>
      simp only [hc, Bool.false_eq_true, if_false] at hw
      cases hcs : cs.splitOnP sep with
      | nil => exact absurd hcs (List.splitOnP_ne_nil _ _)
      | cons v vs =>
        rw [hcs, List.modifyHead_cons, List.mem_cons] at hw
        obtain rfl | hw := hw
        · have hv := ih (hcs ▸ List.mem_cons_self : v ∈ cs.splitOnP sep)
          simpa [hc] using hv
        · exact ih (hcs ▸ List.mem_cons_of_mem _ hw)

theorem isWord_of_mem_words {cs : List α} (hw : w ∈ words sep cs) : IsWord sep w := by
  obtain ⟨hw, hne⟩ := List.mem_filter.1 hw
  exact ⟨by simpa using hne, sep_of_mem_splitOnP hw⟩

/-- Words with a separator between them come apart again. -/
theorem words_intercalate (hs : sep s = true) (hws : ∀ w ∈ ws, IsWord sep w) :
    words sep ([s].intercalate ws) = ws := by
  induction ws with
  | nil => rfl
  | cons w ws ih =>
    obtain ⟨hne, hsep⟩ := hws w List.mem_cons_self
    have hrest := ih fun v hv => hws v (List.mem_cons_of_mem w hv)
    cases ws with
    | nil => simp [words, List.intercalate, List.splitOnP_eq_singleton hsep, hne]
    | cons v vs =>
      have hjoin : [s].intercalate (w :: v :: vs) = w ++ s :: [s].intercalate (v :: vs) := by
        simp [List.intercalate]
      rw [hjoin, words, List.splitOnP_append_cons_of_forall_mem hsep s hs,
        List.filter_cons_of_pos (by simpa using hne)]
      exact congrArg _ hrest

/-! ## Windows -/

/-- The windows of at most `size` elements, each of which begins with the last `overlap` elements of
the one before. -/
inductive Windows (size overlap : Nat) : List α → List (List α) → Prop where
  | last {xs : List α} (hne : xs ≠ []) (hsize : xs.length ≤ size) : Windows size overlap xs [xs]
  | more {xs : List α} {ws : List (List α)} (hsize : size < xs.length)
      (h : Windows size overlap (xs.drop (size - overlap)) ws) :
      Windows size overlap xs (xs.take size :: ws)

/-- The elements of the windows, those they share counted once. -/
def rejoin (overlap : Nat) : List (List α) → List α
  | [] => []
  | w :: ws => w ++ ws.flatMap (·.drop overlap)

/-- `ys` begins with the last `overlap` elements of `xs`. -/
def Overlap (overlap : Nat) (xs ys : List α) : Prop :=
  overlap ≤ xs.length ∧ overlap ≤ ys.length ∧ ys.take overlap = xs.drop (xs.length - overlap)

namespace Windows

variable {size overlap : Nat} {xs : List α}

theorem ne_nil (h : Windows size overlap xs ws) : xs ≠ [] := by
  cases h with
  | last hne hsize => exact hne
  | more hsize h =>
    intro hnil
    simp [hnil] at hsize

/-- The first window is as much of the list as fits. -/
theorem head (h : Windows size overlap xs ws) : ∃ vs, ws = xs.take size :: vs := by
  cases h with
  | last hne hsize => exact ⟨[], by rw [List.take_of_length_le hsize]⟩
  | more hsize h => exact ⟨_, rfl⟩

/-- A step forward is enough for windows over the whole list. -/
theorem exists_of_ne_nil (hover : overlap < size) (hne : xs ≠ []) :
    ∃ ws, Windows size overlap xs ws := by
  induction hn : xs.length using Nat.strong_induction_on generalizing xs with
  | h n ih =>
    obtain hsize | hsize := Nat.lt_or_ge size xs.length
    · have hlength : (xs.drop (size - overlap)).length < n := by
        rw [List.length_drop]
        omega
      have hrest : xs.drop (size - overlap) ≠ [] := by
        rw [Ne, List.drop_eq_nil_iff]
        omega
      obtain ⟨ws, h⟩ := ih _ hlength hrest rfl
      exact ⟨_, .more hsize h⟩
    · exact ⟨_, .last hne hsize⟩

theorem mem (hpos : 0 < size) (h : Windows size overlap xs ws) (hw : w ∈ ws) :
    w ≠ [] ∧ w.length ≤ size ∧ w <:+: xs := by
  induction h with
  | last hne hsize =>
    rw [List.mem_singleton] at hw
    exact ⟨hw ▸ hne, hw ▸ hsize, hw ▸ List.infix_rfl⟩
  | @more xs ws hsize h ih =>
    obtain rfl | hw := List.mem_cons.1 hw
    · refine ⟨?_, List.length_take_le _ _, (List.take_prefix _ _).isInfix⟩
      rw [Ne, List.take_eq_nil_iff, not_or]
      exact ⟨hpos.ne', List.ne_nil_of_length_pos (by omega)⟩
    · obtain ⟨hne, hlength, hin⟩ := ih hw
      exact ⟨hne, hlength, hin.trans (List.drop_suffix _ _).isInfix⟩

theorem chain (hover : overlap < size) (h : Windows size overlap xs ws) :
    ws.IsChain (Overlap overlap) := by
  induction h with
  | last hne hsize => exact List.isChain_singleton _
  | @more xs ws hsize h ih =>
    obtain ⟨vs, rfl⟩ := h.head
    refine List.isChain_cons_cons.2 ⟨⟨?_, ?_, ?_⟩, ih⟩
    · rw [List.length_take]
      omega
    · rw [List.length_take, List.length_drop]
      omega
    · rw [List.take_take, List.length_take, Nat.min_eq_left hover.le, Nat.min_eq_left hsize.le,
        List.drop_take, Nat.sub_sub_self hover.le]

theorem rejoin_eq (hover : overlap < size) (h : Windows size overlap xs ws) :
    rejoin overlap ws = xs := by
  induction h with
  | last hne hsize => simp [rejoin]
  | @more xs ws hsize h ih =>
    obtain ⟨vs, rfl⟩ := h.head
    have hlength : overlap ≤ ((xs.drop (size - overlap)).take size).length := by
      rw [List.length_take, List.length_drop]
      omega
    calc xs.take size ++ (((xs.drop (size - overlap)).take size).drop overlap ++
          vs.flatMap (·.drop overlap))
        = xs.take size ++ (rejoin overlap
            ((xs.drop (size - overlap)).take size :: vs)).drop overlap := by
          rw [rejoin, List.drop_append_of_le_length hlength]
      _ = xs.take size ++ xs.drop size := by
          rw [ih, List.drop_drop, Nat.sub_add_cancel hover.le]
      _ = xs := List.take_append_drop size xs

end Windows

end ParallaxKernel.Lib
