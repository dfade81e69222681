import Mathlib.Data.List.Infix
import Mathlib.Data.List.Sort
import Mathlib.Order.Basic

/-!
# Sliding windows

A log of timed entries whose times do not decrease, and the queue that a sliding window keeps of
it: entries come in at the back and are dropped from the front once they lie before a cutoff. As
long as the cutoffs do not decrease, the queue answers every question about the window as the whole
log would.
-/

namespace ParallaxKernel.Lib

variable {T α : Type} [LinearOrder T]

/-- Drops the entries before the cutoff from the front. -/
def evict (cutoff : T) (queue : List (T × α)) : List (T × α) :=
  queue.dropWhile fun e => decide (e.1 < cutoff)

/-- The entries from the cutoff on. -/
def since (cutoff : T) (log : List (T × α)) : List (T × α) :=
  log.filter fun e => decide (cutoff ≤ e.1)

/-- The times do not decrease. -/
def Timed (log : List (T × α)) : Prop := log.Pairwise fun e f => e.1 ≤ f.1

/-- What comes later can be appended. -/
theorem timed_append {log later : List (T × α)} (hlog : Timed log) (hlater : Timed later)
    (hlast : ∀ e ∈ later, ∀ last ∈ log.getLast?, last.1 ≤ e.1) : Timed (log ++ later) := by
  refine List.pairwise_append.2 ⟨hlog, hlater, ?_⟩
  intro f hf e he
  cases log using List.reverseRecOn with
  | nil => cases hf
  | append_singleton log last =>
    have hle := hlast e he last (by simp)
    obtain hf | hf := List.mem_append.1 hf
    · exact ((List.pairwise_append.1 hlog).2.2 f hf last (List.mem_singleton_self last)).trans hle
    · rw [List.mem_singleton.1 hf]
      exact hle

theorem since_append (cutoff : T) (log log' : List (T × α)) :
    since cutoff (log ++ log') = since cutoff log ++ since cutoff log' :=
  List.filter_append ..

theorem since_eq_nil {cutoff : T} {log : List (T × α)} (h : ∀ e ∈ log, e.1 < cutoff) :
    since cutoff log = [] := by
  simpa [since] using h

/-- Where times do not decrease, dropping from the front drops all that lies before the cutoff. -/
theorem evict_eq_since {log : List (T × α)} (h : Timed log) (cutoff : T) :
    evict cutoff log = since cutoff log := by
  induction log with
  | nil => rfl
  | cons e log ih =>
    obtain ⟨hfirst, hrest⟩ := List.pairwise_cons.1 h
    by_cases he : e.1 < cutoff
    · have hnot : ¬ cutoff ≤ e.1 := not_le.2 he
      simpa [evict, since, he, hnot] using ih hrest
    · have hall : ∀ f ∈ e :: log, cutoff ≤ f.1 := by
        intro f hf
        rcases List.mem_cons.1 hf with rfl | hf
        · exact not_lt.1 he
        · exact (not_lt.1 he).trans (hfirst f hf)
      have hkeep : since cutoff (e :: log) = e :: log :=
        List.filter_eq_self.2 fun f hf => decide_eq_true (hall f hf)
      rw [hkeep, evict, List.dropWhile_cons_of_neg (by simpa using he)]

/-- The queue is what is left of the log after entries before the cutoff were dropped. -/
structure Tracks (cutoff : T) (queue log : List (T × α)) : Prop where
  timed : Timed log
  dropped : ∃ old, log = old ++ queue ∧ ∀ e ∈ old, e.1 < cutoff

namespace Tracks

variable {cutoff cutoff' : T} {queue log : List (T × α)}

theorem empty (cutoff : T) : Tracks cutoff ([] : List (T × α)) [] :=
  ⟨List.Pairwise.nil, [], rfl, by simp⟩

theorem mono (h : Tracks cutoff queue log) (hle : cutoff ≤ cutoff') : Tracks cutoff' queue log := by
  obtain ⟨htimed, old, hlog, hold⟩ := h
  exact ⟨htimed, old, hlog, fun e he => (hold e he).trans_le hle⟩

/-- An entry comes in that is no earlier than those before it. -/
theorem push (h : Tracks cutoff queue log) {e : T × α} (he : ∀ f ∈ log, f.1 ≤ e.1) :
    Tracks cutoff (queue ++ [e]) (log ++ [e]) := by
  obtain ⟨htimed, old, hlog, hold⟩ := h
  refine ⟨?_, old, by rw [hlog, List.append_assoc], hold⟩
  refine List.pairwise_append.2 ⟨htimed, List.pairwise_singleton .., fun f hf g hg => ?_⟩
  rw [List.mem_singleton.1 hg]
  exact he f hf

theorem timed_queue (h : Tracks cutoff queue log) : Timed queue := by
  obtain ⟨htimed, old, hlog, -⟩ := h
  exact (List.pairwise_append.1 (hlog ▸ htimed)).2.1

/-- The queue holds the whole window. -/
theorem since_queue (h : Tracks cutoff queue log) (hle : cutoff ≤ cutoff') :
    since cutoff' queue = since cutoff' log := by
  obtain ⟨-, old, hlog, hold⟩ := h
  rw [hlog, since_append, since_eq_nil fun e he => (hold e he).trans_le hle, List.nil_append]

theorem evict_queue (h : Tracks cutoff queue log) (hle : cutoff ≤ cutoff') :
    evict cutoff' queue = since cutoff' log := by
  rw [evict_eq_since h.timed_queue, h.since_queue hle]

theorem evict (h : Tracks cutoff queue log) (hle : cutoff ≤ cutoff') :
    Tracks cutoff' (evict cutoff' queue) log := by
  obtain ⟨htimed, old, hlog, hold⟩ := h
  refine ⟨htimed, old ++ queue.takeWhile (fun e => decide (e.1 < cutoff')), ?_, fun e he => ?_⟩
  · rw [List.append_assoc, Lib.evict, List.takeWhile_append_dropWhile, hlog]
  · rcases List.mem_append.1 he with he | he
    · exact (hold e he).trans_le hle
    · simpa using List.all_eq_true.1 List.all_takeWhile e he

end Tracks
/-! ## Queues whose entries need not come in order -/

/-- The queue is what is left of the log after evaluations with any cutoffs, each given with the
log of its time. Each has dropped from the front what lay before its cutoff, and has left nothing
that did. -/
structure Evaluated (evaluations : List (List (T × α) × T)) (queue log : List (T × α)) : Prop where
  kept : ∃ old, log = old ++ queue ∧
    (∀ x ∈ old, ∃ e ∈ evaluations, x ∈ e.1 ∧ x.1 < e.2) ∧
    ∀ e ∈ evaluations, e.1 <+: log ∧ ∀ x ∈ e.1.drop old.length, e.2 ≤ x.1

namespace Evaluated

variable {evaluations : List (List (T × α) × T)} {queue log : List (T × α)} {cutoff : T}

theorem empty : Evaluated ([] : List (List (T × α) × T)) [] [] :=
  ⟨[], rfl, fun _ h => absurd h List.not_mem_nil, fun _ h => absurd h List.not_mem_nil⟩

theorem push (h : Evaluated evaluations queue log) (x : T × α) :
    Evaluated evaluations (queue ++ [x]) (log ++ [x]) := by
  obtain ⟨old, hlog, hold, hevals⟩ := h.kept
  refine ⟨old, by rw [hlog, List.append_assoc], hold, fun e he => ?_⟩
  exact ⟨(hevals e he).1.trans (List.prefix_append log [x]), (hevals e he).2⟩

/-- The window is the back of a log exactly when the cutoff lies between front and back. -/
theorem since_eq_back_iff {front back : List (T × α)} :
    back = since cutoff (front ++ back) ↔
      (∀ x ∈ front, x.1 < cutoff) ∧ ∀ x ∈ back, cutoff ≤ x.1 := by
  constructor
  · intro h
    have hback : ∀ x ∈ back, cutoff ≤ x.1 := by
      intro x hx
      rw [h] at hx
      exact of_decide_eq_true (List.mem_filter.1 hx).2
    have hkeep : since cutoff back = back :=
      List.filter_eq_self.2 fun x hx => decide_eq_true (hback x hx)
    rw [since_append, hkeep, List.self_eq_append_left] at h
    refine ⟨fun x hx => not_le.1 fun hle => ?_, hback⟩
    have hmem : x ∈ since cutoff front := List.mem_filter.2 ⟨hx, decide_eq_true hle⟩
    rw [h] at hmem
    exact absurd hmem List.not_mem_nil
  · rintro ⟨hfront, hback⟩
    rw [since_append, since_eq_nil hfront, List.nil_append]
    exact (List.filter_eq_self.2 fun x hx => decide_eq_true (hback x hx)).symm

/-- The next evaluation is exact where nothing that lies before its cutoff follows something that
does not, and no earlier evaluation has dropped what lies in its window. -/
theorem evict_eq_since_iff (h : Evaluated evaluations queue log) :
    Lib.evict cutoff queue = since cutoff log ↔
      (log.Pairwise fun x y => cutoff ≤ x.1 → cutoff ≤ y.1) ∧
        ∀ e ∈ evaluations, ∀ x ∈ e.1, cutoff ≤ x.1 → e.2 ≤ x.1 := by
  obtain ⟨old, hlog, hold, hevals⟩ := h.kept
  have hsplit : log = old ++ queue.takeWhile (fun e => decide (e.1 < cutoff)) ++
      Lib.evict cutoff queue := by
    rw [List.append_assoc, Lib.evict, List.takeWhile_append_dropWhile, hlog]
  have hiff : Lib.evict cutoff queue = since cutoff log ↔ _ := hsplit ▸ since_eq_back_iff
  rw [hiff]
  constructor
  · rintro ⟨hfront, hback⟩
    refine ⟨?_, fun e he x hx hle => ?_⟩
    · rw [hsplit]
      refine List.pairwise_append.2 ⟨?_, ?_, fun x _ y hy _ => hback y hy⟩
      · exact List.pairwise_of_forall_mem_list fun x hx y _ hle =>
          absurd (hfront x hx) (not_lt.2 hle)
      · exact List.pairwise_of_forall_mem_list fun x _ y hy _ => hback y hy
    · obtain ⟨hbegins, hdrop⟩ := hevals e he
      rw [← List.take_append_drop old.length e.1] at hx
      cases List.mem_append.1 hx with
      | inl htake =>
        have hmem : x ∈ log.take old.length := (List.IsPrefix.take hbegins old.length).subset htake
        rw [hlog, List.take_left] at hmem
        exact absurd (hfront x (List.mem_append_left _ hmem)) (not_lt.2 hle)
      | inr hdropped => exact hdrop x hdropped
  · rintro ⟨hpairs, hearlier⟩
    refine ⟨fun x hx => not_le.1 fun hle => ?_, fun x hx => ?_⟩
    · cases List.mem_append.1 hx with
      | inl hxold =>
        obtain ⟨e, he, hxe, hlt⟩ := hold x hxold
        exact absurd (hearlier e he x hxe hle) (not_le.2 hlt)
      | inr htake =>
        have hlt := List.all_eq_true.1 List.all_takeWhile x htake
        exact absurd (of_decide_eq_true hlt) (not_lt.2 hle)
    · -- The first entry that is left lies in the window, and so do those that follow it.
      cases hevict : Lib.evict cutoff queue with
      | nil => rw [hevict] at hx; exact absurd hx List.not_mem_nil
      | cons first rest =>
        have hfirst : cutoff ≤ first.1 := by
          have hhead := List.head?_dropWhile_not (fun e : T × α => decide (e.1 < cutoff)) queue
          rw [Lib.evict] at hevict
          rw [hevict] at hhead
          exact not_lt.1 (of_decide_eq_false hhead)
        rw [hevict] at hx hsplit
        cases List.mem_cons.1 hx with
        | inl heq => rwa [heq]
        | inr hrest =>
          rw [hsplit] at hpairs
          have hback := (List.pairwise_append.1 hpairs).2.1
          exact (List.pairwise_cons.1 hback).1 x hrest hfirst

/-- An exact evaluation. -/
theorem evict (h : Evaluated evaluations queue log)
    (hexact : Lib.evict cutoff queue = since cutoff log) :
    Evaluated (evaluations ++ [(log, cutoff)]) (Lib.evict cutoff queue) log := by
  obtain ⟨old, hlog, hold, hevals⟩ := h.kept
  have hsplit : log = old ++ queue.takeWhile (fun e => decide (e.1 < cutoff)) ++
      Lib.evict cutoff queue := by
    rw [List.append_assoc, Lib.evict, List.takeWhile_append_dropWhile, hlog]
  have hback : ∀ x ∈ Lib.evict cutoff queue, cutoff ≤ x.1 := by
    intro x hx
    rw [hexact] at hx
    exact of_decide_eq_true (List.mem_filter.1 hx).2
  refine ⟨_, hsplit, fun x hx => ?_, fun e he => ?_⟩
  · cases List.mem_append.1 hx with
    | inl hxold =>
      obtain ⟨e, he, hxe⟩ := hold x hxold
      exact ⟨e, List.mem_append_left _ he, hxe⟩
    | inr htake =>
      have hlt := List.all_eq_true.1 List.all_takeWhile x htake
      refine ⟨(log, cutoff), List.mem_append_right _ List.mem_cons_self, ?_,
        of_decide_eq_true hlt⟩
      rw [hlog]
      exact List.mem_append_right old ((List.takeWhile_sublist _).subset htake)
  · cases List.mem_append.1 he with
    | inl hold' =>
      refine ⟨(hevals e hold').1, fun x hx => (hevals e hold').2 x ?_⟩
      rw [List.length_append, ← List.drop_drop] at hx
      exact List.mem_of_mem_drop hx
    | inr hnew =>
      rw [List.mem_singleton.1 hnew]
      refine ⟨List.prefix_rfl, fun x hx => hback x ?_⟩
      conv at hx => rw [hsplit]
      rwa [List.drop_left] at hx

end Evaluated

end ParallaxKernel.Lib
