import Mathlib.Data.List.Sort
import Mathlib.Order.Basic

/-!
# Members in the order of their keys

Sorting forgets the order in which members with distinct keys came, and nothing else.
-/

namespace ParallaxKernel.Lib

variable {κ V W γ : Type} [LinearOrder γ]

/-- Members compare as `f` says of their keys. -/
def KeyLe (f : κ → γ) (m n : κ × V) : Prop := f m.1 ≤ f n.1

instance (f : κ → γ) : DecidableRel (KeyLe f (V := V)) :=
  fun m n => inferInstanceAs (Decidable (f m.1 ≤ f n.1))

instance (f : κ → γ) : Std.Total (KeyLe f (V := V)) := ⟨fun m n => le_total (f m.1) (f n.1)⟩

instance (f : κ → γ) : IsTrans (κ × V) (KeyLe f) := ⟨fun _ _ _ => le_trans⟩

variable {f : κ → γ} {ms ns : List (κ × V)}

theorem insertionSort_keyLe_eq_iff (hf : Function.Injective f) (hms : (ms.map Prod.fst).Nodup) :
    ms.insertionSort (KeyLe f) = ns.insertionSort (KeyLe f) ↔ ms.Perm ns := by
  constructor
  · intro h
    exact (List.perm_insertionSort (KeyLe f) ms).symm.trans
      (h ▸ List.perm_insertionSort (KeyLe f) ns)
  · intro h
    have hperm : (ms.insertionSort (KeyLe f)).Perm (ns.insertionSort (KeyLe f)) :=
      (List.perm_insertionSort _ ms).trans (h.trans (List.perm_insertionSort _ ns).symm)
    refine hperm.eq_of_pairwise ?_ (List.pairwise_insertionSort _ ms)
      (List.pairwise_insertionSort _ ns)
    intro m n hm hn hmn hnm
    have hkey : m.1 = n.1 := hf (le_antisymm hmn hnm)
    have hm' : m ∈ ms := (List.mem_insertionSort _).1 hm
    have hn' : n ∈ ms := h.mem_iff.2 ((List.mem_insertionSort _).1 hn)
    exact List.inj_on_of_nodup_map hms hm' hn' hkey

/-- Objects whose members have the same values under the same keys. -/
theorem map_perm_iff {g : V → W} (hms : (ms.map Prod.fst).Nodup) :
    (ms.map fun m => (m.1, g m.2)).Perm (ns.map fun n => (n.1, g n.2)) ↔
      ms.length = ns.length ∧ ∀ m ∈ ms, ∃ y, (m.1, y) ∈ ns ∧ g m.2 = g y := by
  constructor
  · intro h
    refine ⟨by simpa using h.length_eq, fun m hm => ?_⟩
    obtain ⟨n, hn, heq⟩ := List.mem_map.1 (h.mem_iff.1 (List.mem_map_of_mem hm))
    obtain ⟨hkey, hvalue⟩ := Prod.mk.inj heq
    exact ⟨n.2, by rwa [← hkey], hvalue.symm⟩
  · rintro ⟨hlen, hvalues⟩
    have hnodup : (ms.map fun m => (m.1, g m.2)).Nodup :=
      List.Nodup.of_map Prod.fst (by simpa [Function.comp_def] using hms)
    have hsub : (ms.map fun m => (m.1, g m.2)) ⊆ ns.map fun n => (n.1, g n.2) := by
      intro p hp
      obtain ⟨m, hm, rfl⟩ := List.mem_map.1 hp
      obtain ⟨y, hy, heq⟩ := hvalues m hm
      exact List.mem_map.2 ⟨(m.1, y), hy, by rw [heq]⟩
    exact (List.subperm_of_subset hnodup hsub).perm_of_length_le (by simp [hlen])

end ParallaxKernel.Lib
