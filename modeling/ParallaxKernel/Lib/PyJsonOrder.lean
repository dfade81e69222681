import Mathlib.Data.List.Lex
import ParallaxKernel.Lib.KeyOrder
import ParallaxKernel.Lib.PyJsonRead

/-!
# Values up to the order of keys

Two values whose objects have distinct keys are the same up to the order of keys if and only if they
are written alike with their keys sorted.
-/

namespace ParallaxKernel.Lib.PyJson

/-! ## Values with distinct keys -/

mutual

/-- No object of the value has a key twice. -/
def DistinctKeys : PyJson → Prop
  | .arr xs => DistinctElements xs
  | .obj ms => (ms.map Prod.fst).Nodup ∧ DistinctMembers ms
  | _ => True

def DistinctElements : List PyJson → Prop
  | [] => True
  | x :: xs => DistinctKeys x ∧ DistinctElements xs

def DistinctMembers : List (PyStr × PyJson) → Prop
  | [] => True
  | (_, x) :: ms => DistinctKeys x ∧ DistinctMembers ms

end

mutual

/-- Equality of lists, dictionaries and what they hold. Numbers of different types are different. -/
def Same : PyJson → PyJson → Prop
  | .arr xs, w => ∃ ys, w = .arr ys ∧ SameElements xs ys
  | .obj ms, w => ∃ ns, w = .obj ns ∧ ms.length = ns.length ∧ SameMembers ms ns
  | v, w => v = w

def SameElements : List PyJson → List PyJson → Prop
  | [], ys => ys = []
  | x :: xs, ys => ∃ y ys', ys = y :: ys' ∧ Same x y ∧ SameElements xs ys'

/-- Every member has the same value among `ns`. -/
def SameMembers : List (PyStr × PyJson) → List (PyStr × PyJson) → Prop
  | [], _ => True
  | (k, x) :: ms, ns => (∃ y, (k, y) ∈ ns ∧ Same x y) ∧ SameMembers ms ns

end

/-! ## Sorting -/

theorem DistinctMembers.mem {ms : List (PyStr × PyJson)} (h : DistinctMembers ms)
    {m : PyStr × PyJson} (hm : m ∈ ms) : m.2.DistinctKeys := by
  induction ms with
  | nil => cases hm
  | cons n ms ih =>
    cases List.mem_cons.1 hm with
    | inl heq => exact heq ▸ h.1
    | inr hm => exact ih h.2 hm

theorem toNat_injective : Function.Injective PyChar.toNat := by
  intro c d h
  cases c with
  | scalar c =>
    cases d with
    | scalar d => exact congrArg PyChar.scalar (Char.toNat_inj.1 h)
    | lone u =>
      have hvalid : c.toNat < 0xd800 ∨ 0xdfff < c.toNat ∧ c.toNat < 0x110000 := c.valid
      have hu := u.isLt
      simp only [PyChar.toNat] at h
      omega
  | lone u =>
    cases d with
    | scalar d =>
      have hvalid : d.toNat < 0xd800 ∨ 0xdfff < d.toNat ∧ d.toNat < 0x110000 := d.valid
      have hu := u.isLt
      simp only [PyChar.toNat] at h
      omega
    | lone w =>
      simp only [PyChar.toNat] at h
      exact congrArg PyChar.lone (Fin.ext (by omega))

/-- The code points of a string. -/
def codes (s : PyStr) : List Nat := s.map PyChar.toNat

theorem codes_injective : Function.Injective codes := List.map_injective_iff.2 toNat_injective

theorem insertMember_eq (m : PyStr × PyJson) (ms : List (PyStr × PyJson)) :
    insertMember m ms = ms.orderedInsert (KeyLe codes) m := by
  induction ms with
  | nil => rfl
  | cons n ms ih =>
    rw [insertMember, List.orderedInsert_cons, ih]
    by_cases hn : codes n.1 < codes m.1
    · have hbefore : keyBefore n.1 m.1 = true := decide_eq_true hn
      have hle : ¬ KeyLe codes m n := not_le.2 hn
      rw [if_pos hbefore, if_neg hle]
    · have hbefore : ¬ keyBefore n.1 m.1 = true := fun h => hn (of_decide_eq_true h)
      have hle : KeyLe codes m n := not_lt.1 hn
      rw [if_neg hbefore, if_pos hle]

theorem sortMembers_eq (ms : List (PyStr × PyJson)) :
    sortMembers ms = (ms.map fun m => (m.1, sortKeys m.2)).insertionSort (KeyLe codes) := by
  induction ms with
  | nil => rfl
  | cons m ms ih => rw [sortMembers, ih, insertMember_eq, List.map_cons, List.insertionSort_cons]

mutual

/-- Values are the same if and only if sorting their keys makes them equal. -/
theorem same_iff (v w : PyJson) (hv : v.DistinctKeys) (hw : w.DistinctKeys) :
    Same v w ↔ sortKeys v = sortKeys w := by
  cases v with
  | arr xs =>
    cases w with
    | arr ys => simpa [Same, sortKeys] using sameElements_iff xs ys hv hw
    | _ => simp [Same, sortKeys]
  | obj ms =>
    cases w with
    | obj ns =>
      have hnodup : ((ms.map fun m => (m.1, sortKeys m.2)).map Prod.fst).Nodup := by
        simpa [Function.comp_def] using hv.1
      have hsort : sortMembers ms = sortMembers ns ↔
          ms.length = ns.length ∧ ∀ m ∈ ms, ∃ y, (m.1, y) ∈ ns ∧ sortKeys m.2 = sortKeys y := by
        rw [sortMembers_eq, sortMembers_eq, insertionSort_keyLe_eq_iff codes_injective hnodup,
          map_perm_iff hv.1]
      simpa [Same, sortKeys, hsort] using fun _ => sameMembers_iff ms ns hv.2 hw.2
    | _ => simp [Same, sortKeys]
  | _ => cases w <;> simp [Same, sortKeys]
termination_by structural v

theorem sameElements_iff (xs ys : List PyJson) (hxs : DistinctElements xs)
    (hys : DistinctElements ys) : SameElements xs ys ↔ sortElements xs = sortElements ys := by
  cases xs with
  | nil => cases ys <;> simp [SameElements, sortElements]
  | cons x xs =>
    cases ys with
    | nil => simp [SameElements, sortElements]
    | cons y ys =>
      simp [SameElements, sortElements, same_iff x y hxs.1 hys.1,
        sameElements_iff xs ys hxs.2 hys.2]
termination_by structural xs

theorem sameMembers_iff (ms ns : List (PyStr × PyJson)) (hms : DistinctMembers ms)
    (hns : DistinctMembers ns) :
    SameMembers ms ns ↔ ∀ m ∈ ms, ∃ y, (m.1, y) ∈ ns ∧ sortKeys m.2 = sortKeys y := by
  cases ms with
  | nil => simp [SameMembers]
  | cons m ms =>
    obtain ⟨k, x⟩ := m
    rw [SameMembers, sameMembers_iff ms ns hms.2 hns, List.forall_mem_cons]
    refine and_congr (exists_congr fun y => and_congr_right fun hy => ?_) Iff.rfl
    exact same_iff x y hms.1 (hns.mem hy)
termination_by structural ms

end

/-! ## What sorting keeps -/

mutual

theorem unpaired_sortKeys (v : PyJson) (hv : v.Unpaired) : (sortKeys v).Unpaired := by
  cases v with
  | arr xs => exact unpaired_sortElements xs hv
  | obj ms => exact unpaired_sortMembers ms hv
  | _ => exact hv
termination_by structural v

theorem unpaired_sortElements (xs : List PyJson) (hxs : UnpairedElements xs) :
    UnpairedElements (sortElements xs) := by
  cases xs with
  | nil => trivial
  | cons x xs => exact ⟨unpaired_sortKeys x hxs.1, unpaired_sortElements xs hxs.2⟩
termination_by structural xs

theorem unpaired_sortMembers (ms : List (PyStr × PyJson)) (hms : UnpairedMembers ms) :
    UnpairedMembers (sortMembers ms) := by
  cases ms with
  | nil => trivial
  | cons m ms =>
    obtain ⟨k, x⟩ := m
    have hinsert (m : PyStr × PyJson) (hm : m.1.unpaired = true ∧ m.2.Unpaired)
        (ns : List (PyStr × PyJson)) (hns : UnpairedMembers ns) :
        UnpairedMembers (insertMember m ns) := by
      induction ns with
      | nil => exact ⟨hm.1, hm.2, trivial⟩
      | cons n ns ih =>
        rw [insertMember]
        split_ifs
        · exact ⟨hns.1, hns.2.1, ih hns.2.2⟩
        · exact ⟨hm.1, hm.2, hns⟩
    exact hinsert (k, sortKeys x) ⟨hms.1, unpaired_sortKeys x hms.2.1⟩ _
      (unpaired_sortMembers ms hms.2.2)
termination_by structural ms

end

/-- Values are the same if and only if they are written alike with their keys sorted. -/
theorem same_iff_dumpsSorted {v w : PyJson} (hv : v.Unpaired ∧ v.DistinctKeys)
    (hw : w.Unpaired ∧ w.DistinctKeys) : Same v w ↔ dumpsSorted v = dumpsSorted w := by
  rw [same_iff v w hv.2 hw.2]
  constructor
  · intro h
    rw [dumpsSorted, dumpsSorted, h]
  · intro h
    exact chars_inj (unpaired_sortKeys v hv.1) (unpaired_sortKeys w hw.1)
      (by simpa [dumpsSorted] using congrArg String.toList h)

end ParallaxKernel.Lib.PyJson
