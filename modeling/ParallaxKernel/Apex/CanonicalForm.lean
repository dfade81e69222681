import ParallaxKernel.Apex.CanonicalJson
import ParallaxKernel.Lib.KeyOrder

/-!
# Canonical JSON is a normal form

What `canonical_dumps` writes for a value depends on the value up to NFC and up to the order of keys,
and reading it back gives a value that is written alike.
-/

namespace ParallaxKernel.Apex

open Lib

/-! ## The text -/

/-- `separators=(",", ":")` and `ensure_ascii=False`. -/
def compact : Json.Layout where
  escape := Json.plainChar
  gap := []
  readChar_escape := Json.readChar_plainChar
  head_escape := Json.head_plainChar
  skipSpace_gap _ := rfl

mutual

theorem compact_chars (v : Json) : compact.chars v = compactChars v := by
  cases v with
  | arr xs =>
    cases xs with
    | nil => rfl
    | cons x xs => rw [Json.Layout.chars, compactChars, compact_chars x, compact_elementsChars xs]
  | obj ms =>
    cases ms with
    | nil => rfl
    | cons m ms =>
      obtain ⟨k, x⟩ := m
      rw [Json.Layout.chars, compactChars, compact_chars x, compact_membersChars ms]
      rfl
  | bool b => cases b <;> rfl
  | _ => rfl
termination_by structural v

theorem compact_elementsChars (xs : List Json) :
    compact.elementsChars xs = compactElements xs := by
  cases xs with
  | nil => rfl
  | cons x xs =>
    rw [Json.Layout.elementsChars, compactElements, compact_chars x, compact_elementsChars xs]
    rfl
termination_by structural xs

theorem compact_membersChars (ms : List (String × Json)) :
    compact.membersChars ms = compactMembers ms := by
  cases ms with
  | nil => rfl
  | cons m ms =>
    obtain ⟨k, x⟩ := m
    rw [Json.Layout.membersChars, compactMembers, compact_chars x, compact_membersChars ms]
    rfl
termination_by structural ms

end

mutual

/-- The value is made of texts, integers, truth values, null, lists and objects, and no object has
a key twice. -/
def Plain : Json → Prop
  | .float _ => False
  | .arr xs => PlainElements xs
  | .obj ms => (ms.map Prod.fst).Nodup ∧ PlainMembers ms
  | _ => True

def PlainElements : List Json → Prop
  | [] => True
  | x :: xs => Plain x ∧ PlainElements xs

def PlainMembers : List (String × Json) → Prop
  | [] => True
  | (_, x) :: ms => Plain x ∧ PlainMembers ms

end

section NFC

variable (D : HexDigest)

mutual

/-- At some depth two distinct keys of one object have the same NFC form. -/
def Collides : Json → Prop
  | .arr xs => CollidesElements xs
  | .obj ms => (∃ m ∈ ms, ∃ n ∈ ms, m.1 ≠ n.1 ∧ D.nfc m.1 = D.nfc n.1) ∨ CollidesMembers ms
  | _ => False

def CollidesElements : List Json → Prop
  | [] => False
  | x :: xs => Collides x ∨ CollidesElements xs

def CollidesMembers : List (String × Json) → Prop
  | [] => False
  | (_, x) :: ms => Collides x ∨ CollidesMembers ms

end

mutual

/-- Equality up to NFC of texts and keys, and up to the order of keys. -/
def NfcSame : Json → Json → Prop
  | .str s, w => ∃ t, w = .str t ∧ D.nfc s = D.nfc t
  | .arr xs, w => ∃ ys, w = .arr ys ∧ NfcSameElements xs ys
  | .obj ms, w => ∃ ns, w = .obj ns ∧ ms.length = ns.length ∧ NfcSameMembers ms ns
  | v, w => v = w

def NfcSameElements : List Json → List Json → Prop
  | [], ys => ys = []
  | x :: xs, ys => ∃ y ys', ys = y :: ys' ∧ NfcSame x y ∧ NfcSameElements xs ys'

/-- Every member has the same value under the same key among `ns`. -/
def NfcSameMembers : List (String × Json) → List (String × Json) → Prop
  | [], _ => True
  | (k, x) :: ms, ns => (∃ n ∈ ns, D.nfc k = D.nfc n.1 ∧ NfcSame x n.2) ∧ NfcSameMembers ms ns

end

mutual

/-- What `_nfc` makes of a value if no two keys collide. -/
def normalized : Json → Json
  | .str s => .str (D.nfc s)
  | .arr xs => .arr (normalizedElements xs)
  | .obj ms => .obj (normalizedMembers ms)
  | v => v

def normalizedElements : List Json → List Json
  | [] => []
  | x :: xs => normalized x :: normalizedElements xs

def normalizedMembers : List (String × Json) → List (String × Json)
  | [] => []
  | (k, x) :: ms => (D.nfc k, normalized x) :: normalizedMembers ms

end

mutual

/-- The keys of every object are distinct in NFC. -/
def Separate : Json → Prop
  | .arr xs => SeparateElements xs
  | .obj ms => (ms.map fun m => D.nfc m.1).Nodup ∧ SeparateMembers ms
  | _ => True

def SeparateElements : List Json → Prop
  | [] => True
  | x :: xs => Separate x ∧ SeparateElements xs

def SeparateMembers : List (String × Json) → Prop
  | [] => True
  | (_, x) :: ms => Separate x ∧ SeparateMembers ms

end

mutual

/-- A value in canonical form: texts and keys are in NFC and keys are sorted. -/
def Canonical : Json → Prop
  | .str s => D.nfc s = s
  | .float _ => False
  | .arr xs => CanonicalElements xs
  | .obj ms => (ms.map Prod.fst).Pairwise (· < ·) ∧ CanonicalMembers ms
  | _ => True

def CanonicalElements : List Json → Prop
  | [] => True
  | x :: xs => Canonical x ∧ CanonicalElements xs

def CanonicalMembers : List (String × Json) → Prop
  | [] => True
  | (k, x) :: ms => D.nfc k = k ∧ Canonical x ∧ CanonicalMembers ms

end

variable {D}

theorem normalizedMembers_eq (ms : List (String × Json)) :
    normalizedMembers D ms = ms.map fun m => (D.nfc m.1, normalized D m.2) := by
  induction ms with
  | nil => rfl
  | cons m ms ih => rw [normalizedMembers, ih, List.map_cons]

theorem SeparateMembers.mem {ms : List (String × Json)} (h : SeparateMembers D ms)
    {m : String × Json} (hm : m ∈ ms) : Separate D m.2 := by
  induction ms with
  | nil => cases hm
  | cons n ms ih =>
    cases List.mem_cons.1 hm with
    | inl heq => exact heq ▸ h.1
    | inr hm => exact ih h.2 hm

/-! ## Collisions -/

/-- Distinct keys collide if and only if their NFC forms are not distinct. -/
theorem exists_collision_iff {ms : List (String × Json)} (h : (ms.map Prod.fst).Nodup) :
    (∃ m ∈ ms, ∃ n ∈ ms, m.1 ≠ n.1 ∧ D.nfc m.1 = D.nfc n.1) ↔
      ¬ (ms.map fun m => D.nfc m.1).Nodup := by
  have hiff : (ms.map fun m => D.nfc m.1).Nodup ↔
      ∀ k ∈ ms.map Prod.fst, ∀ l ∈ ms.map Prod.fst, D.nfc k = D.nfc l → k = l := by
    rw [show (ms.map fun m => D.nfc m.1) = (ms.map Prod.fst).map D.nfc by simp,
      List.nodup_map_iff_inj_on h]
  rw [hiff]
  constructor
  · rintro ⟨m, hm, n, hn, hne, heq⟩ hinj
    exact hne (hinj m.1 (List.mem_map_of_mem hm) n.1 (List.mem_map_of_mem hn) heq)
  · intro hnot
    by_contra hno
    refine hnot fun k hk l hl heq => ?_
    obtain ⟨m, hm, rfl⟩ := List.mem_map.1 hk
    obtain ⟨n, hn, rfl⟩ := List.mem_map.1 hl
    by_contra hne
    exact hno ⟨m, hm, n, hn, hne, heq⟩

mutual

theorem collides_iff (v : Json) (hv : Plain v) : Collides D v ↔ ¬ Separate D v := by
  cases v with
  | arr xs => exact collidesElements_iff xs hv
  | obj ms =>
    rw [Collides, Separate, exists_collision_iff hv.1, collidesMembers_iff ms hv.2,
      not_and_or]
  | _ => simp [Collides, Separate]
termination_by structural v

theorem collidesElements_iff (xs : List Json) (hxs : PlainElements xs) :
    CollidesElements D xs ↔ ¬ SeparateElements D xs := by
  cases xs with
  | nil => simp [CollidesElements, SeparateElements]
  | cons x xs =>
    rw [CollidesElements, SeparateElements, collides_iff x hxs.1,
      collidesElements_iff xs hxs.2, not_and_or]
termination_by structural xs

theorem collidesMembers_iff (ms : List (String × Json)) (hms : PlainMembers ms) :
    CollidesMembers D ms ↔ ¬ SeparateMembers D ms := by
  cases ms with
  | nil => simp [CollidesMembers, SeparateMembers]
  | cons m ms =>
    obtain ⟨k, x⟩ := m
    rw [CollidesMembers, SeparateMembers, collides_iff x hms.1, collidesMembers_iff ms hms.2,
      not_and_or]
termination_by structural ms

end

/-! ## What `_nfc` returns -/

/-- A function returns `v` if the condition holds, and fails with a collision otherwise. -/
def CollidesUnless {α : Type} (result : Except ValueError α) (p : Prop) (v : α) : Prop :=
  (p ∧ result = .ok v) ∨ (¬ p ∧ ∃ key, result = .error (.keyCollision key))

mutual

theorem nfcValue_spec (v : Json) : CollidesUnless (nfcValue D v) (Separate D v) (normalized D v) := by
  cases v with
  | arr xs =>
    cases nfcElements_spec xs with
    | inl h => exact .inl ⟨h.1, by rw [nfcValue, h.2]; rfl⟩
    | inr h =>
      obtain ⟨key, hkey⟩ := h.2
      exact .inr ⟨h.1, key, by rw [nfcValue, hkey]; rfl⟩
  | obj ms =>
    cases nfcMembers_spec [] ms with
    | inl h => exact .inl ⟨⟨h.1.1, h.1.2.2⟩, by rw [nfcValue, h.2]; rfl⟩
    | inr h =>
      obtain ⟨key, hkey⟩ := h.2
      have hnot : ¬ Separate D (.obj ms) := fun hsep => h.1 ⟨hsep.1, by simp, hsep.2⟩
      exact .inr ⟨hnot, key, by rw [nfcValue, hkey]; rfl⟩
  | _ => exact .inl ⟨trivial, rfl⟩
termination_by structural v

theorem nfcElements_spec (xs : List Json) :
    CollidesUnless (nfcElements D xs) (SeparateElements D xs) (normalizedElements D xs) := by
  cases xs with
  | nil => exact .inl ⟨trivial, rfl⟩
  | cons x xs =>
    cases nfcValue_spec x with
    | inr h =>
      obtain ⟨key, hkey⟩ := h.2
      exact .inr ⟨fun hsep => h.1 hsep.1, key, by rw [nfcElements, hkey]; rfl⟩
    | inl h =>
      cases nfcElements_spec xs with
      | inl hxs => exact .inl ⟨⟨h.1, hxs.1⟩, by rw [nfcElements, h.2, hxs.2]; rfl⟩
      | inr hxs =>
        obtain ⟨key, hkey⟩ := hxs.2
        exact .inr ⟨fun hsep => hxs.1 hsep.2, key, by rw [nfcElements, h.2, hkey]; rfl⟩
termination_by structural xs

/-- A key of the object collides with those seen before it. -/
theorem nfcMembers_spec (seen : List String) (ms : List (String × Json)) :
    CollidesUnless (nfcMembers D seen ms) ((ms.map fun m => D.nfc m.1).Nodup ∧
      (∀ m ∈ ms, D.nfc m.1 ∉ seen) ∧ SeparateMembers D ms) (normalizedMembers D ms) := by
  cases ms with
  | nil => exact .inl ⟨by simp [SeparateMembers], rfl⟩
  | cons m ms =>
    obtain ⟨k, x⟩ := m
    by_cases hseen : D.nfc k ∈ seen
    · refine .inr ⟨fun h => h.2.1 (k, x) List.mem_cons_self hseen, D.nfc k, ?_⟩
      rw [nfcMembers, if_pos hseen]
    · cases nfcValue_spec x with
      | inr h =>
        obtain ⟨key, hkey⟩ := h.2
        refine .inr ⟨fun hsep => h.1 hsep.2.2.1, key, ?_⟩
        rw [nfcMembers, if_neg hseen, hkey]
        rfl
      | inl h =>
        have hcond : ((((k, x) :: ms).map fun m => D.nfc m.1).Nodup ∧
            (∀ m ∈ (k, x) :: ms, D.nfc m.1 ∉ seen) ∧ SeparateMembers D ((k, x) :: ms)) ↔
            (ms.map fun m => D.nfc m.1).Nodup ∧ (∀ m ∈ ms, D.nfc m.1 ∉ D.nfc k :: seen) ∧
              SeparateMembers D ms := by
          rw [List.forall_mem_cons]
          simp only [List.map_cons, List.nodup_cons, List.mem_map, SeparateMembers, List.mem_cons,
            not_or, not_exists, not_and]
          constructor
          · rintro ⟨⟨hk, hnodup⟩, ⟨-, hms⟩, -, hsep⟩
            exact ⟨hnodup, fun m hm => ⟨hk m hm, hms m hm⟩, hsep⟩
          · rintro ⟨hnodup, hms, hsep⟩
            exact ⟨⟨fun m hm => (hms m hm).1, hnodup⟩, ⟨hseen, fun m hm => (hms m hm).2⟩, h.1, hsep⟩
        cases nfcMembers_spec (D.nfc k :: seen) ms with
        | inl hms =>
          refine .inl ⟨hcond.2 hms.1, ?_⟩
          rw [nfcMembers, if_neg hseen, h.2, hms.2]
          rfl
        | inr hms =>
          obtain ⟨key, hkey⟩ := hms.2
          refine .inr ⟨fun hsep => hms.1 (hcond.1 hsep), key, ?_⟩
          rw [nfcMembers, if_neg hseen, h.2, hkey]
          rfl
termination_by structural ms

end

mutual

theorem allFinite_normalized (v : Json) (hv : Plain v) : allFinite (normalized D v) = true := by
  cases v with
  | float f => exact hv.elim
  | arr xs => exact elementsFinite_normalized xs hv
  | obj ms => exact membersFinite_normalized ms hv.2
  | _ => rfl
termination_by structural v

theorem elementsFinite_normalized (xs : List Json) (hxs : PlainElements xs) :
    elementsFinite (normalizedElements D xs) = true := by
  cases xs with
  | nil => rfl
  | cons x xs =>
    rw [normalizedElements, elementsFinite, allFinite_normalized x hxs.1,
      elementsFinite_normalized xs hxs.2, Bool.and_true]
termination_by structural xs

theorem membersFinite_normalized (ms : List (String × Json)) (hms : PlainMembers ms) :
    membersFinite (normalizedMembers D ms) = true := by
  cases ms with
  | nil => rfl
  | cons m ms =>
    obtain ⟨k, x⟩ := m
    rw [normalizedMembers, membersFinite, allFinite_normalized x hms.1,
      membersFinite_normalized ms hms.2, Bool.and_true]
termination_by structural ms

end

theorem insertMember_eq (m : String × Json) (ms : List (String × Json)) :
    Json.insertMember m ms = ms.orderedInsert (KeyLe id) m := by
  induction ms with
  | nil => rfl
  | cons n ms ih =>
    rw [Json.insertMember, List.orderedInsert_cons, ih]
    by_cases hn : n.1 < m.1
    · have hle : ¬ KeyLe id m n := not_le.2 hn
      rw [if_pos hn, if_neg hle]
    · have hle : KeyLe id m n := not_lt.1 hn
      rw [if_neg hn, if_pos hle]

theorem sortMembers_eq (ms : List (String × Json)) : Json.sortMembers ms =
    (ms.map fun m => (m.1, Json.sortKeys m.2)).insertionSort (KeyLe id) := by
  induction ms with
  | nil => rfl
  | cons m ms ih =>
    rw [Json.sortMembers, ih, insertMember_eq, List.map_cons, List.insertionSort_cons]

/-- Objects are sorted alike if and only if they have the same normal forms under the same keys. -/
theorem sortMembers_normalized_eq_iff {ms ns : List (String × Json)}
    (hms : (ms.map fun m => D.nfc m.1).Nodup) :
    Json.sortMembers (normalizedMembers D ms) = Json.sortMembers (normalizedMembers D ns) ↔
      ms.length = ns.length ∧ ∀ m ∈ ms, ∃ n ∈ ns, D.nfc m.1 = D.nfc n.1 ∧
        Json.sortKeys (normalized D m.2) = Json.sortKeys (normalized D n.2) := by
  let form (m : String × Json) : String × Json := (D.nfc m.1, m.2)
  let value (x : Json) : Json := Json.sortKeys (normalized D x)
  have hmap (ls : List (String × Json)) : (normalizedMembers D ls).map
      (fun m => (m.1, Json.sortKeys m.2)) = (ls.map form).map fun m => (m.1, value m.2) := by
    simp [normalizedMembers_eq, form, value]
  have hkeys : ((ms.map form).map Prod.fst).Nodup := by
    simpa [form, Function.comp_def] using hms
  have hnodup : (((ms.map form).map fun m => (m.1, value m.2)).map Prod.fst).Nodup := by
    simpa [form, Function.comp_def] using hms
  rw [sortMembers_eq, sortMembers_eq, hmap ms, hmap ns,
    insertionSort_keyLe_eq_iff Function.injective_id hnodup, map_perm_iff hkeys,
    List.length_map, List.length_map, List.forall_mem_map]
  simp only [List.mem_map, form, Prod.mk.injEq]
  refine and_congr_right fun _ => forall₂_congr fun m hm => ?_
  constructor
  · rintro ⟨y, ⟨n, hn, hkey, rfl⟩, hvalue⟩
    exact ⟨n, hn, hkey.symm, hvalue⟩
  · rintro ⟨n, hn, hkey, hvalue⟩
    exact ⟨n.2, ⟨n, hn, hkey.symm, rfl⟩, hvalue⟩

mutual

/-- Values are the same up to NFC and the order of keys if and only if their normal forms are
equal. -/
theorem nfcSame_iff (v w : Json) (hv : Separate D v) (hw : Separate D w) :
    NfcSame D v w ↔ Json.sortKeys (normalized D v) = Json.sortKeys (normalized D w) := by
  cases v with
  | str s => cases w <;> simp [NfcSame, normalized, Json.sortKeys]
  | arr xs =>
    cases w with
    | arr ys => simpa [NfcSame, normalized, Json.sortKeys] using nfcSameElements_iff xs ys hv hw
    | _ => simp [NfcSame, normalized, Json.sortKeys]
  | obj ms =>
    cases w with
    | obj ns =>
      simpa [NfcSame, normalized, Json.sortKeys, sortMembers_normalized_eq_iff hv.1] using
        fun _ => nfcSameMembers_iff ms ns hv.2 hw.2
    | _ => simp [NfcSame, normalized, Json.sortKeys]
  | _ => cases w <;> simp [NfcSame, normalized, Json.sortKeys]
termination_by structural v

theorem nfcSameElements_iff (xs ys : List Json) (hxs : SeparateElements D xs)
    (hys : SeparateElements D ys) : NfcSameElements D xs ys ↔
      Json.sortElements (normalizedElements D xs) = Json.sortElements (normalizedElements D ys) := by
  cases xs with
  | nil => cases ys <;> simp [NfcSameElements, normalizedElements, Json.sortElements]
  | cons x xs =>
    cases ys with
    | nil => simp [NfcSameElements, normalizedElements, Json.sortElements]
    | cons y ys =>
      simp [NfcSameElements, normalizedElements, Json.sortElements, nfcSame_iff x y hxs.1 hys.1,
        nfcSameElements_iff xs ys hxs.2 hys.2]
termination_by structural xs

theorem nfcSameMembers_iff (ms ns : List (String × Json)) (hms : SeparateMembers D ms)
    (hns : SeparateMembers D ns) : NfcSameMembers D ms ns ↔ ∀ m ∈ ms, ∃ n ∈ ns,
      D.nfc m.1 = D.nfc n.1 ∧
        Json.sortKeys (normalized D m.2) = Json.sortKeys (normalized D n.2) := by
  cases ms with
  | nil => simp [NfcSameMembers]
  | cons m ms =>
    obtain ⟨k, x⟩ := m
    rw [NfcSameMembers, nfcSameMembers_iff ms ns hms.2 hns, List.forall_mem_cons]
    refine and_congr (exists_congr fun n => and_congr_right fun hn => ?_) Iff.rfl
    exact and_congr_right fun _ => nfcSame_iff x n.2 hms.1 (hns.mem hn)
termination_by structural ms

end

/-! ## The text read back -/

theorem canonicalMembers_iff {ms : List (String × Json)} :
    CanonicalMembers D ms ↔ ∀ m ∈ ms, D.nfc m.1 = m.1 ∧ Canonical D m.2 := by
  induction ms with
  | nil => simp [CanonicalMembers]
  | cons m ms ih => rw [CanonicalMembers, ih, List.forall_mem_cons, and_assoc]

mutual

theorem canonical_sortKeys (hnfc : ∀ s, D.nfc (D.nfc s) = D.nfc s) (v : Json) (hv : Plain v)
    (h : Separate D v) : Canonical D (Json.sortKeys (normalized D v)) := by
  cases v with
  | str s => exact hnfc s
  | float f => exact hv.elim
  | arr xs => exact canonical_sortElements hnfc xs hv h
  | obj ms =>
    let form (m : String × Json) := (D.nfc m.1, Json.sortKeys (normalized D m.2))
    let sorted := (ms.map form).insertionSort (KeyLe id)
    have hsort : Json.sortMembers (normalizedMembers D ms) = sorted := by
      rw [sortMembers_eq, normalizedMembers_eq, List.map_map]
      rfl
    have hperm : sorted.Perm (ms.map form) := List.perm_insertionSort (KeyLe id) _
    rw [normalized, Json.sortKeys, hsort]
    constructor
    · have hnodup : (sorted.map Prod.fst).Nodup := by
        rw [(hperm.map Prod.fst).nodup_iff]
        simpa [form, Function.comp_def] using h.1
      have hle : (sorted.map Prod.fst).Pairwise (· ≤ ·) :=
        List.pairwise_map.2 (List.pairwise_insertionSort (KeyLe id) _)
      exact hle.imp₂ (fun _ _ hle hne => lt_of_le_of_ne hle hne) hnodup
    · rw [canonicalMembers_iff]
      intro m hm
      obtain ⟨n, hn, rfl⟩ := List.mem_map.1 (hperm.mem_iff.1 hm)
      exact ⟨hnfc n.1, canonical_sortMembers hnfc ms hv.2 h.2 n hn⟩
  | _ => trivial
termination_by structural v

theorem canonical_sortElements (hnfc : ∀ s, D.nfc (D.nfc s) = D.nfc s) (xs : List Json)
    (hxs : PlainElements xs) (h : SeparateElements D xs) :
    CanonicalElements D (Json.sortElements (normalizedElements D xs)) := by
  cases xs with
  | nil => trivial
  | cons x xs =>
    exact ⟨canonical_sortKeys hnfc x hxs.1 h.1, canonical_sortElements hnfc xs hxs.2 h.2⟩
termination_by structural xs

theorem canonical_sortMembers (hnfc : ∀ s, D.nfc (D.nfc s) = D.nfc s) (ms : List (String × Json))
    (hms : PlainMembers ms) (h : SeparateMembers D ms) :
    ∀ m ∈ ms, Canonical D (Json.sortKeys (normalized D m.2)) := by
  cases ms with
  | nil => simp
  | cons m ms =>
    obtain ⟨k, x⟩ := m
    rw [List.forall_mem_cons]
    exact ⟨canonical_sortKeys hnfc x hms.1 h.1, canonical_sortMembers hnfc ms hms.2 h.2⟩
termination_by structural ms

end

mutual

/-- A value in canonical form is its own normal form. -/
theorem canonical_fixed (v : Json) (h : Canonical D v) :
    Plain v ∧ Separate D v ∧ normalized D v = v ∧ Json.sortKeys v = v := by
  cases v with
  | str s => exact ⟨trivial, trivial, congrArg Json.str h, rfl⟩
  | float f => exact h.elim
  | arr xs =>
    obtain ⟨hplain, hsep, hnorm, hsort⟩ := canonicalElements_fixed xs h
    exact ⟨hplain, hsep, congrArg Json.arr hnorm, congrArg Json.arr hsort⟩
  | obj ms =>
    obtain ⟨hplain, hsep, hnorm, hsort⟩ := canonicalMembers_fixed ms h.2
    have hkeys : (ms.map fun m => D.nfc m.1) = ms.map Prod.fst :=
      List.map_congr_left fun m hm => (canonicalMembers_iff.1 h.2 m hm).1
    have hnodup : (ms.map Prod.fst).Nodup := h.1.imp ne_of_lt
    have hsorted : ms.Pairwise (KeyLe id) := (List.pairwise_map.1 h.1).imp le_of_lt
    refine ⟨⟨hnodup, hplain⟩, ⟨by rwa [hkeys], hsep⟩, congrArg Json.obj hnorm, ?_⟩
    rw [Json.sortKeys, sortMembers_eq, hsort, hsorted.insertionSort_eq]
  | _ => exact ⟨trivial, trivial, rfl, rfl⟩
termination_by structural v

theorem canonicalElements_fixed (xs : List Json) (h : CanonicalElements D xs) :
    PlainElements xs ∧ SeparateElements D xs ∧ normalizedElements D xs = xs ∧
      Json.sortElements xs = xs := by
  cases xs with
  | nil => exact ⟨trivial, trivial, rfl, rfl⟩
  | cons x xs =>
    obtain ⟨hplain, hsep, hnorm, hsort⟩ := canonical_fixed x h.1
    obtain ⟨hplains, hseps, hnorms, hsorts⟩ := canonicalElements_fixed xs h.2
    refine ⟨⟨hplain, hplains⟩, ⟨hsep, hseps⟩, ?_, ?_⟩
    · rw [normalizedElements, hnorm, hnorms]
    · rw [Json.sortElements, hsort, hsorts]
termination_by structural xs

theorem canonicalMembers_fixed (ms : List (String × Json)) (h : CanonicalMembers D ms) :
    PlainMembers ms ∧ SeparateMembers D ms ∧ normalizedMembers D ms = ms ∧
      (ms.map fun m => (m.1, Json.sortKeys m.2)) = ms := by
  cases ms with
  | nil => exact ⟨trivial, trivial, rfl, rfl⟩
  | cons m ms =>
    obtain ⟨k, x⟩ := m
    obtain ⟨hplain, hsep, hnorm, hsort⟩ := canonical_fixed x h.2.1
    obtain ⟨hplains, hseps, hnorms, hsorts⟩ := canonicalMembers_fixed ms h.2.2
    refine ⟨⟨hplain, hplains⟩, ⟨hsep, hseps⟩, ?_, ?_⟩
    · rw [normalizedMembers, h.1, hnorm, hnorms]
    · rw [List.map_cons, hsort, hsorts]
termination_by structural ms

end

end NFC

end ParallaxKernel.Apex
