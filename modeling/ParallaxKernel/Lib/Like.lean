import Mathlib.Data.List.Infix
import ParallaxKernel.Lib.FtsQuery

/-!
# The operator `LIKE`

`LIKE` of SQLite on texts: `%` for any characters, `_` for one, an escape character for the next
one itself, the letters of ASCII taken alike. Pattern and text are C strings.
-/

namespace ParallaxKernel.Lib.Like

/-- Letters of ASCII are compared without their case. -/
def fold (c : Char) : Char := c.toLower

/-! ## Patterns -/

inductive Item where
  | many
  | one
  | char (c : Char)
  /-- An escape character with nothing behind it. -/
  | never
  deriving DecidableEq

/-- The items of a pattern, its first character behind an escape character or not. -/
def items (escape : Option Char) : Bool → List Char → List Item
  | true, [] => [.never]
  | true, c :: cs => .char c :: items escape false cs
  | false, [] => []
  | false, c :: cs =>
    if c = '%' then .many :: items escape false cs
    else if some c = escape then items escape true cs
    else if c = '_' then .one :: items escape false cs
    else .char c :: items escape false cs

def run : List Item → List Char → Bool
  | [], text => text.isEmpty
  | .many :: items, text => text.tails.any (run items)
  | .one :: _, [] => false
  | .one :: items, _ :: text => run items text
  | .char _ :: _, [] => false
  | .char c :: items, d :: text => fold c == fold d && run items text
  | .never :: _, _ => false

/-- `text LIKE pattern ESCAPE escape`. -/
def like (escape : Option Char) (pattern text : String) : Bool :=
  run (items escape false (Fts.cString pattern.toList)) (Fts.cString text.toList)

/-- The characters of a text that stand for something else in a pattern get a backslash. -/
def escapeChar (c : Char) : List Char :=
  if c = '\\' ∨ c = '%' ∨ c = '_' then ['\\', c] else [c]

/-! ## Case -/

theorem fold_upper {c : Char} (h : c.val ≥ 'A'.val ∧ c.val ≤ 'Z'.val) :
    (fold c).val = c.val + ('a'.val - 'A'.val) :=
  congrArg Char.val (dif_pos h)

theorem fold_other {c : Char} (h : ¬ (c.val ≥ 'A'.val ∧ c.val ≤ 'Z'.val)) : fold c = c := dif_neg h

@[simp] theorem fold_fold (c : Char) : fold (fold c) = fold c := by
  by_cases h : c.val ≥ 'A'.val ∧ c.val ≤ 'Z'.val
  · refine fold_other ?_
    have hshift : ('a'.val - 'A'.val).toNat = 32 := by decide
    have hfirst := UInt32.le_iff_toNat_le.1 h.1
    have hlast := UInt32.le_iff_toNat_le.1 h.2
    rintro ⟨-, hle⟩
    have hsum := UInt32.le_iff_toNat_le.1 hle
    rw [fold_upper h, UInt32.toNat_add, hshift] at hsum
    simp only [Char.reduceVal, UInt32.reduceToNat] at hfirst hlast hsum
    omega
  · rw [fold_other h, fold_other h]

/-- Only letters of ASCII are the lower case of something else. -/
theorem fold_eq_iff {c d : Char} (hd : d.toNat < 97 ∨ 122 < d.toNat) (hfold : fold d = d) :
    fold c = d ↔ c = d := by
  constructor
  · intro h
    by_cases hupper : c.val ≥ 'A'.val ∧ c.val ≤ 'Z'.val
    · have hshift : ('a'.val - 'A'.val).toNat = 32 := by decide
      have hfirst := UInt32.le_iff_toNat_le.1 hupper.1
      have hlast := UInt32.le_iff_toNat_le.1 hupper.2
      have hsum : (c.val + ('a'.val - 'A'.val)).toNat = d.toNat := by
        rw [← h, ← fold_upper hupper]
        rfl
      rw [UInt32.toNat_add, hshift] at hsum
      simp only [Char.reduceVal, UInt32.reduceToNat] at hfirst hlast
      omega
    · rwa [fold_other hupper] at h
  · rintro rfl
    exact hfold

theorem fold_of_ge {c : Char} (h : 128 ≤ c.toNat) : fold c = c := by
  refine dif_neg fun hupper => ?_
  have hlast := UInt32.le_iff_toNat_le.1 hupper.2
  simp only [Char.reduceVal, UInt32.reduceToNat] at hlast
  have hself : c.val.toNat = c.toNat := rfl
  omega

/-- Only characters of ASCII have the lower case of one. -/
theorem lt_of_fold_eq {c d : Char} (hc : c.toNat < 128) (h : fold d = fold c) : d.toNat < 128 := by
  by_contra hd
  have hself := fold_of_ge (not_lt.1 hd)
  have hcd : fold c = d := h.symm.trans hself
  rw [fold_eq_iff (.inr (by omega)) hself] at hcd
  subst hcd
  exact hd hc

theorem fold_eq_nul {c : Char} : fold c = '\x00' ↔ c = '\x00' :=
  fold_eq_iff (.inl (by decide)) (by decide)

theorem cString_fold (cs : List Char) : Fts.cString (cs.map fold) = (Fts.cString cs).map fold := by
  unfold Fts.cString
  rw [List.takeWhile_map]
  congr 2
  funext c
  simp [fold_eq_nul]

/-! ## Literal patterns -/

theorem items_escape (cs pattern : List Char) :
    items (some '\\') false (cs.flatMap escapeChar ++ pattern) =
      cs.map .char ++ items (some '\\') false pattern := by
  induction cs with
  | nil => rfl
  | cons c cs ih =>
    rw [List.flatMap_cons, escapeChar, List.map_cons, List.cons_append, ← ih]
    split_ifs with hc
    · simp [items]
    · simp only [not_or] at hc
      simp [items, hc]

theorem items_plain {cs : List Char} (h : ∀ c ∈ cs, c ≠ '%' ∧ c ≠ '_') (pattern : List Char) :
    items none false (cs ++ pattern) = cs.map .char ++ items none false pattern := by
  induction cs with
  | nil => rfl
  | cons c cs ih =>
    have hc := h c List.mem_cons_self
    rw [List.cons_append, items, if_neg hc.1, if_neg (by simp), if_neg hc.2,
      ih fun d hd => h d (List.mem_cons_of_mem c hd)]
    rfl

theorem run_chars (cs text : List Char) :
    run (cs.map .char ++ [.many]) text = true ↔ cs.map fold <+: text.map fold := by
  induction cs generalizing text with
  | nil =>
    have hmem : text ∈ text.tails := (List.mem_tails _ _).2 (List.suffix_refl text)
    have hnil : ([] : List Char) ∈ text.tails := (List.mem_tails _ _).2 List.nil_suffix
    simp only [List.map_nil, List.nil_append, run, List.any_eq_true, List.nil_prefix, iff_true]
    exact ⟨[], hnil, rfl⟩
  | cons c cs ih =>
    cases text with
    | nil => simp [run]
    | cons d text => simp [run, ih, List.cons_prefix_cons]

theorem run_chars_exact (cs text : List Char) :
    run (cs.map .char) text = true ↔ text.map fold = cs.map fold := by
  induction cs generalizing text with
  | nil => simp [run]
  | cons c cs ih =>
    cases text with
    | nil => simp [run]
    | cons d text =>
      simp only [List.map_cons, run, Bool.and_eq_true, beq_iff_eq, ih, List.cons.injEq]
      exact and_congr_left' eq_comm

theorem infix_iff_exists_suffix {α β : Type} (f : α → β) (xs : List β) (text : List α) :
    xs <:+: text.map f ↔ ∃ tail, tail <:+ text ∧ xs <+: tail.map f := by
  constructor
  · rintro ⟨s, t, h⟩
    rw [List.append_assoc] at h
    obtain ⟨a, tail, rfl, ha, htail⟩ := List.map_eq_append_iff.1 h.symm
    exact ⟨tail, List.suffix_append a tail, t, htail.symm⟩
  · rintro ⟨tail, ⟨a, rfl⟩, t, ht⟩
    exact ⟨a.map f, t, by rw [List.append_assoc, ht, List.map_append]⟩

theorem run_many_chars (cs text : List Char) :
    run (.many :: (cs.map .char ++ [.many])) text = true ↔ cs.map fold <:+: text.map fold := by
  rw [infix_iff_exists_suffix]
  simp only [run, List.any_eq_true, List.mem_tails, run_chars]

theorem run_many_chars_exact (cs text : List Char) :
    run (.many :: cs.map .char) text = true ↔ cs.map fold <:+ text.map fold := by
  simp only [run, List.any_eq_true, List.mem_tails, run_chars_exact]
  constructor
  · rintro ⟨tail, htail, heq⟩
    exact heq ▸ htail.map fold
  · rintro ⟨start, hstart⟩
    obtain ⟨a, tail, rfl, -, htail⟩ := List.map_eq_append_iff.1 hstart.symm
    exact ⟨tail, List.suffix_append a tail, htail⟩

section CString

variable {needle : List Char}

theorem nul_not_mem_escape (h : '\x00' ∉ needle) : '\x00' ∉ needle.flatMap escapeChar := by
  intro hmem
  obtain ⟨c, hc, hnul⟩ := List.mem_flatMap.1 hmem
  unfold escapeChar at hnul
  split_ifs at hnul
  · simp only [List.mem_cons, List.not_mem_nil, or_false] at hnul
    obtain hnul | hnul := hnul
    · exact absurd hnul (by decide)
    · exact h (hnul ▸ hc)
  · exact h (List.mem_singleton.1 hnul ▸ hc)

theorem like_eq (escape : Option Char) {pattern : List Char} (h : '\x00' ∉ pattern)
    (text : String) : like escape (String.ofList pattern) text =
      run (items escape false pattern) (Fts.cString text.toList) := by
  rw [like, String.toList_ofList, Fts.cString_eq_self h]

/-- A text stands in another one. -/
theorem like_contains (h : '\x00' ∉ needle) (text : String) :
    like (some '\\') (String.ofList ('%' :: (needle.flatMap escapeChar ++ ['%']))) text = true ↔
      needle.map fold <:+: (Fts.cString text.toList).map fold := by
  rw [like_eq _ (by simp [nul_not_mem_escape h]), items, if_pos rfl, items_escape]
  exact run_many_chars needle _

theorem prefix_cString (h : '\x00' ∉ needle) (text : List Char) :
    needle.map fold <+: (Fts.cString text).map fold ↔ needle.map fold <+: text.map fold := by
  induction needle generalizing text with
  | nil => simp
  | cons c needle ih =>
    simp only [List.mem_cons, not_or] at h
    cases text with
    | nil => simp [Fts.cString]
    | cons d text =>
      by_cases hd : d = '\x00'
      · have hc : fold c ≠ fold d := fun heq => h.1 (fold_eq_nul.1 (heq.trans (by rw [hd]; rfl))).symm
        simp [Fts.cString, hd, List.cons_prefix_cons, hd ▸ hc]
      · rw [Fts.cString_cons hd, List.map_cons, List.map_cons, List.map_cons, List.cons_prefix_cons,
          List.cons_prefix_cons, ih h.2]

/-- A text stands at the start of another one. -/
theorem like_startsWith (h : '\x00' ∉ needle) (text : String) :
    like (some '\\') (String.ofList (needle.flatMap escapeChar ++ ['%'])) text = true ↔
      needle.map fold <+: text.toList.map fold := by
  rw [like_eq _ (by simp [nul_not_mem_escape h]), items_escape, ← prefix_cString h]
  exact run_chars needle _

theorem cString_escape (h : '\x00' ∈ needle) (rest : List Char) :
    Fts.cString (needle.flatMap escapeChar ++ rest) = (Fts.cString needle).flatMap escapeChar := by
  induction needle with
  | nil => cases h
  | cons c needle ih =>
    by_cases hc : c = '\x00'
    · subst hc
      rfl
    · have hlater : '\x00' ∈ needle := by simpa [Ne.symm hc] using h
      have hsingle : '\x00' ∉ [c] := by simpa using Ne.symm hc
      have hescape : '\x00' ∉ escapeChar c := by simpa using nul_not_mem_escape hsingle
      rw [List.flatMap_cons, List.append_assoc, Fts.cString_append hescape, ih hlater]
      simp [Fts.cString, hc]

theorem cString_flatMap_escape (needle : List Char) :
    Fts.cString (needle.flatMap escapeChar) = (Fts.cString needle).flatMap escapeChar := by
  by_cases h : '\x00' ∈ needle
  · have hcut := cString_escape h []
    rwa [List.append_nil] at hcut
  · rw [Fts.cString_eq_self (nul_not_mem_escape h), Fts.cString_eq_self h]

/-- A text stands at the end of another one. -/
theorem like_endsWith (needle : List Char) (text : String) :
    like (some '\\') (String.ofList ('%' :: needle.flatMap escapeChar)) text = true ↔
      (Fts.cString needle).map fold <:+ (Fts.cString text.toList).map fold := by
  have hitems := items_escape (Fts.cString needle) []
  rw [List.append_nil, items, List.append_nil] at hitems
  rw [like, String.toList_ofList, Fts.cString_cons (by decide), cString_flatMap_escape, items,
    if_pos rfl, hitems]
  exact run_many_chars_exact _ _

/-- A text with a `NUL` cuts its pattern short: what stands before it is all that is compared. -/
theorem like_startsWith_of_nul (h : '\x00' ∈ needle) (text : String) :
    like (some '\\') (String.ofList (needle.flatMap escapeChar ++ ['%'])) text = true ↔
      (Fts.cString text.toList).map fold = (Fts.cString needle).map fold := by
  have hitems := items_escape (Fts.cString needle) []
  rw [List.append_nil, items, List.append_nil] at hitems
  rw [like, String.toList_ofList, cString_escape h, hitems]
  exact run_chars_exact _ _

/-- A text without special characters stands in another one. -/
theorem like_contains_plain (hplain : ∀ c ∈ needle, c ≠ '%' ∧ c ≠ '_') (h : '\x00' ∉ needle)
    (text : String) : like none (String.ofList ('%' :: (needle ++ ['%']))) text = true ↔
      needle.map fold <:+: (Fts.cString text.toList).map fold := by
  rw [like_eq _ (by simp [h]), items, if_pos rfl, items_plain hplain]
  exact run_many_chars needle _

end CString

end ParallaxKernel.Lib.Like
