import ParallaxKernel.Lib.PyJson

/-!
# The text of a value

The writer writes printable characters of ASCII only, and the text of a value holds the texts of its
parts.
-/

namespace ParallaxKernel.Lib.PyJson

/-! ## Printable characters -/

/-- Characters of ASCII from the blank to the tilde. -/
def Printed (cs : List Char) : Prop := ∀ c ∈ cs, 32 ≤ c.toNat ∧ c.toNat ≤ 126

instance (cs : List Char) : Decidable (Printed cs) :=
  List.decidableBAll (fun c : Char => 32 ≤ c.toNat ∧ c.toNat ≤ 126) cs

@[simp] theorem printed_nil : Printed [] := by simp [Printed]

@[simp] theorem printed_cons {c : Char} {cs : List Char} :
    Printed (c :: cs) ↔ (32 ≤ c.toNat ∧ c.toNat ≤ 126) ∧ Printed cs := by
  simp [Printed]

@[simp] theorem printed_append {cs ds : List Char} :
    Printed (cs ++ ds) ↔ Printed cs ∧ Printed ds :=
  List.forall_mem_append

theorem Printed.ne {cs : List Char} (h : Printed cs) {c : Char} (hc : c.toNat < 32) : c ∉ cs := by
  intro hmem
  have hprinted := (h c hmem).1
  omega

theorem printed_unitEscape (n : Nat) : Printed (Json.unitEscape n) := by
  have hdigit (n : Nat) : 32 ≤ (Json.hexDigit n).toNat ∧ (Json.hexDigit n).toNat ≤ 126 := by
    have hall : ∀ d < 16, 32 ≤ (Nat.digitChar d).toNat ∧ (Nat.digitChar d).toNat ≤ 126 := by decide
    exact hall (n % 16) (Nat.mod_lt _ (by omega))
  simp [Json.unitEscape, Json.hex4, hdigit]

theorem printed_escapeChar (c : PyChar) : Printed (escapeChar c) := by
  cases c with
  | lone unit => exact printed_unitEscape _
  | scalar c =>
    rw [escapeChar, Json.escapeChar]
    split_ifs with _ _ _ _ _ _ _ hplain
    all_goals first
      | decide
      | skip
    · simpa using hplain
    · exact printed_unitEscape _
    · exact printed_append.2 ⟨printed_unitEscape _, printed_unitEscape _⟩

theorem printed_quote (s : PyStr) : Printed (quote s) := by
  have hbody : Printed (s.flatMap escapeChar) := by
    intro c hc
    obtain ⟨d, -, hc⟩ := List.mem_flatMap.1 hc
    exact printed_escapeChar d c hc
  simp [quote, hbody]

theorem printed_of_isNumChar {cs : List Char} (h : ∀ c ∈ cs, isNumChar c = true) : Printed cs := by
  intro c hc
  have hnum := h c hc
  simp only [isNumChar, Char.isDigit, Bool.or_eq_true, Bool.and_eq_true, decide_eq_true_iff,
    beq_iff_eq] at hnum
  obtain ((((⟨hlow, hhigh⟩ | rfl) | rfl) | rfl) | rfl) | rfl := hnum
  · have hlow' : 48 ≤ c.toNat := hlow
    have hhigh' : c.toNat ≤ 57 := hhigh
    omega
  all_goals decide

theorem printed_intChars (n : Int) : Printed (Json.intChars n) := by
  have hnat (n : Nat) : Printed (Json.natChars n) :=
    printed_of_isNumChar fun c hc =>
      Json.isNumChar_of_isDigit (Json.natChars_all_digits n c hc)
  unfold Json.intChars
  split_ifs
  · exact printed_cons.2 ⟨by decide, hnat _⟩
  · exact hnat _

theorem printed_floatChars (f : PyFloat) : Printed (Json.floatChars f) := by
  cases f with
  | finite lit =>
    have hdigits := printed_of_isNumChar (Json.isNumChar_of_isFloatLit lit.valid)
    change Printed (if lit.neg = true then '-' :: lit.digits else lit.digits)
    split_ifs
    · exact printed_cons.2 ⟨by decide, hdigits⟩
    · exact hdigits
  | inf => exact (by decide : Printed "Infinity".toList)
  | negInf => exact (by decide : Printed "-Infinity".toList)
  | nan => exact (by decide : Printed "NaN".toList)

mutual

/-- What `json.dumps` writes is printable. -/
theorem printed_chars : ∀ v : PyJson, Printed v.chars
  | .null | .bool true | .bool false => by decide
  | .int n => printed_intChars n
  | .float f => printed_floatChars f
  | .str s => printed_quote s
  | .arr [] => by decide
  | .arr (x :: xs) => by
    simp [chars, printed_chars x, printed_elementsChars xs]
  | .obj [] => by decide
  | .obj ((k, x) :: ms) => by
    simp [chars, printed_quote k, printed_chars x, printed_membersChars ms]

theorem printed_elementsChars : ∀ xs : List PyJson, Printed (elementsChars xs)
  | [] => by decide
  | x :: xs => by
    simp [elementsChars, printed_chars x, printed_elementsChars xs]

theorem printed_membersChars : ∀ ms : List (PyStr × PyJson), Printed (membersChars ms)
  | [] => by decide
  | (k, x) :: ms => by
    simp [membersChars, printed_quote k, printed_chars x, printed_membersChars ms]

end

theorem printed_dumpsSorted (v : PyJson) : Printed (dumpsSorted v).toList := by
  rw [dumpsSorted, String.toList_ofList]
  exact printed_chars _

/-! ## The parts of a value -/

theorem mem_insertMember {m n : PyStr × PyJson} {ms : List (PyStr × PyJson)} :
    n ∈ insertMember m ms ↔ n = m ∨ n ∈ ms := by
  induction ms with
  | nil => simp [insertMember]
  | cons l ms ih =>
    unfold insertMember
    split_ifs
    · rw [List.mem_cons, ih, List.mem_cons, or_left_comm]
    · rw [List.mem_cons]

theorem mem_sortMembers {k : PyStr} {x : PyJson} {ms : List (PyStr × PyJson)} (h : (k, x) ∈ ms) :
    (k, sortKeys x) ∈ sortMembers ms := by
  induction ms with
  | nil => cases h
  | cons m ms ih =>
    obtain ⟨l, y⟩ := m
    rw [sortMembers, mem_insertMember]
    obtain heq | h := List.mem_cons.1 h
    · cases heq
      exact .inl rfl
    · exact .inr (ih h)

end ParallaxKernel.Lib.PyJson
