import ParallaxKernel.Lib.PyJson

/-!
# Reading back what was written

The reader undoes the writer, unless a string has two surrogates side by side that read as one
character.
-/

namespace ParallaxKernel.Lib

namespace PyStr

/-- A surrogate of the first half of a pair. -/
def isHigh : PyChar → Bool
  | .lone unit => unit.val < 0x400
  | .scalar _ => false

/-- A surrogate of the second half. -/
def isLow : PyChar → Bool
  | .lone unit => 0x400 ≤ unit.val
  | .scalar _ => false

/-- No two surrogates stand side by side as the halves of a pair. -/
def unpaired : PyStr → Bool
  | c :: d :: s => !(isHigh c && isLow d) && unpaired (d :: s)
  | _ => true

end PyStr

namespace PyJson

mutual

/-- No string of the value has the halves of a pair side by side. -/
def Unpaired : PyJson → Prop
  | .str s => s.unpaired = true
  | .arr xs => UnpairedElements xs
  | .obj ms => UnpairedMembers ms
  | _ => True

def UnpairedElements : List PyJson → Prop
  | [] => True
  | x :: xs => Unpaired x ∧ UnpairedElements xs

def UnpairedMembers : List (PyStr × PyJson) → Prop
  | [] => True
  | (k, x) :: ms => k.unpaired = true ∧ Unpaired x ∧ UnpairedMembers ms

end

/-! ## Strings -/

/-- What follows a high surrogate in a string body does not go with it. -/
def NoLow (cs : List Char) : Prop :=
  ∀ tail, cs = '\\' :: 'u' :: tail →
    ∃ unit rest, Json.readHex4 tail = some (unit, rest) ∧ ¬ (0xdc00 ≤ unit ∧ unit ≤ 0xdfff)

theorem noLow_of_head {cs : List Char} (h : ∀ tail, cs ≠ '\\' :: 'u' :: tail) : NoLow cs :=
  fun tail hcs => absurd hcs (h tail)

theorem noLow_unitEscape {unit : Nat} (hunit : unit < 0x10000)
    (h : ¬ (0xdc00 ≤ unit ∧ unit ≤ 0xdfff)) (rest : List Char) :
    NoLow (Json.unitEscape unit ++ rest) := by
  intro tail htail
  simp only [Json.unitEscape, List.cons_append, List.cons.injEq, true_and] at htail
  exact ⟨unit, rest, htail ▸ Json.readHex4_hex4 hunit rest, h⟩

theorem noLow_escapeChar {c : PyChar} (h : PyStr.isLow c = false) (rest : List Char) :
    NoLow (escapeChar c ++ rest) := by
  cases c with
  | lone unit =>
    have hlow : unit.val < 0x400 := by simpa [PyStr.isLow] using h
    have hunit : 0xd800 + unit.val < 0x10000 ∧ 0xd800 + unit.val < 0xdc00 := by omega
    exact noLow_unitEscape hunit.1 (by omega) rest
  | scalar c =>
    have hvalid : c.toNat < 0xd800 ∨ 0xdfff < c.toNat ∧ c.toNat < 0x110000 := c.valid
    simp only [escapeChar]
    unfold Json.escapeChar
    split_ifs with h1 h2 h3 h4 h5 h6 h7 h8 h9
    case pos => simp [NoLow]
    case pos => simp [NoLow]
    case pos => simp [NoLow]
    case pos => simp [NoLow]
    case pos => simp [NoLow]
    case pos => simp [NoLow]
    case pos => simp [NoLow]
    case pos => simp [NoLow, h2]
    case pos => exact noLow_unitEscape h9 (by omega) rest
    case neg =>
      rw [List.append_assoc]
      exact noLow_unitEscape (by omega) (by omega) _

theorem readUnicode_lone {unit : Fin 0x800} {rest : List Char}
    (h : PyStr.isHigh (.lone unit) = true → NoLow rest) :
    readUnicode (Json.hex4 (0xd800 + unit.val) ++ rest) = some (.lone unit, rest) := by
  have hunit : PyChar.ofUnit (0xd800 + unit.val) = .lone unit := by
    have hbound := unit.isLt
    rw [PyChar.ofUnit, dif_pos (by omega)]
    simp
  unfold readUnicode
  rw [Json.readHex4_hex4 (by have := unit.isLt; omega)]
  simp only [Option.bind_eq_bind, Option.bind_some, hunit]
  split_ifs with hhigh
  · have hrest := h (by simp only [PyStr.isHigh, decide_eq_true_eq]; omega)
    split
    · rename_i tail
      obtain ⟨lo, after, hlo, hnot⟩ := hrest tail rfl
      simp [hlo, hnot]
    · rfl
  · rfl

theorem readChar_escapeChar {c : PyChar} {rest : List Char}
    (h : PyStr.isHigh c = true → NoLow rest) :
    readChar (escapeChar c ++ rest) = some (c, rest) := by
  cases c with
  | scalar c => exact readChar_of_json (Json.readChar_escapeChar c rest)
  | lone unit => exact readUnicode_lone h

theorem head_escapeChar (c : PyChar) : ∃ x t, escapeChar c = x :: t ∧ x ≠ '"' := by
  cases c with
  | scalar c => exact Json.head_escapeChar c
  | lone unit => exact ⟨'\\', _, rfl, by decide⟩

theorem noLow_body {c : PyChar} {s : PyStr} (h : PyStr.unpaired (c :: s) = true)
    (hhigh : PyStr.isHigh c = true) (rest : List Char) :
    NoLow (s.flatMap escapeChar ++ '"' :: rest) := by
  cases s with
  | nil => exact noLow_of_head (by simp)
  | cons d s =>
    rw [List.flatMap_cons, List.append_assoc]
    simp only [PyStr.unpaired, hhigh, Bool.true_and, Bool.and_eq_true, Bool.not_eq_true'] at h
    exact noLow_escapeChar h.1 _

theorem readString_body {s : PyStr} {fuel : Nat} (hs : PyStr.unpaired s = true)
    (hfuel : (s.flatMap escapeChar).length < fuel) (rest : List Char) :
    readString fuel (s.flatMap escapeChar ++ '"' :: rest) = some (s, rest) := by
  induction s generalizing fuel with
  | nil => cases fuel with
    | zero => simp at hfuel
    | succ fuel => simp [readString]
  | cons c s ih =>
    obtain ⟨x, t, hx, hne⟩ := head_escapeChar c
    cases fuel with
    | zero => simp at hfuel
    | succ fuel =>
      have hread := readChar_escapeChar fun hhigh => noLow_body hs hhigh rest
      have htail : PyStr.unpaired s = true := by
        cases s with
        | nil => rfl
        | cons d s => exact And.right (by simpa [PyStr.unpaired] using hs)
      have hlen : (s.flatMap escapeChar).length < fuel := by
        simp only [List.flatMap_cons, hx, List.cons_append, List.length_cons,
          List.length_append] at hfuel
        omega
      simp only [List.flatMap_cons, List.append_assoc, hx, List.cons_append] at hread ⊢
      simp [readString, hne, hread, ih htail hlen]

theorem readString_quote {s : PyStr} (hs : PyStr.unpaired s = true) (fuel : Nat)
    (hfuel : (quote s).length ≤ fuel + 1) (rest : List Char) :
    readString fuel (s.flatMap escapeChar ++ '"' :: rest) = some (s, rest) :=
  readString_body hs (by simp [quote] at hfuel ⊢; omega) rest

/-! ## Values -/

theorem chars_head (v : PyJson) : ∃ c t, chars v = c :: t ∧ Json.Starts c := by
  cases v with
  | null => exact ⟨'n', "ull".toList, rfl, by decide, by decide⟩
  | bool b =>
    cases b with
    | true => exact ⟨'t', "rue".toList, rfl, by decide, by decide⟩
    | false => exact ⟨'f', "alse".toList, rfl, by decide, by decide⟩
  | int n =>
    obtain ⟨c, t, h, hs, -⟩ := Json.intChars_head n
    exact ⟨c, t, by rw [chars, h], hs⟩
  | float f =>
    obtain ⟨c, t, h, hs, -⟩ := Json.floatChars_head f
    exact ⟨c, t, by rw [chars, h], hs⟩
  | str s => exact ⟨_, _, by rw [chars, quote], by decide, by decide⟩
  | arr xs => cases xs <;> exact ⟨_, _, by rw [chars], by decide, by decide⟩
  | obj ms => cases ms <;> exact ⟨_, _, by rw [chars], by decide, by decide⟩

theorem readValue_atom (fuel : Nat) {c : Char} {t : List Char} (hs : Json.isSpace c = false)
    (h : c ≠ '"' ∧ c ≠ '[' ∧ c ≠ '\x7b') :
    readValue (fuel + 1) (c :: t) =
      (Json.readAtom (c :: t)).map fun (v, rest) => (ofJson v, rest) := by
  obtain ⟨hquote, hbracket, hbrace⟩ := h
  rw [readValue, Json.skipSpace_cons hs]
  split <;> simp_all

@[simp] theorem readValue_blank (fuel : Nat) (cs : List Char) :
    readValue fuel (' ' :: cs) = readValue fuel cs := by
  cases fuel <;> simp [readValue]

@[simp] theorem readMember_blank (fuel : Nat) (cs : List Char) :
    readMember fuel (' ' :: cs) = readMember fuel cs := by
  cases fuel <;> simp [readMember]

def isNumber : PyJson → Bool
  | .int _ | .float _ => true
  | _ => false

theorem numEnds_elementsChars (xs : List PyJson) (rest : List Char) :
    Json.NumEnds (elementsChars xs ++ rest) := by
  cases xs <;> exact Json.numEnds_cons (by decide) _

theorem numEnds_membersChars (ms : List (PyStr × PyJson)) (rest : List Char) :
    Json.NumEnds (membersChars ms ++ rest) := by
  cases ms <;> exact Json.numEnds_cons (by decide) _

theorem readMember_chars {k : PyStr} {x : PyJson} {rest : List Char} {fuel : Nat}
    (hk : k.unpaired = true) (hfuel : (quote k).length < fuel + 1)
    (hx : readValue fuel (chars x ++ rest) = some (x, rest)) :
    readMember (fuel + 1) (quote k ++ ':' :: ' ' :: (chars x ++ rest)) = some ((k, x), rest) := by
  have hread := readString_quote hk (fuel + 1) (by omega) (':' :: ' ' :: (chars x ++ rest))
  have hcolon : Json.skipSpace (':' :: ' ' :: (chars x ++ rest)) = ':' :: ' ' :: (chars x ++ rest) :=
    Json.skipSpace_cons (by decide)
  simp only [quote, List.cons_append, List.append_assoc, List.nil_append]
  rw [readMember, Json.skipSpace_cons (by decide)]
  simp [hread, hcolon, hx]

mutual

/-- The reader undoes the writer, whatever follows the text, unless it prolongs a number. -/
theorem readValue_chars (v : PyJson) (hv : v.Unpaired) (rest : List Char) (fuel : Nat)
    (hfuel : (chars v).length < fuel) (hnum : isNumber v = true → Json.NumEnds rest) :
    readValue fuel (chars v ++ rest) = some (v, rest) := by
  obtain ⟨fuel, rfl⟩ : ∃ k, fuel = k + 1 := ⟨fuel - 1, by omega⟩
  cases v with
  | null => rfl
  | bool b => cases b <;> rfl
  | int n =>
    obtain ⟨c, t, hc, hs, hne⟩ := Json.intChars_head n
    rw [chars, hc, List.cons_append, readValue_atom fuel hs.notSpace hne, ← List.cons_append,
      ← hc, Json.readAtom_int n (hnum rfl)]
    rfl
  | float f =>
    obtain ⟨c, t, hc, hs, hne⟩ := Json.floatChars_head f
    rw [chars, hc, List.cons_append, readValue_atom fuel hs.notSpace hne, ← List.cons_append,
      ← hc, Json.readAtom_float f (hnum rfl)]
    rfl
  | str s =>
    have h := readString_quote hv (fuel + 1) (by simp only [chars] at hfuel; omega) rest
    simp only [chars, quote, List.cons_append, List.append_assoc, List.nil_append]
    rw [readValue, Json.skipSpace_cons (by decide)]
    simp [h]
  | arr xs =>
    cases xs with
    | nil => rfl
    | cons x xs =>
      obtain ⟨c, t, hc, hs⟩ := chars_head x
      simp only [chars, List.length_cons, List.length_append] at hfuel
      have hx := readValue_chars x hv.1 (elementsChars xs ++ rest) fuel (by omega)
        fun _ => numEnds_elementsChars xs rest
      have hxs := readElements_chars xs hv.2 rest fuel (by omega)
      simp only [chars, List.cons_append, List.append_assoc]
      rw [readValue, Json.skipSpace_cons (by decide)]
      rw [hc, List.cons_append] at hx ⊢
      simp only [Json.skipSpace_cons hs.notSpace]
      split
      · rename_i heq
        exact absurd (List.cons.inj heq).1 hs.notClose
      · simp [hx, hxs]
  | obj ms =>
    cases ms with
    | nil => rfl
    | cons m ms =>
      obtain ⟨k, x⟩ := m
      simp only [chars, List.length_cons, List.length_append] at hfuel
      obtain ⟨fuel, rfl⟩ : ∃ k, fuel = k + 1 := ⟨fuel - 1, by omega⟩
      have hx := readValue_chars x hv.2.1 (membersChars ms ++ rest) fuel (by omega)
        fun _ => numEnds_membersChars ms rest
      have hm := readMember_chars hv.1 (by omega) hx
      have hms := readMembers_chars ms hv.2.2 rest (fuel + 1) (by omega)
      simp only [chars, List.cons_append, List.append_assoc]
      rw [readValue, Json.skipSpace_cons (by decide)]
      simp only [quote, List.cons_append, List.append_assoc, List.nil_append] at hm ⊢
      simp [Json.skipSpace_cons (show Json.isSpace '"' = false by decide), hm, hms]
termination_by structural v

theorem readElements_chars (xs : List PyJson) (hxs : UnpairedElements xs) (rest : List Char)
    (fuel : Nat) (hfuel : (elementsChars xs).length < fuel) :
    readElements fuel (elementsChars xs ++ rest) = some (xs, rest) := by
  obtain ⟨fuel, rfl⟩ : ∃ k, fuel = k + 1 := ⟨fuel - 1, by omega⟩
  cases xs with
  | nil => rfl
  | cons x xs =>
    simp only [elementsChars, List.length_cons, List.length_append] at hfuel
    have hx := readValue_chars x hxs.1 (elementsChars xs ++ rest) fuel (by omega)
      fun _ => numEnds_elementsChars xs rest
    have hrest := readElements_chars xs hxs.2 rest fuel (by omega)
    simp only [elementsChars, List.cons_append, List.append_assoc]
    rw [readElements, Json.skipSpace_cons (by decide)]
    simp [hx, hrest]
termination_by structural xs

theorem readMembers_chars (ms : List (PyStr × PyJson)) (hms : UnpairedMembers ms)
    (rest : List Char) (fuel : Nat) (hfuel : (membersChars ms).length < fuel) :
    readMembers fuel (membersChars ms ++ rest) = some (ms, rest) := by
  obtain ⟨fuel, rfl⟩ : ∃ k, fuel = k + 1 := ⟨fuel - 1, by omega⟩
  cases ms with
  | nil => rfl
  | cons m ms =>
    obtain ⟨k, x⟩ := m
    simp only [membersChars, List.length_cons, List.length_append] at hfuel
    obtain ⟨fuel, rfl⟩ : ∃ k, fuel = k + 1 := ⟨fuel - 1, by omega⟩
    have hx := readValue_chars x hms.2.1 (membersChars ms ++ rest) fuel (by omega)
      fun _ => numEnds_membersChars ms rest
    have hm := readMember_chars hms.1 (by omega) hx
    have hrest := readMembers_chars ms hms.2.2 rest (fuel + 1) (by omega)
    simp only [membersChars, List.cons_append, List.append_assoc]
    rw [readMembers, Json.skipSpace_cons (by decide)]
    simp [hm, hrest]
termination_by structural ms

end

/-- `json.loads(json.dumps(v)) == v`. -/
theorem loads_chars {v : PyJson} (hv : v.Unpaired) : loads (String.ofList v.chars) = some v := by
  have h := readValue_chars v hv [] ((chars v).length + 1) (by omega) fun _ => by
    simp [Json.NumEnds]
  simp only [List.append_nil] at h
  simp [loads, h, Json.skipSpace]

/-- Written values are equal if their texts are. -/
theorem chars_inj {v w : PyJson} (hv : v.Unpaired) (hw : w.Unpaired) (h : v.chars = w.chars) :
    v = w := by
  have hread := loads_chars hv
  rw [h, loads_chars hw] at hread
  exact (Option.some.inj hread).symm

/-! ## What the reader returns -/

theorem isHigh_ofUnit {unit : Nat} (h : PyStr.isHigh (.ofUnit unit) = true) :
    0xd800 ≤ unit ∧ unit < 0xdc00 := by
  rw [PyChar.ofUnit] at h
  split_ifs at h with hunit
  · simp only [PyStr.isHigh, decide_eq_true_eq] at h
    omega
  · cases h

theorem isLow_ofUnit {unit : Nat} (h : PyStr.isLow (.ofUnit unit) = true) :
    0xdc00 ≤ unit ∧ unit ≤ 0xdfff := by
  rw [PyChar.ofUnit] at h
  split_ifs at h with hunit
  · simp only [PyStr.isLow, decide_eq_true_eq] at h
    omega
  · cases h

/-- A code point that an escape gives: the first unit alone, if no low surrogate follows a high one,
or a character. -/
theorem readUnicode_eq_some {cs rest : List Char} {c : PyChar}
    (h : readUnicode cs = some (c, rest)) : ∃ hi tail, Json.readHex4 cs = some (hi, tail) ∧
      ((c = .ofUnit hi ∧ ((0xd800 ≤ hi ∧ hi < 0xdc00) → NoLow rest)) ∨ ∃ d, c = .scalar d) := by
  obtain ⟨⟨hi, tail⟩, hhex, h⟩ := Option.bind_eq_some_iff.1 h
  refine ⟨hi, tail, hhex, ?_⟩
  dsimp only at h
  split_ifs at h with hhigh
  · split at h
    · next after =>
      obtain ⟨⟨lo, final⟩, hlo, h⟩ := Option.bind_eq_some_iff.1 h
      dsimp only at h
      split_ifs at h with hpair
      · cases h
        exact .inr ⟨_, rfl⟩
      · cases h
        refine .inl ⟨rfl, fun _ after' heq => ?_⟩
        cases heq
        exact ⟨lo, final, hlo, hpair⟩
    · next hother =>
      cases h
      exact .inl ⟨rfl, fun _ => noLow_of_head hother⟩
  · cases h
    exact .inl ⟨rfl, fun hhigh' => absurd hhigh' hhigh⟩

theorem readChar_eq_some {cs rest : List Char} {c : PyChar} (h : readChar cs = some (c, rest)) :
    (∃ tail, cs = '\\' :: 'u' :: tail ∧ readUnicode tail = some (c, rest)) ∨
      ∃ d, c = .scalar d := by
  unfold readChar at h
  split at h
  · exact .inl ⟨_, rfl, h⟩
  · obtain ⟨⟨d, tail⟩, -, heq⟩ := Option.map_eq_some_iff.1 h
    cases heq
    exact .inr ⟨d, rfl⟩

theorem readChar_high {cs rest : List Char} {c : PyChar} (h : readChar cs = some (c, rest))
    (hhigh : PyStr.isHigh c = true) : NoLow rest := by
  cases readChar_eq_some h with
  | inl hescape =>
    obtain ⟨tail, -, hread⟩ := hescape
    obtain ⟨hi, after, -, hunit | ⟨d, rfl⟩⟩ := readUnicode_eq_some hread
    · obtain ⟨rfl, hrest⟩ := hunit
      exact hrest (isHigh_ofUnit hhigh)
    · cases hhigh
  | inr hscalar =>
    obtain ⟨d, rfl⟩ := hscalar
    cases hhigh

theorem readChar_low {cs rest : List Char} {c : PyChar} (h : readChar cs = some (c, rest))
    (hcs : NoLow cs) : PyStr.isLow c = false := by
  by_contra hlow
  rw [Bool.not_eq_false] at hlow
  cases readChar_eq_some h with
  | inl hescape =>
    obtain ⟨tail, rfl, hread⟩ := hescape
    obtain ⟨lo, after, hlo, hnot⟩ := hcs tail rfl
    obtain ⟨hi, after', hhi, hunit | ⟨d, rfl⟩⟩ := readUnicode_eq_some hread
    · obtain ⟨rfl, -⟩ := hunit
      rw [hlo] at hhi
      cases hhi
      exact hnot (isLow_ofUnit hlow)
    · cases hlow
  | inr hscalar =>
    obtain ⟨d, rfl⟩ := hscalar
    cases hlow

/-- The reader takes the halves of a pair together. -/
theorem unpaired_readString {fuel : Nat} {cs rest : List Char} {s : PyStr}
    (h : readString fuel cs = some (s, rest)) : s.unpaired = true ∧
      (NoLow cs → ∀ c ∈ s.head?, PyStr.isLow c = false) := by
  induction fuel generalizing cs s with
  | zero => cases h
  | succ fuel ih =>
    cases cs with
    | nil => cases h
    | cons c cs =>
      rw [readString] at h
      split_ifs at h with hquote
      · cases h
        exact ⟨rfl, by simp⟩
      · obtain ⟨⟨x, tail⟩, hchar, h⟩ := Option.bind_eq_some_iff.1 h
        obtain ⟨⟨xs, final⟩, hxs, h⟩ := Option.bind_eq_some_iff.1 h
        cases h
        obtain ⟨hunpaired, hhead⟩ := ih hxs
        constructor
        · cases xs with
          | nil => rfl
          | cons y ys =>
            rw [PyStr.unpaired, hunpaired, Bool.and_true, Bool.not_eq_true', Bool.and_eq_false_iff]
            cases hhigh : PyStr.isHigh x with
            | false => exact .inl rfl
            | true => exact .inr (hhead (readChar_high hchar hhigh) y rfl)
        · intro hcs d hd
          obtain rfl : x = d := by simpa using hd
          exact readChar_low hchar hcs

theorem unpaired_ofChars (cs : List Char) : (PyStr.ofChars cs).unpaired = true := by
  induction cs with
  | nil => rfl
  | cons c cs ih =>
    cases cs with
    | nil => rfl
    | cons d cs => simpa [PyStr.ofChars, PyStr.unpaired, PyStr.isHigh] using ih

mutual

theorem unpaired_ofJson : ∀ v : Json, (ofJson v).Unpaired
  | .null | .bool _ | .int _ | .float _ => trivial
  | .str s => unpaired_ofChars s.toList
  | .arr xs => unpaired_ofElements xs
  | .obj ms => unpaired_ofMembers ms

theorem unpaired_ofElements : ∀ xs : List Json, UnpairedElements (ofElements xs)
  | [] => trivial
  | x :: xs => ⟨unpaired_ofJson x, unpaired_ofElements xs⟩

theorem unpaired_ofMembers : ∀ ms : List (String × Json), UnpairedMembers (ofMembers ms)
  | [] => trivial
  | (k, x) :: ms => ⟨unpaired_ofChars k.toList, unpaired_ofJson x, unpaired_ofMembers ms⟩

end

/-- The four readers return nothing with the halves of a pair side by side. -/
theorem unpaired_read (fuel : Nat) :
    (∀ cs v rest, readValue fuel cs = some (v, rest) → v.Unpaired) ∧
    (∀ cs xs rest, readElements fuel cs = some (xs, rest) → UnpairedElements xs) ∧
    (∀ cs m rest, readMember fuel cs = some (m, rest) → UnpairedMembers [m]) ∧
    (∀ cs ms rest, readMembers fuel cs = some (ms, rest) → UnpairedMembers ms) := by
  induction fuel with
  | zero =>
    refine ⟨?_, ?_, ?_, ?_⟩ <;> (intro cs v rest h; cases h)
  | succ fuel ih =>
    obtain ⟨hvalue, helements, hmember, hmembers⟩ := ih
    refine ⟨?_, ?_, ?_, ?_⟩
    · intro cs v rest h
      unfold readValue at h
      split at h
      · obtain ⟨⟨s, after⟩, hs, heq⟩ := Option.map_eq_some_iff.1 h
        cases heq
        exact (unpaired_readString hs).1
      · split at h
        · cases h
          trivial
        · obtain ⟨⟨x, after⟩, hx, h⟩ := Option.bind_eq_some_iff.1 h
          obtain ⟨⟨xs, final⟩, hxs, h⟩ := Option.bind_eq_some_iff.1 h
          cases h
          exact ⟨hvalue _ _ _ hx, helements _ _ _ hxs⟩
      · split at h
        · cases h
          trivial
        · obtain ⟨⟨m, after⟩, hm, h⟩ := Option.bind_eq_some_iff.1 h
          obtain ⟨⟨ms, final⟩, hms, h⟩ := Option.bind_eq_some_iff.1 h
          cases h
          obtain ⟨hk, hx, -⟩ := hmember _ _ _ hm
          exact ⟨hk, hx, hmembers _ _ _ hms⟩
      · obtain ⟨⟨w, after⟩, -, heq⟩ := Option.map_eq_some_iff.1 h
        cases heq
        exact unpaired_ofJson w
    · intro cs xs rest h
      unfold readElements at h
      split at h
      · cases h
        trivial
      · obtain ⟨⟨x, after⟩, hx, h⟩ := Option.bind_eq_some_iff.1 h
        obtain ⟨⟨xs, final⟩, hxs, h⟩ := Option.bind_eq_some_iff.1 h
        cases h
        exact ⟨hvalue _ _ _ hx, helements _ _ _ hxs⟩
      · cases h
    · intro cs m rest h
      unfold readMember at h
      split at h
      · obtain ⟨⟨k, after⟩, hk, h⟩ := Option.bind_eq_some_iff.1 h
        dsimp only at h
        split at h
        · obtain ⟨⟨x, final⟩, hx, h⟩ := Option.bind_eq_some_iff.1 h
          cases h
          exact ⟨(unpaired_readString hk).1, hvalue _ _ _ hx, trivial⟩
        · cases h
      · cases h
    · intro cs ms rest h
      unfold readMembers at h
      split at h
      · cases h
        trivial
      · obtain ⟨⟨m, after⟩, hm, h⟩ := Option.bind_eq_some_iff.1 h
        obtain ⟨⟨ms, final⟩, hms, h⟩ := Option.bind_eq_some_iff.1 h
        cases h
        obtain ⟨hk, hx, -⟩ := hmember _ _ _ hm
        exact ⟨hk, hx, hmembers _ _ _ hms⟩
      · cases h

/-- What `json.loads` returns is written so that reading it back gives the same value. -/
theorem unpaired_of_loads {text : String} {v : PyJson} (h : loads text = some v) : v.Unpaired := by
  unfold loads at h
  split at h
  · rename_i w rest hread
    obtain ⟨-, heq⟩ := Option.ite_none_right_eq_some.1 h
    cases heq
    exact (unpaired_read _).1 _ _ _ hread
  · cases h

end PyJson
end ParallaxKernel.Lib
