import ParallaxKernel.Lib.Json

/-!
# JSON over strings with lone surrogates

A Python string is a sequence of code points, lone surrogates among them: `json.loads` makes one of
an escape that has no partner, and UTF-8 has no encoding for it. The reader here keeps what
`Json.loads` does not decode.
-/

namespace ParallaxKernel.Lib

/-! ## Strings -/

/-- A code point: a scalar value, or a surrogate given by its distance from `U+D800`. -/
inductive PyChar where
  | scalar (c : Char)
  | lone (unit : Fin 0x800)
  deriving DecidableEq

abbrev PyStr := List PyChar

instance : LawfulBEq PyStr := inferInstanceAs (LawfulBEq (List PyChar))

def PyChar.toNat : PyChar → Nat
  | scalar c => c.toNat
  | lone unit => 0xd800 + unit.val

def PyChar.scalar? : PyChar → Option Char
  | scalar c => some c
  | lone _ => none

/-- The code point of a UTF-16 code unit. -/
def PyChar.ofUnit (unit : Nat) : PyChar :=
  if h : 0xd800 ≤ unit ∧ unit < 0xe000 then lone ⟨unit - 0xd800, by omega⟩
  else scalar (Char.ofNat unit)

namespace PyStr

def ofChars (cs : List Char) : PyStr := cs.map .scalar

def ofString (s : String) : PyStr := ofChars s.toList

/-- `str.encode("utf-8")`, as the text that it encodes; `none` where it raises. -/
def encode? (s : PyStr) : Option String := (s.mapM PyChar.scalar?).map String.ofList

@[simp] theorem length_ofChars (cs : List Char) : (ofChars cs).length = cs.length := by
  simp [ofChars]

@[simp] theorem ofChars_append (cs ds : List Char) : ofChars (cs ++ ds) = ofChars cs ++ ofChars ds :=
  List.map_append

theorem mapM_scalar?_ofChars (cs : List Char) : (ofChars cs).mapM PyChar.scalar? = some cs := by
  induction cs with
  | nil => rfl
  | cons c cs ih =>
    rw [ofChars, List.map_cons, List.mapM_cons, ← ofChars, ih]
    rfl

theorem mapM_scalar?_eq_some {s : PyStr} {cs : List Char} :
    s.mapM PyChar.scalar? = some cs ↔ s = ofChars cs := by
  constructor
  · intro h
    induction s generalizing cs with
    | nil =>
      cases h
      rfl
    | cons c s ih =>
      rw [List.mapM_cons] at h
      obtain ⟨d, hd, h⟩ := Option.bind_eq_some_iff.1 h
      obtain ⟨ds, hds, h⟩ := Option.bind_eq_some_iff.1 h
      cases h
      cases c with
      | lone unit => cases hd
      | scalar c =>
        cases hd
        rw [ih hds]
        rfl
  · rintro rfl
    exact mapM_scalar?_ofChars cs

theorem encode?_eq_some {s : PyStr} {text : String} :
    s.encode? = some text ↔ s = ofString text := by
  constructor
  · intro h
    obtain ⟨cs, hcs, rfl⟩ := Option.map_eq_some_iff.1 h
    rw [mapM_scalar?_eq_some.1 hcs, ofString, String.toList_ofList]
  · rintro rfl
    simp [encode?, ofString, mapM_scalar?_ofChars]

@[simp] theorem scalar_mem_ofChars {c : Char} {cs : List Char} :
    .scalar c ∈ ofChars cs ↔ c ∈ cs := by
  simp [ofChars]

/-- A text has an encoding if none of its code points is a lone surrogate. -/
theorem encode?_isSome {s : PyStr} : s.encode?.isSome = true ↔ ∀ unit, .lone unit ∉ s := by
  induction s with
  | nil => simp [encode?]
  | cons c s ih =>
    rw [encode?, Option.isSome_map] at ih ⊢
    rw [List.mapM_cons]
    cases c with
    | lone unit =>
      exact iff_of_false (by simp [PyChar.scalar?]) fun h => h unit List.mem_cons_self
    | scalar c =>
      have hiff : (∀ unit, .lone unit ∉ PyChar.scalar c :: s) ↔ ∀ unit, .lone unit ∉ s := by simp
      rw [hiff, ← ih]
      cases s.mapM PyChar.scalar? <;> simp [PyChar.scalar?]

@[simp] theorem encode?_ofString (s : String) : (ofString s).encode? = some s := by
  simp [encode?, ofString, mapM_scalar?_ofChars]

theorem mapM_scalar?_append (s t : PyStr) : (s ++ t).mapM PyChar.scalar? =
    (s.mapM PyChar.scalar?).bind fun cs => (t.mapM PyChar.scalar?).map fun ds => cs ++ ds := by
  rw [List.mapM_append]
  cases s.mapM PyChar.scalar? <;> cases t.mapM PyChar.scalar? <;> rfl

/-- A text is encoded piece by piece. -/
theorem encode?_append (s t : PyStr) : (s ++ t).encode? =
    s.encode?.bind fun u => t.encode?.map fun v => u ++ v := by
  unfold encode?
  rw [mapM_scalar?_append]
  cases s.mapM PyChar.scalar? with
  | none => rfl
  | some cs =>
    cases t.mapM PyChar.scalar? with
    | none => rfl
    | some ds => simp [String.ofList_append]

end PyStr

/-! ## Values -/

inductive PyJson where
  | null
  | bool (b : Bool)
  | int (n : Int)
  | float (f : PyFloat)
  | str (s : PyStr)
  | arr (xs : List PyJson)
  | obj (ms : List (PyStr × PyJson))

namespace PyJson

mutual

/-- A value whose strings are texts. -/
def ofJson : Json → PyJson
  | .null => .null
  | .bool b => .bool b
  | .int n => .int n
  | .float f => .float f
  | .str s => .str (.ofString s)
  | .arr xs => .arr (ofElements xs)
  | .obj ms => .obj (ofMembers ms)

def ofElements : List Json → List PyJson
  | [] => []
  | x :: xs => ofJson x :: ofElements xs

def ofMembers : List (String × Json) → List (PyStr × PyJson)
  | [] => []
  | (k, x) :: ms => (.ofString k, ofJson x) :: ofMembers ms

end

/-- `value.get(key)`: of several members with one name the last counts. -/
def member? (key : PyStr) (ms : List (PyStr × PyJson)) : Option PyJson :=
  (ms.reverse.find? (·.1 == key)).map (·.2)

/-! ## The writer -/

def escapeChar : PyChar → List Char
  | .scalar c => Json.escapeChar c
  | .lone unit => Json.unitEscape (0xd800 + unit.val)

def quote (s : PyStr) : List Char := '"' :: (s.flatMap escapeChar ++ ['"'])

mutual

def chars : PyJson → List Char
  | .null => "null".toList
  | .bool b => (Json.bool b).chars
  | .int n => Json.intChars n
  | .float f => Json.floatChars f
  | .str s => quote s
  | .arr [] => ['[', ']']
  | .arr (x :: xs) => '[' :: (chars x ++ elementsChars xs)
  | .obj [] => ['{', '}']
  | .obj ((k, x) :: ms) => '{' :: (quote k ++ ':' :: ' ' :: (chars x ++ membersChars ms))

def elementsChars : List PyJson → List Char
  | [] => [']']
  | x :: xs => ',' :: ' ' :: (chars x ++ elementsChars xs)

def membersChars : List (PyStr × PyJson) → List Char
  | [] => ['}']
  | (k, x) :: ms => ',' :: ' ' :: (quote k ++ ':' :: ' ' :: (chars x ++ membersChars ms))

end

/-- Strings compare by their code points. -/
def keyBefore (s t : PyStr) : Bool := decide (s.map PyChar.toNat < t.map PyChar.toNat)

def insertMember (m : PyStr × PyJson) : List (PyStr × PyJson) → List (PyStr × PyJson)
  | [] => [m]
  | n :: ms => if keyBefore n.1 m.1 then n :: insertMember m ms else m :: n :: ms

mutual

def sortKeys : PyJson → PyJson
  | .arr xs => .arr (sortElements xs)
  | .obj ms => .obj (sortMembers ms)
  | v => v

def sortElements : List PyJson → List PyJson
  | [] => []
  | x :: xs => sortKeys x :: sortElements xs

def sortMembers : List (PyStr × PyJson) → List (PyStr × PyJson)
  | [] => []
  | (k, x) :: ms => insertMember (k, sortKeys x) (sortMembers ms)

end

/-- `json.dumps(value, sort_keys=True)`. -/
def dumpsSorted (v : PyJson) : String := String.ofList (sortKeys v).chars

/-! ## The reader -/

/-- The code point of a `\u` escape: a high surrogate takes the escape after it with it if that one
is a low surrogate. -/
def readUnicode (cs : List Char) : Option (PyChar × List Char) := do
  let (hi, rest) ← Json.readHex4 cs
  if 0xd800 ≤ hi ∧ hi < 0xdc00 then
    match rest with
    | '\\' :: 'u' :: tail => do
      let (lo, tail) ← Json.readHex4 tail
      if 0xdc00 ≤ lo ∧ lo ≤ 0xdfff then
        some (.scalar (Char.ofNat (0x10000 + (hi - 0xd800) * 0x400 + (lo - 0xdc00))), tail)
      else some (.ofUnit hi, rest)
    | _ => some (.ofUnit hi, rest)
  else some (.ofUnit hi, rest)

/-- The next code point of a string body. -/
def readChar : List Char → Option (PyChar × List Char)
  | '\\' :: 'u' :: rest => readUnicode rest
  | cs => (Json.readChar cs).map fun (c, rest) => (.scalar c, rest)

/-- A string body up to its closing quote. -/
def readString : Nat → List Char → Option (PyStr × List Char)
  | 0, _ => none
  | _ + 1, [] => none
  | fuel + 1, c :: cs =>
    if c = '"' then some ([], cs)
    else do
      let (x, rest) ← readChar (c :: cs)
      let (xs, rest) ← readString fuel rest
      some (x :: xs, rest)

mutual

def readValue : Nat → List Char → Option (PyJson × List Char)
  | 0, _ => none
  | fuel + 1, cs =>
    match Json.skipSpace cs with
    | '"' :: rest => (readString (fuel + 1) rest).map fun (s, rest) => (.str s, rest)
    | '[' :: rest =>
      match Json.skipSpace rest with
      | ']' :: rest => some (.arr [], rest)
      | rest => do
        let (x, rest) ← readValue fuel rest
        let (xs, rest) ← readElements fuel rest
        some (.arr (x :: xs), rest)
    | '{' :: rest =>
      match Json.skipSpace rest with
      | '}' :: rest => some (.obj [], rest)
      | rest => do
        let (m, rest) ← readMember fuel rest
        let (ms, rest) ← readMembers fuel rest
        some (.obj (m :: ms), rest)
    | rest => (Json.readAtom rest).map fun (v, rest) => (ofJson v, rest)

def readElements : Nat → List Char → Option (List PyJson × List Char)
  | 0, _ => none
  | fuel + 1, cs =>
    match Json.skipSpace cs with
    | ']' :: rest => some ([], rest)
    | ',' :: rest => do
      let (x, rest) ← readValue fuel rest
      let (xs, rest) ← readElements fuel rest
      some (x :: xs, rest)
    | _ => none

def readMember : Nat → List Char → Option ((PyStr × PyJson) × List Char)
  | 0, _ => none
  | fuel + 1, cs =>
    match Json.skipSpace cs with
    | '"' :: rest => do
      let (k, rest) ← readString (fuel + 1) rest
      match Json.skipSpace rest with
      | ':' :: rest => do
        let (x, rest) ← readValue fuel rest
        some ((k, x), rest)
      | _ => none
    | _ => none

def readMembers : Nat → List Char → Option (List (PyStr × PyJson) × List Char)
  | 0, _ => none
  | fuel + 1, cs =>
    match Json.skipSpace cs with
    | '}' :: rest => some ([], rest)
    | ',' :: rest => do
      let (m, rest) ← readMember fuel rest
      let (ms, rest) ← readMembers fuel rest
      some (m :: ms, rest)
    | _ => none

end

/-- `json.loads(text)`; `none` where it raises `JSONDecodeError`. -/
def loads (text : String) : Option PyJson :=
  match readValue (text.toList.length + 1) text.toList with
  | some (v, rest) => if Json.skipSpace rest = [] then some v else none
  | none => none

/-! ## Agreement with the writer of texts -/

theorem flatMap_escapeChar_ofString (s : String) :
    (PyStr.ofString s).flatMap escapeChar = s.toList.flatMap Json.escapeChar := by
  simp only [PyStr.ofString, PyStr.ofChars, List.flatMap_map]
  rfl

@[simp] theorem quote_ofString (s : String) : quote (.ofString s) = Json.quote s := by
  simp [quote, Json.quote, flatMap_escapeChar_ofString]

mutual

/-- A value whose strings are texts is written as before. -/
@[simp] theorem chars_ofJson : ∀ v : Json, (ofJson v).chars = v.chars
  | .null | .bool true | .bool false | .int _ | .float _ => rfl
  | .str s => by simp [ofJson, chars, Json.chars]
  | .arr [] => rfl
  | .arr (x :: xs) => by
    simp [ofJson, ofElements, chars, Json.chars, chars_ofJson x, elementsChars_ofElements xs]
  | .obj [] => rfl
  | .obj ((k, x) :: ms) => by
    simp [ofJson, ofMembers, chars, Json.chars, chars_ofJson x, membersChars_ofMembers ms]

@[simp] theorem elementsChars_ofElements :
    ∀ xs : List Json, elementsChars (ofElements xs) = Json.elementsChars xs
  | [] => rfl
  | x :: xs => by
    simp [ofElements, elementsChars, Json.elementsChars, chars_ofJson x,
      elementsChars_ofElements xs]

@[simp] theorem membersChars_ofMembers :
    ∀ ms : List (String × Json), membersChars (ofMembers ms) = Json.membersChars ms
  | [] => rfl
  | (k, x) :: ms => by
    simp [ofMembers, membersChars, Json.membersChars, chars_ofJson x, membersChars_ofMembers ms]

end

/-! ## Agreement with the reader of texts -/

theorem readUnicode_of_json {cs rest : List Char} {c : Char}
    (h : Json.readUnicode cs = some (c, rest)) : readUnicode cs = some (.scalar c, rest) := by
  unfold Json.readUnicode at h
  unfold readUnicode
  cases hhex : Json.readHex4 cs with
  | none => simp [hhex] at h
  | some r =>
    obtain ⟨hi, tail⟩ := r
    simp only [hhex, Option.bind_eq_bind, Option.bind_some] at h ⊢
    split_ifs at h with hscalar
    · have hhi : ¬ (0xd800 ≤ hi ∧ hi < 0xdc00) := by omega
      have hunit : ¬ (0xd800 ≤ hi ∧ hi < 0xe000) := by omega
      cases h
      rw [if_neg hhi, PyChar.ofUnit, dif_neg hunit]
    · split at h
      · rename_i tail
        cases hlo : Json.readHex4 tail with
        | none => simp [hlo] at h
        | some r =>
          obtain ⟨lo, tail⟩ := r
          simp only [hlo, Option.bind_some] at h
          split_ifs at h with hpair
          simp only [Option.some.injEq, Prod.mk.injEq] at h
          obtain ⟨rfl, rfl⟩ := h
          have hhi : 0xd800 ≤ hi ∧ hi < 0xdc00 := by omega
          rw [if_pos hhi]
          simp [hlo, hpair.2]
      · cases h

theorem readChar_of_json {cs rest : List Char} {c : Char}
    (h : Json.readChar cs = some (c, rest)) : readChar cs = some (.scalar c, rest) := by
  unfold readChar
  split
  · exact readUnicode_of_json h
  · rw [h]
    rfl

theorem readString_of_json {fuel : Nat} {cs rest xs : List Char}
    (h : Json.readBody fuel cs = some (xs, rest)) :
    readString fuel cs = some (.ofChars xs, rest) := by
  induction fuel generalizing cs xs with
  | zero => cases h
  | succ fuel ih =>
    cases cs with
    | nil => cases h
    | cons c cs =>
      unfold Json.readBody at h
      unfold readString
      split_ifs at h ⊢ with hquote
      · cases h
        rfl
      · obtain ⟨⟨x, tail⟩, hchar, h⟩ := Option.bind_eq_some_iff.1 h
        obtain ⟨⟨ys, tail⟩, hbody, h⟩ := Option.bind_eq_some_iff.1 h
        cases h
        simp [readChar_of_json hchar, ih hbody, PyStr.ofChars]

/-- What the reader of texts decodes, this one decodes to the same value. -/
theorem read_of_json (fuel : Nat) :
    (∀ cs v rest, Json.readValue fuel cs = some (v, rest) →
      readValue fuel cs = some (ofJson v, rest)) ∧
    (∀ cs xs rest, Json.readElements fuel cs = some (xs, rest) →
      readElements fuel cs = some (ofElements xs, rest)) ∧
    (∀ cs m rest, Json.readMember fuel cs = some (m, rest) →
      readMember fuel cs = some ((.ofString m.1, ofJson m.2), rest)) ∧
    (∀ cs ms rest, Json.readMembers fuel cs = some (ms, rest) →
      readMembers fuel cs = some (ofMembers ms, rest)) := by
  induction fuel with
  | zero => refine ⟨?_, ?_, ?_, ?_⟩ <;> intro cs v rest h <;> cases h
  | succ fuel ih =>
    obtain ⟨hvalue, helements, hmember, hmembers⟩ := ih
    refine ⟨?_, ?_, ?_, ?_⟩ <;> intro cs v rest h
    · unfold Json.readValue at h
      unfold readValue
      generalize Json.skipSpace cs = ds at h ⊢
      split at h
      · obtain ⟨⟨s, tail⟩, hstring, h⟩ := Option.map_eq_some_iff.1 h
        obtain ⟨⟨xs, tail⟩, hbody, hs⟩ := Option.map_eq_some_iff.1 hstring
        cases hs
        cases h
        simp [readString_of_json hbody, ofJson, PyStr.ofString]
      · rename_i tail
        generalize hes : Json.skipSpace tail = es at h
        split at h
        · cases h
          simp [hes, ofJson, ofElements]
        · obtain ⟨⟨x, tail⟩, hx, h⟩ := Option.bind_eq_some_iff.1 h
          obtain ⟨⟨xs, tail⟩, hxs, h⟩ := Option.bind_eq_some_iff.1 h
          cases h
          simp [hes, hvalue _ _ _ hx, helements _ _ _ hxs, ofJson, ofElements]
      · rename_i tail
        generalize hes : Json.skipSpace tail = es at h
        split at h
        · cases h
          simp [hes, ofJson, ofMembers]
        · obtain ⟨⟨m, tail⟩, hm, h⟩ := Option.bind_eq_some_iff.1 h
          obtain ⟨⟨ms, tail⟩, hms, h⟩ := Option.bind_eq_some_iff.1 h
          cases h
          simp [hes, hmember _ _ _ hm, hmembers _ _ _ hms, ofJson, ofMembers]
      · simp [h]
    · unfold Json.readElements at h
      unfold readElements
      generalize Json.skipSpace cs = ds at h ⊢
      split at h
      · cases h
        rfl
      · obtain ⟨⟨x, tail⟩, hx, h⟩ := Option.bind_eq_some_iff.1 h
        obtain ⟨⟨xs, tail⟩, hxs, h⟩ := Option.bind_eq_some_iff.1 h
        cases h
        simp [hvalue _ _ _ hx, helements _ _ _ hxs, ofElements]
      · cases h
    · unfold Json.readMember at h
      unfold readMember
      generalize Json.skipSpace cs = ds at h ⊢
      split at h
      · obtain ⟨⟨k, tail⟩, hk, h⟩ := Option.bind_eq_some_iff.1 h
        obtain ⟨⟨xs, tail⟩, hbody, hk⟩ := Option.map_eq_some_iff.1 hk
        cases hk
        simp only [readString_of_json hbody, Option.bind_eq_bind, Option.bind_some] at h ⊢
        generalize Json.skipSpace tail = es at h ⊢
        split at h
        · obtain ⟨⟨x, tail⟩, hx, h⟩ := Option.bind_eq_some_iff.1 h
          cases h
          simp [hvalue _ _ _ hx, PyStr.ofString]
        · cases h
      · cases h
    · unfold Json.readMembers at h
      unfold readMembers
      generalize Json.skipSpace cs = ds at h ⊢
      split at h
      · cases h
        rfl
      · obtain ⟨⟨m, tail⟩, hm, h⟩ := Option.bind_eq_some_iff.1 h
        obtain ⟨⟨ms, tail⟩, hms, h⟩ := Option.bind_eq_some_iff.1 h
        cases h
        simp [hmember _ _ _ hm, hmembers _ _ _ hms, ofMembers]
      · cases h

theorem loads_of_json {text : String} {v : Json} (h : Json.loads text = some v) :
    loads text = some (ofJson v) := by
  unfold Json.loads at h
  unfold loads
  split at h
  · rename_i hread
    rw [(read_of_json _).1 _ _ _ hread]
    split_ifs at h with hend
    cases h
    simp [hend]
  · cases h

/-- A value whose strings are texts is read back. -/
theorem loads_chars_ofJson (v : Json) : loads (String.ofList (ofJson v).chars) = some (ofJson v) := by
  rw [chars_ofJson]
  exact loads_of_json (Json.loads_dumps v)

end PyJson
end ParallaxKernel.Lib
