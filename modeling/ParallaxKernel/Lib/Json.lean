import Mathlib.Data.List.TakeWhile
import Mathlib.Data.String.Basic

/-!
# JSON texts

Values, the writer and the reader of Python's `json` module at its defaults: ASCII output, `", "`
and `": "` as separators, the literals `NaN`, `Infinity` and `-Infinity`. A string is a sequence of
Unicode scalar values, so an escaped lone surrogate does not decode. A finite float is its literal.
The main result is that the reader undoes a writer, whatever its layout, in front of any text that
cannot prolong a number; that every text encodes at most one value, and no text is a proper prefix of
another, follow from it.
-/

namespace ParallaxKernel.Lib

/-! ## Number literals -/

/-- The characters that a number literal is made of. -/
def isNumChar (c : Char) : Bool :=
  c.isDigit || c == '-' || c == '+' || c == '.' || c == 'e' || c == 'E'

/-- One or more digits. -/
def isDigits (cs : List Char) : Bool :=
  !cs.isEmpty && cs.all Char.isDigit

/-- Digits without a leading zero. -/
def isNatLit (cs : List Char) : Bool :=
  isDigits cs && (cs == ['0'] || cs.head? != some '0')

/-- `[eE][-+]?\d+`. -/
def isExponent : List Char → Bool
  | c :: cs => (c == 'e' || c == 'E') &&
      match cs with
      | '-' :: ds => isDigits ds
      | '+' :: ds => isDigits ds
      | ds => isDigits ds
  | [] => false

/-- `(\.\d+)?([eE][-+]?\d+)?`, one of the two being there. -/
def isFraction : List Char → Bool
  | '.' :: cs =>
    let ds := cs.takeWhile Char.isDigit
    let tail := cs.dropWhile Char.isDigit
    isDigits ds && (tail.isEmpty || isExponent tail)
  | cs => isExponent cs

/-- A float literal without its sign. -/
def isFloatLit (cs : List Char) : Bool :=
  isNatLit (cs.takeWhile Char.isDigit) && isFraction (cs.dropWhile Char.isDigit)

theorem isFloatLit_zero : isFloatLit "0.0".toList = true := by decide

/-- A finite float, given by the literal that denotes it. -/
structure FloatLit where
  neg : Bool
  digits : List Char
  valid : isFloatLit digits = true
  deriving DecidableEq

def FloatLit.chars (f : FloatLit) : List Char :=
  if f.neg then '-' :: f.digits else f.digits

inductive PyFloat where
  | finite (lit : FloatLit)
  | inf
  | negInf
  | nan
  deriving DecidableEq

/-- A JSON value. The members of an object stand in the order they are written in. -/
inductive Json where
  | null
  | bool (b : Bool)
  | int (n : Int)
  | float (f : PyFloat)
  | str (s : String)
  | arr (xs : List Json)
  | obj (ms : List (String × Json))

namespace Json

/-- `value.get(key)`: of several members with one name the last counts. -/
def member? (key : String) (ms : List (String × Json)) : Option Json :=
  (ms.reverse.find? (·.1 == key)).map (·.2)

/-! ## The writer -/

def hexDigit (n : Nat) : Char := Nat.digitChar (n % 16)

def hex4 (n : Nat) : List Char :=
  [hexDigit (n / 4096), hexDigit (n / 256), hexDigit (n / 16), hexDigit n]

/-- One UTF-16 code unit as an escape sequence. -/
def unitEscape (n : Nat) : List Char := '\\' :: 'u' :: hex4 n

def escapeChar (c : Char) : List Char :=
  if c = '"' then ['\\', '"']
  else if c = '\\' then ['\\', '\\']
  else if c = '\n' then ['\\', 'n']
  else if c = '\r' then ['\\', 'r']
  else if c = '\t' then ['\\', 't']
  else if c = '\x0c' then ['\\', 'f']
  else if c = '\x08' then ['\\', 'b']
  else if 32 ≤ c.toNat ∧ c.toNat ≤ 126 then [c]
  else if c.toNat < 0x10000 then unitEscape c.toNat
  else unitEscape (0xd800 + (c.toNat - 0x10000) / 0x400) ++
    unitEscape (0xdc00 + (c.toNat - 0x10000) % 0x400)

def quote (s : String) : List Char :=
  '"' :: (s.toList.flatMap escapeChar ++ ['"'])

def natChars (n : Nat) : List Char := Nat.toDigits 10 n

def intChars (n : Int) : List Char :=
  if n < 0 then '-' :: natChars n.natAbs else natChars n.natAbs

def floatChars : PyFloat → List Char
  | .finite lit => lit.chars
  | .inf => "Infinity".toList
  | .negInf => "-Infinity".toList
  | .nan => "NaN".toList

mutual

def chars : Json → List Char
  | .null => "null".toList
  | .bool true => "true".toList
  | .bool false => "false".toList
  | .int n => intChars n
  | .float f => floatChars f
  | .str s => quote s
  | .arr [] => ['[', ']']
  | .arr (x :: xs) => '[' :: (chars x ++ elementsChars xs)
  | .obj [] => ['{', '}']
  | .obj ((k, x) :: ms) => '{' :: (quote k ++ ':' :: ' ' :: (chars x ++ membersChars ms))

def elementsChars : List Json → List Char
  | [] => [']']
  | x :: xs => ',' :: ' ' :: (chars x ++ elementsChars xs)

def membersChars : List (String × Json) → List Char
  | [] => ['}']
  | (k, x) :: ms => ',' :: ' ' :: (quote k ++ ':' :: ' ' :: (chars x ++ membersChars ms))

end

/-- `json.dumps(value)`. -/
def dumps (v : Json) : String := String.ofList v.chars

/-! ### Sorted keys -/

def insertMember (m : String × Json) : List (String × Json) → List (String × Json)
  | [] => [m]
  | n :: ms => if n.1 < m.1 then n :: insertMember m ms else m :: n :: ms

mutual

def sortKeys : Json → Json
  | .arr xs => .arr (sortElements xs)
  | .obj ms => .obj (sortMembers ms)
  | v => v

def sortElements : List Json → List Json
  | [] => []
  | x :: xs => sortKeys x :: sortElements xs

def sortMembers : List (String × Json) → List (String × Json)
  | [] => []
  | (k, x) :: ms => insertMember (k, sortKeys x) (sortMembers ms)

end

/-- `json.dumps(value, sort_keys=True)`. -/
def dumpsSorted (v : Json) : String := dumps (sortKeys v)

/-! ## The reader -/

def isSpace (c : Char) : Bool := c == ' ' || c == '\t' || c == '\n' || c == '\r'

def skipSpace (cs : List Char) : List Char := cs.dropWhile isSpace

def hexVal (c : Char) : Option Nat :=
  if c.isDigit then some (c.toNat - 48)
  else if 'a' ≤ c ∧ c ≤ 'f' then some (c.toNat - 87)
  else if 'A' ≤ c ∧ c ≤ 'F' then some (c.toNat - 55)
  else none

/-- The code unit of the four hexadecimal digits at the head. -/
def readHex4 : List Char → Option (Nat × List Char)
  | a :: b :: c :: d :: rest => do
    let a ← hexVal a
    let b ← hexVal b
    let c ← hexVal c
    let d ← hexVal d
    some (4096 * a + 256 * b + 16 * c + d, rest)
  | _ => none

/-- The character of a `\u` escape; a high surrogate takes the escape after it with it. -/
def readUnicode (cs : List Char) : Option (Char × List Char) := do
  let (hi, rest) ← readHex4 cs
  if hi < 0xd800 ∨ 0xdfff < hi then
    some (Char.ofNat hi, rest)
  else match rest with
    | '\\' :: 'u' :: rest => do
      let (lo, rest) ← readHex4 rest
      if hi < 0xdc00 ∧ 0xdc00 ≤ lo ∧ lo ≤ 0xdfff then
        some (Char.ofNat (0x10000 + (hi - 0xd800) * 0x400 + (lo - 0xdc00)), rest)
      else none
    | _ => none

/-- The next character of a string body. -/
def readChar : List Char → Option (Char × List Char)
  | '\\' :: c :: rest =>
    if c = 'u' then readUnicode rest
    else if c = '"' then some ('"', rest)
    else if c = '\\' then some ('\\', rest)
    else if c = '/' then some ('/', rest)
    else if c = 'n' then some ('\n', rest)
    else if c = 'r' then some ('\r', rest)
    else if c = 't' then some ('\t', rest)
    else if c = 'f' then some ('\x0c', rest)
    else if c = 'b' then some ('\x08', rest)
    else none
  | c :: rest => if 32 ≤ c.toNat ∧ c ≠ '\\' then some (c, rest) else none
  | [] => none

/-- A string body up to its closing quote. -/
def readBody : Nat → List Char → Option (List Char × List Char)
  | 0, _ => none
  | _ + 1, [] => none
  | fuel + 1, c :: cs =>
    if c = '"' then some ([], cs)
    else do
      let (x, rest) ← readChar (c :: cs)
      let (xs, rest) ← readBody fuel rest
      some (x :: xs, rest)

def readString (fuel : Nat) (cs : List Char) : Option (String × List Char) :=
  (readBody fuel cs).map fun (xs, rest) => (String.ofList xs, rest)

/-- The value of a whole number literal. -/
def classify (cs : List Char) : Option Json :=
  let neg := cs.head? == some '-'
  let digits := if neg then cs.tail else cs
  if isNatLit digits then
    let n : Int := Nat.ofDigitChars 10 digits 0
    some (.int (if neg then -n else n))
  else if h : isFloatLit digits = true then
    some (.float (.finite ⟨neg, digits, h⟩))
  else none

def keywords : List (List Char × Json) :=
  [("null".toList, .null), ("true".toList, .bool true), ("false".toList, .bool false),
    ("NaN".toList, .float .nan), ("Infinity".toList, .float .inf),
    ("-Infinity".toList, .float .negInf)]

/-- A literal that is not a string. -/
def readAtom (cs : List Char) : Option (Json × List Char) :=
  match keywords.findSome? (fun kw => (kw.1.isPrefixOf? cs).map (kw.2, ·)) with
  | some r => some r
  | none => (classify (cs.takeWhile isNumChar)).map (·, cs.dropWhile isNumChar)

mutual

def readValue : Nat → List Char → Option (Json × List Char)
  | 0, _ => none
  | fuel + 1, cs =>
    match skipSpace cs with
    | '"' :: rest => (readString (fuel + 1) rest).map fun (s, rest) => (.str s, rest)
    | '[' :: rest =>
      match skipSpace rest with
      | ']' :: rest => some (.arr [], rest)
      | rest => do
        let (x, rest) ← readValue fuel rest
        let (xs, rest) ← readElements fuel rest
        some (.arr (x :: xs), rest)
    | '{' :: rest =>
      match skipSpace rest with
      | '}' :: rest => some (.obj [], rest)
      | rest => do
        let (m, rest) ← readMember fuel rest
        let (ms, rest) ← readMembers fuel rest
        some (.obj (m :: ms), rest)
    | rest => readAtom rest

def readElements : Nat → List Char → Option (List Json × List Char)
  | 0, _ => none
  | fuel + 1, cs =>
    match skipSpace cs with
    | ']' :: rest => some ([], rest)
    | ',' :: rest => do
      let (x, rest) ← readValue fuel rest
      let (xs, rest) ← readElements fuel rest
      some (x :: xs, rest)
    | _ => none

def readMember : Nat → List Char → Option ((String × Json) × List Char)
  | 0, _ => none
  | fuel + 1, cs =>
    match skipSpace cs with
    | '"' :: rest => do
      let (k, rest) ← readString (fuel + 1) rest
      match skipSpace rest with
      | ':' :: rest => do
        let (x, rest) ← readValue fuel rest
        some ((k, x), rest)
      | _ => none
    | _ => none

def readMembers : Nat → List Char → Option (List (String × Json) × List Char)
  | 0, _ => none
  | fuel + 1, cs =>
    match skipSpace cs with
    | '}' :: rest => some ([], rest)
    | ',' :: rest => do
      let (m, rest) ← readMember fuel rest
      let (ms, rest) ← readMembers fuel rest
      some (m :: ms, rest)
    | _ => none

end

/-- `json.loads(text)`; `none` where it raises `JSONDecodeError`. -/
def loads (text : String) : Option Json :=
  match readValue (text.toList.length + 1) text.toList with
  | some (v, rest) => if skipSpace rest = [] then some v else none
  | none => none

/-! ## The reader undoes the writer -/

/-! ### Strings -/

theorem hexVal_hexDigit (n : Nat) : hexVal (hexDigit n) = some (n % 16) := by
  have h : ∀ m < 16, hexVal (Nat.digitChar m) = some m := by decide
  exact h _ (Nat.mod_lt _ (by omega))

theorem readHex4_hex4 {n : Nat} (hn : n < 0x10000) (rest : List Char) :
    readHex4 (hex4 n ++ rest) = some (n, rest) := by
  have h : 4096 * (n / 4096 % 16) + 256 * (n / 256 % 16) + 16 * (n / 16 % 16) + n % 16 = n := by
    omega
  simp [hex4, readHex4, hexVal_hexDigit, h]

theorem readUnicode_basic {c : Char} (hc : c.toNat < 0x10000) (rest : List Char) :
    readUnicode (hex4 c.toNat ++ rest) = some (c, rest) := by
  have hvalid : c.toNat < 0xd800 ∨ 0xdfff < c.toNat ∧ c.toNat < 0x110000 := c.valid
  have hs : c.toNat < 0xd800 ∨ 0xdfff < c.toNat := by omega
  unfold readUnicode
  rw [readHex4_hex4 hc]
  simp only [Option.bind_eq_bind, Option.bind_some, if_pos hs, Char.ofNat_toNat]

theorem readUnicode_surrogates {hi lo : Nat} (hhi : 0xd800 ≤ hi ∧ hi < 0xdc00)
    (hlo : 0xdc00 ≤ lo ∧ lo ≤ 0xdfff) (rest : List Char) :
    readUnicode (hex4 hi ++ (unitEscape lo ++ rest)) =
      some (Char.ofNat (0x10000 + (hi - 0xd800) * 0x400 + (lo - 0xdc00)), rest) := by
  have hsur : ¬ (hi < 0xd800 ∨ 0xdfff < hi) := by omega
  have hpair : hi < 0xdc00 ∧ 0xdc00 ≤ lo ∧ lo ≤ 0xdfff := by omega
  unfold readUnicode
  rw [readHex4_hex4 (by omega)]
  simp only [Option.bind_eq_bind, Option.bind_some, if_neg hsur, unitEscape, List.cons_append]
  rw [readHex4_hex4 (by omega)]
  simp only [Option.bind_some, if_pos hpair]

theorem readUnicode_pair {c : Char} (hc : ¬ c.toNat < 0x10000) (rest : List Char) :
    readUnicode (hex4 (0xd800 + (c.toNat - 0x10000) / 0x400) ++
      (unitEscape (0xdc00 + (c.toNat - 0x10000) % 0x400) ++ rest)) = some (c, rest) := by
  have hvalid : c.toNat < 0xd800 ∨ 0xdfff < c.toNat ∧ c.toNat < 0x110000 := c.valid
  have hval : 0x10000 + (0xd800 + (c.toNat - 0x10000) / 0x400 - 0xd800) * 0x400 +
      (0xdc00 + (c.toNat - 0x10000) % 0x400 - 0xdc00) = c.toNat := by omega
  rw [readUnicode_surrogates (by omega) (by omega), hval, Char.ofNat_toNat]

theorem readChar_escapeChar (c : Char) (rest : List Char) :
    readChar (escapeChar c ++ rest) = some (c, rest) := by
  unfold escapeChar
  split_ifs with h1 h2 h3 h4 h5 h6 h7 h8 h9
  all_goals try subst_vars; rfl
  · simp [readChar, h2, h8.1]
  · simp [unitEscape, readChar, readUnicode_basic h9]
  · simpa [unitEscape, readChar] using readUnicode_pair h9 rest

theorem escapeChar_ne_nil (c : Char) : escapeChar c ≠ [] := by
  unfold escapeChar unitEscape
  split_ifs <;> simp

theorem head_escapeChar (c : Char) : ∃ x t, escapeChar c = x :: t ∧ x ≠ '"' := by
  unfold escapeChar unitEscape
  split_ifs <;> simp_all

/-- How a text is laid out: how a character of a string is written, and the blanks behind a comma
and a colon. -/
structure Layout where
  escape : Char → List Char
  gap : List Char
  readChar_escape (c : Char) (rest : List Char) : readChar (escape c ++ rest) = some (c, rest)
  head_escape (c : Char) : ∃ x t, escape c = x :: t ∧ x ≠ '"'
  skipSpace_gap (cs : List Char) : skipSpace (gap ++ cs) = skipSpace cs

namespace Layout

variable (L : Layout)

def quote (s : String) : List Char := '"' :: (s.toList.flatMap L.escape ++ ['"'])

theorem readBody_body (cs rest : List Char) (fuel : Nat)
    (hfuel : (cs.flatMap L.escape).length < fuel) :
    readBody fuel (cs.flatMap L.escape ++ '"' :: rest) = some (cs, rest) := by
  induction cs generalizing fuel with
  | nil => cases fuel with
    | zero => simp at hfuel
    | succ fuel => simp [readBody]
  | cons c cs ih =>
    obtain ⟨x, t, hx, hne⟩ := L.head_escape c
    cases fuel with
    | zero => simp at hfuel
    | succ fuel =>
      have hread := L.readChar_escape c (cs.flatMap L.escape ++ '"' :: rest)
      have hlen : (cs.flatMap L.escape).length < fuel := by
        simp [List.flatMap_cons, hx] at hfuel ⊢
        omega
      simp only [List.flatMap_cons, List.append_assoc, hx, List.cons_append] at hread ⊢
      simp [readBody, hne, hread, ih fuel hlen]

theorem readString_quote (s : String) (rest : List Char) (fuel : Nat)
    (hfuel : (L.quote s).length ≤ fuel + 1) :
    readString fuel (s.toList.flatMap L.escape ++ '"' :: rest) = some (s, rest) := by
  have h := L.readBody_body s.toList rest fuel (by simp [quote] at hfuel ⊢; omega)
  simp [readString, h]

end Layout

/-! ### Numbers -/

theorem natChars_all_digits (n : Nat) : ∀ c ∈ natChars n, c.isDigit = true :=
  fun _ hc => Nat.isDigit_of_mem_toDigits (by omega) (by omega) hc

theorem isDigits_natChars (n : Nat) : isDigits (natChars n) = true := by
  have hne : natChars n ≠ [] := Nat.toDigits_ne_nil
  simpa [isDigits, hne] using natChars_all_digits n

theorem head_natChars {n : Nat} (hn : 0 < n) : (natChars n).head? ≠ some '0' := by
  induction n using Nat.strongRecOn with
  | ind n ih =>
    rcases Nat.lt_or_ge n 10 with hlt | hge
    · simp [natChars, Nat.toDigits_of_lt_base hlt]
      omega
    · have hrec := ih (n / 10) (by omega) (by omega)
      obtain ⟨c, cs, hcs⟩ := List.exists_cons_of_ne_nil
        (Nat.toDigits_ne_nil (n := n / 10) (b := 10))
      simp only [natChars, Nat.toDigits_of_base_le (by omega) hge, hcs, List.cons_append,
        List.head?_cons] at hrec ⊢
      exact hrec

theorem isNatLit_natChars (n : Nat) : isNatLit (natChars n) = true := by
  rcases Nat.eq_zero_or_pos n with rfl | hn
  · decide
  · simpa [isNatLit, isDigits_natChars] using Or.inr (head_natChars hn)

theorem head_digit_of_isDigits {cs : List Char} (h : isDigits cs = true) :
    ∃ c t, cs = c :: t ∧ c.isDigit = true := by
  cases cs with
  | nil => simp [isDigits] at h
  | cons c t =>
    simp only [isDigits, List.isEmpty_cons, Bool.not_false, List.all_cons, Bool.true_and,
      Bool.and_eq_true] at h
    exact ⟨c, t, rfl, h.1⟩

theorem not_isNatLit_of_isFloatLit {cs : List Char} (h : isFloatLit cs = true) :
    isNatLit cs = false := by
  cases hnat : isNatLit cs with
  | false => rfl
  | true =>
    have hall : ∀ c ∈ cs, c.isDigit = true := by simp_all [isNatLit, isDigits]
    simp [isFloatLit, List.dropWhile_eq_nil_iff.2 hall, isFraction, isExponent] at h

theorem isNumChar_of_isDigit {c : Char} (h : c.isDigit = true) : isNumChar c = true := by
  simp [isNumChar, h]

theorem isNumChar_of_isDigits {cs : List Char} (h : isDigits cs = true) :
    ∀ c ∈ cs, isNumChar c = true := by
  simp only [isDigits, Bool.and_eq_true, List.all_eq_true] at h
  exact fun c hc => isNumChar_of_isDigit (h.2 c hc)

theorem isNumChar_of_isExponent {cs : List Char} (h : isExponent cs = true) :
    ∀ c ∈ cs, isNumChar c = true := by
  cases cs with
  | nil => simp
  | cons e t =>
    simp only [isExponent, Bool.and_eq_true, Bool.or_eq_true, beq_iff_eq] at h
    obtain ⟨he, ht⟩ := h
    have he' : isNumChar e = true := by rcases he with rfl | rfl <;> decide
    intro c hc
    rcases List.mem_cons.1 hc with rfl | hc
    · exact he'
    · split at ht
      · rcases List.mem_cons.1 hc with rfl | hc
        · decide
        · exact isNumChar_of_isDigits ht c hc
      · rcases List.mem_cons.1 hc with rfl | hc
        · decide
        · exact isNumChar_of_isDigits ht c hc
      · exact isNumChar_of_isDigits ht c hc

theorem isNumChar_of_isFraction {cs : List Char} (h : isFraction cs = true) :
    ∀ c ∈ cs, isNumChar c = true := by
  unfold isFraction at h
  split at h
  · rename_i cs
    simp only [Bool.and_eq_true, Bool.or_eq_true, List.isEmpty_iff] at h
    intro c hc
    rcases List.mem_cons.1 hc with rfl | hc
    · decide
    · rw [← List.takeWhile_append_dropWhile (p := Char.isDigit) (l := cs)] at hc
      rcases List.mem_append.1 hc with hc | hc
      · exact isNumChar_of_isDigits h.1 c hc
      · rcases h.2 with hnil | hexp
        · simp [hnil] at hc
        · exact isNumChar_of_isExponent hexp c hc
  · exact isNumChar_of_isExponent h

theorem isNumChar_of_isFloatLit {cs : List Char} (h : isFloatLit cs = true) :
    ∀ c ∈ cs, isNumChar c = true := by
  simp only [isFloatLit, Bool.and_eq_true] at h
  intro c hc
  rw [← List.takeWhile_append_dropWhile (p := Char.isDigit) (l := cs)] at hc
  rcases List.mem_append.1 hc with hc | hc
  · exact isNumChar_of_isDigit (List.mem_takeWhile_imp hc)
  · exact isNumChar_of_isFraction h.2 c hc

theorem head_digit_of_isFloatLit {cs : List Char} (h : isFloatLit cs = true) :
    ∃ c t, cs = c :: t ∧ c.isDigit = true := by
  cases cs with
  | nil => simp [isFloatLit, isNatLit, isDigits] at h
  | cons c t =>
    refine ⟨c, t, rfl, ?_⟩
    by_contra hc
    simp [isFloatLit, isNatLit, isDigits, hc] at h

/-- A text that cannot prolong a number. -/
def NumEnds (rest : List Char) : Prop := ∀ c ∈ rest.head?, isNumChar c = false

theorem takeWhile_isNumChar {cs rest : List Char} (h : ∀ c ∈ cs, isNumChar c = true)
    (hrest : NumEnds rest) : (cs ++ rest).takeWhile isNumChar = cs := by
  rw [List.takeWhile_append_of_pos h]
  cases rest with
  | nil => simp
  | cons c t => simp [hrest c rfl]

theorem dropWhile_isNumChar {cs rest : List Char} (h : ∀ c ∈ cs, isNumChar c = true)
    (hrest : NumEnds rest) : (cs ++ rest).dropWhile isNumChar = rest := by
  rw [List.dropWhile_append_of_pos h]
  cases rest with
  | nil => simp
  | cons c t => simp [hrest c rfl]

/-- A digit, or a sign and a digit, starts none of the keywords. -/
theorem keywords_number (neg : Bool) {c : Char} (t : List Char) (hc : c.isDigit = true) :
    keywords.findSome? (fun kw => (kw.1.isPrefixOf?
      (if neg then '-' :: c :: t else c :: t)).map (kw.2, ·)) = none := by
  have hne : ∀ k : Char, k.isDigit = false → (k == c) = false := by
    intro k hk
    simp only [beq_eq_false_iff_ne]
    rintro rfl
    simp [hk] at hc
  cases neg <;>
    simp [keywords, List.isPrefixOf?, hne 'n' (by decide), hne 't' (by decide),
      hne 'f' (by decide), hne 'N' (by decide), hne 'I' (by decide), hne '-' (by decide)]

theorem readAtom_number (neg : Bool) {digits rest : List Char} {v : Json}
    (hhead : ∃ c t, digits = c :: t ∧ c.isDigit = true)
    (hnum : ∀ c ∈ digits, isNumChar c = true) (hrest : NumEnds rest)
    (hv : classify (if neg then '-' :: digits else digits) = some v) :
    readAtom ((if neg then '-' :: digits else digits) ++ rest) = some (v, rest) := by
  obtain ⟨c, t, rfl, hc⟩ := hhead
  have hall : ∀ x ∈ (if neg then '-' :: c :: t else c :: t), isNumChar x = true := by
    intro x hx
    cases neg with
    | false => exact hnum x hx
    | true =>
      rcases List.mem_cons.1 hx with rfl | hx
      · decide
      · exact hnum x hx
  have hkw := keywords_number neg (t ++ rest) hc
  have happ : (if neg then '-' :: c :: t else c :: t) ++ rest =
      if neg then '-' :: c :: (t ++ rest) else c :: (t ++ rest) := by cases neg <;> rfl
  unfold readAtom
  rw [takeWhile_isNumChar hall hrest, dropWhile_isNumChar hall hrest, hv, happ, hkw]
  rfl

theorem classify_neg (digits : List Char) : classify ('-' :: digits) =
    if isNatLit digits then some (.int (-(Nat.ofDigitChars 10 digits 0 : Nat)))
    else if h : isFloatLit digits = true then some (.float (.finite ⟨true, digits, h⟩))
    else none := by
  simp [classify]

theorem classify_pos {digits : List Char} (h : ∃ c t, digits = c :: t ∧ c.isDigit = true) :
    classify digits =
      if isNatLit digits then some (.int (Nat.ofDigitChars 10 digits 0 : Nat))
      else if h : isFloatLit digits = true then some (.float (.finite ⟨false, digits, h⟩))
      else none := by
  obtain ⟨c, t, rfl, hc⟩ := h
  have hneg : (c == '-') = false := by
    rw [beq_eq_false_iff_ne]
    rintro rfl
    simp at hc
  simp [classify, hneg]

theorem readAtom_int (n : Int) {rest : List Char} (hrest : NumEnds rest) :
    readAtom (intChars n ++ rest) = some (.int n, rest) := by
  have hchars : intChars n = if decide (n < 0) then '-' :: natChars n.natAbs
      else natChars n.natAbs := by simp [intChars]
  have hhead := head_digit_of_isDigits (isDigits_natChars n.natAbs)
  rw [hchars]
  refine readAtom_number _ hhead (isNumChar_of_isDigits (isDigits_natChars _)) hrest ?_
  have habs : (Nat.ofDigitChars 10 (natChars n.natAbs) 0 : Nat) = n.natAbs :=
    Nat.ofDigitChars_ten_toDigits
  by_cases hn : n < 0
  · have hval : -(n.natAbs : Int) = n := by omega
    simp only [hn, decide_true, if_true, classify_neg, isNatLit_natChars, habs, hval]
  · have hval : (n.natAbs : Int) = n := by omega
    simp only [hn, decide_false, Bool.false_eq_true, if_false, classify_pos hhead,
      isNatLit_natChars, if_true, habs, hval]

theorem readAtom_float (f : PyFloat) {rest : List Char} (hrest : NumEnds rest) :
    readAtom (floatChars f ++ rest) = some (.float f, rest) := by
  cases f with
  | finite lit =>
    obtain ⟨neg, digits, hvalid⟩ := lit
    have hhead := head_digit_of_isFloatLit hvalid
    refine readAtom_number neg hhead (isNumChar_of_isFloatLit hvalid) hrest ?_
    cases neg with
    | true => simp [classify_neg, not_isNatLit_of_isFloatLit hvalid, hvalid]
    | false => simp [classify_pos hhead, not_isNatLit_of_isFloatLit hvalid, hvalid]
  | inf => rfl
  | negInf => rfl
  | nan => rfl

/-- `float(n)`, for an integer that a float holds exactly. -/
def ofInt (n : Int) : PyFloat :=
  .finite
    { neg := decide (n < 0)
      digits := natChars n.natAbs ++ ['.', '0']
      valid := by
        have hall := natChars_all_digits n.natAbs
        have hlit := isNatLit_natChars n.natAbs
        simp [isFloatLit, List.takeWhile_append_of_pos hall, List.dropWhile_append_of_pos hall,
          hlit, isFraction, isDigits] }

/-- `bool(value)`. -/
def truthy : Json → Bool
  | .null => false
  | .bool b => b
  | .int n => n ≠ 0
  | .float (.finite lit) =>
    (lit.digits.takeWhile fun c => c ≠ 'e' ∧ c ≠ 'E').any fun c => c.isDigit && c ≠ '0'
  | .float _ => true
  | .str s => s ≠ ""
  | .arr xs => !xs.isEmpty
  | .obj ms => !ms.isEmpty

/-! ### Values -/

/-- The first character of a written value. -/
structure Starts (c : Char) : Prop where
  notSpace : isSpace c = false
  notClose : c ≠ ']'

theorem starts_of_isDigit {c : Char} (h : c.isDigit = true) : Starts c := by
  constructor
  · by_contra hs
    simp only [isSpace, Bool.not_eq_false, Bool.or_eq_true, beq_iff_eq] at hs
    rcases hs with ((rfl | rfl) | rfl) | rfl <;> simp at h
  · rintro rfl
    simp at h

theorem numChars_head (neg : Bool) {digits : List Char}
    (h : ∃ c t, digits = c :: t ∧ c.isDigit = true) :
    ∃ c t, (if neg then '-' :: digits else digits) = c :: t ∧ Starts c ∧
      c ≠ '"' ∧ c ≠ '[' ∧ c ≠ '\x7b' := by
  obtain ⟨c, t, rfl, hc⟩ := h
  cases neg with
  | true => exact ⟨'-', c :: t, rfl, ⟨by decide, by decide⟩, by decide⟩
  | false =>
    refine ⟨c, t, rfl, starts_of_isDigit hc, ?_, ?_, ?_⟩ <;>
      · rintro rfl
        simp at hc

theorem intChars_head (n : Int) :
    ∃ c t, intChars n = c :: t ∧ Starts c ∧ c ≠ '"' ∧ c ≠ '[' ∧ c ≠ '\x7b' := by
  simpa [intChars] using
    numChars_head (decide (n < 0)) (head_digit_of_isDigits (isDigits_natChars n.natAbs))

theorem floatChars_head (f : PyFloat) :
    ∃ c t, floatChars f = c :: t ∧ Starts c ∧ c ≠ '"' ∧ c ≠ '[' ∧ c ≠ '\x7b' := by
  cases f with
  | finite lit => exact numChars_head lit.neg (head_digit_of_isFloatLit lit.valid)
  | inf => exact ⟨'I', "nfinity".toList, rfl, ⟨by decide, by decide⟩, by decide⟩
  | negInf => exact ⟨'-', "Infinity".toList, rfl, ⟨by decide, by decide⟩, by decide⟩
  | nan => exact ⟨'N', "aN".toList, rfl, ⟨by decide, by decide⟩, by decide⟩

theorem skipSpace_cons {c : Char} {t : List Char} (h : isSpace c = false) :
    skipSpace (c :: t) = c :: t := by
  simp [skipSpace, h]

theorem readValue_atom (fuel : Nat) {c : Char} {t : List Char} (hs : isSpace c = false)
    (h : c ≠ '"' ∧ c ≠ '[' ∧ c ≠ '\x7b') : readValue (fuel + 1) (c :: t) = readAtom (c :: t) := by
  obtain ⟨hquote, hbracket, hbrace⟩ := h
  rw [readValue, skipSpace_cons hs]
  split <;> simp_all

def isNumber : Json → Bool
  | .int _ | .float _ => true
  | _ => false

theorem numEnds_cons {c : Char} (h : isNumChar c = false) (t : List Char) : NumEnds (c :: t) := by
  intro x hx
  obtain rfl : c = x := by simpa using hx
  exact h

namespace Layout

variable (L : Layout)

mutual

def chars : Json → List Char
  | .null => "null".toList
  | .bool true => "true".toList
  | .bool false => "false".toList
  | .int n => intChars n
  | .float f => floatChars f
  | .str s => L.quote s
  | .arr [] => ['[', ']']
  | .arr (x :: xs) => '[' :: (chars x ++ elementsChars xs)
  | .obj [] => ['{', '}']
  | .obj ((k, x) :: ms) => '{' :: (L.quote k ++ ':' :: (L.gap ++ (chars x ++ membersChars ms)))

def elementsChars : List Json → List Char
  | [] => [']']
  | x :: xs => ',' :: (L.gap ++ (chars x ++ elementsChars xs))

def membersChars : List (String × Json) → List Char
  | [] => ['}']
  | (k, x) :: ms =>
    ',' :: (L.gap ++ (L.quote k ++ ':' :: (L.gap ++ (chars x ++ membersChars ms))))

end

theorem chars_head (v : Json) : ∃ c t, L.chars v = c :: t ∧ Starts c := by
  cases v with
  | null => exact ⟨'n', "ull".toList, rfl, by decide, by decide⟩
  | bool b =>
    cases b with
    | true => exact ⟨'t', "rue".toList, rfl, by decide, by decide⟩
    | false => exact ⟨'f', "alse".toList, rfl, by decide, by decide⟩
  | int n =>
    obtain ⟨c, t, h, hs, -⟩ := intChars_head n
    exact ⟨c, t, by rw [chars, h], hs⟩
  | float f =>
    obtain ⟨c, t, h, hs, -⟩ := floatChars_head f
    exact ⟨c, t, by rw [chars, h], hs⟩
  | str s => exact ⟨_, _, by rw [chars, quote], by decide, by decide⟩
  | arr xs => cases xs <;> exact ⟨_, _, by rw [chars], by decide, by decide⟩
  | obj ms => cases ms <;> exact ⟨_, _, by rw [chars], by decide, by decide⟩

@[simp] theorem readValue_gap (fuel : Nat) (cs : List Char) :
    readValue fuel (L.gap ++ cs) = readValue fuel cs := by
  cases fuel <;> simp [readValue, L.skipSpace_gap]

@[simp] theorem readMember_gap (fuel : Nat) (cs : List Char) :
    readMember fuel (L.gap ++ cs) = readMember fuel cs := by
  cases fuel <;> simp [readMember, L.skipSpace_gap]

theorem numEnds_elementsChars (xs : List Json) (rest : List Char) :
    NumEnds (L.elementsChars xs ++ rest) := by
  cases xs <;> exact numEnds_cons (by decide) _

theorem numEnds_membersChars (ms : List (String × Json)) (rest : List Char) :
    NumEnds (L.membersChars ms ++ rest) := by
  cases ms <;> exact numEnds_cons (by decide) _

theorem readMember_chars {k : String} {x : Json} {rest : List Char} {fuel : Nat}
    (hfuel : (L.quote k).length < fuel + 1)
    (hx : readValue fuel (L.chars x ++ rest) = some (x, rest)) :
    readMember (fuel + 1) (L.quote k ++ ':' :: (L.gap ++ (L.chars x ++ rest))) =
      some ((k, x), rest) := by
  have hk := L.readString_quote k (':' :: (L.gap ++ (L.chars x ++ rest))) (fuel + 1) (by omega)
  have hcolon : skipSpace (':' :: (L.gap ++ (L.chars x ++ rest))) =
    ':' :: (L.gap ++ (L.chars x ++ rest)) := skipSpace_cons (by decide)
  simp only [quote, List.cons_append, List.append_assoc, List.nil_append]
  rw [readMember, skipSpace_cons (by decide)]
  simp [hk, hcolon, hx]

mutual

/-- The reader undoes the writer, whatever follows the text, unless it prolongs a number. -/
theorem readValue_chars (v : Json) (rest : List Char) (fuel : Nat)
    (hfuel : (L.chars v).length < fuel) (hnum : isNumber v = true → NumEnds rest) :
    readValue fuel (L.chars v ++ rest) = some (v, rest) := by
  obtain ⟨fuel, rfl⟩ : ∃ k, fuel = k + 1 := ⟨fuel - 1, by omega⟩
  cases v with
  | null => rfl
  | bool b => cases b <;> rfl
  | int n =>
    obtain ⟨c, t, hc, hs, hne⟩ := intChars_head n
    rw [chars, hc, List.cons_append, readValue_atom fuel hs.notSpace hne, ← List.cons_append,
      ← hc, readAtom_int n (hnum rfl)]
  | float f =>
    obtain ⟨c, t, hc, hs, hne⟩ := floatChars_head f
    rw [chars, hc, List.cons_append, readValue_atom fuel hs.notSpace hne, ← List.cons_append,
      ← hc, readAtom_float f (hnum rfl)]
  | str s =>
    have h := L.readString_quote s rest (fuel + 1) (by simp only [chars] at hfuel; omega)
    simp only [chars, quote, List.cons_append, List.append_assoc, List.nil_append]
    rw [readValue, skipSpace_cons (by decide)]
    simp [h]
  | arr xs =>
    cases xs with
    | nil => rfl
    | cons x xs =>
      obtain ⟨c, t, hc, hs⟩ := L.chars_head x
      simp only [chars, List.length_cons, List.length_append] at hfuel
      have hx := readValue_chars x (L.elementsChars xs ++ rest) fuel (by omega)
        fun _ => L.numEnds_elementsChars xs rest
      have hxs := readElements_chars xs rest fuel (by omega)
      simp only [chars, List.cons_append, List.append_assoc]
      rw [readValue, skipSpace_cons (by decide)]
      rw [hc, List.cons_append] at hx ⊢
      simp only [skipSpace_cons hs.notSpace]
      split
      · rename_i heq
        exact absurd (List.cons.inj heq).1 hs.notClose
      · simp [hx, hxs]
  | obj ms =>
    cases ms with
    | nil => rfl
    | cons m ms =>
      obtain ⟨k, x⟩ := m
      simp only [chars, List.length_cons, List.length_append] at hfuel
      obtain ⟨fuel, rfl⟩ : ∃ k, fuel = k + 1 := ⟨fuel - 1, by omega⟩
      have hx := readValue_chars x (L.membersChars ms ++ rest) fuel (by omega)
        fun _ => L.numEnds_membersChars ms rest
      have hm := L.readMember_chars (k := k) (by omega) hx
      have hms := readMembers_chars ms rest (fuel + 1) (by omega)
      simp only [chars, List.cons_append, List.append_assoc]
      rw [readValue, skipSpace_cons (by decide)]
      simp only [quote, List.cons_append, List.append_assoc, List.nil_append] at hm ⊢
      simp [skipSpace_cons (show isSpace '"' = false by decide), hm, hms]
termination_by structural v

theorem readElements_chars (xs : List Json) (rest : List Char) (fuel : Nat)
    (hfuel : (L.elementsChars xs).length < fuel) :
    readElements fuel (L.elementsChars xs ++ rest) = some (xs, rest) := by
  obtain ⟨fuel, rfl⟩ : ∃ k, fuel = k + 1 := ⟨fuel - 1, by omega⟩
  cases xs with
  | nil => rfl
  | cons x xs =>
    simp only [elementsChars, List.length_cons, List.length_append] at hfuel
    have hx := readValue_chars x (L.elementsChars xs ++ rest) fuel (by omega)
      fun _ => L.numEnds_elementsChars xs rest
    have hxs := readElements_chars xs rest fuel (by omega)
    simp only [elementsChars, List.cons_append, List.append_assoc]
    rw [readElements, skipSpace_cons (by decide)]
    simp [hx, hxs]
termination_by structural xs

theorem readMembers_chars (ms : List (String × Json)) (rest : List Char) (fuel : Nat)
    (hfuel : (L.membersChars ms).length < fuel) :
    readMembers fuel (L.membersChars ms ++ rest) = some (ms, rest) := by
  obtain ⟨fuel, rfl⟩ : ∃ k, fuel = k + 1 := ⟨fuel - 1, by omega⟩
  cases ms with
  | nil => rfl
  | cons m ms =>
    obtain ⟨k, x⟩ := m
    simp only [membersChars, List.length_cons, List.length_append] at hfuel
    obtain ⟨fuel, rfl⟩ : ∃ k, fuel = k + 1 := ⟨fuel - 1, by omega⟩
    have hx := readValue_chars x (L.membersChars ms ++ rest) fuel (by omega)
      fun _ => L.numEnds_membersChars ms rest
    have hm := L.readMember_chars (k := k) (by omega) hx
    have hms := readMembers_chars ms rest (fuel + 1) (by omega)
    simp only [membersChars, List.cons_append, List.append_assoc]
    rw [readMembers, skipSpace_cons (by decide)]
    simp [hm, hms]
termination_by structural ms

end

/-- What a layout wrote reads as what was written. -/
theorem loads_chars (v : Json) : loads (String.ofList (L.chars v)) = some v := by
  have h := L.readValue_chars v [] ((L.chars v).length + 1) (by omega) fun _ => by simp [NumEnds]
  simp only [List.append_nil] at h
  simp [loads, h, skipSpace]

/-- A written value that is not a number ends where the text does not say so: no other value's
text extends it. -/
theorem chars_append_inj {v w : Json} {r s : List Char} (h : L.chars v ++ r = L.chars w ++ s)
    (hv : isNumber v = true → NumEnds r) (hw : isNumber w = true → NumEnds s) :
    v = w ∧ r = s := by
  have hl := L.readValue_chars v r ((L.chars v).length + (L.chars w).length + 1) (by omega) hv
  have hr := L.readValue_chars w s ((L.chars v).length + (L.chars w).length + 1) (by omega) hw
  rw [h, hr] at hl
  simpa [eq_comm] using hl

end Layout

/-! ### The default layout -/

@[simp] theorem skipSpace_blank (cs : List Char) : skipSpace (' ' :: cs) = skipSpace cs := by
  simp [skipSpace, isSpace]

def ascii : Layout where
  escape := escapeChar
  gap := [' ']
  readChar_escape := readChar_escapeChar
  head_escape := head_escapeChar
  skipSpace_gap := skipSpace_blank

mutual

theorem ascii_chars (v : Json) : ascii.chars v = v.chars := by
  cases v with
  | arr xs =>
    cases xs with
    | nil => rfl
    | cons x xs => simp [Layout.chars, chars, ascii_chars x, ascii_elementsChars xs]
  | obj ms =>
    cases ms with
    | nil => rfl
    | cons m ms =>
      obtain ⟨k, x⟩ := m
      simp [Layout.chars, chars, ascii_chars x, ascii_membersChars ms]
      rfl
  | bool b => cases b <;> rfl
  | _ => rfl
termination_by structural v

theorem ascii_elementsChars (xs : List Json) : ascii.elementsChars xs = elementsChars xs := by
  cases xs with
  | nil => rfl
  | cons x xs =>
    rw [Layout.elementsChars, elementsChars, ascii_chars x, ascii_elementsChars xs]
    rfl
termination_by structural xs

theorem ascii_membersChars (ms : List (String × Json)) :
    ascii.membersChars ms = membersChars ms := by
  cases ms with
  | nil => rfl
  | cons m ms =>
    obtain ⟨k, x⟩ := m
    rw [Layout.membersChars, membersChars, ascii_chars x, ascii_membersChars ms]
    rfl
termination_by structural ms

end

/-- `json.loads(json.dumps(v)) == v`. -/
@[simp] theorem loads_dumps (v : Json) : loads (dumps v) = some v := by
  rw [dumps, ← ascii_chars]
  exact ascii.loads_chars v

example : dumps (.obj [("a", .arr [.int (-12), .null]), ("b", .str "é")]) =
    "\x7b\"a\": [-12, null], \"b\": \"\\u00e9\"\x7d" := by decide

theorem dumps_injective : Function.Injective dumps := by
  intro v w h
  simpa using congrArg loads h

theorem chars_append_inj {v w : Json} {r s : List Char} (h : chars v ++ r = chars w ++ s)
    (hv : isNumber v = true → NumEnds r) (hw : isNumber w = true → NumEnds s) :
    v = w ∧ r = s :=
  ascii.chars_append_inj (by rwa [ascii_chars, ascii_chars]) hv hw

end Json
end ParallaxKernel.Lib
