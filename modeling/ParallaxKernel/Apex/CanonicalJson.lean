import Mathlib.Data.String.Basic
import ParallaxKernel.Lib.Act
import ParallaxKernel.Lib.JsonPlain
import ParallaxKernel.Store.Hashing

/-!
# Canonical JSON

`apex/canonical_json.py`: keys sorted, no white space, UTF-8 with keys and texts in NFC, no
infinities and no NaN. The canonical text of an object does not depend on the order of its members.
-/

namespace ParallaxKernel.Apex

open Lib Store

/-- 64 lowercase hexadecimal digits. -/
def isSha256Hex (s : String) : Bool :=
  s.length = 64 && s.toList.all fun c => c.isDigit || ('a' ≤ c && c ≤ 'f')

def isAscii (s : String) : Bool := s.toList.all fun c => c.toNat < 128

/-- The library functions with what they promise: ASCII is in NFC, and a digest is hexadecimal. -/
structure HexDigest extends Digest where
  nfc_ascii (s : String) (h : isAscii s = true) : nfc s = s
  sha256_hex (s : String) : isSha256Hex (sha256 s) = true

/-- The digests of a table; no other text is hashed with it, and texts are ASCII. -/
def HexDigest.listed (table : List (String × String))
    (htable : ∀ row ∈ table, isSha256Hex row.2 = true) : HexDigest where
  nfc := id
  sha256 text := (table.lookup text).getD (String.ofList (List.replicate 64 '0'))
  nfc_ascii _ _ := rfl
  sha256_hex text := by
    cases h : table.lookup text with
    | none => decide
    | some hex =>
      obtain ⟨l, r, hl, -⟩ := List.lookup_eq_some_iff.1 h
      exact htable (text, hex) (by simp [hl])

inductive ValueError where
  | keyCollision (key : String)
  | outOfRangeFloat
  deriving DecidableEq

/-! ## The writer -/

def plainQuote (s : String) : List Char := '"' :: (s.toList.flatMap Json.plainChar ++ ['"'])

mutual

/-- `json.dumps(value, separators=(",", ":"), ensure_ascii=False)`. -/
def compactChars : Json → List Char
  | .str s => plainQuote s
  | .arr [] => ['[', ']']
  | .arr (x :: xs) => '[' :: (compactChars x ++ compactElements xs)
  | .obj [] => ['{', '}']
  | .obj ((k, x) :: ms) => '{' :: (plainQuote k ++ ':' :: (compactChars x ++ compactMembers ms))
  | v => v.chars

def compactElements : List Json → List Char
  | [] => [']']
  | x :: xs => ',' :: (compactChars x ++ compactElements xs)

def compactMembers : List (String × Json) → List Char
  | [] => ['}']
  | (k, x) :: ms => ',' :: (plainQuote k ++ ':' :: (compactChars x ++ compactMembers ms))

end

mutual

/-- The check of `allow_nan=False`. -/
def allFinite : Json → Bool
  | .float (.finite _) => true
  | .float _ => false
  | .arr xs => elementsFinite xs
  | .obj ms => membersFinite ms
  | _ => true

def elementsFinite : List Json → Bool
  | [] => true
  | x :: xs => allFinite x && elementsFinite xs

def membersFinite : List (String × Json) → Bool
  | [] => true
  | (_, x) :: ms => allFinite x && membersFinite ms

end

section Canonical

variable (D : HexDigest)

mutual

/-- `_nfc`. -/
def nfcValue : Json → Except ValueError Json
  | .str s => .ok (.str (D.nfc s))
  | .arr xs => (nfcElements xs).map .arr
  | .obj ms => (nfcMembers [] ms).map .obj
  | v => .ok v

def nfcElements : List Json → Except ValueError (List Json)
  | [] => .ok []
  | x :: xs => do
    let y ← nfcValue x
    return y :: (← nfcElements xs)

/-- The members of an object, after those under the keys `seen`. -/
def nfcMembers (seen : List String) :
    List (String × Json) → Except ValueError (List (String × Json))
  | [] => .ok []
  | (k, x) :: ms =>
    if D.nfc k ∈ seen then .error (.keyCollision (D.nfc k))
    else do
      let y ← nfcValue x
      return (D.nfc k, y) :: (← nfcMembers (D.nfc k :: seen) ms)

end

/-- `canonical_dumps`, before the text is encoded. -/
def canonicalDumps (v : Json) : Except ValueError String := do
  let cleaned ← nfcValue D v
  if allFinite cleaned then .ok (String.ofList (compactChars (Json.sortKeys cleaned)))
  else .error .outOfRangeFloat

/-! ## Flat objects -/

variable {D} {ms ns : List (String × Json)}

end Canonical
end ParallaxKernel.Apex
