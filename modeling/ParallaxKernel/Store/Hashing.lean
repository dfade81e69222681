import Mathlib.Data.List.Nodup
import Mathlib.Data.String.Defs

/-!
# Normalisation and content hashes

`hashing.py`. `unicodedata.normalize("NFC", …)` and the hexadecimal sha256 digest are the two
functions of `Digest`.
-/

namespace ParallaxKernel.Store

/-- The two library functions that a content hash rests on. -/
structure Digest where
  nfc : String → String
  sha256 : String → String

/-- `str.isspace` of one character. -/
def isPySpace (c : Char) : Bool :=
  let n := c.toNat
  (9 ≤ n && n ≤ 13) || (28 ≤ n && n ≤ 32) || n == 0x85 || n == 0xa0 || n == 0x1680 ||
    (0x2000 ≤ n && n ≤ 0x200a) || n == 0x2028 || n == 0x2029 || n == 0x202f || n == 0x205f ||
    n == 0x3000

/-- `str.strip()`. -/
def strip (s : String) : String :=
  String.ofList ((s.toList.dropWhile isPySpace).reverse.dropWhile isPySpace).reverse

/-- `_SEPARATOR`. -/
def separator : String := "||"

/-- `_NONE_SENTINEL`. -/
def noneSentinel : String := "\x00\x00NONE\x00\x00"

namespace Digest

variable (D : Digest)

/-- The canonical form of one part. -/
def canon : Option String → String
  | none => noneSentinel
  | some part => strip (D.nfc part)

def normalize (parts : List (Option String)) : String :=
  separator.intercalate (parts.map D.canon)

def contentHash (parts : List (Option String)) : String :=
  D.sha256 (D.normalize parts)

/-- A digest for ASCII texts that knows the sha256 of the texts of a table. -/
def listed (table : List (String × String)) : Digest where
  nfc := id
  sha256 text := (table.lookup text).getD ("?" ++ text)

theorem listed_injective {table : List (String × String)} (hnodup : (table.map (·.2)).Nodup)
    (hmark : ∀ row ∈ table, row.2.toList.head? ≠ some '?') :
    Function.Injective (listed table).sha256 := by
  intro s t h
  simp only [listed] at h
  have hmem {s v : String} (hs : table.lookup s = some v) : (s, v) ∈ table := by
    obtain ⟨l, r, hl, -⟩ := List.lookup_eq_some_iff.1 hs
    simp [hl]
  have hne {s v t : String} (hs : table.lookup s = some v) : v ≠ "?" ++ t := by
    rintro rfl
    exact hmark _ (hmem hs) (by simp)
  cases hs : table.lookup s with
  | some v =>
    cases ht : table.lookup t with
    | some w =>
      obtain rfl : v = w := by simpa [hs, ht] using h
      have hrow := List.inj_on_of_nodup_map hnodup (hmem hs) (hmem ht) rfl
      exact congrArg Prod.fst hrow
    | none => exact absurd (by simpa [hs, ht] using h) (hne hs)
  | none =>
    cases ht : table.lookup t with
    | some w => exact absurd (by simpa [hs, ht] using h.symm) (hne ht)
    | none =>
      have happend : "?" ++ s = "?" ++ t := by simpa [hs, ht] using h
      have hlist := congrArg String.toList happend
      rw [String.toList_append, String.toList_append] at hlist
      exact String.toList_inj.1 (List.append_cancel_left hlist)

/-- The digests of the texts that the examples hash. -/
def sample : Digest :=
  .listed
    [("direct:ann", "b91708df6fb40e44040e97f3afc49212a19ab913c8e2867167fe44dd716e24c9"),
      ("T||\x00\x00NONE\x00\x00||p.md",
        "175f7edc077276fa818d9932b4764e2c0ce1fd525b6b99a49986d75dd88df38c"),
      ("T||||p.md",
        "9779341faa218f45ee02ef4e317b957c35a90330735c0edda4ab3d3357601693"),
      ("a||b||c||p.md",
        "99204ba97971cf7ecd0ec2bfb3640e835d497a84594da4e191b505de3547c58c"),
      ("s||p||o||direct:ann||ann",
        "2b2c4aaa06f4cba71e0c4b22371bbfa7d1b9ce9686b6c1591fa2b0a9e8fa0834")]

end Digest
end ParallaxKernel.Store
