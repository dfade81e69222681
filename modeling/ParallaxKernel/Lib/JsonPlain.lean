import ParallaxKernel.Lib.Json

/-!
# JSON texts that are not ASCII

The writer of Python's `json` module with `ensure_ascii=False`.
-/

namespace ParallaxKernel.Lib
namespace Json

/-- One character of a text, written with `ensure_ascii=False`. -/
def plainChar (c : Char) : List Char :=
  if c = '"' then ['\\', '"']
  else if c = '\\' then ['\\', '\\']
  else if c = '\n' then ['\\', 'n']
  else if c = '\r' then ['\\', 'r']
  else if c = '\t' then ['\\', 't']
  else if c = '\x0c' then ['\\', 'f']
  else if c = '\x08' then ['\\', 'b']
  else if c.toNat < 32 then unitEscape c.toNat
  else [c]

theorem readChar_plainChar (c : Char) (rest : List Char) :
    readChar (plainChar c ++ rest) = some (c, rest) := by
  unfold plainChar
  split_ifs with h1 h2 h3 h4 h5 h6 h7 h8
  all_goals try subst_vars; rfl
  · have hread := readUnicode_basic (c := c) (by omega) rest
    simpa [unitEscape, readChar] using hread
  · have hprinted : 32 ≤ c.toNat ∧ c ≠ '\\' := ⟨by omega, h2⟩
    simp [readChar, h2, hprinted.1]

theorem head_plainChar (c : Char) : ∃ x t, plainChar c = x :: t ∧ x ≠ '"' := by
  unfold plainChar unitEscape
  split_ifs <;> simp_all

/-- The separators at their defaults. -/
def plain : Layout where
  escape := plainChar
  gap := [' ']
  readChar_escape := readChar_plainChar
  head_escape := head_plainChar
  skipSpace_gap _ := rfl

/-- `json.dumps(value, ensure_ascii=False)`. -/
def dumpsPlain (v : Json) : String := String.ofList (plain.chars v)

@[simp] theorem loads_dumpsPlain (v : Json) : loads (dumpsPlain v) = some v := plain.loads_chars v

end Json
end ParallaxKernel.Lib
