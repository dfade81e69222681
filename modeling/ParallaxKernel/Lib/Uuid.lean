import Mathlib.Data.Nat.Bits

/-!
# UUIDs

A UUID as its 128-bit integer.
-/

namespace ParallaxKernel.Lib

/-- `uuid.UUID.version`, which only the variant of RFC 4122 has. -/
def uuidVersion (uuid : Nat) : Option Nat :=
  if uuid.testBit 63 && !uuid.testBit 62 then some ((uuid >>> 76) &&& 0xf) else none

end ParallaxKernel.Lib
