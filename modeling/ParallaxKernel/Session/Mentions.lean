import ParallaxKernel.Lib.PyJsonText
import ParallaxKernel.Session.SearchPaths

/-!
# Mentions

What the searches for a file and for a subject find of the events whose payload mentions a text: the
writer encodes the payload, and the searches look for the text itself in the encoding.
-/

namespace ParallaxKernel.Session

open Lib Store

/-! ## Texts that are searched for -/

variable {E : Engine} {fold : Char → Char} {s : IndexedDb} {userId : String} {p : List Char}

section Payload

variable {e : Event} {payload : List (PyStr × PyJson)}

end Payload

/-! ## Completeness of a search -/

variable {now : Int}

variable {lower : PyStr → PyStr}

end ParallaxKernel.Session
