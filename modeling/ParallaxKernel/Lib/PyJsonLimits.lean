import ParallaxKernel.Lib.PyJson

/-!
# Reading JSON within the interpreter's limits

`json.loads` with what it raises: a text may be malformed, hold an integer of more digits than the
interpreter converts, or nest containers deeper than it recurses.
-/

namespace ParallaxKernel.Lib

/-- What `json.loads` raises. -/
inductive JsonError where
  /-- `JSONDecodeError`. -/
  | malformed
  /-- The `ValueError` for an integer with too many digits. -/
  | digits
  /-- `RecursionError`. -/
  | depth
  deriving DecidableEq

/-- The digits of an integer that is converted, and the containers inside one another that
`json.loads` enters. -/
structure JsonLimits where
  digits : Nat
  depth : Nat

namespace PyJson

def startsDigit (cs : List Char) : Bool := cs.head?.any Char.isDigit

/-- `[-+]?` is skipped. -/
def afterSign : List Char → List Char
  | '-' :: cs => cs
  | '+' :: cs => cs
  | cs => cs

/-- What follows the leading digits of a number makes it a float. -/
def floatFollows : List Char → Bool
  | '.' :: cs => startsDigit cs
  | c :: cs => (c == 'e' || c == 'E') && startsDigit (afterSign cs)
  | [] => false

/-- The text starts with an integer of more than `maxDigits` digits. -/
def overlong (maxDigits : Nat) (cs : List Char) : Bool :=
  let digits := if cs.head? = some '-' then cs.tail else cs
  decide (maxDigits < (digits.takeWhile Char.isDigit).length) && digits.head? != some '0' &&
    !floatFollows (digits.dropWhile Char.isDigit)

def orMalformed {α : Type} : Option α → Except JsonError α
  | some a => .ok a
  | none => .error .malformed

section Read

variable (maxDigits : Nat)

/-- A literal that is not a string. -/
def readAtomWithin (cs : List Char) : Except JsonError (PyJson × List Char) :=
  if overlong maxDigits cs then .error .digits
  else orMalformed ((Json.readAtom cs).map fun (v, rest) => (ofJson v, rest))

mutual

/-- A value at the head of a text, where `depth` more containers can be entered. -/
def readValueWithin : Nat → Nat → List Char → Except JsonError (PyJson × List Char)
  | 0, _, _ => .error .malformed
  | fuel + 1, depth, cs =>
    match Json.skipSpace cs with
    | '"' :: rest => do
      let (s, rest) ← orMalformed (readString (fuel + 1) rest)
      .ok (.str s, rest)
    | '[' :: rest =>
      match depth with
      | 0 => .error .depth
      | depth + 1 =>
        match Json.skipSpace rest with
        | ']' :: rest => .ok (.arr [], rest)
        | rest => do
          let (x, rest) ← readValueWithin fuel depth rest
          let (xs, rest) ← readElementsWithin fuel depth rest
          .ok (.arr (x :: xs), rest)
    | '{' :: rest =>
      match depth with
      | 0 => .error .depth
      | depth + 1 =>
        match Json.skipSpace rest with
        | '}' :: rest => .ok (.obj [], rest)
        | rest => do
          let (m, rest) ← readMemberWithin fuel depth rest
          let (ms, rest) ← readMembersWithin fuel depth rest
          .ok (.obj (m :: ms), rest)
    | rest => readAtomWithin maxDigits rest
  termination_by structural fuel => fuel

def readElementsWithin : Nat → Nat → List Char → Except JsonError (List PyJson × List Char)
  | 0, _, _ => .error .malformed
  | fuel + 1, depth, cs =>
    match Json.skipSpace cs with
    | ']' :: rest => .ok ([], rest)
    | ',' :: rest => do
      let (x, rest) ← readValueWithin fuel depth rest
      let (xs, rest) ← readElementsWithin fuel depth rest
      .ok (x :: xs, rest)
    | _ => .error .malformed

def readMemberWithin : Nat → Nat → List Char → Except JsonError ((PyStr × PyJson) × List Char)
  | 0, _, _ => .error .malformed
  | fuel + 1, depth, cs =>
    match Json.skipSpace cs with
    | '"' :: rest => do
      let (k, rest) ← orMalformed (readString (fuel + 1) rest)
      match Json.skipSpace rest with
      | ':' :: rest => do
        let (x, rest) ← readValueWithin fuel depth rest
        .ok ((k, x), rest)
      | _ => .error .malformed
    | _ => .error .malformed

def readMembersWithin : Nat → Nat → List Char →
    Except JsonError (List (PyStr × PyJson) × List Char)
  | 0, _, _ => .error .malformed
  | fuel + 1, depth, cs =>
    match Json.skipSpace cs with
    | '}' :: rest => .ok ([], rest)
    | ',' :: rest => do
      let (m, rest) ← readMemberWithin fuel depth rest
      let (ms, rest) ← readMembersWithin fuel depth rest
      .ok (m :: ms, rest)
    | _ => .error .malformed

end

end Read

/-- `json.loads(text)`. -/
def loadsWithin (L : JsonLimits) (text : String) : Except JsonError PyJson := do
  let (v, rest) ← readValueWithin L.digits (text.toList.length + 1) L.depth text.toList
  if Json.skipSpace rest = [] then .ok v else .error .malformed

end PyJson

end ParallaxKernel.Lib
