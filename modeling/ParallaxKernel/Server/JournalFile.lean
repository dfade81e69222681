import ParallaxKernel.Lib.Double
import ParallaxKernel.Lib.PyJsonLimits

/-!
# The bytes of the drain journal

`read_drain_journal` and the restore, over whatever may stand in the journal's file. They raise where
the bytes are no UTF-8, where the text nests too deep, and where a number is too large for a double.
-/

namespace ParallaxKernel.Server.JournalFile

open Lib

/-- What is at the path of the journal: nothing, a file that cannot be read, or a file. -/
inductive File where
  | missing
  | unreadable
  | content (bytes : ByteArray)

/-- What can leave a read or a restore. -/
inductive ReadError where
  | unicodeDecode
  | recursion
  | overflow
  | negativeAmount
  deriving DecidableEq

structure DrainJournal where
  total : Double
  lastInflightCount : Option Int
  lastTimeoutSeconds : Option Double
  readable : Bool

/-- A journal without events. -/
def DrainJournal.empty (readable : Bool) : DrainJournal := ⟨.zero, none, none, readable⟩

/-- The newlines that reading a text translates. -/
def translateNewlines : List Char → List Char
  | '\r' :: '\n' :: cs => '\n' :: translateNewlines cs
  | '\r' :: cs => '\n' :: translateNewlines cs
  | c :: cs => c :: translateNewlines cs
  | [] => []

/-- `resolved.read_text(encoding="utf-8")`, but for its `OSError`. -/
def readText (bytes : ByteArray) : Option String :=
  (String.fromUTF8? bytes).map fun text => .ofList (translateNewlines text.toList)

def floatOfInt (n : Int) : Except ReadError Double :=
  match Double.ofInt n with
  | some x => .ok x
  | none => .error .overflow

/-- `value != value or value < 0` makes a zero. -/
def nonNegative (value : Double) : Double :=
  if value.le value = false ∨ value.lt .zero then .zero else value

/-- `_coerce_total`. -/
def coerceTotal : Option PyJson → Except ReadError Double
  | some (.int n) => (floatOfInt n).map nonNegative
  | some (.float f) => .ok (nonNegative (.ofPyFloat f))
  | _ => .ok .zero

/-- `int(inflight) if isinstance(inflight, int) else None`. -/
def coerceInflight : Option PyJson → Option Int
  | some (.int n) => some n
  | some (.bool b) => some b.toNat
  | _ => none

/-- `float(timeout_seconds) if isinstance(timeout_seconds, int | float) else None`. -/
def coerceTimeout : Option PyJson → Except ReadError (Option Double)
  | some (.int n) => (floatOfInt n).map some
  | some (.bool b) => (floatOfInt b.toNat).map some
  | some (.float f) => .ok (some (.ofPyFloat f))
  | _ => .ok none

/-- The journal that an object holds. -/
def ofMembers (payload : List (PyStr × PyJson)) : Except ReadError DrainJournal := do
  let total ← coerceTotal (PyJson.member? (.ofString "drain_timeout_total") payload)
  let lastTimeoutSeconds ← coerceTimeout (PyJson.member? (.ofString "last_timeout_seconds") payload)
  .ok
    { total
      lastInflightCount := coerceInflight (PyJson.member? (.ofString "last_inflight_count") payload)
      lastTimeoutSeconds
      readable := true }

variable (L : JsonLimits)

/-- `read_drain_journal`. -/
def readDrainJournal : File → Except ReadError DrainJournal
  | .missing => .ok (.empty true)
  | .unreadable => .ok (.empty false)
  | .content bytes =>
    match readText bytes with
    | none => .error .unicodeDecode
    | some raw =>
      match PyJson.loadsWithin L raw with
      | .error .malformed | .error .digits => .ok (.empty false)
      | .error .depth => .error .recursion
      | .ok (.obj payload) => ofMembers payload
      | .ok _ => .ok (.empty false)

/-- `Counter.inc`. -/
def inc (counter amount : Double) : Except ReadError Double :=
  if amount.lt .zero then .error .negativeAmount else .ok (counter.add amount)

/-- The counter after `restore_drain_timeout_counter`, and what it returns. -/
def restoreDrainTimeoutCounter (file : File) (current : Double) :
    Except ReadError (Double × Double) := do
  let journal ← readDrainJournal L file
  let delta := journal.total.sub current
  if delta.le .zero then .ok (current, .zero)
  else do
    let counter ← inc current delta
    .ok (counter, delta)

/-- What a counter can hold: `inc` refuses what is negative. -/
abbrev Counter := { current : Double // current.lt .zero = false }

/-- Reading gives a finite total that is not negative, and a restore does not decrease the counter. -/
def ReadsFine (file : File) : Prop :=
  (∃ journal, readDrainJournal L file = .ok journal ∧ journal.total.isFinite = true ∧
    journal.total.lt .zero = false) ∧
  ∀ current : Counter, ∃ after delta,
    restoreDrainTimeoutCounter L file current.val = .ok (after, delta) ∧
      after.lt current.val = false

/-! ## When it does -/

/-- The number is no integer beyond the doubles. -/
def InRange : Option PyJson → Prop
  | some (.int n) => (Double.ofInt n).isSome = true
  | _ => True

/-- The total is no integer beyond the doubles, and no literal of one. -/
def FiniteTotal : Option PyJson → Prop
  | some (.int n) => (Double.ofInt n).isSome = true
  | some (.float f) => Double.ofPyFloat f ≠ .inf
  | _ => True

/-- What is in the file is UTF-8, does not nest too deep, and has no number beyond the doubles where
one is looked for. -/
def WellEncoded (file : File) : Prop :=
  ∀ bytes, file = .content bytes → ∃ raw, readText bytes = some raw ∧
    PyJson.loadsWithin L raw ≠ .error .depth ∧
    ∀ payload, PyJson.loadsWithin L raw = .ok (.obj payload) →
      FiniteTotal (PyJson.member? (.ofString "drain_timeout_total") payload) ∧
        InRange (PyJson.member? (.ofString "last_timeout_seconds") payload)

section Proofs

variable {L} {file : File}

theorem nonNegative_not_lt (value : Double) : (nonNegative value).lt .zero = false := by
  rw [nonNegative]
  split_ifs with h
  · simp [Double.zero_eq, Double.lt]
  · simp only [not_or, Bool.not_eq_true] at h
    exact h.2

theorem nonNegative_isFinite (value : Double) :
    (nonNegative value).isFinite = true ↔ value ≠ .inf := by
  have hzero : Double.zero.isFinite = true := by
    rw [Double.zero_eq]
    rfl
  cases value with
  | finite x hx =>
    rw [nonNegative]
    split_ifs
    · exact iff_of_true hzero Double.noConfusion
    · exact iff_of_true rfl Double.noConfusion
  | inf => simp [nonNegative, Double.le, Double.lt, Double.isFinite]
  | negInf => simp [nonNegative, Double.lt, Double.zero_eq, Double.isFinite]
  | nan => simp [nonNegative, Double.le, Double.zero_eq, Double.isFinite]

theorem coerceTotal_not_lt {raw : Option PyJson} {total : Double} (h : coerceTotal raw = .ok total) :
    total.lt .zero = false := by
  unfold coerceTotal at h
  split at h
  · next n =>
    rw [floatOfInt] at h
    split at h
    · cases h
      exact nonNegative_not_lt _
    · cases h
  · cases h
    exact nonNegative_not_lt _
  · cases h
    simp [Double.zero_eq, Double.lt]

theorem coerceTotal_isFinite_iff (raw : Option PyJson) :
    (∃ total, coerceTotal raw = .ok total ∧ total.isFinite = true) ↔ FiniteTotal raw := by
  have hzero : ∃ total, (.ok .zero : Except ReadError Double) = .ok total ∧ total.isFinite = true := by
    refine ⟨_, rfl, ?_⟩
    rw [Double.zero_eq]
    rfl
  cases raw with
  | none => exact iff_of_true hzero trivial
  | some v =>
    cases v with
    | int n =>
      rw [coerceTotal, floatOfInt, FiniteTotal]
      cases hn : Double.ofInt n with
      | none => exact iff_of_false (by rintro ⟨total, ⟨⟩, -⟩) nofun
      | some x =>
        refine iff_of_true ⟨_, rfl, (nonNegative_isFinite x).2 ?_⟩ rfl
        rintro rfl
        cases Double.isFinite_of_ofInt hn
    | float f =>
      rw [coerceTotal, FiniteTotal, ← nonNegative_isFinite]
      constructor
      · rintro ⟨_, ⟨⟩, hfinite⟩
        exact hfinite
      · intro hfinite
        exact ⟨_, rfl, hfinite⟩
    | _ => exact iff_of_true hzero trivial

theorem coerceTimeout_ok_iff (raw : Option PyJson) :
    (∃ timeout, coerceTimeout raw = .ok timeout) ↔ InRange raw := by
  cases raw with
  | none => exact iff_of_true ⟨_, rfl⟩ trivial
  | some v =>
    cases v with
    | int n =>
      rw [coerceTimeout, floatOfInt, InRange]
      cases Double.ofInt n with
      | none => exact iff_of_false (by rintro ⟨timeout, ⟨⟩⟩) nofun
      | some x => exact iff_of_true ⟨_, rfl⟩ rfl
    | bool b =>
      have hsmall : |((b.toNat : Nat) : Int)| ≤ 2 ^ 53 := by cases b <;> decide
      obtain ⟨x, hx⟩ := Option.isSome_iff_exists.1 (Double.ofInt_isSome hsmall)
      rw [coerceTimeout, floatOfInt, hx]
      exact iff_of_true ⟨_, rfl⟩ trivial
    | _ => exact iff_of_true ⟨_, rfl⟩ trivial

/-- What a read is to give. -/
def Fine (read : Except ReadError DrainJournal) : Prop :=
  ∃ journal, read = .ok journal ∧ journal.total.isFinite = true ∧ journal.total.lt .zero = false

theorem fine_empty (readable : Bool) : Fine (.ok (.empty readable)) := by
  refine ⟨_, rfl, ?_, ?_⟩ <;> simp [DrainJournal.empty, Double.zero_eq, Double.isFinite, Double.lt]

theorem fine_ofMembers_iff (payload : List (PyStr × PyJson)) : Fine (ofMembers payload) ↔
    FiniteTotal (PyJson.member? (.ofString "drain_timeout_total") payload) ∧
      InRange (PyJson.member? (.ofString "last_timeout_seconds") payload) := by
  rw [← coerceTotal_isFinite_iff, ← coerceTimeout_ok_iff]
  unfold Fine ofMembers
  constructor
  · rintro ⟨journal, hread, hfinite, -⟩
    cases htotal : coerceTotal (PyJson.member? (.ofString "drain_timeout_total") payload) with
    | error e =>
      rw [htotal] at hread
      cases hread
    | ok total =>
      cases htimeout : coerceTimeout (PyJson.member? (.ofString "last_timeout_seconds") payload) with
      | error e =>
        rw [htotal, htimeout] at hread
        cases hread
      | ok timeout =>
        rw [htotal, htimeout] at hread
        cases hread
        exact ⟨⟨total, rfl, hfinite⟩, timeout, rfl⟩
  · rintro ⟨⟨total, htotal, hfinite⟩, timeout, htimeout⟩
    rw [htotal, htimeout]
    exact ⟨_, rfl, hfinite, coerceTotal_not_lt htotal⟩

theorem fine_readDrainJournal_iff : Fine (readDrainJournal L file) ↔ WellEncoded L file := by
  unfold WellEncoded
  cases file with
  | missing => exact iff_of_true (fine_empty true) nofun
  | unreadable => exact iff_of_true (fine_empty false) nofun
  | content bytes =>
    simp only [File.content.injEq, forall_eq']
    rw [readDrainJournal]
    cases readText bytes with
    | none => exact iff_of_false (by rintro ⟨journal, ⟨⟩, -⟩) (by rintro ⟨raw, ⟨⟩, -⟩)
    | some raw =>
      simp only [Option.some.injEq, exists_eq_left']
      cases PyJson.loadsWithin L raw with
      | error e =>
        cases e with
        | depth => exact iff_of_false (by rintro ⟨journal, ⟨⟩, -⟩) (fun h => h.1 rfl)
        | _ => exact iff_of_true (fine_empty false) ⟨nofun, nofun⟩
      | ok v =>
        cases v with
        | obj payload =>
          rw [fine_ofMembers_iff]
          constructor
          · intro h
            refine ⟨nofun, ?_⟩
            rintro payload' ⟨⟩
            exact h
          · intro h
            exact h.2 payload rfl
        | _ => exact iff_of_true (fine_empty false) ⟨nofun, nofun⟩

/-- A restore from a journal that is read well does not decrease the counter. -/
theorem restore_not_lt (h : Fine (readDrainJournal L file)) (current : Counter) :
    ∃ after delta, restoreDrainTimeoutCounter L file current.val = .ok (after, delta) ∧
      after.lt current.val = false := by
  obtain ⟨journal, hread, -, -⟩ := h
  unfold restoreDrainTimeoutCounter
  rw [hread]
  dsimp only [bind, Except.bind]
  split_ifs with hle
  · refine ⟨_, _, rfl, ?_⟩
    cases current.val <;> simp [Double.lt]
  · have hdelta : (journal.total.sub current.val).lt .zero = false :=
      Double.not_lt_of_not_le (by simpa using hle)
    rw [inc, hdelta]
    exact ⟨_, _, rfl, Double.add_not_lt current.property hdelta⟩

end Proofs

/-- The read and the restore do what they promise exactly on a file that is UTF-8, does not nest too
deep, and has no number beyond the doubles where one is looked for. -/
theorem readsFine_iff (L : JsonLimits) (file : File) : ReadsFine L file ↔ WellEncoded L file := by
  rw [← fine_readDrainJournal_iff]
  constructor
  · intro h
    exact h.1
  · intro h
    exact ⟨h, restore_not_lt h⟩

/-- One byte that starts no character keeps the server from starting. -/
theorem invalid_byte_raises : ¬ ReadsFine ⟨4300, 990⟩ (.content ⟨#[0xff]⟩) := by
  rintro ⟨⟨journal, hread, -⟩, -⟩
  have hraises : readDrainJournal ⟨4300, 990⟩ (.content ⟨#[0xff]⟩) = .error .unicodeDecode := by
    have hdecode : readText ⟨#[0xff]⟩ = none := by decide
    rw [readDrainJournal, hdecode]
  rw [hraises] at hread
  cases hread

end ParallaxKernel.Server.JournalFile
