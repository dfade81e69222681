import ParallaxKernel.Store.Schema

/-!
# State transitions

`transitions.py`: the matrices of allowed moves for each kind of entity.
-/

namespace ParallaxKernel.Store

/-- The states of an entity, each with the states it may move to. -/
abbrev Matrix := List (String × List String)

def memoryTransitions : Matrix :=
  [("draft", ["draft", "active", "archived"]), ("active", ["active", "archived"]),
    ("archived", [])]

def claimTransitions : Matrix :=
  [("auto", ["auto", "pending", "confirmed", "rejected"]),
    ("pending", ["pending", "confirmed", "rejected"]),
    ("confirmed", ["confirmed", "rejected"]), ("rejected", [])]

def sourceTransitions : Matrix :=
  [("ingested", ["ingested", "parsed", "archived"]), ("parsed", ["parsed", "archived"]),
    ("archived", [])]

def decisionTransitions : Matrix :=
  [("proposed", ["proposed", "approved", "revoked"]),
    ("approved", ["approved", "applied", "revoked"]), ("applied", ["applied", "revoked"]),
    ("revoked", [])]

/-- `_MATRIX`, its keys in order. -/
def matrices : List (String × Matrix) :=
  [("claim", claimTransitions), ("decision", decisionTransitions),
    ("memory", memoryTransitions), ("source", sourceTransitions)]

/-- `repr` of a list of strings. -/
def pyReprList (xs : List String) : String :=
  "[" ++ ", ".intercalate (xs.map pyRepr) ++ "]"

def Matrix.states (m : Matrix) : List String := (m.map (·.1)).mergeSort (· ≤ ·)

def unknownEntity (entity : String) : Exc :=
  .valueError ("unknown entity " ++ pyRepr entity ++ "; expected one of " ++
    pyReprList (matrices.map (·.1)))

def unknownFromState (entity fromState : String) (matrix : Matrix) : Exc :=
  .valueError ("unknown " ++ entity ++ " from_state " ++ pyRepr fromState ++
    "; expected one of " ++ pyReprList matrix.states)

def isAllowedTransition (entity fromState toState : String) : Except Exc Bool :=
  match matrices.lookup entity with
  | none => .error (unknownEntity entity)
  | some matrix =>
    match matrix.lookup fromState with
    | none => .error (unknownFromState entity fromState matrix)
    | some targets => .ok (targets.contains toState)

/-- `to_state in CLAIM_TRANSITIONS[from_state]`. -/
def ClaimStep (fromState toState : String) : Prop :=
  isAllowedTransition "claim" fromState toState = .ok true

instance (fromState toState : String) : Decidable (ClaimStep fromState toState) :=
  inferInstanceAs (Decidable (_ = _))

theorem claimStep_iff {fromState toState : String} : ClaimStep fromState toState ↔
    ∃ targets, claimTransitions.lookup fromState = some targets ∧ toState ∈ targets := by
  have hlookup : matrices.lookup "claim" = some claimTransitions := rfl
  unfold ClaimStep isAllowedTransition
  simp only [hlookup]
  cases claimTransitions.lookup fromState <;> simp

theorem ClaimStep.mem {fromState toState : String} (h : ClaimStep fromState toState) :
    fromState ∈ ["auto", "pending", "confirmed"] ∧
      toState ∈ ["auto", "pending", "confirmed", "rejected"] := by
  obtain ⟨targets, hlookup, hmem⟩ := claimStep_iff.1 h
  obtain ⟨l, r, hl, -⟩ := List.lookup_eq_some_iff.1 hlookup
  have hrow : (fromState, targets) ∈ claimTransitions := by simp [hl]
  simp only [claimTransitions, List.mem_cons, Prod.mk.injEq, List.not_mem_nil, or_false] at hrow
  rcases hrow with ⟨rfl, rfl⟩ | ⟨rfl, rfl⟩ | ⟨rfl, rfl⟩ | ⟨rfl, rfl⟩ <;> simp_all

theorem ClaimStep.to_ne_empty {fromState toState : String} (h : ClaimStep fromState toState) :
    toState ≠ "" := by
  rintro rfl
  have := h.mem.2
  simp at this

/-- `rejected` is terminal. -/
theorem not_claimStep_rejected (toState : String) : ¬ ClaimStep "rejected" toState := by
  intro h
  have := h.mem.1
  simp at this

end ParallaxKernel.Store
