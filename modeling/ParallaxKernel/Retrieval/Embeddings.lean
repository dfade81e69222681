import ParallaxKernel.Lib.DoubleArith
import ParallaxKernel.Lib.PartialMap
import ParallaxKernel.Lib.PyJsonLimits

/-!
# Embeddings

`OllamaEmbeddingProvider.embed` of `retrieval/embeddings.py`: one request for all inputs, and the
vectors that its response holds. What is no list of vectors raises `EmbeddingError`; what `float`
does not convert raises what `float` raises.
-/

namespace ParallaxKernel.Retrieval

open Lib

/-! ## The request -/

/-- The exceptions that leave a call. -/
inductive Raised where
  | embeddingError
  | valueError
  | typeError
  | overflowError
  | recursionError
  | zeroDivisionError
  | indexError
  deriving DecidableEq

/-- What comes of the request. -/
inductive Outcome where
  /-- `import httpx` raises `ImportError`. -/
  | unavailable
  /-- The request raises `httpx.HTTPError`. -/
  | httpError
  /-- A response, and what `resp.json()` makes of its body. -/
  | response (status : Nat) (body : Except JsonError PyJson)

/-- `resp.raise_for_status()` does not raise. -/
def isSuccess (status : Nat) : Bool := 200 ≤ status && status ≤ 299

/-- `float(x)`; `parse` converts texts. -/
def toFloat (parse : PyStr → Option Double) : PyJson → Except Raised Double
  | .null | .arr _ | .obj _ => .error .typeError
  | .bool b => .ok (if b then .one else .zero)
  | .int n =>
    match Double.ofInt n with
    | some x => .ok x
    | none => .error .overflowError
  | .float f => .ok (.ofPyFloat f)
  | .str s =>
    match parse s with
    | some x => .ok x
    | none => .error .valueError

def elements : PyJson → List PyJson
  | .arr xs => xs
  | _ => []

/-- `isinstance(vec, list) and vec`. -/
def isVector (vec : PyJson) : Bool := !(elements vec).isEmpty

def toVector (parse : PyStr → Option Double) (vec : PyJson) : Except Raised (List Double) :=
  if !isVector vec then .error .embeddingError
  else (elements vec).mapM (toFloat parse)

/-- `body.get("embeddings") if isinstance(body, dict) else None`, where it is a list. -/
def embeddingsOf : PyJson → Option (List PyJson)
  | .obj ms =>
    match PyJson.member? (.ofString "embeddings") ms with
    | some (.arr vs) => some vs
    | _ => none
  | _ => none

/-- `embed` of so many inputs. -/
def embed (parse : PyStr → Option Double) (outcome : Outcome) (inputs : Nat) :
    Except Raised (List (List Double)) :=
  if inputs = 0 then .ok []
  else
    match outcome with
    | .unavailable | .httpError => .error .embeddingError
    | .response status body =>
      if !isSuccess status then .error .embeddingError
      else
        match body with
        | .error .depth => .error .recursionError
        | .error _ => .error .embeddingError
        | .ok json =>
          match embeddingsOf json with
          | none => .error .embeddingError
          | some embeddings =>
            if embeddings.length ≠ inputs then .error .embeddingError
            else embeddings.mapM (toVector parse)

/-! ## What the vectors are read as -/

variable {parse : PyStr → Option Double}

/-- `float(x)` converts it. -/
def accepts (parse : PyStr → Option Double) (x : PyJson) : Bool :=
  match toFloat parse x with
  | .ok _ => true
  | .error _ => false

theorem toFloat_ne_embeddingError (x : PyJson) : toFloat parse x ≠ .error .embeddingError := by
  cases x with
  | int n =>
    rw [toFloat]
    cases Double.ofInt n <;> simp
  | str s =>
    rw [toFloat]
    cases parse s <;> simp
  | _ => simp [toFloat]

theorem accepts_int {n : Int} (h : |n| ≤ 2 ^ 53) : accepts parse (.int n) = true := by
  obtain ⟨x, hx⟩ := Option.isSome_iff_exists.1 (Double.ofInt_isSome h)
  rw [accepts, toFloat, hx]

theorem mapM_toFloat_ok {xs : List PyJson} (h : ∀ x ∈ xs, accepts parse x = true) :
    ∃ ds, xs.mapM (toFloat parse) = .ok ds ∧ ds.length = xs.length := by
  have hfloat : ∀ x ∈ xs, ∃ d, toFloat parse x = .ok d := by
    intro x hx
    have haccepts := h x hx
    rw [accepts] at haccepts
    cases hfloat : toFloat parse x with
    | ok d => exact ⟨d, rfl⟩
    | error e => simp [hfloat] at haccepts
  obtain ⟨ds, hds, hall⟩ := exists_mapM_ok hfloat
  exact ⟨ds, hds, hall.length_eq.symm⟩

theorem mapM_toFloat_error {xs : List PyJson} (h : ∃ x ∈ xs, accepts parse x = false) :
    ∃ e, xs.mapM (toFloat parse) = .error e ∧ e ≠ .embeddingError := by
  induction xs with
  | nil => simp at h
  | cons x xs ih =>
    cases hfloat : toFloat parse x with
    | error e =>
      refine ⟨e, ?_, fun he => toFloat_ne_embeddingError x (he ▸ hfloat)⟩
      rw [List.mapM_cons, hfloat]
      rfl
    | ok d =>
      obtain ⟨y, hy, hfalse⟩ := h
      obtain rfl | hy := List.mem_cons.1 hy
      · simp [accepts, hfloat] at hfalse
      · obtain ⟨e, he, hne⟩ := ih ⟨y, hy, hfalse⟩
        refine ⟨e, ?_, hne⟩
        rw [List.mapM_cons, hfloat, he]
        rfl

/-- All vectors are read, with their lengths. -/
theorem mapM_toVector_ok {vs : List PyJson} (hvector : ∀ v ∈ vs, isVector v = true)
    (h : ∀ v ∈ vs, ∀ x ∈ elements v, accepts parse x = true) :
    ∃ us, vs.mapM (toVector parse) = .ok us ∧
      us.map List.length = vs.map fun v => (elements v).length := by
  induction vs with
  | nil => exact ⟨[], rfl, rfl⟩
  | cons v vs ih =>
    rw [List.forall_mem_cons] at hvector h
    obtain ⟨us, hus, hlen⟩ := ih hvector.2 h.2
    obtain ⟨ds, hds, hdslen⟩ := mapM_toFloat_ok h.1
    refine ⟨ds :: us, ?_, by rw [List.map_cons, List.map_cons, hlen, hdslen]⟩
    rw [List.mapM_cons, toVector, hvector.1, hds, hus]
    rfl

/-- What is no vector raises `EmbeddingError`, if all before it is converted. -/
theorem mapM_toVector_embeddingError {vs : List PyJson} (hvector : ∃ v ∈ vs, isVector v = false)
    (h : ∀ v ∈ vs.takeWhile isVector, ∀ x ∈ elements v, accepts parse x = true) :
    vs.mapM (toVector parse) = .error .embeddingError := by
  induction vs with
  | nil => simp at hvector
  | cons v vs ih =>
    cases hv : isVector v with
    | false =>
      rw [List.mapM_cons, toVector, hv]
      rfl
    | true =>
      rw [List.takeWhile_cons_of_pos hv, List.forall_mem_cons] at h
      obtain ⟨u, hu, hfalse⟩ := hvector
      obtain rfl | hu := List.mem_cons.1 hu
      · rw [hv] at hfalse
        cases hfalse
      obtain ⟨ds, hds, -⟩ := mapM_toFloat_ok h.1
      rw [List.mapM_cons, toVector, hv, hds, ih ⟨u, hu, hfalse⟩ h.2]
      rfl

/-- What `float` does not convert, in a vector that is reached, raises what `hybrid_rank` does not
catch. -/
theorem mapM_toVector_error {vs : List PyJson}
    (h : ∃ v ∈ vs.takeWhile isVector, ∃ x ∈ elements v, accepts parse x = false) :
    ∃ e, vs.mapM (toVector parse) = .error e ∧ e ≠ .embeddingError := by
  induction vs with
  | nil => simp at h
  | cons v vs ih =>
    cases hv : isVector v with
    | false => simp [hv] at h
    | true =>
      rw [List.takeWhile_cons_of_pos hv, List.exists_mem_cons_iff] at h
      by_cases hfirst : ∃ x ∈ elements v, accepts parse x = false
      · obtain ⟨e, he, hne⟩ := mapM_toFloat_error hfirst
        refine ⟨e, ?_, hne⟩
        rw [List.mapM_cons, toVector, hv]
        exact congrArg (· >>= _) he
      · obtain ⟨e, he, hne⟩ := ih (h.resolve_left hfirst)
        have hall : ∀ x ∈ elements v, accepts parse x = true := by simpa using hfirst
        obtain ⟨ds, hds, -⟩ := mapM_toFloat_ok hall
        refine ⟨e, ?_, hne⟩
        rw [List.mapM_cons, toVector, hv, hds, he]
        rfl

theorem embed_response {inputs status : Nat} {json : PyJson}
    {vs : List PyJson} (hinputs : 0 < inputs) (hstatus : isSuccess status = true)
    (hvs : embeddingsOf json = some vs) (hlen : vs.length = inputs) :
    embed parse (.response status (.ok json)) inputs = vs.mapM (toVector parse) := by
  simp only [embed, hvs]
  rw [if_neg hinputs.ne', if_neg (by simp [hstatus]), if_neg (not_not.2 hlen)]

/-- A response that holds no list of as many embeddings raises `EmbeddingError`, unless its body is
nested too deep. -/
theorem embed_embeddingError {inputs status : Nat}
    {body : Except JsonError PyJson} (hinputs : 0 < inputs)
    (h : isSuccess status = true → body ≠ .error .depth ∧
      ∀ json vs, body = .ok json → embeddingsOf json = some vs → vs.length ≠ inputs) :
    embed parse (.response status body) inputs = .error .embeddingError := by
  simp only [embed]
  rw [if_neg hinputs.ne']
  cases hstatus : isSuccess status with
  | false => rfl
  | true =>
    obtain ⟨hdepth, hlen⟩ := h hstatus
    rw [if_neg (by simp)]
    cases body with
    | error e =>
      cases e with
      | depth => exact absurd rfl hdepth
      | _ => rfl
    | ok json =>
      cases hvs : embeddingsOf json with
      | none => simp only [hvs]
      | some vs =>
        simp only [hvs]
        rw [if_pos (hlen json vs rfl hvs)]

/-! ## What a response holds -/

/-- A number of JSON. -/
def isNumber : PyJson → Bool
  | .int _ | .float _ => true
  | _ => false

/-- One list of equally long, non-empty, numeric vectors, one for each input. -/
structure AreVectors (inputs : Nat) (vs : List PyJson) : Prop where
  length : vs.length = inputs
  nonempty : ∀ v ∈ vs, isVector v = true
  even : ∀ u ∈ vs, ∀ v ∈ vs, (elements u).length = (elements v).length
  numbers : ∀ v ∈ vs, ∀ x ∈ elements v, isNumber x = true

/-- The response is one such list. -/
def Outcome.HoldsVectors (outcome : Outcome) (inputs : Nat) : Prop :=
  ∃ status json vs, outcome = .response status (.ok json) ∧ embeddingsOf json = some vs ∧
    AreVectors inputs vs

end ParallaxKernel.Retrieval
