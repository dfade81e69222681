import ParallaxKernel.Lib.Runs
import ParallaxKernel.Llm.Call

/-!
# Where an answer comes from

Runs of `call` on one cache, which starts empty. A row is written by the primary model or by the
fallback of an earlier call, and `fallback_from` is a member of what is stored.
-/

namespace ParallaxKernel.Llm

open Lib

/-- A call of a run, and what it meets. -/
structure Invocation where
  request : Request
  stores : Bool
  outcomes : Nat → ProviderOutcome

/-- The cache, and the calls so far. -/
structure History where
  cache : Cache
  calls : List (Request × Called)

def History.empty : History := ⟨[], []⟩

variable (T : TextProbes)

def Invocation.called (i : Invocation) (cache : Cache) : Called :=
  call T i.request i.stores i.outcomes cache

def invoke (s : History) (i : Invocation) : Option History :=
  some ⟨(i.called T s.cache).cache, s.calls ++ [(i.request, i.called T s.cache)]⟩

variable {T}

/-! ## What a row is -/

/-- The row holds what a call answered live: the answer of its primary model, or that of its
fallback. -/
def WrittenBy (row : CacheRow) (past : Request × Called) : Prop :=
  ∃ (a : Answer) (rest : PyDict), row.promptHash = past.1.hashPrompt row.model ∧
    row.responseJson = Json.dumpsPlain (.obj (a.toDict row.model ++ rest)) ∧
    past.2.result = .ok (a.toDict row.model ++ rest ++ [("_cached", .bool false)]) ∧
    (row.model = past.1.model ∧ rest = [] ∨ rest = [("fallback_from", .str past.1.model)])

/-- A live dict that names no fallback has the model of the call. -/
def OwnModel (past : Request × Called) : Prop :=
  ∀ body, past.2.result = .ok (body ++ [("_cached", .bool false)]) →
    body.lookup "fallback_from" = none → body.lookup "model" = some (.str past.1.model)

/-- Every row is that of an earlier call. -/
structure History.Recorded (s : History) : Prop where
  rows : ∀ row ∈ s.cache, ∃ past ∈ s.calls, WrittenBy row past
  models : ∀ past ∈ s.calls, OwnModel past

/-- The response of the row names a model that was asked before. -/
def CacheRow.ofFallback (row : CacheRow) : Prop :=
  ∃ response m, Json.loads row.responseJson = some (.obj response) ∧
    response.lookup "fallback_from" = some m

section Calls

variable {q : Request} {stores : Bool} {outcomes : Nat → ProviderOutcome} {cache : Cache}

/-- A call that finds a row answers with it, and leaves the cache alone. -/
theorem call_of_hit {cached : PyDict} (h : cacheGet cache (q.hashPrompt q.model) = some cached) :
    call T q stores outcomes cache = ⟨.ok (replay cached), cache, 0, 0⟩ := by
  rw [call, h]

theorem CallCase.primary_pos {called : Called} (h : CallCase T q stores outcomes cache called) :
    0 < called.primary := by
  obtain ⟨first, hfirst, -⟩ := h.dispatches
  exact (dispatches_bounds hfirst).1

/-- What a call adds to the cache is what it returns. -/
theorem call_row {row : CacheRow} (hrow : row ∈ (call T q stores outcomes cache).cache) :
    row ∈ cache ∨ WrittenBy row (q, call T q stores outcomes cache) := by
  cases hget : cacheGet cache (q.hashPrompt q.model) with
  | some cached =>
    rw [call_of_hit hget] at hrow
    exact .inl hrow
  | none =>
    have hcase : CallCase T q stores outcomes cache (call T q stores outcomes cache) :=
      call_cases hget
    cases hresult : (call T q stores outcomes cache).result with
    | error e =>
      rw [hcase.cache_of_error hresult] at hrow
      exact .inl hrow
    | ok response =>
      obtain ⟨model, a, rest, -, -, rfl, hcache, hmodel⟩ := hcase.answer hresult
      rw [hcache] at hrow
      split_ifs at hrow with hpartial
      · exact .inl hrow
      · obtain hkept | hnew := List.mem_append.1 hrow
        · exact .inl (List.mem_filter.1 hkept).1
        · obtain rfl := List.mem_singleton.1 hnew
          refine .inr ⟨a, rest, rfl, rfl, hresult, ?_⟩
          obtain ⟨rfl, rfl, -⟩ | ⟨-, rfl, -⟩ := hmodel
          · exact .inl ⟨rfl, rfl⟩
          · exact .inr rfl

theorem lookup_fallbackFrom (a : Answer) (model : String) (rest : PyDict) :
    (a.toDict model ++ rest).lookup "fallback_from" = rest.lookup "fallback_from" := rfl

theorem lookup_model (a : Answer) (model : String) (rest : PyDict) :
    (a.toDict model ++ rest).lookup "model" = some (.str model) := rfl

theorem call_ownModel : OwnModel (q, call T q stores outcomes cache) := by
  intro body hbody hnone
  cases hget : cacheGet cache (q.hashPrompt q.model) with
  | some cached =>
    rw [call_of_hit hget] at hbody
    have hlast := congrArg List.getLast? (Except.ok.inj hbody)
    simp [replay] at hlast
  | none =>
    have hcase : CallCase T q stores outcomes cache (call T q stores outcomes cache) :=
      call_cases hget
    obtain ⟨model, a, rest, -, -, heq, -, hmodel⟩ := hcase.answer hbody
    obtain rfl := List.append_cancel_right heq
    rw [lookup_fallbackFrom] at hnone
    rw [lookup_model]
    obtain ⟨rfl, -⟩ | ⟨-, rfl, -⟩ := hmodel
    · rfl
    · cases hnone

variable (T stores outcomes) in
/-- A call that finds the row of an earlier call answers as that one did. -/
theorem WrittenBy.hit {row : CacheRow} {past : Request × Called} (h : WrittenBy row past)
    (hfind : cache.find? (·.promptHash = q.hashPrompt q.model) = some row) :
    ∃ (a : Answer) (rest : PyDict),
      Json.loads row.responseJson = some (.obj (a.toDict row.model ++ rest)) ∧
      call T q stores outcomes cache =
        ⟨.ok (a.toDict row.model ++ rest ++ [("_cached", .bool true)]), cache, 0, 0⟩ ∧
      past.2.result = .ok (a.toDict row.model ++ rest ++ [("_cached", .bool false)]) ∧
      row.promptHash = past.1.hashPrompt row.model ∧
      (row.model = past.1.model ∧ rest = [] ∨ rest = [("fallback_from", .str past.1.model)]) := by
  obtain ⟨a, rest, hhash, hjson, hresult, hrest⟩ := h
  have hloads : Json.loads row.responseJson = some (.obj (a.toDict row.model ++ rest)) := by
    rw [hjson, Json.loads_dumpsPlain]
  have hget : cacheGet cache (q.hashPrompt q.model) = some (a.toDict row.model ++ rest) := by
    rw [cacheGet, hfind]
    simp [hloads]
  refine ⟨a, rest, hloads, ?_, hresult, hhash, hrest⟩
  rw [call_of_hit hget]
  simp [replay, Answer.toDict]

theorem cacheGet_of_not_found {promptHash : String}
    (hfind : cache.find? (·.promptHash = promptHash) = none) : cacheGet cache promptHash = none := by
  rw [cacheGet, hfind]
  rfl

end Calls

/-- A step keeps the rows those of earlier calls. -/
theorem invoke_recorded {s t : History} {i : Invocation} (h : s.Recorded)
    (hstep : invoke T s i = some t) : t.Recorded := by
  cases hstep
  constructor
  · intro row hrow
    obtain hold | hnew := call_row hrow
    · obtain ⟨past, hpast, hwritten⟩ := h.rows row hold
      exact ⟨past, List.mem_append_left _ hpast, hwritten⟩
    · exact ⟨_, List.mem_append_right _ (List.mem_singleton.2 rfl), hnew⟩
  · intro past hpast
    obtain hold | hnew := List.mem_append.1 hpast
    · exact h.models past hold
    · obtain rfl := List.mem_singleton.1 hnew
      exact call_ownModel

theorem recorded_empty : History.empty.Recorded := ⟨nofun, nofun⟩

/-! ## Provenance -/

/-- What the dict of a call says of a fallback is true, and a hit gets what an earlier call of the
same model got live under the same hash. -/
structure Truthful (T : TextProbes) (s : History) (i : Invocation) : Prop where
  fallbackFrom : ∀ response, (i.called T s.cache).result = .ok response → ∀ m,
    response.lookup "fallback_from" = some m ↔
      m = .str i.request.model ∧ 0 < (i.called T s.cache).fallback
  hit : ∀ response, (i.called T s.cache).result = .ok response → (i.called T s.cache).primary = 0 →
    ∃ body, response = body ++ [("_cached", .bool true)] ∧
      ∃ past ∈ s.calls, past.1.model = i.request.model ∧
        past.1.hashPrompt past.1.model = i.request.hashPrompt i.request.model ∧
        past.2.result = .ok (body ++ [("_cached", .bool false)])

/-- The row under the hash of a call, if there is one, was written for the model of the call, and not
as a fallback. -/
def Direct (s : History) (q : Request) : Prop :=
  ∀ row, s.cache.find? (·.promptHash = q.hashPrompt q.model) = some row →
    row.model = q.model ∧ ¬ row.ofFallback

section Provenance

variable {s : History} {i : Invocation}

/-- A live call says the truth. -/
theorem truthful_of_miss (hmiss : cacheGet s.cache (i.request.hashPrompt i.request.model) = none) :
    Truthful T s i := by
  have hcase : CallCase T i.request i.stores i.outcomes s.cache (i.called T s.cache) :=
    call_cases hmiss
  constructor
  · intro response hresponse m
    obtain ⟨model, a, rest, -, -, rfl, -, hmodel⟩ := hcase.answer hresponse
    rw [List.append_assoc, lookup_fallbackFrom]
    obtain ⟨-, rfl, hzero⟩ | ⟨-, rfl, hpos⟩ := hmodel
    · simp [List.lookup_cons, hzero]
    · simp [hpos, eq_comm]
  · intro response hresponse hzero
    have hpos := hcase.primary_pos
    omega

/-- A hit says the truth exactly when its row was written for the model of the call, and not as a
fallback. -/
theorem truthful_of_hit (hs : s.Recorded) {row : CacheRow}
    (hfind : s.cache.find? (·.promptHash = i.request.hashPrompt i.request.model) = some row) :
    Truthful T s i ↔ row.model = i.request.model ∧ ¬ row.ofFallback := by
  obtain ⟨past, hpast, hwritten⟩ := hs.rows row (List.mem_of_find?_eq_some hfind)
  obtain ⟨a, rest, hloads, hcall, hresult, hhash, hrest⟩ :=
    hwritten.hit T i.stores i.outcomes hfind
  have hcalled : i.called T s.cache =
      ⟨.ok (a.toDict row.model ++ rest ++ [("_cached", .bool true)]), s.cache, 0, 0⟩ := hcall
  have hof : row.ofFallback ↔ ∃ m, rest.lookup "fallback_from" = some m := by
    constructor
    · rintro ⟨response, m, hresponse, hm⟩
      obtain rfl : a.toDict row.model ++ rest = response := by
        simpa using hloads.symm.trans hresponse
      exact ⟨m, hm⟩
    · rintro ⟨m, hm⟩
      exact ⟨_, m, hloads, hm⟩
  constructor
  · intro h
    have hnone : rest.lookup "fallback_from" = none := by
      rw [Option.eq_none_iff_forall_ne_some]
      intro m hm
      have htells := (h.fallbackFrom _ (by rw [hcalled]) m).1 (by
        rw [List.append_assoc, lookup_fallbackFrom, List.lookup_append, hm]
        rfl)
      rw [hcalled] at htells
      exact absurd htells.2 (Nat.lt_irrefl 0)
    refine ⟨?_, by simp [hof, hnone]⟩
    obtain ⟨body, hbody, past', hpast', hmodel, -, hlive⟩ :=
      h.hit _ (by rw [hcalled]) (by rw [hcalled])
    obtain rfl := List.append_cancel_right hbody
    have hown := hs.models past' hpast' _ hlive hnone
    rw [lookup_model, hmodel] at hown
    simpa using hown
  · rintro ⟨hmodel, hdirect⟩
    have hrest : row.model = past.1.model ∧ rest = [] := by
      obtain hown | rfl := hrest
      · exact hown
      · exact absurd (hof.2 ⟨_, rfl⟩) hdirect
    obtain ⟨hpastModel, rfl⟩ := hrest
    constructor
    · intro response hresponse m
      rw [hcalled] at hresponse ⊢
      cases hresponse
      rw [List.append_assoc, lookup_fallbackFrom]
      simp [List.lookup_cons]
    · intro response hresponse _
      rw [hcalled] at hresponse
      cases hresponse
      refine ⟨_, rfl, past, hpast, hpastModel.symm.trans hmodel, ?_, hresult⟩
      rw [← hpastModel, ← hhash]
      simpa using List.find?_some hfind

theorem truthful_iff (hs : s.Recorded) : Truthful T s i ↔ Direct s i.request := by
  cases hfind : s.cache.find? (·.promptHash = i.request.hashPrompt i.request.model) with
  | none =>
    have htrue : Truthful T s i := truthful_of_miss (cacheGet_of_not_found hfind)
    exact iff_of_true htrue fun row hrow => by simp [hfind] at hrow
  | some row =>
    rw [truthful_of_hit hs hfind]
    constructor
    · intro h row' hrow'
      obtain rfl : row = row' := by simpa [hfind] using hrow'
      exact h
    · intro h
      exact h row hfind

end Provenance

/-- Along every run, the calls say the truth of fallbacks as long as no call finds a row that was
written for another model or as a fallback, and no longer. -/
theorem provenance_iff (T : TextProbes) (calls : List Invocation) :
    Along (invoke T) (fun s i _ => Truthful T s i) .empty calls ↔
      Along (invoke T) (fun s i _ => Direct s i.request) .empty calls :=
  along_iff (fun s i t (hs : s.Recorded) (hstep : invoke T s i = some t) =>
    ⟨truthful_iff hs, fun _ => invoke_recorded hs hstep⟩) recorded_empty calls

/-- The primary is overloaded and its fallback answers; then the fallback is asked directly. -/
def thenDirect : List Invocation :=
  [⟨withFallback, true, overloadedPrimary⟩, ⟨⟨"gemini-b", none, id⟩, true, overloadedPrimary⟩]

/-- What the fallback answered, as it is stored. -/
def fallbackBody : PyDict :=
  [("text", .str "hi"), ("raw", .null), ("model", .str "gemini-b"), ("prompt_tokens", .int 3),
    ("completion_tokens", .int 2), ("stop_reason", .str "stop"), ("fallback_from", .str "gemini-a")]

/-- The direct call gets the row of the fallback, with the name of a model it did not ask. -/
theorem fallback_replayed :
    ¬ Along (invoke noProbes) (fun s i _ => Truthful noProbes s i) .empty thenDirect := by
  intro h
  obtain ⟨-, h⟩ := h _ rfl
  obtain ⟨htruthful, -⟩ := h _ rfl
  have hcache : (call noProbes withFallback true overloadedPrimary []).cache =
      [⟨"gemini-b", "gemini-b", Json.dumpsPlain (.obj fallbackBody)⟩] := by
    have hmiss : cacheGet [] (withFallback.hashPrompt withFallback.model) = none := rfl
    have hfirst : dispatchWithRetry noProbes "gemini-a" "gemini-a" overloadedPrimary =
        (.error (.transient "overloaded"), 3) := rfl
    have hsecond : dispatchWithRetry noProbes "gemini-b" "gemini-b"
        (fun i => overloadedPrimary (3 + i)) = (.ok ⟨"hi", .null, 3, 2, .stop⟩, 1) := rfl
    rw [call, hmiss]
    simp only [withFallback, id, hfirst, hsecond, LlmError.isCapacity, if_true]
    rfl
  have hget : cacheGet [⟨"gemini-b", "gemini-b", Json.dumpsPlain (.obj fallbackBody)⟩] "gemini-b" =
      some fallbackBody := by
    simp [cacheGet]
  have hresult : (call noProbes ⟨"gemini-b", none, id⟩ true overloadedPrimary
      (call noProbes withFallback true overloadedPrimary []).cache).result =
      .ok (replay fallbackBody) := by
    rw [hcache, call_of_hit (q := ⟨"gemini-b", none, id⟩) hget]
  have htells := (htruthful.fallbackFrom _ hresult (.str "gemini-a")).1 rfl
  simp at htells

end ParallaxKernel.Llm
