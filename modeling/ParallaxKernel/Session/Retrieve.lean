import Mathlib.Algebra.Order.Ring.Rat
import Mathlib.Data.List.Sort
import Mathlib.Data.String.Basic
import ParallaxKernel.Lib.Act
import ParallaxKernel.Lib.FtsQuery
import ParallaxKernel.Lib.Like
import ParallaxKernel.Lib.PyJson
import ParallaxKernel.Store.Hashing
import ParallaxKernel.Store.Schema

/-!
# Retrieval of events

`recent_context`, `by_file` and `by_decision` of `retrieve.py`. What the engine leaves open, the
recency of a row at the time of the call and the rounding of a score are an `Engine`.
-/

namespace ParallaxKernel.Session

open Lib Store

/-- The answers of the database engine and of the clock that a call goes by. -/
structure Engine where
  /-- `ORDER BY created_at DESC`, rows of one time in any order. -/
  newest : List Event → List Event
  newest_perm : ∀ rows, (newest rows).Perm rows
  newest_sorted : ∀ rows, (newest rows).Pairwise fun e f => f.createdAt ≤ e.createdAt
  /-- Whether the trigrams of a phrase stand in a text, one after the other. -/
  phrase : String → String → Bool
  /-- `LIKE … ESCAPE '\'` with the pattern first. -/
  like : String → String → Bool
  /-- `_recency_score`. -/
  recency : String → ℚ
  /-- `round(score, 6)`. -/
  round6 : ℚ → ℚ
  /-- A score with three decimals. -/
  scoreText : ℚ → String

def surrogatesNotAllowed : Exc := .valueError "surrogates not allowed"

/-- A string that is bound to a parameter of a statement. -/
def bindText (s : PyStr) : Except Exc String :=
  match s.encode? with
  | some text => .ok text
  | none => .error surrogatesNotAllowed

/-- An integer that is bound to a parameter of a statement. -/
def bindLimit (n : Int) : Except Exc Int :=
  if -2 ^ 63 ≤ n ∧ n < 2 ^ 63 then .ok n
  else .error (.overflowError "Python int too large to convert to SQLite INTEGER")

/-- `LIMIT ?`, no limit where it is negative. -/
def limitRows {α : Type} (limit : Int) (rows : List α) : List α :=
  if limit < 0 then rows else rows.take limit.toNat

/-- `SQLITE_MAX_LIKE_PATTERN_LENGTH`. -/
def tooComplex (pattern : String) : Bool := decide (50000 < pattern.utf8ByteSize)

def patternTooComplex : Exc := .operationalError "LIKE or GLOB pattern too complex"

/-- `FILE_EVENT_TYPES`. -/
def fileEventTypes : List String := ["tool.edit", "tool.write", "file.edit"]

/-! ## Hits -/

/-- The fields of the first projection of a `RetrievalHit`. -/
structure Hit where
  entityKind : String
  entityId : String
  title : String
  score : ℚ

/-- `_event_title`. -/
def eventTitle (e : Event) : String :=
  match e.targetKind, e.targetId with
  | some kind, some id =>
    if kind ≠ "" ∧ id ≠ "" then e.eventType ++ " [" ++ kind ++ ":" ++ id ++ "]" else e.eventType
  | _, _ => e.eventType

/-- `_event_to_hit` for the given sum of the score's components. -/
def eventToHit (E : Engine) (e : Event) (score : ℚ) : Hit where
  entityKind := "event"
  entityId := e.eventId
  title := eventTitle e
  score := E.round6 score

variable (E : Engine) (db : Db)

/-- The session of the newest `session.start` event. -/
def latestSessionId (userId : String) : Option String :=
  let rows := E.newest (db.events.filter fun e =>
    e.userId == userId && e.eventType == "session.start")
  rows.head?.bind (·.sessionId)

/-! ## Recent context -/

def recentContext (userId : String) (sessionId : Option String) (limit : Nat) : List Hit :=
  let rows := match sessionId <|> latestSessionId E db userId with
    | none => E.newest (db.events.filter fun e => e.userId == userId)
    | some session =>
      E.newest (db.events.filter fun e => e.userId == userId && e.sessionId == some session)
  let hits := (rows.take limit).map fun e => eventToHit E e (E.recency e.createdAt)
  hits.insertionSort fun a b => b.score ≤ a.score

/-! ## Events about a file -/

/-- `_like_escape`. -/
def likeEscape (s : PyStr) : PyStr :=
  s.flatMap fun c =>
    if c = .scalar '\\' ∨ c = .scalar '%' ∨ c = .scalar '_' then [.scalar '\\', c] else [c]

theorem likeEscape_ofChars (cs : List Char) :
    likeEscape (.ofChars cs) = .ofChars (cs.flatMap Like.escapeChar) := by
  induction cs with
  | nil => rfl
  | cons c cs ih =>
    rw [List.flatMap_cons, PyStr.ofChars_append, ← ih]
    simp only [likeEscape, PyStr.ofChars, List.map_cons, List.flatMap_cons, Like.escapeChar,
      PyChar.scalar.injEq]
    split_ifs <;> rfl

/-- `_fts_phrase`. -/
def ftsPhrase (text : PyStr) : PyStr :=
  .scalar '"' ::
    (text.flatMap (fun c => if c = .scalar '"' then [c, c] else [c]) ++ [.scalar '"'])

/-- `_fts_user_tag`. -/
def ftsUserTag (userId : String) : String := "\x02" ++ userId ++ "\x02"

/-- `_fts_scoped_match`. -/
def ftsScopedMatch (userId : String) (payloadExpr : PyStr) : PyStr :=
  .ofString "user_tag:" ++ ftsPhrase (.ofString (ftsUserTag userId)) ++
    (.ofString " AND payload_json:" ++ payloadExpr)

/-- The columns of the row of `events_fts` that goes with an event. -/
def ftsRow (e : Event) : List (List Char × String) :=
  [("event_id".toList, e.eventId), ("user_tag".toList, ftsUserTag e.userId),
    ("payload_json".toList, e.payloadJson)]

def syntaxError : Fts.SyntaxError → Exc
  | .unterminated => .operationalError "unterminated string"
  | .unexpected => .operationalError "fts5: syntax error"

/-- `events_fts MATCH pattern` on the rows that the trigger keeps for the events. -/
def ftsMatch (pattern : String) (rows : List Event) : Except Exc (List Event) :=
  match Fts.parse pattern.toList with
  | .error e => .error (syntaxError e)
  | .ok terms =>
    let columns := ["event_id".toList, "user_tag".toList, "payload_json".toList]
    match terms.find? fun t => !columns.contains t.column with
    | some t => .error (.operationalError ("no such column: " ++ String.ofList t.column))
    | none => .ok (rows.filter fun e => terms.all fun t =>
        ((ftsRow e).lookup t.column).any (E.phrase (String.ofList t.text)))

/-- The file events whose payload the path stands in. -/
def fileRows (userId : String) (path : PyStr) (files : List Event) : Except Exc (List Event) :=
  if 3 ≤ path.length then do
    let pattern ← bindText (ftsScopedMatch userId (ftsPhrase path))
    ftsMatch E pattern files
  else do
    let pattern ← bindText (.scalar '%' :: (likeEscape path ++ [.scalar '%']))
    .ok (files.filter fun e => E.like pattern e.payloadJson)

def byFile (userId : String) (path : PyStr) (limit : Nat) : Except Exc (List Hit) :=
  if path = [] then .ok []
  else do
    let rows ← fileRows E userId path (db.events.filter fun e =>
      e.userId == userId && fileEventTypes.contains e.eventType)
    .ok (((E.newest rows).take limit).map fun e =>
      eventToHit E e (6 / 10 + 3 / 10 * E.recency e.createdAt + 1 / 10))

/-! ## Decisions -/

/-- `event_type = 'claim.state_changed' OR event_type LIKE 'decision.%'`. -/
def isDecision (e : Event) : Bool :=
  e.eventType == "claim.state_changed" ||
    "decision.".toList.isPrefixOf (e.eventType.toList.map Char.toLower)

/-- The subject, predicate and object of a claim in one line. -/
def spo (c : Claim) : String := strip (c.subject ++ " " ++ c.predicate ++ " " ++ c.object)

def byDecision (userId : String) (limit : Nat) : List Hit :=
  let rows := (E.newest (db.events.filter fun e => e.userId == userId && isDecision e)).take limit
  let claimIds := rows.filterMap fun e =>
    if e.targetKind = some "claim" then e.targetId.filter (· ≠ "") else none
  let claims := db.claims.filter fun c => c.userId == userId && claimIds.contains c.claimId
  rows.map fun e =>
    let hit := eventToHit E e (1 / 2 + 1 / 2 * E.recency e.createdAt)
    match claims.find? fun c => c.claimId == e.targetId.getD "" with
    | none => hit
    | some c => if spo c = "" then hit else { hit with title := spo c ++ " — " ++ hit.title }

/-! ## When a search by file raises -/

/-- A path that the search can take: the engine can encode it, and an expression that quotes it is
not cut short. -/
structure Searchable (userId : String) (path : PyStr) : Prop where
  encodable : path.encode?.isSome = true
  noNul : 3 ≤ path.length → .scalar '\x00' ∉ path ∧ '\x00' ∉ userId.toList

theorem mapM_scalar?_double (s : PyStr) :
    (s.flatMap fun c => if c = .scalar '"' then [c, c] else [c]).mapM PyChar.scalar? =
      (s.mapM PyChar.scalar?).map fun cs => cs.flatMap Fts.double := by
  induction s with
  | nil => rfl
  | cons c s ih =>
    rw [List.flatMap_cons, PyStr.mapM_scalar?_append, ih, List.mapM_cons]
    cases c with
    | lone unit => simp [PyChar.scalar?]
    | scalar c =>
      cases s.mapM PyChar.scalar? with
      | none => split_ifs <;> simp [PyChar.scalar?]
      | some cs =>
        by_cases hc : c = '"'
        · subst hc
          rfl
        · simp [hc, PyChar.scalar?, Fts.double]

theorem mapM_scalar?_ftsPhrase (text : PyStr) :
    (ftsPhrase text).mapM PyChar.scalar? = (text.mapM PyChar.scalar?).map Fts.quote := by
  rw [ftsPhrase, List.mapM_cons, PyStr.mapM_scalar?_append, mapM_scalar?_double]
  cases text.mapM PyChar.scalar? <;> rfl

/-- The terms of the expression that `by_file` searches with. -/
def searchTerms (userId : String) (path : List Char) : List Fts.Term :=
  [⟨"user_tag".toList, (ftsUserTag userId).toList⟩, ⟨"payload_json".toList, path⟩]

theorem searchTerms_named (userId : String) (path : List Char) :
    ∀ t ∈ searchTerms userId path, t.Named := by
  simp only [searchTerms, List.mem_cons, List.not_mem_nil, or_false, forall_eq_or_imp, forall_eq,
    Fts.Term.Named]
  exact ⟨⟨by decide, List.all_eq_true.1 (by decide)⟩, by decide, List.all_eq_true.1 (by decide)⟩

theorem encode?_ftsScopedMatch (userId : String) (cs : List Char) :
    (ftsScopedMatch userId (ftsPhrase (.ofChars cs))).encode? =
      some (String.ofList (Fts.render (searchTerms userId cs))) := by
  rw [ftsScopedMatch, PyStr.encode?, PyStr.mapM_scalar?_append, PyStr.mapM_scalar?_append,
    PyStr.mapM_scalar?_append, mapM_scalar?_ftsPhrase, mapM_scalar?_ftsPhrase]
  simp only [PyStr.ofString, PyStr.mapM_scalar?_ofChars, Option.map_some, Option.bind_some,
    Option.some.injEq, String.ofList_inj]
  simp [searchTerms, Fts.render, Fts.Term.render, Fts.conjunction]

/-- The expression for a path has an encoding only if the path has one. -/
theorem encode?_ftsScopedMatch_isSome {userId : String} {path : PyStr}
    (h : (ftsScopedMatch userId (ftsPhrase path)).encode?.isSome = true) :
    path.encode?.isSome = true := by
  rw [PyStr.encode?_isSome] at h ⊢
  intro unit hunit
  refine h unit ?_
  have hphrase : .lone unit ∈ ftsPhrase path := by
    simp only [ftsPhrase, List.mem_cons, List.mem_append, List.mem_flatMap]
    exact .inr (.inl ⟨.lone unit, hunit, by simp⟩)
  simp [ftsScopedMatch, hphrase]

theorem encode?_likePattern_isSome {path : PyStr} :
    (PyStr.encode? (.scalar '%' :: (likeEscape path ++ [.scalar '%']))).isSome =
      path.encode?.isSome := by
  rw [Bool.eq_iff_iff, PyStr.encode?_isSome, PyStr.encode?_isSome]
  refine forall_congr' fun unit => not_congr ?_
  simp only [likeEscape, List.mem_cons, List.mem_append, List.mem_flatMap, List.not_mem_nil,
    or_false, reduceCtorEq, false_or]
  constructor
  · rintro ⟨c, hc, hunit⟩
    have hself : .lone unit = c := by
      split_ifs at hunit
      · simpa using hunit
      · exact List.mem_singleton.1 hunit
    exact hself ▸ hc
  · intro h
    exact ⟨.lone unit, h, by simp⟩

theorem ftsMatch_ok_iff (userId : String) (cs : List Char) (rows : List Event) :
    (∃ found, ftsMatch E (String.ofList (Fts.render (searchTerms userId cs))) rows = .ok found) ↔
      '\x00' ∉ cs ∧ '\x00' ∉ userId.toList := by
  have htag : '\x00' ∈ (ftsUserTag userId).toList ↔ '\x00' ∈ userId.toList := by
    simp [ftsUserTag]
  unfold ftsMatch
  rw [String.toList_ofList]
  by_cases h : '\x00' ∉ cs ∧ '\x00' ∉ userId.toList
  · have hnul : ∀ t ∈ searchTerms userId cs, '\x00' ∉ t.text := by
      simp [searchTerms, htag, h]
    rw [Fts.parse_render (by simp [searchTerms]) (searchTerms_named userId cs) hnul]
    simp [searchTerms, h]
  · have hnul : ∃ t ∈ searchTerms userId cs, '\x00' ∈ t.text := by
      simp only [searchTerms, List.mem_cons, List.not_mem_nil, or_false, exists_eq_or_imp,
        exists_eq_left, htag]
      tauto
    rw [Fts.parse_render_of_nul (searchTerms_named userId cs) hnul]
    simp [h]

theorem bindText_ok_iff {s : PyStr} {text : String} :
    bindText s = .ok text ↔ s.encode? = some text := by
  unfold bindText
  cases s.encode? <;> simp

theorem ftsRows_ok_iff (userId : String) (path : PyStr) (files : List Event) :
    (∃ rows, (do
      let pattern ← bindText (ftsScopedMatch userId (ftsPhrase path))
      ftsMatch E pattern files) = .ok rows) ↔
    path.encode?.isSome = true ∧ .scalar '\x00' ∉ path ∧ '\x00' ∉ userId.toList := by
  simp only [except_bind_eq_ok, bindText_ok_iff]
  constructor
  · rintro ⟨rows, pattern, hpattern, hrows⟩
    have hencodable := encode?_ftsScopedMatch_isSome (Option.isSome_of_eq_some hpattern)
    obtain ⟨text, htext⟩ := Option.isSome_iff_exists.1 hencodable
    obtain rfl := PyStr.encode?_eq_some.1 htext
    rw [PyStr.ofString, encode?_ftsScopedMatch] at hpattern
    obtain rfl := Option.some.inj hpattern
    have hnul := (ftsMatch_ok_iff E userId text.toList files).1 ⟨rows, hrows⟩
    exact ⟨hencodable, by simpa [PyStr.ofString] using hnul⟩
  · rintro ⟨hencodable, hnul⟩
    obtain ⟨text, htext⟩ := Option.isSome_iff_exists.1 hencodable
    obtain rfl := PyStr.encode?_eq_some.1 htext
    have hclean : '\x00' ∉ text.toList ∧ '\x00' ∉ userId.toList := by
      simpa [PyStr.ofString] using hnul
    obtain ⟨rows, hrows⟩ := (ftsMatch_ok_iff E userId text.toList files).2 hclean
    exact ⟨rows, _, encode?_ftsScopedMatch userId text.toList, hrows⟩

theorem fileRows_ok_iff (userId : String) (path : PyStr) (files : List Event) :
    (∃ rows, fileRows E userId path files = .ok rows) ↔ Searchable userId path := by
  unfold fileRows
  split_ifs with hlong
  · rw [ftsRows_ok_iff]
    constructor
    · rintro ⟨hencodable, hnul⟩
      exact ⟨hencodable, fun _ => hnul⟩
    · intro h
      exact ⟨h.encodable, h.noNul hlong⟩
  · simp only [except_bind_eq_ok, bindText_ok_iff]
    constructor
    · rintro ⟨rows, pattern, hpattern, -⟩
      refine ⟨?_, fun h => absurd h hlong⟩
      rw [← encode?_likePattern_isSome, hpattern]
      rfl
    · intro h
      obtain ⟨pattern, hpattern⟩ := Option.isSome_iff_exists.1
        (encode?_likePattern_isSome.trans h.encodable)
      exact ⟨_, pattern, hpattern, rfl⟩

/-- A search by file raises exactly for a path that it cannot take. -/
theorem byFile_ok_iff (userId : String) (path : PyStr) (limit : Nat) :
    (∃ hits, byFile E db userId path limit = .ok hits) ↔ Searchable userId path := by
  unfold byFile
  split_ifs with hempty
  · subst hempty
    have hsearch : Searchable userId [] := ⟨rfl, fun h => absurd h (by decide)⟩
    simp [hsearch]
  · rw [← fileRows_ok_iff E userId path (db.events.filter fun e =>
      e.userId == userId && fileEventTypes.contains e.eventType)]
    simp [except_bind_eq_ok]

/-! ### An engine that finds nothing -/

/-- `ORDER BY created_at DESC`. -/
def LaterFirst (e f : Event) : Prop := f.createdAt ≤ e.createdAt

instance : DecidableRel LaterFirst := fun e f =>
  inferInstanceAs (Decidable (f.createdAt ≤ e.createdAt))

instance : Std.Total LaterFirst := ⟨fun e f => le_total f.createdAt e.createdAt⟩

instance : IsTrans Event LaterFirst := ⟨fun _ _ _ hef hfg => le_trans hfg hef⟩

def sampleEngine : Engine where
  newest rows := rows.insertionSort LaterFirst
  newest_perm rows := List.perm_insertionSort LaterFirst rows
  newest_sorted rows := rows.pairwise_insertionSort LaterFirst
  phrase _ _ := false
  like _ _ := false
  recency _ := 1
  round6 := id
  scoreText _ := "1.000"

end ParallaxKernel.Session
