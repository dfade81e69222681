import ParallaxKernel.Lib.Float
import ParallaxKernel.Lib.Like
import ParallaxKernel.Lib.Rounding
import ParallaxKernel.Lib.TopK
import ParallaxKernel.Session.EventIndex
import ParallaxKernel.Session.Timeline

/-!
# Searches with and without the index

`by_file`, `by_entity` and `by_bug_fix` of `retrieve.py`, each over the full-text index where there
is one and over `LIKE` otherwise.
-/

namespace ParallaxKernel.Session

open Lib Store

/-! ## Scores -/

/-- `round(score, 6)`. -/
def round6 (score : ℚ) : ℚ := roundDecimals 6 score

/-- `_recency_score` at a clock reading in microseconds. -/
def recencyScore (now : Int) (createdAt : String) : ℚ :=
  match instantOf createdAt with
  | none => 0
  | some us =>
    let ageH := max (((now - us : Int) : ℚ) / 3600000000) 0
    max 0 (min 1 (1 / (1 + ageH / 24)))

/-- The engine with the clock at a reading and the rounding of a score. -/
def Engine.at (E : Engine) (now : Int) : Engine where
  newest := E.newest
  newest_perm := E.newest_perm
  newest_sorted := E.newest_sorted
  phrase := E.phrase
  like := E.like
  recency := recencyScore now
  round6 := Session.round6
  scoreText := E.scoreText

variable (E : Engine)

/-- `_claim_to_hit` for the given sum of the score's components. -/
def claimToHit (c : Claim) (score : ℚ) : Hit where
  entityKind := "claim"
  entityId := c.claimId
  title := if spo c = "" then "(empty claim)" else spo c
  score := E.round6 score

/-! ## Statements -/

/-- The rows whose column is like the pattern; a pattern is looked at only for a row. -/
def likeRows (pattern : String) (rows : List Event) : Except Exc (List Event) :=
  if rows ≠ [] ∧ tooComplex pattern = true then .error patternTooComplex
  else .ok (rows.filter fun e => Like.like (some '\\') pattern e.payloadJson)

/-- `ORDER BY created_at DESC LIMIT ?`; nothing is searched where there is no room for a row. -/
def newestRows (limit : Int) (found : Except Exc (List Event)) : Except Exc (List Event) :=
  if limit = 0 then .ok [] else found.map fun rows => limitRows limit (E.newest rows)

/-- `hits[:limit]`. -/
def firstHits (limit : Int) (hits : List Hit) : List Hit :=
  hits.take (if limit < 0 then hits.length - limit.natAbs else limit.toNat)

/-- `hits.sort(key=lambda h: h.score, reverse=True)`. -/
def sortHits (hits : List Hit) : List Hit := hits.insertionSort fun a b => b.score ≤ a.score

/-- The pattern for a text that stands anywhere. -/
def containsPattern (needle : PyStr) : PyStr :=
  .scalar '%' :: (likeEscape needle ++ [.scalar '%'])

/-- The rows that the needle stands in: over the index, where there is one and the needle has a
trigram. -/
def needleRows (index : Option (List FtsRow)) (userId : String) (needle : PyStr) (limit : Int)
    (rows : List Event) : Except Exc (List Event) :=
  match if 3 ≤ needle.length then index else none with
  | some index => do
    let pattern ← bindText (ftsScopedMatch userId (ftsPhrase needle))
    let limit ← bindLimit limit
    newestRows E limit ((searchIndex E pattern index).map (joinIndex rows))
  | none => do
    let pattern ← bindText (containsPattern needle)
    let limit ← bindLimit limit
    newestRows E limit (likeRows pattern rows)

/-! ## Events about a file -/

variable (s : IndexedDb) (userId : String)

/-- The events of a user. -/
def userEvents : List Event := s.db.events.filter fun e => e.userId == userId

/-- The file events of a user. -/
def fileEvents : List Event :=
  s.db.events.filter fun e => e.userId == userId && fileEventTypes.contains e.eventType

/-- The hit of an event that `by_file` finds. -/
def fileHit (e : Event) : Hit :=
  eventToHit E e (6 / 10 + 3 / 10 * E.recency e.createdAt + 1 / 10)

/-- `by_file`, with the choice between the index and `LIKE`. -/
def byFileIn (path : PyStr) (limit : Int) : Except Exc (List Hit) :=
  if path = [] then .ok []
  else do
    let rows ← needleRows E s.index userId path limit (fileEvents s userId)
    .ok (rows.map (fileHit E))

/-! ## Claims and events about a subject -/

/-- A confidence comes before another one in descending order, `NULL` last. -/
def confidenceBefore : Option PyFloat → Option PyFloat → Bool
  | some x, some y => y.lt x
  | some _, none => true
  | none, _ => false

/-- `ORDER BY confidence DESC, updated_at DESC, claim_id ASC`. -/
def claimBefore (c d : Claim) : Bool :=
  if confidenceBefore c.confidence d.confidence then true
  else if confidenceBefore d.confidence c.confidence then false
  else if d.updatedAt < c.updatedAt then true
  else if c.updatedAt < d.updatedAt then false
  else decide (c.claimId ≤ d.claimId)

def orderClaims (rows : List Claim) : List Claim := rows.insertionSort fun c d => claimBefore c d

/-- `LOWER(text)`. -/
def sqlLower (text : String) : String := String.ofList (text.toList.map Like.fold)

/-- `subject = ? OR LOWER(subject) LIKE ? ESCAPE '\'`. -/
def subjectMatches (subject pattern : String) (c : Claim) : Bool :=
  c.subject == subject || Like.like (some '\\') pattern (sqlLower c.subject)

/-- The claims of a user whose subject matches; the pattern is looked at for those of another
subject. -/
def matchingClaims (subject pattern : String) : Except Exc (List Claim) :=
  let own := s.db.claims.filter fun c => c.userId == userId
  if (own.any fun c => c.subject != subject) && tooComplex pattern then .error patternTooComplex
  else .ok (own.filter (subjectMatches subject pattern))

/-- The pattern for a subject that starts like the given one, for a `str.lower`. -/
def prefixLike (lower : PyStr → PyStr) (subject : PyStr) : PyStr :=
  likeEscape (lower subject) ++ [.scalar '%']

/-- The first query of `by_entity`. -/
def entityClaims (lower : PyStr → PyStr) (subject : PyStr) (limit : Int) :
    Except Exc (List Claim) := do
  let text ← bindText subject
  let pattern ← bindText (prefixLike lower subject)
  let limit ← bindLimit limit
  if limit = 0 then .ok []
  else (matchingClaims s userId text pattern).map fun rows => limitRows limit (orderClaims rows)

/-- The hit of a claim that `by_entity` finds. -/
def entityClaimHit (subject : PyStr) (c : Claim) : Hit :=
  claimToHit E c ((if .ofString c.subject = subject then 1 else 6 / 10) + 1 / 10)

/-- The hit of an event that `by_entity` finds. -/
def entityEventHit (e : Event) : Hit := eventToHit E e (5 / 10 + 3 / 10 * E.recency e.createdAt)

/-- The rows of the two queries of `by_entity`, none of them for an empty subject. -/
def entityRows (lower : PyStr → PyStr) (subject : PyStr) (limit : Int) :
    Except Exc (List Claim × List Event) :=
  if subject = [] then .ok ([], [])
  else do
    let claimRows ← entityClaims s userId lower subject limit
    let eventRows ← needleRows E s.index userId subject limit (userEvents s userId)
    .ok (claimRows, eventRows)

def byEntity (lower : PyStr → PyStr) (subject : PyStr) (limit : Int) : Except Exc (List Hit) := do
  let (claimRows, eventRows) ← entityRows E s userId lower subject limit
  .ok (firstHits limit (sortHits
    (claimRows.map (entityClaimHit E subject) ++ eventRows.map (entityEventHit E))))

/-! ## Claims and events about fixes -/

/-- `_FIX_TOKENS`. -/
def fixTokens : List String := ["fix", "bug", "FIX-", "regression", "hotfix"]

/-- The quoted tokens with an `OR` between them. -/
def fixExpr : PyStr :=
  .scalar '(' :: ((PyStr.ofString " OR ").intercalate
    (fixTokens.map fun tok => ftsPhrase (.ofString tok)) ++ [.scalar ')'])

/-- One of the tokens stands in the text. -/
def likeFix (text : String) : Bool :=
  fixTokens.any fun tok => Like.like none ("%" ++ tok ++ "%") text

/-- The events with a token in their payload. -/
def fixEvents (limit : Int) : Except Exc (List Event) :=
  match if fixTokens.all fun tok => 3 ≤ tok.length then s.index else none with
  | some index => do
    let pattern ← bindText (ftsScopedMatch userId fixExpr)
    let limit ← bindLimit limit
    newestRows E limit ((searchIndex E pattern index).map (joinIndex (userEvents s userId)))
  | none => do
    let limit ← bindLimit limit
    newestRows E limit (.ok ((userEvents s userId).filter fun e => likeFix e.payloadJson))

/-- The claims with a token in their subject, predicate or object. -/
def fixClaims : List Claim :=
  s.db.claims.filter fun c => c.userId == userId &&
    (likeFix c.subject || likeFix c.predicate || likeFix c.object)

/-- The hit of an event that `by_bug_fix` finds. -/
def fixEventHit (e : Event) : Hit := eventToHit E e (6 / 10 + 4 / 10 * E.recency e.createdAt)

/-- The hit of a claim that `by_bug_fix` finds. -/
def fixClaimHit (c : Claim) : Hit := claimToHit E c (7 / 10 + 1 / 10)

/-- The claims without those whose id has been `seen` before. -/
def unseenClaims (rows : List Claim) : List Claim :=
  (rows.foldl (collectFirst fun c => some c.claimId) ([], [])).2

def byBugFix (limit : Int) : Except Exc (List Hit) := do
  let eventRows ← fixEvents E s userId limit
  let claimRows := unseenClaims (limitRows limit (orderClaims (fixClaims s userId)))
  .ok (firstHits limit (sortHits (eventRows.map (fixEventHit E) ++ claimRows.map (fixClaimHit E))))

/-! ### Samples on ASCII -/

/-- `str.lower` on ASCII. -/
def asciiLower (s : PyStr) : PyStr :=
  s.map fun
    | .scalar c => .scalar (Like.fold c)
    | .lone unit => .lone unit

def trigramEngine : Engine :=
  { sampleEngine with
    phrase := fun p t => decide (3 ≤ p.toList.length ∧
      p.toList.map Like.fold <:+: t.toList.map Like.fold) }

end ParallaxKernel.Session
