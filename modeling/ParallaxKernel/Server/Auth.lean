import ParallaxKernel.Lib.Like
import ParallaxKernel.Lib.Since
import ParallaxKernel.Session.Retrieve
import ParallaxKernel.Store.Hashing

/-!
# Bearer tokens

`server/auth.py`, and the commands of `cli.py` that mint and revoke tokens: the modes that the
environment selects, the dependency `require_auth` and the table `api_tokens`. A token opens the
server to a user exactly since it has been minted for them and not been revoked.
-/

namespace ParallaxKernel.Server

open Lib Store

/-! ## Modes -/

/-- The variables that `auth.py` reads, `none` for one that is not set. -/
structure AuthEnv where
  parallaxToken : Option String
  parallaxMultiUser : Option String
  parallaxMetricsPublic : Option String
  parallaxBindHost : Option String
  parallaxAllowOpenPublic : Option String

/-- How an authentication ends that lets nobody in. -/
inductive AuthExc where
  | httpException (status : Nat) (detail : String)
  /-- The refusal to start, for the host it names. -/
  | runtimeError (bindHost : String)
  | assertionError (msg : String)
  | typeError (msg : String)
  deriving DecidableEq

/-- `os.environ.get(name, "").strip()`. -/
def environ (v : Option String) : String := strip (v.getD "")

/-- `str.lower()` as far as comparisons with texts of ASCII without a `k` can tell: beyond ASCII
only the Kelvin sign has the lower case of an ASCII letter. -/
def lower (s : String) : String := String.ofList (s.toList.map Like.fold)

def selected (v : Option String) : Bool := ["1", "true"].contains (lower (environ v))

def authConfigured (env : AuthEnv) : Bool := environ env.parallaxToken != ""

def multiUserMode (env : AuthEnv) : Bool := selected env.parallaxMultiUser

def metricsPublicAllowed (env : AuthEnv) : Bool := selected env.parallaxMetricsPublic

def metricsAuthRequired (env : AuthEnv) : Bool :=
  if metricsPublicAllowed env then false else authConfigured env || multiUserMode env

def localhostHosts : List String := ["127.0.0.1", "localhost", "::1", "[::1]", ""]

def bindHostIsSafe : Option String → Bool
  | none => true
  | some host => localhostHosts.contains (lower (strip host))

def assertSafeToStart (env : AuthEnv) : Except AuthExc Unit :=
  if selected env.parallaxAllowOpenPublic then .ok ()
  else
    let bindHost := env.parallaxBindHost.getD ""
    if bindHostIsSafe (some bindHost) then .ok ()
    else if authConfigured env || multiUserMode env then .ok ()
    else .error (.runtimeError bindHost)

/-! ## Tokens -/

/-- A row of `api_tokens`. -/
structure ApiToken where
  tokenHash : String
  userId : String
  createdAt : String
  revokedAt : Option String
  label : Option String
  deriving DecidableEq

/-- The table, within its primary key. -/
structure TokenTable where
  rows : List ApiToken
  hash_nodup : (rows.map ApiToken.tokenHash).Nodup

namespace TokenTable

def empty : TokenTable := ⟨[], by simp⟩

def insert (t : TokenTable) (row : ApiToken) (h : row.tokenHash ∉ t.rows.map ApiToken.tokenHash) :
    TokenTable where
  rows := t.rows ++ [row]
  hash_nodup := by
    rw [List.map_append]
    exact List.Nodup.append t.hash_nodup (List.nodup_singleton _) (by simpa using h)

/-- `UPDATE api_tokens SET revoked_at = ? WHERE token_hash = ?`. -/
def setRevoked (t : TokenTable) (tokenHash now : String) : TokenTable where
  rows := t.rows.map fun row =>
    if row.tokenHash = tokenHash then { row with revokedAt := some now } else row
  hash_nodup := by
    have hkeys : ApiToken.tokenHash ∘ (fun row : ApiToken =>
        if row.tokenHash = tokenHash then { row with revokedAt := some now } else row) =
        ApiToken.tokenHash := by
      funext row
      simp only [Function.comp_apply]
      split_ifs <;> rfl
    rw [List.map_map, hkeys]
    exact t.hash_nodup

end TokenTable

inductive ExitCode where
  | ok
  | userError
  deriving DecidableEq

section

variable (sha256 : String → String)

def hashToken (plaintext : String) : String := sha256 plaintext

/-- `parallax token create`; no table is a database without migration 9. -/
def tokenCreate (userId : String) (label : Option String) (plaintext now : String) :
    Option TokenTable → ExitCode × Option TokenTable
  | none => (.userError, none)
  | some t =>
    if h : hashToken sha256 plaintext ∈ t.rows.map ApiToken.tokenHash then (.userError, some t)
    else (.ok, some (t.insert ⟨hashToken sha256 plaintext, userId, now, none, label⟩ h))

def tokenMinPrefix : Nat := 6

/-- `prefix` is long enough, and hexadecimal. -/
def wellFormedPrefix (tokenPrefix : String) : Bool :=
  decide (tokenMinPrefix ≤ tokenPrefix.length) &&
    (lower tokenPrefix).toList.all "0123456789abcdef".toList.contains

/-- `parallax token revoke`. -/
def tokenRevoke (tokenPrefix now : String) : Option TokenTable → ExitCode × Option TokenTable
  | none => (.userError, none)
  | some t =>
    if wellFormedPrefix tokenPrefix = false then (.userError, some t)
    else if Session.tooComplex (tokenPrefix ++ "%") then (.userError, some t)
    else
      match t.rows.filter fun row => Like.like none (tokenPrefix ++ "%") row.tokenHash with
      | [] => (.userError, some t)
      | [row] =>
        if row.revokedAt.isSome then (.ok, some t)
        else (.ok, some (t.setRevoked row.tokenHash now))
      | _ :: _ :: _ => (.userError, some t)

/-- What an operator does to the tokens, with the token and the time it draws. -/
inductive TokenCommand where
  | create (userId : String) (label : Option String) (plaintext now : String)
  | list
  | revoke (tokenPrefix now : String)

def TokenCommand.run (t : Option TokenTable) : TokenCommand → Option TokenTable
  | create userId label plaintext now => (tokenCreate sha256 userId label plaintext now t).2
  | list => t
  | revoke tokenPrefix now => (tokenRevoke tokenPrefix now t).2

/-! ## Requests -/

structure HttpAuthorizationCredentials where
  scheme : String
  credentials : String

/-- What `require_auth` returns. -/
inductive Principal where
  | anyone
  | bearer
  | user (userId : String)
  deriving DecidableEq

def Principal.text : Principal → String
  | anyone => "open"
  | bearer => "bearer"
  | user userId => "user:" ++ userId

/-- `request.state.user_id`, once the request is authenticated. -/
def Principal.userId : Principal → Option String
  | user userId => some userId
  | _ => none

def unauthorized (detail : String) : AuthExc := .httpException 401 detail

def resolveMultiUserToken (supplied : String) (t : Option TokenTable) : Except AuthExc String :=
  match t with
  | none => .error (unauthorized "invalid bearer token")
  | some t =>
    match t.rows.find? fun row => row.tokenHash == hashToken sha256 supplied with
    | none => .error (unauthorized "invalid bearer token")
    | some row =>
      if row.revokedAt.isSome then .error (unauthorized "invalid bearer token")
      else .ok row.userId

/-- `hmac.compare_digest` of two texts. -/
def compareDigest (a b : String) : Except AuthExc Bool :=
  if (a.toList ++ b.toList).all fun c => decide (c.toNat < 128) then .ok (a == b)
  else .error (.typeError "comparing strings with non-ASCII characters is not supported")

/-- The text of the token that a request carries, if it carries one. -/
def suppliedToken : Option HttpAuthorizationCredentials → Except AuthExc String
  | none => .error (unauthorized "missing bearer token")
  | some creds =>
    if lower creds.scheme = "bearer" then .ok (strip creds.credentials)
    else .error (unauthorized "missing bearer token")

/-- The dependency of the routes; `conn` is the table of a connection, if there is one. -/
def requireAuth (env : AuthEnv) (creds : Option HttpAuthorizationCredentials)
    (conn : Option (Option TokenTable)) : Except AuthExc Principal := do
  if multiUserMode env then
    let supplied ← suppliedToken creds
    if supplied = "" then throw (unauthorized "missing bearer token")
    match conn with
    | none => throw (.assertionError "multi-user mode requires a DB connection")
    | some t => return .user (← resolveMultiUserToken sha256 supplied t)
  else if authConfigured env = false then
    return .anyone
  else
    let supplied ← suppliedToken creds
    if ← compareDigest supplied (environ env.parallaxToken) then return .bearer
    else throw (unauthorized "invalid bearer token")

/-- `GET /metrics` answers with its payload. -/
def metricsAllowed (env : AuthEnv) (creds : Option HttpAuthorizationCredentials)
    (t : Option TokenTable) : Except AuthExc Unit := do
  if metricsAuthRequired env then
    let _ ← requireAuth sha256 env creds (if multiUserMode env then some t else none)

/-- `GET /inspect/health` answers with the whole report, not with the status alone. An exception
that is no `HTTPException` passes on. -/
def healthInFull (env : AuthEnv) (creds : Option HttpAuthorizationCredentials)
    (t : Option TokenTable) : Except AuthExc Bool :=
  if authConfigured env || multiUserMode env then
    match requireAuth sha256 env creds (some t) with
    | .ok _ => .ok true
    | .error (.httpException _ _) => .ok false
    | .error e => .error e
  else .ok true

/-! ## What the log of commands says -/

/-- The hashes of the tokens that a log has drawn. -/
def mintedHashes (log : List TokenCommand) : List String :=
  log.filterMap fun
    | .create _ _ plaintext _ => some (hashToken sha256 plaintext)
    | _ => none

end

def BeginsWith (tokenHash tokenPrefix : String) : Prop :=
  tokenPrefix.toList.map Like.fold <+: tokenHash.toList.map Like.fold

/-- A revocation names this hash and no other one of those minted. -/
def Revokes (minted : List String) (tokenHash tokenPrefix : String) : Prop :=
  (wellFormedPrefix tokenPrefix = true ∧ Session.tooComplex (tokenPrefix ++ "%") = false) ∧
    BeginsWith tokenHash tokenPrefix ∧
    ∀ other ∈ minted, BeginsWith other tokenPrefix → other = tokenHash

/-- A token with the hash was minted for the user, the first one with it, and no revocation has
named it since. -/
def Opens (sha256 : String → String) (tokenHash userId : String) : List TokenCommand → Prop :=
  Since
    (fun before c => ∃ label plaintext now, c = .create userId label plaintext now ∧
      hashToken sha256 plaintext = tokenHash ∧ tokenHash ∉ mintedHashes sha256 before)
    (fun past c => ∃ tokenPrefix now, c = .revoke tokenPrefix now ∧
      Revokes (mintedHashes sha256 past) tokenHash tokenPrefix)

/-- The table that a database with migration 9 has after the commands. -/
def tableAfter (sha256 : String → String) (log : List TokenCommand) : Option TokenTable :=
  log.foldl (TokenCommand.run sha256) (some .empty)

/-! ## Revocation -/

namespace TokenTable

variable {t : TokenTable}

theorem hashes_insert {row : ApiToken} (h : row.tokenHash ∉ t.rows.map ApiToken.tokenHash) :
    (t.insert row h).rows.map ApiToken.tokenHash =
      t.rows.map ApiToken.tokenHash ++ [row.tokenHash] := by
  simp [insert]

theorem hashes_setRevoked (tokenHash now : String) :
    (t.setRevoked tokenHash now).rows.map ApiToken.tokenHash = t.rows.map ApiToken.tokenHash := by
  rw [setRevoked, List.map_map]
  refine List.map_congr_left fun row _ => ?_
  simp only [Function.comp_apply]
  split_ifs <;> rfl

theorem mem_setRevoked {row : ApiToken} (hlive : row.revokedAt = none) (tokenHash now : String) :
    row ∈ (t.setRevoked tokenHash now).rows ↔ row ∈ t.rows ∧ row.tokenHash ≠ tokenHash := by
  simp only [setRevoked, List.mem_map]
  constructor
  · rintro ⟨old, hold, rfl⟩
    split_ifs at hlive ⊢ with hhash
    exact ⟨hold, hhash⟩
  · rintro ⟨hrow, hhash⟩
    exact ⟨row, hrow, if_neg hhash⟩

end TokenTable

theorem like_prefix {tokenPrefix : String} (h : wellFormedPrefix tokenPrefix = true)
    (tokenHash : String) :
    Like.like none (tokenPrefix ++ "%") tokenHash = true ↔ BeginsWith tokenHash tokenPrefix := by
  have hhex : ∀ c ∈ tokenPrefix.toList, Like.fold c ∈ "0123456789abcdef".toList := by
    intro c hc
    have hall := (Bool.and_eq_true_iff.1 h).2
    rw [lower, String.toList_ofList, List.all_map, List.all_eq_true] at hall
    simpa using hall c hc
  have hplain : ∀ c ∈ tokenPrefix.toList, c ≠ '%' ∧ c ≠ '_' ∧ c ≠ '\x00' := by
    intro c hc
    have hfold := hhex c hc
    refine ⟨?_, ?_, ?_⟩ <;> rintro rfl <;> exact absurd hfold (by decide)
  have hnul : '\x00' ∉ tokenPrefix.toList := fun hmem => (hplain _ hmem).2.2 rfl
  have hpattern : tokenPrefix ++ "%" = String.ofList (tokenPrefix.toList ++ ['%']) := by
    rw [String.ofList_append, String.ofList_toList]
  have hitems : Like.items none false ['%'] = [.many] := rfl
  rw [hpattern, Like.like_eq _ (by simpa using hnul),
    Like.items_plain fun c hc => ⟨(hplain c hc).1, (hplain c hc).2.1⟩, hitems, Like.run_chars,
    Like.prefix_cString hnul, BeginsWith]

/-- A revocation keeps every row, and of the rows in force all but the one that it names. -/
theorem tokenRevoke_spec (tokenPrefix now : String) (t : TokenTable) :
    ∃ t', (tokenRevoke tokenPrefix now (some t)).2 = some t' ∧
      t'.rows.map ApiToken.tokenHash = t.rows.map ApiToken.tokenHash ∧
      ∀ row, row.revokedAt = none → (row ∈ t'.rows ↔ row ∈ t.rows ∧
        ¬ Revokes (t.rows.map ApiToken.tokenHash) row.tokenHash tokenPrefix) := by
  have hsame (hnone : ∀ row ∈ t.rows, row.revokedAt = none →
      ¬ Revokes (t.rows.map ApiToken.tokenHash) row.tokenHash tokenPrefix) (row : ApiToken)
      (hlive : row.revokedAt = none) : row ∈ t.rows ↔ row ∈ t.rows ∧
        ¬ Revokes (t.rows.map ApiToken.tokenHash) row.tokenHash tokenPrefix :=
    ⟨fun hrow => ⟨hrow, hnone row hrow hlive⟩, fun hrow => hrow.1⟩
  by_cases hformed : wellFormedPrefix tokenPrefix = false
  · refine ⟨t, by simp [tokenRevoke, hformed], rfl, hsame fun row _ _ hrevokes => ?_⟩
    exact Bool.false_ne_true (hformed.symm.trans hrevokes.1.1)
  by_cases hcomplex : Session.tooComplex (tokenPrefix ++ "%") = true
  · refine ⟨t, by simp [tokenRevoke, hformed, hcomplex], rfl, hsame fun row _ _ hrevokes => ?_⟩
    exact Bool.false_ne_true (hrevokes.1.2.symm.trans hcomplex)
  rw [Bool.not_eq_false] at hformed
  rw [Bool.not_eq_true] at hcomplex
  simp only [tokenRevoke, hformed, hcomplex, Bool.true_eq_false, Bool.false_eq_true, if_false]
  have hfound (row : ApiToken) :
      row ∈ t.rows.filter (fun row => Like.like none (tokenPrefix ++ "%") row.tokenHash) ↔
        row ∈ t.rows ∧ BeginsWith row.tokenHash tokenPrefix := by
    rw [List.mem_filter, like_prefix hformed]
  have hdistinct : ((t.rows.filter fun row =>
      Like.like none (tokenPrefix ++ "%") row.tokenHash).map ApiToken.tokenHash).Nodup :=
    t.hash_nodup.sublist (List.filter_sublist.map _)
  generalize t.rows.filter (fun row => Like.like none (tokenPrefix ++ "%") row.tokenHash) = found
    at hfound hdistinct ⊢
  cases found with
  | nil =>
    refine ⟨t, rfl, rfl, hsame fun row hrow _ hrevokes => ?_⟩
    cases (hfound row).2 ⟨hrow, hrevokes.2.1⟩
  | cons first rest =>
    obtain ⟨hfirst, hbegins⟩ := (hfound first).1 List.mem_cons_self
    cases rest with
    | nil =>
      have honly (row : ApiToken) (hrow : row ∈ t.rows)
          (hrevokes : Revokes (t.rows.map ApiToken.tokenHash) row.tokenHash tokenPrefix) :
          row = first := List.mem_singleton.1 ((hfound row).2 ⟨hrow, hrevokes.2.1⟩)
      cases hrevoked : first.revokedAt with
      | some time =>
        refine ⟨t, by simp [hrevoked], rfl, hsame fun row hrow hlive hrevokes => ?_⟩
        rw [honly row hrow hrevokes, hrevoked] at hlive
        cases hlive
      | none =>
        refine ⟨t.setRevoked first.tokenHash now, by simp [hrevoked],
          TokenTable.hashes_setRevoked _ _, fun row hlive => ?_⟩
        rw [TokenTable.mem_setRevoked hlive]
        refine and_congr_right fun hrow => not_congr ⟨fun hhash => ?_, fun hrevokes => ?_⟩
        · rw [hhash]
          refine ⟨⟨hformed, hcomplex⟩, hbegins, fun other hother hnames => ?_⟩
          obtain ⟨row', hrow', rfl⟩ := List.mem_map.1 hother
          rw [List.mem_singleton.1 ((hfound row').2 ⟨hrow', hnames⟩)]
        · rw [honly row hrow hrevokes]
    | cons second rest =>
      obtain ⟨hsecond, hbegins'⟩ := (hfound second).1 (by simp)
      refine ⟨t, rfl, rfl, hsame fun row _ _ hrevokes => ?_⟩
      have hsame₁ := hrevokes.2.2 _ (List.mem_map_of_mem hfirst) hbegins
      have hsame₂ := hrevokes.2.2 _ (List.mem_map_of_mem hsecond) hbegins'
      rw [List.map_cons, List.map_cons, List.nodup_cons] at hdistinct
      exact hdistinct.1 (by rw [hsame₁, ← hsame₂]; exact List.mem_cons_self)

/-! ## Runs of commands -/

section Runs

variable (sha256 : String → String)

/-- A row in force binds the hash to the user. -/
def Live (tokenHash userId : String) (t : Option TokenTable) : Prop :=
  ∃ rows ∈ t, ∃ row ∈ rows.rows,
    row.tokenHash = tokenHash ∧ row.userId = userId ∧ row.revokedAt = none

/-- The table holds the hashes that the log has minted. -/
def Holds (log : List TokenCommand) (t : Option TokenTable) : Prop :=
  ∃ rows, t = some rows ∧
    ∀ tokenHash, tokenHash ∈ rows.rows.map ApiToken.tokenHash ↔ tokenHash ∈ mintedHashes sha256 log

theorem mintedHashes_concat (log : List TokenCommand) (c : TokenCommand) :
    mintedHashes sha256 (log ++ [c]) = mintedHashes sha256 log ++ mintedHashes sha256 [c] :=
  List.filterMap_append

theorem revokes_congr {minted minted' : List String} (h : ∀ x, x ∈ minted ↔ x ∈ minted')
    (tokenHash tokenPrefix : String) :
    Revokes minted tokenHash tokenPrefix ↔ Revokes minted' tokenHash tokenPrefix := by
  simp only [Revokes, h]

theorem live_create {t : TokenTable} (userId : String) (label : Option String)
    (plaintext now tokenHash user : String) :
    Live tokenHash user (tokenCreate sha256 userId label plaintext now (some t)).2 ↔
      (userId = user ∧ hashToken sha256 plaintext = tokenHash ∧
        tokenHash ∉ t.rows.map ApiToken.tokenHash) ∨ Live tokenHash user (some t) := by
  simp only [tokenCreate]
  split_ifs with hminted
  · refine ⟨.inr, ?_⟩
    rintro (⟨-, rfl, hfresh⟩ | hlive)
    · exact absurd hminted hfresh
    · exact hlive
  · simp only [Live, Option.mem_def, Option.some.injEq, exists_eq_left', TokenTable.insert,
      List.mem_append, List.mem_singleton]
    constructor
    · rintro ⟨row, hrow | rfl, hhash, huser, hlive⟩
      · exact .inr ⟨row, hrow, hhash, huser, hlive⟩
      · exact .inl ⟨huser, hhash, hhash ▸ hminted⟩
    · rintro (⟨huser, hhash, -⟩ | ⟨row, hrow, hhash, huser, hlive⟩)
      · exact ⟨_, .inr rfl, hhash, huser, rfl⟩
      · exact ⟨row, .inl hrow, hhash, huser, hlive⟩

/-- What one command starts and stops. -/
theorem live_step {log : List TokenCommand} {t : Option TokenTable} (c : TokenCommand)
    (hholds : Holds sha256 log t) (tokenHash userId : String) :
    Holds sha256 (log ++ [c]) (c.run sha256 t) ∧
      (Live tokenHash userId (c.run sha256 t) ↔
        (∃ label plaintext now, c = .create userId label plaintext now ∧
          hashToken sha256 plaintext = tokenHash ∧ tokenHash ∉ mintedHashes sha256 log) ∨
        Live tokenHash userId t ∧ ¬ ∃ tokenPrefix now, c = .revoke tokenPrefix now ∧
          Revokes (mintedHashes sha256 log) tokenHash tokenPrefix) := by
  obtain ⟨t, rfl, hhashes⟩ := hholds
  cases c with
  | create user label plaintext now =>
    refine ⟨?_, ?_⟩
    · rw [TokenCommand.run, tokenCreate]
      split_ifs with hminted
      · refine ⟨t, rfl, fun hash => ?_⟩
        rw [hhashes, mintedHashes_concat, List.mem_append]
        refine ⟨.inl, ?_⟩
        rintro (hold | hnew)
        · exact hold
        · rw [List.mem_singleton.1 hnew]
          exact (hhashes _).1 hminted
      · refine ⟨_, rfl, fun hash => ?_⟩
        rw [TokenTable.hashes_insert, mintedHashes_concat, List.mem_append, List.mem_append,
          hhashes]
        rfl
    · rw [TokenCommand.run, live_create, hhashes]
      simp
  | list =>
    refine ⟨⟨t, rfl, fun hash => ?_⟩, by simp [TokenCommand.run]⟩
    rw [hhashes, mintedHashes_concat]
    simp [mintedHashes]
  | revoke tokenPrefix now =>
    obtain ⟨t', hrun, hsame, hrows⟩ := tokenRevoke_spec tokenPrefix now t
    rw [TokenCommand.run, hrun]
    refine ⟨⟨t', rfl, fun hash => ?_⟩, ?_⟩
    · rw [hsame, hhashes, mintedHashes_concat]
      simp [mintedHashes]
    · have hrevokes (hash : String) := revokes_congr hhashes hash tokenPrefix
      simp only [Live, Option.mem_def, Option.some.injEq, exists_eq_left', reduceCtorEq, false_and,
        exists_false, false_or, TokenCommand.revoke.injEq]
      constructor
      · rintro ⟨row, hrow, rfl, huser, hlive⟩
        obtain ⟨hold, hkept⟩ := (hrows row hlive).1 hrow
        refine ⟨⟨row, hold, rfl, huser, hlive⟩, ?_⟩
        rintro ⟨p, time, ⟨rfl, rfl⟩, hnames⟩
        exact hkept ((hrevokes _).2 hnames)
      · rintro ⟨⟨row, hold, rfl, huser, hlive⟩, hkept⟩
        refine ⟨row, (hrows row hlive).2 ⟨hold, fun hnames => ?_⟩, rfl, huser, hlive⟩
        exact hkept ⟨tokenPrefix, now, ⟨rfl, rfl⟩, (hrevokes _).1 hnames⟩

/-- After any commands a row is in force exactly since its token was minted. -/
theorem live_tableAfter (log : List TokenCommand) (tokenHash userId : String) :
    Holds sha256 log (tableAfter sha256 log) ∧
      (Live tokenHash userId (tableAfter sha256 log) ↔ Opens sha256 tokenHash userId log) := by
  refine since_foldl (Holds sha256) ⟨.empty, rfl, fun hash => Iff.rfl⟩ ?_
    (fun log t c hholds => live_step sha256 c hholds tokenHash userId) log
  rintro ⟨t, ht, row, hrow, -⟩
  cases ht
  cases hrow

end Runs

/-! ## Who is let in -/

section Admission

variable (sha256 : String → String)

theorem suppliedToken_eq_ok {creds : Option HttpAuthorizationCredentials} {supplied : String} :
    suppliedToken creds = .ok supplied ↔
      ∃ c, creds = some c ∧ lower c.scheme = "bearer" ∧ strip c.credentials = supplied := by
  cases creds with
  | none => simp [suppliedToken]
  | some c =>
    simp only [suppliedToken, Option.some.injEq, exists_eq_left']
    split_ifs with hscheme
    · simp [hscheme]
    · simp [hscheme]

theorem suppliedToken_eq_error {creds : Option HttpAuthorizationCredentials} {e : AuthExc}
    (h : suppliedToken creds = .error e) : e = unauthorized "missing bearer token" := by
  cases creds with
  | none => exact (Except.error.inj h).symm
  | some c =>
    rw [suppliedToken] at h
    split_ifs at h
    exact (Except.error.inj h).symm

theorem resolveMultiUserToken_eq_ok {supplied userId : String} {t : Option TokenTable} :
    resolveMultiUserToken sha256 supplied t = .ok userId ↔
      Live (hashToken sha256 supplied) userId t := by
  cases t with
  | none => simp [resolveMultiUserToken, Live]
  | some t =>
    simp only [resolveMultiUserToken, Live, Option.mem_def, Option.some.injEq, exists_eq_left']
    cases hfind : t.rows.find? fun row => row.tokenHash == hashToken sha256 supplied with
    | none =>
      simp only [List.find?_eq_none, beq_iff_eq] at hfind
      simp only [reduceCtorEq, false_iff, not_exists, not_and]
      intro row hrow hhash
      exact absurd hhash (hfind row hrow)
    | some row =>
      have hrow := List.mem_of_find?_eq_some hfind
      have hhash := List.find?_some hfind
      rw [beq_iff_eq] at hhash
      have hone : ∀ other ∈ t.rows, other.tokenHash = hashToken sha256 supplied → other = row := by
        intro other hother hsame
        exact List.inj_on_of_nodup_map t.hash_nodup hother hrow (hsame.trans hhash.symm)
      constructor
      · intro hok
        cases hrevoked : row.revokedAt with
        | none =>
          refine ⟨row, hrow, hhash, ?_, hrevoked⟩
          simpa [hrevoked] using hok
        | some time => simp [hrevoked] at hok
      · rintro ⟨other, hother, hsame, rfl, hlive⟩
        obtain rfl := hone other hother hsame
        simp [hlive]

theorem resolveMultiUserToken_eq_error {supplied : String} {t : Option TokenTable} {e : AuthExc}
    (h : resolveMultiUserToken sha256 supplied t = .error e) :
    e = unauthorized "invalid bearer token" := by
  unfold resolveMultiUserToken at h
  split at h
  · exact (Except.error.inj h).symm
  · split at h
    · exact (Except.error.inj h).symm
    · split_ifs at h
      exact (Except.error.inj h).symm

variable {env : AuthEnv} {creds : Option HttpAuthorizationCredentials} {t : Option TokenTable}
  {p : Principal}

theorem requireAuth_multi (hmulti : multiUserMode env = true) :
    requireAuth sha256 env creds (some t) = .ok p ↔ ∃ c, creds = some c ∧
      lower c.scheme = "bearer" ∧ strip c.credentials ≠ "" ∧ ∃ userId, p = .user userId ∧
        Live (hashToken sha256 (strip c.credentials)) userId t := by
  simp only [requireAuth, hmulti, if_true]
  cases hsupplied : suppliedToken creds with
  | error e =>
    refine iff_of_false (by simp [bind, Except.bind]) ?_
    rintro ⟨c, rfl, hscheme, -⟩
    rw [suppliedToken_eq_ok.2 ⟨c, rfl, hscheme, rfl⟩] at hsupplied
    cases hsupplied
  | ok supplied =>
    obtain ⟨c, rfl, hscheme, rfl⟩ := suppliedToken_eq_ok.1 hsupplied
    simp only [bind, Except.bind, Option.some.injEq, exists_eq_left', hscheme, true_and,
      ← resolveMultiUserToken_eq_ok]
    split_ifs with hempty
    · simp [hempty]
    · cases hresolved : resolveMultiUserToken sha256 (strip c.credentials) t with
      | error e => simp
      | ok userId => simp [hempty, pure, Except.pure, eq_comm]

theorem requireAuth_multi_error (hmulti : multiUserMode env = true) {e : AuthExc}
    (h : requireAuth sha256 env creds (some t) = .error e) :
    ∃ detail, e = unauthorized detail := by
  simp only [requireAuth, hmulti, if_true] at h
  cases hsupplied : suppliedToken creds with
  | error e' =>
    rw [hsupplied] at h
    cases h
    exact ⟨_, suppliedToken_eq_error hsupplied⟩
  | ok supplied =>
    simp only [hsupplied, bind, Except.bind] at h
    split_ifs at h with hempty
    · cases h
      exact ⟨_, rfl⟩
    · cases hresolved : resolveMultiUserToken sha256 supplied t with
      | error e' =>
        rw [hresolved] at h
        cases h
        exact ⟨_, resolveMultiUserToken_eq_error sha256 hresolved⟩
      | ok userId =>
        rw [hresolved] at h
        cases h

theorem compareDigest_eq_ok {a b : String} (h : compareDigest a b = .ok true) : a = b := by
  unfold compareDigest at h
  split_ifs at h
  simpa using h

theorem requireAuth_single (hmulti : multiUserMode env = false) (hset : authConfigured env = true)
    {conn : Option (Option TokenTable)} (h : requireAuth sha256 env creds conn = .ok p) :
    p = .bearer ∧ ∃ c, creds = some c ∧ lower c.scheme = "bearer" ∧
      strip c.credentials = environ env.parallaxToken := by
  simp only [requireAuth, hmulti, hset, Bool.false_eq_true, Bool.true_eq_false, if_false] at h
  cases hsupplied : suppliedToken creds with
  | error e =>
    rw [hsupplied] at h
    cases h
  | ok supplied =>
    obtain ⟨c, rfl, hscheme, rfl⟩ := suppliedToken_eq_ok.1 hsupplied
    simp only [hsupplied, bind, Except.bind] at h
    cases hcompare : compareDigest (strip c.credentials) (environ env.parallaxToken) with
    | error e =>
      rw [hcompare] at h
      cases h
    | ok same =>
      rw [hcompare] at h
      cases same with
      | false => cases h
      | true =>
        cases h
        exact ⟨rfl, c, rfl, hscheme, compareDigest_eq_ok hcompare⟩

/-- After any commands a request in multi-user mode is let in as a user exactly if it carries, as a
bearer token, a text whose hash is that of a token minted for that user and not revoked since; any
other one is answered 401. -/
theorem request_let_in_iff {env : AuthEnv} (hmulti : multiUserMode env = true)
    (log : List TokenCommand) (creds : Option HttpAuthorizationCredentials) :
    (∀ p, requireAuth sha256 env creds (some (tableAfter sha256 log)) = .ok p ↔
      ∃ c, creds = some c ∧ lower c.scheme = "bearer" ∧ strip c.credentials ≠ "" ∧
        ∃ userId, p = .user userId ∧
          Opens sha256 (hashToken sha256 (strip c.credentials)) userId log) ∧
    ∀ e, requireAuth sha256 env creds (some (tableAfter sha256 log)) = .error e →
      ∃ detail, e = .httpException 401 detail := by
  refine ⟨fun p => ?_, fun e he => requireAuth_multi_error sha256 hmulti he⟩
  rw [requireAuth_multi sha256 hmulti]
  simp only [(live_tableAfter sha256 log _ _).2]

end Admission

/-! ### Two users, one of them revoked -/

def sampleEnv : AuthEnv := ⟨none, some "1", none, some "0.0.0.0", none⟩

def sampleSha (plaintext : String) : String :=
  if plaintext = "ann's" then "a1b2c3d4" else "a1b2c3ff"

def sampleCommands : List TokenCommand :=
  [.create "ann" none "ann's" "t1", .create "bob" none "bob's" "t2", .revoke "A1B2C3" "t3",
    .revoke "A1B2C3F" "t4"]

theorem request_let_in_sample :
    Opens sampleSha "a1b2c3d4" "ann" sampleCommands ∧
      ¬ Opens sampleSha "a1b2c3ff" "bob" sampleCommands := by
  have hann : requireAuth sampleSha sampleEnv (some ⟨"Bearer", "ann's"⟩)
      (some (tableAfter sampleSha sampleCommands)) = .ok (.user "ann") := by rfl
  have hbob : requireAuth sampleSha sampleEnv (some ⟨"Bearer", "bob's"⟩)
      (some (tableAfter sampleSha sampleCommands)) =
        .error (unauthorized "invalid bearer token") := by rfl
  have hmulti : multiUserMode sampleEnv = true := by rfl
  obtain ⟨hiff, -⟩ := request_let_in_iff sampleSha hmulti sampleCommands
    (some ⟨"Bearer", "ann's"⟩)
  obtain ⟨hiff', -⟩ := request_let_in_iff sampleSha hmulti sampleCommands
    (some ⟨"Bearer", "bob's"⟩)
  constructor
  · obtain ⟨c, hc, -, -, userId, huser, hopens⟩ := (hiff _).1 hann
    cases hc
    cases huser
    exact hopens
  · intro hopens
    have hok := (hiff' (.user "bob")).2 ⟨_, rfl, rfl, by decide, "bob", rfl, hopens⟩
    rw [hbob] at hok
    cases hok

end ParallaxKernel.Server
