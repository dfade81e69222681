import ParallaxKernel.Server.Auth
import ParallaxKernel.Server.IngestRoutes

/-!
# Whose rows a server writes

The ingest routes behind `require_auth`, while an operator mints and revokes tokens. A server on a
public address that has been allowed to start writes a row only for a request with a token that
opens the server, and in multi-user mode for the user of that token.
-/

namespace ParallaxKernel.Server

open Lib Store Prog

/-! ## One ingest -/

/-- The new rows are rows of one user. -/
structure AddsFor (userId : String) (b v : Db) : Prop where
  sources : ∀ s ∈ v.sources, s ∈ b.sources ∨ s.userId = userId
  memories : ∀ m ∈ v.memories, m ∈ b.memories ∨ m.userId = userId
  claims : ∀ c ∈ v.claims, c ∈ b.claims ∨ c.userId = userId
  decisions : v.decisions = b.decisions
  events : ∀ e ∈ v.events, e ∈ b.events ∨ e.userId = userId

namespace AddsFor

variable {userId : String} {a b v : Db}

theorem refl (userId : String) (b : Db) : AddsFor userId b b :=
  ⟨fun _ => .inl, fun _ => .inl, fun _ => .inl, rfl, fun _ => .inl⟩

theorem trans (h : AddsFor userId a b) (h' : AddsFor userId b v) : AddsFor userId a v where
  sources s hs := (h'.sources s hs).elim (h.sources s) .inr
  memories m hm := (h'.memories m hm).elim (h.memories m) .inr
  claims c hc := (h'.claims c hc).elim (h.claims c) .inr
  decisions := h'.decisions.trans h.decisions
  events e he := (h'.events e he).elim (h.events e) .inr

theorem withSource (db : Db) {s : Source} (hs : s.userId = userId) :
    AddsFor userId db (db.withSource s) := by
  unfold Db.withSource
  split_ifs
  · exact refl userId db
  · refine ⟨fun r hr => ?_, fun _ => .inl, fun _ => .inl, rfl, fun _ => .inl⟩
    obtain hold | hnew := List.mem_append.1 hr
    · exact .inl hold
    · exact .inr (List.mem_singleton.1 hnew ▸ hs)

theorem insertMemory {db db' : Db} {m : Memory} {n : Nat} (hm : m.userId = userId)
    (h : db.insertMemory m = .ok (db', n)) : AddsFor userId db db' := by
  obtain ⟨hins, -⟩ | ⟨hins, -, -⟩ | hins := db.insertMemory_cases m
  all_goals simp only [hins, Except.ok.injEq, Prod.mk.injEq, reduceCtorEq] at h
  · exact h.1 ▸ refl userId db
  · obtain ⟨rfl, -⟩ := h
    refine ⟨fun _ => .inl, fun r hr => ?_, fun _ => .inl, rfl, fun _ => .inl⟩
    obtain hold | hnew := List.mem_append.1 hr
    · exact .inl hold
    · exact .inr (List.mem_singleton.1 hnew ▸ hm)

theorem insertClaim {db db' : Db} {c : Claim} {n : Nat} (hc : c.userId = userId)
    (h : db.insertClaim c = .ok (db', n)) : AddsFor userId db db' := by
  obtain ⟨hins, -⟩ | ⟨hins, -, -⟩ | hins := db.insertClaim_cases c
  all_goals simp only [hins, Except.ok.injEq, Prod.mk.injEq, reduceCtorEq] at h
  · exact h.1 ▸ refl userId db
  · obtain ⟨rfl, -⟩ := h
    refine ⟨fun _ => .inl, fun _ => .inl, fun r hr => ?_, rfl, fun _ => .inl⟩
    obtain hold | hnew := List.mem_append.1 hr
    · exact .inl hold
    · exact .inr (List.mem_singleton.1 hnew ▸ hc)

theorem insertEvent {db db' : Db} {e : Event} {n : Nat} (he : e.userId = userId)
    (h : Db.insertEvent e db = .ok (db', n)) : AddsFor userId db db' := by
  obtain ⟨x, hx⟩ | ⟨-, hins⟩ := insertEvent_cases e db
  · simp [hx] at h
  · simp only [hins, Except.ok.injEq, Prod.mk.injEq] at h
    obtain ⟨rfl, -⟩ := h
    refine ⟨fun _ => .inl, fun _ => .inl, fun _ => .inl, rfl, fun r hr => ?_⟩
    obtain hold | hnew := List.mem_append.1 hr
    · exact .inl hold
    · exact .inr (List.mem_singleton.1 hnew ▸ he)

end AddsFor

section Ingest

variable (D : Digest)

theorem sourceOf_userId {userId now : String} {sourceId : Option String} {s : Source}
    (h : sourceOf D userId sourceId now = .ok s) : s.userId = userId := by
  unfold sourceOf at h
  cases sourceId with
  | none =>
    cases h
    rfl
  | some sourceId =>
    simp only at h
    split_ifs at h <;> cases h <;> rfl

theorem addsFor_ingestMemory (a : MemoryArgs) (d : Draws) (db : Db) :
    AddsFor a.userId db (run (ingestMemoryWithStatus D a d) db).2 := by
  rw [run_ingestMemoryWithStatus]
  split
  · exact .refl _ db
  rename_i s hs
  refine (AddsFor.withSource db (sourceOf_userId D hs)).trans ?_
  split
  · exact .refl _ _
  rename_i db₂ n hm
  refine (AddsFor.insertMemory (by rfl) hm).trans ?_
  split
  · exact .refl _ _
  split
  · exact .refl _ _
  split
  · exact .refl _ _
  rename_i he
  refine .insertEvent ?_ he
  rw [MemoryArgs.eventFor]
  split_ifs <;> rfl

theorem addsFor_ingestClaim (a : ClaimArgs) (d : Draws) (db : Db) :
    AddsFor a.userId db (run (ingestClaimWithStatus D a d) db).2 := by
  rw [run_ingestClaimWithStatus]
  by_cases hstate : a.state ∈ claimTransitions.map (·.1)
  case neg =>
    rw [if_pos hstate]
    exact .refl _ db
  rw [if_neg (not_not.2 hstate)]
  split
  · exact .refl _ db
  rename_i s hs
  refine (AddsFor.withSource db (sourceOf_userId D hs)).trans ?_
  split
  · exact .refl _ _
  rename_i db₂ n hc
  refine (AddsFor.insertClaim (by rfl) hc).trans ?_
  split
  · exact .refl _ _
  split_ifs
  · exact .refl _ _
  split
  · exact .refl _ _
  split
  · exact .refl _ _
  rename_i he
  exact .insertEvent (by rfl) he

variable (toFloat : Int → Except Exc PyFloat)

/-- A memory route writes rows of the effective user. -/
theorem addsFor_postIngestMemory (routerEnabled : Bool) (authed : Option String)
    (body : IngestMemoryRequest) (d : Draws) (db : Db) :
    AddsFor (effectiveUser authed body.userId) db
      (postIngestMemory D toFloat routerEnabled authed body d db).2 := by
  cases routerEnabled with
  | false =>
    rw [(postIngestMemory_off D toFloat authed body d db).2]
    exact addsFor_ingestMemory D (body.args _) d db
  | true =>
    obtain ⟨hsummary, -⟩ | ⟨summary, hsummary, -, hdb⟩ :=
      postIngestMemory_on D toFloat authed body d db
    · rw [postIngestMemory, withUser, currentUserId_eq body.userId_length.1]
      simp only [if_true, answered_snd, Router.ingest, memoryArgs_body, hsummary]
      exact .refl _ db
    · rw [hdb]
      exact addsFor_ingestMemory D ⟨_, _, _, _, _⟩ d db

theorem addsFor_postIngestClaim (routerEnabled : Bool) (authed : Option String)
    (body : IngestClaimRequest) (d : Draws) (db : Db) :
    AddsFor (effectiveUser authed body.userId) db
      (postIngestClaim D toFloat routerEnabled authed body d db).2 := by
  cases routerEnabled with
  | false =>
    rw [(postIngestClaim_off D toFloat authed body d db).2]
    exact addsFor_ingestClaim D (body.args _) d db
  | true =>
    obtain ⟨hnan, -⟩ | ⟨-, -, hdb⟩ := postIngestClaim_on D toFloat authed body d db
    · obtain ⟨-, msg, herror⟩ | ⟨hnot, -⟩ :=
        claimArgs_body toFloat body (effectiveUser authed body.userId)
      · rw [postIngestClaim, withUser, currentUserId_eq body.userId_length.1]
        have hkind : "claim" ∈ ["memory", "claim"] := by simp
        simp only [if_true, answered_snd, Router.ingest, hkind, not_true_eq_false, if_false,
          show ("claim" = "memory") = False from by simp, herror]
        exact .refl _ db
      · exact absurd hnan hnot
    · rw [hdb]
      exact addsFor_ingestClaim D (body.args _) d db

end Ingest

/-! ## Runs of a server -/

/-- What the server and the operators work on. -/
structure Site where
  tokens : Option TokenTable
  db : Db

inductive SiteAction where
  | command (c : TokenCommand)
  | postMemory (creds : Option HttpAuthorizationCredentials) (routerEnabled : Bool)
    (body : IngestMemoryRequest) (d : Draws)
  | postClaim (creds : Option HttpAuthorizationCredentials) (routerEnabled : Bool)
    (body : IngestClaimRequest) (d : Draws)

/-- The credentials of a request and the user that its body names. -/
def SiteAction.request : SiteAction → Option (Option HttpAuthorizationCredentials × String)
  | command _ => none
  | postMemory creds _ body _ => some (creds, body.userId)
  | postClaim creds _ body _ => some (creds, body.userId)

/-- The commands among what has happened. -/
def commandsOf (actions : List SiteAction) : List TokenCommand :=
  actions.filterMap fun
    | .command c => some c
    | _ => none

section Site

variable (sha256 : String → String) (D : Digest) (toFloat : Int → Except Exc PyFloat)
  (env : AuthEnv)

/-- A request that `require_auth` refuses does not reach its handler. -/
def Site.step (s : Site) : SiteAction → Site
  | .command c => { s with tokens := c.run sha256 s.tokens }
  | .postMemory creds routerEnabled body d =>
    match requireAuth sha256 env creds (some s.tokens) with
    | .error _ => s
    | .ok p => { s with db := (postIngestMemory D toFloat routerEnabled p.userId body d s.db).2 }
  | .postClaim creds routerEnabled body d =>
    match requireAuth sha256 env creds (some s.tokens) with
    | .error _ => s
    | .ok p => { s with db := (postIngestClaim D toFloat routerEnabled p.userId body d s.db).2 }

/-- The request carries a token that opens the server, and acts for the user. -/
def Entitled (log : List TokenCommand) (creds : Option HttpAuthorizationCredentials)
    (named userId : String) : Prop :=
  ∃ c, creds = some c ∧ lower c.scheme = "bearer" ∧
    if multiUserMode env = true then
      ∃ owner, Opens sha256 (hashToken sha256 (strip c.credentials)) owner log ∧
        userId = if owner = "" then named else owner
    else strip c.credentials = environ env.parallaxToken ∧ userId = named

/-- Some request of the run was entitled to act for the user when it was made. -/
def Written (actions : List SiteAction) (userId : String) : Prop :=
  ∃ before a after creds named, actions = before ++ a :: after ∧
    a.request = some (creds, named) ∧ Entitled sha256 env (commandsOf before) creds named userId

/-- The rows that were not there before are rows of users that requests were entitled to act for. -/
structure Accounted (actions : List SiteAction) (b v : Db) : Prop where
  sources : ∀ s ∈ v.sources, s ∈ b.sources ∨ Written sha256 env actions s.userId
  memories : ∀ m ∈ v.memories, m ∈ b.memories ∨ Written sha256 env actions m.userId
  claims : ∀ c ∈ v.claims, c ∈ b.claims ∨ Written sha256 env actions c.userId
  decisions : v.decisions = b.decisions
  events : ∀ e ∈ v.events, e ∈ b.events ∨ Written sha256 env actions e.userId

variable {sha256 D toFloat env}

theorem Written.later {actions : List SiteAction} {userId : String}
    (h : Written sha256 env actions userId) (a : SiteAction) :
    Written sha256 env (actions ++ [a]) userId := by
  obtain ⟨before, b, after, creds, named, rfl, hrequest, hentitled⟩ := h
  exact ⟨before, b, after ++ [a], creds, named, by simp, hrequest, hentitled⟩

theorem Accounted.later {actions : List SiteAction} {b v : Db}
    (h : Accounted sha256 env actions b v) (a : SiteAction) :
    Accounted sha256 env (actions ++ [a]) b v where
  sources s hs := (h.sources s hs).imp id fun hw => hw.later a
  memories m hm := (h.memories m hm).imp id fun hw => hw.later a
  claims c hc := (h.claims c hc).imp id fun hw => hw.later a
  decisions := h.decisions
  events e he := (h.events e he).imp id fun hw => hw.later a

theorem Accounted.adds {actions : List SiteAction} {b v w : Db} {userId : String}
    (h : Accounted sha256 env actions b v) (hadds : AddsFor userId v w)
    (hwritten : Written sha256 env actions userId) : Accounted sha256 env actions b w where
  sources s hs := (hadds.sources s hs).elim (h.sources s) fun he => .inr (he ▸ hwritten)
  memories m hm := (hadds.memories m hm).elim (h.memories m) fun he => .inr (he ▸ hwritten)
  claims c hc := (hadds.claims c hc).elim (h.claims c) fun he => .inr (he ▸ hwritten)
  decisions := hadds.decisions.trans h.decisions
  events e he := (hadds.events e he).elim (h.events e) fun hu => .inr (hu ▸ hwritten)

theorem commandsOf_concat (actions : List SiteAction) (a : SiteAction) :
    commandsOf (actions ++ [a]) = commandsOf actions ++ commandsOf [a] :=
  List.filterMap_append

/-- A server that may start on a public address answers nobody without a token. -/
theorem guarded_of_start (hstart : assertSafeToStart env = .ok ())
    (hchecked : selected env.parallaxAllowOpenPublic = false)
    (hpublic : bindHostIsSafe (some (env.parallaxBindHost.getD "")) = false) :
    authConfigured env = true ∨ multiUserMode env = true := by
  simp only [assertSafeToStart, hchecked, hpublic, Bool.false_eq_true, if_false] at hstart
  split_ifs at hstart with hset
  exact Bool.or_eq_true_iff.1 hset

/-- Whoever is let in is entitled to what the handler makes of the user that the body names. -/
theorem entitled_of_requireAuth (hguarded : authConfigured env = true ∨ multiUserMode env = true)
    {log : List TokenCommand} {creds : Option HttpAuthorizationCredentials} {p : Principal}
    {conn : Option (Option TokenTable)}
    (hconn : multiUserMode env = true → conn = some (tableAfter sha256 log))
    (h : requireAuth sha256 env creds conn = .ok p) (named : String) :
    Entitled sha256 env log creds named (effectiveUser p.userId named) := by
  cases hmulti : multiUserMode env with
  | true =>
    rw [hconn hmulti] at h
    obtain ⟨c, rfl, hscheme, -, owner, rfl, hlive⟩ := (requireAuth_multi sha256 hmulti).1 h
    refine ⟨c, rfl, hscheme, ?_⟩
    rw [if_pos hmulti]
    refine ⟨owner, ((live_tableAfter sha256 log _ _).2).1 hlive, ?_⟩
    by_cases howner : owner = ""
    · simp [effectiveUser, Principal.userId, howner, Option.filter_some]
    · simp [effectiveUser, Principal.userId, howner, Option.filter_some]
  | false =>
    have hset : authConfigured env = true := hguarded.resolve_right (by simp [hmulti])
    obtain ⟨rfl, c, rfl, hscheme, hsame⟩ := requireAuth_single sha256 hmulti hset h
    refine ⟨c, rfl, hscheme, ?_⟩
    rw [if_neg (by simp [hmulti])]
    exact ⟨hsame, rfl⟩

/-- Nor does such a server show its metrics, unless they are public, or more than its status to
anyone else. -/
theorem reports_guarded (hguarded : authConfigured env = true ∨ multiUserMode env = true)
    {log : List TokenCommand} {creds : Option HttpAuthorizationCredentials}
    (h : (metricsPublicAllowed env = false ∧
        metricsAllowed sha256 env creds (tableAfter sha256 log) = .ok ()) ∨
      healthInFull sha256 env creds (tableAfter sha256 log) = .ok true) (named : String) :
    ∃ userId, Entitled sha256 env log creds named userId := by
  have hset : (authConfigured env || multiUserMode env) = true := Bool.or_eq_true_iff.2 hguarded
  obtain ⟨hclosed, hmetrics⟩ | hhealth := h
  · have hrequired : metricsAuthRequired env = true := by
      rw [metricsAuthRequired, hclosed, hset]
      rfl
    simp only [metricsAllowed, hrequired, if_true] at hmetrics
    cases hauth : requireAuth sha256 env creds
        (if multiUserMode env = true then some (tableAfter sha256 log) else none) with
    | error e =>
      rw [hauth] at hmetrics
      cases hmetrics
    | ok p => exact ⟨_, entitled_of_requireAuth hguarded (fun hmulti => if_pos hmulti) hauth named⟩
  · rw [healthInFull, if_pos hset] at hhealth
    cases hauth : requireAuth sha256 env creds (some (tableAfter sha256 log)) with
    | error e =>
      rw [hauth] at hhealth
      cases e <;> cases hhealth
    | ok p => exact ⟨_, entitled_of_requireAuth hguarded (fun _ => rfl) hauth named⟩

variable (D toFloat) in
theorem accounted_step (hguarded : authConfigured env = true ∨ multiUserMode env = true)
    {actions : List SiteAction} {b : Db} {s : Site}
    (htokens : s.tokens = tableAfter sha256 (commandsOf actions))
    (h : Accounted sha256 env actions b s.db) (a : SiteAction) :
    (s.step sha256 D toFloat env a).tokens = tableAfter sha256 (commandsOf (actions ++ [a])) ∧
      Accounted sha256 env (actions ++ [a]) b (s.step sha256 D toFloat env a).db := by
  have hlater := h.later a
  have hsame (hnone : commandsOf [a] = []) :
      s.tokens = tableAfter sha256 (commandsOf (actions ++ [a])) := by
    rw [commandsOf_concat, hnone, List.append_nil, htokens]
  cases a with
  | command c =>
    refine ⟨?_, hlater⟩
    rw [commandsOf_concat, tableAfter, List.foldl_append, ← tableAfter, ← htokens]
    rfl
  | postMemory creds routerEnabled body d =>
    simp only [Site.step]
    cases hauth : requireAuth sha256 env creds (some s.tokens) with
    | error e => exact ⟨hsame rfl, hlater⟩
    | ok p =>
      refine ⟨hsame rfl, hlater.adds
        (addsFor_postIngestMemory D toFloat routerEnabled p.userId body d s.db) ?_⟩
      exact ⟨actions, _, [], creds, body.userId, rfl, rfl,
        entitled_of_requireAuth hguarded (fun _ => congrArg some htokens) hauth body.userId⟩
  | postClaim creds routerEnabled body d =>
    simp only [Site.step]
    cases hauth : requireAuth sha256 env creds (some s.tokens) with
    | error e => exact ⟨hsame rfl, hlater⟩
    | ok p =>
      refine ⟨hsame rfl, hlater.adds
        (addsFor_postIngestClaim D toFloat routerEnabled p.userId body d s.db) ?_⟩
      exact ⟨actions, _, [], creds, body.userId, rfl, rfl,
        entitled_of_requireAuth hguarded (fun _ => congrArg some htokens) hauth body.userId⟩

variable (sha256 D toFloat) in
/-- Whatever is requested of a server that was allowed to start on a public address, and whatever
tokens are minted and revoked meanwhile: each new row belongs to a user that a request with a token
was entitled to act for when it came, in multi-user mode the user of the token. -/
theorem rows_accounted (hstart : assertSafeToStart env = .ok ())
    (hchecked : selected env.parallaxAllowOpenPublic = false)
    (hpublic : bindHostIsSafe (some (env.parallaxBindHost.getD "")) = false)
    (db : Db) (actions : List SiteAction) :
    Accounted sha256 env actions db
      (actions.foldl (Site.step sha256 D toFloat env) ⟨some .empty, db⟩).db := by
  have hguarded := guarded_of_start hstart hchecked hpublic
  suffices hrun : (actions.foldl (Site.step sha256 D toFloat env) ⟨some .empty, db⟩).tokens =
      tableAfter sha256 (commandsOf actions) ∧ Accounted sha256 env actions db
        (actions.foldl (Site.step sha256 D toFloat env) ⟨some .empty, db⟩).db from hrun.2
  induction actions using List.reverseRecOn with
  | nil => exact ⟨rfl, fun _ => .inl, fun _ => .inl, fun _ => .inl, rfl, fun _ => .inl⟩
  | append_singleton actions a ih =>
    rw [List.foldl_append, List.foldl_cons, List.foldl_nil]
    exact accounted_step D toFloat hguarded ih.1 ih.2 a

end Site

/-! ### A body that names somebody else -/

def sampleSite : List SiteAction :=
  [.command (.create "bob" none "bob's" "t1"),
    .postMemory (some ⟨"Bearer", "bob's"⟩) false plainBody sampleFirst]

/-- The row that the request of bob leaves, whose body names ann. -/
def bobsRow : Memory :=
  (MemoryArgs.candidate .sample ⟨"bob", some "T", some "S", "p.md", none⟩ "direct:bob" ⟨"M1", "t2"⟩)

theorem rows_accounted_sample : Written sampleSha sampleEnv sampleSite "bob" := by
  have hstart : assertSafeToStart sampleEnv = .ok () := by rfl
  have hrows := rows_accounted sampleSha .sample sampleFloat hstart (by rfl) (by rfl) .empty
    sampleSite
  have hrow : bobsRow ∈ (sampleSite.foldl (Site.step sampleSha .sample sampleFloat sampleEnv)
      ⟨some .empty, .empty⟩).db.memories := by decide +kernel
  obtain hold | hwritten := hrows.memories bobsRow hrow
  · cases hold
  · exact hwritten

end ParallaxKernel.Server
