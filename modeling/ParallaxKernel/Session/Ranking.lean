import ParallaxKernel.Session.Search

/-!
# Ranking and truncation

The searches that merge claims and events cut each of their queries to the limit before they sort by
score.
-/

namespace ParallaxKernel.Session

open Lib Store

/-! ## Scores of events -/

/-- A later instant has no lower recency. -/
theorem recencyScore_mono {now us us' : Int} {dt dt' : DateTime}
    (hdt : DateTime.ofTimestamp us = some dt) (hdt' : DateTime.ofTimestamp us' = some dt')
    (hle : us ≤ us') :
    recencyScore now dt.isoformatUtc ≤ recencyScore now dt'.isoformatUtc := by
  have hage : max (((now - us' : Int) : ℚ) / 3600000000) 0 ≤
      max (((now - us : Int) : ℚ) / 3600000000) 0 := by
    gcongr
  have hpos : (0 : ℚ) < 1 + max (((now - us' : Int) : ℚ) / 3600000000) 0 / 24 := by positivity
  simp only [recencyScore, instantOf_isoformatUtc hdt, instantOf_isoformatUtc hdt']
  gcongr

theorem recencyScore_nonneg (now : Int) (createdAt : String) : 0 ≤ recencyScore now createdAt := by
  unfold recencyScore
  split
  · exact le_rfl
  · exact le_max_left _ _

theorem recencyScore_le_one (now : Int) (createdAt : String) : recencyScore now createdAt ≤ 1 := by
  unfold recencyScore
  split
  · exact zero_le_one
  · exact max_le zero_le_one (min_le_left _ _)

theorem round6_mono {x y : ℚ} (h : x ≤ y) : round6 x ≤ round6 y := roundDecimals_mono 6 h

variable {E : Engine} {now : Int} {s : IndexedDb} {userId : String} {limit : Int}

/-- Of two events with timestamps of `now_iso` the newer one has no lower recency. -/
theorem recencyScore_of_timed {db : Db} (htimed : Timed db) {e f : Event} (he : e ∈ db.events)
    (hf : f ∈ db.events) (hle : f.createdAt ≤ e.createdAt) :
    recencyScore now f.createdAt ≤ recencyScore now e.createdAt := by
  obtain ⟨us, dt, hdt, hcreated⟩ := htimed e he
  obtain ⟨us', dt', hdt', hcreated'⟩ := htimed f hf
  rw [hcreated, hcreated'] at hle ⊢
  exact recencyScore_mono hdt' hdt ((DateTime.isoformatUtc_le_iff hdt' hdt).1 hle)

/-! ## What the queries return -/

theorem bindLimit_ok {n limit : Int} (h : bindLimit n = .ok limit) : limit = n := by
  unfold bindLimit at h
  split_ifs at h
  cases h
  rfl

theorem limitRows_of_pos {α : Type} (hlimit : 1 ≤ limit) (rows : List α) :
    limitRows limit rows = rows.take limit.toNat := by
  rw [limitRows, if_neg (by omega)]

/-- The rows of a statement with a limit are the first ones of the statement without one. -/
theorem newestRows_ok {found : Except Exc (List Event)} {rows : List Event} (hlimit : 1 ≤ limit)
    (h : (bindLimit limit >>= fun limit => newestRows E limit found) = .ok rows) :
    ∃ all, found = .ok all ∧ rows = (E.newest all).take limit.toNat ∧
      (bindLimit (-1) >>= fun limit => newestRows E limit found) = .ok (E.newest all) := by
  rw [except_bind_eq_ok] at h
  obtain ⟨n, hn, hrows⟩ := h
  obtain rfl := bindLimit_ok hn
  rw [newestRows, if_neg (by omega)] at hrows
  cases found with
  | error e => cases hrows
  | ok all =>
    cases hrows
    exact ⟨all, rfl, limitRows_of_pos hlimit _, rfl⟩

theorem searchIndex_ok {pattern : String} {index found : List FtsRow}
    (h : searchIndex E pattern index = .ok found) : ∃ p, found = index.filter p := by
  unfold searchIndex at h
  split at h
  · cases h
  · dsimp only at h
    split at h
    · cases h
    · cases h
      exact ⟨_, rfl⟩

/-- A search over the index finds some of the rows. -/
theorem joined_ok (hs : Reached s) {rows all : List Event} (hrows : ∀ e ∈ rows, e ∈ s.db.events)
    {index : List FtsRow} (hindex : s.index = some index) {pattern : String}
    (h : (searchIndex E pattern index).map (joinIndex rows) = .ok all) :
    ∃ p, all = rows.filter p := by
  obtain ⟨hnone, -⟩ | ⟨hsome, -⟩ := hs.inStep
  · rw [hindex] at hnone
    cases hnone
  rw [hindex] at hsome
  cases hsome
  cases hfound : searchIndex E pattern (s.db.events.map indexRow) with
  | error e =>
    rw [hfound] at h
    cases h
  | ok found =>
    rw [hfound] at h
    cases h
    obtain ⟨p, rfl⟩ := searchIndex_ok hfound
    exact ⟨_, joinIndex_eq hs.keyed.events hrows p⟩

theorem likeRows_ok {pattern : String} {rows all : List Event}
    (h : likeRows pattern rows = .ok all) : ∃ p, all = rows.filter p := by
  unfold likeRows at h
  split_ifs at h
  cases h
  exact ⟨_, rfl⟩

/-- The rows that the needle stands in, cut to the limit, are the first ones of all of them. -/
theorem needleRows_ok (hs : Reached s) {needle : PyStr} {rows found : List Event}
    (hrows : ∀ e ∈ rows, e ∈ s.db.events) (hlimit : 1 ≤ limit)
    (h : needleRows E s.index userId needle limit rows = .ok found) :
    ∃ p, needleRows E s.index userId needle (-1) rows = .ok (E.newest (rows.filter p)) ∧
      found = (E.newest (rows.filter p)).take limit.toNat := by
  unfold needleRows at h ⊢
  cases hindex : (if 3 ≤ needle.length then s.index else none) with
  | some index =>
    have hsome : s.index = some index := by
      split_ifs at hindex
      exact hindex
    simp only [hindex, except_bind_eq_ok] at h ⊢
    obtain ⟨pattern, hpattern, h⟩ := h
    obtain ⟨all, hall, hfound, hunlimited⟩ := newestRows_ok hlimit (except_bind_eq_ok.2 h)
    obtain ⟨p, rfl⟩ := joined_ok hs hrows hsome hall
    exact ⟨p, ⟨pattern, hpattern, except_bind_eq_ok.1 hunlimited⟩, hfound⟩
  | none =>
    simp only [hindex, except_bind_eq_ok] at h ⊢
    obtain ⟨pattern, hpattern, h⟩ := h
    obtain ⟨all, hall, hfound, hunlimited⟩ := newestRows_ok hlimit (except_bind_eq_ok.2 h)
    obtain ⟨p, rfl⟩ := likeRows_ok hall
    exact ⟨p, ⟨pattern, hpattern, except_bind_eq_ok.1 hunlimited⟩, hfound⟩

theorem fixEvents_ok (hs : Reached s) {found : List Event} (hlimit : 1 ≤ limit)
    (h : fixEvents E s userId limit = .ok found) :
    ∃ p, fixEvents E s userId (-1) = .ok (E.newest ((userEvents s userId).filter p)) ∧
      found = (E.newest ((userEvents s userId).filter p)).take limit.toNat := by
  have hrows : ∀ e ∈ userEvents s userId, e ∈ s.db.events := fun e he => List.mem_of_mem_filter he
  have htrigram : (fixTokens.all fun tok => 3 ≤ tok.length) = true := by decide
  unfold fixEvents at h ⊢
  rw [if_pos htrigram] at h ⊢
  cases hindex : s.index with
  | some index =>
    simp only [hindex, except_bind_eq_ok] at h ⊢
    obtain ⟨pattern, hpattern, h⟩ := h
    obtain ⟨all, hall, hfound, hunlimited⟩ := newestRows_ok hlimit (except_bind_eq_ok.2 h)
    obtain ⟨p, rfl⟩ := joined_ok hs hrows hindex hall
    exact ⟨p, ⟨pattern, hpattern, except_bind_eq_ok.1 hunlimited⟩, hfound⟩
  | none =>
    simp only [hindex] at h ⊢
    obtain ⟨all, hall, hfound, hunlimited⟩ := newestRows_ok hlimit h
    cases hall
    exact ⟨_, hunlimited, hfound⟩

/-! ## Merging -/

theorem firstHits_of_pos (hlimit : 1 ≤ limit) (hits : List Hit) :
    firstHits limit (sortHits hits) = top Hit.score limit.toNat hits := by
  rw [firstHits, if_neg (by omega)]
  rfl

/-- Events in the order of their times are in the order of a score that goes by recency. -/
theorem pairwise_hits (htimed : Timed s.db) {rows : List Event}
    (hrows : ∀ e ∈ rows, e ∈ s.db.events) {hit : Event → Hit}
    (hhit : ∀ e f, recencyScore now f.createdAt ≤ recencyScore now e.createdAt →
      (hit f).score ≤ (hit e).score) :
    ((E.newest rows).map hit).Pairwise fun a b => b.score ≤ a.score := by
  rw [List.pairwise_map]
  refine (List.Pairwise.and_mem.1 (E.newest_sorted rows)).imp ?_
  rintro e f ⟨he, hf, hle⟩
  have hmem (g : Event) (hg : g ∈ E.newest rows) : g ∈ s.db.events :=
    hrows g ((E.newest_perm rows).mem_iff.1 hg)
  exact hhit e f (recencyScore_of_timed htimed (hmem e he) (hmem f hf) hle)

theorem fixEventHit_mono {e f : Event}
    (h : recencyScore now f.createdAt ≤ recencyScore now e.createdAt) :
    (fixEventHit (E.at now) f).score ≤ (fixEventHit (E.at now) e).score := by
  refine round6_mono ?_
  simp only [Engine.at]
  linarith

theorem entityEventHit_mono {e f : Event}
    (h : recencyScore now f.createdAt ≤ recencyScore now e.createdAt) :
    (entityEventHit (E.at now) f).score ≤ (entityEventHit (E.at now) e).score := by
  refine round6_mono ?_
  simp only [Engine.at]
  linarith

/-- What identifies the entity of a hit. -/
def Hit.entity (h : Hit) : String × String := (h.entityKind, h.entityId)

/-- Hits of distinct events and of distinct claims are hits of distinct entities. -/
theorem nodup_entities {events : List Event} {claims : List Claim}
    (hevents : (events.map (·.eventId)).Nodup) (hclaims : (claims.map (·.claimId)).Nodup)
    {eventHit : Event → Hit} {claimHit : Claim → Hit}
    (hevent : ∀ e, (eventHit e).entity = ("event", e.eventId))
    (hclaim : ∀ c, (claimHit c).entity = ("claim", c.claimId)) :
    ((events.map eventHit ++ claims.map claimHit).map Hit.entity).Nodup := by
  have hkind (kind : String) {ids : List String} (hids : ids.Nodup) :
      (ids.map fun id => (kind, id)).Nodup := hids.map fun a b hab => (Prod.mk.inj hab).2
  rw [List.map_append, List.map_map, List.map_map, List.nodup_append]
  simp only [Function.comp_def, hevent, hclaim]
  refine ⟨?_, ?_, ?_⟩
  · simpa [List.map_map, Function.comp_def] using hkind "event" hevents
  · simpa [List.map_map, Function.comp_def] using hkind "claim" hclaims
  · intro a ha b hb
    obtain ⟨e, -, rfl⟩ := List.mem_map.1 ha
    obtain ⟨c, -, rfl⟩ := List.mem_map.1 hb
    simp

theorem nodup_newest {events : List Event} (h : (events.map (·.eventId)).Nodup)
    (p q : Event → Bool) (n : Nat) :
    (((E.newest ((events.filter p).filter q)).take n).map (·.eventId)).Nodup := by
  have hfilter : (((events.filter p).filter q).map (·.eventId)).Nodup :=
    h.sublist ((List.filter_sublist.trans List.filter_sublist).map _)
  have hnewest := ((E.newest_perm ((events.filter p).filter q)).map (·.eventId)).nodup_iff.2 hfilter
  exact hnewest.sublist ((List.take_sublist n _).map _)

theorem orderClaims_perm (rows : List Claim) : (orderClaims rows).Perm rows :=
  List.perm_insertionSort (fun c d => claimBefore c d = true) rows

theorem nodup_orderClaims {claims : List Claim} (h : (claims.map (·.claimId)).Nodup)
    (p : Claim → Bool) (n : Nat) :
    (((orderClaims (claims.filter p)).take n).map (·.claimId)).Nodup := by
  have hfilter : ((claims.filter p).map (·.claimId)).Nodup :=
    h.sublist (List.filter_sublist.map _)
  have hordered := ((orderClaims_perm (claims.filter p)).map (·.claimId)).nodup_iff.2 hfilter
  exact hordered.sublist ((List.take_sublist n _).map _)

/-- A search for fixes returns a best selection of all matching events and claims, each at most
once: cutting the two queries loses nothing. -/
theorem byBugFix_best (hs : Reached s) (htimed : Timed s.db) (hlimit : 1 ≤ limit) {hits : List Hit}
    (h : byBugFix (E.at now) s userId limit = .ok hits) :
    ∃ events, fixEvents (E.at now) s userId (-1) = .ok events ∧
      IsBest Hit.score limit.toNat (events.map (fixEventHit (E.at now)) ++
        (fixClaims s userId).map (fixClaimHit (E.at now))) hits ∧
      (hits.map Hit.entity).Nodup := by
  unfold byBugFix at h
  rw [except_bind_eq_ok] at h
  obtain ⟨eventRows, hevents, hhits⟩ := h
  obtain ⟨p, hall, rfl⟩ := fixEvents_ok hs hlimit hevents
  have hdistinct := nodup_orderClaims hs.keyed.claims (fun c => c.userId == userId &&
    (likeFix c.subject || likeFix c.predicate || likeFix c.object)) limit.toNat
  rw [limitRows_of_pos hlimit] at hhits
  have hkept : unseenClaims ((orderClaims (fixClaims s userId)).take limit.toNat) =
      (orderClaims (fixClaims s userId)).take limit.toNat :=
    (collectFirst_nil _).trans (firstOfEach_of_nodup hdistinct)
  rw [hkept] at hhits
  dsimp only at hhits
  rw [firstHits_of_pos hlimit] at hhits
  cases hhits
  refine ⟨_, hall, ?_, ?_⟩
  · have hclaims : ((orderClaims (fixClaims s userId)).map
        (fixClaimHit (E.at now))).Pairwise fun a b => b.score ≤ a.score := by
      rw [List.pairwise_map]
      exact List.pairwise_of_forall fun c d => le_rfl
    have hsorted : (((E.at now).newest ((userEvents s userId).filter p)).map
        (fixEventHit (E.at now))).Pairwise fun a b => b.score ≤ a.score :=
      pairwise_hits htimed (fun e he => List.mem_of_mem_filter (List.mem_of_mem_filter he))
        fun e f => fixEventHit_mono
    have hbest := isBest_merge hsorted hclaims limit.toNat
    rw [← List.map_take, ← List.map_take] at hbest
    exact hbest.perm (((orderClaims_perm (fixClaims s userId)).map _).append_left _)
  · exact nodup_map_top (nodup_entities (nodup_newest hs.keyed.events _ p _) hdistinct
      (fun e => rfl) fun c => rfl) _

/-! ## When a search for fixes raises -/

theorem fixExpr_eq : fixExpr = .ofChars (Fts.group (fixTokens.map String.toList)) := by
  decide

/-- The search for the tokens in the index. -/
theorem searchIndex_fix (userId : String) (index : List FtsRow) :
    searchIndex E (String.ofList
      (Fts.renderQuery (scopedClauses userId (fixTokens.map String.toList)))) index =
      if '\x00' ∈ userId.toList then .error (syntaxError .unterminated)
      else .ok (index.filter fun row => E.phrase (ftsUserTag userId) row.userTag &&
        fixTokens.any fun tok => E.phrase tok row.payloadJson) := by
  have hnul : ∀ t ∈ fixTokens.map String.toList, '\x00' ∉ t := by decide
  split_ifs with huser
  · exact searchIndex_of_nul huser _ index
  · rw [searchIndex_scoped (by decide) huser hnul]
    simp [List.any_map, Function.comp_def]

theorem newestRows_ok_iff {found : Except Exc (List Event)} :
    (∃ rows, (bindLimit limit >>= fun limit => newestRows E limit found) = .ok rows) ↔
      (-2 ^ 63 ≤ limit ∧ limit < 2 ^ 63) ∧ (limit = 0 ∨ ∃ all, found = .ok all) := by
  by_cases hbound : -2 ^ 63 ≤ limit ∧ limit < 2 ^ 63
  · have hbind : bindLimit limit = .ok limit := if_pos hbound
    have hrun : (bindLimit limit >>= fun limit => newestRows E limit found) =
        newestRows E limit found := by
      rw [hbind]
      rfl
    rw [hrun, newestRows, and_iff_right hbound]
    by_cases hzero : limit = 0
    · rw [if_pos hzero]
      exact ⟨fun _ => .inl hzero, fun _ => ⟨[], rfl⟩⟩
    · rw [if_neg hzero]
      cases found <;> simp [hzero, Except.map]
  · have hbind : bindLimit limit = .error
        (.overflowError "Python int too large to convert to SQLite INTEGER") := if_neg hbound
    rw [hbind]
    constructor
    · rintro ⟨rows, hrows⟩
      cases hrows
    · rintro ⟨h, -⟩
      exact absurd h hbound

/-- A search for fixes raises for a limit that cannot be bound, and for a user id with a `NUL` where
there is an index. -/
theorem byBugFix_ok_iff : (∃ hits, byBugFix E s userId limit = .ok hits) ↔
    (-2 ^ 63 ≤ limit ∧ limit < 2 ^ 63) ∧
      (limit = 0 ∨ s.index = none ∨ '\x00' ∉ userId.toList) := by
  have htrigram : (fixTokens.all fun tok => 3 ≤ tok.length) = true := by decide
  have hrows : (∃ hits, byBugFix E s userId limit = .ok hits) ↔
      ∃ rows, fixEvents E s userId limit = .ok rows := by
    unfold byBugFix
    simp [except_bind_eq_ok]
  rw [hrows]
  unfold fixEvents
  rw [if_pos htrigram]
  cases hindex : s.index with
  | none => simp [newestRows_ok_iff]
  | some index =>
    have hsearch := searchIndex_fix (E := E) userId index
    simp only [bindText_scopedMatch fixExpr_eq]
    generalize String.ofList
      (Fts.renderQuery (scopedClauses userId (fixTokens.map String.toList))) = pattern at hsearch ⊢
    have hbind : (∃ rows, ((.ok pattern : Except Exc String) >>= fun pattern =>
        bindLimit limit >>= fun limit => newestRows E limit
          ((searchIndex E pattern index).map (joinIndex (userEvents s userId)))) = .ok rows) ↔ _ :=
      newestRows_ok_iff
    rw [hbind, hsearch]
    split_ifs with huser <;> simp [huser, Except.map]

/-! ## Claims and events about a subject -/

theorem entityClaims_ok {lower : PyStr → PyStr} {subject : PyStr} {found : List Claim}
    (hlimit : 1 ≤ limit) (h : entityClaims s userId lower subject limit = .ok found) :
    ∃ all, entityClaims s userId lower subject (-1) = .ok all ∧ found = all.take limit.toNat := by
  unfold entityClaims at h ⊢
  simp only [except_bind_eq_ok] at h ⊢
  obtain ⟨text, htext, pattern, hpattern, n, hn, hrows⟩ := h
  obtain rfl := bindLimit_ok hn
  rw [if_neg (by omega)] at hrows
  cases hmatching : matchingClaims s userId text pattern with
  | error e =>
    rw [hmatching] at hrows
    cases hrows
  | ok rows =>
    rw [hmatching] at hrows
    cases hrows
    exact ⟨orderClaims rows, ⟨text, htext, pattern, hpattern, -1, rfl, by simp [hmatching]; rfl⟩,
      limitRows_of_pos hlimit _⟩

/-- The rows within the limit are the first ones of all rows. -/
theorem entityRows_ok (hs : Reached s) {lower : PyStr → PyStr} {subject : PyStr}
    {found : List Claim × List Event} (hlimit : 1 ≤ limit)
    (h : entityRows E s userId lower subject limit = .ok found) :
    ∃ claims rows, entityRows E s userId lower subject (-1) = .ok (claims, E.newest rows) ∧
      (∀ e ∈ rows, e ∈ s.db.events) ∧
      found = (claims.take limit.toNat, (E.newest rows).take limit.toNat) := by
  unfold entityRows at h ⊢
  by_cases hempty : subject = []
  · rw [if_pos hempty] at h ⊢
    cases h
    have hnone : E.newest [] = [] := (E.newest_perm []).eq_nil
    exact ⟨[], [], by rw [hnone], by simp, by simp [hnone]⟩
  · rw [if_neg hempty] at h ⊢
    simp only [except_bind_eq_ok] at h ⊢
    obtain ⟨claims, hclaims, events, hevents, hfound⟩ := h
    cases hfound
    obtain ⟨all, hall, rfl⟩ := entityClaims_ok hlimit hclaims
    have hrows : ∀ e ∈ userEvents s userId, e ∈ s.db.events := fun e he =>
      List.mem_of_mem_filter he
    obtain ⟨p, hp, rfl⟩ := needleRows_ok hs hrows hlimit hevents
    exact ⟨all, (userEvents s userId).filter p, ⟨all, hall, _, hp, rfl⟩,
      fun e he => hrows e (List.mem_of_mem_filter he), rfl⟩

/-- The subject of a claim is the given one. -/
def Exact (subject : PyStr) (c : Claim) : Prop := .ofString c.subject = subject

/-- Cutting the two queries drops nothing that belongs into a selection: no claim about the very
subject behind the cut with a claim about another one before it, and for each event behind the cut
as many rows before the cuts that score as much. -/
structure EntityClean (E : Engine) (subject : PyStr) (n : Nat) (claims : List Claim)
    (events : List Event) : Prop where
  keepsExact : ∀ c ∈ claims.drop n, Exact subject c → ∀ d ∈ claims.take n, Exact subject d
  keepsEvents : ∀ e ∈ events.drop n, n ≤
    ((claims.take n).filter fun c =>
      (entityEventHit E e).score ≤ (entityClaimHit E subject c).score).length +
    ((events.take n).filter fun f => (entityEventHit E e).score ≤ (entityEventHit E f).score).length

theorem entityClaimHit_score (now : Int) (subject : PyStr) (c : Claim) :
    (Exact subject c → (entityClaimHit (E.at now) subject c).score = 11 / 10) ∧
      (¬ Exact subject c → (entityClaimHit (E.at now) subject c).score = 7 / 10) := by
  have hexact : round6 (1 + 1 / 10) = 11 / 10 := by decide +kernel
  have hbegins : round6 (6 / 10 + 1 / 10) = 7 / 10 := by decide +kernel
  constructor
  · intro h
    rw [entityClaimHit, if_pos (show PyStr.ofString c.subject = subject from h)]
    exact hexact
  · intro h
    rw [entityClaimHit, if_neg (show ¬ PyStr.ofString c.subject = subject from h)]
    exact hbegins

theorem entityEventHit_lt (now : Int) (e : Event) : (entityEventHit (E.at now) e).score < 11 / 10 := by
  have hround : round6 (8 / 10) = 8 / 10 := by decide +kernel
  have hle : (entityEventHit (E.at now) e).score ≤ round6 (8 / 10) := by
    refine round6_mono ?_
    have hone := recencyScore_le_one now e.createdAt
    simp only [Engine.at]
    linarith
  rw [hround] at hle
  linarith

/-- A claim behind the cut belongs into no selection unless it alone is about the subject. -/
theorem enough_claims_iff {subject : PyStr} {claims : List Claim} {events : List Event} {n : Nat}
    {c : Claim} (hc : c ∈ claims.drop n) :
    n ≤ ((claims.take n).filter fun d => (entityClaimHit (E.at now) subject c).score ≤
        (entityClaimHit (E.at now) subject d).score).length +
      ((events.take n).filter fun e => (entityClaimHit (E.at now) subject c).score ≤
        (entityEventHit (E.at now) e).score).length ↔
      (Exact subject c → ∀ d ∈ claims.take n, Exact subject d) := by
  have hlength : (claims.take n).length = n := by
    have hlt := List.length_pos_of_mem hc
    rw [List.length_drop] at hlt
    rw [List.length_take]
    omega
  obtain ⟨hexact, hbegins⟩ := entityClaimHit_score (E := E) now subject c
  by_cases h : Exact subject c
  · have hnone : ((events.take n).filter fun e => (entityClaimHit (E.at now) subject c).score ≤
        (entityEventHit (E.at now) e).score) = [] := by
      refine List.filter_eq_nil_iff.2 fun e _ hle => ?_
      have hlt := entityEventHit_lt (E := E) now e
      have hle := of_decide_eq_true hle
      rw [hexact h] at hle
      linarith
    have hall : (n ≤ ((claims.take n).filter fun d => (entityClaimHit (E.at now) subject c).score ≤
        (entityClaimHit (E.at now) subject d).score).length) ↔
        ∀ d ∈ claims.take n, (entityClaimHit (E.at now) subject c).score ≤
          (entityClaimHit (E.at now) subject d).score := by
      have hle := List.length_filter_le (fun d => decide
        ((entityClaimHit (E.at now) subject c).score ≤
          (entityClaimHit (E.at now) subject d).score)) (claims.take n)
      have hfull := List.length_filter_eq_length_iff (p := fun d => decide
        ((entityClaimHit (E.at now) subject c).score ≤
          (entityClaimHit (E.at now) subject d).score)) (l := claims.take n)
      simp only [decide_eq_true_eq] at hfull
      rw [← hfull]
      omega
    rw [hnone, List.length_nil, Nat.add_zero, hall, forall_prop_of_true h]
    refine forall₂_congr fun d _ => ?_
    obtain ⟨hexact', hbegins'⟩ := entityClaimHit_score (E := E) now subject d
    by_cases hd : Exact subject d
    · simp [hexact h, hexact' hd, hd]
    · rw [hexact h, hbegins' hd]
      norm_num [hd]
  · have hall : ((claims.take n).filter fun d => (entityClaimHit (E.at now) subject c).score ≤
        (entityClaimHit (E.at now) subject d).score) = claims.take n := by
      refine List.filter_eq_self.2 fun d _ => decide_eq_true ?_
      obtain ⟨hexact', hbegins'⟩ := entityClaimHit_score (E := E) now subject d
      by_cases hd : Exact subject d
      · rw [hbegins h, hexact' hd]
        norm_num
      · rw [hbegins h, hbegins' hd]
    rw [hall, hlength]
    simp [h]

/-- The selection from the first rows of the two queries is one from all rows if and only if the
cuts drop nothing that belongs into it. -/
theorem isBest_entity_iff (subject : PyStr) (n : Nat) (claims : List Claim) (events : List Event) :
    IsBest Hit.score n (claims.map (entityClaimHit (E.at now) subject) ++
        events.map (entityEventHit (E.at now)))
      (top Hit.score n ((claims.take n).map (entityClaimHit (E.at now) subject) ++
        (events.take n).map (entityEventHit (E.at now)))) ↔
      EntityClean (E.at now) subject n claims events := by
  rw [List.map_take, List.map_take, isBest_cut_iff]
  simp only [← List.map_take, ← List.map_drop, List.mem_map, List.filter_map, List.length_map,
    Function.comp_def]
  constructor
  · intro h
    refine ⟨fun c hc => ?_, fun e he => h _ (.inr ⟨e, he, rfl⟩)⟩
    exact (enough_claims_iff hc).1 (h _ (.inl ⟨c, hc, rfl⟩))
  · rintro h d (⟨c, hc, rfl⟩ | ⟨e, he, rfl⟩)
    · exact (enough_claims_iff hc).2 (h.keepsExact c hc)
    · exact h.keepsEvents e he

/-- With timestamps of `now_iso` no event behind the cut belongs into a selection. -/
theorem entityClean_of_timed (htimed : Timed s.db) {subject : PyStr} {claims : List Claim}
    {rows : List Event} (hrows : ∀ e ∈ rows, e ∈ s.db.events) {n : Nat}
    (h : ∀ c ∈ claims.drop n, Exact subject c → ∀ d ∈ claims.take n, Exact subject d) :
    EntityClean (E.at now) subject n claims (E.newest rows) := by
  refine ⟨h, fun e he => ?_⟩
  have hsorted : ((E.newest rows).map (entityEventHit (E.at now))).Pairwise
      fun a b => b.score ≤ a.score := pairwise_hits htimed hrows fun e f => entityEventHit_mono
  have hcount := le_filter_take hsorted (n := n) (d := entityEventHit (E.at now) e)
    (by rw [← List.map_drop]; exact List.mem_map_of_mem he)
  rw [← List.map_take, List.filter_map, List.length_map] at hcount
  exact hcount.trans (Nat.le_add_left _ _)

/-- A search for a subject returns a best selection of all matching claims and events if and only
if cutting the two queries drops nothing that belongs into one. -/
theorem byEntity_best_iff (hs : Reached s) {lower : PyStr → PyStr} {subject : PyStr}
    (hlimit : 1 ≤ limit) {hits : List Hit}
    (h : byEntity (E.at now) s userId lower subject limit = .ok hits) :
    ∃ claims events, entityRows (E.at now) s userId lower subject (-1) = .ok (claims, events) ∧
      (IsBest Hit.score limit.toNat (claims.map (entityClaimHit (E.at now) subject) ++
        events.map (entityEventHit (E.at now))) hits ↔
      EntityClean (E.at now) subject limit.toNat claims events) := by
  unfold byEntity at h
  rw [except_bind_eq_ok] at h
  obtain ⟨found, hfound, hhits⟩ := h
  obtain ⟨claims, rows, hall, -, rfl⟩ := entityRows_ok hs hlimit hfound
  refine ⟨claims, _, hall, ?_⟩
  dsimp only at hhits
  rw [firstHits_of_pos hlimit] at hhits
  cases hhits
  exact isBest_entity_iff subject limit.toNat claims _

/-! ### Two claims, the better match less certain -/

def vagueClaim : Claim where
  claimId := "01J0"
  userId := "ann"
  subject := "foo"
  predicate := "is"
  object := "fixed"
  sourceId := "direct:ann"
  contentHash := "h0"
  confidence := none
  state := "auto"
  createdAt := "1970-01-01T00:00:00.000000+00:00"
  updatedAt := "1970-01-01T00:00:00.000000+00:00"

def certainClaim : Claim :=
  { vagueClaim with
    claimId := "01J1"
    subject := "foobar"
    contentHash := "h1"
    confidence := some (.finite ⟨false, "0.9".toList, by decide⟩) }

def fixEvent : Event where
  eventId := "01J2"
  userId := "ann"
  actor := "ann"
  eventType := "tool.edit"
  targetKind := none
  targetId := none
  payloadJson := "\x7b\"note\": \"a fix\"\x7d"
  approvalTier := none
  createdAt := "1970-01-01T00:00:00.000000+00:00"
  sessionId := none

/-- A store with the index. -/
def sampleStore : IndexedDb :=
  IndexedDb.up ⟨{ Db.empty with claims := [vagueClaim, certainClaim], events := [fixEvent] }, none,
    false⟩

theorem sampleStore_reached : Reached sampleStore := .up (.start ⟨by decide, by decide⟩)

theorem sampleStore_timed : Timed sampleStore.db := by
  intro e he
  obtain rfl : e = fixEvent := List.mem_singleton.1 he
  exact ⟨0, ⟨1970, 1, 1, 0, 0, 0, 0, some 0⟩, by decide +kernel, by decide +kernel⟩

theorem sampleStore_rows : entityRows (trigramEngine.at 0) sampleStore "ann" asciiLower
    (.ofString "foo") (-1) = .ok ([certainClaim, vagueClaim], []) := by
  rfl

theorem sampleStore_hits : byEntity (trigramEngine.at 0) sampleStore "ann" asciiLower
    (.ofString "foo") 1 =
      .ok [entityClaimHit (trigramEngine.at 0) (.ofString "foo") certainClaim] := by
  rfl

theorem byEntity_best_sample : ∃ claims events, entityRows (trigramEngine.at 0) sampleStore "ann"
    asciiLower (.ofString "foo") (-1) = .ok (claims, events) ∧
      (IsBest Hit.score 1 (claims.map (entityClaimHit (trigramEngine.at 0) (.ofString "foo")) ++
        events.map (entityEventHit (trigramEngine.at 0)))
        [entityClaimHit (trigramEngine.at 0) (.ofString "foo") certainClaim] ↔
      EntityClean (trigramEngine.at 0) (.ofString "foo") 1 claims events) :=
  byEntity_best_iff sampleStore_reached (by decide) sampleStore_hits

/-- With a limit of one the claim about `foobar` is returned and the one about `foo` is not. -/
theorem byEntity_drops_exact : Reached sampleStore ∧
    byEntity (trigramEngine.at 0) sampleStore "ann" asciiLower (.ofString "foo") 1 =
      .ok [entityClaimHit (trigramEngine.at 0) (.ofString "foo") certainClaim] ∧
    entityRows (trigramEngine.at 0) sampleStore "ann" asciiLower (.ofString "foo") (-1) =
      .ok ([certainClaim, vagueClaim], []) ∧
    ¬ IsBest Hit.score 1
      ([certainClaim, vagueClaim].map (entityClaimHit (trigramEngine.at 0) (.ofString "foo")) ++
        [].map (entityEventHit (trigramEngine.at 0)))
      [entityClaimHit (trigramEngine.at 0) (.ofString "foo") certainClaim] := by
  refine ⟨sampleStore_reached, sampleStore_hits, sampleStore_rows, fun h => ?_⟩
  have hclean : EntityClean (trigramEngine.at 0) (.ofString "foo") 1 [certainClaim, vagueClaim] [] :=
    (isBest_entity_iff (.ofString "foo") 1 [certainClaim, vagueClaim] []).1 h
  have hexact : Exact (.ofString "foo") certainClaim :=
    hclean.keepsExact vagueClaim (by decide) rfl certainClaim (by decide)
  exact absurd hexact (by unfold Exact; decide)

theorem byBugFix_best_sample : ∃ hits events,
    byBugFix (trigramEngine.at 0) sampleStore "ann" 1 = .ok hits ∧
    fixEvents (trigramEngine.at 0) sampleStore "ann" (-1) = .ok events ∧
    IsBest Hit.score 1 (events.map (fixEventHit (trigramEngine.at 0)) ++
      (fixClaims sampleStore "ann").map (fixClaimHit (trigramEngine.at 0))) hits ∧
    (hits.map Hit.entity).Nodup := by
  obtain ⟨hits, hhits⟩ : ∃ hits, byBugFix (trigramEngine.at 0) sampleStore "ann" 1 = .ok hits :=
    byBugFix_ok_iff.2 ⟨by decide, .inr (.inr (by decide))⟩
  obtain ⟨events, hbest⟩ := byBugFix_best sampleStore_reached sampleStore_timed (by decide) hhits
  exact ⟨hits, events, hhits, hbest⟩

end ParallaxKernel.Session
