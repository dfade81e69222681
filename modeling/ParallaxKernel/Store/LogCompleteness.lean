import ParallaxKernel.Store.Runs

/-!
# Created events at every crash point

Ingests on any number of connections, each possibly cut short. The row and its created event are
two commits: between them the log is incomplete, and it stays so if the ingest ends there. A later
ingest of the same content finds the row and does not add the missing event.
-/

namespace ParallaxKernel.Store

open Lib Prog

variable (D : Digest)

/-- The two tables that the log rebuilds. -/
inductive RowKind where
  | memory
  | claim
  deriving DecidableEq

namespace RowKind

def targetKind : RowKind → String
  | memory => "memory"
  | claim => "claim"

def createdType : RowKind → String
  | memory => "memory.created"
  | claim => "claim.created"

end RowKind

/-- The primary keys of a table. -/
def Db.rowIds (db : Db) : RowKind → List String
  | .memory => db.memories.map (·.memoryId)
  | .claim => db.claims.map (·.claimId)

/-- The event says that the row of a kind with an id was created. -/
def Event.IsCreated (kind : RowKind) (id : String) (e : Event) : Prop :=
  e.eventType = kind.createdType ∧ e.targetKind = some kind.targetKind ∧ e.targetId = some id

/-- Every row has its created event. -/
structure LogComplete (db : Db) : Prop where
  memories : ∀ m ∈ db.memories, db.hasEvent "memory.created" "memory" m.memoryId = true
  claims : ∀ c ∈ db.claims, db.hasEvent "claim.created" "claim" c.claimId = true

theorem logComplete_iff {db : Db} :
    LogComplete db ↔ ∀ kind, ∀ id ∈ db.rowIds kind, ∃ e ∈ db.events, e.IsCreated kind id := by
  constructor
  · intro h kind id hid
    cases kind with
    | memory =>
      obtain ⟨m, hm, rfl⟩ := List.mem_map.1 hid
      exact Db.hasEvent_iff.1 (h.memories m hm)
    | claim =>
      obtain ⟨c, hc, rfl⟩ := List.mem_map.1 hid
      exact Db.hasEvent_iff.1 (h.claims c hc)
  · intro h
    constructor
    · intro m hm
      exact Db.hasEvent_iff.2 (h .memory _ (List.mem_map.2 ⟨m, hm, rfl⟩))
    · intro c hc
      exact Db.hasEvent_iff.2 (h .claim _ (List.mem_map.2 ⟨c, hc, rfl⟩))

theorem Event.IsCreated.unique {e : Event} {kind kind' : RowKind} {id id' : String}
    (h : e.IsCreated kind id) (h' : e.IsCreated kind' id') : kind' = kind ∧ id' = id := by
  obtain ⟨htype, -, hid⟩ := h
  obtain ⟨htype', -, hid'⟩ := h'
  refine ⟨?_, ?_⟩
  · cases kind <;> cases kind' <;> simp_all [RowKind.createdType]
  · simpa [hid] using hid'.symm

/-! ## Ingests -/

/-- An ingest with the ids and clock readings it draws. Each runs on a connection of its own, which
has no open transaction between two ingests: a client that makes several is several of these. -/
inductive Ingest where
  | memory (a : MemoryArgs) (d : Draws)
  | claim (a : ClaimArgs) (d : Draws)

namespace Ingest

def prog : Ingest → Sql Unit
  | memory a d => ignore (ingestMemory D a d)
  | claim a d => ignore (ingestClaim D a d)

def kind : Ingest → RowKind
  | memory _ _ => .memory
  | claim _ _ => .claim

/-- The id that the ingest draws for its row. -/
def rowId : Ingest → String
  | memory _ d => d.row.ulid
  | claim _ d => d.row.ulid

end Ingest

/-! ## What a commit does -/

/-- A commit that adds a row. -/
def AddsRow (p : Db × Db) : Prop := ∃ kind, p.2.rowIds kind ≠ p.1.rowIds kind

/-- What a commit of an ingest does, in the order of its commits `h` before: it registers the
source, adds the row or passes over it, and records the event. -/
inductive IngestStep (kind : RowKind) (id : String) (h : List (Db × Db)) (b v : Db) : Prop where
  | source (hh : h.length = 0) (hrows : v.rowIds = b.rowIds) (hevents : v.events = b.events)
  | kept (hh : h.length = 1) (hv : v = b)
  | added (hh : h.length = 1) (hevents : v.events = b.events)
    (hrows : ∀ k, v.rowIds k = b.rowIds k ++ if k = kind then [id] else [])
  | recorded (e : Event) (hh : h.length = 2) (hrows : v.rowIds = b.rowIds)
    (hevents : v.events = b.events ++ [e]) (hcreated : (∃ p ∈ h, AddsRow p) → e.IsCreated kind id)
    (honly : ∀ k i, e.IsCreated k i → k = kind ∧ i = id)

namespace IngestStep

variable {kind : RowKind} {id : String} {h : List (Db × Db)} {b v : Db}

theorem length_le (hs : IngestStep kind id h b v) : h.length ≤ 2 := by
  cases hs <;> omega

theorem mem_rowIds (hs : IngestStep kind id h b v) {k : RowKind} {i : String} :
    i ∈ v.rowIds k ↔ i ∈ b.rowIds k ∨ AddsRow (b, v) ∧ k = kind ∧ i = id := by
  have hsame (hrows : v.rowIds = b.rowIds) : ¬ AddsRow (b, v) := by
    rintro ⟨k, hk⟩
    exact hk (congrFun hrows k)
  cases hs with
  | source _ hrows _ => simp [hrows, hsame hrows]
  | kept _ hv => simp [hv ▸ hsame (hv ▸ rfl), hv]
  | added _ _ hrows =>
    have hadds : AddsRow (b, v) := ⟨kind, by simp [hrows]⟩
    by_cases hk : k = kind <;> simp [hrows, hadds, hk]
  | recorded e _ hrows _ _ _ => simp [hrows, hsame hrows]

theorem addsRow (hs : IngestStep kind id h b v) (hadds : AddsRow (b, v)) :
    h.length = 1 ∧ id ∈ v.rowIds kind := by
  refine ⟨?_, hs.mem_rowIds.2 (.inr ⟨hadds, rfl, rfl⟩)⟩
  obtain ⟨k, hk⟩ := hadds
  cases hs with
  | source _ hrows _ => exact absurd (congrFun hrows k) hk
  | kept hh _ => exact hh
  | added hh _ _ => exact hh
  | recorded e _ hrows _ _ _ => exact absurd (congrFun hrows k) hk

theorem event_mem (hs : IngestStep kind id h b v) {e : Event} (he : e ∈ b.events) :
    e ∈ v.events := by
  cases hs with
  | source _ _ hevents => rwa [hevents]
  | kept _ hv => rwa [hv]
  | added _ hevents _ => rwa [hevents]
  | recorded e _ _ hevents _ _ => simp [hevents, he]

theorem event_cases (hs : IngestStep kind id h b v) {e : Event} (he : e ∈ v.events) :
    e ∈ b.events ∨ h.length = 2 ∧ ∀ k i, e.IsCreated k i → k = kind ∧ i = id := by
  cases hs with
  | source _ _ hevents => exact .inl (hevents ▸ he)
  | kept _ hv => exact .inl (hv ▸ he)
  | added _ hevents _ => exact .inl (hevents ▸ he)
  | recorded f hh _ hevents _ honly =>
    rw [hevents] at he
    cases List.mem_append.1 he with
    | inl hb => exact .inl hb
    | inr hf => exact .inr ⟨hh, List.mem_singleton.1 hf ▸ honly⟩

theorem created (hs : IngestStep kind id h b v) (hlen : h.length = 2)
    (hadds : ∃ p ∈ h, AddsRow p) : ∃ e ∈ v.events, e.IsCreated kind id := by
  cases hs with
  | source hh _ _ => omega
  | kept hh _ => omega
  | added hh _ _ => omega
  | recorded e _ _ hevents hcreated _ => exact ⟨e, by simp [hevents], hcreated hadds⟩

end IngestStep

/-! ## What any sequence of commits does -/

section

variable {ι : Type} [DecidableEq ι] (ingests : ι → Ingest) (db₀ : Db)

/-- The rows and the created events of a store, each with the ingest it comes from. -/
structure Logged (H : List (ι × Db × Db)) (db : Db) : Prop where
  rows : ∀ kind, ∀ id ∈ db.rowIds kind, id ∈ db₀.rowIds kind ∨
    ∃ i, (ingests i).kind = kind ∧ (ingests i).rowId = id ∧ ∃ p ∈ commitsOf i H, AddsRow p
  added : ∀ i, (∃ p ∈ commitsOf i H, AddsRow p) → (ingests i).rowId ∈ db.rowIds (ingests i).kind
  recorded : ∀ i, (commitsOf i H).length = 3 → (∃ p ∈ commitsOf i H, AddsRow p) →
    ∃ e ∈ db.events, e.IsCreated (ingests i).kind (ingests i).rowId
  events : ∀ e ∈ db.events, ∀ kind id, e.IsCreated kind id → e ∈ db₀.events ∨
    ∃ i, (ingests i).kind = kind ∧ (ingests i).rowId = id ∧ (commitsOf i H).length = 3
  kept : ∀ e ∈ db₀.events, e ∈ db.events

variable {ingests db₀}

theorem commitsOf_self (i : ι) (H : List (ι × Db × Db)) (b v : Db) :
    commitsOf i (H ++ [(i, b, v)]) = commitsOf i H ++ [(b, v)] := by
  simp [commitsOf]

theorem commitsOf_other {i j : ι} (hj : j ≠ i) (H : List (ι × Db × Db)) (b v : Db) :
    commitsOf j (H ++ [(i, b, v)]) = commitsOf j H := by
  simp [commitsOf, hj.symm]

theorem addsRow_append {i j : ι} {H : List (ι × Db × Db)} {b v : Db} :
    (∃ p ∈ commitsOf j (H ++ [(i, b, v)]), AddsRow p) ↔
      (∃ p ∈ commitsOf j H, AddsRow p) ∨ j = i ∧ AddsRow (b, v) := by
  by_cases hj : j = i
  · subst hj
    simp [commitsOf_self, or_and_right, exists_or]
  · simp [commitsOf_other hj, hj]

theorem Logged.step {H : List (ι × Db × Db)} {b v : Db} {i : ι} (hlog : Logged ingests db₀ H b)
    (hs : IngestStep (ingests i).kind (ingests i).rowId (commitsOf i H) b v) :
    Logged ingests db₀ (H ++ [(i, b, v)]) v := by
  have hlength (j : ι) (h : (commitsOf j H).length = 3) :
      (commitsOf j (H ++ [(i, b, v)])).length = 3 := by
    by_cases hj : j = i
    · subst hj
      have := hs.length_le
      omega
    · rwa [commitsOf_other hj]
  constructor
  · intro kind id hid
    rcases hs.mem_rowIds.1 hid with hid | ⟨hadds, rfl, rfl⟩
    · obtain hold | ⟨j, hkind, hrow, hj⟩ := hlog.rows kind id hid
      · exact .inl hold
      · exact .inr ⟨j, hkind, hrow, addsRow_append.2 (.inl hj)⟩
    · exact .inr ⟨i, rfl, rfl, addsRow_append.2 (.inr ⟨rfl, hadds⟩)⟩
  · intro j hj
    obtain hj | ⟨rfl, hadds⟩ := addsRow_append.1 hj
    · exact hs.mem_rowIds.2 (.inl (hlog.added j hj))
    · exact (hs.addsRow hadds).2
  · intro j hlen hj
    by_cases hji : j = i
    · subst hji
      rw [commitsOf_self, List.length_append, List.length_singleton] at hlen
      obtain hj | ⟨-, hadds⟩ := addsRow_append.1 hj
      · exact hs.created (by omega) hj
      · have := (hs.addsRow hadds).1
        omega
    · rw [commitsOf_other hji] at hlen hj
      obtain ⟨e, he, hcreated⟩ := hlog.recorded j hlen hj
      exact ⟨e, hs.event_mem he, hcreated⟩
  · intro e he kind id hcreated
    cases hs.event_cases he with
    | inl hb =>
      obtain hold | ⟨j, hkind, hrow, hj⟩ := hlog.events e hb kind id hcreated
      · exact .inl hold
      · exact .inr ⟨j, hkind, hrow, hlength j hj⟩
    | inr hnew =>
      obtain ⟨hlen, honly⟩ := hnew
      obtain ⟨rfl, rfl⟩ := honly kind id hcreated
      exact .inr ⟨i, rfl, rfl, by rw [commitsOf_self, List.length_append, hlen]; rfl⟩
  · intro e he
    exact hs.event_mem (hlog.kept e he)

theorem logged_commits {H : List (ι × Db × Db)} {db : Db}
    (hH : Commits (fun i h b v => IngestStep (ingests i).kind (ingests i).rowId h b v) db₀ H db) :
    Logged ingests db₀ H db := by
  induction hH with
  | nil => constructor <;> simp +contextual [commitsOf]
  | snoc hH hG ih => exact ih.step hG

end

/-! ## Each ingest is safe -/

/-- No row goes or changes. -/
structure Db.Grows (b v : Db) : Prop where
  memories : ∀ m ∈ b.memories, m ∈ v.memories
  claims : ∀ c ∈ b.claims, c ∈ v.claims

theorem Db.Grows.refl (db : Db) : db.Grows db := ⟨fun _ hm => hm, fun _ hc => hc⟩

theorem Db.Grows.trans {a b c : Db} (hab : a.Grows b) (hbc : b.Grows c) : a.Grows c :=
  ⟨fun m hm => hbc.memories m (hab.memories m hm), fun x hx => hbc.claims x (hab.claims x hx)⟩

/-- What each commit of an ingest guarantees. -/
def IngestGuar (kind : RowKind) (id : String) (h : List (Db × Db)) (b v : Db) : Prop :=
  b.Grows v ∧ IngestStep kind id h b v

/-- An ingest of `id` among others, whatever fails. -/
abbrev SafeIngest {α : Type} (kind : RowKind) (id : String) (p : Sql α) (base : Db)
    (h : List (Db × Db)) : Prop :=
  p.Safe Db.Valid Db.Grows (fun _ => True) (IngestGuar kind id) (fun _ _ _ _ => True) none base h

theorem withSource_guar (kind : RowKind) (id : String) (b : Db) (s : Source) :
    IngestGuar kind id [] b (b.withSource s) := by
  refine ⟨⟨by simp, by simp⟩, .source rfl ?_ (by simp)⟩
  funext k
  cases k <;> simp [Db.rowIds]

/-- An ingest that passes over its row has added none. -/
theorem not_addsRow_kept (b b' : Db) (s : Source) :
    ¬ ∃ p ∈ [(b, b.withSource s)] ++ [(b', b')], AddsRow p := by
  rintro ⟨p, hp, k, hk⟩
  rcases List.mem_append.1 hp with hp | hp
  · rw [List.mem_singleton.1 hp] at hk
    cases k <;> simp [Db.rowIds] at hk
  · rw [List.mem_singleton.1 hp] at hk
    exact hk rfl

theorem appendEvent_guar {kind : RowKind} {id : String} {h : List (Db × Db)} {b : Db} {e : Event}
    (hh : h.length = 2) (hcreated : (∃ p ∈ h, AddsRow p) → e.IsCreated kind id)
    (honly : ∀ k i, e.IsCreated k i → k = kind ∧ i = id) :
    IngestGuar kind id h b { b with events := b.events ++ [e] } := by
  refine ⟨⟨fun _ hm => hm, fun _ hc => hc⟩, .recorded e hh ?_ rfl hcreated honly⟩
  funext k
  cases k <;> rfl

/-- Recording the event of an ingest after its two other commits. -/
theorem safe_recordThird {kind : RowKind} {id : String} {base : Db} {h : List (Db × Db)}
    {a : EventArgs} {stamp : Stamp} (hpaired : a.targetKind.isNone = a.targetId.isNone)
    (hh : h.length = 2) (hcreated : (∃ p ∈ h, AddsRow p) → (a.event stamp).IsCreated kind id)
    (honly : ∀ k i, (a.event stamp).IsCreated k i → k = kind ∧ i = id) :
    SafeIngest kind id (recordEvent a stamp) base h := by
  refine safe_recordEvent Db.Grows.trans hpaired (fun _ _ _ _ _ => trivial)
    (fun _ _ _ => ⟨trivial, trivial⟩) ?_
  rintro b v ⟨hvalid, -, rfl⟩ -
  exact ⟨hvalid.appendEvent _, appendEvent_guar hh hcreated honly, trivial⟩

section Memory

variable {D} (a : MemoryArgs) (d : Draws) {base : Db} {h : List (Db × Db)}

theorem isCreated_memoryCreated (m : Memory) (stamp : Stamp) :
    ((memoryCreated m).event stamp).IsCreated .memory m.memoryId := ⟨rfl, rfl, rfl⟩

theorem not_isCreated_reaffirmed (userId memoryId actor : String) (stamp : Stamp) (k : RowKind)
    (i : String) : ¬ ((memoryReaffirmed userId memoryId actor).event stamp).IsCreated k i := by
  rintro ⟨htype, -, -⟩
  cases k <;> simp [EventArgs.event, memoryReaffirmed, RowKind.createdType] at htype

/-- The row found under the hash of a row that is there is that row. -/
theorem memoryIdsOf_eq {db : Db} (hvalid : db.Valid) {m : Memory} (hm : m ∈ db.memories)
    {id : String} (hid : id ∈ db.memoryIdsOf m.contentHash m.userId) : id = m.memoryId := by
  simp only [Db.memoryIdsOf, List.mem_map, List.mem_filter, Bool.and_eq_true, beq_iff_eq] at hid
  obtain ⟨n, ⟨hn, hhash, huser⟩, rfl⟩ := hid
  rw [hvalid.memory_eq hm hn (by simp [Memory.clashes, hhash, huser])]

theorem safe_recordMemory (sourceId : String) (hh : h.length = 2)
    (hrow : (∃ p ∈ h, AddsRow p) → a.candidate D sourceId d.row ∈ base.memories) :
    SafeIngest .memory d.row.ulid (do
      let rows ← query fun db => db.memoryIdsOf (a.contentHash D) a.userId
      let persistedId ← firstRow rows
      if persistedId ≠ d.row.ulid then
        let _ ← recordMemoryReaffirmed a.userId persistedId "system" d.event
        pure (persistedId, true)
      else
        let _ ← recordEvent (memoryCreated (a.candidate D sourceId d.row)) d.event
        pure (persistedId, false)) base h := by
  unfold SafeIngest
  rw [safe_bind, safe_query]
  refine ⟨fun b v hs => ?_, fun _ _ => trivial⟩
  obtain ⟨hvalid, hgrows, rfl⟩ := hs
  cases hrows : v.memoryIdsOf (a.contentHash D) a.userId with
  | nil => trivial
  | cons id rest =>
    simp only [firstRow]
    rw [safe_bind, safe_pure]
    by_cases hid : id = d.row.ulid
    · simp only [hid, ne_eq, not_true_eq_false, if_false]
      rw [safe_bind]
      refine Safe.mono ?_ (safe_recordThird rfl hh (fun _ => isCreated_memoryCreated _ _)
        fun k i hk => (isCreated_memoryCreated (a.candidate D sourceId d.row) d.event).unique hk)
      intro r w b h _
      cases r <;> trivial
    · simp only [hid, ne_eq, not_false_eq_true, if_true]
      rw [safe_bind]
      refine Safe.mono ?_ (safe_recordThird rfl hh ?_
        fun k i hk => absurd hk (not_isCreated_reaffirmed _ _ _ _ k i))
      · intro r w b h _
        cases r <;> trivial
      · intro hadds
        -- the row is the one that this ingest has added
        refine absurd (memoryIdsOf_eq hvalid (hgrows.memories _ (hrow hadds)) ?_) hid
        exact (List.mem_cons_self : id ∈ id :: rest) |> (hrows ▸ ·)

theorem safe_memoryIngest (db : Db) :
    SafeIngest .memory d.row.ulid ((Ingest.memory a d).prog D) db [] := by
  unfold SafeIngest
  rw [Ingest.prog, safe_ignore, ingestMemory, safe_bind]
  refine Safe.mono (Q := fun _ _ _ _ => True) ?_ ?_
  · intro r w b h _
    cases r <;> trivial
  rw [ingestMemoryWithStatus, safe_bind]
  refine safe_ensureSource D (fun _ => trivial) (fun _ _ _ => trivial) ?_
  intro b s hvalid _ _
  refine ⟨hvalid.withSource s, withSource_guar _ _ b s, ?_⟩
  simp only [List.nil_append]
  rw [safe_bind]
  refine safe_insertMemory (fun _ _ _ => trivial) ?_ ?_
  · intro b' hvalid' _ _
    exact ⟨hvalid', ⟨.refl b', .kept rfl rfl⟩, safe_recordMemory a d s.sourceId rfl
      fun hadds => absurd hadds (not_addsRow_kept b b' s)⟩
  · intro b' hvalid' _ hclash hfk
    refine ⟨hvalid'.addMemory hclash hfk, ⟨⟨by simp +contextual, by simp⟩, .added rfl rfl ?_⟩,
      safe_recordMemory a d s.sourceId rfl (by simp)⟩
    intro k
    cases k <;> simp [Db.rowIds]

end Memory

section Claim

variable {D} (a : ClaimArgs) (d : Draws) {base : Db} {h : List (Db × Db)}

theorem isCreated_claimCreated (c : Claim) (stamp : Stamp) :
    ((claimCreated c).event stamp).IsCreated .claim c.claimId := ⟨rfl, rfl, rfl⟩

theorem safe_recordClaim (sourceId : String) (hh : h.length = 2) :
    SafeIngest .claim d.row.ulid (do
      let rows ← query fun db => db.claimIdsOf (a.contentHash D sourceId) sourceId a.userId
      let persistedId ← firstRow rows
      if persistedId ≠ d.row.ulid then
        pure (persistedId, true)
      else
        let _ ← recordEvent (claimCreated (a.candidate D sourceId d.row)) d.event
        pure (persistedId, false)) base h := by
  unfold SafeIngest
  rw [safe_bind, safe_query]
  refine ⟨fun b v hs => ?_, fun _ _ => trivial⟩
  cases v.claimIdsOf (a.contentHash D sourceId) sourceId a.userId with
  | nil => trivial
  | cons id rest =>
    simp only [firstRow]
    rw [safe_bind, safe_pure]
    by_cases hid : id = d.row.ulid
    · simp only [hid, ne_eq, not_true_eq_false, if_false]
      rw [safe_bind]
      refine Safe.mono ?_ (safe_recordThird rfl hh (fun _ => isCreated_claimCreated _ _)
        fun k i hk => (isCreated_claimCreated (a.candidate D sourceId d.row) d.event).unique hk)
      intro r w b h _
      cases r <;> trivial
    · simp only [hid, ne_eq, not_false_eq_true, if_true]
      trivial

theorem safe_claimIngest (db : Db) :
    SafeIngest .claim d.row.ulid ((Ingest.claim a d).prog D) db [] := by
  unfold SafeIngest
  rw [Ingest.prog, safe_ignore, ingestClaim, safe_bind]
  refine Safe.mono (Q := fun _ _ _ _ => True) ?_ ?_
  · intro r w b h _
    cases r <;> trivial
  rw [ingestClaimWithStatus]
  by_cases hstate : a.state ∈ claimTransitions.map (·.1)
  case neg =>
    rw [if_pos hstate]
    trivial
  rw [if_neg (not_not.2 hstate), safe_bind]
  refine safe_ensureSource D (fun _ => trivial) (fun _ _ _ => trivial) ?_
  intro b s hvalid _ _
  refine ⟨hvalid.withSource s, withSource_guar _ _ b s, ?_⟩
  simp only [List.nil_append]
  rw [safe_bind]
  refine safe_insertClaim (fun _ _ _ => trivial) ?_ ?_
  · intro b' hvalid' _ _
    exact ⟨hvalid', ⟨.refl b', .kept rfl rfl⟩, safe_recordClaim a d s.sourceId rfl⟩
  · intro b' hvalid' _ hclash hfk
    refine ⟨hvalid'.addClaim hclash hfk, ⟨⟨by simp, by simp +contextual⟩, .added rfl rfl ?_⟩,
      safe_recordClaim a d s.sourceId rfl⟩
    intro k
    cases k <;> simp [Db.rowIds, Claim.stored]

end Claim

theorem Ingest.safe (ingest : Ingest) (db : Db) :
    SafeIngest ingest.kind ingest.rowId (ingest.prog D) db [] := by
  cases ingest with
  | memory a d => exact safe_memoryIngest a d db
  | claim a d => exact safe_claimIngest a d db

/-! ## The log at a crash point -/

section

variable {ι : Type} [DecidableEq ι]

/-- No ingest stands between the commit of a row it has added and its third commit, the last. -/
def NoneHalfway (H : List (ι × Db × Db)) : Prop :=
  ∀ i, (∃ p ∈ commitsOf i H, AddsRow p) → (commitsOf i H).length = 3

/-- Wherever a run is cut off, whatever has failed or crashed on the way: the log is complete if
and only if no ingest was halfway. -/
theorem logComplete_iff_noneHalfway (ingests : ι → Ingest) {db₀ : Db} (hvalid : db₀.Valid)
    (hlog : LogComplete db₀) (hdistinct : Function.Injective fun i => (ingests i).rowId)
    (hfresh : ∀ i, ∀ e ∈ db₀.events, e.targetId ≠ some (ingests i).rowId)
    {s : Sys ι Db Exc Unit}
    (hrun : Sys.Run (fun _ _ => True) (Sys.start db₀ fun i => (ingests i).prog D) s) :
    LogComplete s.db ↔ NoneHalfway s.history := by
  have hcontract : Sys.Contract Db.Valid Db.Grows (fun _ _ => True)
      (fun i => IngestGuar (ingests i).kind (ingests i).rowId) (fun _ _ _ _ _ => True) db₀
      fun i => (ingests i).prog D := by
    constructor
    · exact Db.Grows.refl
    · exact Db.Grows.trans
    · intro i h a b _ _ hguar
      exact hguar.1
    · exact hvalid
    · intro i
      exact (ingests i).safe D db₀
  have hlogged : Logged ingests db₀ s.history s.db :=
    logged_commits ((hrun.sound hcontract).commits.mono fun _ _ _ _ hG => hG.2.2.2)
  rw [logComplete_iff]
  constructor
  · intro hall i hadds
    obtain ⟨e, he, hcreated⟩ := hall _ _ (hlogged.added i hadds)
    obtain hold | ⟨j, -, hrow, hlen⟩ := hlogged.events e he _ _ hcreated
    · exact absurd hcreated.2.2 (hfresh i e hold)
    · obtain rfl : j = i := hdistinct hrow
      exact hlen
  · intro hnone kind id hid
    obtain hold | ⟨i, rfl, rfl, hadds⟩ := hlogged.rows kind id hid
    · obtain ⟨e, he, hcreated⟩ := logComplete_iff.1 hlog kind id hold
      exact ⟨e, hlogged.kept e he, hcreated⟩
    · exact hlogged.recorded i (hnone i hadds) hadds

end

section Sample

/-- Two ingests of one memory. -/
def sampleIngests (first : Bool) : Ingest :=
  if first then
    .memory ⟨"ann", some "T", none, "p.md", none⟩ ⟨"t1", ⟨"M1", "t2"⟩, ⟨"E1", "t3"⟩⟩
  else
    .memory ⟨"ann", some "T", none, "p.md", none⟩ ⟨"t4", ⟨"M2", "t5"⟩, ⟨"E2", "t6"⟩⟩

def sampleIngestStart : Sys Bool Db Exc Unit :=
  Sys.start .empty fun i => (sampleIngests i).prog .sample

/-- The second ingest runs to its end. -/
theorem logComplete_iff_noneHalfway_sample : ∃ s : Sys Bool Db Exc Unit,
    sampleIngestStart.play (List.replicate 8 (false, .goes)) = some s ∧ s.db.memories.length = 1 ∧
      (LogComplete s.db ↔ NoneHalfway s.history) := by
  have hsome : (sampleIngestStart.play (List.replicate 8 (false, .goes))).map
      (·.db.memories.length) = some 1 := by decide +kernel
  obtain ⟨s, hs, hlen⟩ := Option.map_eq_some_iff.1 hsome
  refine ⟨s, hs, hlen, logComplete_iff_noneHalfway .sample sampleIngests ?_ ?_ ?_ ?_
    (Sys.run_play (fun _ _ => trivial) .start hs)⟩
  · constructor <;> simp [Db.empty]
  · constructor <;> simp [Db.empty]
  · rintro (_ | _) (_ | _) h <;> first | rfl | simp [sampleIngests, Ingest.rowId] at h
  · simp [Db.empty]

/-- The first ingest dies between its row and its event; the second one finds the row and leaves
the log as incomplete as it was. -/
theorem log_incomplete : ∃ s : Sys Bool Db Exc Unit,
    Sys.Run (fun _ _ => True) sampleIngestStart s ∧ ¬ LogComplete s.db := by
  have hsome : (sampleIngestStart.play (List.replicate 4 (true, .goes) ++ [(true, .crashes)] ++
      List.replicate 8 (false, .goes))).map (fun s => s.db.memories.all fun m =>
        s.db.hasEvent "memory.created" "memory" m.memoryId) = some false := by decide +kernel
  obtain ⟨s, hs, hall⟩ := Option.map_eq_some_iff.1 hsome
  refine ⟨s, Sys.run_play (fun _ _ => trivial) .start hs, fun hlog => ?_⟩
  rw [List.all_eq_true.2 hlog.memories] at hall
  simp at hall

end Sample

end ParallaxKernel.Store
