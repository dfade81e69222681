import Mathlib.Data.String.Basic
import ParallaxKernel.Store.Runs

/-!
# Backfill, then replay

A backfill makes the log of every run of the writers sufficient: replayed into a store with the
same sources it gives the tables back.
-/

namespace ParallaxKernel.Store

open Lib

/-! ## The events that a backfill adds -/

theorem insertEvents_eq {es : List Event} {db : Db} (hnodup : (es.map (·.eventId)).Nodup)
    (hfresh : ∀ e ∈ es, ∀ f ∈ db.events, f.eventId ≠ e.eventId) :
    insertEvents es db = .ok { db with events := db.events ++ es } := by
  induction es generalizing db with
  | nil => simp [insertEvents, pure, Except.pure]
  | cons e es ih =>
    have hins := insertEvent_eq (hfresh e (by simp))
    rw [List.map_cons, List.nodup_cons] at hnodup
    have hrest : insertEvents es { db with events := db.events ++ [e] } =
        .ok { db with events := db.events ++ (e :: es) } := by
      rw [ih hnodup.2]
      · simp
      · intro x hx f hf
        rcases List.mem_append.1 hf with hf | hf
        · exact hfresh x (by simp [hx]) f hf
        · rintro heq
          exact hnodup.1 (List.mem_map.2 ⟨x, hx, by rw [← heq, List.mem_singleton.1 hf]⟩)
    simpa [insertEvents, Db.apply, hins, Except.map, bind, Except.bind] using hrest

/-- The ids of events that are drawn one for each row. -/
theorem map_eventId_mapIdx {α : Type} {f : α → String → Event} (hf : ∀ a u, (f a u).eventId = u)
    (rows : List α) (ulid : Nat → String) :
    (rows.mapIdx fun n a => f a (ulid n)).map (·.eventId) =
      (List.range rows.length).map ulid := by
  refine List.ext_getElem (by simp) fun n h₁ h₂ => ?_
  simp [hf]

theorem mem_mapIdx {α β : Type} {f : Nat → α → β} {rows : List α} {b : β}
    (h : b ∈ rows.mapIdx f) : ∃ a ∈ rows, ∃ n, n < rows.length ∧ b = f n a := by
  obtain ⟨n, hn, rfl⟩ := List.mem_mapIdx.1 h
  exact ⟨rows[n], List.getElem_mem hn, n, hn, rfl⟩

section

variable (db : Db) (ulid : Nat → String)

def Db.memoryBackfill : List Event :=
  db.memoriesMissingCreated.mapIdx fun n m => backfillMemoryEvent m (ulid n)

def Db.claimBackfill : List Event :=
  db.claimsMissingCreated.mapIdx fun n c =>
    backfillClaimEvent c (ulid (db.memoriesMissingCreated.length + n))

/-- The store after a backfill. -/
def Db.backfilled : Db :=
  { db with events := db.events ++ db.memoryBackfill ulid ++ db.claimBackfill ulid }

/-- The generator draws ids that the log does not use. -/
structure FreshUlids : Prop where
  injective : Function.Injective ulid
  fresh : ∀ e ∈ db.events, ∀ n, e.eventId ≠ ulid n

variable {db ulid}

theorem claimsMissingCreated_memoryBackfill :
    { db with events := db.events ++ db.memoryBackfill ulid }.claimsMissingCreated =
      db.claimsMissingCreated := by
  have hevent (c : Claim) :
      { db with events := db.events ++ db.memoryBackfill ulid }.hasEvent "claim.created" "claim"
        c.claimId = db.hasEvent "claim.created" "claim" c.claimId := by
    simp only [Db.hasEvent, List.any_append, Bool.or_eq_left_iff_imp, List.any_eq_true]
    rintro ⟨e, he, htype⟩
    obtain ⟨m, -, n, -, rfl⟩ := mem_mapIdx he
    simp [backfillMemoryEvent, EventArgs.event, memoryCreated] at htype
  simp only [Db.claimsMissingCreated, hevent]

theorem backfill_eq (hulid : FreshUlids db ulid) : backfillCreationEvents ulid db =
    .ok (⟨db.memoriesMissingCreated.length, db.claimsMissingCreated.length⟩,
      db.backfilled ulid) := by
  have hmemIds : (db.memoryBackfill ulid).map (·.eventId) =
      (List.range db.memoriesMissingCreated.length).map ulid :=
    map_eventId_mapIdx (fun _ _ => rfl) _ _
  have hclaimIds : (db.claimBackfill ulid).map (·.eventId) =
      (List.range db.claimsMissingCreated.length).map fun n =>
        ulid (db.memoriesMissingCreated.length + n) :=
    map_eventId_mapIdx (fun _ _ => rfl) _ fun n => ulid (db.memoriesMissingCreated.length + n)
  have hmemories : insertEvents (db.memoryBackfill ulid) db =
      .ok { db with events := db.events ++ db.memoryBackfill ulid } := by
    refine insertEvents_eq (hmemIds ▸ List.nodup_range.map hulid.injective) fun e he f hf => ?_
    obtain ⟨m, -, n, -, rfl⟩ := mem_mapIdx he
    exact hulid.fresh f hf n
  have hclaims : insertEvents (db.claimBackfill ulid)
      { db with events := db.events ++ db.memoryBackfill ulid } = .ok (db.backfilled ulid) := by
    refine insertEvents_eq (hclaimIds ▸ List.nodup_range.map fun i j h => ?_) fun e he f hf => ?_
    · have := hulid.injective h
      omega
    · obtain ⟨c, -, n, -, rfl⟩ := mem_mapIdx he
      rcases List.mem_append.1 hf with hf | hf
      · exact hulid.fresh f hf _
      · obtain ⟨m, -, k, hk, rfl⟩ := mem_mapIdx hf
        intro heq
        have := hulid.injective heq
        omega
  unfold backfillCreationEvents
  simp only [← Db.memoryBackfill.eq_1, hmemories, bind, Except.bind,
    claimsMissingCreated_memoryBackfill]
  rw [← Db.claimBackfill.eq_1, hclaims]

theorem effect_backfillMemory (m : Memory) (u : String) :
    (backfillMemoryEvent m u).effect = .ok (.memory m) :=
  effect_memoryCreated m "system:backfill" ⟨u, m.createdAt⟩

theorem effect_backfillClaim (c : Claim) (u : String) :
    (backfillClaimEvent c u).effect = .ok (.claim c.stored) :=
  effect_claimCreated c "system:backfill" ⟨u, c.createdAt⟩

theorem mem_memoryBackfill {e : Event} (he : e ∈ db.memoryBackfill ulid) :
    ∃ m ∈ db.memories, ∃ u, e = backfillMemoryEvent m u := by
  obtain ⟨m, hm, n, -, rfl⟩ := mem_mapIdx he
  exact ⟨m, List.mem_of_mem_filter hm, _, rfl⟩

theorem mem_claimBackfill {e : Event} (he : e ∈ db.claimBackfill ulid) :
    ∃ c ∈ db.claims, db.hasEvent "claim.created" "claim" c.claimId = false ∧
      ∃ u, e = backfillClaimEvent c u := by
  obtain ⟨c, hc, n, -, rfl⟩ := mem_mapIdx he
  obtain ⟨hmem, hmissing⟩ := List.mem_filter.1 hc
  exact ⟨c, hmem, by simpa using hmissing, _, rfl⟩

theorem backfilled_fits (h : Rebuildable db) {e : Event} (he : e ∈ (db.backfilled ulid).events) :
    ∃ eff, e.effect = .ok eff ∧ eff.Fits db := by
  simp only [Db.backfilled, List.mem_append] at he
  rcases he with (he | he) | he
  · exact (h.recorded e he).fits
  · obtain ⟨m, hm, u, rfl⟩ := mem_memoryBackfill he
    exact ⟨_, effect_backfillMemory m u, hm⟩
  · obtain ⟨c, hc, -, u, rfl⟩ := mem_claimBackfill he
    exact ⟨_, effect_backfillClaim c u, c.stored_stored, c, hc, c.sameRow_stored⟩

/-! ## Order -/

instance : Std.Total Event.before where
  total e f := by
    unfold Event.before
    rcases lt_trichotomy e.createdAt f.createdAt with h | h | h
    · exact .inl (.inl h)
    · rcases le_total e.eventId f.eventId with hid | hid
      · exact .inl (.inr ⟨h, hid⟩)
      · exact .inr (.inr ⟨h.symm, hid⟩)
    · exact .inr (.inl h)

instance : IsTrans Event Event.before where
  trans e f g hef hfg := by
    unfold Event.before at *
    rcases hef with h | ⟨h, hid⟩ <;> rcases hfg with h' | ⟨h', hid'⟩
    · exact .inl (h.trans h')
    · exact .inl (h' ▸ h)
    · exact .inl (h ▸ h')
    · exact .inr ⟨h.trans h', hid.trans hid'⟩

theorem Event.before_createdAt (e f : Event) (h : e.before f) : e.createdAt ≤ f.createdAt := by
  rcases h with h | ⟨h, -⟩
  · exact h.le
  · exact h.le

/-! ## The rows of the rebuilt store -/

/-- Of the backfilled events those about a claim are its one created event, if it needs one. -/
theorem filter_claimBackfill {c : Claim} (hids : (db.claims.map (·.claimId)).Nodup)
    (hc : c ∈ db.claims) (hmissing : db.hasEvent "claim.created" "claim" c.claimId = false) :
    ∃ u, (db.claimBackfill ulid).filter (·.aboutClaim c.claimId) = [backfillClaimEvent c u] := by
  have hmem : c ∈ db.claimsMissingCreated := List.mem_filter.2 ⟨hc, by simp [hmissing]⟩
  have hnodup : (db.claimsMissingCreated.map (·.claimId)).Nodup :=
    hids.sublist (List.filter_sublist.map _)
  refine filter_mapIdx_singleton hnodup hmem (fun d u => ?_) _
  simp only [Event.aboutClaim, Event.eff_eq (effect_backfillClaim d u), Effect.claimKey]
  rw [Bool.eq_iff_iff]
  simp [Claim.stored]

theorem filter_memoryBackfill (id : String) :
    (db.memoryBackfill ulid).filter (·.aboutClaim id) = [] := by
  rw [List.filter_eq_nil_iff]
  intro e he
  obtain ⟨m, -, u, rfl⟩ := mem_memoryBackfill he
  simp [Event.aboutClaim, Event.eff_eq (effect_backfillMemory m u), Effect.claimKey]

/-- What must hold of the clock: events in the order of their timestamps, and each row without a
created event older than its state changes. -/
structure Clocked (db : Db) : Prop where
  increasing : db.events.Pairwise fun e f => e.createdAt < f.createdAt
  legacy : ∀ c ∈ db.claims, db.hasEvent "claim.created" "claim" c.claimId = false →
    ∀ e ∈ db.events, e.eventType = "claim.state_changed" → e.targetId = some c.claimId →
      c.createdAt < e.createdAt

/-- The backfilled log gives each claim back. -/
theorem claimAfter_backfilled (h : Rebuildable db) (hclock : Clocked db) (id : String) :
    claimAfter id (db.backfilled ulid).eventsInOrder none =
      lookupKey Claim.claimId id db.claims := by
  have hlog : (db.events.filter (·.aboutClaim id)).Pairwise fun e f => e.createdAt < f.createdAt :=
    hclock.increasing.filter _
  have hfilter : (db.backfilled ulid).events.filter (·.aboutClaim id) =
      db.events.filter (·.aboutClaim id) ++ (db.claimBackfill ulid).filter (·.aboutClaim id) := by
    simp [Db.backfilled, List.filter_append, filter_memoryBackfill]
  rw [← claimAfter_filter]
  unfold Db.eventsInOrder
  cases hrow : lookupKey Claim.claimId id db.claims with
  | none =>
    have hid := lookupKey_eq_none.1 hrow
    have hnil : ((db.backfilled ulid).events.filter (·.aboutClaim id)) = [] := by
      rw [hfilter, List.append_eq_nil_iff, List.filter_eq_nil_iff, List.filter_eq_nil_iff]
      refine ⟨fun e he => by simp [h.no_event_about hid e he], fun e he => ?_⟩
      obtain ⟨c, hc, -, u, rfl⟩ := mem_claimBackfill he
      simpa [Event.aboutClaim, Event.eff_eq (effect_backfillClaim c u), Effect.claimKey,
        Claim.stored] using hid c hc
    rw [filter_insertionSort Event.before_createdAt (hnil ▸ .refl []) .nil]
    rfl
  | some c =>
    obtain ⟨hc, rfl⟩ := lookupKey_mem hrow
    have hrebuilt := h.claims c hc
    cases hcreated : db.hasEvent "claim.created" "claim" c.claimId with
    | true =>
      -- nothing is backfilled for the claim, and sorting leaves its events in their order
      have hnil : (db.claimBackfill ulid).filter (·.aboutClaim c.claimId) = [] := by
        rw [List.filter_eq_nil_iff]
        intro e he
        obtain ⟨d, hd, hmissing, u, rfl⟩ := mem_claimBackfill he
        simp only [Event.aboutClaim, Event.eff_eq (effect_backfillClaim d u), Effect.claimKey,
          Claim.stored, beq_iff_eq, Option.some.injEq]
        intro hid
        rw [hid, hcreated] at hmissing
        simp at hmissing
      rw [hnil, List.append_nil] at hfilter
      rw [filter_insertionSort Event.before_createdAt (hfilter ▸ .refl _) hlog,
        claimAfter_filter]
      simpa [hcreated] using hrebuilt
    | false =>
      -- the backfilled event comes before the state changes, and these do not change its row
      obtain ⟨u, hu⟩ : ∃ u, (db.claimBackfill ulid).filter (·.aboutClaim c.claimId) =
          [backfillClaimEvent c u] := filter_claimBackfill h.claimIds hc hcreated
      have hsorted : (backfillClaimEvent c u :: db.events.filter (·.aboutClaim c.claimId)).Pairwise
          fun e f => e.createdAt < f.createdAt := by
        refine List.pairwise_cons.2 ⟨fun e he => ?_, hlog⟩
        obtain ⟨he, habout⟩ := List.mem_filter.1 he
        obtain ⟨hkind, htarget, htype⟩ := (h.recorded e he).type_of_about habout
        rcases htype with htype | htype
        · have := Db.hasEvent_iff.2 ⟨e, he, htype, hkind, htarget⟩
          simp [hcreated] at this
        · exact hclock.legacy c hc hcreated e he htype htarget
      rw [hu] at hfilter
      rw [filter_insertionSort Event.before_createdAt
        (hfilter ▸ List.perm_append_comm) hsorted]
      simp only [hcreated, Bool.false_eq_true, if_false] at hrebuilt
      rw [claimAfter_cons, Event.eff_eq (effect_backfillClaim c u), claimAfter_filter,
        h.stored c hc]
      simpa [Effect.onClaim] using hrebuilt

theorem memoryAfter_some (id : String) (log : List Event) (m : Memory) :
    memoryAfter id log (some m) = some m := by
  induction log with
  | nil => rfl
  | cons e log ih =>
    have hstep : e.eff.onMemory id (some m) = some m := by cases e.eff <;> rfl
    simpa [memoryAfter, hstep] using ih

theorem memoryAfter_none {id : String} {log : List Event}
    (h : ∀ e ∈ log, e.eff.onMemory id none = none) : memoryAfter id log none = none := by
  induction log with
  | nil => rfl
  | cons e log ih =>
    simpa [memoryAfter, h e (by simp)] using ih fun e he => h e (by simp [he])

theorem memoryAfter_found {id : String} {log : List Event} {m : Memory}
    (h : ∀ e ∈ log, e.eff.onMemory id none = none ∨ e.eff.onMemory id none = some m)
    (hfound : ∃ e ∈ log, e.eff.onMemory id none = some m) :
    memoryAfter id log none = some m := by
  induction log with
  | nil => simp at hfound
  | cons e log ih =>
    rcases h e (by simp) with he | he
    · have hrest : ∃ e ∈ log, e.eff.onMemory id none = some m := by
        obtain ⟨f, hf, hfm⟩ := hfound
        rcases List.mem_cons.1 hf with rfl | hf
        · simp [he] at hfm
        · exact ⟨f, hf, hfm⟩
      simpa [memoryAfter, he] using ih (fun e he => h e (by simp [he])) hrest
    · simpa [memoryAfter, he] using memoryAfter_some id log m

/-- Every memory has its created event after a backfill. -/
theorem created_of_memory (ulid : Nat → String) (h : Rebuildable db) {m : Memory}
    (hm : m ∈ db.memories) :
    ∃ e ∈ (db.backfilled ulid).events, e.eff = .memory m ∧ e.eventType = "memory.created" ∧
      e.targetKind = some "memory" ∧ e.targetId = some m.memoryId := by
  cases hcreated : db.hasEvent "memory.created" "memory" m.memoryId with
  | true =>
    obtain ⟨e, he, htype, hkind, htarget⟩ := Db.hasEvent_iff.1 hcreated
    refine ⟨e, by simp [Db.backfilled, he], ?_, htype, hkind, htarget⟩
    cases h.recorded e he with
    | @memoryCreated n actor stamp hn =>
      have hid : n.memoryId = m.memoryId := by simpa [EventArgs.event, memoryCreated] using htarget
      rw [Event.eff_eq (effect_memoryCreated _ _ _), h.memory_eq_of_id hn hm hid]
    | claimCreated => simp [EventArgs.event, claimCreated] at htype
    | stateChanged => simp [EventArgs.event, claimStateChanged] at htype
    | reaffirmed => simp [EventArgs.event, memoryReaffirmed] at htype
  | false =>
    have hmissing : m ∈ db.memoriesMissingCreated := List.mem_filter.2 ⟨hm, by simp [hcreated]⟩
    obtain ⟨n, hn, rfl⟩ := List.mem_iff_getElem.1 hmissing
    refine ⟨backfillMemoryEvent db.memoriesMissingCreated[n] (ulid n), ?_,
      Event.eff_eq (effect_backfillMemory _ _), rfl, rfl, rfl⟩
    simp only [Db.backfilled, List.mem_append]
    exact .inl (.inr (List.mem_mapIdx.2 ⟨n, hn, rfl⟩))

/-- Every claim has its created event after a backfill. -/
theorem created_of_claim (ulid : Nat → String) {c : Claim} (hc : c ∈ db.claims) :
    ∃ e ∈ (db.backfilled ulid).events, e.eventType = "claim.created" ∧
      e.targetKind = some "claim" ∧ e.targetId = some c.claimId := by
  cases hcreated : db.hasEvent "claim.created" "claim" c.claimId with
  | true =>
    obtain ⟨e, he, htype⟩ := Db.hasEvent_iff.1 hcreated
    exact ⟨e, by simp [Db.backfilled, he], htype⟩
  | false =>
    have hmissing : c ∈ db.claimsMissingCreated := List.mem_filter.2 ⟨hc, by simp [hcreated]⟩
    obtain ⟨n, hn, rfl⟩ := List.mem_iff_getElem.1 hmissing
    refine ⟨backfillClaimEvent db.claimsMissingCreated[n]
      (ulid (db.memoriesMissingCreated.length + n)), ?_, rfl, rfl, rfl⟩
    simp only [Db.backfilled, List.mem_append]
    exact .inr (List.mem_mapIdx.2 ⟨n, hn, rfl⟩)

/-- The backfilled log gives each memory back. -/
theorem memoryAfter_backfilled (h : Rebuildable db) (id : String) :
    memoryAfter id (db.backfilled ulid).eventsInOrder none =
      lookupKey Memory.memoryId id db.memories := by
  have hmem : ∀ e, e ∈ (db.backfilled ulid).eventsInOrder ↔ e ∈ (db.backfilled ulid).events :=
    fun e => List.mem_insertionSort _
  have hfits : ∀ e ∈ (db.backfilled ulid).events, ∀ m, e.eff = .memory m → m ∈ db.memories := by
    intro e he m hm
    obtain ⟨eff, heff, hfit⟩ := backfilled_fits h he
    rw [Event.eff_eq heff] at hm
    subst hm
    exact hfit
  have hnone : ∀ e : Event, (∀ m, e.eff = .memory m → m.memoryId ≠ id) →
      e.eff.onMemory id none = none := by
    intro e he
    cases heff : e.eff with
    | memory m => simp [Effect.onMemory, he m heff]
    | _ => rfl
  cases hrow : lookupKey Memory.memoryId id db.memories with
  | none =>
    refine memoryAfter_none fun e he => hnone e fun m hm => ?_
    exact lookupKey_eq_none.1 hrow m (hfits e ((hmem e).1 he) m hm)
  | some m =>
    obtain ⟨hm, rfl⟩ := lookupKey_mem hrow
    refine memoryAfter_found (fun e he => ?_) ?_
    · by_cases hother : ∀ n, e.eff = .memory n → n.memoryId ≠ m.memoryId
      · exact .inl (hnone e hother)
      · push Not at hother
        obtain ⟨n, hn, hid⟩ := hother
        obtain rfl := h.memory_eq_of_id (hfits e ((hmem e).1 he) n hn) hm hid
        exact .inr (by simp [hn, Effect.onMemory])
    · obtain ⟨e, he, heff, -⟩ := created_of_memory ulid h hm
      exact ⟨e, (hmem e).2 he, by simp [heff, Effect.onMemory]⟩

/-- A backfill after a backfill finds nothing to add. -/
theorem backfill_backfilled (h : Rebuildable db) (draw : Nat → String) :
    backfillCreationEvents draw (db.backfilled ulid) = .ok (⟨0, 0⟩, db.backfilled ulid) := by
  have hmemories : (db.backfilled ulid).memoriesMissingCreated = [] := by
    refine List.filter_eq_nil_iff.2 fun m hm => ?_
    obtain ⟨e, he, -, htype⟩ := created_of_memory ulid h hm
    simpa using Db.hasEvent_iff.2 ⟨e, he, htype⟩
  have hclaims : (db.backfilled ulid).claimsMissingCreated = [] := by
    refine List.filter_eq_nil_iff.2 fun c hc => ?_
    obtain ⟨e, he, htype⟩ := created_of_claim ulid (show c ∈ db.claims from hc)
    simpa using Db.hasEvent_iff.2 ⟨e, he, htype⟩
  simp [backfillCreationEvents, hmemories, hclaims, insertEvents, bind, Except.bind, pure,
    Except.pure]

end

/-- A log in which the events about each claim are `Rebuildable` and the clock runs forward gives
the tables back once it is backfilled. -/
theorem Rebuildable.backfill_replay {db : Db} (h : Rebuildable db) (hclock : Clocked db)
    {ulid : Nat → String} (hulid : FreshUlids db ulid) : ∃ added db' summary target,
      backfillCreationEvents ulid db = .ok (added, db') ∧
      replayEvents db' db.sourcesOnly = .ok (summary, target) ∧
      target.memories.Perm db.memories ∧ target.claims.Perm db.claims ∧
      ∀ draw, backfillCreationEvents draw db' = .ok (⟨0, 0⟩, db') := by
  have hfits : ∀ e ∈ (db.backfilled ulid).eventsInOrder,
      ∃ eff, e.effect = .ok eff ∧ eff.Fits db :=
    fun e he => backfilled_fits h ((List.mem_insertionSort _).1 he)
  obtain ⟨target, hreplay, hpartial, hclaims, hmemories⟩ :=
    replayEffects_fits h.toValid hfits (Partial.start db)
  have hmap := replayLog_eq (db.backfilled ulid).eventsInOrder db.sourcesOnly
  rw [hreplay] at hmap
  cases hlog : replayLog (db.backfilled ulid).eventsInOrder db.sourcesOnly with
  | error e => simp [hlog, Except.map] at hmap
  | ok r =>
    obtain rfl : r.2 = target := by simpa [hlog, Except.map] using hmap
    refine ⟨_, _, r.1, r.2, backfill_eq hulid, hlog, ?_, ?_, backfill_backfilled h⟩
    · refine perm_of_lookupKey hpartial.memoryIds h.memoryIds fun id => ?_
      exact (hmemories id).trans (memoryAfter_backfilled h id)
    · refine perm_of_lookupKey hpartial.claimIds h.claimIds fun id => ?_
      exact (hclaims id).trans (claimAfter_backfilled h hclock id)

variable (D : Digest)

/-- Backfill, then replay, rebuilds the tables that any run of the writers has left, and a second
backfill adds nothing. -/
theorem backfill_then_replay (ops : List Op) (hfresh : FreshOps D ops .empty)
    (hclock : Clocked (applyOps D ops .empty)) (ulid : Nat → String)
    (hulid : FreshUlids (applyOps D ops .empty) ulid) : ∃ added db' summary target,
      backfillCreationEvents ulid (applyOps D ops .empty) = .ok (added, db') ∧
      replayEvents db' (applyOps D ops .empty).sourcesOnly = .ok (summary, target) ∧
      target.memories.Perm (applyOps D ops .empty).memories ∧
      target.claims.Perm (applyOps D ops .empty).claims ∧
      ∀ draw, backfillCreationEvents draw db' = .ok (⟨0, 0⟩, db') :=
  (Rebuildable.empty.applyOps ops hfresh).backfill_replay hclock hulid

/-- An ingest, a legacy claim and its approval, and a claim that is ingested and moved. -/
def sampleOps : List Op :=
  [.ingestMemory ⟨"ann", some "T", none, "p.md", none⟩ ⟨"t01", ⟨"M1", "t02"⟩, ⟨"E1", "t03"⟩⟩,
    .insertClaim ⟨"C0", "ann", "s", "p", "old", "direct:ann", "h0", none, "pending", "t00", "t00"⟩,
    .approve "C0" "t04" ⟨"E2", "t05"⟩,
    .ingestClaim ⟨"ann", "s", "p", "o", none, none, "auto"⟩
      ⟨"t06", ⟨"C1", "t07"⟩, ⟨"E3", "t08"⟩⟩,
    .transition ⟨"C1", "rejected", "system", none⟩ "t09" ⟨"E4", "t10"⟩,
    .reject "C1" "t11" ⟨"E5", "t12"⟩]

def sampleUlid (n : Nat) : String := "U" ++ n.repr

theorem sampleUlid_fresh : FreshUlids (applyOps .sample sampleOps .empty) sampleUlid where
  injective i j h := by
    have hlist := congrArg String.toList h
    simp only [sampleUlid, String.toList_append, Nat.toList_repr, List.append_cancel_left_eq]
      at hlist
    rw [← Nat.ofDigitChars_ten_toDigits (n := i), hlist, Nat.ofDigitChars_ten_toDigits]
  fresh e he n h := by
    have hhead : ∀ e ∈ (applyOps .sample sampleOps .empty).events,
        e.eventId.toList.head? = some 'E' := by decide +kernel
    have := hhead e he
    rw [h, sampleUlid, String.toList_append] at this
    simp at this

theorem backfill_then_replay_sample : ∃ added db' summary target,
    backfillCreationEvents sampleUlid (applyOps .sample sampleOps .empty) =
      .ok (added, db') ∧
    replayEvents db' (applyOps .sample sampleOps .empty).sourcesOnly =
      .ok (summary, target) ∧
    target.memories.Perm (applyOps .sample sampleOps .empty).memories ∧
    target.claims.Perm (applyOps .sample sampleOps .empty).claims ∧
    ∀ draw, backfillCreationEvents draw db' = .ok (⟨0, 0⟩, db') :=
  backfill_then_replay .sample sampleOps (by decide +kernel)
    ⟨by decide +kernel, by decide +kernel⟩ sampleUlid sampleUlid_fresh

end ParallaxKernel.Store
