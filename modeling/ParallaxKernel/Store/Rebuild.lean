import Mathlib.Data.List.Pairwise
import ParallaxKernel.Lib.KeyedList
import ParallaxKernel.Store.Effect
import ParallaxKernel.Store.Review

/-!
# The log rebuilds the store

A row is rebuilt by the effects about its id alone, in their order in the log. `Rebuildable` says
that these effects give the row, from nothing where the row has a created event and from the row
itself where it has none. Every writer keeps it, and a backfilled created event, sorted before the
older state changes, turns the second case into the first.
-/

namespace ParallaxKernel.Store

open Lib

/-! ## One row -/

/-- The decoded effect of an event that decodes. -/
def Event.eff (e : Event) : Effect := e.effect.toOption.getD .nothing

theorem Event.eff_eq {e : Event} {eff : Effect} (h : e.effect = .ok eff) : e.eff = eff := by
  simp [Event.eff, h, Except.toOption]

/-- The claim that an effect is about. -/
def Effect.claimKey : Effect → Option String
  | .claim c => some c.claimId
  | .claimState id _ _ => some id
  | _ => none

/-- What an effect makes of the claim with an id. -/
def Effect.onClaim (id : String) : Effect → Option Claim → Option Claim
  | .claim c, row => row.or (if c.claimId = id then some c else none)
  | .claimState i state updatedAt, row =>
    if i = id then
      row.map fun c => { c with state := state, updatedAt := updatedAt.getD c.updatedAt }
    else row
  | _, row => row

/-- What an effect makes of the memory with an id. -/
def Effect.onMemory (id : String) : Effect → Option Memory → Option Memory
  | .memory m, row => row.or (if m.memoryId = id then some m else none)
  | _, row => row

def Event.aboutClaim (id : String) (e : Event) : Bool := e.eff.claimKey == some id

/-- The claim with an id after the log. -/
def claimAfter (id : String) (log : List Event) (row : Option Claim) : Option Claim :=
  log.foldl (fun row e => e.eff.onClaim id row) row

def memoryAfter (id : String) (log : List Event) (row : Option Memory) : Option Memory :=
  log.foldl (fun row e => e.eff.onMemory id row) row

theorem Effect.onClaim_of_ne {id : String} {eff : Effect} (h : eff.claimKey ≠ some id)
    (row : Option Claim) : eff.onClaim id row = row := by
  cases eff with
  | claim c =>
    have hne : c.claimId ≠ id := by simpa [claimKey] using h
    simp [onClaim, hne]
  | claimState i state updatedAt =>
    have hne : i ≠ id := by simpa [claimKey] using h
    simp [onClaim, hne]
  | _ => rfl

theorem claimAfter_filter (id : String) (log : List Event) (row : Option Claim) :
    claimAfter id (log.filter (·.aboutClaim id)) row = claimAfter id log row := by
  refine foldl_filter_of_fixed (fun e he row => ?_) log row
  exact Effect.onClaim_of_ne (by simpa [Event.aboutClaim] using he) row

theorem claimAfter_of_no_event {id : String} {log : List Event}
    (h : ∀ e ∈ log, e.aboutClaim id = false) (row : Option Claim) :
    claimAfter id log row = row := by
  have hnil : log.filter (·.aboutClaim id) = [] :=
    List.filter_eq_nil_iff.2 fun e he => by simp [h e he]
  rw [← claimAfter_filter, hnil]
  rfl

theorem claimAfter_cons (id : String) (e : Event) (log : List Event) (row : Option Claim) :
    claimAfter id (e :: log) row = claimAfter id log (e.eff.onClaim id row) := rfl

theorem claimAfter_append (id : String) (log : List Event) (e : Event) (row : Option Claim) :
    claimAfter id (log ++ [e]) row = e.eff.onClaim id (claimAfter id log row) := by
  simp [claimAfter]

/-! ## The rows of a store -/

/-- Two claims agree on what no transition changes and no index ignores. -/
structure Claim.SameRow (c d : Claim) : Prop where
  claimId : c.claimId = d.claimId
  contentHash : c.contentHash = d.contentHash
  sourceId : c.sourceId = d.sourceId
  userId : c.userId = d.userId

theorem Claim.SameRow.refl (c : Claim) : c.SameRow c := ⟨rfl, rfl, rfl, rfl⟩

theorem Claim.SameRow.trans {c d x : Claim} (hcd : c.SameRow d) (hdx : d.SameRow x) :
    c.SameRow x :=
  ⟨hcd.claimId.trans hdx.claimId, hcd.contentHash.trans hdx.contentHash,
    hcd.sourceId.trans hdx.sourceId, hcd.userId.trans hdx.userId⟩

theorem Claim.SameRow.symm {c d : Claim} (h : c.SameRow d) : d.SameRow c :=
  ⟨h.claimId.symm, h.contentHash.symm, h.sourceId.symm, h.userId.symm⟩

theorem Claim.sameRow_stored (c : Claim) : c.stored.SameRow c := ⟨rfl, rfl, rfl, rfl⟩

theorem Claim.SameRow.clashes {c c' d d' : Claim} (hc : c.SameRow c') (hd : d.SameRow d') :
    c.clashes d = c'.clashes d' := by
  simp [Claim.clashes, hc.claimId, hc.contentHash, hc.sourceId, hc.userId, hd.claimId,
    hd.contentHash, hd.sourceId, hd.userId]

theorem Claim.clashes_comm (c d : Claim) : c.clashes d = d.clashes c := by
  simp only [Claim.clashes, Bool.beq_comm]

/-- A guarded update keeps what `SameRow` compares. -/
theorem sameRow_moved (c d : Claim) (toState updatedAt : String) :
    d.SameRow (if d.claimId == c.claimId && d.state == c.state then
      { d with state := toState, updatedAt := updatedAt } else d) := by
  split_ifs <;> exact ⟨rfl, rfl, rfl, rfl⟩

/-- What the schema enforces: keys and unique indexes, foreign keys, and the stored form. -/
structure Db.Valid (db : Db) : Prop where
  memoryKeys : db.memories.Pairwise fun m n => m.clashes n = false
  claimKeys : db.claims.Pairwise fun c d => c.clashes d = false
  memorySources : ∀ m ∈ db.memories, m.sourceId.all db.hasSource = true
  claimSources : ∀ c ∈ db.claims, db.hasSource c.sourceId = true
  stored : ∀ c ∈ db.claims, c.stored = c

theorem Memory.clashes_comm (m n : Memory) : m.clashes n = n.clashes m := by
  simp only [Memory.clashes, Bool.beq_comm]

namespace Db.Valid

variable {db : Db}

theorem memory_eq (h : db.Valid) {m n : Memory} (hm : m ∈ db.memories) (hn : n ∈ db.memories)
    (hclash : m.clashes n = true) : m = n := by
  by_contra hne
  have : Std.Symm fun m n : Memory => m.clashes n = false :=
    ⟨fun m n h => by rw [Memory.clashes_comm, h]⟩
  simp [h.memoryKeys.forall hm hn hne] at hclash

theorem claim_eq (h : db.Valid) {c d : Claim} (hc : c ∈ db.claims) (hd : d ∈ db.claims)
    (hclash : c.clashes d = true) : c = d := by
  by_contra hne
  have : Std.Symm fun c d : Claim => c.clashes d = false :=
    ⟨fun c d h => by rw [Claim.clashes_comm, h]⟩
  simp [h.claimKeys.forall hc hd hne] at hclash

theorem memory_eq_of_id (h : db.Valid) {m n : Memory} (hm : m ∈ db.memories)
    (hn : n ∈ db.memories) (hid : m.memoryId = n.memoryId) : m = n :=
  h.memory_eq hm hn (by simp [Memory.clashes, hid])

theorem claim_eq_of_id (h : db.Valid) {c d : Claim} (hc : c ∈ db.claims) (hd : d ∈ db.claims)
    (hid : c.claimId = d.claimId) : c = d :=
  h.claim_eq hc hd (by simp [Claim.clashes, hid])

theorem memoryIds (h : db.Valid) : (db.memories.map (·.memoryId)).Nodup := by
  rw [List.Nodup, List.pairwise_map]
  refine h.memoryKeys.imp fun {m n} hmn hid => ?_
  simp [Memory.clashes, hid] at hmn

theorem claimIds (h : db.Valid) : (db.claims.map (·.claimId)).Nodup := by
  rw [List.Nodup, List.pairwise_map]
  refine h.claimKeys.imp fun {c d} hcd hid => ?_
  simp [Claim.clashes, hid] at hcd

theorem withSource (h : db.Valid) (s : Source) : (db.withSource s).Valid := by
  unfold Db.withSource
  split_ifs
  · exact h
  · have hmono (id : String) (hid : db.hasSource id = true) :
        { db with sources := db.sources ++ [s] }.hasSource id = true := by
      simp only [Db.hasSource, List.any_append, Bool.or_eq_true] at hid ⊢
      exact .inl hid
    refine ⟨h.memoryKeys, h.claimKeys, fun m hm => ?_, fun c hc => hmono _ (h.claimSources c hc),
      h.stored⟩
    have hfk := h.memorySources m hm
    cases hs : m.sourceId with
    | none => rfl
    | some id => exact hmono id (by simpa [hs] using hfk)

theorem addMemory (h : db.Valid) {m : Memory} (hclash : db.memories.any m.clashes = false)
    (hfk : m.sourceId.all db.hasSource = true) :
    { db with memories := db.memories ++ [m] }.Valid := by
  refine ⟨?_, h.claimKeys, fun n hn => ?_, h.claimSources, h.stored⟩
  · refine List.pairwise_append.2 ⟨h.memoryKeys, List.pairwise_singleton _ _, fun n hn x hx => ?_⟩
    rw [List.mem_singleton.1 hx, Memory.clashes_comm]
    simpa using List.any_eq_false.1 hclash n hn
  · rcases List.mem_append.1 hn with hn | hn
    · exact h.memorySources n hn
    · exact List.mem_singleton.1 hn ▸ hfk

theorem addClaim (h : db.Valid) {c : Claim} (hclash : db.claims.any c.clashes = false)
    (hfk : db.hasSource c.sourceId = true) :
    { db with claims := db.claims ++ [c.stored] }.Valid := by
  refine ⟨h.memoryKeys, ?_, h.memorySources, fun d hd => ?_, fun d hd => ?_⟩
  · refine List.pairwise_append.2 ⟨h.claimKeys, List.pairwise_singleton _ _, fun d hd x hx => ?_⟩
    rw [List.mem_singleton.1 hx, (Claim.SameRow.refl d).clashes c.sameRow_stored,
      Claim.clashes_comm]
    simpa using List.any_eq_false.1 hclash d hd
  · rcases List.mem_append.1 hd with hd | hd
    · exact h.claimSources d hd
    · rw [List.mem_singleton.1 hd]
      exact hfk
  · rcases List.mem_append.1 hd with hd | hd
    · exact h.stored d hd
    · exact List.mem_singleton.1 hd ▸ c.stored_stored

theorem appendEvent (h : db.Valid) (e : Event) :
    { db with events := db.events ++ [e] }.Valid :=
  ⟨h.memoryKeys, h.claimKeys, h.memorySources, h.claimSources, h.stored⟩

theorem changeState (h : db.Valid) (c : Claim) (toState updatedAt : String) (e : Event) :
    (db.changeState c toState updatedAt e).Valid := by
  have hmoved (d : Claim) := (sameRow_moved c d toState updatedAt).symm
  refine ⟨h.memoryKeys, ?_, h.memorySources, fun d hd => ?_, fun d hd => ?_⟩
  · exact List.pairwise_map.2 (h.claimKeys.imp fun {x y} hxy => by
      rw [(hmoved x).clashes (hmoved y), hxy])
  · obtain ⟨x, hx, rfl⟩ := List.mem_map.1 hd
    rw [(hmoved x).sourceId]
    exact h.claimSources x hx
  · obtain ⟨x, hx, rfl⟩ := List.mem_map.1 hd
    have hstored := h.stored x hx
    split_ifs
    · simpa [Claim.stored] using congrArg Claim.confidence hstored
    · exact hstored

end Db.Valid

/-! ## Replaying effects that fit the store -/

/-- An effect that creates or changes rows as the store has them. -/
def Effect.Fits (db : Db) : Effect → Prop
  | .memory m => m ∈ db.memories
  | .claim c => c.stored = c ∧ ∃ d ∈ db.claims, c.SameRow d
  | .claimState _ _ _ => True
  | .memoryState _ _ _ => False
  | .nothing => True

/-- A store on the way to `db`. -/
structure Partial (db target : Db) : Prop where
  sources : target.sources = db.sources
  memories : ∀ m ∈ target.memories, m ∈ db.memories
  memoryIds : (target.memories.map (·.memoryId)).Nodup
  claims : ∀ c ∈ target.claims, ∃ d ∈ db.claims, c.SameRow d
  claimIds : (target.claims.map (·.claimId)).Nodup

theorem Partial.start (db : Db) : Partial db db.sourcesOnly := by
  constructor <;> simp [Db.sourcesOnly, Db.empty]

theorem Partial.hasSource {db target : Db} (h : Partial db target) (id : String) :
    target.hasSource id = db.hasSource id := by
  simp [Db.hasSource, h.sources]

section

variable {db target : Db}

theorem memory_clashes_iff (hdb : db.Valid) (ht : Partial db target) {m : Memory}
    (hm : m ∈ db.memories) : target.memories.any m.clashes = true ↔
      ∃ n ∈ target.memories, n.memoryId = m.memoryId := by
  simp only [List.any_eq_true]
  refine exists_congr fun n => and_congr_right fun hn => ⟨fun hc => ?_, fun hid => ?_⟩
  · rw [hdb.memory_eq hm (ht.memories n hn) hc]
  · simp [Memory.clashes, hid]

theorem claim_clashes_iff (hdb : db.Valid) (ht : Partial db target) {c d : Claim}
    (hd : d ∈ db.claims) (hcd : c.SameRow d) : target.claims.any c.clashes = true ↔
      ∃ x ∈ target.claims, x.claimId = c.claimId := by
  simp only [List.any_eq_true]
  refine exists_congr fun x => and_congr_right fun hx => ⟨fun hc => ?_, fun hid => ?_⟩
  · obtain ⟨y, hy, hxy⟩ := ht.claims x hx
    rw [hcd.clashes hxy] at hc
    rw [hxy.claimId, hcd.claimId, hdb.claim_eq hd hy hc]
  · simp [Claim.clashes, hid]

theorem apply_memory (hdb : db.Valid) (ht : Partial db target) {m : Memory}
    (hm : m ∈ db.memories) : ∃ target', (Effect.memory m).apply target = .ok target' ∧
      Partial db target' ∧ target'.claims = target.claims ∧
      ∀ id, lookupKey Memory.memoryId id target'.memories =
        (Effect.memory m).onMemory id (lookupKey Memory.memoryId id target.memories) := by
  by_cases hc : target.memories.any m.clashes = true
  · refine ⟨target, by simp [Effect.apply, Db.apply, Db.insertMemory, hc, Except.map], ht, rfl,
      fun id => ?_⟩
    obtain ⟨n, hn, hid⟩ := (memory_clashes_iff hdb ht hm).1 hc
    simp only [Effect.onMemory]
    split_ifs with h
    · rw [← h, ← hid, lookupKey_of_mem ht.memoryIds hn]
      rfl
    · simp
  · have hfk : m.sourceId.all target.hasSource = true := by
      rw [funext ht.hasSource]
      exact hdb.memorySources m hm
    refine ⟨{ target with memories := target.memories ++ [m] },
      by simp [Effect.apply, Db.apply, Db.insertMemory, hc, hfk, Except.map], ?_, rfl,
      fun id => lookupKey_append⟩
    have hnew : m.memoryId ∉ target.memories.map (·.memoryId) := by
      rw [memory_clashes_iff hdb ht hm] at hc
      simpa using hc
    refine ⟨ht.sources, fun n hn => ?_, ?_, ht.claims, ht.claimIds⟩
    · rcases List.mem_append.1 hn with hn | hn
      · exact ht.memories n hn
      · exact List.mem_singleton.1 hn ▸ hm
    · simpa using List.nodup_append.2 ⟨ht.memoryIds, List.nodup_singleton _,
        fun a ha b hb => by rintro rfl; exact hnew (List.mem_singleton.1 hb ▸ ha)⟩

theorem apply_claim (hdb : db.Valid) (ht : Partial db target) {c d : Claim} (hc : c.stored = c)
    (hd : d ∈ db.claims) (hcd : c.SameRow d) : ∃ target',
      (Effect.claim c).apply target = .ok target' ∧ Partial db target' ∧
      target'.memories = target.memories ∧
      ∀ id, lookupKey Claim.claimId id target'.claims =
        (Effect.claim c).onClaim id (lookupKey Claim.claimId id target.claims) := by
  by_cases hclash : target.claims.any c.clashes = true
  · refine ⟨target, by simp [Effect.apply, Db.apply, Db.insertClaim, hclash, Except.map], ht, rfl,
      fun id => ?_⟩
    obtain ⟨x, hx, hid⟩ := (claim_clashes_iff hdb ht hd hcd).1 hclash
    simp only [Effect.onClaim]
    split_ifs with h
    · rw [← h, ← hid, lookupKey_of_mem ht.claimIds hx]
      rfl
    · simp
  · have hfk : target.hasSource c.sourceId = true := by
      rw [ht.hasSource, hcd.sourceId]
      exact hdb.claimSources d hd
    refine ⟨{ target with claims := target.claims ++ [c] },
      by simp [Effect.apply, Db.apply, Db.insertClaim, hclash, hfk, hc, Except.map], ?_, rfl,
      fun id => lookupKey_append⟩
    have hnew : c.claimId ∉ target.claims.map (·.claimId) := by
      rw [claim_clashes_iff hdb ht hd hcd] at hclash
      simpa using hclash
    refine ⟨ht.sources, ht.memories, ht.memoryIds, fun x hx => ?_, ?_⟩
    · rcases List.mem_append.1 hx with hx | hx
      · exact ht.claims x hx
      · exact List.mem_singleton.1 hx ▸ ⟨d, hd, hcd⟩
    · simpa using List.nodup_append.2 ⟨ht.claimIds, List.nodup_singleton _,
        fun a ha b hb => by rintro rfl; exact hnew (List.mem_singleton.1 hb ▸ ha)⟩

theorem apply_claimState (ht : Partial db target) (i state : String)
    (updatedAt : Option String) : ∃ target',
      (Effect.claimState i state updatedAt).apply target = .ok target' ∧ Partial db target' ∧
      target'.memories = target.memories ∧
      ∀ id, lookupKey Claim.claimId id target'.claims =
        (Effect.claimState i state updatedAt).onClaim id
          (lookupKey Claim.claimId id target.claims) := by
  have hkey (c : Claim) : (if c.claimId == i then
      { c with state := state, updatedAt := updatedAt.getD c.updatedAt } else c).SameRow c := by
    split_ifs <;> exact ⟨rfl, rfl, rfl, rfl⟩
  refine ⟨_, rfl, ⟨ht.sources, ht.memories, ht.memoryIds, fun x hx => ?_, ?_⟩, rfl, fun id => ?_⟩
  · obtain ⟨y, hy, rfl⟩ := List.mem_map.1 hx
    obtain ⟨d, hd, hyd⟩ := ht.claims y hy
    have h := hkey y
    exact ⟨d, hd, h.claimId.trans hyd.claimId, h.contentHash.trans hyd.contentHash,
      h.sourceId.trans hyd.sourceId, h.userId.trans hyd.userId⟩
  · have hmap := List.map_congr_left fun c (_ : c ∈ target.claims) => (hkey c).claimId
    rw [List.map_map]
    exact hmap ▸ ht.claimIds
  · rw [lookupKey_map fun c => (hkey c).claimId]
    cases h : lookupKey Claim.claimId id target.claims with
    | none => simp [Effect.onClaim]
    | some c =>
      obtain rfl := (lookupKey_mem h).2
      by_cases hi : i = c.claimId
      · simp [Effect.onClaim, hi]
      · simp [Effect.onClaim, hi, Ne.symm hi]

/-- One effect acts on each row on its own. -/
theorem Effect.apply_fits (hdb : db.Valid) (ht : Partial db target) {eff : Effect}
    (heff : eff.Fits db) : ∃ target', eff.apply target = .ok target' ∧ Partial db target' ∧
      (∀ id, lookupKey Claim.claimId id target'.claims =
        eff.onClaim id (lookupKey Claim.claimId id target.claims)) ∧
      ∀ id, lookupKey Memory.memoryId id target'.memories =
        eff.onMemory id (lookupKey Memory.memoryId id target.memories) := by
  cases eff with
  | memory m =>
    obtain ⟨target', happ, ht', hclaims, hrow⟩ := apply_memory hdb ht heff
    exact ⟨target', happ, ht', fun id => by rw [hclaims]; rfl, hrow⟩
  | claim c =>
    obtain ⟨hstored, d, hd, hcd⟩ := heff
    obtain ⟨target', happ, ht', hmemories, hrow⟩ := apply_claim hdb ht hstored hd hcd
    exact ⟨target', happ, ht', hrow, fun id => by rw [hmemories]; rfl⟩
  | claimState i state updatedAt =>
    obtain ⟨target', happ, ht', hmemories, hrow⟩ := apply_claimState ht i state updatedAt
    exact ⟨target', happ, ht', hrow, fun id => by rw [hmemories]; rfl⟩
  | memoryState i state updatedAt => exact absurd heff (by simp [Effect.Fits])
  | nothing => exact ⟨target, rfl, ht, fun id => rfl, fun id => rfl⟩

/-- A log whose events fit the store rebuilds each row by the events about it. -/
theorem replayEffects_fits (hdb : db.Valid) {log : List Event}
    (hlog : ∀ e ∈ log, ∃ eff, e.effect = .ok eff ∧ eff.Fits db) (ht : Partial db target) :
    ∃ target', replayEffects log target = .ok target' ∧ Partial db target' ∧
      (∀ id, lookupKey Claim.claimId id target'.claims =
        claimAfter id log (lookupKey Claim.claimId id target.claims)) ∧
      ∀ id, lookupKey Memory.memoryId id target'.memories =
        memoryAfter id log (lookupKey Memory.memoryId id target.memories) := by
  induction log generalizing target with
  | nil => exact ⟨target, rfl, ht, fun id => rfl, fun id => rfl⟩
  | cons e log ih =>
    obtain ⟨eff, he, hfits⟩ := hlog e (by simp)
    obtain ⟨t₁, happ, ht₁, hclaims, hmemories⟩ := eff.apply_fits hdb ht hfits
    obtain ⟨t₂, hreplay, ht₂, hclaims₂, hmemories₂⟩ :=
      ih (fun e he => hlog e (by simp [he])) ht₁
    refine ⟨t₂, ?_, ht₂, fun id => ?_, fun id => ?_⟩
    · simp only [replayEffects, List.foldlM_cons, he] at hreplay ⊢
      exact (congrArg (· >>= _) happ).trans hreplay
    · rw [hclaims₂, hclaims, ← Event.eff_eq he]
      rfl
    · rw [hmemories₂, hmemories, ← Event.eff_eq he]
      rfl

end

end ParallaxKernel.Store
