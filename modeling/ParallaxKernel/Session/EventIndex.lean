import ParallaxKernel.Session.Retrieve

/-!
# The full-text index of events

`events_fts`: migration 14 fills it from the events that it finds, and a trigger adds a row for each
later one. Where the table is there, it has one row for each event.
-/

namespace ParallaxKernel.Session

open Lib Store

/-! ## The table and its trigger -/

/-- A row of `events_fts`. -/
structure FtsRow where
  eventId : String
  userTag : String
  payloadJson : String
  deriving DecidableEq

/-- The row that goes with an event, its tag `char(2) || user_id || char(2)`. -/
def indexRow (e : Event) : FtsRow where
  eventId := e.eventId
  userTag := ftsUserTag e.userId
  payloadJson := e.payloadJson

/-- The tables with the index, if there is one, and whether the trigger `events_ai_fts` exists. -/
structure IndexedDb where
  db : Db
  index : Option (List FtsRow)
  trigger : Bool

namespace IndexedDb

/-- `m0014_events_fts_trigram.up`. -/
def up (s : IndexedDb) : IndexedDb where
  db := s.db
  index :=
    let already := s.index.getD []
    some (if already = [] then s.db.events.map indexRow else already)
  trigger := true

/-- `m0014_events_fts_trigram.down`. -/
def down (s : IndexedDb) : IndexedDb where
  db := s.db
  index := none
  trigger := false

def insertEvent (e : Event) (s : IndexedDb) : Except Exc IndexedDb :=
  match Db.insertEvent e s.db, s.trigger, s.index with
  | .error exc, _, _ => .error exc
  | .ok (db, _), false, index => .ok ⟨db, index, false⟩
  | .ok (db, _), true, some rows => .ok ⟨db, some (rows ++ [indexRow e]), true⟩
  | .ok _, true, none => .error (.operationalError "no such table: main.events_fts")

end IndexedDb

/-! ## The index in step -/

/-- The primary keys of events and claims. -/
structure Keyed (db : Db) : Prop where
  events : (db.events.map (·.eventId)).Nodup
  claims : (db.claims.map (·.claimId)).Nodup

/-- The index and its trigger are both there, with one row for each event, or both missing. -/
def InStep (s : IndexedDb) : Prop :=
  (s.index = none ∧ s.trigger = false) ∨
    (s.index = some (s.db.events.map indexRow) ∧ s.trigger = true)

/-- The states of a store: it starts with any rows and without the index, the migration is run
forth and back, events are inserted, and other statements change rows of other tables. -/
inductive Reached : IndexedDb → Prop where
  | start {db : Db} (h : Keyed db) : Reached ⟨db, none, false⟩
  | up {s : IndexedDb} (h : Reached s) : Reached s.up
  | down {s : IndexedDb} (h : Reached s) : Reached s.down
  | insert {s t : IndexedDb} {e : Event} (h : Reached s) (hinsert : s.insertEvent e = .ok t) :
    Reached t
  | write {s : IndexedDb} {db : Db} (h : Reached s) (hevents : db.events = s.db.events)
    (hkeyed : Keyed db) : Reached { s with db := db }

theorem insertEvent_ok {e : Event} {db db' : Db} {n : Nat} (h : Db.insertEvent e db = .ok (db', n)) :
    db' = { db with events := db.events ++ [e] } ∧ ∀ f ∈ db.events, f.eventId ≠ e.eventId := by
  unfold Db.insertEvent at h
  split_ifs at h with hclash
  cases h
  exact ⟨rfl, by simpa using hclash⟩

/-- What an insertion does: one event more, and one row more if there is a trigger. -/
theorem IndexedDb.insertEvent_cases {e : Event} {s t : IndexedDb} (h : s.insertEvent e = .ok t) :
    t.db = { s.db with events := s.db.events ++ [e] } ∧ t.trigger = s.trigger ∧
      (∀ f ∈ s.db.events, f.eventId ≠ e.eventId) ∧
      (s.trigger = false ∧ t.index = s.index ∨
        ∃ rows, s.index = some rows ∧ t.index = some (rows ++ [indexRow e])) := by
  unfold insertEvent at h
  cases hdb : Db.insertEvent e s.db with
  | error exc =>
    rw [hdb] at h
    cases h
  | ok r =>
    obtain ⟨db, n⟩ := r
    obtain ⟨rfl, hfresh⟩ := insertEvent_ok hdb
    rw [hdb] at h
    cases htrigger : s.trigger with
    | false =>
      rw [htrigger] at h
      cases h
      exact ⟨rfl, rfl, hfresh, .inl ⟨rfl, rfl⟩⟩
    | true =>
      cases hindex : s.index with
      | none =>
        rw [htrigger, hindex] at h
        cases h
      | some rows =>
        rw [htrigger, hindex] at h
        cases h
        exact ⟨rfl, rfl, hfresh, .inr ⟨rows, rfl, rfl⟩⟩

theorem Keyed.insert {db : Db} {e : Event} (h : Keyed db)
    (hfresh : ∀ f ∈ db.events, f.eventId ≠ e.eventId) :
    Keyed { db with events := db.events ++ [e] } where
  events := by
    rw [List.map_append, List.nodup_append]
    refine ⟨h.events, by simp, ?_⟩
    intro id hid id' hid'
    obtain ⟨f, hf, rfl⟩ := List.mem_map.1 hid
    obtain rfl := List.mem_singleton.1 hid'
    exact hfresh f hf
  claims := h.claims

theorem Reached.keyed {s : IndexedDb} (h : Reached s) : Keyed s.db := by
  induction h with
  | start h => exact h
  | up h ih => exact ih
  | down h ih => exact ih
  | insert h hinsert ih =>
    obtain ⟨hdb, -, hfresh, -⟩ := IndexedDb.insertEvent_cases hinsert
    rw [hdb]
    exact ih.insert hfresh
  | write h hevents hkeyed ih => exact hkeyed

/-- The index is in step with the events in every state. -/
theorem Reached.inStep {s : IndexedDb} (h : Reached s) : InStep s := by
  induction h with
  | start h => exact .inl ⟨rfl, rfl⟩
  | @up s h ih =>
    refine .inr ⟨?_, rfl⟩
    obtain ⟨hindex, -⟩ | ⟨hindex, -⟩ := ih
    · simp [IndexedDb.up, hindex]
    · simp [IndexedDb.up, hindex]
  | down h ih => exact .inl ⟨rfl, rfl⟩
  | @insert s t e h hinsert ih =>
    obtain ⟨hdb, htrigger, -, hrow⟩ := IndexedDb.insertEvent_cases hinsert
    obtain ⟨hindex, hoff⟩ | ⟨hindex, hon⟩ := ih
    · obtain ⟨-, hsame⟩ | ⟨rows, hrows, -⟩ := hrow
      · exact .inl ⟨hsame.trans hindex, htrigger.trans hoff⟩
      · rw [hindex] at hrows
        cases hrows
    · obtain ⟨hoff, -⟩ | ⟨rows, hrows, hadded⟩ := hrow
      · rw [hon] at hoff
        cases hoff
      · rw [hindex] at hrows
        cases hrows
        exact .inr ⟨by rw [hadded, hdb, List.map_append]; rfl, htrigger.trans hon⟩
  | @write s db h hevents hkeyed ih =>
    unfold InStep
    rw [hevents]
    exact ih

/-! ## Searching the index -/

/-- The column of a name, of those that are indexed. -/
def FtsRow.column? (row : FtsRow) (name : List Char) : Option String :=
  if name = "user_tag".toList then some row.userTag
  else if name = "payload_json".toList then some row.payloadJson
  else none

variable (E : Engine)

/-- One of the strings stands in the column of the clause. -/
def FtsRow.holds (row : FtsRow) (clause : Fts.Clause) : Bool :=
  (row.column? clause.column).any fun text =>
    clause.texts.any fun t => E.phrase (String.ofList t) text

/-- `events_fts MATCH pattern`. -/
def searchIndex (pattern : String) (index : List FtsRow) : Except Exc (List FtsRow) :=
  match Fts.parseQuery pattern.toList with
  | .error e => .error (syntaxError e)
  | .ok clauses =>
    let columns := ["event_id".toList, "user_tag".toList, "payload_json".toList]
    match clauses.find? fun c => !columns.contains c.column with
    | some c => .error (.operationalError ("no such column: " ++ String.ofList c.column))
    | none => .ok (index.filter fun row => clauses.all (row.holds E))

/-- `JOIN events_fts f ON f.event_id = e.event_id`. -/
def joinIndex (rows : List Event) (found : List FtsRow) : List Event :=
  rows.flatMap fun e => (found.filter fun row => row.eventId == e.eventId).map fun _ => e

variable {E}

/-- The clauses of a search among the events of a user. -/
def scopedClauses (userId : String) (texts : List (List Char)) : List Fts.Clause :=
  [⟨"user_tag".toList, [(ftsUserTag userId).toList]⟩, ⟨"payload_json".toList, texts⟩]

theorem userTag_word :
    "user_tag".toList ≠ [] ∧ ∀ d ∈ "user_tag".toList, Fts.isBareword d = true :=
  ⟨by decide, List.all_eq_true.1 (by decide)⟩

theorem scopedClauses_plain {userId : String} {texts : List (List Char)} (htexts : texts ≠ [])
    (huser : '\x00' ∉ userId.toList) (hnul : ∀ t ∈ texts, '\x00' ∉ t) :
    ∀ c ∈ scopedClauses userId texts, c.Plain := by
  have hpayload : "payload_json".toList ≠ [] ∧
      ∀ d ∈ "payload_json".toList, Fts.isBareword d = true :=
    ⟨by decide, List.all_eq_true.1 (by decide)⟩
  simp only [scopedClauses, List.mem_cons, List.not_mem_nil, or_false, forall_eq_or_imp, forall_eq]
  exact ⟨⟨userTag_word, by simp, by simp [ftsUserTag, huser]⟩, hpayload, htexts, hnul⟩

/-- An expression with the clauses for the payload as its second half. -/
theorem encode?_scopedMatch {userId : String} {texts : List (List Char)} {expr : PyStr}
    (hexpr : expr = .ofChars (Fts.group texts)) : (ftsScopedMatch userId expr).encode? =
      some (String.ofList (Fts.renderQuery (scopedClauses userId texts))) := by
  subst hexpr
  rw [ftsScopedMatch, PyStr.encode?, PyStr.mapM_scalar?_append, PyStr.mapM_scalar?_append,
    PyStr.mapM_scalar?_append, mapM_scalar?_ftsPhrase]
  simp only [PyStr.ofString, PyStr.mapM_scalar?_ofChars, Option.map_some, Option.bind_some,
    Option.some.injEq, String.ofList_inj]
  simp [scopedClauses, Fts.renderQuery, Fts.Clause.render, Fts.group, Fts.conjunction]

theorem bindText_scopedMatch {texts : List (List Char)} {expr : PyStr}
    (hexpr : expr = .ofChars (Fts.group texts)) (userId : String) :
    bindText (ftsScopedMatch userId expr) =
      .ok (String.ofList (Fts.renderQuery (scopedClauses userId texts))) := by
  rw [bindText, encode?_scopedMatch hexpr]

theorem searchIndex_scoped {userId : String} {texts : List (List Char)} (htexts : texts ≠ [])
    (huser : '\x00' ∉ userId.toList) (hnul : ∀ t ∈ texts, '\x00' ∉ t) (index : List FtsRow) :
    searchIndex E (String.ofList (Fts.renderQuery (scopedClauses userId texts))) index =
      .ok (index.filter fun row => E.phrase (ftsUserTag userId) row.userTag &&
        texts.any fun t => E.phrase (String.ofList t) row.payloadJson) := by
  unfold searchIndex
  rw [String.toList_ofList,
    Fts.parseQuery_render (by simp [scopedClauses]) (scopedClauses_plain htexts huser hnul)]
  simp [scopedClauses, FtsRow.holds, FtsRow.column?]

/-- A user id with a `NUL` ends the expression inside the tag. -/
theorem searchIndex_of_nul {userId : String} (huser : '\x00' ∈ userId.toList)
    (texts : List (List Char)) (index : List FtsRow) :
    searchIndex E (String.ofList (Fts.renderQuery (scopedClauses userId texts))) index =
      .error (syntaxError .unterminated) := by
  have hrender : Fts.renderQuery (scopedClauses userId texts) =
      (⟨"user_tag".toList, (ftsUserTag userId).toList⟩ : Fts.Term).render ++
        (Fts.conjunction ++ (⟨"payload_json".toList, texts⟩ : Fts.Clause).render) := by
    simp [scopedClauses, Fts.renderQuery, Fts.Clause.render, Fts.group, Fts.Term.render]
  have hnamed : (⟨"user_tag".toList, (ftsUserTag userId).toList⟩ : Fts.Term).Named :=
    userTag_word
  unfold searchIndex
  rw [String.toList_ofList, hrender, Fts.parseQuery_of_nul hnamed (by simp [ftsUserTag, huser])]

/-! ## The join -/

theorem filter_eventId {events : List Event} (h : (events.map (·.eventId)).Nodup) {e : Event}
    (he : e ∈ events) : events.filter (fun f => f.eventId == e.eventId) = [e] := by
  induction events with
  | nil => cases he
  | cons f events ih =>
    rw [List.map_cons, List.nodup_cons] at h
    obtain rfl | he := List.mem_cons.1 he
    · have hnone : events.filter (fun g => g.eventId == e.eventId) = [] := by
        refine List.filter_eq_nil_iff.2 fun g hg heq => h.1 ?_
        exact List.mem_map.2 ⟨g, hg, by simpa using heq⟩
      simp [hnone]
    · have hne : f.eventId ≠ e.eventId := fun heq => h.1 (List.mem_map.2 ⟨e, he, heq.symm⟩)
      simp [hne, ih h.2 he]

/-- An index in step finds the events whose rows it finds. -/
theorem joinIndex_eq {events rows : List Event} (h : (events.map (·.eventId)).Nodup)
    (hrows : ∀ e ∈ rows, e ∈ events) (p : FtsRow → Bool) :
    joinIndex rows ((events.map indexRow).filter p) = rows.filter fun e => p (indexRow e) := by
  have hone (e : Event) (he : e ∈ rows) :
      ((((events.map indexRow).filter p).filter fun row => row.eventId == e.eventId).map
        fun _ => e) = if p (indexRow e) then [e] else [] := by
    have hcomm : ((events.map indexRow).filter p).filter (fun row => row.eventId == e.eventId) =
        ((events.filter fun f => f.eventId == e.eventId).map indexRow).filter p := by
      simp only [List.filter_filter, List.filter_map, Function.comp_def, indexRow, Bool.and_comm]
    rw [hcomm, filter_eventId h (hrows e he)]
    by_cases hp : p (indexRow e) = true <;> simp [hp]
  unfold joinIndex
  induction rows with
  | nil => rfl
  | cons e rows ih =>
    rw [List.flatMap_cons, List.filter_cons, hone e List.mem_cons_self,
      ih (fun f hf => hrows f (List.mem_cons_of_mem e hf))
        fun f hf => hone f (List.mem_cons_of_mem e hf)]
    split_ifs <;> rfl

end ParallaxKernel.Session
