import Mathlib.Algebra.Order.Ring.Int
import Mathlib.Data.List.Pairwise
import Mathlib.Logic.Function.Basic
import ParallaxKernel.Lib.Runs
import ParallaxKernel.Store.Schema

/-!
# Index builds

`rebuild_index` of `index.py`, by any number of callers on connections of their own and under one
index name. Each statement is a step, and each may fail; the insert takes the write lock, which the
commit gives back. Others may write to the rest of the store in between.
-/

namespace ParallaxKernel.Store
namespace Index

open Lib

structure IndexState where
  indexName : String
  version : Int
  lastBuiltAt : String
  sourceWatermark : Option String
  docCount : Nat
  state : String
  errorText : Option String
  deriving DecidableEq

/-! ## Statements -/

/-- `_max_version`. -/
def maxVersion (rows : List IndexState) (indexName : String) : Int :=
  ((rows.filter (·.indexName = indexName)).map (·.version)).max?.getD 0

def memoryCount (db : Db) : Nat := db.memories.countP (·.state = "active")

def claimCount (db : Db) : Nat :=
  db.claims.countP fun c => c.state = "auto" ∨ c.state = "pending" ∨ c.state = "confirmed"

/-- `_last_event_id`. -/
def lastEventId (db : Db) : Option String :=
  (db.events.foldl (fun last event =>
    match last with
    | none => some event
    | some e =>
      if e.createdAt < event.createdAt ∨ e.createdAt = event.createdAt ∧ e.eventId < event.eventId
      then some event else last) none).map (·.eventId)

/-- `INSERT OR REPLACE`. -/
def insertOrReplace (rows : List IndexState) (row : IndexState) : List IndexState :=
  rows.filter (fun r => ¬ (r.indexName = row.indexName ∧ r.version = row.version)) ++ [row]

/-! ## Calls -/

/-- Where a call stands. It remembers the number of rows committed before it read the version. -/
inductive Progress where
  | idle
  | versioned (seen : Nat) (version : Int)
  | watermarked (seen : Nat) (version : Int) (lastBuiltAt : String)
      (sourceWatermark : Option String)
  | counting (seen : Nat) (version : Int) (lastBuiltAt : String) (sourceWatermark : Option String)
      (mem : Nat)
  | built (seen : Nat) (row : IndexState)
  | inserted (seen : Nat) (row : IndexState)
  | returned (row : IndexState)
  | raised

/-- The version that a call has read, until it has committed. -/
def Progress.draft : Progress → Option (Nat × Int)
  | versioned seen version | watermarked seen version _ _ | counting seen version _ _ _ =>
    some (seen, version)
  | built seen row | inserted seen row => some (seen, row.version)
  | _ => none

variable {ι : Type} [DecidableEq ι]

/-- `commits` are the rows in the order in which they were committed, with the calls. -/
structure State (ι : Type) where
  db : Db
  rows : List IndexState
  writer : Option ι
  progress : ι → Progress
  commits : List (ι × IndexState)

def State.initial (db : Db) (rows : List IndexState) : State ι :=
  ⟨db, rows, none, fun _ => .idle, []⟩

/-- `now` is what `now_iso` answers. -/
inductive Action (ι : Type) where
  | other (db : Db)
  | advance (c : ι) (fails : Bool) (now : String)

def State.move (s : State ι) (c : ι) (p : Progress) : State ι :=
  { s with progress := Function.update s.progress c p }

variable (indexName : String)

/-- `rebuild_index`, statement by statement. -/
def advance (s : State ι) (c : ι) (fails : Bool) (now : String) : Progress → Option (State ι)
  | .idle =>
    if fails then some (s.move c .raised)
    else some (s.move c (.versioned s.commits.length (maxVersion s.rows indexName + 1)))
  | .versioned seen version =>
    if fails then some (s.move c .raised)
    else some (s.move c (.watermarked seen version now (lastEventId s.db)))
  | .watermarked seen version lastBuiltAt sourceWatermark =>
    if fails then some (s.move c .raised)
    else some (s.move c
      (.counting seen version lastBuiltAt sourceWatermark (memoryCount s.db)))
  | .counting seen version lastBuiltAt sourceWatermark mem =>
    if fails then some (s.move c .raised)
    else some (s.move c (.built seen {
      indexName, version, lastBuiltAt, sourceWatermark
      docCount := mem + claimCount s.db
      state := "ready"
      errorText := none }))
  | .built seen row =>
    if fails then some (s.move c .raised)
    else if s.writer = none then
      some (({ s with writer := some c } : State ι).move c (.inserted seen row))
    else none
  | .inserted _ row =>
    if fails then some (({ s with writer := none } : State ι).move c .raised)
    else some (({ s with
      rows := insertOrReplace s.rows row
      writer := none
      commits := s.commits ++ [(c, row)] } : State ι).move c (.returned row))
  | .returned _ | .raised => none

def step (s : State ι) : Action ι → Option (State ι)
  | .other db => some { s with db := db }
  | .advance c fails now => advance indexName s c fails now (s.progress c)

/-! ## What is claimed -/

/-- Every call that has returned has its own row, and versions increase with the commits. -/
structure Correct (s : State ι) : Prop where
  kept : ∀ c row, s.progress c = .returned row → row ∈ s.rows
  distinct : ∀ c d row row', c ≠ d → s.progress c = .returned row →
    s.progress d = .returned row' → row.version ≠ row'.version
  increasing : s.commits.Pairwise fun e f => e.2.version < f.2.version

/-- No call has committed since the call that commits has read its version. -/
def Alone (s : State ι) : Action ι → Prop
  | .other _ => True
  | .advance c fails _ => ∀ seen row, s.progress c = .inserted seen row → fails = false →
      seen = s.commits.length

/-! ## The invariant -/

theorem maxVersion_eq {rows : List IndexState} {v : Int}
    (hmem : ∃ row ∈ rows, row.indexName = indexName ∧ row.version = v)
    (hmax : ∀ row ∈ rows, row.indexName = indexName → row.version ≤ v) :
    maxVersion rows indexName = v := by
  have h : ((rows.filter (·.indexName = indexName)).map (·.version)).max? = some v := by
    refine List.max?_eq_some_iff.2 ⟨?_, fun w hw => ?_⟩
    · obtain ⟨row, hrow, hname, hv⟩ := hmem
      exact List.mem_map.2 ⟨row, List.mem_filter.2 ⟨hrow, decide_eq_true hname⟩, hv⟩
    · obtain ⟨row, hrow, rfl⟩ := List.mem_map.1 hw
      obtain ⟨hrow, hname⟩ := List.mem_filter.1 hrow
      exact hmax row hrow (of_decide_eq_true hname)
  rw [maxVersion, h, Option.getD_some]

theorem le_maxVersion {rows : List IndexState} {row : IndexState} (h : row ∈ rows)
    (hname : row.indexName = indexName) : row.version ≤ maxVersion rows indexName := by
  have hmem : row.version ∈ (rows.filter (·.indexName = indexName)).map (·.version) :=
    List.mem_map_of_mem (List.mem_filter.2 ⟨h, decide_eq_true hname⟩)
  cases hmax : ((rows.filter (·.indexName = indexName)).map (·.version)).max? with
  | none =>
    rw [List.max?_eq_none_iff.1 hmax] at hmem
    exact absurd hmem List.not_mem_nil
  | some v =>
    rw [maxVersion, hmax]
    exact (List.max?_eq_some_iff.1 hmax).2 _ hmem

/-- A row above all others replaces nothing and is the last. -/
theorem insertOrReplace_above {rows : List IndexState} {row : IndexState}
    (hname : row.indexName = indexName) (h : maxVersion rows indexName < row.version) :
    insertOrReplace rows row = rows ++ [row] ∧
      maxVersion (insertOrReplace rows row) indexName = row.version := by
  have heq : insertOrReplace rows row = rows ++ [row] := by
    rw [insertOrReplace, List.filter_eq_self.2]
    intro r hr
    refine decide_eq_true fun hkey => ?_
    have hle := le_maxVersion indexName hr (hkey.1.trans hname)
    omega
  refine ⟨heq, ?_⟩
  rw [heq]
  refine maxVersion_eq indexName ⟨row, List.mem_append_right _ List.mem_cons_self, hname, rfl⟩ ?_
  intro r hr hrname
  cases List.mem_append.1 hr with
  | inl hold =>
    have hle := le_maxVersion indexName hold hrname
    omega
  | inr hnew => exact le_of_eq (congrArg IndexState.version (List.mem_singleton.1 hnew))

/-- What holds as long as no commit has come between the reading of a version and its commit. -/
structure Inv (s : State ι) : Prop where
  drafts : ∀ c seen version, (s.progress c).draft = some (seen, version) →
    seen ≤ s.commits.length ∧ version ≤ maxVersion s.rows indexName + 1 ∧
      (seen = s.commits.length → version = maxVersion s.rows indexName + 1) ∧
        (seen < s.commits.length → ∃ e ∈ s.commits, version ≤ e.2.version)
  named : ∀ c seen row, s.progress c = .built seen row ∨ s.progress c = .inserted seen row →
    row.indexName = indexName
  returned : ∀ c row, s.progress c = .returned row → (c, row) ∈ s.commits
  commits : ∀ e ∈ s.commits, e.2 ∈ s.rows ∧ e.2.indexName = indexName
  increasing : s.commits.Pairwise fun e f => e.2.version < f.2.version

variable {indexName} {s t : State ι} {action : Action ι}

omit [DecidableEq ι] in
theorem Inv.initial (db : Db) (rows : List IndexState) :
    Inv indexName (State.initial db rows : State ι) :=
  ⟨(fun _ _ _ h => nomatch h), (fun _ _ _ h => h.elim (nomatch ·) (nomatch ·)),
    (fun _ _ h => nomatch h), fun _ h => absurd h List.not_mem_nil, List.Pairwise.nil⟩

omit [DecidableEq ι] in
theorem Inv.correct (h : Inv indexName s) : Correct s := by
  refine ⟨fun c row hc => (h.commits _ (h.returned c row hc)).1, ?_, h.increasing⟩
  intro c d row row' hcd hc hd
  have hne : s.commits.Pairwise fun e f => e.2.version ≠ f.2.version :=
    h.increasing.imp fun hlt => ne_of_lt hlt
  have hsymm : Std.Symm fun e f : ι × IndexState => e.2.version ≠ f.2.version :=
    ⟨fun _ _ hne => hne.symm⟩
  exact hne.forall (h.returned c row hc) (h.returned d row' hd)
    fun heq => hcd (Prod.mk.inj heq).1

/-- Progress of a call that keeps the version it has read, or has just read it. -/
structure Quiet (indexName : String) (s : State ι) (c : ι) (p : Progress) : Prop where
  draft : ∀ seen version, p.draft = some (seen, version) →
    (s.progress c).draft = some (seen, version) ∨
      seen = s.commits.length ∧ version = maxVersion s.rows indexName + 1
  named : ∀ seen row, p = .built seen row ∨ p = .inserted seen row → row.indexName = indexName
  returned : ∀ row, p ≠ .returned row

omit [DecidableEq ι] in
theorem Quiet.raised (s : State ι) (c : ι) : Quiet indexName s c .raised := by
  refine ⟨fun seen version h => ?_, fun seen row h => ?_, fun row h => ?_⟩
  · cases h
  · cases h <;> contradiction
  · cases h

theorem Inv.move (h : Inv indexName s) {c : ι} {p : Progress} (hp : Quiet indexName s c p)
    (writer : Option ι) : Inv indexName (({ s with writer := writer } : State ι).move c p) := by
  obtain ⟨hdraft, hnamed, hreturned⟩ := hp
  refine ⟨fun d seen version hd => ?_, fun d seen row hd => ?_, fun d row hd => ?_, h.commits,
    h.increasing⟩
  · by_cases hdc : d = c
    · subst hdc
      simp only [State.move, Function.update_self] at hd
      cases hdraft seen version hd with
      | inl hold => exact h.drafts d seen version hold
      | inr hnew =>
        obtain ⟨rfl, rfl⟩ := hnew
        exact ⟨le_rfl, le_rfl, fun _ => rfl, fun hlt => absurd hlt (lt_irrefl _)⟩
    · simp only [State.move, Function.update_of_ne hdc] at hd
      exact h.drafts d seen version hd
  · by_cases hdc : d = c
    · subst hdc
      simp only [State.move, Function.update_self] at hd
      exact hnamed seen row hd
    · simp only [State.move, Function.update_of_ne hdc] at hd
      exact h.named d seen row hd
  · by_cases hdc : d = c
    · subst hdc
      simp only [State.move, Function.update_self] at hd
      exact absurd hd (hreturned row)
    · simp only [State.move, Function.update_of_ne hdc] at hd
      exact h.returned d row hd

/-- A commit of a version that is still the next one. -/
theorem Inv.commit (h : Inv indexName s) {c : ι} {row : IndexState}
    (hname : row.indexName = indexName)
    (hversion : row.version = maxVersion s.rows indexName + 1) :
    Inv indexName (({ s with
      rows := insertOrReplace s.rows row
      writer := none
      commits := s.commits ++ [(c, row)] } : State ι).move c (.returned row)) := by
  have habove : maxVersion s.rows indexName < row.version := by omega
  obtain ⟨hrows, hmax⟩ := insertOrReplace_above indexName hname habove
  have hnew : (c, row) ∈ s.commits ++ [(c, row)] := List.mem_append_right _ List.mem_cons_self
  refine ⟨fun d seen version hd => ?_, fun d seen r hd => ?_, fun d r hd => ?_, fun e he => ?_, ?_⟩
  · by_cases hdc : d = c
    · subst hdc
      simp only [State.move, Function.update_self] at hd
      cases hd
    · simp only [State.move, Function.update_of_ne hdc] at hd
      obtain ⟨hseen, hle, hlast, hbehind⟩ := h.drafts d seen version hd
      simp only [State.move, hmax, List.length_append, List.length_singleton]
      refine ⟨by omega, by omega, fun heq => by omega, fun _ => ?_⟩
      by_cases heq : seen = s.commits.length
      · have hversion' := hlast heq
        refine ⟨_, hnew, ?_⟩
        dsimp only
        omega
      · obtain ⟨e, he, hev⟩ := hbehind (by omega)
        exact ⟨e, List.mem_append_left _ he, hev⟩
  · by_cases hdc : d = c
    · subst hdc
      simp only [State.move, Function.update_self] at hd
      cases hd <;> contradiction
    · simp only [State.move, Function.update_of_ne hdc] at hd
      exact h.named d seen r hd
  · by_cases hdc : d = c
    · subst hdc
      simp only [State.move, Function.update_self] at hd
      cases hd
      exact hnew
    · simp only [State.move, Function.update_of_ne hdc] at hd
      exact List.mem_append_left _ (h.returned d r hd)
  · simp only [State.move, hrows]
    cases List.mem_append.1 he with
    | inl hold =>
      exact ⟨List.mem_append_left _ (h.commits e hold).1, (h.commits e hold).2⟩
    | inr hlast =>
      rw [List.mem_singleton.1 hlast]
      exact ⟨List.mem_append_right _ List.mem_cons_self, hname⟩
  · refine List.pairwise_append.2 ⟨h.increasing, List.pairwise_singleton _ _, fun e he f hf => ?_⟩
    rw [List.mem_singleton.1 hf]
    have hle := le_maxVersion indexName (h.commits e he).1 (h.commits e he).2
    dsimp only
    omega

/-- What a step of a call does. -/
theorem advance_cases (h : Inv indexName s) {c : ι} {fails : Bool} {now : String}
    (hstep : advance indexName s c fails now (s.progress c) = some t) :
    (∃ p writer, Quiet indexName s c p ∧ t = ({ s with writer := writer } : State ι).move c p ∧
      Alone s (.advance c fails now)) ∨
    ∃ seen row, s.progress c = .inserted seen row ∧ fails = false ∧
      t = ({ s with
        rows := insertOrReplace s.rows row
        writer := none
        commits := s.commits ++ [(c, row)] } : State ι).move c (.returned row) := by
  have hnot (halone : ∀ seen row, s.progress c ≠ .inserted seen row) :
      Alone s (.advance c fails now) := fun seen row hc => absurd hc (halone seen row)
  rw [advance.eq_def] at hstep
  split at hstep
  · next hp =>
    refine .inl ?_
    have halone := hnot fun seen row hc => by rw [hp] at hc; cases hc
    split at hstep
    · cases hstep
      exact ⟨.raised, s.writer, .raised s c, rfl, halone⟩
    · cases hstep
      refine ⟨_, s.writer, ⟨fun seen version hd => ?_, ?_, ?_⟩, rfl, halone⟩
      · cases hd
        exact .inr ⟨rfl, rfl⟩
      · rintro seen row (hd | hd) <;> cases hd
      · rintro row ⟨⟩
  · next hp =>
    refine .inl ?_
    have halone := hnot fun seen row hc => by rw [hp] at hc; cases hc
    split at hstep
    · cases hstep
      exact ⟨.raised, s.writer, .raised s c, rfl, halone⟩
    · cases hstep
      refine ⟨_, s.writer, ⟨fun seen version hd => .inl (by rw [hp]; exact hd), ?_, ?_⟩, rfl,
        halone⟩
      · rintro seen row (hd | hd) <;> cases hd
      · rintro row ⟨⟩
  · next hp =>
    refine .inl ?_
    have halone := hnot fun seen row hc => by rw [hp] at hc; cases hc
    split at hstep
    · cases hstep
      exact ⟨.raised, s.writer, .raised s c, rfl, halone⟩
    · cases hstep
      refine ⟨_, s.writer, ⟨fun seen version hd => .inl (by rw [hp]; exact hd), ?_, ?_⟩, rfl,
        halone⟩
      · rintro seen row (hd | hd) <;> cases hd
      · rintro row ⟨⟩
  · next hp =>
    refine .inl ?_
    have halone := hnot fun seen row hc => by rw [hp] at hc; cases hc
    split at hstep
    · cases hstep
      exact ⟨.raised, s.writer, .raised s c, rfl, halone⟩
    · cases hstep
      refine ⟨_, s.writer, ⟨fun seen version hd => .inl (by rw [hp]; exact hd), ?_, ?_⟩, rfl,
        halone⟩
      · rintro seen row (hd | hd)
        · cases hd
          rfl
        · cases hd
      · rintro row ⟨⟩
  · next seen row hp =>
    refine .inl ?_
    have halone := hnot fun seen row hc => by rw [hp] at hc; cases hc
    split at hstep
    · cases hstep
      exact ⟨.raised, s.writer, .raised s c, rfl, halone⟩
    · split at hstep
      · cases hstep
        refine ⟨_, some c, ⟨fun seen version hd => .inl (by rw [hp]; exact hd), ?_, ?_⟩, rfl,
          halone⟩
        · rintro seen' row' (hd | hd)
          · cases hd
          · cases hd
            exact h.named c seen row (.inl hp)
        · rintro row ⟨⟩
      · cases hstep
  · next seen row hp =>
    split at hstep
    · next hfails =>
      cases hstep
      refine .inl ⟨.raised, none, .raised s c, rfl, fun _ _ _ hf => ?_⟩
      rw [hfails] at hf
      cases hf
    · next hfails =>
      cases hstep
      exact .inr ⟨seen, row, hp, Bool.eq_false_iff.2 hfails, rfl⟩
  · cases hstep
  · cases hstep

theorem correct_iff (h : Inv indexName s) (hstep : step indexName s action = some t) :
    (Correct t ↔ Alone s action) ∧ (Correct t → Inv indexName t) := by
  have hquiet (halone : Alone s action) (hinv : Inv indexName t) :
      (Correct t ↔ Alone s action) ∧ (Correct t → Inv indexName t) :=
    ⟨iff_of_true hinv.correct halone, fun _ => hinv⟩
  cases action with
  | other db =>
    cases hstep
    exact hquiet trivial ⟨h.drafts, h.named, h.returned, h.commits, h.increasing⟩
  | advance c fails now =>
    obtain ⟨p, writer, hp, rfl, halone⟩ | ⟨seen, row, hp, hfails, rfl⟩ := advance_cases h hstep
    · exact hquiet halone (h.move hp writer)
    · have hdraft : (s.progress c).draft = some (seen, row.version) := by rw [hp]; rfl
      obtain ⟨hseen, -, hlast, hbehind⟩ := h.drafts c seen row.version hdraft
      by_cases heq : seen = s.commits.length
      · refine hquiet (fun seen' row' hc _ => ?_)
          (h.commit (h.named c seen row (.inr hp)) (hlast heq))
        rw [hp] at hc
        cases hc
        exact heq
      · -- The row of the call that has committed meanwhile is not below the new one.
        have hfalse (hcorrect : Correct (({ s with
            rows := insertOrReplace s.rows row
            writer := none
            commits := s.commits ++ [(c, row)] } : State ι).move c (.returned row))) : False := by
          obtain ⟨e, he, hle⟩ := hbehind (by omega)
          have hlt := (List.pairwise_append.1 hcorrect.increasing).2.2 e he _ List.mem_cons_self
          dsimp only at hlt
          omega
        refine ⟨⟨fun hcorrect => (hfalse hcorrect).elim, fun halone => ?_⟩,
          fun hcorrect => (hfalse hcorrect).elim⟩
        exact absurd (halone seen row hp hfails) heq

theorem rebuildIndex_correct_iff (indexName : String) (db : Db) (rows : List IndexState)
    (actions : List (Action ι)) :
    Along (step indexName) (fun _ _ t => Correct t) (State.initial db rows) actions ↔
      Along (step indexName) (fun s a _ => Alone s a) (State.initial db rows) actions :=
  along_iff (Q := fun s a _ => Alone s a) (fun _ _ _ => correct_iff) (Inv.initial db rows) actions

/-- Both calls read the version before either commits. -/
def sampleOverlap : List (Action Nat) :=
  [.advance 0 false "t", .advance 1 false "t"] ++ List.replicate 5 (.advance 0 false "t") ++
    List.replicate 5 (.advance 1 false "t")

theorem sampleOverlap_lost :
    ¬ Along (step "chroma") (fun _ _ t => Correct t) (State.initial Db.empty []) sampleOverlap := by
  intro h
  have hlast := Along.reached sampleOverlap.dropLast [] h rfl rfl
  exact hlast.distinct 0 1 _ _ (by decide) rfl rfl rfl

end Index
end ParallaxKernel.Store
