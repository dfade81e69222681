import Mathlib.Data.List.DropRight
import Mathlib.Data.List.Sort
import ParallaxKernel.Lib.IsoOrder
import ParallaxKernel.Lib.Runs

/-!
# The offline queue

`WALQueue` of `wal.py`, of which the session hook carries a copy. Any number of calls of `enqueue`
and `drain` work on one queue file, each on a connection of its own. A step is a statement, a
commit or a send; a statement that writes takes the write lock until its commit, and a call may
raise, or its process end, before any step. Times are microseconds since 1970. The scheme that
`urlparse` finds is a parameter, without a value where it raises, and a send is a call of `urlopen`.
-/

namespace ParallaxKernel.Client

open Lib

/-! ## The table -/

/-- A row of `wal_queue`. -/
structure WalRow where
  seq : Nat
  endpoint : String
  payload : String
  userId : String
  token : String
  createdAt : String
  attempts : Nat
  deriving DecidableEq

/-- The row as it was inserted. -/
def WalRow.fresh (row : WalRow) : WalRow := { row with attempts := 0 }

/-- `wal_queue`, with the number that `AUTOINCREMENT` has given last. -/
structure Table where
  rows : List WalRow
  lastSeq : Nat

namespace Table

def insert (t : Table) (row : WalRow) : Table := ⟨t.rows ++ [row], row.seq⟩

/-- `DELETE FROM wal_queue WHERE seq = ?`. -/
def delete (t : Table) (seq : Nat) : Table := { t with rows := t.rows.filter (·.seq ≠ seq) }

/-- `UPDATE wal_queue SET attempts = attempts + 1 WHERE seq = ?`. -/
def bump (t : Table) (seq : Nat) : Table :=
  { t with rows := t.rows.map fun row =>
      if row.seq = seq then { row with attempts := row.attempts + 1 } else row }

/-- `attempts >= 5 AND created_at < ?`. -/
def isDead (cutoff : String) (row : WalRow) : Bool := 5 ≤ row.attempts ∧ row.createdAt < cutoff

def evict (t : Table) (cutoff : String) : Table :=
  { t with rows := t.rows.filter fun row => !isDead cutoff row }

/-- `SELECT … ORDER BY seq LIMIT ?` with `DRAIN_BATCH`. -/
def batch (t : Table) : List WalRow :=
  (t.rows.insertionSort fun a b => a.seq ≤ b.seq).take 100

end Table

/-! ## Calls -/

inductive Call where
  | enqueue (endpoint payload userId token : String)
  | drain (baseUrl : String)
  deriving DecidableEq

/-- The POST request of a row. -/
structure Request where
  url : String
  data : String
  authorization : String
  deriving DecidableEq

def requestOf (baseUrl : String) (row : WalRow) : Request where
  url := String.ofList (baseUrl.toList.rdropWhile (· == '/')) ++ row.endpoint
  data := row.payload
  authorization := "Bearer " ++ row.token

/-- What `urlopen` gives: a status, also as an `HTTPError`, or a network error. -/
inductive Outcome where
  | status (code : Nat)
  | unreachable
  deriving DecidableEq

namespace Outcome

def success : Outcome → Bool
  | status code => 200 ≤ code ∧ code < 300
  | unreachable => false

def clientError : Outcome → Bool
  | status code => 400 ≤ code ∧ code < 500
  | unreachable => false

/-- The row is deleted. -/
def final (outcome : Outcome) : Bool := outcome.success || outcome.clientError

end Outcome

variable {ι : Type}

/-- A send whose outcome is known. -/
structure Send (ι : Type) where
  call : ι
  seq : Nat
  request : Request
  outcome : Outcome
  deriving DecidableEq

structure DrainResult where
  sent : Nat
  failed : Nat
  skipped : Nat
  deriving DecidableEq

/-- Where a call stands; a row and its send go with what is left of the batch. -/
inductive Progress (ι : Type) where
  | idle
  | connected
  | inserted (row : WalRow) (now : Int)
  | evicted (now : Int) (cutoff : String)
  | ready
  | draining (rest : List WalRow) (result : DrainResult)
  | answered (send : Send ι) (rest : List WalRow) (result : DrainResult)
  | applied (send : Send ι) (rest : List WalRow) (result : DrainResult)
  | enqueued (seq : Nat)
  | drained (result : DrainResult)
  | ended

/-- A row that an eviction has removed, the failed sends recorded for it by then, and the time. -/
structure Eviction where
  seq : Nat
  recorded : Nat
  now : Int

/-- What has happened: the rows that were committed with the times of their inserts, the sends,
those of them that were recorded as failed, and the evictions. -/
structure History (ι : Type) where
  enqueued : List (WalRow × Int)
  sends : List (Send ι)
  failures : List (Send ι)
  evictions : List Eviction

/-- How many failed sends are recorded for a row. -/
def History.recorded (h : History ι) (seq : Nat) : Nat := h.failures.countP (·.seq = seq)

/-- The committed table, and the copy of the call that holds the write lock. -/
structure State (ι : Type) where
  table : Table
  working : Option (ι × Table)
  progress : ι → Progress ι
  history : History ι

def State.initial : State ι where
  table := ⟨[], 0⟩
  working := none
  progress _ := .idle
  history := ⟨[], [], [], []⟩

inductive Action (ι : Type) where
  | connect (c : ι)
  | execute (c : ι) (now : Int)
  | commit (c : ι)
  | select (c : ι)
  | skip (c : ι)
  | send (c : ι) (outcome : Outcome)
  | finish (c : ι)
  | abort (c : ι)

variable [DecidableEq ι]

def State.move (s : State ι) (c : ι) (p : Progress ι) : State ι :=
  { s with progress := Function.update s.progress c p }

def week : Int := 7 * 86400000000

/-- `isoformat(timespec="microseconds")` of a reading of the clock. -/
def isoformat (us : Int) : Option String := (DateTime.ofTimestamp us).map DateTime.isoformatUtc

variable (urlScheme : String → Option String) (calls : ι → Call)

/-- The statement that follows a send. -/
def applyOutcome (t : Table) (send : Send ι) : Table :=
  if send.outcome.final then t.delete send.seq else t.bump send.seq

def DrainResult.count (result : DrainResult) (outcome : Outcome) : DrainResult :=
  if outcome.success then { result with sent := result.sent + 1 }
  else { result with failed := result.failed + 1 }

/-- A statement that writes, with the lock free. -/
def execute (s : State ι) (c : ι) (now : Int) : Option (State ι) :=
  match s.progress c, calls c with
  | .connected, .enqueue endpoint payload userId token =>
    match isoformat now with
    | none => some (s.move c .ended)
    | some createdAt =>
      let row : WalRow :=
        { seq := s.table.lastSeq + 1, endpoint, payload, userId, token, createdAt, attempts := 0 }
      some ({ s with working := some (c, s.table.insert row) }.move c (.inserted row now))
  | .connected, .drain _ =>
    match isoformat (now - week) with
    | none => some (s.move c .ended)
    | some cutoff =>
      some ({ s with working := some (c, s.table.evict cutoff) }.move c (.evicted now cutoff))
  | .answered send rest result, .drain _ =>
    some ({ s with working := some (c, applyOutcome s.table send) }.move c
      (.applied send rest result))
  | _, _ => none

/-- The commit of the call that holds the lock, with its copy. -/
def commit (s : State ι) (c : ι) (copy : Table) : Option (State ι) :=
  match s.progress c with
  | .inserted row now =>
    let history := { s.history with enqueued := s.history.enqueued ++ [(row, now)] }
    some ({ s with table := copy, working := none, history }.move c (.enqueued row.seq))
  | .evicted now cutoff =>
    let evictions := (s.table.rows.filter (Table.isDead cutoff)).map fun row =>
      (⟨row.seq, s.history.recorded row.seq, now⟩ : Eviction)
    let history := { s.history with evictions := s.history.evictions ++ evictions }
    some ({ s with table := copy, working := none, history }.move c .ready)
  | .applied send rest result =>
    let failed := !send.outcome.final && s.table.rows.any (·.seq = send.seq)
    let history := { s.history with
      failures := if failed then s.history.failures ++ [send] else s.history.failures }
    some ({ s with table := copy, working := none, history }.move c
      (.draining rest (result.count send.outcome)))
  | _ => none

/-- `enqueue` and `drain`, step by step. -/
def step (s : State ι) : Action ι → Option (State ι)
  | .connect c =>
    match s.progress c, calls c with
    | .idle, .enqueue .. => some (s.move c .connected)
    | .idle, .drain baseUrl =>
      match urlScheme baseUrl with
      | none => some (s.move c .ended)
      | some scheme =>
        if scheme ∈ ["http", "https"] then some (s.move c .connected)
        else some (s.move c (.drained ⟨0, 0, 0⟩))
    | _, _ => none
  | .execute c now => if s.working.isNone then execute calls s c now else none
  | .commit c =>
    match s.working with
    | some (holder, copy) => if holder = c then commit s c copy else none
    | none => none
  | .select c =>
    match s.progress c with
    | .ready => some (s.move c (.draining s.table.batch ⟨0, 0, 0⟩))
    | _ => none
  | .skip c =>
    match s.progress c with
    | .draining (row :: rest) result =>
      if 5 ≤ row.attempts then
        some (s.move c (.draining rest { result with skipped := result.skipped + 1 }))
      else none
    | _ => none
  | .send c outcome =>
    match s.progress c, calls c with
    | .draining (row :: rest) result, .drain baseUrl =>
      if row.attempts < 5 then
        let send : Send ι := ⟨c, row.seq, requestOf baseUrl row, outcome⟩
        let history := { s.history with sends := s.history.sends ++ [send] }
        some ({ s with history }.move c (.answered send rest result))
      else none
    | _, _ => none
  | .finish c =>
    match s.progress c with
    | .draining [] result => some (s.move c (.drained result))
    | _ => none
  | .abort c =>
    match s.progress c with
    | .idle | .enqueued _ | .drained _ | .ended => none
    | _ => some ({ s with working := s.working.filter (·.1 ≠ c) }.move c .ended)

/-! ## What is claimed -/

/-- The row is in the table but for its attempts, or a send of exactly this row has got a final
status, or it was evicted, with five recorded failures and after more than a week. -/
inductive Kept (t : Table) (h : History ι) (row : WalRow) (inserted : Int) : Prop where
  | queued (r : WalRow) (hr : r ∈ t.rows) (hrow : r.fresh = row)
  | answered (send : Send ι) (baseUrl : String) (hsend : send ∈ h.sends)
      (hcall : calls send.call = .drain baseUrl) (hseq : send.seq = row.seq)
      (hrequest : send.request = requestOf baseUrl row) (hfinal : send.outcome.final = true)
  | evicted (e : Eviction) (he : e ∈ h.evictions) (hseq : e.seq = row.seq)
      (hfailed : 5 ≤ e.recorded) (hold : inserted + week < e.now)

structure Correct (s : State ι) : Prop where
  returned : ∀ c seq, s.progress c = .enqueued seq → ∃ e ∈ s.history.enqueued, e.1.seq = seq ∧
    e.1.attempts = 0 ∧ calls c = .enqueue e.1.endpoint e.1.payload e.1.userId e.1.token
  distinct : (s.history.enqueued.map (·.1.seq)).Nodup
  kept : ∀ e ∈ s.history.enqueued, Kept calls s.table s.history e.1 e.2
  attempts : ∀ row ∈ s.table.rows, row.attempts = s.history.recorded row.seq
  failures : s.history.failures.Nodup ∧ ∀ send ∈ s.history.failures, send ∈ s.history.sends ∧
    send.outcome.final = false
  sends : ∀ send ∈ s.history.sends, ∃ baseUrl, calls send.call = .drain baseUrl ∧
    ∃ e ∈ s.history.enqueued, e.1.seq = send.seq ∧ send.request = requestOf baseUrl e.1
  ordered : ∀ c, ((s.history.sends.filter (·.call = c)).map Send.seq).Pairwise (· < ·)

/-- What is claimed of a step: the property holds after it, and the commit after a send leaves
every row but the one that was sent. -/
def StepCorrect (s : State ι) (action : Action ι) (t : State ι) : Prop :=
  Correct calls t ∧ ∀ c send rest result, action = .commit c →
    s.progress c = .applied send rest result →
      ∀ row, row.seq ≠ send.seq → (row ∈ t.table.rows ↔ row ∈ s.table.rows)

/-! ## What the statements do -/

section Tables

variable {t : Table} {row : WalRow} {seq : Nat}

theorem WalRow.fresh_seq (row : WalRow) : row.fresh.seq = row.seq := rfl

theorem Table.mem_bump : row ∈ (t.bump seq).rows ↔
    row.seq ≠ seq ∧ row ∈ t.rows ∨
      ∃ old ∈ t.rows, old.seq = seq ∧ row = { old with attempts := old.attempts + 1 } := by
  simp only [bump, List.mem_map]
  constructor
  · rintro ⟨old, hold, rfl⟩
    by_cases hseq : old.seq = seq
    · rw [if_pos hseq]
      exact .inr ⟨old, hold, hseq, rfl⟩
    · rw [if_neg hseq]
      exact .inl ⟨hseq, hold⟩
  · rintro (⟨hseq, hrow⟩ | ⟨old, hold, hseq, rfl⟩)
    · exact ⟨row, hrow, if_neg hseq⟩
    · exact ⟨old, hold, if_pos hseq⟩

theorem Table.mem_delete : row ∈ (t.delete seq).rows ↔ row ∈ t.rows ∧ row.seq ≠ seq := by
  simp [delete, List.mem_filter]

theorem Table.map_bump (f : WalRow → Nat) (hf : ∀ row n, f { row with attempts := n } = f row) :
    (t.bump seq).rows.map f = t.rows.map f := by
  rw [bump, List.map_map]
  refine List.map_congr_left fun row _ => ?_
  simp only [Function.comp_apply]
  split
  · exact hf row _
  · rfl

omit [DecidableEq ι] in
/-- The outcome of a send changes no row but the one that was sent. -/
theorem mem_applyOutcome {send : Send ι} (hseq : row.seq ≠ send.seq) :
    row ∈ (applyOutcome t send).rows ↔ row ∈ t.rows := by
  rw [applyOutcome]
  split
  · rw [Table.mem_delete, and_iff_left hseq]
  · rw [Table.mem_bump]
    constructor
    · rintro (⟨-, hrow⟩ | ⟨old, -, hold, rfl⟩)
      · exact hrow
      · exact absurd hold hseq
    · exact fun hrow => .inl ⟨hseq, hrow⟩

end Tables

/-! ## The invariant -/

def History.sentBy (h : History ι) (c : ι) : List Nat :=
  (h.sends.filter (·.call = c)).map Send.seq

/-- The rest of a batch is of committed rows, in order, behind what the call has sent. -/
structure Rest (h : History ι) (c : ι) (rest : List WalRow) : Prop where
  rows : ∀ row ∈ rest, ∃ e ∈ h.enqueued, row.fresh = e.1
  ordered : (h.sentBy c ++ rest.map WalRow.seq).Pairwise (· < ·)

/-- What is known of a call that stands where `progress` says. -/
def CallInv (h : History ι) (c : ι) : Progress ι → Prop
  | .idle | .connected | .inserted .. | .evicted .. | .ready => h.sentBy c = []
  | .draining rest _ => Rest h c rest
  | .answered send rest _ | .applied send rest _ =>
    Rest h c rest ∧ send ∈ h.sends ∧ send ∉ h.failures ∧ send.call = c
  | .enqueued seq => ∃ e ∈ h.enqueued, e.1.seq = seq ∧
      calls c = .enqueue e.1.endpoint e.1.payload e.1.userId e.1.token
  | .drained _ | .ended => True

/-- What is known of the copy of the call that holds the lock. -/
def WorkingInv (t : Table) (call : Call) (copy : Table) : Progress ι → Prop
  | .inserted row now => copy = t.insert row ∧ row.seq = t.lastSeq + 1 ∧ row.attempts = 0 ∧
      call = .enqueue row.endpoint row.payload row.userId row.token ∧
      isoformat now = some row.createdAt
  | .evicted now cutoff => copy = t.evict cutoff ∧ isoformat (now - week) = some cutoff
  | .applied send _ _ => copy = applyOutcome t send
  | _ => False

/-- What holds of the table and of what has happened. -/
structure TableInv (t : Table) (h : History ι) : Prop where
  lastSeq : ∀ e ∈ h.enqueued, e.1.seq ≤ t.lastSeq
  distinct : (h.enqueued.map (·.1.seq)).Nodup
  inserted : ∀ e ∈ h.enqueued, e.1.attempts = 0 ∧ isoformat e.2 = some e.1.createdAt
  rows : ∀ row ∈ t.rows, ∃ e ∈ h.enqueued, row.fresh = e.1
  rows_nodup : (t.rows.map WalRow.seq).Nodup
  attempts : ∀ row ∈ t.rows, row.attempts = h.recorded row.seq
  kept : ∀ e ∈ h.enqueued, Kept calls t h e.1 e.2
  failures : h.failures.Nodup ∧ ∀ send ∈ h.failures, send ∈ h.sends ∧ send.outcome.final = false
  sends : ∀ send ∈ h.sends, ∃ baseUrl, calls send.call = .drain baseUrl ∧
    ∃ e ∈ h.enqueued, e.1.seq = send.seq ∧ send.request = requestOf baseUrl e.1
  ordered : ∀ c, (h.sentBy c).Pairwise (· < ·)

structure Inv (s : State ι) : Prop where
  table : TableInv calls s.table s.history
  callInv : ∀ c, CallInv calls s.history c (s.progress c)
  working : ∀ c copy, s.working = some (c, copy) →
    WorkingInv s.table (calls c) copy (s.progress c)

section Proofs

variable {urlScheme} {calls} {s t : State ι} {c : ι} {action : Action ι}

theorem Inv.initial : Inv calls (State.initial : State ι) where
  table :=
    { lastSeq := fun _ h => absurd h List.not_mem_nil
      distinct := List.nodup_nil
      inserted := fun _ h => absurd h List.not_mem_nil
      rows := fun _ h => absurd h List.not_mem_nil
      rows_nodup := List.nodup_nil
      attempts := fun _ h => absurd h List.not_mem_nil
      kept := fun _ h => absurd h List.not_mem_nil
      failures := ⟨List.nodup_nil, fun _ h => absurd h List.not_mem_nil⟩
      sends := fun _ h => absurd h List.not_mem_nil
      ordered := fun _ => List.Pairwise.nil }
  callInv _ := rfl
  working _ _ h := nomatch h

theorem Inv.correct (h : Inv calls s) : Correct calls s where
  returned c seq hc := by
    have hcall := h.callInv c
    rw [hc] at hcall
    obtain ⟨e, he, hseq, hcall⟩ := hcall
    exact ⟨e, he, hseq, (h.table.inserted e he).1, hcall⟩
  distinct := h.table.distinct
  kept := h.table.kept
  attempts := h.table.attempts
  failures := h.table.failures
  sends := h.table.sends
  ordered := h.table.ordered

/-- A step of one call: what is known of the table, of that call, of the others and of the lock. -/
theorem Inv.step (h : Inv calls s) {p : Progress ι} {table : Table} {history : History ι}
    {working : Option (ι × Table)} (htable : TableInv calls table history)
    (hp : CallInv calls history c p)
    (hothers : ∀ d, d ≠ c → CallInv calls s.history d (s.progress d) →
      CallInv calls history d (s.progress d))
    (hworking : ∀ d copy, working = some (d, copy) →
      WorkingInv table (calls d) copy (if d = c then p else s.progress d)) :
    Inv calls ({ s with table := table, working := working, history := history }.move c p) where
  table := htable
  callInv d := by
    by_cases hd : d = c
    · subst hd
      simpa only [State.move, Function.update_self] using hp
    · simpa only [State.move, Function.update_of_ne hd] using hothers d hd (h.callInv d)
  working d copy hd := by
    have hinv := hworking d copy hd
    by_cases hdc : d = c
    · subst hdc
      simpa [State.move] using hinv
    · simpa [State.move, hdc] using hinv

/-- A step that only moves one call on. -/
theorem Inv.move (h : Inv calls s) {p : Progress ι} (hp : CallInv calls s.history c p)
    (hfree : ∀ copy, s.working ≠ some (c, copy)) : Inv calls (s.move c p) :=
  h.step h.table hp (fun _ _ hd => hd) fun d copy hd => by
    have hdc : d ≠ c := fun hdc => hfree copy (hdc ▸ hd)
    rw [if_neg hdc]
    exact h.working d copy hd

/-! ## The table under a commit -/

omit [DecidableEq ι] in
theorem Kept.mono {table table' : Table} {h h' : History ι} {row : WalRow} {inserted : Int}
    (hkept : Kept calls table h row inserted)
    (hrows : ∀ r ∈ table.rows, r.fresh = row → Kept calls table' h' row inserted)
    (hsends : h.sends ⊆ h'.sends) (hevictions : h.evictions ⊆ h'.evictions) :
    Kept calls table' h' row inserted := by
  cases hkept with
  | queued r hr hrow => exact hrows r hr hrow
  | answered send baseUrl hsend hcall hseq hrequest hfinal =>
    exact .answered send baseUrl (hsends hsend) hcall hseq hrequest hfinal
  | evicted v hv hseq hfailed hold => exact .evicted v (hevictions hv) hseq hfailed hold

theorem isoformat_lt {m n : Int} {a b : String} (ha : isoformat m = some a)
    (hb : isoformat n = some b) (hab : a < b) : m < n := by
  obtain ⟨da, hda, rfl⟩ := Option.map_eq_some_iff.1 ha
  obtain ⟨db, hdb, rfl⟩ := Option.map_eq_some_iff.1 hb
  exact (DateTime.isoformatUtc_lt_iff hda hdb).1 hab

section Commits

variable {table : Table} {h : History ι}

theorem TableInv.seq_le (ht : TableInv calls table h) {row : WalRow} (hrow : row ∈ table.rows) :
    row.seq ≤ table.lastSeq := by
  obtain ⟨e, he, hfresh⟩ := ht.rows row hrow
  rw [← row.fresh_seq, hfresh]
  exact ht.lastSeq e he

theorem TableInv.failure_le (ht : TableInv calls table h) {send : Send ι}
    (hsend : send ∈ h.failures) : send.seq ≤ table.lastSeq := by
  obtain ⟨baseUrl, -, e, he, hseq, -⟩ := ht.sends send (ht.failures.2 send hsend).1
  rw [← hseq]
  exact ht.lastSeq e he

/-- The commit of an insert. -/
theorem TableInv.insert (ht : TableInv calls table h) {row : WalRow} {now : Int}
    (hseq : row.seq = table.lastSeq + 1) (hattempts : row.attempts = 0)
    (hcreated : isoformat now = some row.createdAt) :
    TableInv calls (table.insert row) { h with enqueued := h.enqueued ++ [(row, now)] } where
  lastSeq e he := by
    simp only [List.mem_append, List.mem_singleton] at he
    cases he with
    | inl he =>
      have hle := ht.lastSeq e he
      simp only [Table.insert]
      omega
    | inr he =>
      rw [he]
      exact le_rfl
  distinct := by
    rw [List.map_append]
    refine List.nodup_append_comm.1 (List.nodup_cons.2 ⟨fun hmem => ?_, ht.distinct⟩)
    obtain ⟨e, he, heq⟩ := List.mem_map.1 hmem
    have hle := ht.lastSeq e he
    simp only at heq
    omega
  inserted e he := by
    simp only [List.mem_append, List.mem_singleton] at he
    cases he with
    | inl he => exact ht.inserted e he
    | inr he =>
      rw [he]
      exact ⟨hattempts, hcreated⟩
  rows r hr := by
    cases List.mem_append.1 hr with
    | inl hold =>
      obtain ⟨e, he, hfresh⟩ := ht.rows r hold
      exact ⟨e, List.mem_append_left _ he, hfresh⟩
    | inr hnew =>
      obtain rfl := List.mem_singleton.1 hnew
      refine ⟨(r, now), List.mem_append_right _ List.mem_cons_self, ?_⟩
      rw [WalRow.fresh, ← hattempts]
  rows_nodup := by
    rw [Table.insert, List.map_append]
    refine List.nodup_append_comm.1 (List.nodup_cons.2 ⟨fun hmem => ?_, ht.rows_nodup⟩)
    obtain ⟨r, hr, heq⟩ := List.mem_map.1 hmem
    have hle := ht.seq_le hr
    omega
  attempts r hr := by
    cases List.mem_append.1 hr with
    | inl hold => exact ht.attempts r hold
    | inr hnew =>
      obtain rfl := List.mem_singleton.1 hnew
      rw [hattempts, History.recorded, eq_comm, List.countP_eq_zero]
      intro send hsend
      have hle := ht.failure_le hsend
      simp only [decide_eq_true_eq]
      omega
  kept e he := by
    simp only [List.mem_append, List.mem_singleton] at he
    cases he with
    | inl he =>
      exact (ht.kept e he).mono (fun r hr hrow => .queued r (List.mem_append_left _ hr) hrow)
        (List.Subset.refl _) (List.Subset.refl _)
    | inr he =>
      rw [he]
      refine .queued row (List.mem_append_right _ List.mem_cons_self) ?_
      rw [WalRow.fresh, ← hattempts]
  failures := ht.failures
  sends send hsend := by
    obtain ⟨baseUrl, hcall, e, he, hrest⟩ := ht.sends send hsend
    exact ⟨baseUrl, hcall, e, List.mem_append_left _ he, hrest⟩
  ordered := ht.ordered

/-- The commit of an eviction. -/
theorem TableInv.evict (ht : TableInv calls table h) {now : Int} {cutoff : String}
    (hcutoff : isoformat (now - week) = some cutoff) :
    TableInv calls (table.evict cutoff) { h with
      evictions := h.evictions ++ (table.rows.filter (Table.isDead cutoff)).map fun row =>
        (⟨row.seq, h.recorded row.seq, now⟩ : Eviction) } where
  lastSeq := ht.lastSeq
  distinct := ht.distinct
  inserted := ht.inserted
  rows r hr := ht.rows r (List.mem_filter.1 hr).1
  rows_nodup := (List.filter_sublist.map WalRow.seq).nodup ht.rows_nodup
  attempts r hr := ht.attempts r (List.mem_filter.1 hr).1
  kept e he := by
    refine (ht.kept e he).mono (fun r hr hrow => ?_) (List.Subset.refl _)
      (List.subset_append_left _ _)
    cases hdead : Table.isDead cutoff r with
    | false => exact .queued r (List.mem_filter.2 ⟨hr, by rw [hdead]; rfl⟩) hrow
    | true =>
      have hmem := List.mem_map_of_mem (f := fun row : WalRow =>
        (⟨row.seq, h.recorded row.seq, now⟩ : Eviction)) (List.mem_filter.2 ⟨hr, hdead⟩)
      obtain ⟨hfive, hbefore⟩ := of_decide_eq_true hdead
      have hcreated : isoformat e.2 = some r.createdAt := by
        rw [(ht.inserted e he).2, ← hrow]
        rfl
      have hlt := isoformat_lt hcreated hcutoff hbefore
      have hold : e.2 + week < now := by omega
      refine .evicted _ (List.mem_append_right _ hmem) (by rw [← hrow]; rfl) ?_ hold
      rw [← ht.attempts r hr]
      exact hfive
  failures := ht.failures
  sends := ht.sends
  ordered := ht.ordered

/-- The row that was sent is deleted. -/
theorem TableInv.delete (ht : TableInv calls table h) {send : Send ι} (hsend : send ∈ h.sends)
    (hfinal : send.outcome.final = true) : TableInv calls (table.delete send.seq) h where
  lastSeq := ht.lastSeq
  distinct := ht.distinct
  inserted := ht.inserted
  rows r hr := ht.rows r (List.mem_filter.1 hr).1
  rows_nodup := (List.filter_sublist.map WalRow.seq).nodup ht.rows_nodup
  attempts r hr := ht.attempts r (List.mem_filter.1 hr).1
  kept e he := by
    refine (ht.kept e he).mono (fun r hr hrow => ?_) (List.Subset.refl _) (List.Subset.refl _)
    by_cases hseq : r.seq = send.seq
    · obtain ⟨baseUrl, hcall, e', he', hseq', hrequest⟩ := ht.sends send hsend
      have heq : e' = e := by
        refine List.inj_on_of_nodup_map ht.distinct he' he ?_
        rw [hseq', ← hseq, ← hrow]
        rfl
      rw [heq] at hseq' hrequest
      exact .answered send baseUrl hsend hcall hseq'.symm hrequest hfinal
    · exact .queued r (Table.mem_delete.2 ⟨hr, hseq⟩) hrow
  failures := ht.failures
  sends := ht.sends
  ordered := ht.ordered

/-- The attempts of the row that was sent go up, and so do its recorded failures. -/
theorem TableInv.bump (ht : TableInv calls table h) {send : Send ι} (hsend : send ∈ h.sends)
    (hnew : send ∉ h.failures) (hfailed : send.outcome.final = false) :
    TableInv calls (table.bump send.seq) { h with
      failures := if table.rows.any (·.seq = send.seq) then h.failures ++ [send]
        else h.failures } where
  lastSeq := ht.lastSeq
  distinct := ht.distinct
  inserted := ht.inserted
  rows r hr := by
    obtain ⟨-, hold⟩ | ⟨old, hold, -, rfl⟩ := Table.mem_bump.1 hr
    · exact ht.rows r hold
    · exact ht.rows old hold
  rows_nodup := by
    rw [Table.map_bump WalRow.seq fun _ _ => rfl]
    exact ht.rows_nodup
  attempts r hr := by
    obtain ⟨hseq, hold⟩ | ⟨old, hold, hseq, rfl⟩ := Table.mem_bump.1 hr
    · rw [ht.attempts r hold, History.recorded, History.recorded]
      dsimp only
      split
      · simp [List.countP_append, Ne.symm hseq]
      · rfl
    · have hany : table.rows.any (·.seq = send.seq) = true :=
        List.any_eq_true.2 ⟨old, hold, decide_eq_true hseq⟩
      simp [ht.attempts old hold, History.recorded, hany, List.countP_append, hseq]
  kept e he := by
    refine (ht.kept e he).mono (fun r hr hrow => ?_) (List.Subset.refl _) (List.Subset.refl _)
    by_cases hseq : r.seq = send.seq
    · exact .queued _ (Table.mem_bump.2 (.inr ⟨r, hr, hseq, rfl⟩)) hrow
    · exact .queued r (Table.mem_bump.2 (.inl ⟨hseq, hr⟩)) hrow
  failures := by
    dsimp only
    split
    · refine ⟨List.nodup_append_comm.1 (List.nodup_cons.2 ⟨hnew, ht.failures.1⟩), fun x hx => ?_⟩
      cases List.mem_append.1 hx with
      | inl hold => exact ht.failures.2 x hold
      | inr hlast =>
        rw [List.mem_singleton.1 hlast]
        exact ⟨hsend, hfailed⟩
    · exact ht.failures
  sends := ht.sends
  ordered := ht.ordered

/-- The commit after a send. -/
theorem TableInv.apply (ht : TableInv calls table h) {send : Send ι} (hsend : send ∈ h.sends)
    (hnew : send ∉ h.failures) :
    TableInv calls (applyOutcome table send) { h with
      failures := if !send.outcome.final && table.rows.any (·.seq = send.seq) then
        h.failures ++ [send] else h.failures } := by
  rw [applyOutcome]
  cases hfinal : send.outcome.final with
  | true =>
    rw [if_pos rfl]
    exact ht.delete hsend hfinal
  | false =>
    rw [if_neg Bool.false_ne_true]
    exact ht.bump hsend hnew hfinal

/-- A send of a committed row, behind what the call has sent. -/
theorem TableInv.send (ht : TableInv calls table h) {send : Send ι} {baseUrl : String}
    {e : WalRow × Int} (hcall : calls send.call = .drain baseUrl) (he : e ∈ h.enqueued)
    (hseq : e.1.seq = send.seq) (hrequest : send.request = requestOf baseUrl e.1)
    (hordered : (h.sentBy send.call ++ [send.seq]).Pairwise (· < ·)) :
    TableInv calls table { h with sends := h.sends ++ [send] } where
  lastSeq := ht.lastSeq
  distinct := ht.distinct
  inserted := ht.inserted
  rows := ht.rows
  rows_nodup := ht.rows_nodup
  attempts := ht.attempts
  kept e he := (ht.kept e he).mono (fun r hr hrow => .queued r hr hrow)
    (List.subset_append_left _ _) (List.Subset.refl _)
  failures := ⟨ht.failures.1, fun x hx =>
    ⟨List.mem_append_left _ (ht.failures.2 x hx).1, (ht.failures.2 x hx).2⟩⟩
  sends x hx := by
    cases List.mem_append.1 hx with
    | inl hold => exact ht.sends x hold
    | inr hnew =>
      obtain rfl := List.mem_singleton.1 hnew
      exact ⟨baseUrl, hcall, e, he, hseq, hrequest⟩
  ordered c := by
    rw [History.sentBy, List.filter_append, List.map_append]
    by_cases hc : send.call = c
    · subst hc
      simpa [History.sentBy] using hordered
    · simpa [hc, History.sentBy] using ht.ordered c

end Commits

/-! ## The steps -/

/-- What is known of another call after a commit. -/
theorem CallInv.mono {h h' : History ι} {p : Progress ι} (hp : CallInv calls h c p)
    (henqueued : h.enqueued ⊆ h'.enqueued) (hsent : h'.sentBy c = h.sentBy c)
    (hsends : h.sends ⊆ h'.sends)
    (hfailures : ∀ send ∈ h'.failures, send ∈ h.failures ∨ send.call ≠ c) :
    CallInv calls h' c p := by
  have hrest {rest : List WalRow} (h : Rest h c rest) : Rest h' c rest :=
    ⟨fun row hrow => (h.rows row hrow).imp fun e he => ⟨henqueued he.1, he.2⟩, hsent ▸ h.ordered⟩
  have hanswered {send : Send ι} {rest : List WalRow}
      (h : Rest h c rest ∧ send ∈ h.sends ∧ send ∉ h.failures ∧ send.call = c) :
      Rest h' c rest ∧ send ∈ h'.sends ∧ send ∉ h'.failures ∧ send.call = c := by
    obtain ⟨hr, hsend, hnew, hcall⟩ := h
    exact ⟨hrest hr, hsends hsend,
      fun hmem => (hfailures send hmem).elim hnew fun hne => hne hcall, hcall⟩
  cases p with
  | idle => exact hsent.trans hp
  | connected => exact hsent.trans hp
  | inserted row now => exact hsent.trans hp
  | evicted now cutoff => exact hsent.trans hp
  | ready => exact hsent.trans hp
  | draining rest result => exact hrest hp
  | answered send rest result => exact hanswered hp
  | applied send rest result => exact hanswered hp
  | enqueued seq => exact hp.imp fun e he => ⟨henqueued he.1, he.2⟩
  | drained result => trivial
  | ended => trivial

end Proofs

end ParallaxKernel.Client
