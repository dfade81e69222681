import ParallaxKernel.Lib.Act
import ParallaxKernel.Lib.Transaction

/-!
# Transactions written out as statements

A connection in autocommit mode runs `BEGIN IMMEDIATE`, statements, `COMMIT` and `ROLLBACK` as the
program says them. Any statement but `ROLLBACK` may raise instead of running, and SQLite may have
rolled the transaction back by itself then, so that the `ROLLBACK` of the program raises in turn.
`transaction` is the bracket of `BEGIN IMMEDIATE` and `COMMIT` that rolls back on a failure, and
`keeps_transaction` says that it commits all or nothing.
-/

namespace ParallaxKernel.Lib

/-- The classes of `sqlite3.Error` that programs tell apart. -/
inductive SqliteError where
  | integrityError
  | operationalError
  | otherError
  deriving DecidableEq

/-- What becomes of a statement: SQLite runs it, or it raises, and the open transaction is rolled
back with it or not. -/
inductive Answer where
  | runs
  | raises (e : SqliteError) (rolledBack : Bool)
  deriving DecidableEq

/-- Exceptions among which those of SQLite can be told apart. -/
class SqliteExc (ε : Type) where
  ofSqlite : SqliteError → ε
  sqlite? : ε → Option SqliteError
  sqlite?_ofSqlite (e : SqliteError) : sqlite? (ofSqlite e) = some e

attribute [simp] SqliteExc.sqlite?_ofSqlite

/-- A connection to a store `σ`, the answers that its next statements get, and the state `τ` of the
program beside. Statements past the last answer run. -/
structure Session (σ τ : Type) where
  conn : Prog.Conn σ
  answers : List Answer
  own : τ

namespace Session

variable {σ τ : Type}

/-- `conn.in_transaction`. -/
def inTransaction (s : Session σ τ) : Bool := s.conn.working.isSome

/-- The next statement raises. -/
def NextRaises (s : Session σ τ) : Prop :=
  ∃ e rolledBack, s.answers.head? = some (.raises e rolledBack)

end Session

namespace Sqlite

variable {σ τ ε : Type}

/-! ## Statements -/

def answered (answer : Option Answer) (run : Prog.Conn σ → Except SqliteError (Prog.Conn σ))
    (conn : Prog.Conn σ) : Except SqliteError Unit × Prog.Conn σ :=
  match answer with
  | some (.raises e rolledBack) =>
    (.error e, if rolledBack then { conn with working := none } else conn)
  | _ =>
    match run conn with
    | .ok conn' => (.ok (), conn')
    | .error e => (.error e, conn)

section Statements

variable [SqliteExc ε]

/-- A statement, answered as the session says. -/
def statement (run : Prog.Conn σ → Except SqliteError (Prog.Conn σ)) :
    Act (Session σ τ) ε Unit :=
  .step fun s =>
    let r := answered s.answers.head? run s.conn
    (r.1.mapError SqliteExc.ofSqlite, { s with conn := r.2, answers := s.answers.tail })

def beginImmediate : Act (Session σ τ) ε Unit :=
  statement fun conn =>
    match conn.working with
    | some _ => .error .operationalError
    | none => .ok { conn with working := some conn.db }

/-- A statement on the data. -/
def execute (f : σ → Except SqliteError σ) : Act (Session σ τ) ε Unit :=
  statement fun conn =>
    match conn.working with
    | some w => (f w).map fun w' => { conn with working := some w' }
    | none => (f conn.db).map fun db => { conn with db := db }

def commit : Act (Session σ τ) ε Unit :=
  statement fun conn =>
    match conn.working with
    | some w => .ok ⟨w, none⟩
    | none => .error .operationalError

/-- `ROLLBACK`, which raises where no transaction is open. -/
def rollback : Act (Session σ τ) ε Unit :=
  .step fun s =>
    (if s.inTransaction then .ok () else .error (SqliteExc.ofSqlite .operationalError),
      { s with conn := { s.conn with working := none } })

/-! ## The bracket -/

/-- `try: p` with an `except sqlite3.Error` clause. -/
def exceptSqlite {ρ α : Type} (p : Act ρ ε α) (handler : SqliteError → Act ρ ε α) : Act ρ ε α :=
  tryCatch p fun e =>
    match SqliteExc.sqlite? e with
    | some sqlite => handler sqlite
    | none => throw e

/-- A `ROLLBACK` whose own failure is only logged. -/
def quietRollback : Act (Session σ τ) ε Unit := exceptSqlite rollback fun _ => pure ()

/-- `BEGIN IMMEDIATE`, the body and `COMMIT`. -/
def transaction (beginFailed commitFailed : ε) (body : Act (Session σ τ) ε Unit) :
    Act (Session σ τ) ε Unit := do
  exceptSqlite beginImmediate fun _ => throw beginFailed
  tryCatch body fun e => do
    quietRollback
    throw e
  exceptSqlite commit fun _ => do
    quietRollback
    throw commitFailed

end Statements

/-! ## Rules -/

open Act

section Rules

variable [SqliteExc ε] {s : Session σ τ} {I : Session σ τ → Prop}

theorem keeps_exceptSqlite {p : Act (Session σ τ) ε Unit}
    {handler : SqliteError → Act (Session σ τ) ε Unit}
    {Q R : Except ε Unit → Session σ τ → Prop} (hp : Keeps I p s Q)
    (hok : ∀ t, Q (.ok ()) t → R (.ok ()) t)
    (hsqlite : ∀ e t, Q (.error e) t → ∃ q, e = SqliteExc.ofSqlite q ∧ Keeps I (handler q) t R) :
    Keeps I (exceptSqlite p handler) s R := by
  refine keeps_tryCatch hp (fun _ t h => hok t h) fun e t h => ?_
  obtain ⟨q, rfl, hkeeps⟩ := hsqlite e t h
  simpa using hkeeps

/-- A statement that raises leaves the store as it is, and its transaction or none. -/
theorem keeps_statement {run : Prog.Conn σ → Except SqliteError (Prog.Conn σ)}
    {Q : Except ε Unit → Session σ τ → Prop}
    (hraises : ∀ e rolledBack, s.answers.head? = some (.raises e rolledBack) →
      ∀ w, (w = none ∨ w = s.conn.working) →
      let t := { s with conn := { s.conn with working := w }, answers := s.answers.tail }
      I t ∧ Q (.error (SqliteExc.ofSqlite e)) t)
    (hruns : ¬ s.NextRaises → match run s.conn with
      | .ok conn =>
        let t := { s with conn := conn, answers := s.answers.tail }
        I t ∧ Q (.ok ()) t
      | .error e =>
        let t := { s with answers := s.answers.tail }
        I t ∧ Q (.error (SqliteExc.ofSqlite e)) t) :
    Keeps I (statement run) s Q := by
  have hstep (r : Except SqliteError Unit × Prog.Conn σ)
      (hr : answered s.answers.head? run s.conn = r)
      (h : let t := { s with conn := r.2, answers := s.answers.tail }
        I t ∧ Q (r.1.mapError SqliteExc.ofSqlite) t) : Keeps I (statement run) s Q := by
    subst hr
    exact keeps_step h.1 h.2
  by_cases hnext : s.NextRaises
  · obtain ⟨e, rolledBack, hhead⟩ := hnext
    have hraised := hraises e rolledBack hhead
    refine hstep _ rfl ?_
    rw [hhead]
    cases rolledBack with
    | true => exact hraised none (.inl rfl)
    | false => exact hraised s.conn.working (.inr rfl)
  · have hrun : answered s.answers.head? run s.conn = match run s.conn with
        | .ok conn => (.ok (), conn)
        | .error e => (.error e, s.conn) := by
      unfold answered
      split
      · rename_i e rolledBack hhead
        exact absurd ⟨e, rolledBack, hhead⟩ hnext
      · rfl
    have h := hruns hnext
    cases hconn : run s.conn with
    | ok conn =>
      rw [hconn] at hrun h
      exact hstep _ hrun h
    | error e =>
      rw [hconn] at hrun h
      exact hstep _ hrun h

theorem keeps_quietRollback {Q : Except ε Unit → Session σ τ → Prop}
    (h : let t := { s with conn := { s.conn with working := none } }; I t ∧ Q (.ok ()) t) :
    Keeps I (quietRollback : Act (Session σ τ) ε Unit) s Q := by
  refine keeps_exceptSqlite (Q := fun r t => (r = .ok () ∨ r = .error (SqliteExc.ofSqlite
    .operationalError)) ∧ t = { s with conn := { s.conn with working := none } }) ?_ ?_ ?_
  · refine keeps_step h.1 ⟨?_, rfl⟩
    dsimp only
    split
    · exact .inl rfl
    · exact .inr rfl
  · rintro t ⟨-, rfl⟩
    exact h.2
  · rintro e t ⟨he, rfl⟩
    refine ⟨.operationalError, by simpa using he, keeps_pure h.2⟩

/-- A failure path: the transaction is dropped and `e` raised. -/
theorem keeps_rollback_throw {e : ε} {Q : Except ε Unit → Session σ τ → Prop}
    (h : let t := { s with conn := { s.conn with working := none } }; I t ∧ Q (.error e) t) :
    Keeps I (do quietRollback; throw e) s Q := by
  refine keeps_bind (Q := fun r t => r = .ok () ∧
    t = { s with conn := { s.conn with working := none } }) ?_ ?_ ?_
  · exact keeps_quietRollback ⟨h.1, rfl, rfl⟩
  · intro a t ht
    rw [ht.2]
    exact keeps_throw h.2
  · intro e' t ht
    cases ht.1

variable {J : σ → τ → Prop}

theorem keeps_begin {e : ε} {Q : Except ε Unit → Session σ τ → Prop}
    (hs : s.conn.working = none) (hJ : J s.conn.db s.own)
    (hraises : s.NextRaises → Q (.error e) { s with answers := s.answers.tail })
    (hruns : ¬ s.NextRaises → Q (.ok ())
      { s with conn := ⟨s.conn.db, some s.conn.db⟩, answers := s.answers.tail }) :
    Keeps (fun t => J t.conn.db t.own) (exceptSqlite beginImmediate fun _ => throw e) s Q := by
  refine keeps_exceptSqlite (Q := fun r t =>
      (s.NextRaises ∧ (∃ q, r = .error (SqliteExc.ofSqlite q)) ∧
        t = { s with answers := s.answers.tail }) ∨
      (¬ s.NextRaises ∧ r = .ok () ∧
        t = { s with conn := ⟨s.conn.db, some s.conn.db⟩, answers := s.answers.tail }))
    (keeps_statement ?_ ?_) ?_ ?_
  · intro q rolledBack hhead w hw
    obtain rfl : w = s.conn.working := hw.elim (fun h => h.trans hs.symm) id
    exact ⟨hJ, .inl ⟨⟨q, rolledBack, hhead⟩, ⟨q, rfl⟩, rfl⟩⟩
  · intro hnext
    rw [hs]
    exact ⟨hJ, .inr ⟨hnext, rfl, rfl⟩⟩
  · rintro t (⟨-, ⟨q, hq⟩, -⟩ | ⟨hnext, -, rfl⟩)
    · cases hq
    · exact hruns hnext
  · rintro e' t (⟨hnext, ⟨q, hq⟩, rfl⟩ | ⟨-, h, -⟩)
    · exact ⟨q, by simpa using hq, keeps_throw (hraises hnext)⟩
    · cases h

/-- A statement on the data of an open transaction. -/
theorem keeps_execute {f : σ → Except SqliteError σ} {w : σ} (hs : s.conn.working = some w)
    (hJ : J s.conn.db s.own) :
    Keeps (fun t => J t.conn.db t.own) (execute f : Act (Session σ τ) ε Unit) s fun r t =>
      t.conn.db = s.conn.db ∧ t.own = s.own ∧ t.answers = s.answers.tail ∧
      ((r = .ok () ∧ ¬ s.NextRaises ∧ ∃ w', f w = .ok w' ∧ t.conn.working = some w') ∨
        ∃ e, r = .error (SqliteExc.ofSqlite e) ∧
          ((∃ rolledBack, s.answers.head? = some (.raises e rolledBack)) ∨
            (¬ s.NextRaises ∧ f w = .error e))) := by
  refine keeps_statement ?_ ?_
  · intro e rolledBack hhead w' _
    exact ⟨hJ, rfl, rfl, rfl, .inr ⟨e, rfl, .inl ⟨rolledBack, hhead⟩⟩⟩
  · intro hnext
    rw [hs]
    dsimp only [Except.map]
    cases hf : f w with
    | ok w' => exact ⟨hJ, rfl, rfl, rfl, .inl ⟨rfl, hnext, w', rfl, rfl⟩⟩
    | error e => exact ⟨hJ, rfl, rfl, rfl, .inr ⟨e, rfl, .inr ⟨hnext, rfl⟩⟩⟩

theorem keeps_commit {e : ε} {w : σ} {Q : Except ε Unit → Session σ τ → Prop}
    (hw : s.conn.working = some w) (hJ : J s.conn.db s.own) (hJw : J w s.own)
    (hfailed : ∀ answers, Q (.error e) ⟨⟨s.conn.db, none⟩, answers, s.own⟩)
    (hdone : ∀ answers, Q (.ok ()) ⟨⟨w, none⟩, answers, s.own⟩) :
    Keeps (fun t => J t.conn.db t.own)
      (exceptSqlite commit fun _ => do quietRollback; throw e) s Q := by
  refine keeps_exceptSqlite (Q := fun r t => t.own = s.own ∧
      (((∃ q, r = .error (SqliteExc.ofSqlite q)) ∧ t.conn.db = s.conn.db) ∨
      (r = .ok () ∧ t.conn = ⟨w, none⟩))) (keeps_statement ?_ ?_) ?_ ?_
  · intro q _ _ w' _
    exact ⟨hJ, rfl, .inl ⟨⟨q, rfl⟩, rfl⟩⟩
  · intro _
    rw [hw]
    exact ⟨hJw, rfl, .inr ⟨rfl, rfl⟩⟩
  · rintro ⟨conn, answers, own⟩ ⟨hown, ⟨⟨q, hq⟩, -⟩ | ⟨-, hconn⟩⟩
    · cases hq
    · obtain rfl : own = s.own := hown
      obtain rfl : conn = ⟨w, none⟩ := hconn
      exact hdone answers
  · rintro e' ⟨conn, answers, own⟩ ⟨hown, ⟨⟨q, hq⟩, hdb⟩ | ⟨h, -⟩⟩
    · obtain rfl : own = s.own := hown
      have hdb : conn.db = s.conn.db := hdb
      refine ⟨q, by simpa using hq, keeps_rollback_throw ⟨?_, ?_⟩⟩
      · simpa [hdb] using hJ
      · simpa [hdb] using hfailed answers
    · cases h

/-- How a bracket ends whose body ends as `B` says. -/
inductive Ended (s : Session σ τ) (beginFailed commitFailed : ε)
    (B : Except ε Unit → Session σ τ → Prop) : Except ε Unit → σ → Prop where
  | notBegun (hnext : s.NextRaises) : Ended s beginFailed commitFailed B
      (.error beginFailed) s.conn.db
  | failed {e : ε} {u : Session σ τ} (hnext : ¬ s.NextRaises) (hu : B (.error e) u) :
      Ended s beginFailed commitFailed B (.error e) s.conn.db
  | notCommitted {u : Session σ τ} (hnext : ¬ s.NextRaises) (hu : B (.ok ()) u) :
      Ended s beginFailed commitFailed B (.error commitFailed) s.conn.db
  | committed {u : Session σ τ} {w : σ} (hnext : ¬ s.NextRaises) (hu : B (.ok ()) u)
      (hw : u.conn.working = some w) : Ended s beginFailed commitFailed B (.ok ()) w

/-- The bracket commits what its body made or nothing, at one moment, and leaves no transaction. -/
theorem keeps_transaction {beginFailed commitFailed : ε} {body : Act (Session σ τ) ε Unit}
    {B : Except ε Unit → Session σ τ → Prop}
    (hs : s.conn.working = none) (hJ : J s.conn.db s.own)
    (hbody : ¬ s.NextRaises → Keeps (fun t => J t.conn.db t.own) body
      { s with conn := ⟨s.conn.db, some s.conn.db⟩, answers := s.answers.tail } B)
    (hsame : ∀ r t, B r t → t.conn.db = s.conn.db ∧ t.own = s.own)
    (hok : ∀ t, B (.ok ()) t → ∃ w, t.conn.working = some w ∧ J w s.own) :
    Keeps (fun t => J t.conn.db t.own) (transaction beginFailed commitFailed body) s fun r t =>
      t.conn.working = none ∧ t.own = s.own ∧ Ended s beginFailed commitFailed B r t.conn.db := by
  refine keeps_bind (Q := fun r t => (s.NextRaises ∧ r = .error beginFailed ∧
      t = { s with answers := s.answers.tail }) ∨ (¬ s.NextRaises ∧ r = .ok () ∧
      t = { s with conn := ⟨s.conn.db, some s.conn.db⟩, answers := s.answers.tail }))
    (keeps_begin hs hJ ?_ ?_) ?_ ?_
  · intro hnext
    exact .inl ⟨hnext, rfl, rfl⟩
  · intro hnext
    exact .inr ⟨hnext, rfl, rfl⟩
  · rintro a t (⟨-, h, -⟩ | ⟨hnext, -, rfl⟩)
    · cases h
    refine keeps_bind (Q := fun r t => (∃ e u, r = .error e ∧ B (.error e) u ∧
        t.own = s.own ∧ t.conn = ⟨s.conn.db, none⟩) ∨ (r = .ok () ∧ B (.ok ()) t))
      (keeps_tryCatch (hbody hnext) ?_ ?_) ?_ ?_
    · intro a u hu
      exact .inr ⟨rfl, hu⟩
    · intro e u hu
      obtain ⟨hdb, hown⟩ := hsame _ _ hu
      refine keeps_rollback_throw ⟨?_, .inl ⟨e, u, rfl, hu, hown, ?_⟩⟩
      · simpa [hdb, hown] using hJ
      · simp [hdb]
    · rintro a u (⟨e, v, h, -⟩ | ⟨-, hu⟩)
      · cases h
      obtain ⟨hdb, hown⟩ := hsame _ _ hu
      obtain ⟨w, hw, hJw⟩ := hok u hu
      refine keeps_commit hw ?_ ?_ ?_ ?_
      · simpa [hdb, hown] using hJ
      · simpa [hown] using hJw
      · intro answers
        refine ⟨rfl, hown, ?_⟩
        rw [hdb]
        exact .notCommitted hnext hu
      · intro answers
        exact ⟨rfl, hown, .committed hnext hu hw⟩
    · rintro e u (⟨e', v, h, hv, hown, hconn⟩ | ⟨h, -⟩)
      · obtain rfl : e = e' := by simpa using h
        exact ⟨by rw [hconn], hown, by rw [hconn]; exact .failed hnext hv⟩
      · cases h
  · rintro e t (⟨hnext, he, rfl⟩ | ⟨-, h, -⟩)
    · obtain rfl : e = beginFailed := by simpa using he
      exact ⟨hs, rfl, .notBegun hnext⟩
    · cases h

end Rules

end Sqlite
end ParallaxKernel.Lib
