import ParallaxKernel.Lib.Transaction

/-!
# Statements that fail

A program alone on its connection, with an engine that may fail any of its statements and commits. A
program that is safe while nobody else writes meets its postcondition whatever fails.
-/

namespace ParallaxKernel.Lib.Prog

variable {σ ε α β : Type}

/-- A connection, and for each of its next statements the error that the engine has for it. -/
structure Faulty (σ ε : Type) where
  conn : Conn σ
  faults : List (Option ε)

namespace Faulty

def fault (s : Faulty σ ε) : Option ε := s.faults.head?.join

/-- The connection after a statement. -/
def next (s : Faulty σ ε) (conn : Conn σ) : Faulty σ ε := ⟨conn, s.faults.tail⟩

end Faulty

def execFaulty : Prog σ ε α → Faulty σ ε → Except ε α × Faulty σ ε
  | done r, s => (r, s)
  | select k, s =>
    match s.fault with
    | some e => (k (.error e)).execFaulty (s.next s.conn)
    | none => (k (.ok s.conn.view)).execFaulty (s.next s.conn)
  | execute f k, s =>
    match s.fault with
    | some e => (k (.error e)).execFaulty (s.next s.conn)
    | none =>
      match f s.conn.view with
      | .ok (v, n) => (k (.ok n)).execFaulty (s.next { s.conn with working := some v })
      | .error e =>
        (k (.error e)).execFaulty (s.next { s.conn with working := some s.conn.view })
  | commit k, s =>
    match s.conn.working, s.fault with
    | some _, some e => (k (.error e)).execFaulty (s.next s.conn)
    | _, _ => (k (.ok ())).execFaulty (s.next ⟨s.conn.view, none⟩)
  | rollback k, s => k.execFaulty { s with conn := { s.conn with working := none } }

theorem execFaulty_andThen (p : Prog σ ε α) (k : Except ε α → Prog σ ε β) (s : Faulty σ ε) :
    (p.andThen k).execFaulty s = (k (p.execFaulty s).1).execFaulty (p.execFaulty s).2 := by
  induction p generalizing s with
  | done r => rfl
  | select m ih =>
    simp only [andThen, execFaulty]
    cases s.fault with
    | some e => exact ih _ _
    | none => exact ih _ _
  | execute f m ih =>
    simp only [andThen, execFaulty]
    cases s.fault with
    | some e => exact ih _ _
    | none =>
      cases f s.conn.view with
      | ok r => exact ih _ _
      | error e => exact ih _ _
  | commit m ih =>
    simp only [andThen, execFaulty]
    cases s.conn.working with
    | none => exact ih _ _
    | some v =>
      cases s.fault with
      | some e => exact ih _ _
      | none => exact ih _ _
  | rollback p ih => exact ih _

@[simp] theorem execFaulty_pure (a : α) (s : Faulty σ ε) :
    (pure a : Prog σ ε α).execFaulty s = (.ok a, s) := rfl

@[simp] theorem execFaulty_raise (e : ε) (s : Faulty σ ε) :
    (raise e : Prog σ ε α).execFaulty s = (.error e, s) := rfl

theorem execFaulty_bind (p : Prog σ ε α) (k : α → Prog σ ε β) (s : Faulty σ ε) :
    (p >>= k).execFaulty s = match p.execFaulty s with
      | (.ok a, s') => (k a).execFaulty s'
      | (.error e, s') => (.error e, s') := by
  rw [bind_def, execFaulty_andThen]
  rcases p.execFaulty s with ⟨r | a, s'⟩ <;> rfl

/-- Without faults a program runs as it does alone. -/
theorem execFaulty_nil (p : Prog σ ε α) (c : Conn σ) :
    p.execFaulty ⟨c, []⟩ = ((p.exec c).1, ⟨(p.exec c).2, []⟩) := by
  induction p generalizing c with
  | done r => rfl
  | select m ih => exact ih _ _
  | execute f m ih =>
    simp only [execFaulty, exec, Faulty.fault, List.head?_nil, Option.join_none]
    cases f c.view with
    | ok r => exact ih _ _
    | error e => exact ih _ _
  | commit m ih =>
    simp only [execFaulty, exec, Faulty.fault, List.head?_nil, Option.join_none]
    cases c.working with
    | none => exact ih _ _
    | some v => exact ih _ _
  | rollback p ih => exact ih _

/-! ## Programs that leave no transaction open -/

/-- Started on a connection without a transaction the program leaves none and meets `Q`, whatever
fails. -/
def Ends (p : Prog σ ε α) (db : σ) (Q : Except ε α → σ → Prop) : Prop :=
  ∀ faults, ∃ r db' faults', p.execFaulty ⟨⟨db, none⟩, faults⟩ = (r, ⟨⟨db', none⟩, faults'⟩) ∧ Q r db'

section Ends

variable {db : σ} {Q : Except ε α → σ → Prop}

theorem Ends.mono {Q' : Except ε α → σ → Prop} {p : Prog σ ε α} (h : p.Ends db Q)
    (hQ : ∀ r b, Q r b → Q' r b) : p.Ends db Q' := by
  intro faults
  obtain ⟨r, db', faults', hrun, hr⟩ := h faults
  exact ⟨r, db', faults', hrun, hQ r db' hr⟩

theorem ends_done {r : Except ε α} (h : Q r db) : (done r).Ends db Q :=
  fun faults => ⟨r, db, faults, rfl, h⟩

theorem ends_query {q : σ → α} (hok : Q (.ok (q db)) db) (herror : ∀ e, Q (.error e) db) :
    (query q).Ends db Q := by
  intro faults
  unfold query
  simp only [execFaulty]
  cases Faulty.fault ⟨(⟨db, none⟩ : Conn σ), faults⟩ with
  | some e => exact ⟨_, db, faults.tail, rfl, herror e⟩
  | none => exact ⟨_, db, faults.tail, rfl, hok⟩

theorem ends_bind {p : Prog σ ε β} {k : β → Prog σ ε α} {P : Except ε β → σ → Prop}
    (hp : p.Ends db P) (hok : ∀ a b, P (.ok a) b → (k a).Ends b Q)
    (herror : ∀ e b, P (.error e) b → Q (.error e) b) : (p >>= k).Ends db Q := by
  intro faults
  obtain ⟨r, db', faults', hrun, hr⟩ := hp faults
  rw [execFaulty_bind, hrun]
  cases r with
  | error e => exact ⟨_, db', faults', rfl, herror e db' hr⟩
  | ok a => exact hok a db' hr faults'

/-- A block of one write statement has its effect, or raises and has none. -/
theorem ends_withConn_write {Q : Except ε Unit → σ → Prop} {f : σ → Except ε (σ × Nat)}
    (hok : ∀ v n, f db = .ok (v, n) → Q (.ok ()) v) (herror : ∀ e, Q (.error e) db) :
    (withConn do
      let _ ← write f
      pure () : Prog σ ε Unit).Ends db Q := by
  intro faults
  rw [withConn, execFaulty_andThen, execFaulty_bind, write]
  simp only [execFaulty]
  cases Faulty.fault ⟨(⟨db, none⟩ : Conn σ), faults⟩ with
  | some e => exact ⟨.error e, db, faults.tail, rfl, herror e⟩
  | none =>
    simp only [Conn.view, Option.getD_none]
    cases hf : f db with
    | error e => exact ⟨.error e, db, faults.tail, rfl, herror e⟩
    | ok r =>
      obtain ⟨v, n⟩ := r
      simp only [execFaulty_pure, closing, execFaulty, Faulty.next]
      cases Faulty.fault ⟨({ db := db, working := some v } : Conn σ), faults.tail⟩ with
      | some e => exact ⟨.error e, db, faults.tail.tail, rfl, herror e⟩
      | none => exact ⟨.ok (), v, faults.tail.tail, rfl, hok v n hf⟩

end Ends

end ParallaxKernel.Lib.Prog
