import Mathlib.Tactic.Common

/-!
# Programs over a transactional store

A program runs SQL statements on one connection. The first write of a connection opens a
transaction on a working copy of the store; `commit` publishes the copy and `rollback` drops it.
A statement or a commit can fail, and the program is told so. `Prog.exec` runs a program alone.
`Sys.step` interleaves any number of programs, each on a connection of its own, with one open
write transaction at a time.

`Prog.Safe` is the proof rule for one program among others. It looks at each transaction on its
own: what the program may rely on between its transactions, and what each of its commits must
guarantee. `Sys.Run.sound` is its soundness: the commits of a run form a sequence of atomic steps.
-/

namespace ParallaxKernel.Lib

/-- A program on one connection over a store `σ`, ending with a result `α` or an exception `ε`.
A write statement reports the number of rows it touched. -/
inductive Prog (σ ε α : Type) where
  | done (r : Except ε α)
  | select (k : Except ε σ → Prog σ ε α)
  | execute (f : σ → Except ε (σ × Nat)) (k : Except ε Nat → Prog σ ε α)
  | commit (k : Except ε Unit → Prog σ ε α)
  | rollback (k : Prog σ ε α)

namespace Prog

variable {σ ε α β γ : Type}

/-- How a program that has ended did. -/
def result : Prog σ ε α → Option (Except ε α)
  | done r => some r
  | _ => none

theorem result_eq_some {p : Prog σ ε α} {r : Except ε α} : p.result = some r ↔ p = done r := by
  cases p <;> simp [result]

/-- Runs `k` on how `p` ended. -/
def andThen : Prog σ ε α → (Except ε α → Prog σ ε β) → Prog σ ε β
  | done r, k => k r
  | select l, k => select fun r => (l r).andThen k
  | execute f l, k => execute f fun r => (l r).andThen k
  | commit l, k => commit fun r => (l r).andThen k
  | rollback p, k => rollback (p.andThen k)

/-- The rest of a program, skipped after an exception. -/
def onOk (k : α → Prog σ ε β) : Except ε α → Prog σ ε β
  | .ok a => k a
  | .error e => done (.error e)

@[simp] theorem onOk_ok (k : α → Prog σ ε β) (a : α) : onOk k (.ok a) = k a := rfl
@[simp] theorem onOk_error (k : α → Prog σ ε β) (e : ε) :
    onOk k (.error e) = done (.error e) := rfl

instance : Monad (Prog σ ε) where
  pure a := done (.ok a)
  bind p k := p.andThen (onOk k)

theorem pure_def (a : α) : (pure a : Prog σ ε α) = done (.ok a) := rfl
theorem bind_def (p : Prog σ ε α) (k : α → Prog σ ε β) : p >>= k = p.andThen (onOk k) := rfl

def raise (e : ε) : Prog σ ε α := done (.error e)

/-- A `SELECT`. -/
def query (q : σ → α) : Prog σ ε α :=
  select fun
    | .ok s => done (.ok (q s))
    | .error e => done (.error e)

/-- A write statement. -/
def write (f : σ → Except ε (σ × Nat)) : Prog σ ε Nat := execute f done

/-- The exit of a `with conn:` block. -/
def closing : Except ε α → Prog σ ε α
  | .ok a => commit fun
    | .ok () => done (.ok a)
    | .error e => rollback (done (.error e))
  | .error e => rollback (done (.error e))

/-- `with conn: body`: commit at a normal exit, roll back at an exception. -/
def withConn (body : Prog σ ε α) : Prog σ ε α := body.andThen closing

/-- A program whose result nobody reads. -/
def ignore (p : Prog σ ε α) : Prog σ ε Unit := do
  let _ ← p
  pure ()

theorem andThen_assoc (p : Prog σ ε α) (k : Except ε α → Prog σ ε β)
    (l : Except ε β → Prog σ ε γ) :
    (p.andThen k).andThen l = p.andThen fun r => (k r).andThen l := by
  induction p with
  | done r => rfl
  | select m ih => simp only [andThen, ih]
  | execute f m ih => simp only [andThen, ih]
  | commit m ih => simp only [andThen, ih]
  | rollback p ih => simp only [andThen, ih]

/-! ## One connection alone -/

/-- The store and the open transaction of a connection. -/
structure Conn (σ : Type) where
  db : σ
  working : Option σ

def Conn.view (c : Conn σ) : σ := c.working.getD c.db

/-- Runs a program that shares the store with nobody. -/
def exec : Prog σ ε α → Conn σ → Except ε α × Conn σ
  | done r, c => (r, c)
  | select k, c => (k (.ok c.view)).exec c
  | execute f k, c =>
    match f c.view with
    | .ok (v, n) => (k (.ok n)).exec { c with working := some v }
    | .error e => (k (.error e)).exec { c with working := some c.view }
  | commit k, c => (k (.ok ())).exec ⟨c.view, none⟩
  | rollback k, c => k.exec { c with working := none }

/-- The result of a call on a fresh connection and the store it leaves. -/
def run (p : Prog σ ε α) (db : σ) : Except ε α × σ :=
  let r := p.exec ⟨db, none⟩
  (r.1, r.2.db)

theorem exec_andThen (p : Prog σ ε α) (k : Except ε α → Prog σ ε β) (c : Conn σ) :
    (p.andThen k).exec c = (k (p.exec c).1).exec (p.exec c).2 := by
  induction p generalizing c with
  | done r => rfl
  | select m ih => simp only [andThen, exec, ih]
  | execute f m ih =>
    simp only [andThen, exec]
    cases hf : f c.view with
    | ok r => simp only [ih]
    | error e => simp only [ih]
  | commit m ih => simp only [andThen, exec, ih]
  | rollback p ih => simp only [andThen, exec, ih]

@[simp] theorem exec_pure (a : α) (c : Conn σ) :
    (pure a : Prog σ ε α).exec c = (.ok a, c) := rfl

@[simp] theorem exec_raise (e : ε) (c : Conn σ) :
    (raise e : Prog σ ε α).exec c = (.error e, c) := rfl

@[simp] theorem exec_query (q : σ → α) (c : Conn σ) :
    (query q : Prog σ ε α).exec c = (.ok (q c.view), c) := rfl

theorem exec_bind (p : Prog σ ε α) (k : α → Prog σ ε β) (c : Conn σ) :
    (p >>= k).exec c = match p.exec c with
      | (.ok a, c') => (k a).exec c'
      | (.error e, c') => (.error e, c') := by
  rw [bind_def, exec_andThen]
  rcases p.exec c with ⟨r | a, c'⟩ <;> rfl

theorem exec_write (f : σ → Except ε (σ × Nat)) (c : Conn σ) :
    (write f).exec c = match f c.view with
      | .ok (v, n) => (.ok n, { c with working := some v })
      | .error e => (.error e, { c with working := some c.view }) := by
  simp only [write, exec]

theorem exec_withConn (body : Prog σ ε α) (c : Conn σ) :
    (withConn body).exec c = match body.exec c with
      | (.ok a, c') => (.ok a, ⟨c'.view, none⟩)
      | (.error e, c') => (.error e, ⟨c'.db, none⟩) := by
  rw [withConn, exec_andThen]
  rcases body.exec c with ⟨r | a, c'⟩ <;> rfl

/-- How a block of one write statement ends, and the connection it leaves. -/
def Conn.wrote (c : Conn σ) (a : α) : Except ε (σ × Nat) → Except ε α × Conn σ
  | .ok (v, _) => (.ok a, ⟨v, none⟩)
  | .error e => (.error e, ⟨c.db, none⟩)

@[simp] theorem Conn.wrote_ok (c : Conn σ) (a : α) (v : σ) (n : Nat) :
    c.wrote a (.ok (v, n) : Except ε (σ × Nat)) = (.ok a, ⟨v, none⟩) := rfl

@[simp] theorem Conn.wrote_error (c : Conn σ) (a : α) (e : ε) :
    c.wrote a (.error e : Except ε (σ × Nat)) = (.error e, ⟨c.db, none⟩) := rfl

theorem exec_withConn_write (f : σ → Except ε (σ × Nat)) (c : Conn σ) :
    (withConn do
      let _ ← write f
      pure () : Prog σ ε Unit).exec c = c.wrote () (f c.view) := by
  simp only [exec_withConn, exec_bind, exec_write]
  rcases f c.view with e | ⟨v, n⟩ <;> rfl

/-! ## The proof rule -/

section Safe

variable (I : σ → Prop) (R : σ → σ → Prop) (F : List (σ × σ) → Prop)
  (G : List (σ × σ) → σ → σ → Prop)

/-- What a statement sees: the working copy of an open transaction, or a store `b` that the
others may have made of the last one seen. -/
def Sees (w : Option σ) (base b v : σ) : Prop :=
  match w with
  | some u => b = base ∧ v = u
  | none => I b ∧ R base b ∧ v = b

/-- `p`, started with working copy `w` on top of the store `base` and after the commits `h` of its
own, is safe whatever the other connections do within `R`: it leaves the invariant `I` and the
guarantee `G` at each commit, and ends in `Q`. A statement fails only where `F` lets it. -/
def Safe (Q : Except ε α → Option σ → σ → List (σ × σ) → Prop) :
    Prog σ ε α → Option σ → σ → List (σ × σ) → Prop
  | done r, w, base, h => Q r w base h
  | select k, w, base, h =>
    (∀ b v, Sees I R w base b v → (k (.ok v)).Safe Q w b h) ∧
      (F h → ∀ e, (k (.error e)).Safe Q w base h)
  | execute f k, w, base, h =>
    (∀ b v, Sees I R w base b v → match f v with
      | .ok (v', n) => (k (.ok n)).Safe Q (some v') b h
      | .error e => F h → (k (.error e)).Safe Q (some v) b h) ∧
      (F h → ∀ e, (k (.error e)).Safe Q w base h)
  | commit k, some v, base, h =>
    (I v ∧ G h base v ∧ (k (.ok ())).Safe Q none v (h ++ [(base, v)])) ∧
      (F h → ∀ e, (k (.error e)).Safe Q (some v) base h)
  | commit k, none, base, h => (k (.ok ())).Safe Q none base h
  | rollback k, _, base, h => k.Safe Q none base h

variable {I R F G}
variable {w : Option σ} {base : σ} {h : List (σ × σ)}

theorem safe_andThen {Q : Except ε β → Option σ → σ → List (σ × σ) → Prop}
    (p : Prog σ ε α) (k : Except ε α → Prog σ ε β) :
    (p.andThen k).Safe I R F G Q w base h ↔
      p.Safe I R F G (fun r w b h => (k r).Safe I R F G Q w b h) w base h := by
  induction p generalizing w base h with
  | done r => rfl
  | select m ih => simp only [andThen, Safe, ih]
  | execute f m ih => simp only [andThen, Safe, ih]
  | commit m ih => cases w <;> simp only [andThen, Safe, ih]
  | rollback p ih => simp only [andThen, Safe, ih]

theorem Safe.mono {Q Q' : Except ε α → Option σ → σ → List (σ × σ) → Prop}
    (hQ : ∀ r w b h, Q r w b h → Q' r w b h) {p : Prog σ ε α}
    (hp : p.Safe I R F G Q w base h) : p.Safe I R F G Q' w base h := by
  induction p generalizing w base h with
  | done r => exact hQ _ _ _ _ hp
  | select m ih => exact ⟨fun b v hs => ih _ (hp.1 b v hs), fun hf e => ih _ (hp.2 hf e)⟩
  | execute f m ih =>
    refine ⟨fun b v hs => ?_, fun hf e => ih _ (hp.2 hf e)⟩
    have hv := hp.1 b v hs
    cases hfv : f v with
    | ok r =>
      simp only [hfv] at hv ⊢
      exact ih _ hv
    | error e =>
      simp only [hfv] at hv ⊢
      exact fun hf => ih _ (hv hf)
  | commit m ih =>
    cases w with
    | some v =>
      exact ⟨⟨hp.1.1, hp.1.2.1, ih _ hp.1.2.2⟩, fun hf e => ih _ (hp.2 hf e)⟩
    | none => exact ih _ hp
  | rollback p ih => exact ih hp

variable {Q : Except ε α → Option σ → σ → List (σ × σ) → Prop}

@[simp] theorem safe_pure (a : α) :
    (pure a : Prog σ ε α).Safe I R F G Q w base h ↔ Q (.ok a) w base h := Iff.rfl

@[simp] theorem safe_raise (e : ε) :
    (raise e : Prog σ ε α).Safe I R F G Q w base h ↔ Q (.error e) w base h := Iff.rfl

theorem safe_query (q : σ → α) :
    (query q : Prog σ ε α).Safe I R F G Q w base h ↔
      (∀ b v, Sees I R w base b v → Q (.ok (q v)) w b h) ∧
        (F h → ∀ e, Q (.error e) w base h) := Iff.rfl

theorem safe_bind {Q : Except ε β → Option σ → σ → List (σ × σ) → Prop}
    (p : Prog σ ε α) (k : α → Prog σ ε β) :
    (p >>= k).Safe I R F G Q w base h ↔
      p.Safe I R F G (fun r w b h => match r with
        | .ok a => (k a).Safe I R F G Q w b h
        | .error e => Q (.error e) w b h) w base h := by
  rw [bind_def, safe_andThen]
  constructor
  all_goals
    refine Safe.mono fun r w b h hr => ?_
    cases r <;> exact hr

theorem safe_ignore {Q : Except ε Unit → Option σ → σ → List (σ × σ) → Prop}
    (p : Prog σ ε α) : (ignore p).Safe I R F G Q w base h ↔
      p.Safe I R F G (fun r => Q (r.map fun _ => ())) w base h := by
  rw [ignore, safe_bind]
  constructor
  all_goals
    refine Safe.mono fun r w b h hr => ?_
    cases r <;> exact hr

theorem safe_write {Q : Except ε Nat → Option σ → σ → List (σ × σ) → Prop}
    (f : σ → Except ε (σ × Nat)) :
    (write f).Safe I R F G Q w base h ↔
      (∀ b v, Sees I R w base b v → match f v with
        | .ok (v', n) => Q (.ok n) (some v') b h
        | .error e => F h → Q (.error e) (some v) b h) ∧
        (F h → ∀ e, Q (.error e) w base h) := Iff.rfl

/-- What has to hold when a `with conn:` block is left, its commit succeeding or failing. -/
def Closes (I : σ → Prop) (F : List (σ × σ) → Prop) (G : List (σ × σ) → σ → σ → Prop)
    (Q : Except ε α → Option σ → σ → List (σ × σ) → Prop) :
    Except ε α → Option σ → σ → List (σ × σ) → Prop
  | .ok a, some v, base, h =>
    (I v ∧ G h base v ∧ Q (.ok a) none v (h ++ [(base, v)])) ∧
      (F h → ∀ e, Q (.error e) none base h)
  | .ok a, none, base, h => Q (.ok a) none base h
  | .error e, _, base, h => Q (.error e) none base h

theorem safe_withConn (body : Prog σ ε α) :
    (withConn body).Safe I R F G Q w base h ↔ body.Safe I R F G (Closes I F G Q) w base h := by
  rw [withConn, safe_andThen]
  constructor
  all_goals
    refine Safe.mono fun r w b h hr => ?_
    cases r <;> cases w <;> exact hr

/-- A block of one write statement is safe if its commit is and its failure is. -/
theorem safe_withConn_write {Q : Except ε Unit → Option σ → σ → List (σ × σ) → Prop}
    {f : σ → Except ε (σ × Nat)}
    (hok : ∀ b v, Sees I R w base b v → ∀ v' n, f v = .ok (v', n) →
      I v' ∧ G h b v' ∧ Q (.ok ()) none v' (h ++ [(b, v')]))
    (hfail : F h → ∀ b e, Q (.error e) none b h) :
    (withConn do
      let _ ← write f
      pure () : Prog σ ε Unit).Safe I R F G Q w base h := by
  rw [safe_withConn, safe_bind, safe_write]
  refine ⟨fun b v hs => ?_, fun hf e => hfail hf base e⟩
  cases hv : f v with
  | ok r => exact ⟨hok b v hs r.1 r.2 hv, fun hf e => hfail hf b e⟩
  | error e => exact fun hf => hfail hf b e

theorem Sees.trans {b b' v v' : σ} (htrans : ∀ {a b c}, R a b → R b c → R a c)
    (hs : Sees I R w base b v) (hs' : Sees I R w b b' v') : Sees I R w base b' v' := by
  cases w with
  | some u => exact ⟨hs'.1.trans hs.1, hs'.2⟩
  | none => exact ⟨hs'.1, htrans hs.2.1 hs'.2.1, hs'.2.2⟩

end Safe

end Prog

/-! ## Many connections -/

/-- How a step ends: as the statement itself does, with an error of the engine (a lock held by
another connection, a full disk), or with the death of the process. -/
inductive Outcome (ε : Type) where
  | goes
  | fails (e : ε)
  | crashes

/-- Any number of connections over one store. `writer` is the one open write transaction, and
`history` lists the commits, each with its client and the store before and after. -/
structure Sys (ι σ ε α : Type) where
  db : σ
  writer : Option (ι × σ)
  history : List (ι × σ × σ)
  prog : ι → Option (Prog σ ε α)

/-- The commits of one client. -/
def commitsOf {ι σ : Type} [DecidableEq ι] (i : ι) (H : List (ι × σ × σ)) : List (σ × σ) :=
  (H.filter (·.1 = i)).map (·.2)

namespace Sys

variable {ι σ ε α : Type} [DecidableEq ι]

def start (db : σ) (p : ι → Prog σ ε α) : Sys ι σ ε α :=
  ⟨db, none, [], fun i => some (p i)⟩

/-- The working copy of a client's open transaction. -/
def working (s : Sys ι σ ε α) (i : ι) : Option σ :=
  s.writer.bind fun w => if w.1 = i then some w.2 else none

def view (s : Sys ι σ ε α) (i : ι) : σ := (s.working i).getD s.db

/-- The open transaction, unless it is the client's. -/
def writerBut (s : Sys ι σ ε α) (i : ι) : Option (ι × σ) :=
  s.writer.filter (·.1 ≠ i)

def goOn (s : Sys ι σ ε α) (i : ι) (p : Prog σ ε α) : ι → Option (Prog σ ε α) :=
  fun j => if j = i then some p else s.prog j

/-- One step of client `i`. A write waits while another client's transaction is open. A commit
without an open transaction does nothing and cannot fail. -/
def step (s : Sys ι σ ε α) (i : ι) (o : Outcome ε) : Option (Sys ι σ ε α) :=
  match s.prog i, o with
  | none, _ => none
  | some (.done _), _ => none
  | some _, .crashes =>
    some { s with writer := s.writerBut i, prog := fun j => if j = i then none else s.prog j }
  | some (.select k), .goes => some { s with prog := s.goOn i (k (.ok (s.view i))) }
  | some (.select k), .fails e => some { s with prog := s.goOn i (k (.error e)) }
  | some (.execute f k), .goes =>
    if s.writerBut i = none then
      match f (s.view i) with
      | .ok (v, n) => some { s with writer := some (i, v), prog := s.goOn i (k (.ok n)) }
      | .error e => some { s with writer := some (i, s.view i), prog := s.goOn i (k (.error e)) }
    else none
  | some (.execute _ k), .fails e => some { s with prog := s.goOn i (k (.error e)) }
  | some (.commit k), .goes =>
    match s.working i with
    | some v =>
      some ⟨v, none, s.history ++ [(i, s.db, v)], s.goOn i (k (.ok ()))⟩
    | none => some { s with prog := s.goOn i (k (.ok ())) }
  | some (.commit k), .fails e =>
    (s.working i).map fun _ => { s with prog := s.goOn i (k (.error e)) }
  | some (.rollback k), .goes => some { s with writer := s.writerBut i, prog := s.goOn i k }
  | some (.rollback _), .fails _ => none

/-- The step gives client `i` an exception. -/
def Failing (s : Sys ι σ ε α) (i : ι) : Outcome ε → Prop
  | .fails _ => True
  | .crashes => False
  | .goes => ∃ f k e, s.prog i = some (.execute f k) ∧ f (s.view i) = .error e

/-- The states that steps reach from `s₀`, where a step of client `i` fails only as `F i` lets it
after the commits it has made. -/
inductive Run (F : ι → List (σ × σ) → Prop) (s₀ : Sys ι σ ε α) : Sys ι σ ε α → Prop where
  | start : Run F s₀ s₀
  | step {s s' : Sys ι σ ε α} {i : ι} {o : Outcome ε} (hrun : Run F s₀ s)
    (hfail : s.Failing i o → F i (commitsOf i s.history)) (hstep : s.step i o = some s') :
    Run F s₀ s'

/-- Runs a schedule. -/
def play (s : Sys ι σ ε α) : List (ι × Outcome ε) → Option (Sys ι σ ε α)
  | [] => some s
  | (i, o) :: rest => (s.step i o).bind (·.play rest)

theorem run_play {F : ι → List (σ × σ) → Prop} (hF : ∀ i h, F i h) {s₀ s s' : Sys ι σ ε α}
    {sched : List (ι × Outcome ε)} (hrun : Run F s₀ s) (h : s.play sched = some s') :
    Run F s₀ s' := by
  induction sched generalizing s with
  | nil =>
    obtain rfl : s = s' := by simpa [play] using h
    exact hrun
  | cons a rest ih =>
    obtain ⟨i, o⟩ := a
    simp only [play, Option.bind_eq_some_iff] at h
    obtain ⟨t, ht, hrest⟩ := h
    exact ih (hrun.step (fun _ => hF i _) ht) hrest

end Sys

/-- A sequence of atomic commits from `a` to the last store, each within `G` after the earlier
ones of its client. -/
inductive Commits {ι σ : Type} [DecidableEq ι] (G : ι → List (σ × σ) → σ → σ → Prop) (a : σ) :
    List (ι × σ × σ) → σ → Prop where
  | nil : Commits G a [] a
  | snoc {H : List (ι × σ × σ)} {b c : σ} {i : ι} (hH : Commits G a H b)
    (hG : G i (commitsOf i H) b c) : Commits G a (H ++ [(i, b, c)]) c

theorem Commits.mono {ι σ : Type} [DecidableEq ι] {G G' : ι → List (σ × σ) → σ → σ → Prop}
    (hG : ∀ i h b c, G i h b c → G' i h b c) {a b : σ} {H : List (ι × σ × σ)}
    (hH : Commits G a H b) : Commits G' a H b := by
  induction hH with
  | nil => exact .nil
  | snoc _ hstep ih => exact ih.snoc (hG _ _ _ _ hstep)

/-! ### Safe clients together -/

namespace Sys

variable {ι σ ε α : Type} [DecidableEq ι]

/-- The contract of the clients `p` over a store that starts as `db₀`. -/
structure Contract (I : σ → Prop) (R : σ → σ → Prop) (F : ι → List (σ × σ) → Prop)
    (G : ι → List (σ × σ) → σ → σ → Prop)
    (Q : ι → Except ε α → Option σ → σ → List (σ × σ) → Prop)
    (db₀ : σ) (p : ι → Prog σ ε α) : Prop where
  refl : ∀ a, R a a
  trans : ∀ {a b c}, R a b → R b c → R a c
  rely : ∀ {i h a b}, I a → I b → G i h a b → R a b
  init : I db₀
  safe : ∀ i, (p i).Safe I R (F i) (G i) (Q i) none db₀ []

/-- What a client knows of the store under its transaction. -/
def Knows (R : σ → σ → Prop) (s : Sys ι σ ε α) (i : ι) (base : σ) : Prop :=
  match s.working i with
  | some _ => base = s.db
  | none => R base s.db

structure Good (I : σ → Prop) (R : σ → σ → Prop) (F : ι → List (σ × σ) → Prop)
    (G : ι → List (σ × σ) → σ → σ → Prop)
    (Q : ι → Except ε α → Option σ → σ → List (σ × σ) → Prop)
    (db₀ : σ) (s : Sys ι σ ε α) : Prop where
  inv : I s.db
  commits : Commits (fun i h a b => I a ∧ I b ∧ G i h a b) db₀ s.history s.db
  client : ∀ i p, s.prog i = some p → ∃ base, s.Knows R i base ∧
    p.Safe I R (F i) (G i) (Q i) (s.working i) base (commitsOf i s.history)

variable {I : σ → Prop} {R : σ → σ → Prop} {F : ι → List (σ × σ) → Prop}
  {G : ι → List (σ × σ) → σ → σ → Prop}
  {Q : ι → Except ε α → Option σ → σ → List (σ × σ) → Prop}
  {db₀ : σ} {p : ι → Prog σ ε α} {s s' : Sys ι σ ε α} {i : ι} {o : Outcome ε}

theorem Knows.sees {base : σ} (hk : s.Knows R i base) (hinv : I s.db) :
    Prog.Sees I R (s.working i) base s.db (s.view i) := by
  unfold Knows at hk
  unfold Prog.Sees view
  cases hw : s.working i with
  | some u =>
    simp only [hw] at hk
    exact ⟨hk.symm, rfl⟩
  | none =>
    simp only [hw] at hk
    exact ⟨hinv, hk, rfl⟩

@[simp] theorem goOn_self (p : Prog σ ε α) : s.goOn i p i = some p := by simp [goOn]

theorem goOn_of_ne (p : Prog σ ε α) {j : ι} (hj : j ≠ i) : s.goOn i p j = s.prog j := by
  simp [goOn, hj]

theorem working_eq_none {j : ι} (h : s.writerBut i = none) (hj : j ≠ i) : s.working j = none := by
  unfold writerBut at h
  unfold working
  cases hw : s.writer with
  | none => rfl
  | some w =>
    simp only [hw, Option.filter_eq_none_iff, Option.some.injEq] at h
    have hi : w.1 = i := by simpa using h w rfl
    have hne : w.1 ≠ j := by
      rintro rfl
      exact hj hi
    simp [hne]

theorem writerBut_of_working {v : σ} (h : s.working i = some v) : s.writerBut i = none := by
  unfold working at h
  unfold writerBut
  cases hw : s.writer with
  | none => simp [hw] at h
  | some w =>
    by_cases hi : w.1 = i
    · simp [Option.filter, hi]
    · simp [hw, hi] at h

theorem Good.others (hs : Good I R F G Q db₀ s) (hc : Contract I R F G Q db₀ p) (hinv : I s'.db)
    (hcommits : Commits (fun i h a b => I a ∧ I b ∧ G i h a b) db₀ s'.history s'.db)
    (hprog : ∀ j, j ≠ i → s'.prog j = s.prog j)
    (hworking : ∀ j, j ≠ i → s'.working j = s.working j)
    (hown : ∀ j, j ≠ i → commitsOf j s'.history = commitsOf j s.history)
    (hdb : s'.db = s.db ∨ R s.db s'.db ∧ ∀ j, j ≠ i → s.working j = none)
    (hself : ∀ p, s'.prog i = some p → ∃ base, s'.Knows R i base ∧
      p.Safe I R (F i) (G i) (Q i) (s'.working i) base (commitsOf i s'.history)) :
    Good I R F G Q db₀ s' := by
  refine ⟨hinv, hcommits, fun j q hq => ?_⟩
  by_cases hj : j = i
  · subst hj
    exact hself q hq
  · rw [hprog j hj] at hq
    obtain ⟨base, hk, hsafe⟩ := hs.client j q hq
    refine ⟨base, ?_, by rwa [hworking j hj, hown j hj]⟩
    unfold Knows at hk ⊢
    rw [hworking j hj]
    rcases hdb with hdb | ⟨hR, hnone⟩
    · rwa [hdb]
    · rw [hnone j hj] at hk ⊢
      exact hc.trans hk hR

theorem commitsOf_append (j : ι) (H K : List (ι × σ × σ)) :
    commitsOf j (H ++ K) = commitsOf j H ++ commitsOf j K := by
  simp [commitsOf]

theorem working_writerBut {j : ι} (hj : j ≠ i) (q : ι → Option (Prog σ ε α)) :
    working { s with writer := s.writerBut i, prog := q } j = s.working j := by
  unfold working writerBut
  cases hw : s.writer with
  | none => rfl
  | some w =>
    by_cases hi : w.1 = i
    · simp [Option.filter, hi]
      intro h
      exact absurd h.symm hj
    · simp [Option.filter, hi]

theorem working_writerBut_self (q : ι → Option (Prog σ ε α)) :
    working { s with writer := s.writerBut i, prog := q } i = none := by
  unfold working writerBut
  cases hw : s.writer with
  | none => rfl
  | some w => by_cases hi : w.1 = i <;> simp [Option.filter, hi]

theorem working_open {j : ι} (hj : j ≠ i) (v : σ) (q : ι → Option (Prog σ ε α)) :
    working { s with writer := some (i, v), prog := q } j = none := by
  simp [working, hj.symm]

theorem working_open_self (v : σ) (q : ι → Option (Prog σ ε α)) :
    working { s with writer := some (i, v), prog := q } i = some v := by
  simp [working]

/-- The client gets `q` to run on and nothing else changes. -/
theorem Good.resume (hs : Good I R F G Q db₀ s) (hc : Contract I R F G Q db₀ p)
    {q : Prog σ ε α} (hself : ∃ base, s.Knows R i base ∧
      q.Safe I R (F i) (G i) (Q i) (s.working i) base (commitsOf i s.history)) :
    Good I R F G Q db₀ { s with prog := s.goOn i q } := by
  refine hs.others hc (i := i) hs.inv hs.commits (fun j hj => goOn_of_ne q hj) (fun j _ => rfl)
    (fun j _ => rfl) (.inl rfl) fun r hr => ?_
  obtain rfl : q = r := by simpa using hr
  exact hself

/-- The client has `v` in its open transaction and gets `q` to run on. -/
theorem Good.openWith (hs : Good I R F G Q db₀ s) (hc : Contract I R F G Q db₀ p)
    (hfree : s.writerBut i = none) {v : σ} {q : Prog σ ε α}
    (hself : q.Safe I R (F i) (G i) (Q i) (some v) s.db (commitsOf i s.history)) :
    Good I R F G Q db₀ { s with writer := some (i, v), prog := s.goOn i q } := by
  refine hs.others hc (i := i) hs.inv hs.commits (fun j hj => goOn_of_ne q hj)
    (fun j hj => (working_open hj v _).trans (working_eq_none hfree hj).symm)
    (fun j _ => rfl) (.inl rfl) fun r hr => ⟨s.db, ?_, ?_⟩
  · simp [Knows, working_open_self]
  · obtain rfl : q = r := by simpa using hr
    rwa [working_open_self]

theorem Good.close (hs : Good I R F G Q db₀ s) (hc : Contract I R F G Q db₀ p)
    {q : ι → Option (Prog σ ε α)} (hq : ∀ j, j ≠ i → q j = s.prog j)
    (hself : ∀ r, q i = some r → ∃ base, s.Knows R i base ∧
      r.Safe I R (F i) (G i) (Q i) none base (commitsOf i s.history)) :
    Good I R F G Q db₀ { s with writer := s.writerBut i, prog := q } := by
  refine hs.others hc (i := i) hs.inv hs.commits hq (fun j hj => working_writerBut hj q)
    (fun j _ => rfl) (.inl rfl) fun r hr => ?_
  obtain ⟨base, hk, hsafe⟩ := hself r hr
  refine ⟨base, ?_, by rwa [working_writerBut_self]⟩
  unfold Knows at hk ⊢
  rw [working_writerBut_self]
  cases hw : s.working i with
  | none => simpa [hw] using hk
  | some v =>
    simp only [hw] at hk
    exact hk ▸ hc.refl _

theorem Good.commit (hs : Good I R F G Q db₀ s) (hc : Contract I R F G Q db₀ p)
    {v : σ} (hw : s.working i = some v) {q : Prog σ ε α} (hI : I v)
    (hG : G i (commitsOf i s.history) s.db v)
    (hself : q.Safe I R (F i) (G i) (Q i) none v (commitsOf i s.history ++ [(s.db, v)])) :
    Good I R F G Q db₀ ⟨v, none, s.history ++ [(i, s.db, v)], s.goOn i q⟩ := by
  have hfree := writerBut_of_working hw
  refine hs.others hc (i := i) hI (hs.commits.snoc ⟨hs.inv, hI, hG⟩)
    (fun j hj => goOn_of_ne q hj) (fun j hj => (working_eq_none hfree hj).symm)
    (fun j hj => ?_) (.inr ⟨hc.rely hs.inv hI hG, fun j hj => working_eq_none hfree hj⟩)
    fun r hr => ⟨v, hc.refl _, ?_⟩
  · simp [commitsOf, hj.symm]
  · obtain rfl : q = r := by simpa using hr
    simpa [commitsOf_append, working, commitsOf] using hself

theorem Good.step (hs : Good I R F G Q db₀ s) (hc : Contract I R F G Q db₀ p)
    (hfail : s.Failing i o → F i (commitsOf i s.history)) (hstep : s.step i o = some s') :
    Good I R F G Q db₀ s' := by
  unfold Sys.step at hstep
  cases hp : s.prog i with
  | none => simp [hp] at hstep
  | some q =>
    obtain ⟨base, hk, hsafe⟩ := hs.client i q hp
    have hsees := hk.sees hs.inv
    -- what the client may assume next, whichever store the statement saw
    have hbase : ∀ {q : Prog σ ε α},
        q.Safe I R (F i) (G i) (Q i) (s.working i) s.db (commitsOf i s.history) →
        ∃ base, s.Knows R i base ∧
          q.Safe I R (F i) (G i) (Q i) (s.working i) base (commitsOf i s.history) := by
      refine fun h => ⟨s.db, ?_, h⟩
      unfold Knows
      cases s.working i with
      | some _ => rfl
      | none => exact hc.refl _
    cases o with
    | crashes =>
      cases q with
      | done r => simp [hp] at hstep
      | _ =>
        simp only [hp, Option.some.injEq] at hstep
        subst hstep
        exact hs.close hc (fun j hj => by simp [hj]) fun r hr => by simp at hr
    | fails e =>
      have hF := hfail trivial
      cases q with
      | done r => simp [hp] at hstep
      | rollback k => simp [hp] at hstep
      | select k =>
        simp only [hp, Option.some.injEq] at hstep
        exact hstep ▸ hs.resume hc ⟨base, hk, hsafe.2 hF e⟩
      | execute f k =>
        simp only [hp, Option.some.injEq] at hstep
        exact hstep ▸ hs.resume hc ⟨base, hk, hsafe.2 hF e⟩
      | commit k =>
        simp only [hp] at hstep
        cases hw : s.working i with
        | none => simp [hw] at hstep
        | some v =>
          simp only [hw, Option.map_some, Option.some.injEq] at hstep
          rw [hw] at hsafe
          exact hstep ▸ hs.resume hc ⟨base, hk, by rw [hw]; exact hsafe.2 hF e⟩
    | goes =>
      cases q with
      | done r => simp [hp] at hstep
      | select k =>
        simp only [hp, Option.some.injEq] at hstep
        exact hstep ▸ hs.resume hc (hbase (hsafe.1 _ _ hsees))
      | execute f k =>
        simp only [hp] at hstep
        split at hstep
        case isFalse => simp at hstep
        case isTrue hfree =>
          have hv := hsafe.1 _ _ hsees
          cases hf : f (s.view i) with
          | ok r =>
            simp only [hf, Option.some.injEq] at hstep hv
            exact hstep ▸ hs.openWith hc hfree hv
          | error e =>
            simp only [hf, Option.some.injEq] at hstep hv
            exact hstep ▸ hs.openWith hc hfree (hv (hfail ⟨f, k, e, hp, hf⟩))
      | commit k =>
        simp only [hp] at hstep
        cases hw : s.working i with
        | some v =>
          simp only [hw, Option.some.injEq] at hstep
          obtain rfl : base = s.db := by simpa [Knows, hw] using hk
          rw [hw] at hsafe
          exact hstep ▸ hs.commit hc hw hsafe.1.1 hsafe.1.2.1 hsafe.1.2.2
        | none =>
          simp only [hw, Option.some.injEq] at hstep
          rw [hw] at hsafe
          exact hstep ▸ hs.resume hc ⟨base, hk, by rw [hw]; exact hsafe⟩
      | rollback k =>
        simp only [hp, Option.some.injEq] at hstep
        refine hstep ▸ hs.close hc (fun j hj => goOn_of_ne k hj) fun r hr => ?_
        obtain rfl : k = r := by simpa using hr
        exact ⟨base, hk, hsafe⟩

/-- Clients that are safe one by one are safe together: what a run has committed is a sequence of
atomic commits within the guarantees, and a client that has ended meets its postcondition. -/
theorem Run.sound (hc : Contract I R F G Q db₀ p) (hrun : Run F (Sys.start db₀ p) s) :
    Good I R F G Q db₀ s := by
  induction hrun with
  | start =>
    refine ⟨hc.init, .nil, fun i q hq => ⟨db₀, hc.refl _, ?_⟩⟩
    obtain rfl : p i = q := by simpa [Sys.start] using hq
    exact hc.safe i
  | step _ hfail hstep ih => exact ih.step hc hfail hstep

theorem Run.done {r : Except ε α} (hc : Contract I R F G Q db₀ p)
    (hrun : Run F (Sys.start db₀ p) s) (hdone : s.prog i = some (.done r)) :
    ∃ base, Q i r (s.working i) base (commitsOf i s.history) := by
  obtain ⟨base, -, hsafe⟩ := hrun.sound hc |>.client i _ hdone
  exact ⟨base, hsafe⟩

end Sys
end ParallaxKernel.Lib
