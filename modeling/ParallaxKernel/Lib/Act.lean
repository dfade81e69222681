import Mathlib.Tactic.Common

/-!
# Computations that change a state and may raise

An exception does not undo what was done before it. Every state on the way is kept, so that a
property can be asked of each moment of a run and not only of its end. `Act.Keeps` is the proof
rule: a property that holds throughout, and one of the result and the last state.
-/

namespace ParallaxKernel.Lib

theorem except_ok_bind {ε α β : Type} (a : α) (f : α → Except ε β) :
    (Except.ok a : Except ε α) >>= f = f a := rfl

theorem except_bind_ok {ε α β : Type} (x : Except ε α) (f : α → β) :
    (x >>= fun a => .ok (f a)) = x.map f := by
  cases x <;> rfl

theorem except_map_map {ε α β γ : Type} (x : Except ε α) (f : α → β) (g : β → γ) :
    (x.map f).map g = x.map fun a => g (f a) := by
  cases x <;> rfl

theorem except_bind_eq_ok {ε α β : Type} {x : Except ε α} {f : α → Except ε β} {b : β} :
    x >>= f = .ok b ↔ ∃ a, x = .ok a ∧ f a = .ok b := by
  cases x with
  | ok a => simp [bind, Except.bind]
  | error e => simp [bind, Except.bind]

theorem except_mapM_eq_ok {ε α β : Type} {f : α → Except ε β} {g : α → β} {xs : List α}
    (h : ∀ x ∈ xs, f x = .ok (g x)) : xs.mapM f = .ok (xs.map g) := by
  induction xs with
  | nil => rfl
  | cons x xs ih =>
    rw [List.mapM_cons, h x List.mem_cons_self, ih fun y hy => h y (List.mem_cons_of_mem x hy)]
    rfl

/-- How a computation ends, the state it leaves, and the states that it goes through. -/
structure Ran (σ ε α : Type) where
  result : Except ε α
  final : σ
  trail : List σ

/-- A computation over a state `σ` that returns an `α` or raises an `ε`. -/
def Act (σ ε α : Type) : Type := σ → Ran σ ε α

namespace Act

variable {σ ε α β : Type}

/-- Runs `k` on how `p` ended, from where it ended. -/
def andThen (p : Act σ ε α) (k : Except ε α → Act σ ε β) : Act σ ε β := fun s =>
  let first := p s
  let rest := k first.result first.final
  { rest with trail := first.trail ++ rest.trail }

/-- Ends without touching the state. -/
def done (r : Except ε α) : Act σ ε α := fun s => ⟨r, s, []⟩

instance : Monad (Act σ ε) where
  pure a := done (.ok a)
  bind p k := p.andThen fun
    | .ok a => k a
    | .error e => done (.error e)

instance : MonadExceptOf ε (Act σ ε) where
  throw e := done (.error e)
  tryCatch p h := p.andThen fun
    | .ok a => done (.ok a)
    | .error e => h e

/-- The result of a function that does not touch the state. -/
def ofExcept (r : Except ε α) : Act σ ε α := done r

/-- Reads the state. -/
def look (f : σ → α) : Act σ ε α := fun s => ⟨.ok (f s), s, []⟩

/-- Takes one step to a new state, which may end in an exception all the same. -/
def step (f : σ → Except ε α × σ) : Act σ ε α := fun s =>
  let t := f s
  ⟨t.1, t.2, [t.2]⟩

def modify (f : σ → σ) : Act σ ε Unit := step fun s => (.ok (), f s)

/-- Runs on a part of the state. -/
def focus {ρ : Type} (get : σ → ρ) (put : σ → ρ → σ) (p : Act ρ ε α) : Act σ ε α := fun s =>
  let run := p (get s)
  ⟨run.result, put s run.final, run.trail.map (put s)⟩

theorem bind_apply (p : Act σ ε α) (k : α → Act σ ε β) (s : σ) : (p >>= k) s =
    let rest := (match (p s).result with
      | .ok a => k a
      | .error e => done (.error e)) (p s).final
    { rest with trail := (p s).trail ++ rest.trail } := rfl

theorem tryCatch_apply (p : Act σ ε α) (h : ε → Act σ ε α) (s : σ) : tryCatch p h s =
    let rest := (match (p s).result with
      | .ok a => done (.ok a)
      | .error e => h e) (p s).final
    { rest with trail := (p s).trail ++ rest.trail } := rfl

theorem bind_return_apply (p : Act σ ε α) (f : α → β) (s : σ) :
    ((do let a ← p; return f a) s).result = (p s).result.map f ∧
      ((do let a ← p; return f a) s).final = (p s).final := by
  rw [bind_apply]
  cases (p s).result with
  | ok a => exact ⟨rfl, rfl⟩
  | error e => exact ⟨rfl, rfl⟩

instance : LawfulMonad (Act σ ε) := by
  refine LawfulMonad.mk' _ ?_ (fun _ _ => rfl) ?_
  · intro α p
    funext s
    have hmap : (id <$> p) s = (p >>= pure) s := rfl
    rw [hmap, bind_apply]
    cases h : (p s).result with
    | ok a => simp [← h, pure, done]
    | error e => simp [← h, done]
  · intro α β γ p k l
    funext s
    rw [bind_apply, bind_apply p, bind_apply p]
    cases (p s).result with
    | ok a => simp only [bind_apply, List.append_assoc]
    | error e => simp [done]

/-! ## How a run ends -/

/-- The result and the last state. -/
def ends (p : Act σ ε α) (s : σ) : Except ε α × σ := ((p s).result, (p s).final)

theorem ends_bind (p : Act σ ε α) (k : α → Act σ ε β) (s : σ) : (p >>= k).ends s =
    match p.ends s with
    | (.ok a, t) => (k a).ends t
    | (.error e, t) => (.error e, t) := by
  simp only [ends, bind_apply]
  cases (p s).result with
  | ok a => rfl
  | error e => rfl

@[simp] theorem ends_pure (a : α) (s : σ) : (pure a : Act σ ε α).ends s = (.ok a, s) := rfl

@[simp] theorem ends_throw (e : ε) (s : σ) : (throw e : Act σ ε α).ends s = (.error e, s) := rfl

@[simp] theorem ends_ofExcept (r : Except ε α) (s : σ) : (ofExcept r).ends s = (r, s) := rfl

@[simp] theorem ends_step (f : σ → Except ε α × σ) (s : σ) : (step f).ends s = f s := rfl

@[simp] theorem ends_look_bind (f : σ → α) (k : α → Act σ ε β) (s : σ) :
    (look f >>= k).ends s = (k (f s)).ends s := rfl

/-! ## The proof rule -/

/-- From `s` the computation ends as `Q` says, and every state on the way satisfies `I`. -/
def Keeps (I : σ → Prop) (p : Act σ ε α) (s : σ) (Q : Except ε α → σ → Prop) : Prop :=
  (∀ t ∈ (p s).trail, I t) ∧ Q (p s).result (p s).final

section Rules

variable {I : σ → Prop} {s : σ} {Q : Except ε α → σ → Prop} {R : Except ε β → σ → Prop}
variable {p : Act σ ε α}

theorem Keeps.mono {Q' : Except ε α → σ → Prop} (h : Keeps I p s Q)
    (hQ : ∀ r t, Q r t → Q' r t) : Keeps I p s Q' :=
  ⟨h.1, hQ _ _ h.2⟩

theorem Keeps.mono_inv {J : σ → Prop} (h : Keeps I p s Q) (hI : ∀ t, I t → J t) :
    Keeps J p s Q :=
  ⟨fun t ht => hI t (h.1 t ht), h.2⟩

theorem keeps_done {r : Except ε α} (h : Q r s) : Keeps I (done r) s Q :=
  ⟨fun _ ht => absurd ht List.not_mem_nil, h⟩

theorem keeps_pure {a : α} (h : Q (.ok a) s) : Keeps I (pure a) s Q := keeps_done h

theorem keeps_throw {e : ε} (h : Q (.error e) s) : Keeps I (throw e) s Q := keeps_done h

theorem keeps_look {f : σ → α} (h : Q (.ok (f s)) s) : Keeps I (look f) s Q :=
  ⟨fun _ ht => absurd ht List.not_mem_nil, h⟩

theorem keeps_step {f : σ → Except ε α × σ} (hI : I (f s).2) (h : Q (f s).1 (f s).2) :
    Keeps I (step f) s Q := by
  refine ⟨?_, h⟩
  intro t ht
  obtain rfl : t = (f s).2 := List.mem_singleton.1 ht
  exact hI

theorem keeps_modify {f : σ → σ} {Q : Except ε Unit → σ → Prop} (hI : I (f s))
    (h : Q (.ok ()) (f s)) : Keeps I (modify f) s Q :=
  keeps_step hI h

theorem keeps_andThen {k : Except ε α → Act σ ε β} (hp : Keeps I p s Q)
    (hk : ∀ r t, Q r t → Keeps I (k r) t R) : Keeps I (p.andThen k) s R := by
  have hrest := hk _ _ hp.2
  refine ⟨?_, hrest.2⟩
  intro t ht
  cases List.mem_append.1 ht with
  | inl h => exact hp.1 t h
  | inr h => exact hrest.1 t h

theorem keeps_bind {k : α → Act σ ε β} (hp : Keeps I p s Q)
    (hok : ∀ a t, Q (.ok a) t → Keeps I (k a) t R)
    (herror : ∀ e t, Q (.error e) t → R (.error e) t) : Keeps I (p >>= k) s R := by
  refine keeps_andThen hp fun r t h => ?_
  cases r with
  | ok a => exact hok a t h
  | error e => exact keeps_done (herror e t h)

theorem keeps_ofExcept_bind {r : Except ε α} {k : α → Act σ ε β}
    (hok : ∀ a, r = .ok a → Keeps I (k a) s R) (herror : ∀ e, r = .error e → R (.error e) s) :
    Keeps I (ofExcept r >>= k) s R := by
  refine keeps_bind (Q := fun r' t => r' = r ∧ t = s) (keeps_done ⟨rfl, rfl⟩) ?_ ?_
  · rintro a t ⟨h, rfl⟩
    exact hok a h.symm
  · rintro e t ⟨h, rfl⟩
    exact herror e h.symm

/-- A look cannot fail. -/
theorem keeps_look_bind {f : σ → α} {k : α → Act σ ε β} (h : Keeps I (k (f s)) s R) :
    Keeps I (look f >>= k) s R := h

/-- A step that returns. -/
theorem keeps_step_bind {f : σ → Except ε α × σ} {k : α → Act σ ε β} {a : α} {t : σ}
    (hf : f s = (.ok a, t)) (hI : I t) (h : Keeps I (k a) t R) :
    Keeps I (step f >>= k) s R := by
  refine keeps_bind (Q := fun r u => r = .ok a ∧ u = t) (keeps_step ?_ ?_) ?_ ?_
  · rwa [hf]
  · rw [hf]
    exact ⟨rfl, rfl⟩
  · rintro b u ⟨hb, rfl⟩
    obtain rfl : b = a := by simpa using hb
    exact h
  · rintro e u ⟨he, -⟩
    cases he

theorem keeps_tryCatch {h : ε → Act σ ε α} {R : Except ε α → σ → Prop} (hp : Keeps I p s Q)
    (hok : ∀ a t, Q (.ok a) t → R (.ok a) t)
    (herror : ∀ e t, Q (.error e) t → Keeps I (h e) t R) : Keeps I (tryCatch p h) s R := by
  refine keeps_andThen hp fun r t hr => ?_
  cases r with
  | ok a => exact keeps_done (hok a t hr)
  | error e => exact herror e t hr

/-- The rule of a loop: `P` holds of the elements to come and the state before each of them. -/
theorem keeps_forM {γ : Type} {body : γ → Act σ ε PUnit} {P : List γ → σ → Prop} {E : ε → σ → Prop}
    (hbody : ∀ c cs t, P (c :: cs) t → Keeps I (body c) t fun r u =>
      match r with
      | .ok _ => P cs u
      | .error e => E e u)
    (cs : List γ) (h : P cs s) : Keeps I (forM cs body) s fun r u =>
      match r with
      | .ok _ => P [] u
      | .error e => E e u := by
  induction cs generalizing s with
  | nil => exact keeps_pure h
  | cons c cs ih =>
    rw [List.forM_cons]
    refine keeps_bind (hbody c cs s h) ?_ ?_
    · intro _ t ht
      exact ih ht
    · intro e t ht
      exact ht

end Rules

/-! ## Agreement -/

/-- From states that look the same two computations end in the same way, in states that look the
same. -/
def Agree {ρ : Type} (view : σ → ρ) (p q : Act σ ε α) : Prop :=
  ∀ s t, view s = view t → (p s).result = (q t).result ∧ view (p s).final = view (q t).final

section Agree

variable {ρ : Type} {view : σ → ρ} {p q : Act σ ε α}

theorem agree_pure (a : α) : Agree view (pure a : Act σ ε α) (pure a) := fun _ _ h => ⟨rfl, h⟩

theorem agree_bind {k l : α → Act σ ε β} (hp : Agree view p q) (hk : ∀ a, Agree view (k a) (l a)) :
    Agree view (p >>= k) (q >>= l) := by
  intro s t hst
  obtain ⟨hresult, hfinal⟩ := hp s t hst
  rw [bind_apply, bind_apply, ← hresult]
  cases (p s).result with
  | ok a => exact hk a _ _ hfinal
  | error e => exact ⟨rfl, hfinal⟩

/-- A change that does not show. -/
theorem agree_modify_left {f : σ → σ} (hf : ∀ s, view (f s) = view s) (h : Agree view p q) :
    Agree view (modify f >>= fun _ => p) q := fun s t hst => h (f s) t ((hf s).trans hst)

theorem agree_modify_right {f : σ → σ} (hf : ∀ s, view (f s) = view s) (h : Agree view p q) :
    Agree view p (modify f >>= fun _ => q) := fun s t hst => h s (f t) (hst.trans (hf t).symm)

end Agree

end Act
end ParallaxKernel.Lib
