import ParallaxKernel.Lib.Act
import ParallaxKernel.Lib.KeyedList

/-!
# Sweeps over columns

A sweep reads the rows of a table and rewrites some of their columns, row by row: one update by
primary key for each row that changes. A table is a part of a state; its columns do not overlap.
-/

namespace ParallaxKernel.Lib

/-- A column whose value can be absent. -/
structure Column (α β : Type) where
  get : α → Option β
  set : β → α → α
  set_get : ∀ a v, get a = some v → set v a = a

/-- A table in a state of type `σ`, with the columns that are swept. -/
structure SweptTable (σ ε α κ β : Type) where
  rows : σ → Option (List α)
  put : List α → σ → σ
  /-- What an update of a row raises, if it does. -/
  refused : σ → Option ε
  pk : α → κ
  columns : List (Column α β)
  rows_put : ∀ r s, rows (put r s) = some r
  put_put : ∀ r r' s, put r' (put r s) = put r' s
  put_rows : ∀ s r, rows s = some r → put r s = s
  refused_put : ∀ r s, refused (put r s) = refused s
  pk_set : ∀ c ∈ columns, ∀ v a, pk (c.set v a) = pk a
  independent : columns.Pairwise fun c d => ∀ v a, d.get (c.set v a) = d.get a

variable {σ ε α κ β : Type}

/-! ## Rows -/

section Rows

variable [DecidableEq β] (f : β → Except ε β) (g : β → β)

/-- The values of a row that `f` changes. -/
def updates (a : α) : List (Column α β) → Except ε (List (Column α β × β))
  | [] => .ok []
  | c :: cs =>
    match c.get a with
    | none => updates a cs
    | some v => do
      let w ← f v
      let rest ← updates a cs
      .ok (if w ≠ v then (c, w) :: rest else rest)

/-- `SET c = w, …`. -/
def setAll (us : List (Column α β × β)) (a : α) : α := us.foldl (fun b u => u.1.set u.2 b) a

/-- Every value that a row has in the columns, rewritten. -/
def rewriteRow (columns : List (Column α β)) (a : α) : α :=
  columns.foldl (fun b c => (c.get a).elim b fun v => c.set (g v) b) a

variable {f g}

theorem setAll_updates {a : α} {columns : List (Column α β)}
    (hindependent : columns.Pairwise fun c d => ∀ v a, d.get (c.set v a) = d.get a)
    (hf : ∀ c ∈ columns, ∀ v ∈ c.get a, f v = .ok (g v)) {b : α}
    (hb : ∀ c ∈ columns, c.get b = c.get a) : ∃ us, updates f a columns = .ok us ∧
      setAll us b = columns.foldl (fun b c => (c.get a).elim b fun v => c.set (g v) b) b := by
  induction columns generalizing b with
  | nil => exact ⟨[], rfl, rfl⟩
  | cons c columns ih =>
    obtain ⟨hc, hindependent⟩ := List.pairwise_cons.1 hindependent
    have hf' : ∀ d ∈ columns, ∀ v ∈ d.get a, f v = .ok (g v) := fun d hd =>
      hf d (List.mem_cons_of_mem c hd)
    rw [updates, List.foldl_cons]
    cases hget : c.get a with
    | none => exact ih hindependent hf' fun d hd => hb d (List.mem_cons_of_mem c hd)
    | some v =>
      have hset : ∀ d ∈ columns, d.get (c.set (g v) b) = d.get a := fun d hd =>
        (hc d hd _ _).trans (hb d (List.mem_cons_of_mem c hd))
      obtain ⟨us, hus, hall⟩ := ih hindependent hf' hset
      simp only [hf c List.mem_cons_self v hget, hus, bind, Except.bind]
      by_cases hv : g v = v
      · -- an unchanged value is not written
        rw [hv, c.set_get b v ((hb c List.mem_cons_self).trans hget)] at hall
        refine ⟨us, by rw [if_neg (not_not.2 hv)], ?_⟩
        rw [Option.elim_some, hv, c.set_get b v ((hb c List.mem_cons_self).trans hget)]
        exact hall
      · exact ⟨(c, g v) :: us, by rw [if_pos hv], hall⟩

omit [DecidableEq β] in
theorem rewriteRow_of_fixed {a : α} {columns : List (Column α β)}
    (h : ∀ c ∈ columns, ∀ v ∈ c.get a, g v = v) : rewriteRow g columns a = a := by
  unfold rewriteRow
  induction columns with
  | nil => rfl
  | cons c columns ih =>
    have hc : (c.get a).elim a (fun v => c.set (g v) a) = a := by
      cases hget : c.get a with
      | none => rfl
      | some v =>
        rw [Option.elim_some, h c List.mem_cons_self v hget]
        exact c.set_get a v hget
    have hfold := ih fun d hd => h d (List.mem_cons_of_mem c hd)
    rw [List.foldl_cons, hc]
    exact hfold

end Rows

/-! ## Tables -/

namespace SweptTable

variable [DecidableEq κ] (T : SweptTable σ ε α κ β)

/-- `UPDATE table SET … WHERE pk = ?`. -/
def update (k : κ) (u : α → α) : Act σ ε Unit := Act.step fun s =>
  let rows := (T.rows s).getD []
  match T.refused s with
  | some e => if rows.any (T.pk · = k) then (.error e, s) else (.ok (), s)
  | none => (.ok (), T.put (updateKey T.pk k u rows) s)

variable [DecidableEq β] (f : β → Except ε β) (g : β → β)

def sweepRow (a : α) : Act σ ε Unit := do
  let us ← Act.ofExcept (updates f a T.columns)
  if us.isEmpty then pure ()
  else T.update (T.pk a) (setAll us)

/-- Rewrites the columns of a table, if there is one. -/
def sweep : Act σ ε Unit := do
  match ← Act.look T.rows with
  | none => pure ()
  | some rows => forM rows (T.sweepRow f)

/-- The state with every row of the table rewritten. -/
def rewrite (s : σ) : σ :=
  match T.rows s with
  | none => s
  | some rows => T.put (rows.map (rewriteRow g T.columns)) s

/-- The values in the columns that are swept. -/
def values (s : σ) : List β :=
  ((T.rows s).getD []).flatMap fun a => T.columns.filterMap (·.get a)

/-- The rows have primary keys of their own. -/
def Keyed (s : σ) : Prop := (((T.rows s).getD []).map T.pk).Nodup

variable {T f g}

omit [DecidableEq κ] [DecidableEq β] in
theorem pk_rewriteRow (a : α) : T.pk (rewriteRow g T.columns a) = T.pk a := by
  have hfold : ∀ columns ⊆ T.columns, ∀ b,
      T.pk (columns.foldl (fun b c => (c.get a).elim b fun v => c.set (g v) b) b) = T.pk b := by
    intro columns hsubset
    induction columns with
    | nil => exact fun b => rfl
    | cons c columns ih =>
      intro b
      obtain ⟨hc, hsubset⟩ := List.cons_subset.1 hsubset
      rw [List.foldl_cons, ih hsubset]
      cases c.get a with
      | none => rfl
      | some v => exact T.pk_set c hc _ b
  exact hfold _ (List.Subset.refl _) a

omit [DecidableEq κ] [DecidableEq β] in
theorem rewrite_of_fixed {s : σ} (h : ∀ v ∈ T.values s, g v = v) : T.rewrite g s = s := by
  unfold rewrite
  unfold values at h
  cases hrows : T.rows s with
  | none => rfl
  | some rows =>
    rw [hrows, Option.getD_some] at h
    have hsame : rows.map (rewriteRow g T.columns) = rows := by
      rw [List.map_congr_left fun a ha => rewriteRow_of_fixed fun c hc v hv =>
        h v (List.mem_flatMap.2 ⟨a, ha, List.mem_filterMap.2 ⟨c, hc, hv⟩⟩), List.map_id']
    exact (congrArg (fun r => T.put r s) hsame).trans (T.put_rows s rows hrows)

/-- Between two updates the rows before the next one are rewritten. -/
structure Sweeping (T : SweptTable σ ε α κ β) (g : β → β) (s : σ) (rows rest : List α) (t : σ) :
    Prop where
  put : ∃ before, rows = before ++ rest ∧
    t = T.put (before.map (rewriteRow g T.columns) ++ rest) s

theorem keeps_sweepRow {s t : σ} {a : α} {rows rest : List α} (hrefused : T.refused s = none)
    (hpk : (rows.map T.pk).Nodup) (hf : ∀ c ∈ T.columns, ∀ v ∈ c.get a, f v = .ok (g v))
    (h : Sweeping T g s rows (a :: rest) t) :
    Act.Keeps (fun _ => True) (T.sweepRow f a) t fun r u =>
      r = .ok () ∧ Sweeping T g s rows rest u := by
  obtain ⟨before, hrows, rfl⟩ := h.put
  obtain ⟨us, hus, hall⟩ := setAll_updates T.independent hf (b := a) fun _ _ => rfl
  have hnext : Sweeping T g s rows rest
      (T.put (before.map (rewriteRow g T.columns) ++ setAll us a :: rest) s) := by
    refine ⟨before ++ [a], by simpa using hrows, ?_⟩
    rw [hall]
    simp [rewriteRow]
  unfold sweepRow
  rw [hus]
  refine Act.keeps_ofExcept_bind ?_ fun e he => nomatch he
  rintro _ ⟨⟩
  cases hempty : us.isEmpty with
  | true =>
    rw [List.isEmpty_iff.1 hempty] at hnext
    exact Act.keeps_pure ⟨rfl, hnext⟩
  | false =>
    refine Act.keeps_step trivial ?_
    have hpk' : ((before.map (rewriteRow g T.columns) ++ a :: rest).map T.pk).Nodup := by
      have hsame : (before.map (rewriteRow g T.columns) ++ a :: rest).map T.pk =
          rows.map T.pk := by
        rw [hrows]
        simp [pk_rewriteRow]
      rwa [hsame]
    simp only [T.refused_put, hrefused, T.rows_put, Option.getD_some, T.put_put,
      updateKey_append hpk']
    exact ⟨trivial, hnext⟩

/-- A sweep rewrites every row. -/
theorem keeps_sweep {s : σ} (hrefused : T.refused s = none) (hpk : T.Keyed s)
    (hf : ∀ v ∈ T.values s, f v = .ok (g v)) :
    Act.Keeps (fun _ => True) (T.sweep f) s fun r t => r = .ok () ∧ t = T.rewrite g s := by
  unfold sweep rewrite
  refine Act.keeps_look_bind ?_
  unfold Keyed at hpk
  unfold values at hf
  cases hrows : T.rows s with
  | none => exact Act.keeps_pure ⟨rfl, rfl⟩
  | some rows =>
    rw [hrows, Option.getD_some] at hpk hf
    have hstart : Sweeping T g s rows rows s := ⟨[], rfl, (T.put_rows s rows hrows).symm⟩
    refine (Act.keeps_forM (P := Sweeping T g s rows) (E := fun _ _ => False) ?_ rows hstart).mono
      ?_
    · intro a rest t ht
      obtain ⟨before, hsplit, -⟩ := ht.put
      have ha : a ∈ rows := by
        rw [hsplit]
        exact List.mem_append_right before List.mem_cons_self
      have hfa : ∀ c ∈ T.columns, ∀ v ∈ c.get a, f v = .ok (g v) := fun c hc v hv =>
        hf v (List.mem_flatMap.2 ⟨a, ha, List.mem_filterMap.2 ⟨c, hc, hv⟩⟩)
      refine (keeps_sweepRow hrefused hpk hfa ht).mono ?_
      rintro _ u ⟨rfl, hu⟩
      exact hu
    · intro r t ht
      cases r with
      | error e => exact ht.elim
      | ok _ =>
        obtain ⟨before, hsplit, rfl⟩ := ht.put
        rw [List.append_nil] at hsplit ⊢
        rw [hsplit]
        exact ⟨rfl, rfl⟩

end SweptTable
end ParallaxKernel.Lib
