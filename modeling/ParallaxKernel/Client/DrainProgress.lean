import ParallaxKernel.Client.WalQueue

/-!
# The progress of a drain

One call of `drain` that nothing runs beside: its loop over the batch, which ends where the request of
a row or its send raises what is no network error. Such a call is a run of the steps of the queue.
-/

namespace ParallaxKernel.Client

open Lib

/-- What comes of the request of a row and its send: what `urlopen` gives, or an exception that is
neither an `HTTPError` nor a network error. -/
inductive Attempt where
  | answered (outcome : Outcome)
  | raised (exc : String)

/-- A drain at its end. -/
structure Drained where
  table : Table
  attempted : List WalRow
  result : Except String DrainResult

def WalRow.live (row : WalRow) : Bool := row.attempts < 5

namespace Table

/-- The rows in the order of `seq`. -/
def bySeq (t : Table) : List WalRow := t.rows.insertionSort fun a b => a.seq ≤ b.seq

/-- The first hundred rows whose attempts are below five. -/
def due (t : Table) : List WalRow := (t.bySeq.filter WalRow.live).take 100

end Table

section Drain

variable (transport : Nat → Request → Attempt) (baseUrl : String)

/-- The loop of `drain`. -/
def drainRows : List WalRow → Table → DrainResult → Drained
  | [], t, result => ⟨t, [], .ok result⟩
  | row :: rest, t, result =>
    if 5 ≤ row.attempts then drainRows rest t { result with skipped := result.skipped + 1 }
    else
      match transport row.seq (requestOf baseUrl row) with
      | .raised exc => ⟨t, [row], .error exc⟩
      | .answered outcome =>
        let send : Send Unit := ⟨(), row.seq, requestOf baseUrl row, outcome⟩
        let drained := drainRows rest (applyOutcome t send) (result.count outcome)
        { drained with attempted := row :: drained.attempted }

/-- `drain` at the time `now`. -/
def drain (urlScheme : String → Option String) (now : Int) (t : Table) : Drained :=
  match urlScheme baseUrl with
  | none => ⟨t, [], .error "ValueError"⟩
  | some scheme =>
    if scheme ∈ ["http", "https"] then
      match isoformat (now - week) with
      | none => ⟨t, [], .error "OverflowError"⟩
      | some cutoff => drainRows transport baseUrl (t.evict cutoff).batch (t.evict cutoff) ⟨0, 0, 0⟩
    else ⟨t, [], .ok ⟨0, 0, 0⟩⟩

end Drain

/-- What is claimed of a drain that starts with the table `t`. -/
structure Progresses (t : Table) (drained : Drained) : Prop where
  returned : ∃ result, drained.result = .ok result ∧
    result.sent + result.failed = drained.attempted.length
  attempted : drained.attempted = t.due
  settled : ∀ row ∈ drained.attempted, (∀ other ∈ drained.table.rows, other.seq ≠ row.seq) ∨
    { row with attempts := row.attempts + 1 } ∈ drained.table.rows

/-! ## The loop -/

/-- No request of these rows and no send raises what is no network error. -/
def Quiet (transport : Nat → Request → Attempt) (baseUrl : String) (rows : List WalRow) : Prop :=
  ∀ row ∈ rows, ∀ exc, transport row.seq (requestOf baseUrl row) ≠ .raised exc

section Loop

variable {transport : Nat → Request → Attempt} {baseUrl : String} {rows : List WalRow}

theorem count_total (result : DrainResult) (outcome : Outcome) :
    (result.count outcome).sent + (result.count outcome).failed = result.sent + result.failed + 1 := by
  rw [DrainResult.count]
  split_ifs
  · dsimp only
    omega
  · dsimp only
    omega

/-- A loop that meets no foreign exception attempts every row that is not exhausted. -/
theorem drainRows_of_quiet (h : Quiet transport baseUrl (rows.filter WalRow.live)) (t : Table)
    (result : DrainResult) :
    (drainRows transport baseUrl rows t result).attempted = rows.filter WalRow.live ∧
      ∃ result', (drainRows transport baseUrl rows t result).result = .ok result' ∧
        result'.sent + result'.failed =
          result.sent + result.failed + (rows.filter WalRow.live).length := by
  induction rows generalizing t result with
  | nil => exact ⟨rfl, result, rfl, rfl⟩
  | cons row rest ih =>
    rw [drainRows]
    split_ifs with hattempts
    · have hdead : row.live = false := by simpa [WalRow.live] using hattempts
      rw [List.filter_cons_of_neg (by simp [hdead])] at h ⊢
      exact ih h t _
    · have hlive : row.live = true := by simpa [WalRow.live] using hattempts
      rw [List.filter_cons_of_pos hlive] at h ⊢
      cases hattempt : transport row.seq (requestOf baseUrl row) with
      | raised exc => exact absurd hattempt (h row List.mem_cons_self exc)
      | answered outcome =>
        obtain ⟨hattempted, result', hresult, htotal⟩ :=
          ih (fun other hother => h other (List.mem_cons_of_mem row hother))
            (applyOutcome t (⟨(), row.seq, requestOf baseUrl row, outcome⟩ : Send Unit))
            (result.count outcome)
        refine ⟨congrArg (row :: ·) hattempted, result', hresult, ?_⟩
        rw [htotal, count_total, List.length_cons]
        omega

/-- A loop that returns has met no foreign exception. -/
theorem quiet_of_ok {t : Table} {result result' : DrainResult}
    (h : (drainRows transport baseUrl rows t result).result = .ok result') :
    Quiet transport baseUrl (rows.filter WalRow.live) := by
  induction rows generalizing t result with
  | nil => exact nofun
  | cons row rest ih =>
    rw [drainRows] at h
    split_ifs at h with hattempts
    · have hdead : row.live = false := by simpa [WalRow.live] using hattempts
      rw [List.filter_cons_of_neg (by simp [hdead])]
      exact ih h
    · have hlive : row.live = true := by simpa [WalRow.live] using hattempts
      rw [List.filter_cons_of_pos hlive]
      cases hattempt : transport row.seq (requestOf baseUrl row) with
      | raised exc =>
        rw [hattempt] at h
        cases h
      | answered outcome =>
        rw [hattempt] at h
        intro other hother exc
        obtain rfl | hother := List.mem_cons.1 hother
        · rw [hattempt]
          exact nofun
        · exact ih h other hother exc

/-- The loop leaves the rows that are not in its list alone. -/
theorem mem_drainRows {row : WalRow} (h : ∀ other ∈ rows, row.seq ≠ other.seq) (t : Table)
    (result : DrainResult) :
    row ∈ (drainRows transport baseUrl rows t result).table.rows ↔ row ∈ t.rows := by
  induction rows generalizing t result with
  | nil => exact Iff.rfl
  | cons first rest ih =>
    have hrest := fun other hother => h other (List.mem_cons_of_mem first hother)
    rw [drainRows]
    split_ifs
    · exact ih hrest t _
    · cases transport first.seq (requestOf baseUrl first) with
      | raised exc => exact Iff.rfl
      | answered outcome =>
        exact (ih hrest _ _).trans (mem_applyOutcome (h first List.mem_cons_self))

/-- After the loop an attempted row is gone, or has one attempt more. -/
theorem drainRows_settled (t : Table) (result : DrainResult) (hrows : ∀ row ∈ rows, row ∈ t.rows)
    (hdistinct : rows.Pairwise fun a b => a.seq ≠ b.seq)
    (hquiet : Quiet transport baseUrl (rows.filter WalRow.live)) {row : WalRow}
    (hrow : row ∈ (drainRows transport baseUrl rows t result).attempted) :
    (∀ other ∈ (drainRows transport baseUrl rows t result).table.rows, other.seq ≠ row.seq) ∨
      { row with attempts := row.attempts + 1 } ∈
        (drainRows transport baseUrl rows t result).table.rows := by
  induction rows generalizing t result with
  | nil => cases hrow
  | cons first rest ih =>
    obtain ⟨hfirst, hdistinct⟩ := List.pairwise_cons.1 hdistinct
    have hrest := fun other hother => hrows other (List.mem_cons_of_mem first hother)
    rw [drainRows] at hrow ⊢
    split_ifs at hrow ⊢ with hattempts
    · have hdead : first.live = false := by simpa [WalRow.live] using hattempts
      rw [List.filter_cons_of_neg (by simp [hdead])] at hquiet
      exact ih t _ hrest hdistinct hquiet hrow
    · have hlive : first.live = true := by simpa [WalRow.live] using hattempts
      rw [List.filter_cons_of_pos hlive] at hquiet
      cases hattempt : transport first.seq (requestOf baseUrl first) with
      | raised exc => exact absurd hattempt (hquiet first List.mem_cons_self exc)
      | answered outcome =>
        rw [hattempt] at hrow
        let send : Send Unit := ⟨(), first.seq, requestOf baseUrl first, outcome⟩
        obtain rfl | hrow := List.mem_cons.1 hrow
        · -- its own outcome is the last that touches the row
          by_cases hfinal : outcome.final = true
          · refine .inl fun other hother hseq => ?_
            have hkept := (mem_drainRows (by
              intro next hnext
              rw [hseq]
              exact hfirst next hnext) (applyOutcome t send) _).1 hother
            rw [applyOutcome, if_pos hfinal] at hkept
            exact (Table.mem_delete.1 hkept).2 hseq
          · have hbumped : { row with attempts := row.attempts + 1 } ∈ (applyOutcome t send).rows := by
              rw [applyOutcome, if_neg hfinal]
              exact Table.mem_bump.2 (.inr ⟨row, hrows row List.mem_cons_self, rfl, rfl⟩)
            have hothers : ∀ other ∈ rest,
                ({ row with attempts := row.attempts + 1 } : WalRow).seq ≠ other.seq := hfirst
            exact .inr ((mem_drainRows hothers _ _).2 hbumped)
        · refine ih (applyOutcome t send) _ (fun other hother => ?_) hdistinct
            (fun other hother => hquiet other (List.mem_cons_of_mem first hother)) hrow
          exact (mem_applyOutcome (hfirst other hother).symm).2 (hrest other hother)

end Loop

/-! ## The loop is played -/

section Played

variable {ι : Type} [DecidableEq ι] (transport : Nat → Request → Attempt) {baseUrl : String}
  (urlScheme : String → Option String) {calls : ι → Call}

/-- The actions of the loop. -/
def loopActions (baseUrl : String) (now : Int) (c : ι) : List WalRow → List (Action ι)
  | [] => [.finish c]
  | row :: rest =>
    if 5 ≤ row.attempts then .skip c :: loopActions baseUrl now c rest
    else
      match transport row.seq (requestOf baseUrl row) with
      | .raised _ => [.abort c]
      | .answered outcome =>
        .send c outcome :: .execute c now :: .commit c :: loopActions baseUrl now c rest

/-- Where a call stands that has returned, or raised. -/
def endOf : Except String DrainResult → Progress ι
  | .ok result => .drained result
  | .error _ => .ended

/-- A send, its statement and its commit. -/
theorem send_played {c : ι} (hc : calls c = .drain baseUrl) (now : Int) {row : WalRow}
    {rest : List WalRow} {s : State ι} {result : DrainResult}
    (hprogress : s.progress c = .draining (row :: rest) result) (hfree : s.working = none)
    (hattempts : row.attempts < 5) (outcome : Outcome) :
    ∃ t, [.send c outcome, .execute c now, .commit c].foldlM (step urlScheme calls) s = some t ∧
      t.table = applyOutcome s.table
        (⟨(), row.seq, requestOf baseUrl row, outcome⟩ : Send Unit) ∧
      t.working = none ∧ t.progress c = .draining rest (result.count outcome) := by
  let send : Send ι := ⟨c, row.seq, requestOf baseUrl row, outcome⟩
  let sent : State ι :=
    { s with history := { s.history with sends := s.history.sends ++ [send] } }.move c
      (.answered send rest result)
  let applied : State ι :=
    { sent with working := some (c, applyOutcome s.table send) }.move c (.applied send rest result)
  have hsend : step urlScheme calls s (.send c outcome) = some sent := by
    simp [step, hprogress, hc, hattempts, sent, send]
  have hexecute : step urlScheme calls sent (.execute c now) = some applied := by
    simp [step, execute, hc, hfree, applied, sent, State.move]
  have hcommit : step urlScheme calls applied (.commit c) =
      commit applied c (applyOutcome s.table send) := by
    simp [step, applied, State.move]
  have happlied : applied.progress c = .applied send rest result := by
    simp [applied, State.move]
  rw [commit, happlied] at hcommit
  have hrun : [.send c outcome, .execute c now, .commit c].foldlM (step urlScheme calls) s =
      step urlScheme calls applied (.commit c) := by
    rw [List.foldlM_cons, hsend, Option.bind_eq_bind, Option.bind_some, List.foldlM_cons, hexecute,
      Option.bind_eq_bind, Option.bind_some, List.foldlM_cons]
    cases step urlScheme calls applied (.commit c) <;> rfl
  refine ⟨_, hrun.trans hcommit, rfl, rfl, ?_⟩
  simp [State.move, send]

/-- The loop is a run of the steps of the queue. -/
theorem loop_played {c : ι} (hc : calls c = .drain baseUrl) (now : Int) (rows : List WalRow)
    (s : State ι) (result : DrainResult) (hprogress : s.progress c = .draining rows result)
    (hfree : s.working = none) :
    ∃ t, (loopActions transport baseUrl now c rows).foldlM (step urlScheme calls) s = some t ∧
      t.table = (drainRows transport baseUrl rows s.table result).table ∧ t.working = none ∧
      t.progress c = endOf (drainRows transport baseUrl rows s.table result).result := by
  induction rows generalizing s result with
  | nil =>
    refine ⟨s.move c (.drained result), ?_, rfl, hfree, by simp [State.move, drainRows, endOf]⟩
    simp [loopActions, step, hprogress]
  | cons row rest ih =>
    rw [loopActions, drainRows]
    split_ifs with hattempts
    · have hskip : step urlScheme calls s (.skip c) =
          some (s.move c (.draining rest { result with skipped := result.skipped + 1 })) := by
        simp [step, hprogress, hattempts]
      obtain ⟨t, hrun, ht⟩ := ih (s.move c (.draining rest
        { result with skipped := result.skipped + 1 }))
        { result with skipped := result.skipped + 1 } (by simp [State.move]) hfree
      refine ⟨t, ?_, ht⟩
      rw [List.foldlM_cons, hskip]
      exact hrun
    · cases hattempt : transport row.seq (requestOf baseUrl row) with
      | raised exc =>
        refine ⟨{ s with working := s.working.filter (·.1 ≠ c) }.move c .ended, ?_, rfl, ?_, ?_⟩
        · simp [step, hprogress]
        · simp [State.move, hfree]
        · simp [State.move, endOf]
      | answered outcome =>
        obtain ⟨u, hsend, htable, hfree', hrest⟩ := send_played urlScheme hc now hprogress
          hfree (Nat.not_le.1 hattempts) outcome
        obtain ⟨t, hrun, ht⟩ := ih u _ hrest hfree'
        rw [htable] at ht
        refine ⟨t, ?_, ht⟩
        have hsplit : .send c outcome :: .execute c now :: .commit c ::
            loopActions transport baseUrl now c rest = [.send c outcome, .execute c now, .commit c] ++
              loopActions transport baseUrl now c rest := rfl
        dsimp only
        rw [hsplit, List.foldlM_append, hsend]
        exact hrun

/-- A drain that nothing runs beside is a run of the steps of the queue. -/
theorem drain_played {c : ι} (hc : calls c = .drain baseUrl) {now : Int} {scheme cutoff : String}
    (hurl : urlScheme baseUrl = some scheme) (hscheme : scheme ∈ ["http", "https"])
    (hcutoff : isoformat (now - week) = some cutoff) {s : State ι} (hidle : s.progress c = .idle)
    (hfree : s.working = none) :
    ∃ (actions : List (Action ι)) (t : State ι),
      actions.foldlM (step urlScheme calls) s = some t ∧
      t.table = (drain transport baseUrl urlScheme now s.table).table ∧ t.working = none ∧
      t.progress c = endOf (drain transport baseUrl urlScheme now s.table).result := by
  let connected : State ι := s.move c .connected
  let evicted : State ι :=
    { connected with working := some (c, s.table.evict cutoff) }.move c (.evicted now cutoff)
  have hconnect : step urlScheme calls s (.connect c) = some connected := by
    simp only [step, hidle, hc, hurl]
    rw [if_pos hscheme]
  have hexecute : step urlScheme calls connected (.execute c now) = some evicted := by
    simp [step, execute, hc, hfree, hcutoff, evicted, connected, State.move]
  have hcommit : step urlScheme calls evicted (.commit c) =
      commit evicted c (s.table.evict cutoff) := by
    simp [step, evicted, State.move]
  have hevicted : evicted.progress c = .evicted now cutoff := by
    simp [evicted, State.move]
  obtain ⟨ready, hready, htable, hworking, hprogress⟩ : ∃ ready,
      commit evicted c (s.table.evict cutoff) = some ready ∧ ready.table = s.table.evict cutoff ∧
        ready.working = none ∧ ready.progress c = .ready := by
    rw [commit, hevicted]
    refine ⟨_, rfl, rfl, rfl, ?_⟩
    simp [State.move]
  have hselect : step urlScheme calls ready (.select c) =
      some (ready.move c (.draining ready.table.batch ⟨0, 0, 0⟩)) := by
    simp [step, hprogress]
  obtain ⟨t, hrun, ht⟩ := loop_played transport urlScheme hc now ready.table.batch
    (ready.move c (.draining ready.table.batch ⟨0, 0, 0⟩)) ⟨0, 0, 0⟩
    (by simp [State.move]) hworking
  refine ⟨.connect c :: .execute c now :: .commit c :: .select c ::
    loopActions transport baseUrl now c ready.table.batch, t, ?_, ?_⟩
  · simp only [List.foldlM_cons, hconnect, hexecute, hcommit, hready, hselect, Option.bind_eq_bind,
      Option.bind_some]
    exact hrun
  · rw [drain, hurl]
    dsimp only
    rw [if_pos hscheme, hcutoff]
    dsimp only
    rw [← htable]
    exact ht

end Played

/-! ## The batch -/

/-- What is kept of the first elements is at the front of what is kept. -/
theorem filter_take_isPrefix {α : Type} (p : α → Bool) (l : List α) (n : Nat) :
    (l.take n).filter p <+: (l.filter p).take n := by
  have hfront : (l.take n).filter p <+: l.filter p := by
    refine ⟨(l.drop n).filter p, ?_⟩
    rw [← List.filter_append, List.take_append_drop]
  have hlength : ((l.take n).filter p).length ≤ n :=
    (List.length_filter_le _ _).trans (List.length_take_le n l)
  exact List.prefix_take_iff.2 ⟨hfront, hlength⟩

namespace Table

variable {t : Table}

theorem bySeq_pairwise (hseq : (t.rows.map WalRow.seq).Nodup) :
    t.bySeq.Pairwise fun a b => a.seq < b.seq := by
  have htotal : Std.Total fun a b : WalRow => a.seq ≤ b.seq := ⟨fun a b => le_total a.seq b.seq⟩
  have htrans : IsTrans WalRow fun a b => a.seq ≤ b.seq := ⟨fun a b c => le_trans⟩
  have hsorted := t.rows.pairwise_insertionSort fun a b => a.seq ≤ b.seq
  have hne : t.bySeq.Pairwise fun a b => a.seq ≠ b.seq := by
    rw [← List.pairwise_map (f := WalRow.seq)]
    exact ((t.rows.perm_insertionSort _).map WalRow.seq).nodup_iff.2 hseq
  exact hsorted.imp₂ (fun a b hle hne => lt_of_le_of_ne hle hne) hne

theorem mem_bySeq {row : WalRow} : row ∈ t.bySeq ↔ row ∈ t.rows := List.mem_insertionSort _

theorem nodup_evict (hseq : (t.rows.map WalRow.seq).Nodup) (cutoff : String) :
    ((t.evict cutoff).rows.map WalRow.seq).Nodup :=
  hseq.sublist (List.filter_sublist.map WalRow.seq)

/-- The eviction leaves the rows that are due. -/
theorem due_evict (hseq : (t.rows.map WalRow.seq).Nodup) (cutoff : String) : (t.evict cutoff).due = t.due := by
  have hlive : ∀ row ∈ t.rows, row.live = true → isDead cutoff row = false := by
    intro row _ hlive
    simp only [WalRow.live, decide_eq_true_eq] at hlive
    simp [isDead, hlive]
  have hperm : ((t.evict cutoff).bySeq.filter WalRow.live).Perm (t.bySeq.filter WalRow.live) := by
    have hrows : (t.evict cutoff).rows.filter WalRow.live = t.rows.filter WalRow.live := by
      rw [evict, List.filter_filter]
      refine List.filter_congr fun row hrow => ?_
      cases hlive' : row.live with
      | false => rfl
      | true => simp [hlive row hrow hlive']
    have hevicted := ((t.evict cutoff).rows.perm_insertionSort fun a b => a.seq ≤ b.seq).filter
      WalRow.live
    have hall := (t.rows.perm_insertionSort fun a b => a.seq ≤ b.seq).filter WalRow.live
    exact (hevicted.trans (hrows ▸ List.Perm.refl _)).trans hall.symm
  have hsorted := (bySeq_pairwise (nodup_evict hseq cutoff)).filter WalRow.live
  have hsorted' := (bySeq_pairwise hseq).filter WalRow.live
  rw [due, due, hperm.eq_of_pairwise (fun a b _ _ hab hba => absurd hab (Nat.lt_asymm hba))
    hsorted hsorted']

/-- The rows that are due are those of the batch that are not exhausted, as long as the batch holds
them. -/
theorem batch_filter_eq_due_iff (hseq : (t.rows.map WalRow.seq).Nodup) :
    t.batch.filter WalRow.live = t.due ↔ ∀ row ∈ t.due, row ∈ t.batch := by
  constructor
  · intro h row hrow
    rw [← h] at hrow
    exact (List.mem_filter.1 hrow).1
  · intro h
    have hbegins : t.batch.filter WalRow.live <+: t.due :=
      filter_take_isPrefix WalRow.live t.bySeq 100
    have hnodup : t.due.Nodup := by
      refine List.Nodup.sublist (List.take_sublist _ _) ?_
      exact ((bySeq_pairwise hseq).imp fun hlt heq => by simp [heq] at hlt).filter WalRow.live
    have hsubset : t.due ⊆ t.batch.filter WalRow.live := by
      intro row hrow
      have hlive := (List.mem_filter.1 (List.mem_of_mem_take hrow)).2
      exact List.mem_filter.2 ⟨h row hrow, hlive⟩
    have hlength := (List.subperm_of_subset hnodup hsubset).length_le
    exact hbegins.eq_of_length_le hlength

end Table

/-! ## The drain -/

/-- The content of a queue: `seq` is its primary key. -/
abbrev Queue := { t : Table // (t.rows.map WalRow.seq).Nodup }

/-- A base URL that the drain does not reject. -/
abbrev HttpUrl (urlScheme : String → Option String) :=
  { baseUrl : String // ∃ scheme ∈ ["http", "https"], urlScheme baseUrl = some scheme }

/-- The rows that are due are in the batch, and none of them raises what is no network error. -/
structure Unblocked (transport : Nat → Request → Attempt) (baseUrl : String) (cutoff : String)
    (t : Table) : Prop where
  batch : ∀ row ∈ t.due, row ∈ (t.evict cutoff).batch
  quiet : Quiet transport baseUrl t.due

theorem drainRows_progresses_iff (transport : Nat → Request → Attempt) (baseUrl cutoff : String)
    (q : Queue) :
    Progresses q.val (drainRows transport baseUrl (q.val.evict cutoff).batch (q.val.evict cutoff)
      ⟨0, 0, 0⟩) ↔ Unblocked transport baseUrl cutoff q.val := by
  have hseq := Table.nodup_evict q.property cutoff
  have hdue := Table.due_evict q.property cutoff
  have hbatch := Table.batch_filter_eq_due_iff hseq
  rw [hdue] at hbatch
  constructor
  · rintro ⟨⟨result, hresult, -⟩, hattempted, -⟩
    have hquiet := quiet_of_ok hresult
    obtain ⟨hall, -⟩ := drainRows_of_quiet hquiet (q.val.evict cutoff) ⟨0, 0, 0⟩
    rw [hall] at hattempted
    exact ⟨hbatch.1 hattempted, hattempted ▸ hquiet⟩
  · rintro ⟨hfits, hquiet⟩
    have heq := hbatch.2 hfits
    rw [← heq] at hquiet
    obtain ⟨hall, result, hresult, htotal⟩ :=
      drainRows_of_quiet hquiet (q.val.evict cutoff) ⟨0, 0, 0⟩
    refine ⟨⟨result, hresult, ?_⟩, hall.trans heq, fun row hrow => ?_⟩
    · dsimp only at htotal
      rw [htotal, hall]
      omega
    · refine drainRows_settled _ _ (fun other hother => ?_) ?_ hquiet hrow
      · exact Table.mem_bySeq.1 (List.mem_of_mem_take hother)
      · exact ((Table.bySeq_pairwise hseq).sublist (List.take_sublist 100 _)).imp Nat.ne_of_lt

/-- A drain makes progress exactly when no row that is due stands behind a batch of exhausted ones, and
none raises what the drain does not catch. -/
theorem drain_progresses_iff (urlScheme : String → Option String)
    (transport : Nat → Request → Attempt) (baseUrl : HttpUrl urlScheme) (now : Int) (q : Queue) :
    Progresses q.val (drain transport baseUrl.val urlScheme now q.val) ↔
      ∃ cutoff, isoformat (now - week) = some cutoff ∧
        Unblocked transport baseUrl.val cutoff q.val := by
  obtain ⟨baseUrl, scheme, hmem, hscheme⟩ := baseUrl
  dsimp only
  rw [drain, hscheme]
  dsimp only
  rw [if_pos hmem]
  cases isoformat (now - week) with
  | none =>
    refine iff_of_false ?_ (by rintro ⟨cutoff, ⟨⟩, -⟩)
    rintro ⟨⟨result, ⟨⟩, -⟩, -, -⟩
  | some cutoff =>
    simp only [Option.some.injEq, exists_eq_left']
    exact drainRows_progresses_iff transport baseUrl cutoff q

/-- A row whose token ends in a newline, and one behind it. -/
def poisoned : Table :=
  ⟨[⟨1, "/ingest/event", "\x7b\x7d", "chris", "token\n", "2026-09-30T00:00:00.000000+00:00", 0⟩,
    ⟨2, "/ingest/event", "\x7b\x7d", "chris", "token", "2026-09-30T00:00:01.000000+00:00", 0⟩], 2⟩

/-- `http.client` refuses a header with a newline; the server accepts the rest. -/
def refusingHeaders (_ : Nat) (request : Request) : Attempt :=
  if '\n' ∈ request.authorization.toList then .raised "ValueError: Invalid header value"
  else .answered (.status 200)

/-- The first row raises out of the drain, and the second is not sent. -/
theorem poisoned_blocks : ¬ Progresses poisoned (drain refusingHeaders "http://127.0.0.1:8765"
    (fun _ => some "http") 1790812800000000 poisoned) := by
  rintro ⟨⟨result, hresult, -⟩, -, -⟩
  have hraised : (drain refusingHeaders "http://127.0.0.1:8765" (fun _ => some "http")
      1790812800000000 poisoned).result = .error "ValueError: Invalid header value" := by
    rfl
  rw [hraised] at hresult
  cases hresult

end ParallaxKernel.Client
