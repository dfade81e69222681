import ParallaxKernel.Lib.Runs
import ParallaxKernel.Router.CrosswalkBackfill

/-!
# Which connections are gated

The registry of `SQLiteGate` has one weak reference for the address of a connection, to the gate
constructed on it last. It tells whether any gate wraps the connection as long as that gate does not
go before the others.
-/

namespace ParallaxKernel.Router

open Lib Store

/-- A `sqlite3.Connection`, and its `id`. Addresses are used again, serial numbers are not. -/
structure Connection where
  serial : Nat
  addr : Nat
  deriving DecidableEq

structure SqliteGate where
  serial : Nat
  conn : Connection
  deriving DecidableEq

namespace SqliteGate

/-- The objects that exist, and the registry. -/
structure Heap where
  connections : List Connection
  closed : List Connection
  gates : List SqliteGate
  /-- `_active_gate_by_conn_id`. -/
  activeGate : Nat → Option SqliteGate
  /-- How many objects were created. -/
  created : Nat

/-- `_COMPONENT_LABEL_VALUES`. -/
def componentLabelValues : List String := ["ingest", "m2_shadow", "regular_query", "m3_dual_read"]

namespace Heap

def empty : Heap where
  connections := []
  closed := []
  gates := []
  activeGate _ := none
  created := 0

/-- `ref()`. -/
def deref (s : Heap) (ref : SqliteGate) : Option SqliteGate :=
  if ref ∈ s.gates then some ref else none

/-- `_prune_dead_refs_locked`. -/
def pruneDeadRefs (s : Heap) : Heap :=
  { s with activeGate := fun addr => (s.activeGate addr).bind s.deref }

/-- `is_connection_gated`, and the registry it leaves. -/
def isConnectionGated (s : Heap) (c : Connection) : Bool × Heap :=
  let s := s.pruneDeadRefs
  (((s.activeGate c.addr).bind s.deref).isSome, s)

/-- `_register_and_apply_pragmas` of a gate; `none` where a pragma raises, and the registry in
either case. A closed connection has no cursor for the pragmas. -/
def register (s : Heap) (g : SqliteGate) (pragmasRaise : Bool) : Option Unit × Heap :=
  let s := s.pruneDeadRefs
  let needApply := ((s.activeGate g.conn.addr).bind s.deref).isNone
  if needApply ∧ (g.conn ∈ s.closed ∨ pragmasRaise = true) then (none, s)
  else (some (), { s with activeGate := Function.update s.activeGate g.conn.addr (some g) })

/-- The constructor. A gate whose constructor raises is nobody's. -/
def construct (s : Heap) (c : Connection) (component : String) (pragmasRaise : Bool) : Heap :=
  if component ∉ componentLabelValues then s
  else
    let g : SqliteGate := ⟨s.created, c⟩
    match { s with created := s.created + 1 }.register g pragmasRaise with
    | (none, s) => s
    | (some (), s) => { s with gates := g :: s.gates }

/-- `backfill_crosswalk` on a connection. -/
def backfillCrosswalk (s : Heap) (c : Connection) (userId : String) (limit : Nat) (now : String)
    (x : Tables) : Except Exc (Tables × BackfillStats) :=
  Router.backfillCrosswalk (s.isConnectionGated c).1 userId limit now x

end Heap

/-! ## Runs -/

inductive Event where
  | connect (addr : Nat)
  | close (c : Connection)
  | construct (c : Connection) (component : String) (pragmasRaise : Bool)
  | query (c : Connection)
  | collectGate (g : SqliteGate)
  | collectConnection (c : Connection)

open Heap in
/-- What an event does; `none` where it cannot happen. An address is free when no connection has it,
and a gate keeps its connection. -/
def step (s : Heap) : Event → Option Heap
  | .connect addr =>
    if addr ∈ s.connections.map Connection.addr then none
    else some { s with
      connections := ⟨s.created, addr⟩ :: s.connections
      created := s.created + 1 }
  | .close c => if c ∈ s.connections then some { s with closed := c :: s.closed } else none
  | .construct c component pragmasRaise =>
    if c ∈ s.connections then some (s.construct c component pragmasRaise) else none
  | .query c => if c ∈ s.connections then some (s.isConnectionGated c).2 else none
  | .collectGate g => if g ∈ s.gates then some { s with gates := s.gates.erase g } else none
  | .collectConnection c =>
    if c ∈ s.connections ∧ ∀ g ∈ s.gates, g.conn ≠ c then
      some { s with connections := s.connections.erase c }
    else none

/-- The answers of the registry and of the backfill are right for every connection. -/
structure Exact (s : Heap) : Prop where
  gated : ∀ c ∈ s.connections,
    ((s.isConnectionGated c).1 = true ↔ ∃ g ∈ s.gates, g.conn = c)
  refused : ∀ c ∈ s.connections, ∀ userId limit now x,
    (∃ e, s.backfillCrosswalk c userId limit now x = .error e) ↔ ∃ g ∈ s.gates, g.conn = c

/-- No gate is collected while it is the newest of several on its connection. -/
def NewestLast (s : Heap) : Event → Prop
  | .collectGate g =>
    (∃ h ∈ s.gates, h.conn = g.conn ∧ g.serial < h.serial) ∨
      ∀ h ∈ s.gates, h.conn = g.conn → h = g
  | _ => True

/-! ## What every run keeps -/

/-- The newest gate on its connection. -/
structure Newest (gates : List SqliteGate) (g : SqliteGate) : Prop where
  live : g ∈ gates
  newest : ∀ h ∈ gates, h.conn = g.conn → h.serial ≤ g.serial

/-- A connection with gates is registered with the newest of them. -/
structure Registered (s : Heap) : Prop where
  addrs : (s.connections.map Connection.addr).Nodup
  fresh : ∀ g ∈ s.gates, g.serial < s.created
  serials : (s.gates.map SqliteGate.serial).Nodup
  held : ∀ g ∈ s.gates, g.conn ∈ s.connections
  addressed : ∀ addr g, s.activeGate addr = some g → g.conn.addr = addr
  registered : ∀ g ∈ s.gates, ∃ n, s.activeGate g.conn.addr = some n ∧ n.conn = g.conn ∧
    Newest s.gates n

variable {s t : Heap} {e : Event} {g h : SqliteGate} {c d : Connection}

theorem Heap.deref_eq_some : s.deref g = some h ↔ g = h ∧ g ∈ s.gates := by
  simp [deref, and_comm]

theorem Heap.pruned_eq_some {addr : Nat} :
    s.pruneDeadRefs.activeGate addr = some g ↔ s.activeGate addr = some g ∧ g ∈ s.gates := by
  simp only [pruneDeadRefs, Option.bind_eq_some_iff, deref_eq_some]
  constructor
  · rintro ⟨h, hactive, rfl, hlive⟩
    exact ⟨hactive, hlive⟩
  · rintro ⟨hactive, hlive⟩
    exact ⟨g, hactive, rfl, hlive⟩

theorem isConnectionGated_iff :
    (s.isConnectionGated c).1 = true ↔ ∃ g, s.activeGate c.addr = some g ∧ g ∈ s.gates := by
  simp only [Heap.isConnectionGated, Option.isSome_iff_exists, Option.bind_eq_some_iff,
    Heap.deref_eq_some, Heap.pruned_eq_some]
  constructor
  · rintro ⟨-, g, hg, rfl, -⟩
    exact ⟨g, hg⟩
  · rintro ⟨g, hg⟩
    exact ⟨g, g, hg, rfl, hg.2⟩

theorem backfillCrosswalk_error_iff {userId now : String} {limit : Nat} {x : Tables} :
    (∃ e, s.backfillCrosswalk c userId limit now x = .error e) ↔
      (s.isConnectionGated c).1 = true := by
  rw [Heap.backfillCrosswalk]
  cases (s.isConnectionGated c).1 with
  | true => simp [Router.backfillCrosswalk]
  | false =>
    obtain ⟨stats, hok, -⟩ := backfillCrosswalk_ok userId limit now x
    simp [hok]

namespace Registered

theorem conn_eq (hs : Registered s) (hc : c ∈ s.connections) (hd : d ∈ s.connections)
    (h : c.addr = d.addr) : c = d :=
  List.inj_on_of_nodup_map hs.addrs hc hd h

theorem exact (hs : Registered s) : Exact s := by
  have hgated : ∀ c ∈ s.connections,
      ((s.isConnectionGated c).1 = true ↔ ∃ g ∈ s.gates, g.conn = c) := by
    intro c hc
    rw [isConnectionGated_iff]
    constructor
    · rintro ⟨g, hactive, hg⟩
      exact ⟨g, hg, hs.conn_eq (hs.held g hg) hc (hs.addressed _ g hactive)⟩
    · rintro ⟨g, hg, rfl⟩
      obtain ⟨n, hactive, -, hnewest⟩ := hs.registered g hg
      exact ⟨n, hactive, hnewest.live⟩
  refine ⟨hgated, fun c hc userId limit now x => ?_⟩
  rw [backfillCrosswalk_error_iff]
  exact hgated c hc

/-! ### Steps -/

theorem prune (hs : Registered s) : Registered s.pruneDeadRefs where
  addrs := hs.addrs
  fresh := hs.fresh
  serials := hs.serials
  held := hs.held
  addressed addr g h := hs.addressed addr g (Heap.pruned_eq_some.1 h).1
  registered g hg := by
    obtain ⟨n, hactive, hconn, hnewest⟩ := hs.registered g hg
    exact ⟨n, Heap.pruned_eq_some.2 ⟨hactive, hnewest.live⟩, hconn, hnewest⟩

/-- A gate that is newer than all others, registered for its connection. -/
theorem add (hs : Registered s) (hc : c ∈ s.connections)
    (hserial : ∀ h ∈ s.gates, h.serial < g.serial) (hg : g.conn = c)
    (hcreated : g.serial < s.created) :
    Registered { s with
      activeGate := Function.update s.activeGate g.conn.addr (some g)
      gates := g :: s.gates } where
  addrs := hs.addrs
  fresh := List.forall_mem_cons.2 ⟨hcreated, hs.fresh⟩
  serials := by
    rw [List.map_cons, List.nodup_cons]
    refine ⟨?_, hs.serials⟩
    intro hmem
    obtain ⟨h, hh, hsame⟩ := List.mem_map.1 hmem
    exact absurd (hserial h hh) (by omega)
  held := List.forall_mem_cons.2 ⟨hg ▸ hc, hs.held⟩
  addressed addr h hactive := by
    by_cases haddr : addr = g.conn.addr
    · obtain rfl : g = h := by simpa [haddr] using hactive
      exact haddr.symm
    · exact hs.addressed addr h (by simpa [Function.update_of_ne haddr] using hactive)
  registered := by
    have hself : Newest (g :: s.gates) g := by
      refine ⟨List.mem_cons_self, List.forall_mem_cons.2 ⟨fun _ => le_rfl, ?_⟩⟩
      exact fun h hh _ => (hserial h hh).le
    refine List.forall_mem_cons.2 ⟨⟨g, Function.update_self .., rfl, hself⟩, ?_⟩
    intro h hh
    by_cases haddr : h.conn.addr = g.conn.addr
    · have hconn : h.conn = g.conn := hs.conn_eq (hs.held h hh) (hg ▸ hc) haddr
      exact ⟨g, by simp [hconn], hconn.symm, hself⟩
    · obtain ⟨n, hactive, hconn, hnewest⟩ := hs.registered h hh
      refine ⟨n, by simpa [Function.update_of_ne haddr] using hactive, hconn,
        List.mem_cons_of_mem g hnewest.live, List.forall_mem_cons.2 ⟨?_, hnewest.newest⟩⟩
      intro hgn
      exact absurd (by rw [hgn, hconn]) haddr

theorem created (hs : Registered s) {n : Nat} (hn : s.created ≤ n) :
    Registered { s with created := n } :=
  ⟨hs.addrs, fun g hg => (hs.fresh g hg).trans_le hn, hs.serials, hs.held,
    hs.addressed, hs.registered⟩

theorem construct (hs : Registered s) (hc : c ∈ s.connections) (component : String)
    (pragmasRaise : Bool) : Registered (s.construct c component pragmasRaise) := by
  have hnext := (hs.created (Nat.le_succ s.created)).prune
  unfold Heap.construct
  by_cases hcomponent : component ∉ componentLabelValues
  · rw [if_pos hcomponent]
    exact hs
  · rw [if_neg hcomponent]
    dsimp only [Heap.register]
    split_ifs with hraise
    · exact hnext
    · exact hnext.add (g := ⟨s.created, c⟩) hc hs.fresh rfl (Nat.lt_succ_self _)

theorem collectGate (hs : Registered s) (hg : g ∈ s.gates)
    (hkeeps : NewestLast s (.collectGate g)) : Registered { s with gates := s.gates.erase g } where
  addrs := hs.addrs
  fresh h hh := hs.fresh h (List.mem_of_mem_erase hh)
  serials := (List.erase_sublist.map _).nodup hs.serials
  held h hh := hs.held h (List.mem_of_mem_erase hh)
  addressed := hs.addressed
  registered h hh := by
    rw [hs.serials.of_map.mem_erase_iff] at hh
    obtain ⟨n, hactive, hconn, hnewest⟩ := hs.registered h hh.2
    refine ⟨n, hactive, hconn, ?_, fun m hm => hnewest.newest m (List.mem_of_mem_erase hm)⟩
    rw [hs.serials.of_map.mem_erase_iff]
    refine ⟨?_, hnewest.live⟩
    rintro rfl
    cases hkeeps with
    | inl hnewer =>
      obtain ⟨m, hm, hsame, hlt⟩ := hnewer
      exact absurd (hnewest.newest m hm hsame) (by omega)
    | inr honly => exact hh.1 (honly h hh.2 hconn.symm)

theorem step (hs : Registered s) (hstep : SqliteGate.step s e = some t) (hkeeps : NewestLast s e) :
    Registered t := by
  cases e with
  | connect addr =>
    obtain ⟨hnew, ⟨⟩⟩ := Option.ite_none_left_eq_some.1 hstep
    have hnext := hs.created (Nat.le_succ s.created)
    refine ⟨?_, hnext.fresh, hs.serials, ?_, hs.addressed, hnext.registered⟩
    · exact List.nodup_cons.2 ⟨hnew, hs.addrs⟩
    · exact fun g hg => List.mem_cons_of_mem _ (hs.held g hg)
  | close c =>
    obtain ⟨-, ⟨⟩⟩ := Option.ite_none_right_eq_some.1 hstep
    exact ⟨hs.addrs, hs.fresh, hs.serials, hs.held, hs.addressed, hs.registered⟩
  | construct c component pragmasRaise =>
    obtain ⟨hc, ⟨⟩⟩ := Option.ite_none_right_eq_some.1 hstep
    exact hs.construct hc component pragmasRaise
  | query c =>
    obtain ⟨-, ⟨⟩⟩ := Option.ite_none_right_eq_some.1 hstep
    exact hs.prune
  | collectGate g =>
    obtain ⟨hg, ⟨⟩⟩ := Option.ite_none_right_eq_some.1 hstep
    exact hs.collectGate hg hkeeps
  | collectConnection c =>
    obtain ⟨⟨-, hfree⟩, ⟨⟩⟩ := Option.ite_none_right_eq_some.1 hstep
    refine ⟨?_, hs.fresh, hs.serials, ?_, hs.addressed, hs.registered⟩
    · exact (List.erase_sublist.map _).nodup hs.addrs
    · exact fun g hg => (List.mem_erase_of_ne (hfree g hg)).2 (hs.held g hg)

/-- The newest gate is the registered one: without it, the others are forgotten. -/
theorem not_exact (hs : Registered s) (hstep : SqliteGate.step s e = some t)
    (hkeeps : ¬ NewestLast s e) : ¬ Exact t := by
  cases e with
  | collectGate g =>
    obtain ⟨hg, ⟨⟩⟩ := Option.ite_none_right_eq_some.1 hstep
    simp only [NewestLast, not_or, not_exists, not_and, not_lt, not_forall] at hkeeps
    obtain ⟨hnewest, h, hh, hconn, hne⟩ := hkeeps
    obtain ⟨n, hactive, hsame, hn⟩ := hs.registered g hg
    have hserial : n.serial = g.serial :=
      le_antisymm (hnewest n hn.live hsame) (hn.newest g hg hsame.symm)
    obtain rfl : n = g := List.inj_on_of_nodup_map hs.serials hn.live hg hserial
    intro hexact
    have hgated := (hexact.gated n.conn (hs.held n hg)).2
      ⟨h, (List.mem_erase_of_ne hne).2 hh, hconn⟩
    obtain ⟨m, hm, hlive⟩ := isConnectionGated_iff.1 hgated
    obtain rfl : n = m := by simpa [hactive] using hm
    exact (hs.serials.of_map.mem_erase_iff.1 hlive).1 rfl
  | connect addr => exact absurd trivial hkeeps
  | close c => exact absurd trivial hkeeps
  | construct c component pragmasRaise => exact absurd trivial hkeeps
  | query c => exact absurd trivial hkeeps
  | collectConnection c => exact absurd trivial hkeeps

theorem empty : Registered .empty where
  addrs := List.nodup_nil
  fresh _ hg := by cases hg
  serials := List.nodup_nil
  held _ hg := by cases hg
  addressed _ _ h := by cases h
  registered _ hg := by cases hg

end Registered

/-- Every answer along a run is right if and only if no gate is collected in it while it is the
newest of several on its connection. -/
theorem exact_along_iff (events : List Event) :
    Along step (fun _ _ t => Exact t) .empty events ↔
      Along step (fun s e _ => NewestLast s e) .empty events := by
  refine along_iff (fun s e t hs hstep => ?_) Registered.empty events
  have hexact : NewestLast s e → Exact t := fun hkeeps => (hs.step hstep hkeeps).exact
  have hkeeps : Exact t → NewestLast s e := not_imp_not.1 (hs.not_exact hstep)
  exact ⟨⟨hkeeps, hexact⟩, fun h => hs.step hstep (hkeeps h)⟩

/-- Two gates on one connection, of which the newer one is collected. -/
def newerGateFirst : List Event :=
  let c : Connection := ⟨0, 64⟩
  [.connect 64, .construct c "m3_dual_read" false, .construct c "ingest" false,
    .collectGate ⟨2, c⟩]

theorem not_exact_newerGateFirst :
    ¬ ∀ events, Along step (fun _ _ t => Exact t) .empty events := by
  intro h
  have hlast := ((((h newerGateFirst _ rfl).2 _ rfl).2 _ rfl).2 _ rfl).1
  have hgated := (hlast.gated ⟨0, 64⟩ (by decide)).2 ⟨⟨1, ⟨0, 64⟩⟩, by decide, rfl⟩
  exact absurd hgated (by decide)

end SqliteGate
end ParallaxKernel.Router
