import Mathlib.Data.List.Count
import Mathlib.Logic.Function.Basic
import Mathlib.Tactic.Common

/-!
# Locks by key, counted by reference

A table of locks that are made on demand: a client registers under its key, which makes the lock of
the key or counts one more reference to it, waits for the lock, leaves it, and unregisters; the
last reference takes the lock out of the table. Registering and unregistering are atomic. However
the clients interleave, those of one key share one lock, so at most one of them is inside, and the
table holds nothing that nobody refers to.
-/

namespace ParallaxKernel.Lib

variable {κ : Type} [DecidableEq κ]

/-- Where a client stands, and with which lock. -/
inductive Phase where
  | outside
  | waiting (lock : Nat)
  | inside (lock : Nat)
  | leaving (lock : Nat)
  deriving DecidableEq

/-- The lock that a registered client uses. -/
def Phase.lock : Phase → Option Nat
  | outside => none
  | waiting lock | inside lock | leaving lock => some lock

/-- A lock and the number of clients registered for it. -/
structure LockEntry where
  lock : Nat
  refs : Int

/-- The entries by key, the locks that are held, and the next lock to be made. -/
structure LockTable (κ : Type) where
  entries : κ → Option LockEntry
  held : Nat → Bool
  next : Nat

namespace LockTable

def empty : LockTable κ := ⟨fun _ => none, fun _ => false, 0⟩

def acquire (t : LockTable κ) (k : κ) : Nat × LockTable κ :=
  match t.entries k with
  | none => (t.next,
      { t with entries := Function.update t.entries k (some ⟨t.next, 1⟩), next := t.next + 1 })
  | some e => (e.lock,
      { t with entries := Function.update t.entries k (some { e with refs := e.refs + 1 }) })

/-- Takes a lock that is not held. -/
def enter (t : LockTable κ) (lock : Nat) : Option (LockTable κ) :=
  if t.held lock then none else some { t with held := Function.update t.held lock true }

def leave (t : LockTable κ) (lock : Nat) : LockTable κ :=
  { t with held := Function.update t.held lock false }

def release (t : LockTable κ) (k : κ) : LockTable κ :=
  match t.entries k with
  | none => t
  | some e =>
    let refs := e.refs - 1
    if refs ≤ 0 then { t with entries := Function.update t.entries k none }
    else { t with entries := Function.update t.entries k (some { e with refs := refs }) }

end LockTable

/-! ## The invariant -/

/-- The clients registered under a key. -/
def registered (clients : List (κ × Phase)) (k : κ) : Nat :=
  clients.countP fun c => c.1 = k ∧ c.2 ≠ .outside

/-- The clients inside a lock. -/
def insiders (clients : List (κ × Phase)) (lock : Nat) : Nat :=
  clients.countP fun c => c.2 = .inside lock

structure LockInv (t : LockTable κ) (clients : List (κ × Phase)) : Prop where
  refs : ∀ k e, t.entries k = some e → e.refs = registered clients k ∧ 0 < registered clients k
  absent : ∀ k, t.entries k = none → registered clients k = 0
  shared : ∀ c ∈ clients, ∀ lock, c.2.lock = some lock →
    ∃ e, t.entries c.1 = some e ∧ e.lock = lock
  apart : ∀ k k' e e', t.entries k = some e → t.entries k' = some e' → e.lock = e'.lock → k = k'
  made : ∀ k e, t.entries k = some e → e.lock < t.next
  held : ∀ lock, insiders clients lock = if t.held lock then 1 else 0

namespace LockInv

variable {t : LockTable κ} {clients : List (κ × Phase)} {i : Nat} {k : κ} {lock : Nat}

theorem empty : LockInv (LockTable.empty : LockTable κ) [] := by
  constructor <;> simp [LockTable.empty, registered, insiders]

theorem come (h : LockInv t clients) (k : κ) : LockInv t (clients ++ [(k, .outside)]) := by
  have hreg (k' : κ) : registered (clients ++ [(k, .outside)]) k' = registered clients k' := by
    simp [registered]
  have hin (lock : Nat) : insiders (clients ++ [(k, .outside)]) lock = insiders clients lock := by
    simp [insiders]
  obtain ⟨hrefs, habsent, hshared, hapart, hmade, hheld⟩ := h
  refine ⟨fun k' e he => ?_, fun k' he => ?_, fun c hc lock hlock => ?_, hapart, hmade, fun l => ?_⟩
  · rw [hreg]
    exact hrefs k' e he
  · rw [hreg]
    exact habsent k' he
  · rcases List.mem_append.1 hc with hc | hc
    · exact hshared c hc lock hlock
    · rw [List.mem_singleton.1 hc] at hlock
      exact nomatch hlock
  · rw [hin]
    exact hheld l

/-! ### One client moves -/

theorem countP_set {α : Type} (p : α → Bool) {l : List α} {i : Nat} {a : α} (b : α)
    (ha : l[i]? = some a) :
    (l.set i b).countP p + (if p a then 1 else 0) = l.countP p + if p b then 1 else 0 := by
  obtain ⟨hi, rfl⟩ := List.getElem?_eq_some_iff.1 ha
  have hcount := List.countP_set (p := p) (a := b) hi
  by_cases hp : p l[i] = true
  · have hpos : 0 < l.countP p := List.countP_pos_iff.2 ⟨_, l.getElem_mem hi, hp⟩
    simp only [hp, if_true] at hcount ⊢
    omega
  · rw [if_neg hp] at hcount ⊢
    omega

variable {phase : Phase}

theorem registered_set (hi : clients[i]? = some (k, phase)) (phase' : Phase) (k' : κ) :
    registered (clients.set i (k, phase')) k' + (if k = k' ∧ phase ≠ .outside then 1 else 0) =
      registered clients k' + if k = k' ∧ phase' ≠ .outside then 1 else 0 := by
  simpa [registered] using
    countP_set (fun c : κ × Phase => decide (c.1 = k' ∧ c.2 ≠ .outside)) (k, phase') hi

omit [DecidableEq κ] in
theorem insiders_set (hi : clients[i]? = some (k, phase)) (phase' : Phase) (lock : Nat) :
    insiders (clients.set i (k, phase')) lock + (if phase = .inside lock then 1 else 0) =
      insiders clients lock + if phase' = .inside lock then 1 else 0 := by
  simpa [insiders] using
    countP_set (fun c : κ × Phase => decide (c.2 = .inside lock)) (k, phase') hi

/-- A registered client is counted. -/
theorem registered_pos {c : κ × Phase} (hc : c ∈ clients) (hlock : c.2.lock = some lock) :
    0 < registered clients c.1 := by
  refine List.countP_pos_iff.2 ⟨c, hc, ?_⟩
  cases hphase : c.2 with
  | outside => simp [hphase, Phase.lock] at hlock
  | waiting l => simp
  | inside l => simp
  | leaving l => simp

variable {phase' : Phase}

/-- A client moves outside the locks and the entry of its key follows its count. -/
theorem register (h : LockInv t clients) (hi : clients[i]? = some (k, phase))
    {new : Option LockEntry} {next : Nat} (hnext : t.next ≤ next)
    (hout : ∀ lock, phase ≠ .inside lock) (hout' : ∀ lock, phase' ≠ .inside lock)
    (hrefs : ∀ e, new = some e → e.refs = registered (clients.set i (k, phase')) k)
    (hzero : new = none ↔ registered (clients.set i (k, phase')) k = 0)
    (hsame : ∀ e, new = some e → (∀ e₀, t.entries k = some e₀ → e.lock = e₀.lock) ∧
      (t.entries k = none → e.lock = t.next ∧ t.next < next))
    (hlock : ∀ lock, phase'.lock = some lock → ∃ e, new = some e ∧ e.lock = lock) :
    LockInv ⟨Function.update t.entries k new, t.held, next⟩ (clients.set i (k, phase')) := by
  have hother (k' : κ) (hne : k' ≠ k) :
      registered (clients.set i (k, phase')) k' = registered clients k' := by
    simpa [Ne.symm hne] using registered_set hi phase' k'
  have hin (lock : Nat) : insiders (clients.set i (k, phase')) lock = insiders clients lock := by
    simpa [hout lock, hout' lock] using insiders_set hi phase' lock
  have hold (e : LockEntry) (he : new = some e) : t.entries k = none ∧ e.lock = t.next ∧
      t.next < next ∨ ∃ e₀, t.entries k = some e₀ ∧ e.lock = e₀.lock := by
    cases hk : t.entries k with
    | none => exact .inl ⟨rfl, (hsame e he).2 hk⟩
    | some e₀ => exact .inr ⟨e₀, rfl, (hsame e he).1 e₀ hk⟩
  -- The lock of the key that moves is not the lock of another key.
  have hfresh (e : LockEntry) (he : new = some e) (k' : κ) (e' : LockEntry)
      (he' : t.entries k' = some e') (heq : e.lock = e'.lock) : k' = k := by
    obtain ⟨-, hnew, -⟩ | ⟨e₀, hk, hlock₀⟩ := hold e he
    · have := h.made k' e' he'
      omega
    · exact h.apart k' k e' e₀ he' hk (heq.symm.trans hlock₀)
  have hat := Function.update_self k new t.entries
  have hoff (k' : κ) (hne : k' ≠ k) := Function.update_of_ne hne new t.entries
  refine ⟨fun k' e he => ?_, fun k' he => ?_, fun c hc lock hclock => ?_,
    fun k' k'' e e' he he' heq => ?_, fun k' e he => ?_, fun lock => by rw [hin, h.held]⟩
  · by_cases hk' : k' = k
    · subst hk'
      have hnew : new = some e := hat.symm.trans he
      exact ⟨hrefs e hnew, Nat.pos_of_ne_zero fun hcount => by simp [hzero.2 hcount] at hnew⟩
    · rw [hother k' hk']
      exact h.refs k' e ((hoff k' hk').symm.trans he)
  · by_cases hk' : k' = k
    · subst hk'
      exact hzero.1 (hat.symm.trans he)
    · rw [hother k' hk']
      exact h.absent k' ((hoff k' hk').symm.trans he)
  · obtain hmem | rfl := List.mem_or_eq_of_mem_set hc
    · obtain ⟨e₀, he₀, hlock₀⟩ := h.shared c hmem lock hclock
      by_cases hk' : c.1 = k
      · have hpos := registered_pos hc hclock
        rw [hk'] at hpos he₀
        obtain ⟨e, he⟩ := Option.ne_none_iff_exists'.1
          fun hnone => absurd (hzero.1 hnone) (Nat.ne_of_gt hpos)
        exact ⟨e, hk' ▸ hat.trans he, ((hsame e he).1 e₀ he₀).trans hlock₀⟩
      · exact ⟨e₀, (hoff c.1 hk').trans he₀, hlock₀⟩
    · obtain ⟨e, he, hlock'⟩ := hlock lock hclock
      exact ⟨e, hat.trans he, hlock'⟩
  · by_cases hk' : k' = k <;> by_cases hk'' : k'' = k
    · rw [hk', hk'']
    · subst hk'
      exact (hfresh e (hat.symm.trans he) k'' e' ((hoff k'' hk'').symm.trans he') heq).symm
    · subst hk''
      exact hfresh e' (hat.symm.trans he') k' e ((hoff k' hk').symm.trans he) heq.symm
    · exact h.apart k' k'' e e' ((hoff k' hk').symm.trans he) ((hoff k'' hk'').symm.trans he') heq
  · by_cases hk' : k' = k
    · subst hk'
      obtain ⟨-, hnew, hlt⟩ | ⟨e₀, hk, hlock₀⟩ := hold e (hat.symm.trans he)
      · exact hnew ▸ hlt
      · exact hlock₀ ▸ Nat.lt_of_lt_of_le (h.made k' e₀ hk) hnext
    · exact Nat.lt_of_lt_of_le (h.made k' e ((hoff k' hk').symm.trans he)) hnext

theorem acquire (h : LockInv t clients) (hi : clients[i]? = some (k, .outside)) :
    LockInv (t.acquire k).2 (clients.set i (k, .waiting (t.acquire k).1)) := by
  have hreg := registered_set hi (.waiting (t.acquire k).1) k
  simp only [ne_eq, not_true, and_false, if_false, reduceCtorEq, not_false_eq_true, and_true,
    if_true, Nat.add_zero] at hreg
  cases hk : t.entries k with
  | none =>
    have hcount := h.absent k hk
    simp only [LockTable.acquire, hk] at hreg ⊢
    refine h.register hi (Nat.le_succ _) nofun nofun ?_ ?_ ?_ ?_
    · rintro e ⟨⟩
      simp [hreg, hcount]
    · simp [hreg]
    · rintro e ⟨⟩
      exact ⟨fun e₀ he₀ => (nomatch hk.symm.trans he₀), fun _ => ⟨rfl, Nat.lt_succ_self _⟩⟩
    · rintro lock ⟨⟩
      exact ⟨_, rfl, rfl⟩
  | some e =>
    obtain ⟨hcount, -⟩ := h.refs k e hk
    simp only [LockTable.acquire, hk] at hreg ⊢
    refine h.register hi (Nat.le_refl _) nofun nofun ?_ ?_ ?_ ?_
    · rintro e' ⟨⟩
      simp [hreg, hcount]
    · simp [hreg]
    · rintro e' ⟨⟩
      exact ⟨fun e₀ he₀ => by rw [Option.some.inj (hk.symm.trans he₀)],
        fun hnone => (nomatch hk.symm.trans hnone)⟩
    · rintro lock ⟨⟩
      exact ⟨_, rfl, rfl⟩

theorem release (h : LockInv t clients) (hi : clients[i]? = some (k, .leaving lock)) :
    LockInv (t.release k) (clients.set i (k, .outside)) := by
  have hreg := registered_set hi .outside k
  simp only [ne_eq, not_true, and_false, if_false, reduceCtorEq, not_false_eq_true, and_true,
    if_true, Nat.add_zero] at hreg
  obtain ⟨e, hk, -⟩ := h.shared _ (List.mem_of_getElem? hi) lock rfl
  obtain ⟨hcount, -⟩ := h.refs k e hk
  simp only [LockTable.release, hk]
  split
  · refine h.register hi (Nat.le_refl _) nofun nofun nofun ?_ nofun nofun
    simp
    omega
  · refine h.register hi (Nat.le_refl _) nofun nofun ?_ ?_ ?_ nofun
    · rintro e' ⟨⟩
      simp only
      omega
    · simp
      omega
    · rintro e' ⟨⟩
      exact ⟨fun e₀ he₀ => by rw [Option.some.inj (hk.symm.trans he₀)],
        fun hnone => (nomatch hk.symm.trans hnone)⟩

/-- A client moves between registered phases of its lock. -/
theorem hold (h : LockInv t clients) (hi : clients[i]? = some (k, phase))
    (hlock : phase.lock = some lock) (hlock' : phase'.lock = some lock) {held : Nat → Bool}
    (hheld : ∀ l, insiders (clients.set i (k, phase')) l = if held l then 1 else 0) :
    LockInv { t with held := held } (clients.set i (k, phase')) := by
  have hne : ∀ ph : Phase, ph.lock = some lock → ph ≠ .outside := by
    rintro ph hph rfl
    exact nomatch hph
  have hreg (k' : κ) : registered (clients.set i (k, phase')) k' = registered clients k' := by
    have := registered_set hi phase' k'
    simp only [hne phase hlock, hne phase' hlock', ne_eq, not_false_eq_true, and_true] at this
    omega
  refine ⟨fun k' e he => ?_, fun k' he => ?_, fun c hc l hl => ?_, h.apart, h.made, hheld⟩
  · rw [hreg]
    exact h.refs k' e he
  · rw [hreg]
    exact h.absent k' he
  · obtain hmem | rfl := List.mem_or_eq_of_mem_set hc
    · exact h.shared c hmem l hl
    · obtain rfl : lock = l := by simpa [hlock'] using hl
      exact h.shared (k, phase) (List.mem_of_getElem? hi) lock hlock

theorem enter (h : LockInv t clients) (hi : clients[i]? = some (k, .waiting lock))
    {t' : LockTable κ} (ht : t.enter lock = some t') :
    LockInv t' (clients.set i (k, .inside lock)) := by
  unfold LockTable.enter at ht
  split at ht
  · exact nomatch ht
  · rename_i hfree
    obtain rfl := Option.some.inj ht
    refine h.hold hi rfl rfl fun l => ?_
    have hcount := insiders_set hi (.inside lock) l
    have hheld := h.held l
    by_cases hl : l = lock
    · subst hl
      simp [hfree] at hcount hheld ⊢
      omega
    · simpa [hl, Ne.symm hl, hheld] using hcount

theorem leave (h : LockInv t clients) (hi : clients[i]? = some (k, .inside lock)) :
    LockInv (t.leave lock) (clients.set i (k, .leaving lock)) := by
  refine h.hold hi rfl rfl fun l => ?_
  have hcount := insiders_set hi (.leaving lock) l
  have hheld := h.held l
  by_cases hl : l = lock
  · subst hl
    simp at hcount ⊢
    split at hheld <;> omega
  · simpa [hl, Ne.symm hl, hheld] using hcount

theorem stay (h : LockInv t clients) (hi : clients[i]? = some (k, phase)) :
    LockInv t (clients.set i (k, phase)) := by
  obtain ⟨hlt, hget⟩ := List.getElem?_eq_some_iff.1 hi
  rwa [← hget, List.set_getElem_self]

/-! ### What the invariant says -/

theorem one_lock (h : LockInv t clients) {c c' : κ × Phase} (hc : c ∈ clients)
    (hc' : c' ∈ clients) (hkey : c.1 = c'.1) {l l' : Nat} (hl : c.2.lock = some l)
    (hl' : c'.2.lock = some l') : l = l' := by
  obtain ⟨e, he, rfl⟩ := h.shared c hc l hl
  obtain ⟨e', he', rfl⟩ := h.shared c' hc' l' hl'
  rw [hkey, he'] at he
  rw [Option.some.inj he]

/-- Two clients inside the lock of one key are one client. -/
theorem exclusive (h : LockInv t clients) {i j : Nat} {l l' : Nat}
    (hi : clients[i]? = some (k, .inside l)) (hj : clients[j]? = some (k, .inside l')) :
    i = j := by
  obtain rfl := h.one_lock (List.mem_of_getElem? hi) (List.mem_of_getElem? hj) rfl rfl rfl
  by_contra hne
  have hcount := insiders_set hi .outside l
  have hj' : (clients.set i (k, .outside))[j]? = some (k, .inside l) := by
    rw [List.getElem?_set_ne hne, hj]
  have hpos : 0 < insiders (clients.set i (k, .outside)) l :=
    List.countP_pos_iff.2 ⟨_, List.mem_of_getElem? hj', by simp⟩
  have hheld := h.held l
  simp only [if_true, reduceCtorEq, if_false] at hcount
  split at hheld <;> omega

/-- A client that waits may enter when no client of its key is inside. -/
theorem free (h : LockInv t clients) (hi : clients[i]? = some (k, .waiting lock))
    (hnone : ∀ c ∈ clients, c.1 = k → ∀ l, c.2 ≠ .inside l) : t.held lock = false := by
  obtain ⟨e, he, rfl⟩ := h.shared _ (List.mem_of_getElem? hi) lock rfl
  by_contra hheld
  have hcount := h.held e.lock
  rw [if_pos (by simpa using hheld)] at hcount
  obtain ⟨c, hc, hin⟩ := List.countP_pos_iff.1 (show 0 < insiders clients e.lock by omega)
  have hphase : c.2 = .inside e.lock := by simpa using hin
  obtain ⟨e', he', hlock'⟩ := h.shared c hc e.lock (by rw [hphase]; rfl)
  exact hnone c hc (h.apart _ _ e' e he' he hlock') _ hphase

theorem refs_pos (h : LockInv t clients) {e : LockEntry} (he : t.entries k = some e) :
    0 < e.refs := by
  have := h.refs k e he
  omega

theorem empty_of_outside (h : LockInv t clients) (hout : ∀ c ∈ clients, c.2 = .outside) (k : κ) :
    t.entries k = none := by
  cases hk : t.entries k with
  | none => rfl
  | some e =>
    obtain ⟨-, hpos⟩ := h.refs k e hk
    obtain ⟨c, hc, hreg⟩ := List.countP_pos_iff.1 hpos
    simp [hout c hc] at hreg

end LockInv
end ParallaxKernel.Lib
