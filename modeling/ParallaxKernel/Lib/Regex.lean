import Mathlib.Tactic.Common

/-!
# Regular expressions

Matching as a backtracking engine does it: a class repeats as often as it can and gives characters
back until the rest matches, an alternative and an option try their first branch first. Texts that
groups have captured are kept with their names.
-/

namespace ParallaxKernel.Lib

/-- Expressions in which only classes repeat. -/
inductive Regex where
  | cls (p : Char → Bool)
  | many (p : Char → Bool)
  | seq (a b : Regex)
  | alt (a b : Regex)
  | opt (a : Regex)
  | capture (name : String) (a : Regex)
  | eol

namespace Regex

abbrev Captures := List (String × List Char)

/-- What is left to be matched. -/
abbrev Rest := List Char → Captures → Option Captures

/-- `p*`. -/
def execMany (p : Char → Bool) (caps : Captures) (k : Rest) : List Char → Option Captures
  | [] => k [] caps
  | c :: cs =>
    if p c then (execMany p caps k cs).or (k (c :: cs) caps)
    else k (c :: cs) caps

def exec : Regex → List Char → Captures → Rest → Option Captures
  | cls _, [], _, _ => none
  | cls p, c :: cs, caps, k => if p c then k cs caps else none
  | many p, cs, caps, k => execMany p caps k cs
  | seq a b, cs, caps, k => exec a cs caps fun rest caps => exec b rest caps k
  | alt a b, cs, caps, k => (exec a cs caps k).or (exec b cs caps k)
  | opt a, cs, caps, k => (exec a cs caps k).or (k cs caps)
  | capture name a, cs, caps, k => exec a cs caps fun rest caps =>
      k rest ((name, cs.take (cs.length - rest.length)) :: caps)
  | eol, cs, caps, k => if cs = [] ∨ cs = ['\n'] then k cs caps else none

/-- `re.match`. -/
def match_ (r : Regex) (cs : List Char) : Option Captures := exec r cs [] fun _ caps => some caps

/-- `p+`. -/
def plus (p : Char → Bool) : Regex := seq (cls p) (many p)

/-- A character. -/
def chr (c : Char) : Regex := cls (· = c)

variable {p : Char → Bool} {cs rest : List Char} {caps r : Captures} {k : Rest} {name : String}
variable {a b : Regex}

theorem execMany_cons (c : Char) : execMany p caps k (c :: cs) =
    if p c then (execMany p caps k cs).or (k (c :: cs) caps) else k (c :: cs) caps := rfl

theorem exec_cls_cons (c : Char) :
    exec (cls p) (c :: cs) caps k = if p c then k cs caps else none := rfl

theorem exec_many_eq : exec (many p) cs caps k = execMany p caps k cs := rfl

theorem exec_seq : exec (seq a b) cs caps k = exec a cs caps fun rest caps => exec b rest caps k :=
  rfl

theorem exec_alt : exec (alt a b) cs caps k = (exec a cs caps k).or (exec b cs caps k) := rfl

theorem exec_opt_eq : exec (opt a) cs caps k = (exec a cs caps k).or (k cs caps) := rfl

theorem exec_capture : exec (capture name a) cs caps k = exec a cs caps fun rest caps =>
    k rest ((name, cs.take (cs.length - rest.length)) :: caps) := rfl

theorem exec_eol : exec eol cs caps k = if cs = [] ∨ cs = ['\n'] then k cs caps else none := rfl

/-! ## What a match consists of -/

theorem exec_cls_eq_some (h : exec (cls p) cs caps k = some r) :
    ∃ c rest, cs = c :: rest ∧ p c = true ∧ k rest caps = some r := by
  cases cs with
  | nil => cases h
  | cons c cs =>
    rw [exec_cls_cons] at h
    split at h
    · next hc => exact ⟨c, cs, rfl, hc, h⟩
    · cases h

theorem exec_many_eq_some (h : exec (many p) cs caps k = some r) :
    ∃ xs rest, cs = xs ++ rest ∧ (∀ c ∈ xs, p c = true) ∧ k rest caps = some r := by
  rw [exec_many_eq] at h
  induction cs with
  | nil => exact ⟨[], [], rfl, fun c hc => absurd hc List.not_mem_nil, h⟩
  | cons c cs ih =>
    rw [execMany_cons] at h
    have hstop (h : k (c :: cs) caps = some r) : ∃ xs rest, c :: cs = xs ++ rest ∧
        (∀ c ∈ xs, p c = true) ∧ k rest caps = some r :=
      ⟨[], c :: cs, rfl, fun c hc => absurd hc List.not_mem_nil, h⟩
    split at h
    · next hc =>
      cases Option.or_eq_some_iff.1 h with
      | inl h =>
        obtain ⟨xs, rest, hcs, hxs, hk⟩ := ih h
        exact ⟨c :: xs, rest, by rw [hcs]; rfl, List.forall_mem_cons.2 ⟨hc, hxs⟩, hk⟩
      | inr h => exact hstop h.2
    · exact hstop h

theorem exec_plus_eq_some (h : exec (plus p) cs caps k = some r) :
    ∃ xs rest, xs ≠ [] ∧ cs = xs ++ rest ∧ (∀ c ∈ xs, p c = true) ∧ k rest caps = some r := by
  obtain ⟨c, tail, rfl, hc, h⟩ := exec_cls_eq_some h
  obtain ⟨xs, rest, rfl, hxs, hk⟩ := exec_many_eq_some h
  exact ⟨c :: xs, rest, List.cons_ne_nil c xs, rfl, List.forall_mem_cons.2 ⟨hc, hxs⟩, hk⟩

theorem exec_capture_plus_eq_some (h : exec (capture name (plus p)) cs caps k = some r) :
    ∃ xs rest, xs ≠ [] ∧ cs = xs ++ rest ∧ (∀ c ∈ xs, p c = true) ∧
      k rest ((name, xs) :: caps) = some r := by
  obtain ⟨xs, rest, hne, rfl, hxs, hk⟩ := exec_plus_eq_some h
  refine ⟨xs, rest, hne, rfl, hxs, ?_⟩
  rwa [List.length_append, Nat.add_sub_cancel, List.take_left] at hk

theorem exec_chr_eq_some {c : Char} (h : exec (chr c) cs caps k = some r) :
    ∃ rest, cs = c :: rest ∧ k rest caps = some r := by
  obtain ⟨d, rest, rfl, hd, hk⟩ := exec_cls_eq_some h
  obtain rfl := of_decide_eq_true hd
  exact ⟨rest, rfl, hk⟩

theorem exec_alt_eq_some (h : exec (alt a b) cs caps k = some r) :
    exec a cs caps k = some r ∨ exec b cs caps k = some r := by
  cases Option.or_eq_some_iff.1 h with
  | inl h => exact .inl h
  | inr h => exact .inr h.2

theorem exec_opt_eq_some (h : exec (opt a) cs caps k = some r) :
    exec a cs caps k = some r ∨ k cs caps = some r := by
  cases Option.or_eq_some_iff.1 h with
  | inl h => exact .inl h
  | inr h => exact .inr h.2

theorem exec_eol_eq_some (h : exec eol cs caps k = some r) :
    (cs = [] ∨ cs = ['\n']) ∧ k cs caps = some r := by
  rw [exec_eol] at h
  split at h
  · next hcs => exact ⟨hcs, h⟩
  · cases h

/-! ## Greedy matches -/

theorem exec_cls {c : Char} (hc : p c = true) : exec (cls p) (c :: cs) caps k = k cs caps := by
  rw [exec_cls_cons, if_pos hc]

theorem exec_chr (c : Char) : exec (chr c) (c :: cs) caps k = k cs caps :=
  exec_cls (decide_eq_true rfl)

/-- The longest repetition is tried first. -/
theorem exec_many {xs : List Char} (hxs : ∀ c ∈ xs, p c = true)
    (hrest : ∀ c ∈ rest.head?, p c = false) (hk : k rest caps = some r) :
    exec (many p) (xs ++ rest) caps k = some r := by
  rw [exec_many_eq]
  induction xs with
  | nil =>
    rw [List.nil_append]
    cases rest with
    | nil => exact hk
    | cons c rest =>
      have hc : p c = false := hrest c rfl
      rw [execMany_cons, if_neg (by rw [hc]; exact Bool.false_ne_true)]
      exact hk
  | cons c xs ih =>
    rw [List.cons_append, execMany_cons, if_pos (hxs c List.mem_cons_self),
      ih fun d hd => hxs d (List.mem_cons_of_mem c hd)]
    rfl

theorem exec_many_none (hcs : ∀ c ∈ cs.head?, p c = false) (hk : k cs caps = some r) :
    exec (many p) cs caps k = some r := by
  have h := exec_many (p := p) (fun c (hc : c ∈ ([] : List Char)) => absurd hc List.not_mem_nil)
    hcs hk
  rwa [List.nil_append] at h

theorem exec_plus {xs : List Char} (hne : xs ≠ []) (hxs : ∀ c ∈ xs, p c = true)
    (hrest : ∀ c ∈ rest.head?, p c = false) (hk : k rest caps = some r) :
    exec (plus p) (xs ++ rest) caps k = some r := by
  cases xs with
  | nil => exact absurd rfl hne
  | cons c xs =>
    rw [plus, List.cons_append, exec_seq, exec_cls (hxs c List.mem_cons_self)]
    exact exec_many (fun d hd => hxs d (List.mem_cons_of_mem c hd)) hrest hk

theorem exec_plus_one {c : Char} (hc : p c = true) (hrest : ∀ d ∈ rest.head?, p d = false)
    (hk : k rest caps = some r) : exec (plus p) (c :: rest) caps k = some r :=
  exec_plus (List.cons_ne_nil c []) (List.forall_mem_singleton.2 hc) hrest hk

theorem exec_capture_plus {xs : List Char} (hne : xs ≠ []) (hxs : ∀ c ∈ xs, p c = true)
    (hrest : ∀ c ∈ rest.head?, p c = false) (hk : k rest ((name, xs) :: caps) = some r) :
    exec (capture name (plus p)) (xs ++ rest) caps k = some r := by
  rw [exec_capture]
  refine exec_plus hne hxs hrest ?_
  rwa [List.length_append, Nat.add_sub_cancel, List.take_left]

theorem exec_capture_plus_all {xs : List Char} (hne : xs ≠ []) (hxs : ∀ c ∈ xs, p c = true)
    (hk : k [] ((name, xs) :: caps) = some r) :
    exec (capture name (plus p)) xs caps k = some r := by
  have h := exec_capture_plus hne hxs (fun c (hc : c ∈ ([] : List Char).head?) => nomatch hc) hk
  rwa [List.append_nil] at h

theorem exec_alt_left (h : exec a cs caps k = some r) : exec (alt a b) cs caps k = some r := by
  rw [exec_alt, h]
  rfl

theorem exec_opt (h : exec a cs caps k = some r) : exec (opt a) cs caps k = some r := by
  rw [exec_opt_eq, h]
  rfl

end Regex
end ParallaxKernel.Lib
