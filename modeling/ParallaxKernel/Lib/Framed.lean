import Mathlib.Data.List.Chain
import Mathlib.Data.List.Infix

/-!
# Framed tokens

A row of labelled tokens is written with a mark before and a mark after each token, and a further
mark after the last token of a line. Tokens may hold the marks themselves. The text determines the
tokens if and only if no two neighbours can be cut in another way.
-/

namespace ParallaxKernel.Lib

/-- The marks, the labels after whose token a line ends, and the tokens that may stand under a
label: all those that hold a closing mark, among others. -/
structure Framing (α β : Type) where
  start : α
  stop : α
  line : α
  ends : β → Bool
  fits : β → List α → Prop
  start_ne_stop : start ≠ stop
  start_ne_line : start ≠ line
  stop_ne_line : stop ≠ line
  fits_of_stop {l : β} {t : List α} (h : stop ∈ t) : fits l t

namespace Framing

variable {α β : Type} (F : Framing α β)

/-- What follows a token. -/
def close (l : β) : List α := if F.ends l then [F.stop, F.line] else [F.stop]

def text (ps : List (β × List α)) : List α := ps.flatMap fun p => F.start :: (p.2 ++ F.close p.1)

/-- The text of two neighbours is the text of two other tokens. -/
def Recuttable (a b : β × List α) : Prop :=
  ∃ u v, F.fits a.1 u ∧ F.fits b.1 v ∧ u ≠ a.2 ∧
    u ++ (F.close a.1 ++ F.start :: v) = a.2 ++ (F.close a.1 ++ F.start :: b.2)

def Rigid (ps : List (β × List α)) : Prop := ps.IsChain fun a b => ¬ F.Recuttable a b

variable {F} {a b p : β × List α} {as bs : List (β × List α)} {l m : β} {r t u v x y : List α}

@[simp] theorem text_nil : F.text [] = [] := rfl

@[simp] theorem text_cons : F.text (p :: as) = F.start :: (p.2 ++ (F.close p.1 ++ F.text as)) := by
  simp [text]

@[simp] theorem text_append : F.text (as ++ bs) = F.text as ++ F.text bs := List.flatMap_append

theorem stop_mem_close : F.stop ∈ F.close l := by
  unfold close
  split_ifs <;> simp

/-- A text starts with its mark. -/
theorem text_ne_stop : F.text as ≠ F.stop :: t := by
  cases as with
  | nil => simp
  | cons p as => simp [F.start_ne_stop]

theorem text_ne_line : F.text as ≠ F.line :: t := by
  cases as with
  | nil => simp
  | cons p as => simp [F.start_ne_line]

theorem text_ne_close : F.text as ≠ F.close l ++ t := by
  unfold close
  split_ifs <;> exact text_ne_stop

theorem close_ne_line : F.close l ++ x ≠ F.line :: t := by
  unfold close
  split_ifs <;> simp [F.stop_ne_line]

/-! ## Two closings in one text -/

/-- Closings that begin at one place are the same. -/
theorem close_align (h : F.close l ++ F.start :: x = F.close m ++ F.text as) :
    F.close l = F.close m ∧ F.text as = F.start :: x := by
  unfold close at h ⊢
  split_ifs at h ⊢
  · simpa [eq_comm] using h
  · simp only [List.cons_append, List.nil_append, List.cons.injEq, true_and] at h
    exact absurd h.symm text_ne_line
  · simp only [List.cons_append, List.nil_append, List.cons.injEq, true_and] at h
    exact absurd h.1 F.start_ne_line
  · simpa [eq_comm] using h

/-- A closing that begins later lies within a later token. -/
theorem close_shift (h : F.close m ++ F.text as = r ++ (F.close l ++ y)) (hr : r ≠ []) :
    ∃ w, r = F.close m ++ F.start :: w ∧ F.text as = F.start :: (w ++ (F.close l ++ y)) := by
  obtain ⟨s, hs, hrest⟩ | ⟨s, hs, hrest⟩ := List.append_eq_append_iff.1 h
  · cases s with
    | nil => exact absurd hrest text_ne_close
    | cons c s =>
      cases as with
      | nil => simp at hrest
      | cons p as =>
        rw [text_cons, List.cons_append, List.cons.injEq] at hrest
        exact ⟨s, by rw [hs, hrest.1], by rw [text_cons, hrest.2]⟩
  · -- the later closing begins within the earlier one
    cases s with
    | nil => exact absurd hrest.symm text_ne_close
    | cons c s =>
      obtain ⟨d, r, rfl⟩ := List.exists_cons_of_ne_nil hr
      cases hm : F.ends m with
      | false => simp [close, hm] at hs
      | true =>
        obtain rfl : F.line = c := by
          cases r with
          | nil => simp_all [close]
          | cons e r => simp [close, hm] at hs
        exact absurd hrest close_ne_line

/-! ## Cutting -/

/-- Where the neighbours are rigid, the rest of a token cannot reach into the next one: `x` is what
is left of a token under the label of `p` when the text of `as` begins. -/
theorem Rigid.not_behind (has : F.Rigid (p :: as)) (hframe : as.map Prod.fst = bs.map Prod.fst)
    (hbs : ∀ b ∈ bs, F.fits b.1 b.2) :
    F.text as ≠ F.start :: (x ++ (F.close p.1 ++ F.text bs)) := by
  induction as generalizing p bs x with
  | nil => simp
  | cons a as ih =>
    cases bs with
    | nil => cases hframe
    | cons b bs =>
      rw [List.map_cons, List.map_cons, List.cons.injEq] at hframe
      obtain ⟨hlabel, hframe⟩ := hframe
      rw [Rigid, List.isChain_cons_cons] at has
      obtain ⟨hrigid, has⟩ := has
      have hnext (w : List α) :
          F.text as ≠ F.start :: (w ++ (F.close a.1 ++ F.text bs)) :=
        ih has hframe fun c hc => hbs c (List.mem_cons_of_mem b hc)
      intro h
      simp only [text_cons, List.cons.injEq, true_and, ← hlabel] at h
      obtain ⟨r, hr, h⟩ | ⟨r, hr, h⟩ := List.append_eq_append_iff.1 h
      · -- the token of `a` ends first
        cases r with
        | nil =>
          obtain ⟨-, hafter⟩ := close_align (by simpa using h.symm)
          exact hnext b.2 hafter
        | cons c r =>
          obtain ⟨w, -, hafter⟩ := close_shift h (by simp)
          exact hnext (w ++ (F.close p.1 ++ F.start :: b.2)) (by simpa using hafter)
      · cases r with
        | nil =>
          obtain ⟨-, hafter⟩ := close_align (by simpa using h)
          exact hnext b.2 hafter
        | cons c r =>
          -- the token of `a` holds the end of the one before, and could have been cut there
          have hshift : F.close p.1 ++ F.text ((a.1, b.2) :: bs) =
              c :: r ++ (F.close a.1 ++ F.text as) := by
            rw [text_cons, h]
          obtain ⟨w, hw, hafter⟩ := close_shift hshift (by simp)
          simp only [text_cons, List.cons.injEq, true_and] at hafter
          have hw' : ¬ F.fits a.1 w := by
            intro hfits
            refine hrigid ⟨p.2 ++ (F.close p.1 ++ F.start :: x), w, ?_, hfits, by simp, ?_⟩
            · exact F.fits_of_stop (by simp [stop_mem_close])
            · simp [hr, hw]
          obtain ⟨s, hs, hafter⟩ | ⟨s, hs, hafter⟩ := List.append_eq_append_iff.1 hafter
          · cases s with
            | nil =>
              obtain rfl : w = b.2 := by simpa using hs
              exact hw' (hlabel ▸ hbs b List.mem_cons_self)
            | cons d s =>
              obtain ⟨y, hy, -⟩ := close_shift hafter (by simp)
              exact hw' (F.fits_of_stop (by simp [hs, hy, stop_mem_close]))
          · cases s with
            | nil =>
              obtain rfl : b.2 = w := by simpa using hs
              exact hw' (hlabel ▸ hbs b List.mem_cons_self)
            | cons d s =>
              obtain ⟨y, -, hafter⟩ := close_shift hafter (by simp)
              exact hnext y hafter

/-- The text of rigid tokens determines them. -/
theorem Rigid.eq_of_text_eq (has : F.Rigid as) (hframe : as.map Prod.fst = bs.map Prod.fst)
    (hbs : ∀ b ∈ bs, F.fits b.1 b.2) (h : F.text as = F.text bs) : as = bs := by
  induction as generalizing bs with
  | nil => exact (List.map_eq_nil_iff.1 hframe.symm).symm
  | cons a as ih =>
    cases bs with
    | nil => cases hframe
    | cons b bs =>
      rw [List.map_cons, List.map_cons, List.cons.injEq] at hframe
      obtain ⟨hlabel, hframe⟩ := hframe
      have hrest : ∀ c ∈ bs, F.fits c.1 c.2 := fun c hc => hbs c (List.mem_cons_of_mem b hc)
      simp only [text_cons, List.cons.injEq, true_and, ← hlabel] at h
      obtain ⟨r, hr, h⟩ | ⟨r, hr, h⟩ := List.append_eq_append_iff.1 h
      · cases r with
        | nil =>
          have heq : a = b := Prod.ext hlabel (by simpa using hr.symm)
          rw [heq, ih has.tail hframe hrest (by simpa using h)]
        | cons c r =>
          obtain ⟨w, -, hafter⟩ := close_shift h (by simp)
          exact absurd hafter (has.not_behind hframe hrest)
      · cases r with
        | nil =>
          have heq : a = b := Prod.ext hlabel (by simpa using hr)
          rw [heq, ih has.tail hframe hrest (by simpa using h.symm)]
        | cons c r =>
          obtain ⟨w, hw, hafter⟩ := close_shift h (by simp)
          cases as with
          | nil =>
            rw [List.map_eq_nil_iff.1 hframe.symm] at hafter
            cases hafter
          | cons a' as =>
            rw [Rigid, List.isChain_cons_cons] at has
            refine absurd ⟨b.2, w ++ (F.close a.1 ++ F.start :: a'.2), ?_, ?_, ?_, ?_⟩ has.1
            · exact hlabel ▸ hbs b List.mem_cons_self
            · exact F.fits_of_stop (by simp [stop_mem_close])
            · simp [hr]
            · simp [hr, hw]

/-- Neighbours cut in another way: the text stays and the first token has another length. -/
theorem exists_of_recuttable (h : F.Recuttable a b) :
    ∃ u v, F.fits a.1 u ∧ F.fits b.1 v ∧ u.length ≠ a.2.length ∧
      ∀ as bs, F.text (as ++ (a.1, u) :: (b.1, v) :: bs) = F.text (as ++ a :: b :: bs) := by
  obtain ⟨u, v, hu, hv, hne, htext⟩ := h
  refine ⟨u, v, hu, hv, ?_, fun as bs => ?_⟩
  · intro hlen
    exact hne (List.append_inj_left htext hlen)
  · have hcut := congrArg (· ++ (F.close b.1 ++ F.text bs)) htext
    simpa using hcut

end Framing
end ParallaxKernel.Lib
