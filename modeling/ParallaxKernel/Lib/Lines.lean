import Mathlib.Data.List.DropRight

/-!
# Lines of a text

A text cut at its line boundaries, as `str.splitlines` cuts it, and a text without the characters
of a class at its ends.
-/

namespace ParallaxKernel.Lib

/-! ## Cutting -/

/-- The boundaries of `str.splitlines`. -/
def isLineBreak (c : Char) : Bool :=
  let n := c.toNat
  (10 ≤ n && n ≤ 13) || (28 ≤ n && n ≤ 30) || n == 0x85 || n == 0x2028 || n == 0x2029

/-- The lines of a text of which `line`, reversed, is already read. -/
def splitlinesFrom (line : List Char) : List Char → List (List Char)
  | [] => if line = [] then [] else [line.reverse]
  | '\r' :: '\n' :: cs => line.reverse :: splitlinesFrom [] cs
  | c :: cs =>
    if isLineBreak c then line.reverse :: splitlinesFrom [] cs
    else splitlinesFrom (c :: line) cs

/-- `str.splitlines()`. -/
def splitlines (cs : List Char) : List (List Char) := splitlinesFrom [] cs

/-- A text with no line boundary in it. -/
def OneLine (cs : List Char) : Prop := ∀ c ∈ cs, isLineBreak c = false

instance (cs : List Char) : Decidable (OneLine cs) :=
  List.decidableBAll (fun c => isLineBreak c = false) cs

theorem OneLine.subset {cs ds : List Char} (h : OneLine ds) (hsub : cs ⊆ ds) : OneLine cs :=
  fun c hc => h c (hsub hc)

/-- What the next character does, unless it is the first half of a boundary of two. -/
theorem splitlinesFrom_cons_eq {line cs : List Char} {c : Char}
    (hcrlf : ∀ ds, c = '\r' → cs = '\n' :: ds → False) :
    splitlinesFrom line (c :: cs) =
      if isLineBreak c then line.reverse :: splitlinesFrom [] cs
      else splitlinesFrom (c :: line) cs := by
  rw [splitlinesFrom]
  exact hcrlf

theorem splitlinesFrom_cons {line cs : List Char} {c : Char} (hc : isLineBreak c = false) :
    splitlinesFrom line (c :: cs) = splitlinesFrom (c :: line) cs := by
  rw [splitlinesFrom_cons_eq, hc, if_neg Bool.false_ne_true]
  rintro ds rfl
  exact absurd hc (by decide)

theorem splitlinesFrom_append {xs cs : List Char} (hxs : OneLine xs) (line : List Char) :
    splitlinesFrom line (xs ++ cs) = splitlinesFrom (xs.reverse ++ line) cs := by
  induction xs generalizing line with
  | nil => rfl
  | cons x xs ih =>
    rw [List.cons_append, splitlinesFrom_cons (hxs x List.mem_cons_self),
      ih fun c hc => hxs c (List.mem_cons_of_mem x hc), List.reverse_cons, List.append_assoc]
    rfl

theorem splitlinesFrom_newline (line cs : List Char) :
    splitlinesFrom line ('\n' :: cs) = line.reverse :: splitlinesFrom [] cs := by
  rw [splitlinesFrom_cons_eq]
  · rfl
  · intro ds hds
    cases hds

/-- Lines that are ended one by one are read back. -/
theorem splitlines_flatMap {lines : List (List Char)} (h : ∀ line ∈ lines, OneLine line) :
    splitlines (lines.flatMap (· ++ ['\n'])) = lines := by
  induction lines with
  | nil => rfl
  | cons line lines ih =>
    have hlines := ih fun l hl => h l (List.mem_cons_of_mem line hl)
    rw [splitlines] at hlines ⊢
    rw [List.flatMap_cons, List.append_assoc, splitlinesFrom_append (h line List.mem_cons_self),
      List.singleton_append, splitlinesFrom_newline, hlines, List.append_nil, List.reverse_reverse]

theorem intercalate_newline {lines : List (List Char)} (h : lines ≠ []) :
    ['\n'].intercalate lines ++ ['\n'] = lines.flatMap (· ++ ['\n']) := by
  induction lines with
  | nil => exact absurd rfl h
  | cons line lines ih =>
    cases lines with
    | nil => rw [List.intercalate_singleton, List.flatMap_singleton]
    | cons next lines =>
      rw [List.intercalate_cons_cons, List.append_assoc, List.append_assoc,
        ih (List.cons_ne_nil next lines)]
      simp only [List.flatMap_cons, List.append_assoc]

/-- What is cut at line boundaries has none. -/
theorem oneLine_of_mem_splitlinesFrom {line cs l : List Char} (hline : OneLine line)
    (hl : l ∈ splitlinesFrom line cs) : OneLine l := by
  have hrev {line : List Char} (h : OneLine line) : OneLine line.reverse :=
    h.subset fun c hc => List.mem_reverse.1 hc
  have hnil : OneLine [] := fun c hc => absurd hc List.not_mem_nil
  induction line, cs using splitlinesFrom.induct with
  | case1 =>
    cases hl
  | case2 line hne =>
    rw [splitlinesFrom, if_neg hne, List.mem_singleton] at hl
    rw [hl]
    exact hrev hline
  | case3 line cs ih =>
    rw [splitlinesFrom] at hl
    cases List.mem_cons.1 hl with
    | inl h =>
      rw [h]
      exact hrev hline
    | inr h => exact ih hnil h
  | case4 line c cs hcrlf hbreak ih =>
    rw [splitlinesFrom_cons_eq hcrlf, if_pos hbreak] at hl
    cases List.mem_cons.1 hl with
    | inl h =>
      rw [h]
      exact hrev hline
    | inr h => exact ih hnil h
  | case5 line c cs hcrlf hbreak ih =>
    rw [splitlinesFrom_cons_eq hcrlf, if_neg hbreak] at hl
    exact ih (List.forall_mem_cons.2 ⟨Bool.eq_false_iff.2 hbreak, hline⟩) hl

theorem oneLine_of_mem_splitlines {cs l : List Char} (hl : l ∈ splitlines cs) : OneLine l :=
  oneLine_of_mem_splitlinesFrom (fun _ hc => absurd hc List.not_mem_nil) hl

/-! ## Stripping -/

variable {p : Char → Bool} {cs : List Char}

/-- A text without the characters of a class at its ends. -/
def stripBy (p : Char → Bool) (cs : List Char) : List Char :=
  ((cs.dropWhile p).reverse.dropWhile p).reverse

theorem stripBy_subset (p : Char → Bool) (cs : List Char) : stripBy p cs ⊆ cs := by
  intro c hc
  have hmem := (List.dropWhile_suffix p).subset (List.mem_reverse.1 hc)
  exact (List.dropWhile_suffix p).subset (List.mem_reverse.1 hmem)

theorem head?_stripBy {c : Char} (hc : c ∈ (stripBy p cs).head?) : p c = false := by
  obtain ⟨dropped, hdropped⟩ : stripBy p cs <+: cs.dropWhile p := List.rdropWhile_prefix p _
  have hhead : (cs.dropWhile p).head? = some c := by
    rw [← hdropped, List.head?_append, Option.mem_def.1 hc]
    rfl
  have hne := List.head?_dropWhile_not p cs
  rw [hhead] at hne
  simpa using hne

theorem stripBy_cons {c : Char} (hc : p c = false) : ∃ tail, stripBy p (c :: cs) = c :: tail := by
  have hbegins : stripBy p (c :: cs) <+: (c :: cs).dropWhile p := List.rdropWhile_prefix p _
  rw [List.dropWhile_cons_of_neg (by rw [hc]; exact Bool.false_ne_true)] at hbegins
  cases h : stripBy p (c :: cs) with
  | nil =>
    have hnil : (c :: cs).rdropWhile p = [] := by
      rw [← h, stripBy, List.dropWhile_cons_of_neg (by rw [hc]; exact Bool.false_ne_true)]
      rfl
    have hall := List.rdropWhile_eq_nil_iff.1 hnil c List.mem_cons_self
    rw [hc] at hall
    cases hall
  | cons d tail =>
    rw [h] at hbegins
    obtain rfl : d = c := (List.cons_prefix_cons.1 hbegins).1
    exact ⟨tail, rfl⟩

theorem stripBy_stripBy (p : Char → Bool) (cs : List Char) :
    stripBy p (stripBy p cs) = stripBy p cs := by
  have hdrop : (stripBy p cs).dropWhile p = stripBy p cs := by
    cases h : stripBy p cs with
    | nil => rfl
    | cons c tail =>
      have hc : p c = false := head?_stripBy (by rw [h]; rfl)
      rw [List.dropWhile_cons_of_neg (by rw [hc]; exact Bool.false_ne_true)]
  calc stripBy p (stripBy p cs) = ((stripBy p cs).dropWhile p).rdropWhile p := rfl
    _ = (stripBy p cs).rdropWhile p := by rw [hdrop]
    _ = stripBy p cs := List.rdropWhile_idempotent p _

end ParallaxKernel.Lib
