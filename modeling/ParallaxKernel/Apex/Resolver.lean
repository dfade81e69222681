import Mathlib.Algebra.Order.Field.Rat
import Mathlib.Data.Finset.Card
import Mathlib.Data.Prod.Lex
import Mathlib.Data.String.Basic
import ParallaxKernel.Lib.KeyedList

/-!
# The resolver

`apex/resolver.py`: the subjects that share a word with a prompt, best first. The ratios of the
ranking are exact, and `str.lower` is a parameter.
-/

namespace ParallaxKernel.Apex

/-- `STOPWORDS`. -/
def stopwords : List String :=
  ["a", "an", "and", "are", "as", "at", "be", "but", "by", "did", "do", "does", "for", "from",
    "had", "has", "have", "how", "i", "if", "in", "into", "is", "it", "its", "me", "my", "of",
    "on", "or", "our", "so", "that", "the", "their", "them", "then", "there", "these", "they",
    "this", "to", "was", "we", "were", "what", "when", "which", "who", "why", "will", "with",
    "you", "your"]

/-- `_MIN_TOKEN_LEN`. -/
def minTokenLen : Nat := 2

/-- `[a-z0-9]`. -/
def isTokenChar (c : Char) : Bool := c.isLower || c.isDigit

def tokenize (lower : String → String) (text : String) : Finset String :=
  let pieces := ((lower text).toList.splitOnP fun c => !isTokenChar c).map String.ofList
  (pieces.filter fun tok => minTokenLen ≤ tok.length && tok ∉ stopwords).toFinset

structure ScoredSubject where
  subject : String
  overlap : Nat
  coverage : ℚ
  jaccard : ℚ
  deriving DecidableEq

/-- `sort_key`. -/
def ScoredSubject.sortKey (s : ScoredSubject) : ℤ ×ₗ ℚ ×ₗ ℚ ×ₗ String :=
  toLex (-s.overlap, toLex (-s.coverage, toLex (-s.jaccard, s.subject)))

variable (lower : String → String)

/-- The score of a subject that shares a token with the prompt. -/
def score (promptTokens : Finset String) (subject : String) : Option ScoredSubject :=
  let subjectTokens := tokenize lower subject
  let overlap := (promptTokens ∩ subjectTokens).card
  if overlap = 0 then none
  else some {
    subject
    overlap
    coverage := overlap / subjectTokens.card
    jaccard := overlap / (promptTokens ∪ subjectTokens).card }

/-- The loop of `resolve_subjects`, which passes over a subject that it has seen. -/
def scoreAll (promptTokens : Finset String) (seen : List String) : List String → List ScoredSubject
  | [] => []
  | subject :: subjects =>
    if subject ∈ seen then scoreAll promptTokens seen subjects
    else
      (score lower promptTokens subject).toList ++
        scoreAll promptTokens (subject :: seen) subjects

/-- The best `topK` subjects, none where `topK` is not positive. -/
def resolveSubjects (prompt : String) (subjects : List String) (topK : Int) : List ScoredSubject :=
  let scored := scoreAll lower (tokenize lower prompt) [] subjects
  (scored.insertionSort fun a b => a.sortKey ≤ b.sortKey).take topK.toNat

variable {lower} {promptTokens : Finset String} {seen xs ys : List String} {s : ScoredSubject}

theorem score_subject {subject : String} (h : score lower promptTokens subject = some s) :
    s.subject = subject := by
  dsimp only [score] at h
  split_ifs at h
  obtain rfl := Option.some.inj h
  rfl

/-- A subject with a score has a token of the prompt. -/
theorem score_shared {subject : String} (h : score lower promptTokens subject = some s) :
    ∃ tok ∈ promptTokens, tok ∈ tokenize lower subject := by
  dsimp only [score] at h
  split_ifs at h with hzero
  obtain ⟨tok, htok⟩ := Finset.card_ne_zero.1 hzero
  exact ⟨tok, Finset.mem_inter.1 htok⟩

theorem mem_scoreAll : s ∈ scoreAll lower promptTokens seen xs ↔
    s.subject ∈ xs ∧ s.subject ∉ seen ∧ score lower promptTokens s.subject = some s := by
  induction xs generalizing seen with
  | nil => simp [scoreAll]
  | cons subject xs ih =>
    unfold scoreAll
    split_ifs with hseen
    · rw [ih, List.mem_cons]
      constructor
      · rintro ⟨hmem, h⟩
        exact ⟨.inr hmem, h⟩
      · rintro ⟨rfl | hmem, hnew, h⟩
        · exact absurd hseen hnew
        · exact ⟨hmem, hnew, h⟩
    · rw [List.mem_append, ih, List.mem_cons, List.mem_cons, Option.mem_toList]
      constructor
      · rintro (h | ⟨hmem, hnew, h⟩)
        · obtain rfl := score_subject h
          exact ⟨.inl rfl, hseen, h⟩
        · exact ⟨.inr hmem, fun hs => hnew (.inr hs), h⟩
      · rintro ⟨hmem, hnew, h⟩
        by_cases heq : s.subject = subject
        · rw [heq] at h
          exact .inl h
        · exact .inr ⟨hmem.resolve_left heq, not_or.2 ⟨heq, hnew⟩, h⟩

theorem nodup_scoreAll : (scoreAll lower promptTokens seen xs).Nodup := by
  induction xs generalizing seen with
  | nil => exact List.nodup_nil
  | cons subject xs ih =>
    unfold scoreAll
    split_ifs with hseen
    · exact ih
    · refine List.nodup_append.2 ⟨?_, ih, ?_⟩
      · cases score lower promptTokens subject with
        | none => exact List.nodup_nil
        | some s => exact List.nodup_singleton s
      · rintro a ha b hb rfl
        have hsubject := score_subject (Option.mem_toList.1 ha)
        exact (mem_scoreAll.1 hb).2.1 (by simp [hsubject])

theorem pairwise_sortKey (scored : List ScoredSubject) :
    (scored.insertionSort fun a b => a.sortKey ≤ b.sortKey).Pairwise
      fun a b => a.sortKey ≤ b.sortKey := by
  have htotal : Std.Total fun a b : ScoredSubject => a.sortKey ≤ b.sortKey :=
    ⟨fun a b => le_total a.sortKey b.sortKey⟩
  have htrans : IsTrans ScoredSubject fun a b => a.sortKey ≤ b.sortKey :=
    ⟨fun a b c => le_trans⟩
  exact List.pairwise_insertionSort _ scored

/-- The candidates depend on the subjects as a set. -/
theorem resolveSubjects_congr {prompt : String} {topK : Int} (h : ∀ x, x ∈ xs ↔ x ∈ ys) :
    resolveSubjects lower prompt xs topK = resolveSubjects lower prompt ys topK := by
  have hperm : (scoreAll lower (tokenize lower prompt) [] xs).Perm
      (scoreAll lower (tokenize lower prompt) [] ys) := by
    refine (List.perm_ext_iff_of_nodup nodup_scoreAll nodup_scoreAll).2 fun s => ?_
    rw [mem_scoreAll, mem_scoreAll, h]
  refine congrArg (List.take topK.toNat) ?_
  refine List.Perm.eq_of_pairwise ?_ (pairwise_sortKey _) (pairwise_sortKey _)
    ((List.perm_insertionSort _ _).trans (hperm.trans (List.perm_insertionSort _ _).symm))
  intro a b ha hb hab hba
  -- the key ends with the subject, of which the score is a function
  have hkey : a.sortKey = b.sortKey := le_antisymm hab hba
  have hsubject : a.subject = b.subject := by
    simpa [ScoredSubject.sortKey] using congrArg (fun k => (ofLex (ofLex (ofLex k).2).2).2) hkey
  have hscore (zs : List String) (s : ScoredSubject)
      (hs : s ∈ (scoreAll lower (tokenize lower prompt) [] zs).insertionSort
        fun a b => a.sortKey ≤ b.sortKey) :
      score lower (tokenize lower prompt) s.subject = some s :=
    (mem_scoreAll.1 ((List.mem_insertionSort _).1 hs)).2.2
  have ha := hscore xs a ha
  have hb := hscore ys b hb
  rw [hsubject] at ha
  exact Option.some.inj (ha.symm.trans hb)

/-- A candidate is one of the subjects and shares a token with the prompt. -/
theorem mem_resolveSubjects {prompt : String} {topK : Int}
    (h : s ∈ resolveSubjects lower prompt xs topK) :
    s.subject ∈ xs ∧ ∃ tok ∈ tokenize lower prompt, tok ∈ tokenize lower s.subject := by
  obtain ⟨hmem, -, hscore⟩ := mem_scoreAll.1 ((List.mem_insertionSort _).1 (List.mem_of_mem_take h))
  exact ⟨hmem, score_shared hscore⟩

end ParallaxKernel.Apex
