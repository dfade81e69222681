import ParallaxKernel.Retrieval.Embeddings
import ParallaxKernel.Retrieval.RankFusion

/-!
# Hybrid ranking

`lexical_rank`, `dense_rank` and `hybrid_rank` of `retrieval/semantic.py` over the outcomes of the
embedding request. `hybrid_rank` catches `EmbeddingError` and nothing else. The scores that are fused
are exact.
-/

namespace ParallaxKernel.Retrieval

open Lib

/-- What the ranking takes from Python. -/
structure Platform where
  /-- `_WORD_RE.findall(text.lower())`. -/
  words : PyStr → List PyStr
  words_nil : words [] = []
  words_letter : words (.ofString "a") = [.ofString "a"]
  /-- The order in which a set is iterated. -/
  iterate : List PyStr → List PyStr
  iterate_perm : ∀ toks, (iterate toks).Perm toks
  /-- `math.log(x)`; `none` where it raises `ValueError`. -/
  log : Double → Option Double
  log_of_one_le : ∀ x : Double, x.NotBelow 1 → x ≠ .nan →
    ∃ y, log x = some y ∧ y.NotBelow 0 ∧ y ≠ .nan
  /-- `sum(xs)`, which newer versions compensate. -/
  sum : List Double → Double
  sum_nil : sum [] = .zero
  sum_singleton : ∀ x, sum [x] = x
  /-- `float(s)`; `none` where it raises `ValueError`. -/
  parse : PyStr → Option Double
  sort : PySort

variable (T : Platform)

/-- `range(n)`. -/
def indices (n : Nat) : List Int := (List.range n).map Nat.cast

/-! ## The lexical ranking -/

/-- `set(tokenize(text))`. -/
def tokenSet (text : PyStr) : List PyStr := (T.words text).dedup

/-- `_idf(tok)`: `df` counts the texts with the token. -/
def idf (docTokens : List (List PyStr)) (tok : PyStr) : Except Raised Double :=
  let nDocs := max docTokens.length 1
  let df := docTokens.countP fun toks => tok ∈ toks
  match T.log (.round ((nDocs + 1) / (df + 1))) with
  | some x => .ok (x.add .one)
  | none => .error .valueError

/-- `sum(_idf(tok) for tok in toks & q_tokens) / denom`. -/
def lexicalScore (qTokens : List PyStr) (docTokens : List (List PyStr)) (toks : List PyStr) :
    Except Raised Double := do
  let idfs ← (T.iterate (toks.filter (· ∈ qTokens))).mapM (idf T docTokens)
  match (T.sum idfs).div (.round qTokens.length) with
  | some score => .ok score
  | none => .error .zeroDivisionError

/-- `scores.sort(key=lambda it: it[1], reverse=True)`, and the indices in that order. -/
def byScore (scores : List (Int × Double)) : List Int :=
  (T.sort.sorted (fun a b => b.2.lt a.2) scores).map Prod.fst

def lexicalRank (query : PyStr) (texts : List PyStr) : Except Raised (List Int) :=
  let qTokens := tokenSet T query
  if qTokens.isEmpty then .ok (indices texts.length)
  else do
    let docTokens := texts.map (tokenSet T)
    let scores ← docTokens.mapM (lexicalScore T qTokens docTokens)
    .ok (byScore T ((indices texts.length).zip scores))

/-! ## The dense ranking -/

/-- One turn of the loop over the components of two vectors. -/
def addProducts (sums : Double × Double × Double) (xy : Double × Double) :
    Double × Double × Double :=
  (sums.1.add (xy.1.mul xy.2), sums.2.1.add (xy.1.mul xy.1), sums.2.2.add (xy.2.mul xy.2))

def cosine (a b : List Double) : Except Raised Double :=
  if a.length ≠ b.length then .error .valueError
  else
    let (dot, na, nb) := (a.zip b).foldl addProducts (.zero, .zero, .zero)
    if na.eq .zero || nb.eq .zero then .ok .zero
    else
      match na.sqrt, nb.sqrt with
      | some ra, some rb =>
        match dot.div (ra.mul rb) with
        | some x => .ok x
        | none => .error .zeroDivisionError
      | _, _ => .error .valueError

def denseRank (outcome : Outcome) (texts : List PyStr) : Except Raised (List Int) :=
  if texts.isEmpty then .ok []
  else do
    match ← embed T.parse outcome (texts.length + 1) with
    | [] => .error .indexError
    | qVec :: itemVecs =>
      let scores ← itemVecs.mapM (cosine qVec)
      .ok (byScore T ((indices itemVecs.length).zip scores))

/-! ## The hybrid ranking -/

/-- What a missing tie-break raises. -/
def fuse (k : Nat) (tieBreak : Option (List Double)) (lists : List (List Int)) :
    Except Raised (List Int) :=
  match rrfMerge T.sort k tieBreak lists with
  | some merged => .ok merged
  | none => .error .indexError

def hybridRank (query : PyStr) (texts : List PyStr) (outcome : Outcome) (k : Nat)
    (tieBreak : Option (List Double)) : Except Raised (List Int) :=
  if texts.isEmpty then .ok []
  else do
    let lex ← lexicalRank T query texts
    match denseRank T outcome texts with
    | .error .embeddingError => .ok lex
    | .error e => .error e
    | .ok dense => fuse T k tieBreak [lex, dense]

/-! ## The lexical ranking does not raise -/

variable {T}

theorem byScore_perm (T : Platform) {is : List Int} {scores : List Double}
    (h : is.length = scores.length) : (byScore T (is.zip scores)).Perm is := by
  have hperm := (T.sort.perm (fun a b : Int × Double => b.2.lt a.2) (is.zip scores)).map Prod.fst
  rwa [List.map_fst_zip h.le] at hperm

theorem length_indices (n : Nat) : (indices n).length = n := by
  simp [indices]

theorem nodup_indices (n : Nat) : (indices n).Nodup := List.nodup_range.map Nat.cast_injective

theorem mem_indices {n : Nat} {i : Int} : i ∈ indices n ↔ ∃ m < n, (m : Int) = i := by
  simp [indices]

/-- The indices of two rankings of all texts. -/
theorem mem_rankings {n : Nat} {lex dense l : List Int} {i : Int} (hlex : lex.Perm (indices n))
    (hdense : dense.Perm (indices n)) (hl : l ∈ [lex, dense]) (hi : i ∈ l) :
    ∃ m < n, (m : Int) = i := by
  rw [List.mem_pair] at hl
  obtain rfl | rfl := hl
  · exact mem_indices.1 (hlex.mem_iff.1 hi)
  · exact mem_indices.1 (hdense.mem_iff.1 hi)

/-- A logarithm is taken of no less than one. -/
theorem exists_idf (T : Platform) (docTokens : List (List PyStr)) (tok : PyStr) :
    ∃ x, idf T docTokens tok = .ok x ∧ x.NotBelow 1 ∧ x ≠ .nan := by
  have hle : docTokens.countP (fun toks => tok ∈ toks) ≤ max docTokens.length 1 :=
    List.countP_le_length.trans (le_max_left _ _)
  have hone : roundBinary 1 = 1 := Double.isDouble_one.1
  have hratio : (1 : ℚ) ≤ ((max docTokens.length 1 : Nat) + 1) /
      ((docTokens.countP fun toks => tok ∈ toks : Nat) + 1) := by
    rw [le_div_iff₀ (by positivity), one_mul]
    exact_mod_cast Nat.add_le_add_right hle 1
  obtain ⟨y, hy, hbelow, hne⟩ := T.log_of_one_le _
    (Double.round_notBelow zero_le_one hone hratio) (Double.round_ne_nan _)
  have honeBelow : Double.one.NotBelow 1 := Double.round_notBelow zero_le_one hone le_rfl
  refine ⟨y.add .one, by rw [idf, hy], ?_, Double.add_ne_nan hbelow honeBelow hne
    (Double.round_ne_nan 1)⟩
  have hadd := Double.add_notBelow (p := 0) (q := 1) (by norm_num) (by rw [zero_add]; exact hone)
    hbelow honeBelow
  rwa [zero_add] at hadd

theorem exists_lexicalScore (T : Platform) {qTokens : List PyStr} (h : qTokens ≠ [])
    (docTokens : List (List PyStr)) (toks : List PyStr) :
    ∃ score, lexicalScore T qTokens docTokens toks = .ok score := by
  have hall : ∀ tok ∈ T.iterate (toks.filter (· ∈ qTokens)), ∃ x, idf T docTokens tok = .ok x := by
    intro tok _
    obtain ⟨x, hx, -⟩ := exists_idf T docTokens tok
    exact ⟨x, hx⟩
  obtain ⟨idfs, hidfs, -⟩ := exists_mapM_ok hall
  have hdenom : (Double.round (qTokens.length : ℚ)).eq .zero = false := by
    have hlen : (1 : ℚ) ≤ qTokens.length := by
      exact_mod_cast List.length_pos_iff.2 h
    exact Double.ne_zero_of_notBelow one_pos
      (Double.round_notBelow zero_le_one Double.isDouble_one.1 hlen)
  refine ⟨(T.sum idfs).quotient (.round qTokens.length), ?_⟩
  rw [lexicalScore, hidfs]
  simp only [Double.div, hdenom]
  rfl

/-- The lexical ranking is there for every query and all texts. -/
theorem exists_lexicalRank (T : Platform) (query : PyStr) (texts : List PyStr) :
    ∃ lex, lexicalRank T query texts = .ok lex ∧ lex.Perm (indices texts.length) := by
  rw [lexicalRank]
  split_ifs with hempty
  · exact ⟨_, rfl, .refl _⟩
  · have hne : tokenSet T query ≠ [] := by simpa using hempty
    have hscore : ∀ toks ∈ texts.map (tokenSet T), ∃ score,
        lexicalScore T (tokenSet T query) (texts.map (tokenSet T)) toks = .ok score :=
      fun toks _ => exists_lexicalScore T hne _ toks
    obtain ⟨scores, hscores, hall⟩ := exists_mapM_ok hscore
    refine ⟨_, by simp only [hscores]; rfl, byScore_perm T ?_⟩
    rw [length_indices, ← hall.length_eq, List.length_map]

/-! ## The dense ranking -/

theorem addProducts_notBelow (xys : List (Double × Double)) (sums : Double × Double × Double)
    (ha : sums.2.1.NotBelow 0) (hb : sums.2.2.NotBelow 0) :
    (xys.foldl addProducts sums).2.1.NotBelow 0 ∧ (xys.foldl addProducts sums).2.2.NotBelow 0 := by
  induction xys generalizing sums with
  | nil => exact ⟨ha, hb⟩
  | cons xy xys ih =>
    exact ih _ (Double.add_notBelow_zero ha (Double.mul_self_notBelow xy.1))
      (Double.add_notBelow_zero hb (Double.mul_self_notBelow xy.2))

/-- Vectors of one length have a cosine, also where sums overflow or are tiny. -/
theorem exists_cosine {a b : List Double} (h : a.length = b.length) :
    ∃ x, cosine a b = .ok x := by
  obtain ⟨ha, hb⟩ := addProducts_notBelow (a.zip b) (.zero, .zero, .zero) Double.zero_notBelow
    Double.zero_notBelow
  rw [cosine, if_neg (not_not.2 h)]
  generalize (a.zip b).foldl addProducts (.zero, .zero, .zero) = sums at ha hb ⊢
  obtain ⟨dot, na, nb⟩ := sums
  simp only
  split_ifs with hor
  · exact ⟨_, rfl⟩
  · rw [Bool.or_eq_true, not_or, Bool.not_eq_true, Bool.not_eq_true] at hor
    obtain ⟨ra, hra, hraBelow⟩ := Double.exists_sqrt ha
    obtain ⟨rb, hrb, hrbBelow⟩ := Double.exists_sqrt hb
    have hprod := Double.mul_ne_zero (hraBelow hor.1) (hrbBelow hor.2)
    refine ⟨dot.quotient (ra.mul rb), ?_⟩
    rw [hra, hrb]
    simp only [Double.div, hprod]
    rfl

theorem cosine_of_ne {a b : List Double} (h : a.length ≠ b.length) :
    cosine a b = .error .valueError := if_pos h

/-- Vectors of one length give a ranking. -/
theorem exists_dense {qVec : List Double} {itemVecs : List (List Double)}
    (h : ∀ v ∈ itemVecs, qVec.length = v.length) :
    ∃ scores, itemVecs.mapM (cosine qVec) = .ok scores ∧ scores.length = itemVecs.length := by
  obtain ⟨scores, hscores, hall⟩ := exists_mapM_ok (f := cosine qVec) fun v hv =>
    exists_cosine (h v hv)
  exact ⟨scores, hscores, hall.length_eq.symm⟩

/-- A vector of another length raises. -/
theorem mapM_cosine_error {qVec : List Double} {itemVecs : List (List Double)}
    (h : ∃ v ∈ itemVecs, qVec.length ≠ v.length) :
    itemVecs.mapM (cosine qVec) = .error .valueError := by
  induction itemVecs with
  | nil => simp at h
  | cons v itemVecs ih =>
    rw [List.mapM_cons]
    by_cases hv : qVec.length = v.length
    · obtain ⟨x, hx⟩ := exists_cosine hv
      have htail : ∃ u ∈ itemVecs, qVec.length ≠ u.length := by
        obtain ⟨u, hu, hne⟩ := h
        obtain rfl | hu := List.mem_cons.1 hu
        · exact absurd hv hne
        · exact ⟨u, hu, hne⟩
      rw [hx, ih htail]
      rfl
    · rw [cosine_of_ne hv]
      rfl

/-- The ranking depends on the texts through their number only. -/
theorem denseRank_congr {outcome : Outcome} {texts texts' : List PyStr}
    (h : texts.length = texts'.length) : denseRank T outcome texts = denseRank T outcome texts' := by
  have hempty : texts.isEmpty = texts'.isEmpty := by
    rw [Bool.eq_iff_iff, List.isEmpty_iff_length_eq_zero, List.isEmpty_iff_length_eq_zero, h]
  rw [denseRank, denseRank, hempty, h]

theorem denseRank_of_error {outcome : Outcome} {texts : List PyStr} {e : Raised}
    (hne : texts ≠ []) (h : embed T.parse outcome (texts.length + 1) = .error e) :
    denseRank T outcome texts = .error e := by
  rw [denseRank, if_neg (by simpa using hne), h]
  rfl

/-- Vectors of one length give a ranking. -/
theorem exists_denseRank {outcome : Outcome} {texts : List PyStr} {us : List (List Double)}
    (hne : texts ≠ []) (hus : embed T.parse outcome (texts.length + 1) = .ok us)
    (hlen : us.length = texts.length + 1) (heven : ∀ u ∈ us, ∀ v ∈ us, u.length = v.length) :
    ∃ dense, denseRank T outcome texts = .ok dense ∧ dense.Perm (indices texts.length) := by
  cases us with
  | nil => simp at hlen
  | cons qVec itemVecs =>
    obtain ⟨scores, hscores, hlength⟩ := exists_dense fun v hv =>
      heven qVec List.mem_cons_self v (List.mem_cons_of_mem qVec hv)
    have hitems : itemVecs.length = texts.length := by simpa using hlen
    refine ⟨byScore T ((indices itemVecs.length).zip scores), ?_, ?_⟩
    · rw [denseRank, if_neg (by simpa using hne), hus]
      show (itemVecs.mapM (cosine qVec) >>= _) = _
      rw [hscores]
      rfl
    · rw [← hitems]
      exact byScore_perm T (by rw [length_indices, hlength])

/-- Vectors of unequal lengths raise. -/
theorem denseRank_of_uneven {outcome : Outcome} {texts : List PyStr} {us : List (List Double)}
    (hne : texts ≠ []) (hus : embed T.parse outcome (texts.length + 1) = .ok us)
    (huneven : ∃ u ∈ us, ∃ v ∈ us, u.length ≠ v.length) :
    denseRank T outcome texts = .error .valueError := by
  cases us with
  | nil => simp at huneven
  | cons qVec itemVecs =>
    have hitem : ∃ v ∈ itemVecs, qVec.length ≠ v.length := by
      by_contra hall
      push Not at hall
      have hq : ∀ u ∈ qVec :: itemVecs, qVec.length = u.length :=
        List.forall_mem_cons.2 ⟨rfl, hall⟩
      obtain ⟨u, hu, v, hv, hlen⟩ := huneven
      exact hlen ((hq u hu).symm.trans (hq v hv))
    rw [denseRank, if_neg (by simpa using hne), hus]
    show (itemVecs.mapM (cosine qVec) >>= _) = _
    rw [mapM_cosine_error hitem]
    rfl

/-! ## The hybrid ranking -/

section Hybrid

variable {query : PyStr} {texts : List PyStr} {outcome : Outcome} {k : Nat}
  {tieBreak : Option (List Double)} {lex dense : List Int}

theorem hybridRank_of_embeddingError (hne : texts ≠ [])
    (hlex : lexicalRank T query texts = .ok lex)
    (h : denseRank T outcome texts = .error .embeddingError) :
    hybridRank T query texts outcome k tieBreak = .ok lex := by
  rw [hybridRank, if_neg (by simpa using hne), hlex]
  simp only [h]
  rfl

theorem hybridRank_of_error {e : Raised} (hne : texts ≠ [])
    (h : denseRank T outcome texts = .error e) (he : e ≠ .embeddingError) :
    hybridRank T query texts outcome k tieBreak = .error e := by
  obtain ⟨lex, hlex, -⟩ := exists_lexicalRank T query texts
  rw [hybridRank, if_neg (by simpa using hne), hlex]
  simp only [h]
  cases e with
  | embeddingError => exact absurd rfl he
  | _ => rfl

theorem hybridRank_of_dense (hne : texts ≠ []) (hlex : lexicalRank T query texts = .ok lex)
    (h : denseRank T outcome texts = .ok dense) :
    hybridRank T query texts outcome k tieBreak = fuse T k tieBreak [lex, dense] := by
  rw [hybridRank, if_neg (by simpa using hne), hlex]
  simp only [h]
  rfl

/-- Two rankings of all texts are fused to one. -/
theorem exists_fuse (T : Platform) {n : Nat} (k : Nat) (htie : ∀ t, tieBreak = some t → t.length = n)
    (hlex : lex.Perm (indices n)) (hdense : dense.Perm (indices n)) :
    ∃ merged, fuse T k tieBreak [lex, dense] = .ok merged ∧ merged.Perm (indices n) := by
  have hties : TiesAreGiven tieBreak [lex, dense] := by
    intro l hl i hi
    obtain ⟨m, hm, rfl⟩ := mem_rankings hlex hdense hl hi
    cases htb : tieBreak with
    | none => exact ⟨.zero, rfl⟩
    | some t =>
      have hlt : m < t.length := by rwa [htie t htb]
      exact ⟨t[m], tieOf_natCast hlt⟩
  obtain ⟨merged, hmerged, hnodup, hmem⟩ := rrfMerge_indices T.sort k hties
  refine ⟨merged, by rw [fuse, hmerged],
    (List.perm_ext_iff_of_nodup hnodup (nodup_indices n)).2 fun i => ?_⟩
  rw [hmem]
  simp [hlex.mem_iff, hdense.mem_iff]

end Hybrid

/-! ## The lexical ranking that decides -/

/-- The texts of which one holds the letter of the query. -/
def oneHit (n j : Nat) : List PyStr :=
  (List.range n).map fun i => if i = j then .ofString "a" else []

theorem lexicalScore_hit (T : Platform) (docTokens : List (List PyStr)) :
    ∃ x : Double, lexicalScore T [.ofString "a"] docTokens [.ofString "a"] = .ok x ∧
      Double.zero.lt x = true ∧ x ≠ .nan := by
  obtain ⟨x, hx, hbelow, hne⟩ := exists_idf T docTokens (.ofString "a")
  have hfilter : [PyStr.ofString "a"].filter (· ∈ [PyStr.ofString "a"]) = [.ofString "a"] := by simp
  have hiterate : T.iterate [.ofString "a"] = [.ofString "a"] :=
    List.perm_singleton.1 (T.iterate_perm _)
  have hidfs : [PyStr.ofString "a"].mapM (idf T docTokens) = .ok [x] := by
    rw [List.mapM_cons, hx]
    rfl
  have hone : Double.round (([PyStr.ofString "a"]).length : ℚ) = .one := by simp [Double.one]
  refine ⟨x, ?_, Double.zero_lt_of_notBelow one_pos hbelow hne, hne⟩
  rw [lexicalScore, hfilter, hiterate, hidfs, hone]
  simp only [Double.div_one]
  exact congrArg Except.ok (T.sum_singleton x)

theorem lexicalScore_miss (T : Platform) (docTokens : List (List PyStr)) :
    lexicalScore T [.ofString "a"] docTokens [] = .ok .zero := by
  have hiterate : T.iterate [] = [] := List.perm_nil.1 (T.iterate_perm [])
  have hone : Double.round (([PyStr.ofString "a"]).length : ℚ) = .one := by simp [Double.one]
  rw [lexicalScore, List.filter_nil, hiterate, List.mapM_nil, hone]
  simp only [Double.div_one]
  exact congrArg Except.ok T.sum_nil

theorem byScore_before (T : Platform) {is : List Nat} {score : Nat → Double} {i j : Nat}
    (hnan : ∀ m, score m ≠ .nan) (hi : i ∈ is) (hj : j ∈ is) (hlt : (score i).lt (score j) = true) :
    List.Sublist [(j : Int), (i : Int)]
      (byScore T (is.map fun m : Nat => ((m : Int), score m))) := by
  have hweak : WeakOrderOn (fun a b : Int × Double => b.2.lt a.2)
      (is.map fun m : Nat => ((m : Int), score m)) := by
    refine .of_key (fun a => OrderDual.toDual a.2.place) fun a ha b hb => ?_
    obtain ⟨m, -, rfl⟩ := List.mem_map.1 ha
    obtain ⟨m', -, rfl⟩ := List.mem_map.1 hb
    exact Double.lt_iff_place (hnan m') (hnan m)
  have hmem {m : Nat} (hm : m ∈ is) : ((m : Int), score m) ∈
      T.sort.sorted (fun a b => b.2.lt a.2) (is.map fun m : Nat => ((m : Int), score m)) :=
    (T.sort.perm _ _).mem_iff.2 (List.mem_map_of_mem hm)
  refine (pair_sublist_of_pairwise (T.sort.pairwise hweak) (hmem hj) (hmem hi) ?_ ?_).map Prod.fst
  · intro heq
    rw [(Prod.mk.inj heq).2, Double.lt_iff_place (hnan i) (hnan i)] at hlt
    exact lt_irrefl _ hlt
  · simp [hlt]

/-- The one text with the letter comes before the others. -/
theorem lexicalRank_oneHit (T : Platform) {n j : Nat} (hj : j < n) :
    ∃ lex, lexicalRank T (.ofString "a") (oneHit n j) = .ok lex ∧ lex.Perm (indices n) ∧
      ∀ i < n, i ≠ j → List.Sublist [(j : Int), (i : Int)] lex := by
  have hquery : tokenSet T (.ofString "a") = [.ofString "a"] := by
    rw [tokenSet, T.words_letter]
    rfl
  have hdocs : (oneHit n j).map (tokenSet T) =
      (List.range n).map fun i => if i = j then [.ofString "a"] else [] := by
    rw [oneHit, List.map_map]
    refine List.map_congr_left fun i _ => ?_
    by_cases hij : i = j
    · simp only [Function.comp_apply, if_pos hij]
      exact hquery
    · simp only [Function.comp_apply, if_neg hij, tokenSet, T.words_nil]
      rfl
  obtain ⟨x, hx, hpos, hne⟩ := lexicalScore_hit T ((oneHit n j).map (tokenSet T))
  have hscores : ((oneHit n j).map (tokenSet T)).mapM
      (lexicalScore T [.ofString "a"] ((oneHit n j).map (tokenSet T))) =
      .ok ((List.range n).map fun i => if i = j then x else .zero) := by
    refine (congrArg (List.mapM _) hdocs).trans ?_
    rw [List.mapM_map]
    refine mapM_eq_pure fun i _ => ?_
    by_cases hij : i = j
    · simp only [Function.comp_apply, if_pos hij]
      exact hx
    · simp only [Function.comp_apply, if_neg hij]
      exact lexicalScore_miss T _
  have hentries : (indices n).zip ((List.range n).map fun i => if i = j then x else .zero) =
      (List.range n).map fun i : Nat => ((i : Int), if i = j then x else Double.zero) := by
    rw [indices, List.zip_map']
  have hlex : lexicalRank T (.ofString "a") (oneHit n j) =
      .ok (byScore T ((List.range n).map fun i : Nat => ((i : Int), if i = j then x else .zero))) := by
    have hlen : (oneHit n j).length = n := by simp [oneHit]
    rw [← hentries, lexicalRank]
    simp only [hquery, hscores, hlen]
    rfl
  refine ⟨_, hlex, ?_, fun i hi hij => ?_⟩
  · rw [← hentries]
    exact byScore_perm T (by simp [indices])
  · refine byScore_before T ?_
      (List.mem_range.2 hi) (List.mem_range.2 hj) ?_
    · intro m
      split_ifs
      · exact hne
      · exact Double.round_ne_nan 0
    · rw [if_neg hij, if_pos rfl]
      exact hpos

/-! ## Fusing against a ranking -/

/-- Tie-breaks that favour one index. -/
def favour (n i : Nat) : List Double :=
  (List.range n).map fun m => if m = i then .negInf else .inf

theorem length_favour (n i : Nat) : (favour n i).length = n := by
  simp [favour]

theorem tieOf_favour {n i m : Nat} (h : m < n) :
    tieOf (some (favour n i)) m = some (if m = i then .negInf else .inf) := by
  rw [tieOf_natCast (by rwa [length_favour])]
  simp [favour]

/-- Whatever the other ranking is, the first of a ranking comes before its last where the tie-breaks
favour it. -/
theorem fuse_first_last (T : Platform) (k : Nat) {n i j : Nat} {mid lex merged : List Int}
    (hij : i ≠ j) (hlex : lex.Perm (indices n))
    (hdense : ((i : Int) :: mid ++ [(j : Int)]).Perm (indices n))
    (h : fuse T k (some (favour n i)) [lex, (i : Int) :: mid ++ [(j : Int)]] = .ok merged) :
    List.Sublist [(i : Int), (j : Int)] merged := by
  have hnodup : ((i : Int) :: (mid ++ [(j : Int)])).Nodup := hdense.nodup_iff.2 (nodup_indices n)
  have hi : (i : Int) ∈ indices n := hdense.mem_iff.1 List.mem_cons_self
  have hj : (j : Int) ∈ indices n := hdense.mem_iff.1 (by simp)
  have hin : i < n := by simpa [mem_indices] using hi
  have hjn : j < n := by simpa [mem_indices] using hj
  have hties : TiesAreNumbers (some (favour n i)) [lex, (i : Int) :: mid ++ [(j : Int)]] := by
    intro l hl z hz
    obtain ⟨m, hm, rfl⟩ := mem_rankings hlex hdense hl hz
    refine ⟨_, tieOf_favour hm, ?_⟩
    split_ifs <;> simp
  have hlength : 0 + lex.length ≤ ((i : Int) :: mid).length + 1 := by
    rw [hlex.length_eq, ← hdense.length_eq]
    simp
  have hscore : totalScore (positionWeight k) 0 [lex, (i : Int) :: mid ++ [(j : Int)]] (j : Int) ≤
      totalScore (positionWeight k) 0 [lex, (i : Int) :: mid ++ [(j : Int)]] (i : Int) := by
    have hanti := positionWeight_strictAnti k
    have hlexNodup : lex.Nodup := hlex.nodup_iff.2 (nodup_indices n)
    have hfirst : rankScore (positionWeight k) 0 ((i : Int) :: mid ++ [(j : Int)]) (i : Int) =
        positionWeight k 0 := rankScore_cons_self (List.nodup_cons.1 hnodup).1
    have hlast : rankScore (positionWeight k) 0 ((i : Int) :: mid ++ [(j : Int)]) (j : Int) =
        positionWeight k (0 + ((i : Int) :: mid).length) := by
      refine rankScore_concat fun hmem => ?_
      exact (List.nodup_append.1 (show ((i : Int) :: mid ++ [(j : Int)]).Nodup from hnodup)).2.2
        _ hmem _ (List.mem_singleton_self _) rfl
    have hhigh := rankScore_le (positionWeight_nonneg k) hanti.antitone (n := 0) hlexNodup (j : Int)
    have hlow := le_rankScore (positionWeight_nonneg k) hanti.antitone (hlex.mem_iff.2 hi) hlength
    rw [zero_add] at hlast
    simp only [totalScore, List.map_cons, List.map_nil, List.sum_cons, List.sum_nil, add_zero]
    rw [hfirst, hlast, add_comm]
    exact add_le_add hlow hhigh
  have hmem {m : Nat} (hm : (m : Int) ∈ indices n) :
      ∃ l ∈ [lex, (i : Int) :: mid ++ [(j : Int)]], (m : Int) ∈ l :=
    ⟨lex, List.mem_cons_self, hlex.mem_iff.2 hm⟩
  have htie : (keyOf k (some (favour n i)) [lex, (i : Int) :: mid ++ [(j : Int)]] i).2.1.place <
      (keyOf k (some (favour n i)) [lex, (i : Int) :: mid ++ [(j : Int)]] j).2.1.place := by
    rw [keyOf, keyOf, tieOf_favour hin, tieOf_favour hjn, if_pos rfl, if_neg hij.symm]
    simp [Double.place]
  have hpair := pair_sublist_of_tie T.sort hties (hmem hi) (hmem hj) hscore htie
  rw [fuse, rrfMerge_eq T.sort hties.given] at h
  cases h
  exact hpair

/-! ## What the ranking copes with -/

/-- The vectors of a response that `hybrid_rank` ranks by, or falls back on. -/
structure TractableVectors (parse : PyStr → Option Double) (vs : List PyJson) : Prop where
  /-- Before the first that is not a non-empty list, all elements are converted. -/
  accepted : ∀ v ∈ vs.takeWhile isVector, ∀ x ∈ elements v, accepts parse x = true
  even : (∀ v ∈ vs, isVector v = true) →
    ∀ u ∈ vs, ∀ v ∈ vs, (elements u).length = (elements v).length
  /-- What is no number is converted and ranked by; with one text it does not matter. -/
  numbers : (∀ v ∈ vs, isVector v = true) →
    vs.length = 2 ∨ ∀ v ∈ vs, ∀ x ∈ elements v, isNumber x = true

def Tractable (parse : PyStr → Option Double) (inputs : Nat) : Outcome → Prop
  | .unavailable | .httpError => True
  | .response status body =>
    isSuccess status = true →
      match body with
      | .error e => e ≠ .depth
      | .ok json =>
        ∀ vs, embeddingsOf json = some vs → vs.length = inputs → TractableVectors parse vs

variable (T) in
/-- `hybrid_rank` gives a permutation of the indices, and the lexical ranking where the response
holds no vectors. -/
def Degrades (query : PyStr) (texts : List PyStr) (outcome : Outcome) (k : Nat)
    (tieBreak : Option (List Double)) : Prop :=
  ∃ ranked, hybridRank T query texts outcome k tieBreak = .ok ranked ∧
    ranked.Perm (indices texts.length) ∧
    (¬ outcome.HoldsVectors (texts.length + 1) → lexicalRank T query texts = .ok ranked)

theorem map_length_even {us : List (List Double)} {vs : List PyJson}
    (h : us.map List.length = vs.map fun v => (elements v).length) :
    (∀ u ∈ us, ∀ v ∈ us, u.length = v.length) ↔
      ∀ u ∈ vs, ∀ v ∈ vs, (elements u).length = (elements v).length := by
  have hmem : ∀ m, (∃ u ∈ us, u.length = m) ↔ ∃ v ∈ vs, (elements v).length = m := by
    intro m
    rw [← List.mem_map, h, List.mem_map]
  constructor
  · intro heven u hu v hv
    obtain ⟨u', hu', hulen⟩ := (hmem _).2 ⟨u, hu, rfl⟩
    obtain ⟨v', hv', hvlen⟩ := (hmem _).2 ⟨v, hv, rfl⟩
    rw [← hulen, ← hvlen, heven u' hu' v' hv']
  · intro heven u hu v hv
    obtain ⟨u', hu', hulen⟩ := (hmem _).1 ⟨u, hu, rfl⟩
    obtain ⟨v', hv', hvlen⟩ := (hmem _).1 ⟨v, hv, rfl⟩
    rw [← hulen, ← hvlen, heven u' hu' v' hv']

theorem Degrades.of_embeddingError {query : PyStr} {texts : List PyStr} {outcome : Outcome} {k : Nat}
    {tieBreak : Option (List Double)} (hne : texts ≠ [])
    (h : embed T.parse outcome (texts.length + 1) = .error .embeddingError) :
    Degrades T query texts outcome k tieBreak := by
  obtain ⟨lex, hlex, hperm⟩ := exists_lexicalRank T query texts
  exact ⟨lex, hybridRank_of_embeddingError hne hlex (denseRank_of_error hne h), hperm, fun _ => hlex⟩

/-- What is raised past `hybrid_rank` is no result. -/
theorem not_degrades_of_error {query : PyStr} {texts : List PyStr} {outcome : Outcome} {k : Nat}
    {tieBreak : Option (List Double)} {e : Raised} (hne : texts ≠ [])
    (h : denseRank T outcome texts = .error e) (he : e ≠ .embeddingError) :
    ¬ Degrades T query texts outcome k tieBreak := by
  rintro ⟨ranked, hranked, -⟩
  rw [hybridRank_of_error hne h he] at hranked
  cases hranked

/-- One text has one ranking. -/
theorem eq_of_perm_one {l l' : List Int} (h : l.Perm (indices 1)) (h' : l'.Perm (indices 1)) :
    l = l' := by
  rw [List.perm_singleton.1 h, List.perm_singleton.1 h']

section Response

variable {texts : List PyStr} {status : Nat} {json : PyJson} {vs : List PyJson}

/-- All vectors are converted: there is a dense ranking if they are of one length. -/
theorem exists_vectors (hstatus : isSuccess status = true) (hvs : embeddingsOf json = some vs)
    (hlen : vs.length = texts.length + 1) (hvector : ∀ v ∈ vs, isVector v = true)
    (haccepted : ∀ v ∈ vs.takeWhile isVector, ∀ x ∈ elements v, accepts T.parse x = true) :
    ∃ us, embed T.parse (.response status (.ok json)) (texts.length + 1) = .ok us ∧
      us.length = texts.length + 1 ∧
      ((∀ u ∈ us, ∀ v ∈ us, u.length = v.length) ↔
        ∀ u ∈ vs, ∀ v ∈ vs, (elements u).length = (elements v).length) := by
  rw [List.takeWhile_eq_self_iff.2 hvector] at haccepted
  obtain ⟨us, hus, hlengths⟩ := mapM_toVector_ok hvector haccepted
  refine ⟨us, ?_, ?_, map_length_even hlengths⟩
  · rw [embed_response texts.length.succ_pos hstatus hvs hlen, hus]
  · have hcount := congrArg List.length hlengths
    rw [List.length_map, List.length_map, hlen] at hcount
    exact hcount

theorem TractableVectors.degrades {query : PyStr} {k : Nat} {tieBreak : Option (List Double)}
    (hne : texts ≠ []) (hstatus : isSuccess status = true) (hvs : embeddingsOf json = some vs)
    (hlen : vs.length = texts.length + 1) (h : TractableVectors T.parse vs)
    (htie : ∀ t, tieBreak = some t → t.length = texts.length) :
    Degrades T query texts (.response status (.ok json)) k tieBreak := by
  by_cases hvector : ∀ v ∈ vs, isVector v = true
  · obtain ⟨us, hus, huslen, heven⟩ := exists_vectors hstatus hvs hlen hvector h.accepted
    obtain ⟨dense, hdense, hdensePerm⟩ := exists_denseRank hne hus huslen (heven.2 (h.even hvector))
    obtain ⟨lex, hlex, hlexPerm⟩ := exists_lexicalRank T query texts
    obtain ⟨merged, hmerged, hperm⟩ := exists_fuse T k htie hlexPerm hdensePerm
    refine ⟨merged, by rw [hybridRank_of_dense hne hlex hdense, hmerged], hperm, fun hnot => ?_⟩
    cases h.numbers hvector with
    | inl htwo =>
      have hone : texts.length = 1 := by omega
      rw [hone] at hlexPerm hperm
      rw [hlex, eq_of_perm_one hlexPerm hperm]
    | inr hnumbers =>
      exact absurd ⟨status, json, vs, rfl, hvs, hlen, hvector, h.even hvector, hnumbers⟩ hnot
  · push Not at hvector
    have hbad : ∃ v ∈ vs, isVector v = false := by simpa using hvector
    refine .of_embeddingError hne ?_
    rw [embed_response texts.length.succ_pos hstatus hvs hlen]
    exact mapM_toVector_embeddingError hbad h.accepted

end Response

/-- `hybrid_rank` copes with a tractable outcome. -/
theorem Tractable.degrades {query : PyStr} {texts : List PyStr} {outcome : Outcome} {k : Nat}
    {tieBreak : Option (List Double)} (hne : texts ≠ [])
    (h : Tractable T.parse (texts.length + 1) outcome)
    (htie : ∀ t, tieBreak = some t → t.length = texts.length) :
    Degrades T query texts outcome k tieBreak := by
  cases outcome with
  | unavailable => exact .of_embeddingError hne rfl
  | httpError => exact .of_embeddingError hne rfl
  | response status body =>
    by_cases hsome : isSuccess status = true ∧ ∃ json vs, body = .ok json ∧
        embeddingsOf json = some vs ∧ vs.length = texts.length + 1
    · obtain ⟨hstatus, json, vs, rfl, hvs, hlen⟩ := hsome
      exact (h hstatus vs hvs hlen).degrades hne hstatus hvs hlen htie
    · refine .of_embeddingError hne (embed_embeddingError texts.length.succ_pos fun hstatus => ⟨?_, ?_⟩)
      · rintro rfl
        exact h hstatus rfl
      · intro json vs hbody hvs hlen
        exact hsome ⟨hstatus, json, vs, hbody, hvs, hlen⟩

/-- For each query and all texts of one number, whatever the parameters. -/
def DegradesAlways (T : Platform) (n : Nat) (outcome : Outcome) : Prop :=
  ∀ query texts k tieBreak, texts.length = n → (∀ t, tieBreak = some t → t.length = n) →
    Degrades T query texts outcome k tieBreak

section Converse

variable {texts : List PyStr} {status : Nat} {json : PyJson} {vs : List PyJson} {outcome : Outcome}

/-- An exception other than `EmbeddingError` is not caught. -/
theorem not_degradesAlways {e : Raised} (hne : texts ≠ [])
    (h : denseRank T outcome texts = .error e) (he : e ≠ .embeddingError) :
    ¬ DegradesAlways T texts.length outcome := fun hall =>
  not_degrades_of_error hne h he (hall [] texts 0 none rfl (by simp))

/-- A ranking of more than one text is not the lexical one for some query and some texts. -/
theorem not_degradesAlways_of_dense {dense : List Int} (htwo : 2 ≤ texts.length)
    (hdense : denseRank T outcome texts = .ok dense) (hperm : dense.Perm (indices texts.length))
    (hnot : ¬ outcome.HoldsVectors (texts.length + 1)) : ¬ DegradesAlways T texts.length outcome := by
  intro hall
  obtain ⟨i, mid, j, rfl⟩ : ∃ i mid j, dense = i :: (mid ++ [j]) := by
    have hlen := hperm.length_eq
    rw [length_indices] at hlen
    cases dense with
    | nil => simp at hlen; omega
    | cons i rest =>
      obtain rfl | ⟨mid, j, rfl⟩ := rest.eq_nil_or_concat
      · simp at hlen; omega
      · exact ⟨i, mid, j, by simp⟩
  obtain ⟨i, hi, rfl⟩ := mem_indices.1 (hperm.mem_iff.1 List.mem_cons_self)
  obtain ⟨j, hj, rfl⟩ := mem_indices.1 (hperm.mem_iff.1 (show j ∈ _ by simp))
  have hij : i ≠ j := by
    rintro rfl
    exact (List.nodup_cons.1 (hperm.nodup_iff.2 (nodup_indices _))).1 (by simp)
  -- the lexical ranking puts the last before the first, the fused one after it
  obtain ⟨lex, hlex, hlexPerm, hbefore⟩ := lexicalRank_oneHit T hj
  have hlength : (oneHit texts.length j).length = texts.length := by simp [oneHit]
  have hne : oneHit texts.length j ≠ [] := by
    rw [← List.length_pos_iff, hlength]
    omega
  obtain ⟨ranked, hranked, -, hlexical⟩ := hall (.ofString "a") (oneHit texts.length j) 0
    (some (favour texts.length i)) hlength (by rintro t ⟨⟩; exact length_favour _ i)
  have hsame : ranked = lex := by
    have hlex' := hlexical (by rwa [hlength])
    rw [hlex] at hlex'
    exact (Except.ok.inj hlex').symm
  rw [hybridRank_of_dense hne hlex (by rw [denseRank_congr hlength, hdense])] at hranked
  have hfused := fuse_first_last T 0 hij hlexPerm hperm hranked
  rw [hsame] at hfused
  exact not_pair_sublist (positionWeight_nonneg 0) (positionWeight_strictAnti 0)
    (hlexPerm.nodup_iff.2 (nodup_indices _)) hfused (hbefore i hi hij)

theorem tractableVectors_of_degrades (hne : texts ≠ []) (hstatus : isSuccess status = true)
    (hvs : embeddingsOf json = some vs) (hlen : vs.length = texts.length + 1)
    (hall : DegradesAlways T texts.length (.response status (.ok json))) :
    TractableVectors T.parse vs := by
  have hembed : embed T.parse (.response status (.ok json)) (texts.length + 1) =
      vs.mapM (toVector T.parse) := embed_response texts.length.succ_pos hstatus hvs hlen
  have haccepted : ∀ v ∈ vs.takeWhile isVector, ∀ x ∈ elements v, accepts T.parse x = true := by
    by_contra hbad
    push Not at hbad
    have hreached : ∃ v ∈ vs.takeWhile isVector, ∃ x ∈ elements v,
        accepts T.parse x = false := by simpa using hbad
    obtain ⟨e, he, hnot⟩ := mapM_toVector_error hreached
    exact not_degradesAlways hne (denseRank_of_error hne (hembed.trans he)) hnot hall
  have heven : (∀ v ∈ vs, isVector v = true) →
      ∀ u ∈ vs, ∀ v ∈ vs, (elements u).length = (elements v).length := by
    intro hvector
    obtain ⟨us, hus, -, hiff⟩ := exists_vectors hstatus hvs hlen hvector haccepted
    by_contra huneven
    rw [← hiff] at huneven
    push Not at huneven
    exact not_degradesAlways hne (denseRank_of_uneven hne hus huneven) (by simp) hall
  refine ⟨haccepted, heven, fun hvector => ?_⟩
  by_contra hnumbers
  obtain ⟨htwo, hnumbers⟩ := not_or.1 hnumbers
  obtain ⟨us, hus, huslen, hiff⟩ := exists_vectors hstatus hvs hlen hvector haccepted
  obtain ⟨dense, hdense, hperm⟩ := exists_denseRank hne hus huslen (hiff.2 (heven hvector))
  have hpos := List.length_pos_iff.2 hne
  refine not_degradesAlways_of_dense (by omega) hdense hperm ?_ hall
  rintro ⟨status', json', vs', houtcome, hvs', hvectors⟩
  cases houtcome
  rw [hvs, Option.some.injEq] at hvs'
  rw [hvs'] at hnumbers
  exact hnumbers hvectors.numbers

theorem tractable_of_degrades (hne : texts ≠ []) (hall : DegradesAlways T texts.length outcome) :
    Tractable T.parse (texts.length + 1) outcome := by
  cases outcome with
  | unavailable => trivial
  | httpError => trivial
  | response status body =>
    intro hstatus
    cases body with
    | error e =>
      rintro rfl
      have hembed : embed T.parse (.response status (.error .depth)) (texts.length + 1) =
          .error .recursionError := by
        rw [embed, if_neg texts.length.succ_ne_zero]
        simp [hstatus]
      exact not_degradesAlways hne (denseRank_of_error hne hembed) (by simp) hall
    | ok json =>
      intro vs hvs hlen
      exact tractableVectors_of_degrades hne hstatus hvs hlen hall

end Converse

/-- Hybrid ranking degrades on exactly the tractable outcomes of the request. -/
theorem degradesAlways_iff (T : Platform) {n : Nat} (hn : 0 < n) (outcome : Outcome) :
    DegradesAlways T n outcome ↔ Tractable T.parse (n + 1) outcome := by
  constructor
  · intro hall
    have hlength : (List.replicate n ([] : PyStr)).length = n := List.length_replicate
    rw [← hlength] at hall ⊢
    exact tractable_of_degrades (by rw [← List.length_pos_iff, hlength]; exact hn) hall
  · rintro htract query texts k tieBreak rfl htie
    exact htract.degrades (List.length_pos_iff.1 hn) htie

/-! ## A response with uneven vectors -/

/-- Words of ASCII letters, digits and underscores. -/
def asciiWords (text : PyStr) : List PyStr :=
  ((text.splitOnP fun c => !c.scalar?.any fun c => c.isAlphanum || c = '_').filter (· ≠ [])).map
    (List.map fun
      | .scalar c => .scalar c.toLower
      | c => c)

/-- A platform for rankings of one text, where each logarithm is that of one. -/
def samplePlatform : Platform where
  words := asciiWords
  words_nil := by decide
  words_letter := by decide
  iterate := id
  iterate_perm _ := .refl _
  log _ := some .zero
  log_of_one_le _ _ _ := ⟨.zero, rfl, Double.zero_notBelow, Double.round_ne_nan 0⟩
  sum xs := xs.foldl Double.add .zero
  sum_nil := rfl
  sum_singleton := Double.add_zero_left
  parse _ := none
  sort := .insertion

def unevenVectors : List PyJson := [.arr [.int 1, .int 2], .arr [.int 1]]

/-- `{"embeddings": [[1, 2], [1]]}`. -/
def unevenBody : PyJson := .obj [(.ofString "embeddings", .arr unevenVectors)]

def unevenResponse : Outcome := .response 200 (.ok unevenBody)

theorem not_even_uneven : ¬ ∀ u ∈ unevenVectors, ∀ v ∈ unevenVectors,
    (elements u).length = (elements v).length := by
  intro heven
  have hlen := heven (.arr [.int 1, .int 2]) (by simp [unevenVectors]) (.arr [.int 1])
    (by simp [unevenVectors])
  exact absurd hlen (by decide)

theorem degradesAlways_iff_uneven : ¬ DegradesAlways samplePlatform 1 unevenResponse := by
  intro hall
  have htract := (degradesAlways_iff samplePlatform one_pos unevenResponse).1 hall
  exact not_even_uneven ((htract rfl unevenVectors rfl rfl).even (by decide))

/-- The `ValueError` of `cosine` leaves the ranking. -/
theorem uneven_raises :
    hybridRank samplePlatform (.ofString "a") [.ofString "a"] unevenResponse rrfKDefault none =
        .error .valueError ∧
      ¬ unevenResponse.HoldsVectors 2 := by
  have hne : [PyStr.ofString "a"] ≠ [] := by simp
  have hstatus : isSuccess 200 = true := rfl
  have hvs : embeddingsOf unevenBody = some unevenVectors := rfl
  have hlen : unevenVectors.length = [PyStr.ofString "a"].length + 1 := rfl
  have haccepted : ∀ v ∈ unevenVectors.takeWhile isVector, ∀ x ∈ elements v,
      accepts samplePlatform.parse x = true := by
    intro v hv x hx
    obtain ⟨n, hn, rfl⟩ : ∃ n : Int, |n| ≤ 2 ^ 53 ∧ x = .int n := by
      have hmem := (List.takeWhile_sublist _).subset hv
      rw [unevenVectors, List.mem_pair] at hmem
      obtain rfl | rfl := hmem
      · rw [elements, List.mem_pair] at hx
        obtain rfl | rfl := hx
        · exact ⟨1, by norm_num, rfl⟩
        · exact ⟨2, by norm_num, rfl⟩
      · rw [elements, List.mem_singleton] at hx
        exact ⟨1, by norm_num, hx⟩
    exact accepts_int hn
  constructor
  · obtain ⟨us, hus, -, hiff⟩ := exists_vectors hstatus hvs hlen (by decide) haccepted
    have huneven := not_even_uneven
    rw [← hiff] at huneven
    push Not at huneven
    exact hybridRank_of_error hne (denseRank_of_uneven hne hus huneven) (by simp)
  · rintro ⟨status, json, vs, houtcome, hvs', hvectors⟩
    cases houtcome
    rw [hvs, Option.some.injEq] at hvs'
    rw [← hvs'] at hvectors
    exact not_even_uneven hvectors.even

end ParallaxKernel.Retrieval
