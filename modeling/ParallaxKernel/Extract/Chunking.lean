import ParallaxKernel.Lib.DoubleArith
import ParallaxKernel.Lib.PyJson
import ParallaxKernel.Lib.Windows
import ParallaxKernel.Store.Hashing

/-!
# Chunks of a text

`chunk_text` of `extract/extractor.py`. The window moves on by the difference of two products that
are truncated one by one, so that it can stand still although `overlap` is below `max_tokens`.
-/

namespace ParallaxKernel.Extract

open Lib Store

/-- `str.isspace` of one character of a text. -/
def isSpace : PyChar → Bool
  | .scalar c => isPySpace c
  | .lone _ => false

/-- `text.split()`. -/
def split (text : PyStr) : List PyStr := words isSpace text

/-- `" ".join(words)`. -/
def join (words : List PyStr) : PyStr := [.scalar ' '].intercalate words

/-- Where an index of a slice stands. -/
def sliceIndex (length : Nat) (i : Int) : Nat :=
  if i < 0 then (i + length).toNat else min i.toNat length

/-- `xs[start:stop]`. -/
def slice (xs : List PyStr) (start stop : Int) : List PyStr :=
  (xs.take (sliceIndex xs.length stop)).drop (sliceIndex xs.length start)

/-- `_WORDS_PER_TOKEN`. -/
def wordsPerToken : Double := .round (3 / 4)

/-- `int(x)`; `none` where it raises. -/
def toInt : Double → Option Int
  | .finite x _ => some (if 0 ≤ x then ⌊x⌋ else ⌈x⌉)
  | _ => none

/-- `int(tokens * _WORDS_PER_TOKEN)`; `none` where it raises `OverflowError`. -/
def wordsOf (tokens : Int) : Option Int :=
  (Double.ofInt tokens).bind fun x => toInt (x.mul wordsPerToken)

inductive ChunkError where
  /-- `ValueError`: `overlap` is not below `max_tokens`. -/
  | overlap (overlap maxTokens : Int)
  /-- `OverflowError`: int too large to convert to float. -/
  | overflow

/-- The loop of `chunk_text` from `start` on; `none` where it runs on. -/
def chunkLoop (words : List PyStr) (maxWords overlapWords : Int) :
    Nat → Int → List PyStr → Option (List PyStr)
  | 0, _, _ => none
  | fuel + 1, start, chunks =>
    if start < words.length then
      let stop := min (start + maxWords) words.length
      let chunks := chunks ++ [join (slice words start stop)]
      if stop = words.length then some chunks
      else chunkLoop words maxWords overlapWords fuel (stop - overlapWords) chunks
    else some chunks

/-- `chunk_text(text, max_tokens, overlap)`. -/
def chunkText (text : PyStr) (maxTokens overlap : Int) (fuel : Nat) :
    Option (Except ChunkError (List PyStr)) :=
  if maxTokens ≤ overlap then some (.error (.overlap overlap maxTokens))
  else
    match wordsOf maxTokens, wordsOf overlap with
    | some maxWords, some overlapWords =>
      if (split text).length ≤ maxWords then some (.ok [text])
      else (chunkLoop (split text) maxWords overlapWords fuel 0 []).map .ok
    | _, _ => some (.error .overflow)

/-! ## What chunks have to be -/

/-- The chunks hold the words of the text in windows that overlap. -/
structure Covers (maxWords overlapWords : Nat) (text : PyStr) (chunks : List PyStr) : Prop where
  sized : ∀ c ∈ chunks, c ≠ [] ∧ (split c).length ≤ maxWords
  shared : (chunks.map split).IsChain (Overlap overlapWords)
  whole : rejoin overlapWords (chunks.map split) = split text

/-- `chunk_text` comes to an end, and where it has split the text its chunks cover it. -/
def Chunked (text : PyStr) (maxTokens overlap : Int) : Prop :=
  ∃ fuel result, chunkText text maxTokens overlap fuel = some result ∧
    ∀ maxWords overlapWords chunks, wordsOf maxTokens = some maxWords →
      wordsOf overlap = some overlapWords → maxWords < (split text).length →
      result = .ok chunks → Covers maxWords.toNat overlapWords.toNat text chunks

/-- The text is not longer than a chunk. -/
def FitsOne (text : PyStr) (maxTokens : Int) : Prop :=
  ∀ maxWords, wordsOf maxTokens = some maxWords → (split text).length ≤ maxWords

/-- Fewer words overlap than a chunk holds. -/
def Advances (maxTokens overlap : Int) : Prop :=
  ∀ maxWords overlapWords, wordsOf maxTokens = some maxWords →
    wordsOf overlap = some overlapWords → overlapWords < maxWords

/-! ## Sizes -/

theorem roundBinary_wordsPerToken : roundBinary (3 / 4) = 3 / 4 := by
  have hbits := roundBinary_of_bits (n := 3) (e := -2) (by norm_num) (by norm_num)
  norm_num at hbits
  exact hbits

theorem two_pow_le_maxDouble : (2 : ℚ) ^ 51 ≤ maxDouble := by
  have hpow : (1 : ℚ) ≤ 2 ^ 971 := one_le_pow₀ one_le_two
  have hmul := mul_le_mul_of_nonneg_left hpow (show (0 : ℚ) ≤ 2 ^ 53 - 1 by norm_num)
  refine le_trans ?_ hmul
  norm_num

theorem isDouble_wordsPerToken : IsDouble (3 / 4) :=
  ⟨roundBinary_wordsPerToken, le_trans (by norm_num) two_pow_le_maxDouble⟩

theorem wordsPerToken_eq : wordsPerToken = .finite (3 / 4) isDouble_wordsPerToken :=
  Double.round_of_isDouble isDouble_wordsPerToken

theorem round_cases (x : ℚ) : (∃ h, Double.round x = .finite (roundBinary x) h) ∨
    Double.round x = .inf ∨ Double.round x = .negInf := by
  unfold Double.round
  split_ifs with hmax hpos
  · exact .inl ⟨⟨roundBinary_roundBinary x, hmax⟩, rfl⟩
  · exact .inr (.inl rfl)
  · exact .inr (.inr rfl)

theorem toInt_round {x : ℚ} {n : Int} (hx : 0 ≤ roundBinary x) (h : toInt (.round x) = some n) :
    n = ⌊roundBinary x⌋ := by
  obtain ⟨hdouble, hround⟩ | hround | hround := round_cases x
  · rw [hround, toInt, if_pos hx, Option.some_inj] at h
    exact h.symm
  · rw [hround] at h
    cases h
  · rw [hround] at h
    cases h

/-- The product of a size that is not negative. -/
theorem wordsOf_eq_some {tokens maxWords : Int} (htokens : 0 ≤ tokens)
    (h : wordsOf tokens = some maxWords) :
    maxWords = ⌊roundBinary (roundBinary tokens * (3 / 4))⌋ := by
  obtain ⟨x, hx, h⟩ := Option.bind_eq_some_iff.1 h
  have hround : (0 : ℚ) ≤ roundBinary tokens := roundBinary_nonneg (by exact_mod_cast htokens)
  have hproduct : 0 ≤ roundBinary (roundBinary tokens * (3 / 4)) :=
    roundBinary_nonneg (mul_nonneg hround (by norm_num))
  rw [Double.ofInt] at hx
  obtain ⟨hdouble, hfinite⟩ | hinf | hinf := round_cases tokens
  · rw [hfinite] at hx
    cases hx
    rw [wordsPerToken_eq] at h
    exact toInt_round hproduct h
  · rw [hinf] at hx
    cases hx
  · rw [hinf] at hx
    cases hx

theorem wordsOf_nonneg {tokens maxWords : Int} (htokens : 0 ≤ tokens)
    (h : wordsOf tokens = some maxWords) : 0 ≤ maxWords := by
  have hround : (0 : ℚ) ≤ roundBinary tokens := roundBinary_nonneg (by exact_mod_cast htokens)
  rw [wordsOf_eq_some htokens h]
  exact Int.floor_nonneg.2 (roundBinary_nonneg (mul_nonneg hround (by norm_num)))

theorem wordsOf_mono {overlap maxTokens overlapWords maxWords : Int} (hoverlap : 0 ≤ overlap)
    (hle : overlap ≤ maxTokens) (ho : wordsOf overlap = some overlapWords)
    (hm : wordsOf maxTokens = some maxWords) : overlapWords ≤ maxWords := by
  have hoverlap' : (0 : ℚ) ≤ overlap := by exact_mod_cast hoverlap
  have hround : roundBinary overlap ≤ roundBinary maxTokens :=
    roundBinary_mono hoverlap' (by exact_mod_cast hle)
  rw [wordsOf_eq_some hoverlap ho, wordsOf_eq_some (hoverlap.trans hle) hm]
  refine Int.floor_le_floor (roundBinary_mono ?_ ?_)
  · exact mul_nonneg (roundBinary_nonneg hoverlap') (by norm_num)
  · exact mul_le_mul_of_nonneg_right hround (by norm_num)

/-- For sizes that a double holds with two binary places the product is exact. -/
theorem wordsOf_small {tokens : Int} (htokens : 0 ≤ tokens) (hsmall : tokens ≤ 2 ^ 51) :
    wordsOf tokens = some (3 * tokens / 4) := by
  have hround : roundBinary tokens = tokens := by
    have hbits := roundBinary_of_bits (n := tokens) (e := 0)
      (abs_le.2 ⟨by linarith, by linarith⟩) (by norm_num)
    simpa using hbits
  have hproduct : roundBinary (tokens * (3 / 4)) = tokens * (3 / 4) := by
    have hbits := roundBinary_of_bits (n := 3 * tokens) (e := -2)
      (abs_le.2 ⟨by linarith, by linarith⟩) (by norm_num)
    have heq : ((3 * tokens : Int) : ℚ) * 2 ^ (-2 : ℤ) = tokens * (3 / 4) := by
      push_cast
      ring
    rwa [heq] at hbits
  have hbound : |(tokens : ℚ)| ≤ 2 ^ 51 := by
    rw [abs_of_nonneg (by exact_mod_cast htokens)]
    exact_mod_cast hsmall
  have htokensDouble : IsDouble tokens := ⟨hround, hbound.trans two_pow_le_maxDouble⟩
  have hproductDouble : IsDouble (tokens * (3 / 4)) := by
    refine ⟨hproduct, le_trans ?_ (hbound.trans two_pow_le_maxDouble)⟩
    rw [abs_mul]
    exact mul_le_of_le_one_right (abs_nonneg _) (by norm_num)
  have hfloor : ⌊(tokens : ℚ) * (3 / 4)⌋ = 3 * tokens / 4 := by
    have heq : (tokens : ℚ) * (3 / 4) = ((3 * tokens : Int) : ℚ) / ((4 : Nat) : ℚ) := by
      push_cast
      ring
    rw [heq, Rat.floor_intCast_div_natCast]
    rfl
  rw [wordsOf, Double.ofInt, Double.round_of_isDouble htokensDouble, wordsPerToken_eq]
  simp only [Double.isFinite, if_true, Option.bind_some, Double.mul]
  rw [Double.round_of_isDouble hproductDouble, toInt,
    if_pos (mul_nonneg (by exact_mod_cast htokens) (by norm_num)), hfloor]

/-- For small sizes the window stands still for 4 k + 1 tokens with 4 k of them as overlap. -/
theorem advances_iff_small {maxTokens overlap : Int} (hoverlap : 0 ≤ overlap)
    (hlt : overlap < maxTokens) (hsmall : maxTokens ≤ 2 ^ 51) :
    Advances maxTokens overlap ↔ ¬ (maxTokens % 4 = 1 ∧ overlap + 1 = maxTokens) := by
  have hm := wordsOf_small (hoverlap.trans hlt.le) hsmall
  have ho := wordsOf_small hoverlap (hlt.le.trans hsmall)
  have hadvances : Advances maxTokens overlap ↔ 3 * overlap / 4 < 3 * maxTokens / 4 := by
    simp [Advances, hm, ho]
  rw [hadvances]
  by_cases hnext : overlap + 1 = maxTokens
  · subst hnext
    have hmod : overlap % 4 = 0 ∨ overlap % 4 = 1 ∨ overlap % 4 = 2 ∨ overlap % 4 = 3 := by omega
    obtain hmod | hmod | hmod | hmod := hmod
    all_goals omega
  · simp only [hnext, and_false, not_false_iff, iff_true]
    omega

/-! ## The loop -/

theorem slice_natCast (xs : List PyStr) {start size : Nat} (hstop : start + size ≤ xs.length) :
    slice xs start (start + size : Nat) = (xs.drop start).take size := by
  have hindex {i : Nat} (hi : i ≤ xs.length) : sliceIndex xs.length i = i := by
    rw [sliceIndex, if_neg (by omega)]
    omega
  rw [slice, hindex hstop, hindex (by omega), List.drop_take, Nat.add_sub_cancel_left]

theorem chunkLoop_succ {words : List PyStr} {start : Int} (hstart : start < words.length)
    (maxWords overlapWords : Int) (fuel : Nat) (chunks : List PyStr) :
    chunkLoop words maxWords overlapWords (fuel + 1) start chunks =
      if min (start + maxWords) words.length = words.length then
        some (chunks ++ [join (slice words start (min (start + maxWords) words.length))])
      else
        chunkLoop words maxWords overlapWords fuel
          (min (start + maxWords) words.length - overlapWords)
          (chunks ++ [join (slice words start (min (start + maxWords) words.length))]) := by
  rw [chunkLoop, if_pos hstart]

/-- The loop runs through the windows of what is left. -/
theorem chunkLoop_of_windows {words : List PyStr} {maxWords overlapWords start : Nat}
    {ws : List (List PyStr)} (hover : overlapWords < maxWords)
    (h : Windows maxWords overlapWords (words.drop start) ws) (chunks : List PyStr) :
    chunkLoop words maxWords overlapWords ws.length start chunks =
      some (chunks ++ ws.map join) := by
  generalize hxs : words.drop start = xs at h
  induction h generalizing start chunks with
  | @last xs hne hsize =>
    have hlength : xs.length = words.length - start := by rw [← hxs, List.length_drop]
    have hpos := List.length_pos_iff.2 hne
    have hstop : min ((start : Int) + maxWords) words.length = (start + xs.length : Nat) := by omega
    have hend : ((start + xs.length : Nat) : Int) = words.length := by omega
    rw [List.length_singleton, chunkLoop_succ (by omega), hstop, slice_natCast words (by omega),
      hxs, List.take_length, if_pos hend, List.map_singleton]
  | @more xs ws hsize h ih =>
    have hlength : xs.length = words.length - start := by rw [← hxs, List.length_drop]
    have hstop : min ((start : Int) + maxWords) words.length = (start + maxWords : Nat) := by omega
    have hend : ((start + maxWords : Nat) : Int) ≠ words.length := by omega
    have hstep : ((start + maxWords : Nat) : Int) - overlapWords =
        (start + (maxWords - overlapWords) : Nat) := by omega
    rw [List.length_cons, chunkLoop_succ (by omega), hstop, slice_natCast words (by omega), hxs,
      if_neg hend, hstep, ih _ (by rw [← hxs, List.drop_drop]), List.map_cons, List.append_assoc,
      List.singleton_append]

/-- More fuel does not change what the loop returns. -/
theorem chunkLoop_fuel {words : List PyStr} {maxWords overlapWords : Int} {fuel : Nat} {start : Int}
    {chunks result : List PyStr}
    (h : chunkLoop words maxWords overlapWords fuel start chunks = some result) :
    chunkLoop words maxWords overlapWords (fuel + 1) start chunks = some result := by
  induction fuel generalizing start chunks with
  | zero => cases h
  | succ fuel ih =>
    by_cases hstart : start < words.length
    · rw [chunkLoop_succ hstart] at h ⊢
      split_ifs at h ⊢ with hstop
      · exact h
      · exact ih h
    · rw [chunkLoop, if_neg hstart] at h ⊢
      exact h

/-- A window that does not move on never comes to the end. -/
theorem chunkLoop_stuck {words : List PyStr} {maxWords : Int} (hpos : 0 ≤ maxWords)
    (hlong : maxWords < words.length) (fuel : Nat) (chunks : List PyStr) :
    chunkLoop words maxWords maxWords fuel 0 chunks = none := by
  induction fuel generalizing chunks with
  | zero => rfl
  | succ fuel ih =>
    have hstop : min (0 + maxWords) (words.length : Int) = maxWords := by omega
    rw [chunkLoop_succ (by omega), hstop, if_neg hlong.ne, Int.sub_self]
    exact ih _

/-! ## Coverage -/

theorem split_join {ws : List PyStr} (hws : ∀ w ∈ ws, IsWord isSpace w) : split (join ws) = ws :=
  words_intercalate rfl hws

theorem covers_of_windows {text : PyStr} {maxWords overlapWords : Nat} {ws : List (List PyStr)}
    (hover : overlapWords < maxWords) (h : Windows maxWords overlapWords (split text) ws) :
    Covers maxWords overlapWords text (ws.map join) := by
  have hsplit : ∀ w ∈ ws, split (join w) = w := by
    intro w hw
    obtain ⟨-, -, hin⟩ := h.mem (by omega) hw
    exact split_join fun v hv => isWord_of_mem_words (hin.subset hv)
  have hmap : (ws.map join).map split = ws := by
    rw [List.map_map]
    exact (List.map_congr_left hsplit).trans (List.map_id' ws)
  refine ⟨?_, ?_, ?_⟩
  · intro c hc
    obtain ⟨w, hw, rfl⟩ := List.mem_map.1 hc
    obtain ⟨hne, hsize, -⟩ := h.mem (by omega) hw
    refine ⟨?_, by rwa [hsplit w hw]⟩
    intro hnil
    have hempty := hsplit w hw
    rw [hnil] at hempty
    exact hne hempty.symm
  · rw [hmap]
    exact h.chain hover
  · rw [hmap]
    exact h.rejoin_eq hover

/-- `chunk_text` does what it is for on every text that fits into one chunk, and on every other text
if and only if the window moves on. -/
theorem chunkText_chunked_iff {text : PyStr} {maxTokens overlap : Int} (hoverlap : 0 ≤ overlap)
    (hlt : overlap < maxTokens) :
    (Chunked text maxTokens overlap ↔ FitsOne text maxTokens ∨ Advances maxTokens overlap) ∧
      (maxTokens ≤ 2 ^ 51 →
        (Advances maxTokens overlap ↔ ¬ (maxTokens % 4 = 1 ∧ overlap + 1 = maxTokens))) := by
  refine ⟨?_, advances_iff_small hoverlap hlt⟩
  cases hm : wordsOf maxTokens with
  | none =>
    have hresult : chunkText text maxTokens overlap 0 = some (.error .overflow) := by
      rw [chunkText, if_neg (by omega), hm]
    refine iff_of_true ⟨0, _, hresult, ?_⟩ (.inl ?_)
    · intro a b chunks ha
      exact absurd (hm.symm.trans ha) (by simp)
    · intro a ha
      exact absurd (hm.symm.trans ha) (by simp)
  | some maxWords =>
    cases ho : wordsOf overlap with
    | none =>
      have hresult : chunkText text maxTokens overlap 0 = some (.error .overflow) := by
        rw [chunkText, if_neg (by omega), hm, ho]
      refine iff_of_true ⟨0, _, hresult, ?_⟩ (.inr ?_)
      · intro a b chunks ha hb
        exact absurd (ho.symm.trans hb) (by simp)
      · intro a b ha hb
        exact absurd (ho.symm.trans hb) (by simp)
    | some overlapWords =>
      have hle := wordsOf_mono hoverlap hlt.le ho hm
      obtain ⟨a, rfl⟩ := Int.eq_ofNat_of_zero_le (wordsOf_nonneg (hoverlap.trans hlt.le) hm)
      obtain ⟨b, rfl⟩ := Int.eq_ofNat_of_zero_le (wordsOf_nonneg hoverlap ho)
      have hfits : FitsOne text maxTokens ↔ ((split text).length : Int) ≤ a := by
        simp [FitsOne, hm]
      have hadvances : Advances maxTokens overlap ↔ (b : Int) < a := by
        simp [Advances, hm, ho]
      rw [hfits, hadvances]
      by_cases hone : ((split text).length : Int) ≤ a
      · have hresult : chunkText text maxTokens overlap 0 = some (.ok [text]) := by
          simp [chunkText, hm, ho, hlt, hone]
        refine iff_of_true ⟨0, _, hresult, ?_⟩ (.inl hone)
        intro maxWords overlapWords chunks ha hb hlong
        obtain rfl := Option.some_inj.1 (hm.symm.trans ha)
        exact absurd hone (not_le.2 hlong)
      · have hloop (fuel : Nat) : chunkText text maxTokens overlap fuel =
            (chunkLoop (split text) a b fuel 0 []).map .ok := by
          simp [chunkText, hm, ho, hlt, hone]
        by_cases hmove : (b : Int) < a
        · have hne : split text ≠ [] := by
            intro hnil
            simp [hnil] at hone
          obtain ⟨ws, hws⟩ := Windows.exists_of_ne_nil (by omega : b < a) hne
          have hrun : chunkLoop (split text) a b ws.length 0 [] = some (ws.map join) :=
            chunkLoop_of_windows (by omega) hws []
          have hresult : chunkText text maxTokens overlap ws.length = some (.ok (ws.map join)) := by
            rw [hloop, hrun]
            rfl
          refine iff_of_true ⟨_, _, hresult, ?_⟩ (.inr hmove)
          intro maxWords overlapWords chunks ha hb _ hchunks
          obtain rfl := Option.some_inj.1 (hm.symm.trans ha)
          obtain rfl := Option.some_inj.1 (ho.symm.trans hb)
          cases hchunks
          exact covers_of_windows (by omega) hws
        · refine iff_of_false ?_ (by simp [hone, hmove])
          rintro ⟨fuel, result, hresult, -⟩
          obtain rfl : b = a := by omega
          rw [hloop, chunkLoop_stuck (by omega) (by omega)] at hresult
          cases hresult

theorem chunkText_chunked_sample : Chunked (.ofString "a b c d") 4 2 := by
  have hadvances : Advances 4 2 := (advances_iff_small (by norm_num) (by norm_num) (by norm_num)).2
    (by norm_num)
  exact (chunkText_chunked_iff (by norm_num) (by norm_num)).1.2 (.inr hadvances)

/-- With five tokens a chunk holds three words, and all three overlap. -/
theorem chunkText_runs_on : (∀ fuel, chunkText (.ofString "a b c d") 5 4 fuel = none) ∧
    ¬ Chunked (.ofString "a b c d") 5 4 := by
  have hm : wordsOf 5 = some 3 := wordsOf_small (by norm_num) (by norm_num)
  have ho : wordsOf 4 = some 3 := wordsOf_small (by norm_num) (by norm_num)
  have hlength : (split (.ofString "a b c d")).length = 4 := by decide
  have hstuck (fuel : Nat) : chunkText (.ofString "a b c d") 5 4 fuel = none := by
    have hloop : chunkLoop (split (.ofString "a b c d")) 3 3 fuel 0 [] = none :=
      chunkLoop_stuck (by omega) (by omega) fuel []
    simp [chunkText, hm, ho, hlength, hloop]
  refine ⟨hstuck, ?_⟩
  rintro ⟨fuel, result, hresult, -⟩
  rw [hstuck fuel] at hresult
  cases hresult

end ParallaxKernel.Extract
