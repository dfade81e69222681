import ParallaxKernel.Extract.Chunking
import ParallaxKernel.Lib.PyJsonLines
import ParallaxKernel.Session.Hooks

/-!
# Claims out of a model's answer

`parse_claims_json` of `extract/providers/_parse.py`. An array is read element by element, and what is
wrong with one element does not concern the others, except that some errors are not caught: an
`OverflowError` in a conversion, and what `json.loads` raises besides `JSONDecodeError`. The fences
are taken out line by line, so that a line boundary in a string becomes a newline.
-/

namespace ParallaxKernel.Extract

open Lib Store Session PyJson

/-! ## The source -/

structure RawClaim where
  entity : PyStr
  claimText : PyStr
  polarity : Int
  confidence : Double
  claimType : PyStr
  evidence : PyStr

inductive ParseExc where
  | typeError
  | valueError
  | overflowError
  | recursionError
  deriving DecidableEq

/-- The interpreter: what it converts a text to, and a value to a text. -/
structure ParseEnv where
  limits : JsonLimits
  /-- `float(text)`; nothing where it raises `ValueError`. -/
  floatOf : PyStr → Option Double
  /-- `int(text)`; nothing where it raises `ValueError`. -/
  intOf : PyStr → Option Int
  /-- `str(value)` of a value that is not a string. -/
  str : PyJson → PyStr

/-- `MIN_CONFIDENCE`. -/
def minConfidence : Double := .round (1 / 2)

section Source

variable (T : ParseEnv)

/-- `str(value)`. -/
def textOf : PyJson → PyStr
  | .str s => s
  | v => T.str v

/-- `float(value)`. -/
def floatOf : PyJson → Except ParseExc Double
  | .bool b => .ok (.round (if b then 1 else 0))
  | .int n =>
    match Double.ofInt n with
    | some x => .ok x
    | none => .error .overflowError
  | .float f => .ok (.ofPyFloat f)
  | .str s =>
    match T.floatOf s with
    | some x => .ok x
    | none => .error .valueError
  | _ => .error .typeError

/-- `int(value)`. -/
def intOf : PyJson → Except ParseExc Int
  | .bool b => .ok (if b then 1 else 0)
  | .int n => .ok n
  | .float .nan => .error .valueError
  | .float f =>
    match toInt (.ofPyFloat f) with
    | some n => .ok n
    | none => .error .overflowError
  | .str s =>
    match T.intOf s with
    | some n => .ok n
    | none => .error .valueError
  | _ => .error .typeError

/-- `item.get(key, default)`. -/
def getField (ms : List (PyStr × PyJson)) (key : String) (default : PyJson) : PyJson :=
  (PyJson.member? (.ofString key) ms).getD default

def confidenceField (ms : List (PyStr × PyJson)) : PyJson :=
  getField ms "confidence" (.float (.finite ⟨false, "0.0".toList, isFloatLit_zero⟩))

def polarityField (ms : List (PyStr × PyJson)) : PyJson := getField ms "polarity" (.int 0)

/-- The text of a field. -/
def textField (ms : List (PyStr × PyJson)) (key default : String) : PyStr :=
  stripText (textOf T (getField ms key (.str (.ofString default))))

def clampPolarity (polarity : Int) : Int := if polarity ∈ [-1, 0, 1] then polarity else 0

/-- The claim of an object, given its numbers. -/
def toClaim (ms : List (PyStr × PyJson)) (confidence : Double) (polarity : Int) : RawClaim :=
  { entity := textField T ms "entity" "Unknown"
    claimText := textField T ms "claim_text" ""
    polarity := clampPolarity polarity
    confidence := confidence
    claimType := textField T ms "claim_type" "opinion"
    evidence := (textField T ms "evidence" "").take 200 }

/-- The body of the loop for an object, inside `try`. -/
def readClaim (ms : List (PyStr × PyJson)) : Except ParseExc (Option RawClaim) := do
  let confidence ← floatOf T (confidenceField ms)
  if confidence.lt minConfidence then .ok none
  else do
    let polarity ← intOf T (polarityField ms)
    .ok (some (toClaim T ms confidence polarity))

/-- `except (TypeError, ValueError)`. -/
def ParseExc.isCaught : ParseExc → Bool
  | .typeError | .valueError => true
  | _ => false

/-- The body of the loop. -/
def readItem : PyJson → Except ParseExc (Option RawClaim)
  | .obj ms =>
    match readClaim T ms with
    | .error e => if e.isCaught then .ok none else .error e
    | .ok claim => .ok claim
  | _ => .ok none

/-- The loop over the items. -/
def readItems : List PyJson → List RawClaim → Except ParseExc (List RawClaim)
  | [], claims => .ok claims
  | item :: items, claims => do
    match ← readItem T item with
    | some claim => readItems items (claims ++ [claim])
    | none => readItems items claims

def isFence (line : List Char) : Bool := "```".toList.isPrefixOf line

/-- The text that is decoded. -/
def stripFences (raw : String) : String :=
  let text := strip raw
  if isFence text.toList then
    strip (.ofList (['\n'].intercalate ((splitlines text.toList).filter fun line => !isFence line)))
  else text

/-- What is made of what `json.loads` returns or raises. -/
def claimsOf : Except JsonError PyJson → Except ParseExc (List RawClaim)
  | .error .malformed => .ok []
  | .error .digits => .error .valueError
  | .error .depth => .error .recursionError
  | .ok (.arr items) => readItems T items []
  | .ok _ => .ok []

/-- `parse_claims_json`. -/
def parseClaimsJson (raw : String) : Except ParseExc (List RawClaim) :=
  claimsOf T (loadsWithin T.limits (stripFences raw))

/-! ## What a parse has to be -/

/-- The claim that an element stands for. -/
def claimOf : PyJson → Option RawClaim
  | .obj ms =>
    match floatOf T (confidenceField ms), intOf T (polarityField ms) with
    | .ok (.finite x h), .ok polarity =>
      if 1 / 2 ≤ x then some (toClaim T ms (.finite x h) polarity) else none
    | _, _ => none
  | _ => none

/-- A text between a line that starts with a fence and a closing one. -/
def fenced (opening raw closing : String) : String := opening ++ "\n" ++ raw ++ "\n" ++ closing

def FenceLine (line : String) : Prop := isFence line.toList = true ∧ OneLine line.toList

/-- The parse returns; it reads an array element by element; fences make no difference to it. -/
structure ParsesRight (raw : String) : Prop where
  returns : ∃ claims, parseClaimsJson T raw = .ok claims
  elementwise : ∀ items, loadsWithin T.limits raw = .ok (.arr items) →
    parseClaimsJson T raw = .ok (items.filterMap (claimOf T))
  short : ∀ claims, parseClaimsJson T raw = .ok claims → ∀ c ∈ claims, c.evidence.length ≤ 200
  unfenced : ∀ items, loadsWithin T.limits raw = .ok (.arr items) →
    ∀ opening closing, FenceLine opening → FenceLine closing →
      parseClaimsJson T (fenced opening raw closing) = parseClaimsJson T raw

/-- A conversion of the element raises `OverflowError`: its confidence is an integer beyond the
doubles, or it is not below the least one and the polarity is infinite. -/
def Overflows : PyJson → Prop
  | .obj ms => floatOf T (confidenceField ms) = .error .overflowError ∨
      ∃ x, floatOf T (confidenceField ms) = .ok x ∧ x.lt minConfidence = false ∧
        intOf T (polarityField ms) = .error .overflowError
  | _ => False

/-- The confidence of the element is infinite or NaN, and nothing else is wrong with it. -/
def Unbounded : PyJson → Prop
  | .obj ms => (∃ x, floatOf T (confidenceField ms) = .ok x ∧ (x = .inf ∨ x = .nan)) ∧
      ∃ n, intOf T (polarityField ms) = .ok n
  | _ => False

/-- The text that is decoded exceeds no limit of the interpreter and holds no element that
overflows; in an array all confidences that count are finite, and if one of its strings has a line
boundary in it, no element stands for a claim. -/
structure Tame (raw : String) : Prop where
  limits : ∀ e, loadsWithin T.limits (stripFences raw) = .error e → e = .malformed
  overflow : ∀ items, loadsWithin T.limits (stripFences raw) = .ok (.arr items) →
    ∀ item ∈ items, ¬ Overflows T item
  bounded : ∀ items, loadsWithin T.limits raw = .ok (.arr items) →
    ∀ item ∈ items, ¬ Unbounded T item
  separators : ∀ items, loadsWithin T.limits raw = .ok (.arr items) →
    (∃ c ∈ raw.toList, isSeparator c = true) → ∀ item ∈ items, claimOf T item = none

end Source

variable {T : ParseEnv} {ms : List (PyStr × PyJson)} {item : PyJson} {items : List PyJson}
  {claims : List RawClaim} {raw : String}

/-! ## One element -/

theorem isDouble_half : IsDouble (1 / 2) := by
  have hround := roundBinary_of_bits (n := 1) (e := -1) (by norm_num) (by norm_num)
  have hle := two_pow_le_maxDouble
  norm_num at hround
  refine ⟨by simpa using hround, ?_⟩
  have habs : |(1 / 2 : ℚ)| = 1 / 2 := abs_of_pos (by norm_num)
  rw [habs]
  exact le_trans (by norm_num) hle

theorem lt_minConfidence {x : ℚ} {h : IsDouble x} :
    (Double.finite x h).lt minConfidence = true ↔ x < 1 / 2 := by
  rw [minConfidence, Double.round_of_isDouble isDouble_half]
  simp [Double.lt]

/-- Only conversions of numbers raise what the loop does not catch. -/
theorem floatOf_error {v : PyJson} {e : ParseExc} (h : floatOf T v = .error e) :
    e.isCaught = true ∨ e = .overflowError := by
  unfold floatOf at h
  split at h
  · cases h
  · split at h
    · cases h
    · cases h
      exact .inr rfl
  · cases h
  · split at h
    · cases h
    · cases h
      exact .inl rfl
  · cases h
    exact .inl rfl

theorem intOf_error {v : PyJson} {e : ParseExc} (h : intOf T v = .error e) :
    e.isCaught = true ∨ e = .overflowError := by
  unfold intOf at h
  split at h
  · cases h
  · cases h
  · cases h
    exact .inl rfl
  · split at h
    · cases h
    · cases h
      exact .inr rfl
  · split at h
    · cases h
    · cases h
      exact .inl rfl
  · cases h
    exact .inl rfl

/-- An element that overflows is the only one that ends the loop. -/
theorem readItem_overflows (h : Overflows T item) : readItem T item = .error .overflowError := by
  cases item with
  | obj ms =>
    have hread : readClaim T ms = .error .overflowError := by
      obtain hx | ⟨x, hx, hlow, hn⟩ := h
      · rw [readClaim, hx]
        rfl
      · rw [readClaim, hx]
        simp only [bind, Except.bind, hlow, hn]
        rfl
    rw [readItem, hread]
    rfl
  | _ => exact h.elim

/-- What the body of the loop reads of an element that is not infinite. -/
theorem readItem_bounded (hover : ¬ Overflows T item) (hbound : ¬ Unbounded T item) :
    readItem T item = .ok (claimOf T item) := by
  cases item with
  | obj ms =>
    rw [readItem, claimOf, readClaim]
    cases hx : floatOf T (confidenceField ms) with
    | error e =>
      obtain hcaught | rfl := floatOf_error hx
      · simp [bind, Except.bind, hcaught]
      · exact absurd (.inl hx) hover
    | ok x =>
      simp only [bind, Except.bind]
      by_cases hlow : x.lt minConfidence = true
      · rw [if_pos hlow]
        cases hn : intOf T (polarityField ms) with
        | error e => simp
        | ok n =>
          cases x with
          | finite x h =>
            dsimp only
            rw [if_neg (not_le.2 (lt_minConfidence.1 hlow))]
          | _ => rfl
      · rw [if_neg hlow]
        cases hn : intOf T (polarityField ms) with
        | error e =>
          obtain hcaught | rfl := intOf_error hn
          · simp [hcaught]
          · exact absurd (.inr ⟨x, hx, Bool.eq_false_iff.2 hlow, hn⟩) hover
        | ok n =>
          cases x with
          | finite x h =>
            rw [lt_minConfidence, not_lt] at hlow
            dsimp only
            rw [if_pos hlow]
          | negInf =>
            refine absurd ?_ hlow
            rw [minConfidence, Double.round_of_isDouble isDouble_half]
            rfl
          | inf => exact absurd ⟨⟨_, hx, .inl rfl⟩, n, hn⟩ hbound
          | nan => exact absurd ⟨⟨_, hx, .inr rfl⟩, n, hn⟩ hbound
  | _ => rfl

/-- An infinite confidence counts as one that is high enough. -/
theorem readItem_unbounded (h : Unbounded T item) :
    ∃ c, readItem T item = .ok (some c) ∧ (c.confidence = .inf ∨ c.confidence = .nan) := by
  cases item with
  | obj ms =>
    obtain ⟨⟨x, hx, hinf⟩, n, hn⟩ := h
    refine ⟨toClaim T ms x n, ?_, hinf⟩
    have hlow : x.lt minConfidence = false := by
      rw [minConfidence, Double.round_of_isDouble isDouble_half]
      obtain rfl | rfl := hinf <;> rfl
    rw [readItem, readClaim, hx, hn]
    simp only [bind, Except.bind, hlow]
    rfl
  | _ => exact h.elim

theorem exists_readItem (hover : ¬ Overflows T item) : ∃ c, readItem T item = .ok c := by
  by_cases hbound : Unbounded T item
  · obtain ⟨c, hc, -⟩ := readItem_unbounded hbound
    exact ⟨some c, hc⟩
  · exact ⟨_, readItem_bounded hover hbound⟩

theorem claimOf_finite {c : RawClaim} (h : claimOf T item = some c) :
    ∃ x hx, c.confidence = .finite x hx ∧ 1 / 2 ≤ x := by
  cases item with
  | obj ms =>
    rw [claimOf] at h
    split at h
    · next x hx n _ _ =>
      split_ifs at h with hle
      cases h
      exact ⟨x, hx, rfl, hle⟩
    · cases h
  | _ => cases h

theorem readItem_short {c : RawClaim} (h : readItem T item = .ok (some c)) :
    c.evidence.length ≤ 200 := by
  cases item with
  | obj ms =>
    rw [readItem] at h
    cases hread : readClaim T ms with
    | error e =>
      rw [hread] at h
      dsimp only at h
      split_ifs at h
      cases h
    | ok claim =>
      rw [hread] at h
      obtain rfl : claim = some c := by simpa using h
      rw [readClaim] at hread
      cases hx : floatOf T (confidenceField ms) with
      | error e =>
        rw [hx] at hread
        cases hread
      | ok x =>
        rw [hx] at hread
        simp only [bind, Except.bind] at hread
        split_ifs at hread
        case pos => cases hread
        cases hn : intOf T (polarityField ms) with
        | error e =>
          rw [hn] at hread
          cases hread
        | ok n =>
          rw [hn] at hread
          cases hread
          exact List.length_take_le 200 _
  | _ => cases h

/-! ## The loop -/

/-- Where no element overflows the loop returns what it has read of each. -/
theorem readItems_ok (read : PyJson → Option RawClaim)
    (h : ∀ item ∈ items, readItem T item = .ok (read item)) (claims : List RawClaim) :
    readItems T items claims = .ok (claims ++ items.filterMap read) := by
  induction items generalizing claims with
  | nil => rw [readItems, List.filterMap_nil, List.append_nil]
  | cons item items ih =>
    obtain ⟨hitem, hitems⟩ := List.forall_mem_cons.1 h
    rw [readItems, hitem, List.filterMap_cons]
    simp only [bind, Except.bind]
    cases read item with
    | none => exact ih hitems claims
    | some c =>
      dsimp only
      rw [ih hitems, List.append_assoc]
      rfl

theorem readItems_overflows (h : ∃ item ∈ items, Overflows T item) (claims : List RawClaim) :
    readItems T items claims = .error .overflowError := by
  induction items generalizing claims with
  | nil =>
    obtain ⟨item, hitem, -⟩ := h
    cases hitem
  | cons item items ih =>
    by_cases hover : Overflows T item
    · rw [readItems, readItem_overflows hover]
      rfl
    · have hitems : ∃ item ∈ items, Overflows T item := by
        obtain ⟨other, hmem, hother⟩ := h
        obtain rfl | hmem := List.mem_cons.1 hmem
        · exact absurd hother hover
        · exact ⟨other, hmem, hother⟩
      rw [readItems]
      obtain ⟨c, hc⟩ := exists_readItem hover
      rw [hc]
      simp only [bind, Except.bind]
      cases c with
      | none => exact ih hitems claims
      | some c => exact ih hitems (claims ++ [c])

/-- What the loop returns. -/
theorem readItems_eq_ok (h : readItems T items [] = .ok claims) :
    (∀ item ∈ items, ¬ Overflows T item) ∧
      ∃ read : PyJson → Option RawClaim, claims = items.filterMap read ∧
        ∀ item ∈ items, readItem T item = .ok (read item) := by
  have hover : ∀ item ∈ items, ¬ Overflows T item := by
    intro item hitem hover
    rw [readItems_overflows ⟨item, hitem, hover⟩] at h
    cases h
  have hread : ∀ item ∈ items, readItem T item = .ok (readItem T item).toOption.join := by
    intro item hitem
    obtain ⟨c, hc⟩ := exists_readItem (hover item hitem)
    rw [hc]
    rfl
  refine ⟨hover, _, ?_, hread⟩
  rw [readItems_ok _ hread, List.nil_append] at h
  exact (Except.ok.inj h).symm

/-! ## The fences -/

theorem blanks_isPySpace : Blanks isPySpace := by
  constructor
  · intro c h
    simp only [Json.isSpace, Bool.or_eq_true, beq_iff_eq] at h
    obtain ((rfl | rfl) | rfl) | rfl := h <;> rfl
  · intro c h
    by_contra hsolid
    simp [isPySpace, isSolid] at h hsolid
    omega

theorem head_of_isFence {line : List Char} (h : isFence line = true) : line.head? = some '\x60' := by
  obtain ⟨rest, rfl⟩ := List.isPrefixOf_iff_prefix.1 h
  rfl

/-- What starts with a fence is not decoded. -/
theorem isFence_of_loads {L : JsonLimits} {text : String} {v : PyJson}
    (h : loadsWithin L text = .ok v) : isFence text.toList = false := by
  by_contra hfence
  rw [Bool.not_eq_false] at hfence
  obtain ⟨c, t, hskip, hc⟩ := head_of_loadsWithin h
  obtain ⟨rest, hrest⟩ := List.head?_eq_some_iff.1 (head_of_isFence hfence)
  rw [hrest, Json.skipSpace_cons (by rfl)] at hskip
  obtain rfl := (List.cons.inj hskip).1
  cases hc

theorem parseClaimsJson_of_array (h : loadsWithin T.limits raw = .ok (.arr items)) :
    loadsWithin T.limits (stripFences raw) = .ok (.arr items) ∧
      parseClaimsJson T raw = readItems T items [] := by
  have hstrip : loadsWithin T.limits (strip raw) = .ok (.arr items) :=
    loadsWithin_strip blanks_isPySpace h
  have hload : loadsWithin T.limits (stripFences raw) = .ok (.arr items) := by
    rw [stripFences, isFence_of_loads hstrip]
    exact hstrip
  exact ⟨hload, by rw [parseClaimsJson, hload]; rfl⟩

theorem rdropWhile_of_isFence {line : List Char} (h : isFence line = true) :
    isFence (line.rdropWhile isPySpace) = true := by
  obtain ⟨rest, rfl⟩ := List.isPrefixOf_iff_prefix.1 h
  refine List.isPrefixOf_iff_prefix.2 ?_
  by_cases hrest : rest.rdropWhile isPySpace = []
  · have hall := List.rdropWhile_eq_nil_iff.1 hrest
    rw [List.rdropWhile, List.reverse_append, List.dropWhile_append_of_pos
      fun c hc => hall c (List.mem_reverse.1 hc)]
    exact ⟨[], rfl⟩
  · rw [rdropWhile_append_of_ne _ hrest]
    exact List.prefix_append _ _

/-- Between fences an array is decoded unless there is a line boundary in one of its strings. -/
theorem parseClaimsJson_fenced {opening closing : String} (hopening : FenceLine opening)
    (hclosing : FenceLine closing) (h : loadsWithin T.limits raw = .ok (.arr items)) :
    parseClaimsJson T (fenced opening raw closing) =
      if raw.toList.any isSeparator then .ok [] else readItems T items [] := by
  have hfence := rdropWhile_of_isFence hclosing.1
  have hne : closing.toList.rdropWhile isPySpace ≠ [] := by
    intro hnil
    rw [hnil] at hfence
    cases hfence
  obtain ⟨rest, hrest⟩ := List.head?_eq_some_iff.1 (head_of_isFence hopening.1)
  have hstrip : (strip (fenced opening raw closing)).toList = opening.toList ++
      '\n' :: (raw.toList ++ '\n' :: closing.toList.rdropWhile isPySpace) := by
    have hchars : (fenced opening raw closing).toList =
        (opening.toList ++ '\n' :: (raw.toList ++ ['\n'])) ++ closing.toList := by
      simp [fenced, String.toList_append]
    have hdrop : ((fenced opening raw closing).toList).dropWhile isPySpace =
        (fenced opening raw closing).toList := by
      rw [hchars, hrest]
      exact List.dropWhile_cons_of_neg (by decide)
    rw [strip, String.toList_ofList, hdrop]
    have happend := rdropWhile_append_of_ne
      (opening.toList ++ '\n' :: (raw.toList ++ ['\n'])) hne
    rw [← hchars] at happend
    refine happend.trans ?_
    simp
  have hdecoded : stripFences (fenced opening raw closing) = .ofList (stripBy isPySpace
      (['\n'].intercalate
        (unfenced isFence (closing.toList.rdropWhile isPySpace) [] raw.toList))) := by
    have hisFence : isFence (strip (fenced opening raw closing)).toList = true := by
      rw [hstrip]
      obtain ⟨tail, htail⟩ := List.isPrefixOf_iff_prefix.1 hopening.1
      refine List.isPrefixOf_iff_prefix.2 ?_
      rw [← htail, List.append_assoc]
      exact List.prefix_append _ _
    have hlines : (splitlines (strip (fenced opening raw closing)).toList).filter
        (fun line => !isFence line) =
        unfenced isFence (closing.toList.rdropWhile isPySpace) [] raw.toList := by
      rw [hstrip, splitlines, splitlinesFrom_append hopening.2, splitlinesFrom_newline,
        List.filter_cons, List.append_nil, List.reverse_reverse, hopening.1, unfenced]
      rfl
    rw [stripFences, if_pos hisFence, hlines, strip, String.toList_ofList]
    rfl
  have hone : OneLine (closing.toList.rdropWhile isPySpace) :=
    hclosing.2.subset (List.rdropWhile_prefix isPySpace _).subset
  rw [parseClaimsJson, hdecoded, loadsWithin_unfenced blanks_isPySpace
    (fun line hline => head_of_isFence hline) hfence hone h]
  split_ifs <;> rfl

/-! ## The result -/

theorem short_of_parse (h : parseClaimsJson T raw = .ok claims) :
    ∀ c ∈ claims, c.evidence.length ≤ 200 := by
  unfold parseClaimsJson claimsOf at h
  split at h
  · cases h
    nofun
  · cases h
  · cases h
  · next items hload =>
    obtain ⟨-, read, rfl, hread⟩ := readItems_eq_ok h
    intro c hc
    obtain ⟨item, hitem, hsome⟩ := List.mem_filterMap.1 hc
    have hshort := hread item hitem
    rw [hsome] at hshort
    exact readItem_short hshort
  · cases h
    nofun

theorem fenceLine_bare : FenceLine "```" := ⟨by decide, by decide⟩

theorem tame_of_parsesRight (h : ParsesRight T raw) : Tame T raw := by
  obtain ⟨claims, hparse⟩ := h.returns
  refine ⟨?_, ?_, ?_, ?_⟩
  · intro e hload
    rw [parseClaimsJson, hload] at hparse
    cases e with
    | malformed => rfl
    | digits => cases hparse
    | depth => cases hparse
  · intro items hload
    rw [parseClaimsJson, hload] at hparse
    exact (readItems_eq_ok hparse).1
  · intro items hload item hitem hbound
    have hread := h.elementwise items hload
    rw [(parseClaimsJson_of_array hload).2] at hread
    obtain ⟨-, read, hclaims, hitems⟩ := readItems_eq_ok hread
    obtain ⟨c, hc, hinf⟩ := readItem_unbounded hbound
    have hsome : read item = some c := Except.ok.inj ((hitems item hitem).symm.trans hc)
    have hmem : c ∈ items.filterMap (claimOf T) := by
      rw [hclaims]
      exact List.mem_filterMap.2 ⟨item, hitem, hsome⟩
    obtain ⟨other, -, hother⟩ := List.mem_filterMap.1 hmem
    obtain ⟨x, hx, hfinite, -⟩ := claimOf_finite hother
    rw [hfinite] at hinf
    obtain hinf | hinf := hinf <;> cases hinf
  · intro items hload hsep item hitem
    have hsame := h.unfenced items hload "```" "```" fenceLine_bare fenceLine_bare
    rw [parseClaimsJson_fenced fenceLine_bare fenceLine_bare hload,
      if_pos (List.any_eq_true.2 hsep), h.elementwise items hload] at hsame
    have hnil : items.filterMap (claimOf T) = [] := (Except.ok.inj hsame).symm
    exact List.filterMap_eq_nil_iff.1 hnil item hitem

theorem parsesRight_of_tame (h : Tame T raw) : ParsesRight T raw := by
  have helements (items : List PyJson) (hload : loadsWithin T.limits raw = .ok (.arr items)) :
      parseClaimsJson T raw = .ok (items.filterMap (claimOf T)) := by
    obtain ⟨hdecoded, hparse⟩ := parseClaimsJson_of_array hload
    rw [hparse, readItems_ok (claimOf T) fun item hitem => readItem_bounded
      (h.overflow items hdecoded item hitem) (h.bounded items hload item hitem)]
    rfl
  refine ⟨?_, helements, fun claims hparse => short_of_parse hparse, ?_⟩
  · unfold parseClaimsJson claimsOf
    split
    · exact ⟨[], rfl⟩
    · next hload => cases h.limits _ hload
    · next hload => cases h.limits _ hload
    · next items hload =>
      have hread : ∀ item ∈ items, readItem T item = .ok (readItem T item).toOption.join := by
        intro item hitem
        obtain ⟨c, hc⟩ := exists_readItem (h.overflow items hload item hitem)
        rw [hc]
        rfl
      exact ⟨_, readItems_ok _ hread []⟩
    · exact ⟨[], rfl⟩
  · intro items hload opening closing hopening hclosing
    rw [parseClaimsJson_fenced hopening hclosing hload]
    split_ifs with hsep
    · have hnil : items.filterMap (claimOf T) = [] :=
        List.filterMap_eq_nil_iff.2 (h.separators items hload (List.any_eq_true.1 hsep))
      rw [helements items hload, hnil]
    · exact (parseClaimsJson_of_array hload).2.symm

/-- An answer is read element by element, whatever its fences, exactly if it stays within the limits
of the interpreter and holds no number that overflows or is infinite, and no line boundary in a
string of an array with claims. -/
theorem claims_parse_iff (T : ParseEnv) (raw : String) : ParsesRight T raw ↔ Tame T raw :=
  ⟨tame_of_parsesRight, parsesRight_of_tame⟩

/-! ### An answer with NaN for a confidence -/

def sampleParse : ParseEnv where
  limits := ⟨4300, 900⟩
  floatOf _ := none
  intOf _ := none
  str _ := []

/-- An array of one object, given what its members are read as. -/
theorem loads_object {digits depth fuel : Nat} {text : String} {body rest : List Char}
    {m : PyStr × PyJson} (htext : text.toList = '[' :: '{' :: body)
    (hlength : text.toList.length = fuel + 1) (hhead : (Json.skipSpace body).head? ≠ some '}')
    (hmember : readMemberWithin digits fuel depth body = .ok (m, rest))
    (hmembers : readMembersWithin digits fuel depth rest = .ok (ms, [']'])) :
    loadsWithin ⟨digits, depth + 2⟩ text = .ok (.arr [.obj (m :: ms)]) := by
  have hobject : readValueWithin digits (fuel + 1) (depth + 1) ('{' :: body) =
      .ok (.obj (m :: ms), [']']) := by
    rw [readValueWithin_object rfl, readObject_cons hhead, hmember]
    simp only [Except.bind, hmembers]
  have harray : readValueWithin digits (fuel + 1 + 1) (depth + 1 + 1) text.toList =
      .ok (.arr [.obj (m :: ms)], []) := by
    have hskip : Json.skipSpace text.toList = '[' :: '{' :: body := by rw [htext]; rfl
    have hend : readElementsWithin digits (fuel + 1) (depth + 1) [']'] = .ok ([], []) :=
      readElementsWithin_nil rfl
    rw [readValueWithin_array hskip, readArray_cons (by rw [Json.skipSpace_cons rfl]; simp), hobject]
    simp only [Except.bind, hend]
  rw [loadsWithin, hlength, harray]
  rfl

def answerNaN : String := "[\x7b\"confidence\": NaN\x7d]"

theorem loads_answerNaN : loadsWithin sampleParse.limits answerNaN =
    .ok (.arr [.obj [(.ofString "confidence", .float .nan)]]) := by
  have htext : answerNaN.toList = '[' :: '{' :: "\"confidence\": NaN\x7d]".toList := by rfl
  have hlength : answerNaN.toList.length = 20 + 1 := by decide
  have hmember : readMemberWithin 4300 20 898 "\"confidence\": NaN\x7d]".toList =
      .ok ((.ofString "confidence", .float .nan), "\x7d]".toList) := by rfl
  have hmembers : readMembersWithin 4300 20 898 "\x7d]".toList = .ok ([], [']']) := by rfl
  exact loads_object htext hlength (by decide) hmember hmembers

/-- NaN is taken for a confidence that is high enough. -/
theorem claims_parse_wrong : ¬ ParsesRight sampleParse answerNaN := by
  intro h
  refine (tame_of_parsesRight h).bounded _ loads_answerNaN _ List.mem_cons_self ?_
  exact ⟨⟨.nan, by rfl, .inr rfl⟩, 0, by rfl⟩

end ParallaxKernel.Extract
