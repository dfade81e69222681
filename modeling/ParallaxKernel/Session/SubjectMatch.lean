import ParallaxKernel.Session.Ranking

/-!
# Matching subjects

The claims that `by_entity` finds compare a subject under `LOWER` and `LIKE`, which fold the case of
ASCII only, with a pattern under `str.lower`, which folds all of Unicode.
-/

namespace ParallaxKernel.Session

open Lib Store

/-! ## Lower case -/

/-- `str.lower`, as far as the case of ASCII, the length of the result, `NUL` and surrogates go. -/
structure StrLower (lower : PyStr → PyStr) : Prop where
  ofAsciiLower : ∀ s, lower (asciiLower s) = lower s
  lowered : ∀ s, asciiLower (lower s) = lower s
  idempotent : ∀ s, lower (lower s) = lower s
  le_length : ∀ s, s.length ≤ (lower s).length
  nul_mem : ∀ s, .scalar '\x00' ∈ lower s ↔ .scalar '\x00' ∈ s
  lone_mem : ∀ s unit, .lone unit ∈ lower s ↔ .lone unit ∈ s

theorem asciiLower_ofChars (cs : List Char) :
    asciiLower (.ofChars cs) = .ofChars (cs.map Like.fold) := by
  simp [asciiLower, PyStr.ofChars]

@[simp] theorem length_asciiLower (s : PyStr) : (asciiLower s).length = s.length :=
  List.length_map _

@[simp] theorem asciiLower_append (s t : PyStr) :
    asciiLower (s ++ t) = asciiLower s ++ asciiLower t := List.map_append

theorem asciiLower_take (n : Nat) (s : PyStr) :
    asciiLower (s.take n) = (asciiLower s).take n := List.map_take

@[simp] theorem asciiLower_asciiLower (s : PyStr) : asciiLower (asciiLower s) = asciiLower s := by
  unfold asciiLower
  rw [List.map_map]
  refine List.map_congr_left fun c _ => ?_
  cases c <;> simp

theorem ofChars_injective {cs ds : List Char} (h : PyStr.ofChars cs = PyStr.ofChars ds) : cs = ds :=
  List.map_injective_iff.2 (fun _ _ hcd => PyChar.scalar.inj hcd) h

theorem ofChars_prefix {cs ds : List Char} :
    PyStr.ofChars cs <+: PyStr.ofChars ds ↔ cs <+: ds := by
  constructor
  · intro h
    have htake := List.prefix_iff_eq_take.1 h
    rw [PyStr.ofChars, PyStr.ofChars, List.length_map, ← List.map_take] at htake
    exact List.prefix_iff_eq_take.2 (ofChars_injective htake)
  · intro h
    exact h.map _

theorem exists_ofString {s : PyStr} (h : ∀ unit, .lone unit ∉ s) : ∃ text, s = .ofString text := by
  obtain ⟨text, htext⟩ := Option.isSome_iff_exists.1 (PyStr.encode?_isSome.2 h)
  exact ⟨text, PyStr.encode?_eq_some.1 htext⟩

/-! ## The pattern -/

variable {lower : PyStr → PyStr} {subject : PyStr}

/-- The pattern for a lower-cased text. -/
def patternOf (lowered : List Char) : String :=
  String.ofList (lowered.flatMap Like.escapeChar ++ ['%'])

theorem encode?_prefixLike {lowered : List Char} (h : lower subject = .ofChars lowered) :
    (prefixLike lower subject).encode? = some (patternOf lowered) := by
  have hchars : prefixLike lower subject =
      .ofString (patternOf lowered) := by
    rw [prefixLike, h, likeEscape_ofChars, patternOf, PyStr.ofString, String.toList_ofList,
      PyStr.ofChars_append]
    rfl
  rw [hchars, PyStr.encode?_ofString]

theorem subjectMatches_iff {lowered : List Char} (hnul : '\x00' ∉ lowered) {text : String}
    {c : Claim} : subjectMatches text (patternOf lowered) c = true ↔
      c.subject = text ∨ lowered.map Like.fold <+: c.subject.toList.map Like.fold := by
  rw [subjectMatches, Bool.or_eq_true, beq_iff_eq, patternOf, Like.like_startsWith hnul]
  simp [sqlLower, Function.comp_def]

theorem subjectMatches_of_nul {lowered : List Char} (hnul : '\x00' ∈ lowered) {text : String}
    {c : Claim} : subjectMatches text (patternOf lowered) c = true ↔
      c.subject = text ∨ (Fts.cString (sqlLower c.subject).toList).map Like.fold =
        (Fts.cString lowered).map Like.fold := by
  rw [subjectMatches, Bool.or_eq_true, beq_iff_eq, patternOf, Like.like_startsWith_of_nul hnul]

/-! ## What the query finds -/

variable {s : IndexedDb} {userId : String} {limit : Int}

/-- With room for all claims the query finds the ones that match, or raises over a pattern that is
too long for a claim about another subject. -/
theorem entityClaims_cases (userId : String) {text : String} {lowered : List Char}
    (hlower : lower (.ofString text) = .ofChars lowered)
    (hroom : (s.db.claims.length : Int) ≤ limit) (hlimit : limit < 2 ^ 63) :
    ((∃ c ∈ s.db.claims, c.userId = userId ∧ c.subject ≠ text) ∧
      tooComplex (patternOf lowered) = true ∧
      entityClaims s userId lower (.ofString text) limit = .error patternTooComplex) ∨
    ((∀ c ∈ s.db.claims, c.userId = userId → c.subject ≠ text →
        tooComplex (patternOf lowered) = false) ∧
      ∃ rows, entityClaims s userId lower (.ofString text) limit = .ok rows ∧
        ∀ c, c ∈ rows ↔ c ∈ s.db.claims ∧ c.userId = userId ∧
          subjectMatches text (patternOf lowered) c = true) := by
  have hbound : bindLimit limit = .ok limit := if_pos (by omega)
  have hrun : entityClaims s userId lower (.ofString text) limit =
      if limit = 0 then .ok []
      else (matchingClaims s userId text (patternOf lowered)).map
        fun rows => limitRows limit (orderClaims rows) := by
    simp only [entityClaims, bindText, PyStr.encode?_ofString, encode?_prefixLike hlower, hbound]
    rfl
  rw [hrun]
  by_cases hzero : limit = 0
  · have hnone : s.db.claims = [] := List.eq_nil_of_length_eq_zero (by omega)
    rw [if_pos hzero, hnone]
    exact .inr ⟨by simp, [], rfl, by simp⟩
  rw [if_neg hzero]
  unfold matchingClaims
  dsimp only
  by_cases hlong : ((s.db.claims.filter fun c => c.userId == userId).any
      fun c => c.subject != text) && tooComplex (patternOf lowered)
  · rw [if_pos hlong]
    rw [Bool.and_eq_true] at hlong
    exact .inl ⟨by simpa [and_assoc] using hlong.1, hlong.2, rfl⟩
  · rw [if_neg hlong]
    refine .inr ⟨?_, _, rfl, ?_⟩
    · simp only [Bool.and_eq_true, List.any_eq_true, not_and, Bool.not_eq_true] at hlong
      intro c hc huser hne
      exact hlong ⟨c, List.mem_filter.2 ⟨hc, by simpa using huser⟩, by simpa using hne⟩
    · intro c
      have hfits (rows : List Claim) (hrows : rows.length ≤ s.db.claims.length) :
          limitRows limit rows = rows := by
        rw [limitRows, if_neg (by omega), List.take_of_length_le (by omega)]
      dsimp only
      rw [hfits _ ?_, (orderClaims_perm _).mem_iff, List.mem_filter, List.mem_filter, beq_iff_eq,
        and_assoc]
      rw [(orderClaims_perm _).length_eq]
      exact (List.length_filter_le _ _).trans (List.length_filter_le _ _)

/-! ## When the query is a prefix match -/

/-- The text starts with the subject or with a text that equals it in lower case. -/
def StartsLike (lower : PyStr → PyStr) (subject : PyStr) (text : String) : Prop :=
  ∃ t, t <+: PyStr.ofString text ∧ (t = subject ∨ lower t = lower subject)

/-- With room for all claims the query finds the claims of the user that start like the subject. -/
def PrefixExact (lower : PyStr → PyStr) (subject : PyStr) : Prop :=
  ∀ (s : IndexedDb) (userId : String) (limit : Int), (s.db.claims.length : Int) ≤ limit →
    limit < 2 ^ 63 → ∃ rows, entityClaims s userId lower subject limit = .ok rows ∧
      ∀ c, c ∈ rows ↔ c ∈ s.db.claims ∧ c.userId = userId ∧ StartsLike lower subject c.subject

/-- A subject that the engine can take, without `NUL`, whose pattern is short enough, and such that
what equals it in lower case equals it in the lower case of ASCII. -/
structure CasedInAscii (lower : PyStr → PyStr) (subject : PyStr) : Prop where
  encodable : ∀ unit, .lone unit ∉ subject
  noNul : .scalar '\x00' ∉ subject
  fits : ∀ pattern, (prefixLike lower subject).encode? = some pattern → tooComplex pattern = false
  caseless : ∀ t, lower t = lower subject → asciiLower t = asciiLower subject

/-- What equals the subject in lower case has its lower case as that of ASCII. -/
theorem CasedInAscii.asciiLower_eq (h : CasedInAscii lower subject) (hlower : StrLower lower)
    {t : PyStr} (ht : lower t = lower subject) : asciiLower t = lower subject := by
  have hself := h.caseless (lower subject) (hlower.idempotent subject)
  rw [hlower.lowered] at hself
  rw [h.caseless t ht, hself]

theorem startsLike_iff (h : CasedInAscii lower subject) (hlower : StrLower lower) (text : String) :
    StartsLike lower subject text ↔
      .ofString text = subject ∨ lower subject <+: asciiLower (.ofString text) := by
  constructor
  · rintro ⟨t, ⟨rest, hrest⟩, ht⟩
    have hsame : lower t = lower subject := by
      obtain rfl | ht := ht
      · rfl
      · exact ht
    refine .inr ⟨asciiLower rest, ?_⟩
    rw [← h.asciiLower_eq hlower hsame, ← asciiLower_append, hrest]
  · rintro (heq | hbegins)
    · exact ⟨subject, heq ▸ List.prefix_refl _, .inl rfl⟩
    · refine ⟨(PyStr.ofString text).take (lower subject).length, List.take_prefix _ _, .inr ?_⟩
      rw [← hlower.ofAsciiLower, asciiLower_take, ← List.prefix_iff_eq_take.1 hbegins,
        hlower.idempotent]

/-- The engine finds what has the lower case of the subject at its start. -/
theorem subjectMatches_iff_begins (hlower : StrLower lower) {text : String} {lowered : List Char}
    (hchars : lower (.ofString text) = .ofChars lowered) (hnul : '\x00' ∉ lowered) {c : Claim} :
    subjectMatches text (patternOf lowered) c = true ↔ PyStr.ofString c.subject = .ofString text ∨
      lower (.ofString text) <+: asciiLower (.ofString c.subject) := by
  have hself : lowered.map Like.fold = lowered := by
    have h := hlower.lowered (.ofString text)
    rw [hchars, asciiLower_ofChars] at h
    exact ofChars_injective h
  have hsubject : PyStr.ofString c.subject = .ofString text ↔ c.subject = text := by
    constructor
    · intro h
      exact String.toList_inj.1 (ofChars_injective h)
    · rintro rfl
      rfl
  rw [subjectMatches_iff hnul, hself, hsubject, hchars, PyStr.ofString, asciiLower_ofChars,
    ofChars_prefix]

theorem exists_lowered (hlower : StrLower lower) (text : String) :
    ∃ lowered, lower (.ofString text) = .ofChars lowered := by
  have hlone : ∀ unit, .lone unit ∉ lower (.ofString text) := by
    intro unit
    rw [hlower.lone_mem]
    exact PyStr.encode?_isSome.1 (by simp) unit
  obtain ⟨lowered, hlowered⟩ := exists_ofString hlone
  exact ⟨lowered.toList, hlowered⟩

theorem prefixExact_of_cased (hlower : StrLower lower) (h : CasedInAscii lower subject) :
    PrefixExact lower subject := by
  obtain ⟨text, rfl⟩ := exists_ofString h.encodable
  obtain ⟨lowered, hchars⟩ := exists_lowered hlower text
  have hnul : '\x00' ∉ lowered := by
    have hmem := (hlower.nul_mem (.ofString text)).not.2 h.noNul
    rw [hchars] at hmem
    simpa using hmem
  have hfits := h.fits _ (encode?_prefixLike hchars)
  intro s userId limit hroom hlimit
  obtain ⟨-, hlong, -⟩ | ⟨-, rows, hrows, hmem⟩ :=
    entityClaims_cases userId hchars hroom hlimit
  · rw [hfits] at hlong
    cases hlong
  · refine ⟨rows, hrows, fun c => ?_⟩
    rw [hmem, startsLike_iff h hlower, subjectMatches_iff_begins hlower hchars hnul]

/-! ## Subjects that the query does not match by prefix -/

def claimAbout (subject : String) : Claim := { vagueClaim with subject := subject }

@[simp] theorem claimAbout_subject (subject : String) : (claimAbout subject).subject = subject := rfl

/-- A store with one claim about the subject. -/
def storeAbout (subject : String) : IndexedDb where
  db := { Db.empty with claims := [claimAbout subject] }
  index := none
  trigger := false

/-- On a store with one claim the engine finds it exactly if it starts like the subject. -/
theorem PrefixExact.about {text : String} {lowered : List Char}
    (h : PrefixExact lower (.ofString text))
    (hchars : lower (.ofString text) = .ofChars lowered) (about : String) :
    (about ≠ text → tooComplex (patternOf lowered) = false) ∧
      (subjectMatches text (patternOf lowered) (claimAbout about) = true ↔
        StartsLike lower (.ofString text) about) := by
  have hroom : ((storeAbout about).db.claims.length : Int) ≤ 1 := le_rfl
  have hmine : claimAbout about ∈ (storeAbout about).db.claims :=
    List.mem_singleton.2 rfl
  obtain ⟨rows, hrows, hmem⟩ := h (storeAbout about) "ann" 1 hroom (by decide)
  obtain ⟨-, -, herror⟩ | ⟨hfits, rows', hrows', hmem'⟩ :=
    entityClaims_cases "ann" hchars hroom (by decide)
  · rw [herror] at hrows
    cases hrows
  · rw [hrows'] at hrows
    cases hrows
    refine ⟨fun hne => hfits _ hmine rfl hne, ?_⟩
    have hiff := (hmem' (claimAbout about)).symm.trans (hmem _)
    constructor
    · intro hmatch
      exact (hiff.1 ⟨hmine, rfl, hmatch⟩).2.2
    · intro hstarts
      exact (hiff.2 ⟨hmine, rfl, hstarts⟩).2.2

/-- The subject itself, longer by a character, starts like it. -/
theorem startsLike_append {text : String} (t : List Char) (c : Char)
    (ht : lower (.ofChars t) = lower (.ofString text)) :
    StartsLike lower (.ofString text) (String.ofList (t ++ [c])) := by
  refine ⟨PyStr.ofChars t, ?_, .inr ht⟩
  rw [PyStr.ofString, String.toList_ofList, ofChars_prefix]
  exact List.prefix_append t [c]

theorem noNul_of_exact (hlower : StrLower lower) {text : String}
    (h : PrefixExact lower (.ofString text)) : .scalar '\x00' ∉ PyStr.ofString text := by
  intro hnul
  obtain ⟨lowered, hchars⟩ := exists_lowered hlower text
  have hlowered : '\x00' ∈ lowered := by
    have hmem := (hlower.nul_mem (.ofString text)).2 hnul
    rw [hchars] at hmem
    simpa using hmem
  have hcut := Fts.nul_not_mem_cString text.toList
  have hself : '\x00' ∈ text.toList := by simpa [PyStr.ofString] using hnul
  -- the text up to its `NUL` does not start like the whole of it
  have hshort := (h.about hchars (String.ofList (Fts.cString text.toList))).2
  have hdiffers : ¬ StartsLike lower (.ofString text) (String.ofList (Fts.cString text.toList)) := by
    rintro ⟨t, hbegins, ht⟩
    have hmem : .scalar '\x00' ∈ t := by
      obtain rfl | ht := ht
      · exact hnul
      · rwa [← hlower.nul_mem, ht, hlower.nul_mem]
    have hshorter := hbegins.subset hmem
    rw [PyStr.ofString, String.toList_ofList, PyStr.scalar_mem_ofChars] at hshorter
    exact hcut hshorter
  -- the text with a character more does
  have hlong := (h.about hchars (String.ofList (text.toList ++ ['x']))).2
  have hne : String.ofList (text.toList ++ ['x']) ≠ text := by
    intro heq
    have hlength := congrArg (fun s => s.toList.length) heq
    simp at hlength
  rw [subjectMatches_of_nul hlowered] at hshort hlong
  simp only [claimAbout_subject, sqlLower, String.toList_ofList, Like.cString_fold, Fts.cString_eq_self hcut,
    Fts.cString_append_of_nul hself] at hshort hlong
  obtain heq | heq := hlong.2 (startsLike_append text.toList 'x' rfl)
  · exact hne heq
  · exact hdiffers (hshort.1 (.inr heq))

/-- Of three characters two make a different text. -/
theorem exists_two_ne (t : List Char) (text : List Char) :
    ∃ c d, Like.fold c ≠ Like.fold d ∧ t ++ [c] ≠ text ∧ t ++ [d] ≠ text := by
  by_cases hx : t ++ ['x'] = text
  · refine ⟨'y', 'z', by decide, ?_, ?_⟩ <;> simp [← hx]
  · by_cases hy : t ++ ['y'] = text
    · exact ⟨'x', 'z', by decide, hx, by simp [← hy]⟩
    · exact ⟨'x', 'y', by decide, hx, hy⟩

theorem caseless_of_exact (hlower : StrLower lower) {text : String}
    (h : PrefixExact lower (.ofString text)) {t : PyStr} (ht : lower t = lower (.ofString text)) :
    asciiLower t = lower (.ofString text) := by
  obtain ⟨lowered, hchars⟩ := exists_lowered hlower text
  have hnul : '\x00' ∉ lowered := by
    have hmem := (hlower.nul_mem (.ofString text)).not.2 (noNul_of_exact hlower h)
    rw [hchars] at hmem
    simpa using hmem
  have hlone : ∀ unit, .lone unit ∉ t := by
    intro unit
    rw [← hlower.lone_mem, ht, hlower.lone_mem]
    exact PyStr.encode?_isSome.1 (by simp) unit
  obtain ⟨word, rfl⟩ := exists_ofString hlone
  -- one character behind the word does not take it from the matching ones
  have hmatch (c : Char) (hne : word.toList ++ [c] ≠ text.toList) :
      lower (.ofString text) <+: asciiLower (.ofString word) ++ [.scalar (Like.fold c)] := by
    have hstarts : StartsLike lower (.ofString text) (String.ofList (word.toList ++ [c])) :=
      startsLike_append word.toList c ht
    have hfound := (h.about hchars _).2.2 hstarts
    have hlonger : PyStr.ofString (String.ofList (word.toList ++ [c])) =
        PyStr.ofString word ++ [.scalar c] := by
      rw [PyStr.ofString, String.toList_ofList, PyStr.ofChars_append]
      rfl
    rw [subjectMatches_iff_begins hlower hchars hnul, claimAbout_subject, hlonger,
      asciiLower_append] at hfound
    obtain heq | hbegins := hfound
    · have hchars' : PyStr.ofChars (word.toList ++ [c]) = .ofChars text.toList := by
        rw [PyStr.ofChars_append]
        exact heq
      exact absurd (ofChars_injective hchars') hne
    · exact hbegins
  obtain ⟨c, d, hfold, hc, hd⟩ := exists_two_ne word.toList text.toList
  have hle : (asciiLower (.ofString word)).length ≤ (lower (.ofString text)).length := by
    rw [length_asciiLower, ← ht]
    exact hlower.le_length _
  obtain hlt | heq := hle.lt_or_eq
  · have hfull (e : Char) (he : word.toList ++ [e] ≠ text.toList) :
        lower (.ofString text) = asciiLower (.ofString word) ++ [.scalar (Like.fold e)] := by
      refine (hmatch e he).eq_of_length_le ?_
      rw [List.length_append, List.length_singleton]
      omega
    have hboth := (hfull c hc).symm.trans (hfull d hd)
    exact absurd (by simpa using hboth) hfold
  · have hbegins := List.prefix_of_prefix_length_le (hmatch c hc)
      (List.prefix_append (asciiLower (.ofString word)) _) heq.ge
    exact (hbegins.eq_of_length heq.symm).symm

theorem cased_of_exact (hlower : StrLower lower) (h : PrefixExact lower subject) :
    CasedInAscii lower subject := by
  have hencodable : ∀ unit, .lone unit ∉ subject := by
    obtain ⟨rows, hrows, -⟩ := h ⟨Db.empty, none, false⟩ "ann" 1 (by decide) (by decide)
    simp only [entityClaims, except_bind_eq_ok, bindText_ok_iff] at hrows
    obtain ⟨text, htext, -⟩ := hrows
    exact PyStr.encode?_isSome.1 (Option.isSome_of_eq_some htext)
  obtain ⟨text, rfl⟩ := exists_ofString hencodable
  refine ⟨hencodable, noNul_of_exact hlower h, ?_, ?_⟩
  · intro pattern hpattern
    obtain ⟨lowered, hchars⟩ := exists_lowered hlower text
    rw [encode?_prefixLike hchars] at hpattern
    cases hpattern
    refine (h.about hchars (String.ofList (text.toList ++ ['x']))).1 ?_
    intro heq
    have hlength := congrArg (fun s => s.toList.length) heq
    simp at hlength
  · intro t ht
    rw [caseless_of_exact hlower h ht, caseless_of_exact hlower h rfl]

/-- For a given subject the query finds the claims that start like it, whatever the store and the
user, if and only if the subject is cased in ASCII. -/
theorem prefixExact_iff (hlower : StrLower lower) (subject : PyStr) :
    PrefixExact lower subject ↔ CasedInAscii lower subject :=
  ⟨cased_of_exact hlower, prefixExact_of_cased hlower⟩

theorem strLower_asciiLower : StrLower asciiLower where
  ofAsciiLower := asciiLower_asciiLower
  lowered := asciiLower_asciiLower
  idempotent := asciiLower_asciiLower
  le_length s := (length_asciiLower s).ge
  nul_mem s := by
    simp only [asciiLower, List.mem_map]
    constructor
    · rintro ⟨c | unit, hc, heq⟩
      · rw [PyChar.scalar.injEq, Like.fold_eq_nul] at heq
        exact heq ▸ hc
      · cases heq
    · intro h
      exact ⟨_, h, rfl⟩
  lone_mem s unit := by
    simp only [asciiLower, List.mem_map]
    constructor
    · rintro ⟨c | unit', hc, heq⟩
      · cases heq
      · exact heq ▸ hc
    · intro h
      exact ⟨_, h, rfl⟩

theorem prefixExact_sample : PrefixExact asciiLower (.ofString "foo_") := by
  refine (prefixExact_iff strLower_asciiLower _).2 ⟨by simp [PyStr.ofString, PyStr.ofChars],
    by decide, ?_, fun t ht => ht⟩
  intro pattern hpattern
  have hvalue : (prefixLike asciiLower (.ofString "foo_")).encode? = some "foo\\_%" := by decide
  rw [hvalue] at hpattern
  cases hpattern
  decide

/-! ### A letter beyond ASCII -/

/-- `str.lower` on ASCII and on one letter more. -/
def accentLower (s : PyStr) : PyStr :=
  s.map fun
    | .scalar c => .scalar (if c = 'É' then 'é' else Like.fold c)
    | .lone unit => .lone unit

theorem fold_eq_accent {c : Char} : Like.fold c = 'É' ↔ c = 'É' :=
  Like.fold_eq_iff (.inr (by decide)) (by decide)

theorem strLower_accentLower : StrLower accentLower where
  ofAsciiLower s := by
    simp only [accentLower, asciiLower, List.map_map]
    refine List.map_congr_left fun c _ => ?_
    cases c <;> simp [fold_eq_accent]
  lowered s := by
    simp only [accentLower, asciiLower, List.map_map]
    refine List.map_congr_left fun c _ => ?_
    cases c with
    | lone unit => rfl
    | scalar c =>
      by_cases hc : c = 'É'
      · subst hc
        decide
      · simp [hc]
  idempotent s := by
    simp only [accentLower, List.map_map]
    refine List.map_congr_left fun c _ => ?_
    cases c with
    | lone unit => rfl
    | scalar c =>
      by_cases hc : c = 'É'
      · subst hc
        decide
      · simp [hc, fold_eq_accent]
  le_length s := (List.length_map _).ge
  nul_mem s := by
    simp only [accentLower, List.mem_map]
    constructor
    · rintro ⟨c | unit, hc, heq⟩
      · by_cases haccent : c = 'É'
        · subst haccent
          exact absurd heq (by decide)
        · dsimp only at heq
          rw [if_neg haccent, PyChar.scalar.injEq, Like.fold_eq_nul] at heq
          exact heq ▸ hc
      · cases heq
    · intro h
      exact ⟨_, h, by decide⟩
  lone_mem s unit := by
    simp only [accentLower, List.mem_map]
    constructor
    · rintro ⟨c | unit', hc, heq⟩
      · cases heq
      · exact heq ▸ hc
    · intro h
      exact ⟨_, h, rfl⟩

/-- A claim about `Éa` is not found for `É`. -/
theorem prefix_misses_accent : StrLower accentLower ∧
    StartsLike accentLower (.ofString "É") "Éa" ∧
    entityClaims (storeAbout "Éa") "ann" accentLower (.ofString "É") 20 = .ok [] ∧
    ¬ PrefixExact accentLower (.ofString "É") := by
  have hstarts : StartsLike accentLower (.ofString "É") "Éa" :=
    ⟨PyStr.ofString "É", ⟨PyStr.ofString "a", rfl⟩, .inl rfl⟩
  have hrows : entityClaims (storeAbout "Éa") "ann" accentLower (.ofString "É") 20 = .ok [] := by
    rfl
  refine ⟨strLower_accentLower, hstarts, hrows, fun h => ?_⟩
  obtain ⟨rows, hok, hmem⟩ := h (storeAbout "Éa") "ann" 20 (by decide) (by decide)
  rw [hrows] at hok
  cases hok
  have hfound := (hmem (claimAbout "Éa")).2 ⟨List.mem_singleton.2 rfl, rfl, hstarts⟩
  cases hfound

end ParallaxKernel.Session
