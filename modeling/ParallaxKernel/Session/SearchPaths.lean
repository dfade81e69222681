import Mathlib.Data.Bool.AllAny
import ParallaxKernel.Session.SubjectMatch

/-!
# The index and `LIKE`

A search over the full-text index against the same search with `LIKE`: what each of them finds, and
when they return the same hits.
-/

namespace ParallaxKernel.Session

open Lib Store

/-! ## What a search finds -/

/-- A trigram index looks for a string of three characters or more up to a folding of case that is
that of ASCII on ASCII; for a shorter one it finds nothing. -/
structure Trigram (E : Engine) (fold : Char → Char) : Prop where
  ascii : ∀ c, c.toNat < 128 → fold c = Like.fold c
  short : ∀ p t, p.toList.length < 3 → E.phrase p t = false
  phrase : ∀ p t, 3 ≤ p.toList.length →
    E.phrase p t = decide (p.toList.map fold <:+: t.toList.map fold)

/-- One of the texts stands in the payload, up to a folding of case. -/
def Holds (fold : Char → Char) (texts : List (List Char)) (payload : List Char) : Prop :=
  ∃ t ∈ texts, t.map fold <:+: payload.map fold

instance (fold : Char → Char) (texts : List (List Char)) (payload : List Char) :
    Decidable (Holds fold texts payload) :=
  inferInstanceAs (Decidable (∃ t ∈ texts, t.map fold <:+: payload.map fold))

/-- What the index finds: the tag of an empty user id is too short for it. -/
def IndexHolds (fold : Char → Char) (userId : String) (texts : List (List Char)) (e : Event) :
    Prop :=
  userId ≠ "" ∧ Holds fold texts e.payloadJson.toList

/-- What `LIKE` finds: a payload ends at its first `NUL`. -/
def LikeHolds (texts : List (List Char)) (e : Event) : Prop :=
  Holds Like.fold texts (Fts.cString e.payloadJson.toList)

instance (fold : Char → Char) (userId : String) (texts : List (List Char)) (e : Event) :
    Decidable (IndexHolds fold userId texts e) :=
  inferInstanceAs (Decidable (userId ≠ "" ∧ Holds fold texts e.payloadJson.toList))

instance (texts : List (List Char)) (e : Event) : Decidable (LikeHolds texts e) :=
  inferInstanceAs (Decidable (Holds Like.fold texts (Fts.cString e.payloadJson.toList)))

/-- Texts of ASCII without `NUL`, each with a trigram. -/
structure Needles (texts : List (List Char)) : Prop where
  nonempty : texts ≠ []
  trigram : ∀ t ∈ texts, 3 ≤ t.length
  ascii : ∀ t ∈ texts, ∀ c ∈ t, c.toNat < 128
  noNul : ∀ t ∈ texts, '\x00' ∉ t

variable {E E' : Engine} {fold : Char → Char} {s : IndexedDb} {userId : String}
  {texts : List (List Char)}

theorem phrase_tag (h : Trigram E fold) :
    E.phrase (ftsUserTag userId) (ftsUserTag userId) = decide (userId ≠ "") := by
  by_cases huser : userId = ""
  · subst huser
    rw [h.short _ _ (by decide)]
    rfl
  · have hpos : 0 < userId.toList.length := by
      rw [List.length_pos_iff]
      intro hnil
      exact huser (String.toList_inj.1 (hnil.trans rfl))
    have hlong : 3 ≤ (ftsUserTag userId).toList.length := by
      simp only [ftsUserTag, String.toList_append, List.length_append]
      have hone : "\x02".toList.length = 1 := by decide
      omega
    rw [h.phrase _ _ hlong]
    simp [huser]

/-- A search over an index in step. -/
theorem searchIndex_eq (h : Trigram E fold) (hs : Reached s) {index : List FtsRow}
    (hindex : s.index = some index) (htexts : Needles texts) {rows : List Event}
    (hrows : ∀ e ∈ rows, e ∈ s.db.events ∧ e.userId = userId) :
    (searchIndex E (String.ofList (Fts.renderQuery (scopedClauses userId texts))) index).map
        (joinIndex rows) =
      if '\x00' ∈ userId.toList then .error (syntaxError .unterminated)
      else .ok (rows.filter fun e => IndexHolds fold userId texts e) := by
  obtain ⟨hnone, -⟩ | ⟨hsome, -⟩ := hs.inStep
  · rw [hindex] at hnone
    cases hnone
  rw [hindex] at hsome
  cases hsome
  split_ifs with huser
  · rw [searchIndex_of_nul huser]
    rfl
  · rw [searchIndex_scoped htexts.nonempty huser htexts.noNul]
    refine congrArg Except.ok ?_
    rw [joinIndex_eq hs.keyed.events fun e he => (hrows e he).1]
    refine List.filter_congr fun e he => ?_
    have hphrase : (texts.any fun t => E.phrase (String.ofList t) e.payloadJson) =
        decide (Holds fold texts e.payloadJson.toList) := by
      rw [Bool.eq_iff_iff, List.any_eq_true, decide_eq_true_iff]
      refine exists_congr fun t => and_congr_right fun ht => ?_
      rw [h.phrase _ _ (by rw [String.toList_ofList]; exact htexts.trigram t ht),
        String.toList_ofList, decide_eq_true_iff]
    simp only [indexRow, (hrows e he).2, phrase_tag h, hphrase, ← Bool.decide_and]
    rfl

/-- The pattern for a text that stands anywhere. -/
def containsText (needle : List Char) : String :=
  String.ofList ('%' :: (needle.flatMap Like.escapeChar ++ ['%']))

theorem bindText_containsPattern (needle : List Char) :
    bindText (containsPattern (.ofChars needle)) = .ok (containsText needle) := by
  have hchars : containsPattern (.ofChars needle) = .ofString (containsText needle) := by
    rw [containsPattern, likeEscape_ofChars, containsText, PyStr.ofString, String.toList_ofList]
    simp [PyStr.ofChars]
  rw [hchars, bindText, PyStr.encode?_ofString]

theorem likeRows_eq {needle : List Char} (hnul : '\x00' ∉ needle) (rows : List Event) :
    likeRows (containsText needle) rows =
      if rows ≠ [] ∧ tooComplex (containsText needle) = true then .error patternTooComplex
      else .ok (rows.filter fun e => LikeHolds [needle] e) := by
  unfold likeRows
  split_ifs
  · rfl
  · refine congrArg Except.ok (List.filter_congr fun e _ => ?_)
    rw [Bool.eq_iff_iff, containsText, Like.like_contains hnul, decide_eq_true_iff]
    simp [LikeHolds, Holds]

theorem likeFix_eq (text : String) : likeFix text =
    decide (Holds Like.fold (fixTokens.map String.toList) (Fts.cString text.toList)) := by
  rw [Bool.eq_iff_iff, likeFix, List.any_eq_true, decide_eq_true_iff]
  simp only [Holds, List.mem_map, exists_exists_and_eq_and]
  refine exists_congr fun tok => and_congr_right fun htok => ?_
  have hall : ∀ tok ∈ fixTokens, (tok.toList.all fun c => c ≠ '%' ∧ c ≠ '_') = true := by decide
  have hplain : ∀ c ∈ tok.toList, c ≠ '%' ∧ c ≠ '_' := List.all_iff_forall_prop.1 (hall tok htok)
  have hfree : ∀ tok ∈ fixTokens, '\x00' ∉ tok.toList := by decide
  have hnul : '\x00' ∉ tok.toList := hfree tok htok
  have hpattern : "%" ++ tok ++ "%" = String.ofList ('%' :: (tok.toList ++ ['%'])) := by
    rw [← String.toList_inj, String.toList_ofList]
    simp
  rw [hpattern, Like.like_contains_plain hplain hnul]

/-! ## Agreement on the rows -/

/-- The two searches find the same rows: the expression and the pattern can be read, and what one
finds the other does. -/
structure SameFound (fold : Char → Char) (userId : String) (texts : List (List Char))
    (pattern : String) (rows : List Event) : Prop where
  noNul : '\x00' ∉ userId.toList
  fits : rows = [] ∨ tooComplex pattern = false
  same : ∀ e ∈ rows, IndexHolds fold userId texts e ↔ LikeHolds texts e

/-- The rows of the two searches, or their errors. -/
def indexFound (fold : Char → Char) (userId : String) (texts : List (List Char))
    (rows : List Event) : Except Exc (List Event) :=
  if '\x00' ∈ userId.toList then .error (syntaxError .unterminated)
  else .ok (rows.filter fun e => IndexHolds fold userId texts e)

def likeFound (texts : List (List Char)) (pattern : String) (rows : List Event) :
    Except Exc (List Event) :=
  if rows ≠ [] ∧ tooComplex pattern = true then .error patternTooComplex
  else .ok (rows.filter fun e => LikeHolds texts e)

/-- The rows of a search, newest first, up to a limit. -/
def limited (E : Engine) (limit : Int) (found : Except Exc (List Event)) :
    Except Exc (List Event) :=
  bindLimit limit >>= fun limit => newestRows E limit found

variable {pattern : String} {rows : List Event}

theorem SameFound.found_eq (h : SameFound fold userId texts pattern rows) :
    indexFound fold userId texts rows = .ok (rows.filter fun e => LikeHolds texts e) ∧
      likeFound texts pattern rows = .ok (rows.filter fun e => LikeHolds texts e) := by
  constructor
  · rw [indexFound, if_neg h.noNul]
    refine congrArg Except.ok (List.filter_congr fun e he => ?_)
    rw [decide_eq_decide]
    exact h.same e he
  · rw [likeFound, if_neg]
    rintro ⟨hne, hlong⟩
    obtain hnil | hfits := h.fits
    · exact hne hnil
    · rw [hfits] at hlong
      cases hlong

/-- Rows with distinct times have one order. -/
theorem newest_eq (h : (rows.map (·.createdAt)).Nodup) : E.newest rows = E'.newest rows := by
  refine List.Perm.eq_of_pairwise ?_ (E.newest_sorted rows) (E'.newest_sorted rows)
    ((E.newest_perm rows).trans (E'.newest_perm rows).symm)
  intro e f he hf hle hge
  exact List.inj_on_of_nodup_map h ((E.newest_perm rows).mem_iff.1 he)
    ((E'.newest_perm rows).mem_iff.1 hf) (le_antisymm hge hle)

theorem limited_eq (h : SameFound fold userId texts pattern rows)
    (hdistinct : (rows.map (·.createdAt)).Nodup) (limit : Int) :
    limited E limit (indexFound fold userId texts rows) =
      limited E' limit (likeFound texts pattern rows) := by
  have hfiltered : ((rows.filter fun e => LikeHolds texts e).map (·.createdAt)).Nodup :=
    hdistinct.sublist (List.filter_sublist.map _)
  rw [h.found_eq.1, h.found_eq.2]
  have hnewest : E.newest (rows.filter fun e => LikeHolds texts e) =
      E'.newest (rows.filter fun e => LikeHolds texts e) := newest_eq hfiltered
  simp only [limited, newestRows, Except.map, hnewest]

/-- Two searches that both raise or both succeed with hits of the same events find the same rows. -/
theorem sameFound_of_hits {events : List Event} (hkeyed : (events.map (·.eventId)).Nodup)
    (hrows : ∀ e ∈ rows, e ∈ events) {hit : Event → Hit}
    (hhit : ∀ e, (hit e).entityId = e.eventId)
    (h : ∃ A B, indexFound fold userId texts rows = .ok A ∧ likeFound texts pattern rows = .ok B ∧
      (A.map hit).Perm (B.map hit)) : SameFound fold userId texts pattern rows := by
  obtain ⟨A, B, hA, hB, hperm⟩ := h
  unfold indexFound at hA
  unfold likeFound at hB
  split_ifs at hA with hnul
  split_ifs at hB with hlong
  cases hA
  cases hB
  have hmem {e f : Event} (he : e ∈ rows) (hf : f ∈ rows) (heq : hit e = hit f) : e = f := by
    have hid := congrArg Hit.entityId heq
    rw [hhit, hhit] at hid
    exact List.inj_on_of_nodup_map hkeyed (hrows e he) (hrows f hf) hid
  refine ⟨hnul, ?_, fun e he => ⟨fun hindex => ?_, fun hlike => ?_⟩⟩
  · by_cases hnil : rows = []
    · exact .inl hnil
    · exact .inr (by simpa [hnil] using hlong)
  · have hfound : hit e ∈ (rows.filter fun e => IndexHolds fold userId texts e).map hit :=
      List.mem_map_of_mem (List.mem_filter.2 ⟨he, decide_eq_true hindex⟩)
    obtain ⟨f, hf, heq⟩ := List.mem_map.1 (hperm.mem_iff.1 hfound)
    obtain ⟨hfrows, hflike⟩ := List.mem_filter.1 hf
    exact hmem hfrows he heq ▸ of_decide_eq_true hflike
  · have hfound : hit e ∈ (rows.filter fun e => LikeHolds texts e).map hit :=
      List.mem_map_of_mem (List.mem_filter.2 ⟨he, decide_eq_true hlike⟩)
    obtain ⟨f, hf, heq⟩ := List.mem_map.1 (hperm.mem_iff.2 hfound)
    obtain ⟨hfrows, hfindex⟩ := List.mem_filter.1 hf
    exact hmem hfrows he heq ▸ of_decide_eq_true hfindex

/-! ## The two paths of a search -/

section Paths

variable {now : Int} {cs : List Char} {index : List FtsRow}

theorem newestRows_at (limit : Int) (found : Except Exc (List Event)) :
    newestRows (E.at now) limit found = newestRows E limit found := rfl

theorem ftsPhrase_ofChars (cs : List Char) :
    ftsPhrase (.ofChars cs) = .ofChars (Fts.group [cs]) := by
  have hquotes : (PyStr.ofChars cs).flatMap (fun c => if c = .scalar '"' then [c, c] else [c]) =
      PyStr.ofChars (cs.flatMap Fts.double) := by
    induction cs with
    | nil => rfl
    | cons c cs ih =>
      rw [List.flatMap_cons, PyStr.ofChars_append, ← ih]
      simp only [PyStr.ofChars, List.map_cons, List.flatMap_cons, Fts.double, PyChar.scalar.injEq]
      split_ifs with hc
      · rw [hc]
        rfl
      · rfl
  rw [ftsPhrase, hquotes, Fts.group, Fts.quote]
  simp [PyStr.ofChars]

theorem needleRows_index (h : Trigram E fold) (hs : Reached s) (hindex : s.index = some index)
    (hcs : Needles [cs]) (hrows : ∀ e ∈ rows, e ∈ s.db.events ∧ e.userId = userId) (limit : Int) :
    needleRows (E.at now) s.index userId (.ofChars cs) limit rows =
      limited E limit (indexFound fold userId [cs] rows) := by
  have hlong : 3 ≤ (PyStr.ofChars cs).length := by
    rw [PyStr.length_ofChars]
    exact hcs.trigram cs (List.mem_singleton.2 rfl)
  have hsearch := searchIndex_eq (E := E.at now) ⟨h.ascii, h.short, h.phrase⟩ hs hindex hcs hrows
  unfold needleRows
  rw [if_pos hlong, hindex]
  simp only [bindText_scopedMatch (ftsPhrase_ofChars cs), except_ok_bind, hsearch, newestRows_at]
  rfl

theorem needleRows_like {index : Option (List FtsRow)}
    (hplain : (if 3 ≤ cs.length then index else none) = none) (hnul : '\x00' ∉ cs) (limit : Int) :
    needleRows (E'.at now) index userId (.ofChars cs) limit rows =
      limited E' limit (likeFound [cs] (containsText cs) rows) := by
  unfold needleRows
  rw [PyStr.length_ofChars, hplain]
  simp only [bindText_containsPattern, except_ok_bind, likeRows_eq hnul, newestRows_at]
  rfl

theorem ascii_of_all {texts : List (List Char)}
    (h : ∀ t ∈ texts, (t.all fun c => c.toNat < 128) = true) :
    ∀ t ∈ texts, ∀ c ∈ t, c.toNat < 128 :=
  fun t ht => List.all_iff_forall_prop.1 (h t ht)

theorem fixNeedles : Needles (fixTokens.map String.toList) where
  nonempty := by decide
  trigram := by decide
  ascii := ascii_of_all (by decide)
  noNul := by decide

theorem mem_userEvents {e : Event} : e ∈ userEvents s userId →
    e ∈ s.db.events ∧ e.userId = userId := by
  intro he
  obtain ⟨he, huser⟩ := List.mem_filter.1 he
  exact ⟨he, by simpa using huser⟩

theorem fixEvents_index (h : Trigram E fold) (hs : Reached s) (hindex : s.index = some index)
    (limit : Int) : fixEvents (E.at now) s userId limit = limited E limit
      (indexFound fold userId (fixTokens.map String.toList) (userEvents s userId)) := by
  have htrigram : (fixTokens.all fun tok => 3 ≤ tok.length) = true := by decide
  have hsearch := searchIndex_eq (E := E.at now) ⟨h.ascii, h.short, h.phrase⟩ hs hindex fixNeedles
    fun e (he : e ∈ userEvents s userId) => mem_userEvents he
  unfold fixEvents
  rw [if_pos htrigram, hindex]
  simp only [bindText_scopedMatch fixExpr_eq, except_ok_bind, hsearch, newestRows_at]
  rfl

theorem fixEvents_like (limit : Int) : fixEvents (E'.at now) s.down userId limit = limited E' limit
    (likeFound (fixTokens.map String.toList) "" (userEvents s userId)) := by
  have htrigram : (fixTokens.all fun tok => 3 ≤ tok.length) = true := by decide
  have hshort : tooComplex "" = false := by decide
  unfold fixEvents likeFound
  rw [if_pos htrigram, if_neg (by simp [hshort])]
  simp only [likeFix_eq]
  rfl

/-! ## Agreement on the hits -/

theorem limited_map {limit : Int} (hne : limit ≠ 0) (hbound : -2 ^ 63 ≤ limit ∧ limit < 2 ^ 63)
    (found : Except Exc (List Event)) :
    limited E limit found = found.map fun rows => limitRows limit (E.newest rows) := by
  have hbind : bindLimit limit = .ok limit := if_pos hbound
  rw [limited, hbind, except_ok_bind, newestRows, if_neg hne]

/-- Searches with the same outcome do not raise, since they raise different errors. -/
theorem found_of_map_eq {α : Type} {f g : List Event → α}
    (h : (indexFound fold userId texts rows).map f = (likeFound texts pattern rows).map g) :
    ∃ A B, indexFound fold userId texts rows = .ok A ∧ likeFound texts pattern rows = .ok B ∧
      f A = g B := by
  unfold indexFound likeFound at h ⊢
  split_ifs at h ⊢ with hnul hlong hlong
  · have herror : syntaxError .unterminated = patternTooComplex := by
      simpa [Except.map] using h
    exact absurd herror (by decide)
  · simp [Except.map] at h
  · simp [Except.map] at h
  · exact ⟨_, _, rfl, rfl, by simpa [Except.map] using h⟩

theorem indexFound_length_le {A : List Event} (h : indexFound fold userId texts rows = .ok A) :
    A.length ≤ rows.length := by
  unfold indexFound at h
  split_ifs at h
  cases h
  exact List.length_filter_le _ _

theorem likeFound_length_le {A : List Event} (h : likeFound texts pattern rows = .ok A) :
    A.length ≤ rows.length := by
  unfold likeFound at h
  split_ifs at h
  cases h
  exact List.length_filter_le _ _

/-- The file search agrees on both paths if and only if both find the same file events. -/
theorem byFile_agree_iff (h : Trigram E fold) (hs : Reached s) (hindex : s.index = some index)
    (hdistinct : (s.db.events.map (·.createdAt)).Nodup) (hcs : Needles [cs]) :
    (∀ limit, byFileIn (E.at now) s userId (.ofChars cs) limit =
      byFileIn (E'.at now) s.down userId (.ofChars cs) limit) ↔
    SameFound fold userId [cs] (containsText cs) (fileEvents s userId) := by
  have hrows : ∀ e ∈ fileEvents s userId, e ∈ s.db.events ∧ e.userId = userId := by
    intro e he
    obtain ⟨he, huser⟩ := List.mem_filter.1 he
    rw [Bool.and_eq_true, beq_iff_eq] at huser
    exact ⟨he, huser.1⟩
  have hne : PyStr.ofChars cs ≠ [] := by
    intro hnil
    have hlong := hcs.trigram cs (List.mem_singleton.2 rfl)
    rw [← PyStr.length_ofChars, hnil] at hlong
    exact absurd hlong (by decide)
  have hpaths (limit : Int) : byFileIn (E.at now) s userId (.ofChars cs) limit =
        (limited E limit (indexFound fold userId [cs] (fileEvents s userId))).map
          (List.map (fileHit (E.at now))) ∧
      byFileIn (E'.at now) s.down userId (.ofChars cs) limit =
        (limited E' limit (likeFound [cs] (containsText cs) (fileEvents s userId))).map
          (List.map (fileHit (E.at now))) := by
    unfold byFileIn
    rw [if_neg hne, if_neg hne, needleRows_index h hs hindex hcs hrows, except_bind_ok,
      except_bind_ok]
    have hnul := hcs.noNul cs (List.mem_singleton.2 rfl)
    exact ⟨rfl, congrArg (Except.map _) (needleRows_like (ite_self none) hnul limit)⟩
  constructor
  · intro hall
    have hunlimited := hall (-1)
    rw [(hpaths (-1)).1, (hpaths (-1)).2, limited_map (by decide) (by decide),
      limited_map (by decide) (by decide), except_map_map, except_map_map] at hunlimited
    obtain ⟨A, B, hA, hB, heq⟩ := found_of_map_eq hunlimited
    have hhit (e : Event) : (fileHit (E.at now) e).entityId = e.eventId := rfl
    refine sameFound_of_hits hs.keyed.events (fun e he => (hrows e he).1) hhit ⟨A, B, hA, hB, ?_⟩
    exact (((E.newest_perm A).map _).symm.trans (.of_eq heq)).trans ((E'.newest_perm B).map _)
  · intro hsame limit
    have htimes : ((fileEvents s userId).map (·.createdAt)).Nodup :=
      hdistinct.sublist (List.filter_sublist.map _)
    rw [(hpaths limit).1, (hpaths limit).2, limited_eq hsame htimes]

/-- Room for every row of the store. -/
def room (s : IndexedDb) : Int := s.db.events.length + s.db.claims.length + 1

theorem limitRows_room {α : Type} {l : List α} (h : (l.length : Int) ≤ room s) :
    limitRows (room s) l = l := by
  have hpos : 0 ≤ room s := by
    unfold room
    omega
  rw [limitRows, if_neg (by omega), List.take_of_length_le (by omega)]

theorem firstHits_room {hits : List Hit} (h : (hits.length : Int) ≤ room s) :
    (firstHits (room s) (sortHits hits)).Perm hits := by
  have hpos : 1 ≤ room s := by
    unfold room
    omega
  rw [firstHits_of_pos hpos]
  exact top_perm (by omega)

/-- Searches with room for every row find the same rows if they return the same hits beside those
of the same claims. -/
theorem sameFound_of_merged (hs : Reached s)
    (hsize : (s.db.events.length : Int) + s.db.claims.length + 1 < 2 ^ 63)
    {claims : List Hit} (hclaims : claims.length ≤ s.db.claims.length) {hit : Event → Hit}
    (hhit : ∀ e, (hit e).entityId = e.eventId) {merge : List Hit → List Hit}
    (hmerge : ∀ hits, (merge hits).Perm (hits ++ claims))
    (h : (limited E (room s) (indexFound fold userId texts (userEvents s userId))).map
        (fun rows => firstHits (room s) (sortHits (merge (rows.map hit)))) =
      (limited E' (room s) (likeFound texts pattern (userEvents s userId))).map
        fun rows => firstHits (room s) (sortHits (merge (rows.map hit)))) :
    SameFound fold userId texts pattern (userEvents s userId) := by
  have hevents : (userEvents s userId).length ≤ s.db.events.length := List.length_filter_le _ _
  have hbound : -2 ^ 63 ≤ room s ∧ room s < 2 ^ 63 := by
    unfold room
    omega
  have hne : room s ≠ 0 := by
    unfold room
    omega
  rw [limited_map hne hbound, limited_map hne hbound, except_map_map, except_map_map] at h
  obtain ⟨A, B, hA, hB, heq⟩ := found_of_map_eq h
  have hAle := indexFound_length_le hA
  have hBle := likeFound_length_le hB
  have hfits (F : Engine) {C : List Event} (hC : C.length ≤ (userEvents s userId).length) :
      (firstHits (room s) (sortHits (merge ((limitRows (room s) (F.newest C)).map hit)))).Perm
        (C.map hit ++ claims) := by
    have hlength := (F.newest_perm C).length_eq
    rw [limitRows_room (by unfold room; omega)]
    refine (firstHits_room ?_).trans
      ((hmerge _).trans (((F.newest_perm C).map hit).append_right claims))
    rw [(hmerge _).length_eq, List.length_append, List.length_map, hlength]
    unfold room
    omega
  refine sameFound_of_hits hs.keyed.events (fun e he => (mem_userEvents he).1) hhit
    ⟨A, B, hA, hB, ?_⟩
  have hmerged := ((hfits E hAle).symm.trans (.of_eq heq)).trans (hfits E' hBle)
  exact (List.perm_append_right_iff claims).1 hmerged

theorem length_limitRows_le {α : Type} (limit : Int) (l : List α) :
    (limitRows limit l).length ≤ l.length := by
  unfold limitRows
  split_ifs
  · exact le_rfl
  · exact List.length_take_le' _ _

theorem length_unseenClaims_le (limit : Int) :
    (unseenClaims (limitRows limit (orderClaims (fixClaims s userId)))).length ≤
      s.db.claims.length := by
  have hfirst := (@firstOfEach_sublist _ _ _ (fun c : Claim => some c.claimId)
    (limitRows limit (orderClaims (fixClaims s userId)))).length_le
  have hlimit := length_limitRows_le limit (orderClaims (fixClaims s userId))
  have horder := (orderClaims_perm (fixClaims s userId)).length_eq
  have hfilter : (fixClaims s userId).length ≤ s.db.claims.length := List.length_filter_le _ _
  rw [unseenClaims, collectFirst_nil]
  omega

theorem byBugFix_eq (F : Engine) (t : IndexedDb) (limit : Int) :
    byBugFix (F.at now) t userId limit = (fixEvents (F.at now) t userId limit).map fun rows =>
      firstHits limit (sortHits (rows.map (fixEventHit (F.at now)) ++
        (unseenClaims (limitRows limit (orderClaims (fixClaims t userId)))).map
          (fixClaimHit (F.at now)))) := by
  unfold byBugFix
  cases fixEvents (F.at now) t userId limit <;> rfl

/-- The search for fixes agrees on both paths if and only if both find the same events. -/
theorem byBugFix_agree_iff (h : Trigram E fold) (hs : Reached s) (hindex : s.index = some index)
    (hdistinct : (s.db.events.map (·.createdAt)).Nodup)
    (hsize : (s.db.events.length : Int) + s.db.claims.length + 1 < 2 ^ 63) :
    (∀ limit, byBugFix (E.at now) s userId limit = byBugFix (E'.at now) s.down userId limit) ↔
    SameFound fold userId (fixTokens.map String.toList) "" (userEvents s userId) := by
  have hpaths (limit : Int) :
      byBugFix (E.at now) s userId limit = (limited E limit
        (indexFound fold userId (fixTokens.map String.toList) (userEvents s userId))).map
          (fun rows => firstHits limit (sortHits (rows.map (fixEventHit (E.at now)) ++
            (unseenClaims (limitRows limit (orderClaims (fixClaims s userId)))).map
              (fixClaimHit (E.at now))))) ∧
      byBugFix (E'.at now) s.down userId limit = (limited E' limit
        (likeFound (fixTokens.map String.toList) "" (userEvents s userId))).map
          fun rows => firstHits limit (sortHits (rows.map (fixEventHit (E.at now)) ++
            (unseenClaims (limitRows limit (orderClaims (fixClaims s userId)))).map
              (fixClaimHit (E.at now)))) := by
    rw [byBugFix_eq, byBugFix_eq, fixEvents_index h hs hindex, fixEvents_like]
    exact ⟨rfl, rfl⟩
  constructor
  · intro hall
    have hmerged := hall (room s)
    rw [(hpaths _).1, (hpaths _).2] at hmerged
    have hhit (e : Event) : (fixEventHit (E.at now) e).entityId = e.eventId := rfl
    refine sameFound_of_merged hs hsize ?_ hhit (fun hits => .refl _) hmerged
    rw [List.length_map]
    exact length_unseenClaims_le (room s)
  · intro hsame limit
    have htimes : ((userEvents s userId).map (·.createdAt)).Nodup :=
      hdistinct.sublist (List.filter_sublist.map _)
    rw [(hpaths limit).1, (hpaths limit).2, limited_eq hsame htimes]

variable {lower : PyStr → PyStr}

theorem byEntity_eq (F : Engine) (t : IndexedDb) {subject : PyStr} (hne : subject ≠ [])
    (limit : Int) : byEntity (F.at now) t userId lower subject limit =
      entityClaims t userId lower subject limit >>= fun claims =>
        (needleRows (F.at now) t.index userId subject limit (userEvents t userId)).map fun rows =>
          firstHits limit (sortHits (claims.map (entityClaimHit (F.at now) subject) ++
            rows.map (entityEventHit (F.at now)))) := by
  unfold byEntity entityRows
  rw [if_neg hne]
  cases entityClaims t userId lower subject limit with
  | error e => rfl
  | ok claims =>
    cases needleRows (F.at now) t.index userId subject limit (userEvents t userId) <;> rfl

/-- A query for claims with another limit raises the same error, or finds the first ones. -/
theorem entityClaims_eq {subject : PyStr} {limit : Int} (hne : limit ≠ 0)
    (hbound : -2 ^ 63 ≤ limit ∧ limit < 2 ^ 63) : entityClaims s userId lower subject limit =
      (entityClaims s userId lower subject (-1)).map (limitRows limit) := by
  have hbind : bindLimit limit = .ok limit := if_pos hbound
  have hall : bindLimit (-1) = .ok (-1) := rfl
  unfold entityClaims
  cases bindText subject with
  | error e => rfl
  | ok text =>
    cases bindText (prefixLike lower subject) with
    | error e => rfl
    | ok pattern =>
      simp only [except_ok_bind, hbind, hall, if_neg hne, if_neg (show (-1 : Int) ≠ 0 by decide),
        except_map_map]
      rfl

theorem entityClaims_length_le {subject : PyStr} {limit : Int} {claims : List Claim}
    (h : entityClaims s userId lower subject limit = .ok claims) :
    claims.length ≤ s.db.claims.length := by
  simp only [entityClaims, except_bind_eq_ok] at h
  obtain ⟨text, -, pattern, -, n, -, h⟩ := h
  split_ifs at h
  · cases h
    exact Nat.zero_le _
  · unfold matchingClaims at h
    dsimp only at h
    split_ifs at h
    · cases h
    · cases h
      refine (length_limitRows_le _ _).trans ?_
      rw [(orderClaims_perm _).length_eq]
      exact (List.length_filter_le _ _).trans (List.length_filter_le _ _)

/-- The search for a subject agrees on both paths if and only if its query for claims raises, or
both find the same events. -/
theorem byEntity_agree_iff (h : Trigram E fold) (hs : Reached s) (hindex : s.index = some index)
    (hdistinct : (s.db.events.map (·.createdAt)).Nodup)
    (hsize : (s.db.events.length : Int) + s.db.claims.length + 1 < 2 ^ 63) (hcs : Needles [cs]) :
    (∀ limit, byEntity (E.at now) s userId lower (.ofChars cs) limit =
      byEntity (E'.at now) s.down userId lower (.ofChars cs) limit) ↔
    (∃ e, entityClaims s userId lower (.ofChars cs) (-1) = .error e) ∨
      SameFound fold userId [cs] (containsText cs) (userEvents s userId) := by
  have hne : PyStr.ofChars cs ≠ [] := by
    intro hnil
    have hlong := hcs.trigram cs (List.mem_singleton.2 rfl)
    rw [← PyStr.length_ofChars, hnil] at hlong
    exact absurd hlong (by decide)
  have hpaths (limit : Int) :
      byEntity (E.at now) s userId lower (.ofChars cs) limit =
        (entityClaims s userId lower (.ofChars cs) limit >>= fun claims =>
          (limited E limit (indexFound fold userId [cs] (userEvents s userId))).map fun rows =>
            firstHits limit (sortHits (claims.map (entityClaimHit (E.at now) (.ofChars cs)) ++
              rows.map (entityEventHit (E.at now))))) ∧
      byEntity (E'.at now) s.down userId lower (.ofChars cs) limit =
        (entityClaims s userId lower (.ofChars cs) limit >>= fun claims =>
          (limited E' limit (likeFound [cs] (containsText cs) (userEvents s userId))).map
            fun rows => firstHits limit (sortHits
              (claims.map (entityClaimHit (E.at now) (.ofChars cs)) ++
                rows.map (entityEventHit (E.at now))))) := by
    rw [byEntity_eq E s hne, byEntity_eq E' s.down hne,
      needleRows_index h hs hindex hcs fun e he => mem_userEvents he]
    refine ⟨rfl, ?_⟩
    have hlike : needleRows (E'.at now) none userId (.ofChars cs) limit (userEvents s userId) =
        limited E' limit (likeFound [cs] (containsText cs) (userEvents s userId)) :=
      needleRows_like (ite_self none) (hcs.noNul cs (List.mem_singleton.2 rfl)) limit
    change (entityClaims s userId lower (.ofChars cs) limit >>= fun claims =>
      (needleRows (E'.at now) none userId (.ofChars cs) limit (userEvents s userId)).map _) = _
    rw [hlike]
    rfl
  constructor
  · intro hall
    have hmerged := hall (room s)
    rw [(hpaths _).1, (hpaths _).2] at hmerged
    have hbound : -2 ^ 63 ≤ room s ∧ room s < 2 ^ 63 := by
      unfold room
      omega
    have hnonzero : room s ≠ 0 := by
      unfold room
      omega
    cases hclaims : entityClaims s userId lower (.ofChars cs) (-1) with
    | error e => exact .inl ⟨e, rfl⟩
    | ok claims =>
      have hroom : entityClaims s userId lower (.ofChars cs) (room s) =
          (entityClaims s userId lower (.ofChars cs) (-1)).map (limitRows (room s)) :=
        entityClaims_eq hnonzero hbound
      rw [hclaims] at hroom
      change _ = Except.ok (limitRows (room s) claims) at hroom
      rw [hroom, except_ok_bind, except_ok_bind] at hmerged
      have hhit (e : Event) : (entityEventHit (E.at now) e).entityId = e.eventId := rfl
      refine .inr (sameFound_of_merged hs hsize ?_ hhit (fun hits => List.perm_append_comm) hmerged)
      rw [List.length_map]
      exact entityClaims_length_le hroom
  · rintro (⟨e, hraises⟩ | hsame) limit
    · rw [(hpaths limit).1, (hpaths limit).2]
      cases hclaims : entityClaims s userId lower (.ofChars cs) limit with
      | error e => rfl
      | ok claims =>
        -- only without room for a row the query does not raise
        have hzero : limit = 0 := by
          by_contra hnonzero
          by_cases hbound : -2 ^ 63 ≤ limit ∧ limit < 2 ^ 63
          · rw [entityClaims_eq hnonzero hbound, hraises] at hclaims
            cases hclaims
          · have hbind : bindLimit limit = .error
                (.overflowError "Python int too large to convert to SQLite INTEGER") :=
              if_neg hbound
            simp only [entityClaims, except_bind_eq_ok, hbind] at hclaims
            obtain ⟨-, -, -, -, n, hn, -⟩ := hclaims
            cases hn
        subst hzero
        rfl
    · have htimes : ((userEvents s userId).map (·.createdAt)).Nodup :=
        hdistinct.sublist (List.filter_sublist.map _)
      rw [(hpaths limit).1, (hpaths limit).2, limited_eq hsame htimes]

end Paths

/-! ## When the paths agree -/

theorem map_fold_of_ascii (hfold : ∀ c, c.toNat < 128 → fold c = Like.fold c) {t u : List Char}
    (ht : ∀ c ∈ t, c.toNat < 128) (h : u.map Like.fold = t.map Like.fold) :
    u.map fold = t.map fold := by
  induction u generalizing t with
  | nil =>
    rw [List.map_nil, eq_comm, List.map_eq_nil_iff] at h
    rw [h]
  | cons d u ih =>
    cases t with
    | nil => cases h
    | cons c t =>
      rw [List.map_cons, List.map_cons, List.cons.injEq] at h
      have hc := ht c List.mem_cons_self
      rw [List.map_cons, List.map_cons, hfold c hc, hfold d (Like.lt_of_fold_eq hc h.1), h.1,
        ih (fun e he => ht e (List.mem_cons_of_mem c he)) h.2]

/-- What stands in a payload up to the case of ASCII stands in it up to any case. -/
theorem LikeHolds.holds (hfold : ∀ c, c.toNat < 128 → fold c = Like.fold c)
    (htexts : Needles texts) {e : Event} (h : LikeHolds texts e) :
    Holds fold texts e.payloadJson.toList := by
  obtain ⟨t, ht, a, b, hab⟩ := h
  refine ⟨t, ht, ?_⟩
  obtain ⟨xs, ys, hxy, hxs, -⟩ := List.map_eq_append_iff.1 hab.symm
  obtain ⟨as, us, rfl, -, hus⟩ := List.map_eq_append_iff.1 hxs
  have hsame := map_fold_of_ascii hfold (htexts.ascii t ht) hus
  have hcut : Fts.cString e.payloadJson.toList <+: e.payloadJson.toList := List.takeWhile_prefix _
  obtain ⟨rest, hrest⟩ := hcut
  refine ⟨as.map fold, (ys ++ rest).map fold, ?_⟩
  rw [← hrest, hxy, ← hsame]
  simp only [List.map_append, List.append_assoc]

/-- The expression and the pattern can be read, no payload holds one of the texts if the user id is
empty, and what a payload holds up to the case of Unicode it holds up to the case of ASCII, before
any `NUL`, if it is not. -/
structure Indexable (fold : Char → Char) (userId : String) (texts : List (List Char))
    (pattern : String) (rows : List Event) : Prop where
  noNul : '\x00' ∉ userId.toList
  fits : rows = [] ∨ tooComplex pattern = false
  emptyUser : userId = "" → ∀ e ∈ rows, ¬ LikeHolds texts e
  cased : userId ≠ "" → ∀ e ∈ rows, Holds fold texts e.payloadJson.toList → LikeHolds texts e

theorem sameFound_iff (hfold : ∀ c, c.toNat < 128 → fold c = Like.fold c) (htexts : Needles texts) :
    SameFound fold userId texts pattern rows ↔ Indexable fold userId texts pattern rows := by
  constructor
  · intro h
    refine ⟨h.noNul, h.fits, fun huser e he hlike => ?_, fun huser e he hholds => ?_⟩
    · exact ((h.same e he).2 hlike).1 huser
    · exact (h.same e he).1 ⟨huser, hholds⟩
  · intro h
    refine ⟨h.noNul, h.fits, fun e he => ⟨fun hindex => ?_, fun hlike => ?_⟩⟩
    · exact h.cased hindex.1 e he hindex.2
    · refine ⟨fun huser => h.emptyUser huser e he hlike, hlike.holds hfold htexts⟩

/-- A payload of ASCII without `NUL`, as `record_event` writes it, holds a text up to the case of
Unicode exactly if it does up to the case of ASCII. -/
theorem cased_of_ascii (hfold : ∀ c, c.toNat < 128 → fold c = Like.fold c)
    (htexts : Needles texts) {e : Event}
    (hascii : ∀ c ∈ e.payloadJson.toList, c.toNat < 128 ∧ c ≠ '\x00')
    (h : Holds fold texts e.payloadJson.toList) : LikeHolds texts e := by
  obtain ⟨t, ht, hwithin⟩ := h
  have hmap {cs : List Char} (hcs : ∀ c ∈ cs, c.toNat < 128) : cs.map fold = cs.map Like.fold :=
    List.map_congr_left fun c hc => hfold c (hcs c hc)
  refine ⟨t, ht, ?_⟩
  rw [Fts.cString_eq_self fun hnul => (hascii _ hnul).2 rfl, ← hmap (htexts.ascii t ht),
    ← hmap fun c hc => (hascii c hc).1]
  exact hwithin

/-- On a store with the index, `by_file`, `by_entity` and `by_bug_fix` return the same hits as
without it, for every limit, if and only if the rows they search are indexable; a search for a
subject may instead raise over its claims on both paths. -/
theorem paths_agree_iff {now : Int} {lower : PyStr → PyStr} {cs : List Char} (h : Trigram E fold)
    (hs : Reached s) (hindex : s.index ≠ none) (hdistinct : (s.db.events.map (·.createdAt)).Nodup)
    (hsize : (s.db.events.length : Int) + s.db.claims.length + 1 < 2 ^ 63) (hcs : Needles [cs]) :
    (∀ limit,
      byFileIn (E.at now) s userId (.ofChars cs) limit =
        byFileIn (E'.at now) s.down userId (.ofChars cs) limit ∧
      byEntity (E.at now) s userId lower (.ofChars cs) limit =
        byEntity (E'.at now) s.down userId lower (.ofChars cs) limit ∧
      byBugFix (E.at now) s userId limit = byBugFix (E'.at now) s.down userId limit) ↔
    Indexable fold userId [cs] (containsText cs) (fileEvents s userId) ∧
      ((∃ e, entityClaims s userId lower (.ofChars cs) (-1) = .error e) ∨
        Indexable fold userId [cs] (containsText cs) (userEvents s userId)) ∧
      Indexable fold userId (fixTokens.map String.toList) "" (userEvents s userId) := by
  obtain ⟨index, hindex⟩ := Option.ne_none_iff_exists'.1 hindex
  have hfile : (∀ limit, byFileIn (E.at now) s userId (.ofChars cs) limit =
      byFileIn (E'.at now) s.down userId (.ofChars cs) limit) ↔ _ :=
    byFile_agree_iff h hs hindex hdistinct hcs
  have hentity : (∀ limit, byEntity (E.at now) s userId lower (.ofChars cs) limit =
      byEntity (E'.at now) s.down userId lower (.ofChars cs) limit) ↔ _ :=
    byEntity_agree_iff h hs hindex hdistinct hsize hcs
  have hfix : (∀ limit, byBugFix (E.at now) s userId limit =
      byBugFix (E'.at now) s.down userId limit) ↔ _ :=
    byBugFix_agree_iff h hs hindex hdistinct hsize
  rw [← sameFound_iff h.ascii hcs, ← sameFound_iff h.ascii hcs, ← sameFound_iff h.ascii fixNeedles,
    ← hfile, ← hentity, ← hfix]
  simp only [forall_and]

theorem trigramEngine_trigram (now : Int) : Trigram (trigramEngine.at now) Like.fold where
  ascii := fun _ _ => rfl
  short := by
    intro p t hshort
    have hlong : ¬ 3 ≤ p.toList.length := by omega
    simp [trigramEngine, Engine.at, hlong]
  phrase := by
    intro p t hlong
    simp [trigramEngine, Engine.at, hlong]

theorem fix_needles : Needles ["fix".toList] where
  nonempty := by decide
  trigram := by decide
  ascii := ascii_of_all (by decide)
  noNul := by decide

theorem paths_agree_sample :
    byFileIn (trigramEngine.at 0) sampleStore "ann" (.ofChars "fix".toList) 5 =
      byFileIn (sampleEngine.at 0) sampleStore.down "ann" (.ofChars "fix".toList) 5 ∧
    byEntity (trigramEngine.at 0) sampleStore "ann" asciiLower (.ofChars "fix".toList) 5 =
      byEntity (sampleEngine.at 0) sampleStore.down "ann" asciiLower (.ofChars "fix".toList) 5 ∧
    byBugFix (trigramEngine.at 0) sampleStore "ann" 5 =
      byBugFix (sampleEngine.at 0) sampleStore.down "ann" 5 := by
  have hcased (texts : List (List Char)) : ∀ e ∈ [fixEvent],
      Holds Like.fold texts e.payloadJson.toList → LikeHolds texts e := by
    intro e he hholds
    obtain rfl : e = fixEvent := List.mem_singleton.1 he
    exact hholds
  have hindexable (texts : List (List Char)) (pattern : String) (h : tooComplex pattern = false) :
      Indexable Like.fold "ann" texts pattern [fixEvent] :=
    ⟨by decide, .inr h, fun huser => absurd huser (by decide), fun _ => hcased texts⟩
  refine (paths_agree_iff (trigramEngine_trigram 0) sampleStore_reached (by decide) (by decide)
    (by decide) fix_needles).2 ⟨?_, .inr ?_, ?_⟩ 5
  · exact hindexable _ _ (by decide)
  · exact hindexable _ _ (by decide)
  · exact hindexable _ _ (by decide)

/-- A store with the index and an event of the user with the empty id. -/
def emptyUserStore : IndexedDb :=
  IndexedDb.up ⟨{ Db.empty with events := [{ fixEvent with userId := "" }] }, none, false⟩

/-- The search over the index misses the event, the one with `LIKE` finds it. -/
theorem paths_differ_emptyUser : Reached emptyUserStore ∧ emptyUserStore.index ≠ none ∧
    Trigram (trigramEngine.at 0) Like.fold ∧ Needles ["fix".toList] ∧
    (∀ e ∈ emptyUserStore.db.events, ∀ c ∈ e.payloadJson.toList, c.toNat < 128 ∧ c ≠ '\x00') ∧
    byFileIn (trigramEngine.at 0) emptyUserStore "" (.ofChars "fix".toList) 1 = .ok [] ∧
    byFileIn (trigramEngine.at 0) emptyUserStore.down "" (.ofChars "fix".toList) 1 =
      .ok [fileHit (trigramEngine.at 0) { fixEvent with userId := "" }] ∧
    byBugFix (trigramEngine.at 0) emptyUserStore "" 1 = .ok [] ∧
    byBugFix (trigramEngine.at 0) emptyUserStore.down "" 1 =
      .ok [fixEventHit (trigramEngine.at 0) { fixEvent with userId := "" }] := by
  have hplain : ∀ e ∈ emptyUserStore.db.events,
      (e.payloadJson.toList.all fun c => c.toNat < 128 ∧ c ≠ '\x00') = true := by decide
  exact ⟨.up (.start ⟨by decide, by decide⟩), by decide, trigramEngine_trigram 0, fix_needles,
    fun e he => List.all_iff_forall_prop.1 (hplain e he), rfl, rfl, rfl, rfl⟩

end ParallaxKernel.Session
