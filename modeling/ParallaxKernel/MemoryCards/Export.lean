import ParallaxKernel.MemoryCards.MemoryMd

/-!
# Exporting cards as MEMORY.md

`server/routes/export.py`. The cards of a user are rendered section by section, and what is
rendered is read back by `parse_memory_md`.
-/

namespace ParallaxKernel.MemoryCards

open Lib Store

/-- `_SECTION_ORDER`. -/
def sectionOrder : List (Category × String) :=
  [(.user, "User"), (.project, "Projects (Active)"), (.feedback, "Feedback"),
    (.reference, "Reference")]

/-- `ORDER BY name ASC, filename ASC`. -/
def MemoryCard.before (a b : MemoryCard) : Prop :=
  a.name < b.name ∨ a.name = b.name ∧ a.filename ≤ b.filename

instance : DecidableRel MemoryCard.before :=
  fun a b => inferInstanceAs
    (Decidable (a.name < b.name ∨ a.name = b.name ∧ a.filename ≤ b.filename))

/-- `_fetch_cards`. -/
def fetchCards (t : Table) (userId : String) : List MemoryCard :=
  (t.rows.filter (·.userId = userId)).insertionSort MemoryCard.before

structure ExportMemoryMdResponse where
  memoryMd : String
  companionFiles : List (String × String)
  deriving DecidableEq

/-- The line of a card. -/
def cardLine (card : MemoryCard) : String :=
  "- [" ++ card.name ++ "](" ++ card.filename ++ ") — " ++ card.description

/-- The lines of one section, down to the blank one. -/
def sectionLines (cards : List MemoryCard) (sec : Category × String) : List String :=
  ("# " ++ sec.2) :: (cards.filter (·.category = sec.1)).map cardLine ++ [""]

/-- `_render`. -/
def render (cards : List MemoryCard) : ExportMemoryMdResponse where
  memoryMd := "\n".intercalate (sectionOrder.flatMap (sectionLines cards)) ++ "\n"
  companionFiles := (cards.insertionSort fun a b => a.filename ≤ b.filename).map fun card =>
    (card.filename, card.body)

variable (D : Digest) (bodyLooksLikeSecret : String → Bool)

/-- The cards that `get_export_memory_md` hands to `_render`. -/
def exportedCards (t : Table) (userId : String) : List MemoryCard :=
  (fetchCards t userId).filter fun card => !bodyLooksLikeSecret card.body

/-! ## Reading back -/

/-- The order in which the cards are rendered. -/
def exportedOrder (cards : List MemoryCard) : List MemoryCard :=
  sectionOrder.flatMap fun sec => cards.filter (·.category = sec.1)

def MemoryCard.entry (card : MemoryCard) : MemoryMdEntry where
  category := card.category
  title := card.name
  filename := card.filename
  description := card.description

/-- One entry for each card, in the order of the export and with its texts. -/
def ReadsBack (cards : List MemoryCard) : Prop :=
  (exportedOrder cards).Perm cards ∧
    parseMemoryMd (render cards).memoryMd = (exportedOrder cards).map MemoryCard.entry

/-- The line of the card is a bullet that says what the card says. -/
structure MemoryCard.Exportable (card : MemoryCard) : Prop where
  name_ne : card.name ≠ ""
  name_bracket : ']' ∉ card.name.toList
  description_ne : card.description ≠ ""

theorem cardLine_toList (card : MemoryCard) :
    (cardLine card).toList = '-' :: ' ' :: '[' :: (card.name.toList ++ ']' :: '(' ::
      (card.filename.toList ++ ')' :: ' ' :: '—' :: ' ' :: card.description.toList)) := by
  simp [cardLine]

/-- The line of an exportable card matches in one way. -/
theorem match_cardLine {card : MemoryCard} (hparsed : card.Parsed) (h : card.Exportable) :
    bulletRe.match_ (cardLine card).toList =
      some [("description", card.description.toList), ("filename", card.filename.toList),
        ("title", card.name.toList)] := by
  have hspace : isPySpace ' ' = true := by decide
  have hhead {c d : Char} {cs : List Char} {p : Char → Bool} (hc : p c = false)
      (hd : d ∈ (c :: cs).head?) : p d = false := by
    obtain rfl := Option.some.inj hd
    exact hc
  have hdescription : card.description.toList ≠ [] := fun hnil =>
    h.description_ne (String.toList_eq_nil_iff.1 hnil)
  have hstrip : strip card.description = card.description := hparsed.entry.description_strip
  simp only [Regex.match_, bulletRe, Regex.exec_seq, cardLine_toList]
  refine Regex.exec_many_none (fun c hc => hhead (by decide) hc) ?_
  rw [Regex.exec_chr]
  refine Regex.exec_plus_one hspace (fun c hc => hhead (by decide) hc) ?_
  rw [Regex.exec_chr]
  refine Regex.exec_capture_plus (fun hnil => h.name_ne (String.toList_eq_nil_iff.1 hnil))
    (fun c hc => ?_) (fun c hc => ?_) ?_
  · exact bne_iff_ne.2 fun hbracket => h.name_bracket (hbracket ▸ hc)
  · exact hhead (p := (· != ']')) (by decide) hc
  rw [Regex.exec_chr, Regex.exec_chr]
  refine Regex.exec_capture_plus hparsed.entry.filename_ne (fun c hc => ?_)
    (fun c hc => ?_) ?_
  · exact bne_iff_ne.2 fun hparen => hparsed.entry.filename_paren (hparen ▸ hc)
  · exact hhead (p := (· != ')')) (by decide) hc
  rw [Regex.exec_chr]
  refine Regex.exec_opt ?_
  refine Regex.exec_plus_one hspace (fun c hc => hhead (by decide) hc) ?_
  refine Regex.exec_alt_left ?_
  rw [Regex.exec_chr]
  refine Regex.exec_plus_one hspace (fun c hc => ?_) ?_
  · rw [← hstrip, toList_strip] at hc
    exact head?_stripBy hc
  refine Regex.exec_capture_plus_all hdescription (fun c hc => ?_) rfl
  refine bne_iff_ne.2 fun hbreak => ?_
  have hline := hparsed.entry.description_oneLine c hc
  rw [hbreak] at hline
  cases hline

/-- The line of a card says what the card says only if the card is exportable. -/
theorem parseBullet_cardLine_iff {card : MemoryCard} (hparsed : card.Parsed) :
    parseBullet card.category (cardLine card).toList = some card.entry ↔ card.Exportable := by
  constructor
  · intro h
    obtain ⟨m, hm, hentry⟩ := Option.map_eq_some_iff.1 h
    obtain ⟨title, filename, tail, hshape, hcaptured⟩ := match_bulletRe hm
    have hnames : title = card.name.toList ∧ filename = card.filename.toList := by
      have htitle : group m "title" = card.name := congrArg MemoryMdEntry.title hentry
      have hfilename : group m "filename" = card.filename :=
        congrArg MemoryMdEntry.filename hentry
      rw [← htitle, ← hfilename]
      rcases hcaptured with ⟨rfl, -⟩ | ⟨description, -, -, rfl⟩ <;>
        exact ⟨String.toList_ofList.symm, String.toList_ofList.symm⟩
    obtain ⟨rfl, rfl⟩ := hnames
    obtain ⟨indent, gap, hindent, hgap, hpieces⟩ := hshape.pieces
    rw [cardLine_toList] at hpieces
    constructor
    · exact fun hname => hshape.title_ne (String.toList_eq_nil_iff.2 hname)
    · exact hshape.title_bracket
    · intro hdescription
      -- Behind the file name the line goes on, but with less than a description takes.
      rw [hdescription, String.toList_empty] at hpieces
      rcases hcaptured with ⟨-, htail⟩ | ⟨description, -, htail, -⟩
      · have hlast := congrArg List.getLast? hpieces
        rcases htail with rfl | rfl <;> simp [List.getLast?_append, List.getLast?_cons] at hlast
      · have hlength := congrArg List.length hpieces
        have hgap := List.length_pos_of_ne_nil hgap
        simp only [List.length_append, List.length_cons, List.length_nil] at hlength
        omega
  · intro h
    rw [parseBullet, match_cardLine hparsed h, Option.map_some]
    have hstrip : strip card.description = card.description := hparsed.entry.description_strip
    simp [group, MemoryCard.entry, hstrip, List.lookup_cons]

/-! ## Reading back an export -/

theorem parseLines_heading {sec : Category × String} (hsec : sec ∈ sectionOrder)
    (category : Option Category) (lines : List (List Char)) :
    parseLines category (("# " ++ sec.2).toList :: lines) = parseLines (some sec.1) lines := by
  simp only [sectionOrder, List.mem_cons, List.not_mem_nil, or_false] at hsec
  rcases hsec with rfl | rfl | rfl | rfl <;> rfl

theorem parseLines_cardLine (category : Category) (card : MemoryCard) (lines : List (List Char)) :
    parseLines (some category) ((cardLine card).toList :: lines) =
      (parseBullet category (cardLine card).toList).toList ++ parseLines (some category) lines := by
  have hstrip : ['#', ' '].isPrefixOf (stripBy isPySpace (cardLine card).toList) = false := by
    rw [cardLine_toList]
    obtain ⟨tail, htail⟩ := stripBy_cons (p := isPySpace) (c := '-') (by decide)
    rw [htail]
    rfl
  rw [parseLines, hstrip, if_neg Bool.false_ne_true]
  rfl

theorem parseLines_blank (category : Option Category) (lines : List (List Char)) :
    parseLines category ([] :: lines) = parseLines category lines := by
  cases category <;> rfl

/-- A section gives the entries of its lines. -/
theorem parseLines_section {sec : Category × String} (hsec : sec ∈ sectionOrder)
    (category : Option Category) (cards : List MemoryCard) (lines : List (List Char)) :
    parseLines category ((sectionLines cards sec).map String.toList ++ lines) =
      (cards.filter (·.category = sec.1)).filterMap
        (fun card => parseBullet card.category (cardLine card).toList) ++
        parseLines (some sec.1) lines := by
  have hcards (filed : List MemoryCard) (hfiled : ∀ card ∈ filed, card.category = sec.1) :
      parseLines (some sec.1) ((filed.map cardLine).map String.toList ++ [] :: lines) =
        filed.filterMap (fun card => parseBullet card.category (cardLine card).toList) ++
          parseLines (some sec.1) lines := by
    induction filed with
    | nil => exact parseLines_blank (some sec.1) lines
    | cons card filed ih =>
      have hcategory : card.category = sec.1 := hfiled card List.mem_cons_self
      rw [List.map_cons, List.map_cons, List.cons_append, parseLines_cardLine,
        ih fun c hc => hfiled c (List.mem_cons_of_mem card hc), List.filterMap_cons, hcategory]
      cases parseBullet sec.1 (cardLine card).toList <;> rfl
  have hfiled : ∀ card ∈ cards.filter (·.category = sec.1), card.category = sec.1 :=
    fun card hcard => of_decide_eq_true (List.mem_filter.1 hcard).2
  rw [← hcards _ hfiled, sectionLines, List.map_append, List.map_cons, List.cons_append,
    List.cons_append, parseLines_heading hsec, List.append_assoc]
  rfl

theorem parseLines_sections {sections : List (Category × String)}
    (hsections : sections ⊆ sectionOrder) (category : Option Category) (cards : List MemoryCard) :
    parseLines category ((sections.flatMap (sectionLines cards)).map String.toList) =
      (sections.flatMap fun sec => cards.filter (·.category = sec.1)).filterMap
        (fun card => parseBullet card.category (cardLine card).toList) := by
  induction sections generalizing category with
  | nil => rfl
  | cons sec sections ih =>
    rw [List.flatMap_cons, List.map_append,
      parseLines_section (hsections List.mem_cons_self) category cards,
      ih (fun s hs => hsections (List.mem_cons_of_mem sec hs)), List.flatMap_cons,
      List.filterMap_append]

theorem oneLine_sectionLines {cards : List MemoryCard} (h : ∀ card ∈ cards, card.Parsed) :
    ∀ line ∈ (sectionOrder.flatMap (sectionLines cards)).map String.toList, OneLine line := by
  intro line hline
  obtain ⟨text, htext, rfl⟩ := List.mem_map.1 hline
  obtain ⟨sec, hsec, htext⟩ := List.mem_flatMap.1 htext
  rw [sectionLines, List.mem_append, List.mem_cons, List.mem_map, List.mem_singleton] at htext
  rcases htext with (rfl | ⟨card, hcard, rfl⟩) | rfl
  · simp only [sectionOrder, List.mem_cons, List.not_mem_nil, or_false] at hsec
    rcases hsec with rfl | rfl | rfl | rfl <;> decide
  · have hparsed := h card (List.mem_filter.1 hcard).1
    have hliteral : ∀ c ∈ ['-', ' ', '[', ']', '(', ')', '—'], isLineBreak c = false :=
      (by decide : OneLine ['-', ' ', '[', ']', '(', ')', '—'])
    rw [cardLine_toList]
    intro c hc
    simp only [List.mem_cons, List.mem_append] at hc
    have hname := hparsed.name_oneLine c
    have hfilename := hparsed.entry.filename_oneLine c
    have hdescription := hparsed.entry.description_oneLine c
    grind
  · exact fun c hc => absurd hc List.not_mem_nil

/-- What is read back is what the lines of the cards say, in the order of the export. -/
theorem parseMemoryMd_render {cards : List MemoryCard} (h : ∀ card ∈ cards, card.Parsed) :
    parseMemoryMd (render cards).memoryMd = (exportedOrder cards).filterMap
      fun card => parseBullet card.category (cardLine card).toList := by
  have htext : (render cards).memoryMd.toList =
      ((sectionOrder.flatMap (sectionLines cards)).map String.toList).flatMap (· ++ ['\n']) := by
    have hne : (sectionOrder.flatMap (sectionLines cards)).map String.toList ≠ [] := by
      intro hnil
      cases hnil
    rw [← intercalate_newline hne, render, String.toList_append, String.toList_intercalate]
    rfl
  rw [parseMemoryMd, htext, splitlines_flatMap (oneLine_sectionLines h),
    parseLines_sections (List.Subset.refl sectionOrder), exportedOrder]

theorem exportedOrder_perm (cards : List MemoryCard) : (exportedOrder cards).Perm cards := by
  have hperm := @flatMap_filter_perm _ _ _ MemoryCard.category
    [.user, .project, .feedback, .reference] (by decide) cards
  refine hperm.trans (.of_eq (List.filter_eq_self.2 fun card _ => ?_))
  cases card.category <;> rfl

/-- What the runs of ingestion have stored is read back from its export if every exported card has
a description and a name that the bullet can hold. -/
theorem export_readsBack_iff (runs : List Run) (userId : String) :
    ReadsBack (exportedCards bodyLooksLikeSecret (afterRuns D bodyLooksLikeSecret runs) userId) ↔
      ∀ card ∈ exportedCards bodyLooksLikeSecret (afterRuns D bodyLooksLikeSecret runs) userId,
        card.Exportable := by
  have hparsed : ∀ card ∈ exportedCards bodyLooksLikeSecret
      (afterRuns D bodyLooksLikeSecret runs) userId, card.Parsed := by
    intro card hcard
    have hfetched := (List.mem_insertionSort _).1 (List.mem_filter.1 hcard).1
    exact afterRuns_parsed runs card (List.mem_filter.1 hfetched).1
  generalize exportedCards bodyLooksLikeSecret (afterRuns D bodyLooksLikeSecret runs) userId = cards
    at hparsed ⊢
  rw [ReadsBack, parseMemoryMd_render hparsed, List.filterMap_eq_map_iff_forall_eq_some]
  constructor
  · rintro ⟨-, hlines⟩ card hcard
    exact (parseBullet_cardLine_iff (hparsed card hcard)).1
      (hlines card ((exportedOrder_perm cards).mem_iff.2 hcard))
  · intro h
    refine ⟨exportedOrder_perm cards, fun card hcard => ?_⟩
    have hcard := (exportedOrder_perm cards).mem_iff.1 hcard
    exact (parseBullet_cardLine_iff (hparsed card hcard)).2 (h card hcard)

/-- A bullet without a description. -/
def undescribed : Run where
  files :=
    { memoryMd := some "# User\n- [Profile](profile.md)\n"
      companion := fun _ =>
        .text "---\nname: Profile\ndescription: a sketch\ntype: user\n---\n\nBody\n" }
  userId := "u"
  clock := fun _ => "2026-01-01T00:00:00+00:00"

theorem undescribed_lost : ¬ ReadsBack (exportedCards (fun _ => false)
    (afterRuns (Digest.listed []) (fun _ => false) [undescribed]) "u") := by
  rintro ⟨-, h⟩
  revert h
  decide +kernel

end ParallaxKernel.MemoryCards
