import ParallaxKernel.Lib.KeyedList
import ParallaxKernel.Lib.Lines
import ParallaxKernel.Lib.Regex
import ParallaxKernel.Lib.Runs
import ParallaxKernel.Store.Hashing

/-!
# Parsing and ingesting MEMORY.md

`memory_md.py`. The bullets of a MEMORY.md name companion files; a run of `ingest_memory_md` writes
one row of `memory_cards` for each bullet whose companion can be read, all of them or none.
`body_looks_like_secret` is a parameter. What the file system says of a companion's path is an
input of the run.
-/

namespace ParallaxKernel.MemoryCards

open Lib Store

/-! ## MEMORY.md -/

/-- The kinds of card. -/
inductive Category where
  | user
  | project
  | feedback
  | reference
  deriving DecidableEq, Repr

/-- `_SECTION_CATEGORY_MAP.get`. -/
def sectionCategory (heading : String) : Option Category :=
  match heading with
  | "User" => some .user
  | "Projects (Active)" => some .project
  | "Feedback" => some .feedback
  | "Reference" => some .reference
  | _ => none

structure MemoryMdEntry where
  category : Category
  title : String
  filename : String
  description : String
  deriving DecidableEq, Repr

/-- `_BULLET_RE`. -/
def bulletRe : Regex :=
  .seq (.many isPySpace) <| .seq (.chr '-') <| .seq (.plus isPySpace) <| .seq (.chr '[') <|
  .seq (.capture "title" (.plus (· != ']'))) <| .seq (.chr ']') <| .seq (.chr '(') <|
  .seq (.capture "filename" (.plus (· != ')'))) <| .seq (.chr ')') <|
  .seq (.opt (.seq (.plus isPySpace) <| .seq (.alt (.chr '—') (.chr '-')) <|
    .seq (.plus isPySpace) <| .capture "description" (.plus (· != '\n')))) .eol

/-- `m.group(name)`, an absent group being empty. -/
def group (m : Regex.Captures) (name : String) : String := String.ofList ((m.lookup name).getD [])

/-- The entry of one line of a section. -/
def parseBullet (category : Category) (line : List Char) : Option MemoryMdEntry :=
  (bulletRe.match_ line).map fun m =>
    { category, title := group m "title", filename := group m "filename",
      description := strip (group m "description") }

/-- The entries of the lines that are left, below the heading of `category`. Below another heading
there are none. -/
def parseLines : Option Category → List (List Char) → List MemoryMdEntry
  | _, [] => []
  | category, line :: lines =>
    let stripped := stripBy isPySpace line
    if ['#', ' '].isPrefixOf stripped then
      let heading := stripBy isPySpace (stripped.drop 2)
      parseLines (sectionCategory (String.ofList heading)) lines
    else (category.bind (parseBullet · line)).toList ++ parseLines category lines

def parseMemoryMd (text : String) : List MemoryMdEntry := parseLines none (splitlines text.toList)

/-! ## Companion files -/

structure CompanionFile where
  name : String
  description : String
  type : String
  body : String
  deriving DecidableEq

/-- The `ValueError`s of `parse_companion`. -/
inductive MalformedCompanion where
  | missingOpening
  | missingClosing
  | missingKeys (missing : List String)
  deriving DecidableEq

def MalformedCompanion.text (path : String) : MalformedCompanion → String
  | missingOpening => s!"Missing opening '---' frontmatter delimiter in {path}"
  | missingClosing => s!"Missing closing '---' frontmatter delimiter in {path}"
  | missingKeys missing =>
    let names := ", ".intercalate (missing.map fun key => s!"'{key}'")
    s!"Frontmatter missing required keys [{names}] in {path}"

/-- `line.partition(":")` with both parts stripped, of a line that has a colon. -/
def frontmatterItem (line : List Char) : Option (String × String) :=
  if ':' ∈ line then
    let key := line.takeWhile (· ≠ ':')
    let value := line.drop (key.length + 1)
    some (strip (String.ofList key), strip (String.ofList value))
  else none

/-- `meta`, with the later of two lines for one key first. -/
def frontmatter (lines : List (List Char)) : List (String × String) :=
  (lines.filterMap frontmatterItem).reverse

/-- `parse_companion` of a file with the given text. -/
def parseCompanion (text : String) : Except MalformedCompanion CompanionFile :=
  match splitlines text.toList with
  | [] => .error .missingOpening
  | opening :: lines =>
    if stripBy isPySpace opening ≠ ['-', '-', '-'] then .error .missingOpening
    else if ['-', '-', '-'] ∉ lines then .error .missingClosing
    else
      let inner := lines.takeWhile (· ≠ ['-', '-', '-'])
      let after := lines.drop (inner.length + 1)
      let fields := frontmatter inner
      match fields.lookup "name", fields.lookup "description", fields.lookup "type" with
      | some name, some description, some type =>
        .ok { name, description, type,
              body := strip (String.ofList (['\n'].intercalate after)) }
      | _, _, _ =>
        .error (.missingKeys (["name", "description", "type"].filter fun key =>
          (fields.lookup key).isNone))

/-! ## The table -/

/-- A row of `memory_cards`. -/
structure MemoryCard where
  id : String
  userId : String
  category : Category
  name : String
  filename : String
  description : String
  body : String
  createdAt : String
  updatedAt : String
  deriving DecidableEq

/-- The columns of `idx_memory_cards_user_filename`. -/
def MemoryCard.key (card : MemoryCard) : String × String := (card.userId, card.filename)

/-- The table, within its two constraints. -/
structure Table where
  rows : List MemoryCard
  id_nodup : (rows.map MemoryCard.id).Nodup
  key_nodup : (rows.map MemoryCard.key).Nodup

namespace Table

def empty : Table := ⟨[], List.nodup_nil, List.nodup_nil⟩

/-- The columns that `DO UPDATE` sets. -/
def overwrite (new card : MemoryCard) : MemoryCard :=
  if card.key = new.key then
    { card with
      category := new.category, name := new.name, description := new.description,
      body := new.body, updatedAt := new.updatedAt }
  else card

theorem overwrite_id (new card : MemoryCard) : (overwrite new card).id = card.id := by
  rw [overwrite]
  split <;> rfl

theorem overwrite_key (new card : MemoryCard) : (overwrite new card).key = card.key := by
  rw [overwrite]
  split <;> rfl

def update (t : Table) (new : MemoryCard) : Table where
  rows := t.rows.map (overwrite new)
  id_nodup := by
    rw [List.map_map, show MemoryCard.id ∘ overwrite new = _ from funext (overwrite_id new)]
    exact t.id_nodup
  key_nodup := by
    rw [List.map_map, show MemoryCard.key ∘ overwrite new = _ from funext (overwrite_key new)]
    exact t.key_nodup

def insert (t : Table) (new : MemoryCard) (hid : new.id ∉ t.rows.map MemoryCard.id)
    (hkey : new.key ∉ t.rows.map MemoryCard.key) : Table where
  rows := t.rows ++ [new]
  id_nodup := by
    rw [List.map_append]
    exact List.nodup_append_comm.1 (List.nodup_cons.2 ⟨hid, t.id_nodup⟩)
  key_nodup := by
    rw [List.map_append]
    exact List.nodup_append_comm.1 (List.nodup_cons.2 ⟨hkey, t.key_nodup⟩)

/-- `_UPSERT_SQL`; without a row for the key, the primary key may still be taken. -/
def upsert (t : Table) (new : MemoryCard) : Option Table :=
  if hkey : new.key ∈ t.rows.map MemoryCard.key then some (t.update new)
  else if hid : new.id ∈ t.rows.map MemoryCard.id then none
  else some (t.insert new hid hkey)

/-- An upsert leaves rows that were there or that have the columns of the new one. -/
theorem mem_upsert {t u : Table} {new card : MemoryCard} (h : t.upsert new = some u)
    (hcard : card ∈ u.rows) :
    card ∈ t.rows ∨ card.filename = new.filename ∧ card.category = new.category ∧
      card.name = new.name ∧ card.description = new.description := by
  rw [upsert] at h
  split at h
  · obtain rfl := Option.some.inj h
    obtain ⟨old, hold, rfl⟩ := List.mem_map.1 hcard
    rw [overwrite]
    split
    · next hkey => exact .inr ⟨(Prod.mk.inj hkey).2, rfl, rfl, rfl⟩
    · exact .inl hold
  · split at h
    · cases h
    · obtain rfl := Option.some.inj h
      cases List.mem_append.1 hcard with
      | inl hold => exact .inl hold
      | inr hnew =>
        obtain rfl := List.mem_singleton.1 hnew
        exact .inr ⟨rfl, rfl, rfl, rfl⟩

end Table

/-! ## Ingesting -/

/-- What the file system says of a companion's path. -/
inductive CompanionPath where
  | escapes
  | missing
  | unreadable
  | fails
  | text (content : String)

/-- The files that a run reads. Reading MEMORY.md may fail. -/
structure Files where
  memoryMd : Option String
  companion : String → CompanionPath

structure IngestReport where
  cardsInserted : Nat
  cardsUpdated : Nat
  skippedMissingCompanion : List String
  skippedMalformed : List String
  skippedPrivacy : List String
  deriving DecidableEq

/-- The exceptions of a run: of the file system, and `sqlite3.IntegrityError`. -/
inductive IngestError where
  | os
  | integrity
  deriving DecidableEq

variable (D : Digest) (bodyLooksLikeSecret : String → Bool)

/-- `hashlib.sha256(f"{user_id}::{entry.filename}".encode()).hexdigest()[:16]`. -/
def cardId (userId filename : String) : String :=
  String.ofList ((D.sha256 (userId ++ "::" ++ filename)).toList.take 16)

/-- The row that an entry and its companion ask for. -/
def newCard (userId : String) (entry : MemoryMdEntry) (companion : CompanionFile) (now : String) :
    MemoryCard where
  id := cardId D userId entry.filename
  userId := userId
  category := entry.category
  name := companion.name
  filename := entry.filename
  description := entry.description
  body := companion.body
  createdAt := now
  updatedAt := now

/-- One turn of the loop. `clock` gives the readings of `now_iso()` in order. -/
def ingestEntry (files : Files) (userId : String) (clock : Nat → String)
    (acc : Table × IngestReport) (entry : MemoryMdEntry) :
    Except IngestError (Table × IngestReport) :=
  let (t, report) := acc
  let malformed : Except IngestError (Table × IngestReport) :=
    .ok (t, { report with skippedMalformed := report.skippedMalformed ++ [entry.filename] })
  match files.companion entry.filename with
  | .fails => .error .os
  | .escapes => malformed
  | .missing =>
    .ok (t, { report with
      skippedMissingCompanion := report.skippedMissingCompanion ++ [entry.filename] })
  | .unreadable => malformed
  | .text content =>
    match parseCompanion content with
    | .error _ => malformed
    | .ok companion =>
      if bodyLooksLikeSecret companion.body then
        .ok (t, { report with skippedPrivacy := report.skippedPrivacy ++ [entry.filename] })
      else
        let now := clock (report.cardsInserted + report.cardsUpdated)
        let existing := (userId, entry.filename) ∈ t.rows.map MemoryCard.key
        match t.upsert (newCard D userId entry companion now) with
        | none => .error .integrity
        | some u =>
          if existing then .ok (u, { report with cardsUpdated := report.cardsUpdated + 1 })
          else .ok (u, { report with cardsInserted := report.cardsInserted + 1 })

/-- `ingest_memory_md`. An exception rolls the transaction back. -/
def ingestMemoryMd (files : Files) (userId : String) (clock : Nat → String) (t : Table) :
    Except IngestError (Table × IngestReport) :=
  match files.memoryMd with
  | none => .error .os
  | some text =>
    (parseMemoryMd text).foldlM (ingestEntry D bodyLooksLikeSecret files userId clock)
      (t, { cardsInserted := 0, cardsUpdated := 0, skippedMissingCompanion := [],
            skippedMalformed := [], skippedPrivacy := [] })

/-- A run and what it is given. -/
structure Run where
  files : Files
  userId : String
  clock : Nat → String

/-- The table after a run, whether it raises or not. -/
def afterRun (t : Table) (run : Run) : Table :=
  match ingestMemoryMd D bodyLooksLikeSecret run.files run.userId run.clock t with
  | .ok (u, _) => u
  | .error _ => t

def afterRuns (runs : List Run) : Table :=
  runs.foldl (afterRun D bodyLooksLikeSecret) Table.empty

/-! ## What the parsers leave of a text -/

theorem toList_strip (s : String) : (strip s).toList = stripBy isPySpace s.toList :=
  String.toList_ofList

theorem strip_strip (s : String) : strip (strip s) = strip s := by
  rw [← String.toList_inj, toList_strip, toList_strip, stripBy_stripBy]

theorem oneLine_strip {cs : List Char} (h : OneLine cs) :
    OneLine (strip (String.ofList cs)).toList := by
  rw [toList_strip, String.toList_ofList]
  exact h.subset (stripBy_subset isPySpace cs)

/-- The pieces of a line that is a bullet. -/
structure BulletShape (line title filename tail : List Char) : Prop where
  title_ne : title ≠ []
  title_bracket : ']' ∉ title
  filename_ne : filename ≠ []
  filename_paren : ')' ∉ filename
  pieces : ∃ indent gap, (∀ c ∈ indent, isPySpace c = true) ∧ gap ≠ [] ∧
    line = indent ++ '-' :: (gap ++ '[' :: (title ++ ']' :: '(' :: (filename ++ ')' :: tail)))

/-- A match ends behind the file name, or goes on to a description. -/
theorem match_bulletRe {line : List Char} {m : Regex.Captures}
    (h : bulletRe.match_ line = some m) :
    ∃ title filename tail, BulletShape line title filename tail ∧
      (m = [("filename", filename), ("title", title)] ∧ (tail = [] ∨ tail = ['\n']) ∨
        ∃ description, description ⊆ tail ∧ 4 ≤ tail.length ∧
          m = [("description", description), ("filename", filename), ("title", title)]) := by
  simp only [Regex.match_, bulletRe, Regex.exec_seq] at h
  obtain ⟨indent, l1, rfl, hindent, h1⟩ := Regex.exec_many_eq_some h
  obtain ⟨l2, rfl, h2⟩ := Regex.exec_chr_eq_some h1
  obtain ⟨gap, l3, hgap, rfl, -, h3⟩ := Regex.exec_plus_eq_some h2
  obtain ⟨l4, rfl, h4⟩ := Regex.exec_chr_eq_some h3
  obtain ⟨title, l5, htitle, rfl, hbracket, h5⟩ := Regex.exec_capture_plus_eq_some h4
  obtain ⟨l6, rfl, h6⟩ := Regex.exec_chr_eq_some h5
  obtain ⟨l7, rfl, h7⟩ := Regex.exec_chr_eq_some h6
  obtain ⟨filename, l8, hfilename, rfl, hparen, h8⟩ := Regex.exec_capture_plus_eq_some h7
  obtain ⟨tail, rfl, h9⟩ := Regex.exec_chr_eq_some h8
  have hshape : BulletShape _ title filename tail :=
    { title_ne := htitle
      title_bracket := fun hmem => absurd (hbracket _ hmem) (by decide)
      filename_ne := hfilename
      filename_paren := fun hmem => absurd (hparen _ hmem) (by decide)
      pieces := ⟨indent, gap, hindent, hgap, rfl⟩ }
  refine ⟨title, filename, tail, hshape, ?_⟩
  cases Regex.exec_opt_eq_some h9 with
  | inr hend =>
    obtain ⟨htail, hm⟩ := Regex.exec_eol_eq_some hend
    exact .inl ⟨(Option.some.inj hm).symm, htail⟩
  | inl hdescribed =>
    obtain ⟨space, l9, hspace, rfl, -, h10⟩ := Regex.exec_plus_eq_some hdescribed
    have hdash : ∃ c rest, l9 = c :: rest ∧ Regex.exec (.plus isPySpace) rest
        [("filename", filename), ("title", title)] (fun cs caps =>
          Regex.exec (.capture "description" (.plus (· != '\n'))) cs caps fun cs caps =>
            Regex.exec .eol cs caps fun _ caps => some caps) = some m := by
      cases Regex.exec_alt_eq_some h10 with
      | inl h =>
        obtain ⟨rest, hrest, h⟩ := Regex.exec_chr_eq_some h
        exact ⟨_, rest, hrest, h⟩
      | inr h =>
        obtain ⟨rest, hrest, h⟩ := Regex.exec_chr_eq_some h
        exact ⟨_, rest, hrest, h⟩
    obtain ⟨dash, rest, rfl, h11⟩ := hdash
    obtain ⟨space', l10, hspace', rfl, -, h12⟩ := Regex.exec_plus_eq_some h11
    obtain ⟨description, l11, hdescription, rfl, -, h13⟩ := Regex.exec_capture_plus_eq_some h12
    obtain ⟨-, hm⟩ := Regex.exec_eol_eq_some h13
    refine .inr ⟨description, fun c hc => ?_, ?_, (Option.some.inj hm).symm⟩
    · simp [hc]
    · have hpos {l : List Char} (hl : l ≠ []) : 0 < l.length := List.length_pos_of_ne_nil hl
      have hlen := hpos hspace
      have hlen' := hpos hspace'
      have hlen'' := hpos hdescription
      simp only [List.length_append, List.length_cons]
      omega

/-- What one line says of the texts of its entry. -/
structure MemoryMdEntry.Parsed (entry : MemoryMdEntry) : Prop where
  filename_ne : entry.filename.toList ≠ []
  filename_paren : ')' ∉ entry.filename.toList
  filename_oneLine : OneLine entry.filename.toList
  description_oneLine : OneLine entry.description.toList
  description_strip : strip entry.description = entry.description

theorem parseBullet_category {category : Category} {line : List Char} {entry : MemoryMdEntry}
    (h : parseBullet category line = some entry) : entry.category = category := by
  obtain ⟨m, -, rfl⟩ := Option.map_eq_some_iff.1 h
  rfl

theorem parseBullet_parsed {category : Category} {line : List Char} {entry : MemoryMdEntry}
    (hline : OneLine line) (h : parseBullet category line = some entry) : entry.Parsed := by
  obtain ⟨m, hm, rfl⟩ := Option.map_eq_some_iff.1 h
  obtain ⟨title, filename, tail, hshape, hcaptured⟩ := match_bulletRe hm
  obtain ⟨indent, gap, -, -, hpieces⟩ := hshape.pieces
  have hfilename : group m "filename" = String.ofList filename := by
    rcases hcaptured with ⟨rfl, -⟩ | ⟨description, -, -, rfl⟩ <;> rfl
  have hdescription : OneLine (strip (group m "description")).toList := by
    refine oneLine_strip (hline.subset ?_)
    rcases hcaptured with ⟨rfl, -⟩ | ⟨description, hsub, -, rfl⟩
    · exact List.nil_subset line
    · intro c hc
      have htail : c ∈ tail := hsub hc
      rw [hpieces]
      simp [htail]
  constructor
  · rw [hfilename, String.toList_ofList]
    exact hshape.filename_ne
  · rw [hfilename, String.toList_ofList]
    exact hshape.filename_paren
  · rw [hfilename, String.toList_ofList]
    refine hline.subset fun c hc => ?_
    rw [hpieces]
    simp [hc]
  · exact hdescription
  · exact strip_strip _

theorem parseLines_parsed {lines : List (List Char)} (hlines : ∀ line ∈ lines, OneLine line)
    (category : Option Category) : ∀ entry ∈ parseLines category lines, entry.Parsed := by
  induction lines generalizing category with
  | nil => exact fun entry hentry => absurd hentry List.not_mem_nil
  | cons line lines ih =>
    have ih := ih fun l hl => hlines l (List.mem_cons_of_mem line hl)
    rw [parseLines]
    split
    · exact ih _
    · intro entry hentry
      cases List.mem_append.1 hentry with
      | inl hbullet =>
        obtain ⟨c, -, hbullet⟩ := Option.bind_eq_some_iff.1 (Option.mem_toList.1 hbullet)
        exact parseBullet_parsed (hlines line List.mem_cons_self) hbullet
      | inr hrest => exact ih category entry hrest

theorem parseMemoryMd_parsed (text : String) : ∀ entry ∈ parseMemoryMd text, entry.Parsed :=
  parseLines_parsed (fun _ hl => oneLine_of_mem_splitlines hl) none

theorem frontmatterItem_oneLine {line : List Char} {item : String × String} (hline : OneLine line)
    (h : frontmatterItem line = some item) : OneLine item.2.toList := by
  rw [frontmatterItem] at h
  split at h
  · obtain rfl := Option.some.inj h
    exact oneLine_strip (hline.subset (List.drop_subset _ line))
  · cases h

theorem parseCompanion_name {text : String} {companion : CompanionFile}
    (h : parseCompanion text = .ok companion) : OneLine companion.name.toList := by
  rw [parseCompanion] at h
  split at h
  · cases h
  · next opening lines hsplit =>
    split at h
    · cases h
    · split at h
      · cases h
      · dsimp only at h
        split at h
        · next name description type hname hdescription htype =>
          obtain rfl := Except.ok.inj h
          obtain ⟨l, r, hfields, -⟩ := List.lookup_eq_some_iff.1 hname
          have hmem : ("name", name) ∈ (frontmatter (lines.takeWhile (· ≠ ['-', '-', '-']))) := by
            rw [hfields]
            exact List.mem_append_right l List.mem_cons_self
          obtain ⟨line, hline, hitem⟩ := List.mem_filterMap.1 (List.mem_reverse.1 hmem)
          have hin : line ∈ splitlines text.toList := by
            rw [hsplit]
            exact List.mem_cons_of_mem opening ((List.takeWhile_subset _) hline)
          exact frontmatterItem_oneLine (oneLine_of_mem_splitlines hin) hitem
        · cases h

/-! ## What the runs leave in the table -/

/-- The texts of a card are as the parsers leave them. -/
structure MemoryCard.Parsed (card : MemoryCard) : Prop where
  name_oneLine : OneLine card.name.toList
  entry : MemoryMdEntry.Parsed
    { category := card.category, title := card.name, filename := card.filename,
      description := card.description }

section Runs

variable {D} {bodyLooksLikeSecret}

theorem ingestEntry_parsed {files : Files} {userId : String} {clock : Nat → String}
    {acc acc' : Table × IngestReport} {entry : MemoryMdEntry} (hentry : entry.Parsed)
    (hacc : ∀ card ∈ acc.1.rows, card.Parsed)
    (h : ingestEntry D bodyLooksLikeSecret files userId clock acc entry = .ok acc') :
    ∀ card ∈ acc'.1.rows, card.Parsed := by
  obtain ⟨t, report⟩ := acc
  have hsame {report' : IngestReport}
      (h : (.ok (t, report') : Except IngestError (Table × IngestReport)) = .ok acc') :
      ∀ card ∈ acc'.1.rows, card.Parsed := by
    obtain rfl := Except.ok.inj h
    exact hacc
  rw [ingestEntry] at h
  dsimp only at h
  split at h
  · cases h
  · exact hsame h
  · exact hsame h
  · exact hsame h
  · split at h
    · exact hsame h
    · next companion hcompanion =>
      split at h
      · exact hsame h
      · split at h
        · cases h
        · next u hu =>
          have hrows : acc'.1 = u := by
            split at h <;> exact congrArg Prod.fst (Except.ok.inj h).symm
          rw [hrows]
          intro card hcard
          cases Table.mem_upsert hu hcard with
          | inl hold => exact hacc card hold
          | inr hnew =>
            obtain ⟨hfilename, -, hname, hdescription⟩ := hnew
            constructor
            · rw [hname]
              exact parseCompanion_name hcompanion
            · constructor
              · exact hfilename ▸ hentry.filename_ne
              · exact hfilename ▸ hentry.filename_paren
              · exact hfilename ▸ hentry.filename_oneLine
              · exact hdescription ▸ hentry.description_oneLine
              · exact hdescription ▸ hentry.description_strip

theorem afterRun_parsed {t : Table} (ht : ∀ card ∈ t.rows, card.Parsed) (run : Run) :
    ∀ card ∈ (afterRun D bodyLooksLikeSecret t run).rows, card.Parsed := by
  rw [afterRun]
  split
  · next u report hok =>
    rw [ingestMemoryMd] at hok
    split at hok
    · cases hok
    · next text _ =>
      exact foldlM_ok_of_inv
        (I := fun acc => ∀ card ∈ acc.1.rows, card.Parsed)
        (fun acc entry hentry acc' hacc hstep =>
          ingestEntry_parsed (parseMemoryMd_parsed text entry hentry) hacc hstep) ht hok
  · exact ht

theorem afterRuns_parsed (runs : List Run) :
    ∀ card ∈ (afterRuns D bodyLooksLikeSecret runs).rows, card.Parsed := by
  induction runs using List.reverseRecOn with
  | nil => exact fun card hcard => absurd hcard List.not_mem_nil
  | append_singleton runs run ih =>
    rw [afterRuns, List.foldl_append]
    exact afterRun_parsed ih run

end Runs

end ParallaxKernel.MemoryCards
