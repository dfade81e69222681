import ParallaxKernel.Session.Hooks

/-!
# Links of file edits

The memory that a `file.edit` event is linked to is the first one that a scan comes by whose vault
path ends with the path, up to the case of ASCII. Every order of the scan links an edit to a related
memory, the very same path before others, exactly if of the memories of the user none ends with the
path but related ones, none but those of the path if there is one, and one does if one is related.
-/

namespace ParallaxKernel.Session

open Lib Store Prog

/-! ## Related paths -/

/-- The second path ends with the first one, from the boundary of a component on. -/
def EndsWithPath (tail path : PyStr) : Prop :=
  ∃ start, path = start ++ tail ∧
    (start.getLast? = some (.scalar '/') ∨ tail.head? = some (.scalar '/'))

/-- The paths are the same, or one ends with the other. -/
def Related (path vault : PyStr) : Prop :=
  path = vault ∨ EndsWithPath path vault ∨ EndsWithPath vault path

def ownMemories (db : Db) (userId : String) : List Memory :=
  db.memories.filter (·.userId == userId)

theorem mem_ownMemories {db : Db} {userId : String} {m : Memory} :
    m ∈ ownMemories db userId ↔ m ∈ db.memories ∧ m.userId = userId := by
  simp [ownMemories]

/-- What a link of an edit should be: to a related memory of the user, one of the very same path
if there is one, and to some memory if any is related. -/
structure LinksRight (db : Db) (userId : String) (path : PyStr)
    (link : Except Exc (Option Memory)) : Prop where
  sound : ∀ m, link = .ok (some m) → m ∈ db.memories ∧ m.userId = userId ∧
    Related path (.ofString m.vaultPath)
  preferred : ∀ m, link = .ok (some m) → ∀ n ∈ db.memories, n.userId = userId →
    .ofString n.vaultPath = path → .ofString m.vaultPath = path
  complete : ∀ n ∈ db.memories, n.userId = userId → Related path (.ofString n.vaultPath) →
    ∃ m, link = .ok (some m)

/-! ## What an edit is linked to -/

section Link

variable (T : HookEnv) (db : Db) (userId : String) (path : PyStr)

/-- The memory that a scan of the store finds for the path. -/
def linkedMemory : Except Exc (Option Memory) := do
  let text ← bindText path
  let pattern ← bindText (PyStr.ofString "%" ++ likeEscape (.ofString text))
  firstLinked T text pattern (T.scan (ownMemories db userId))

def linkTarget : Option Memory → Option String × Option String
  | none => (none, none)
  | some m => (some "memory", some m.memoryId)

/-- The pattern that a vault path is compared with. -/
def linkPattern (text : String) : String :=
  String.ofList ('%' :: text.toList.flatMap Like.escapeChar)

theorem bindText_linkPattern (text : String) :
    bindText (PyStr.ofString "%" ++ likeEscape (.ofString text)) = .ok (linkPattern text) := by
  have hchars : PyStr.ofString "%" ++ likeEscape (.ofString text) =
      .ofString (linkPattern text) := by
    simp only [PyStr.ofString, likeEscape_ofChars, linkPattern, String.toList_ofList]
    rfl
  rw [bindText_ok_iff, hchars, PyStr.encode?_ofString]

theorem bindText_ofString (text : String) : bindText (.ofString text) = .ok text := by
  rw [bindText_ok_iff, PyStr.encode?_ofString]

theorem linkedMemory_ofString (text : String) : linkedMemory T db userId (.ofString text) =
    firstLinked T text (linkPattern text) (T.scan (ownMemories db userId)) := by
  unfold linkedMemory
  rw [bindText_ofString]
  change (do
    let pattern ← bindText (PyStr.ofString "%" ++ likeEscape (.ofString text))
    firstLinked T text pattern (T.scan (ownMemories db userId))) = _
  rw [bindText_linkPattern]
  rfl

variable {path}

theorem linkedMemory_unencodable (h : path.encode? = none) :
    linkedMemory T db userId path = .error surrogatesNotAllowed := by
  unfold linkedMemory bindText
  rw [h]
  rfl

theorem exec_resolveTargetForFile (hpath : path ≠ []) (c : Conn Db) :
    (resolveTargetForFile T userId path).exec c =
      ((linkedMemory T c.view userId path).map linkTarget, c) := by
  unfold resolveTargetForFile
  rw [if_neg hpath]
  cases hencode : path.encode? with
  | none =>
    have hbind : bindText path = .error surrogatesNotAllowed := by rw [bindText, hencode]
    rw [linkedMemory_unencodable T c.view userId hencode, hbind]
    rfl
  | some text =>
    obtain rfl := PyStr.encode?_eq_some.1 hencode
    rw [linkedMemory_ofString, bindText_ofString]
    simp only [exec_bind, exec, bindText_linkPattern, exec_query, ownMemories]
    cases firstLinked T text (linkPattern text) (T.scan (c.view.memories.filter _)) with
    | error e => rfl
    | ok found => cases found <;> rfl

end Link

/-! ## What an edit is recorded as -/

/-- The call is one for a `PostToolUse` of a tool that edits the file of the path. -/
structure FileEdit (T : HookEnv) (a : HookArgs) (path : PyStr) : Prop where
  hookType : a.hookType = "PostToolUse"
  sessionId : a.sessionId ≠ []
  nonempty : path ≠ []
  payload : ∃ ms, a.payload = .obj ms ∧
    (∃ toolName, toolName = stripText (T.str
        ((PyJson.member? (.ofString "tool_name") ms).getD (.str []))) ∧ toolName ≠ [] ∧
      T.lower toolName ∈ ["edit", "write", "multiedit"].map PyStr.ofString) ∧
    ∃ p, filePath (.obj ms) = .ok p ∧ truthy p = true ∧ T.str p = path

/-- A call ends in the exception over the link, or records an event with the link if it returns. -/
structure RecordsLink (link : Except Exc (Option Memory)) (db : Db)
    (outcome : Except Exc String × Db) : Prop where
  raised : ∀ e, link = .error e → outcome = (.error e, db)
  recorded : ∀ found id db', link = .ok found → outcome = (.ok id, db') →
    ∃ e, db'.events = db.events ++ [e] ∧ e.eventId = id ∧ e.eventType = "file.edit" ∧
      (e.targetKind, e.targetId) = linkTarget found

theorem run_insertEvent_ok {row : Event} {db db' : Db} {id : String}
    (h : run (do insertEvent row; pure row.eventId : Sql String) db = (.ok id, db')) :
    db'.events = db.events ++ [row] ∧ row.eventId = id := by
  rw [run, exec_bind, exec_insertEvent] at h
  obtain ⟨x, hx⟩ | ⟨-, hins⟩ := insertEvent_cases row db
  · simp [Conn.view, hx] at h
  · simp only [Conn.view, Option.getD_none, hins, Conn.wrote_ok, exec_pure, Prod.mk.injEq,
      Except.ok.injEq] at h
    exact ⟨h.2 ▸ rfl, h.1⟩

theorem run_recordRow_ok {a : EventArgs} {row : Event} {db db' : Db} {id : String}
    (h : run (recordRow a row) db = (.ok id, db')) :
    db'.events = db.events ++ [row] ∧ row.eventId = id := by
  unfold recordRow at h
  split_ifs at h with hpair
  · simp [run] at h
  · cases ht : a.checkedTarget with
    | none =>
      rw [ht] at h
      exact run_insertEvent_ok h
    | some target =>
      obtain ⟨kind, id'⟩ := target
      rw [ht, run] at h
      simp only [exec_bind, targetRefExists_of_mem (a.mem_of_checkedTarget ht), exec_query] at h
      split_ifs at h with hfound
      · exact run_insertEvent_ok h
      · simp at h

theorem run_recordHook_ok {a : HookArgs} {eventType : String}
    {target : Option String × Option String} {payload : List (PyStr × PyJson)} {stamp : Stamp}
    {db db' : Db} {id : String}
    (h : run (recordHook a (.ofString eventType) target payload stamp) db = (.ok id, db')) :
    ∃ e, db'.events = db.events ++ [e] ∧ e.eventId = id ∧ e.eventType = eventType ∧
      (e.targetKind, e.targetId) = target := by
  unfold recordHook at h
  rw [run, exec_bind, bindText_ofString] at h
  cases hsession : bindText a.sessionId with
  | error e =>
    rw [hsession] at h
    cases h
  | ok sessionId =>
    rw [hsession] at h
    obtain ⟨hevents, hid⟩ := run_recordRow_ok h
    exact ⟨_, hevents, hid, rfl, rfl⟩

variable {T : HookEnv} {a : HookArgs} {path : PyStr}

theorem FileEdit.ingestHook_eq (h : FileEdit T a path) (stamp : Stamp) :
    ∃ ms p, filePath (.obj ms) = .ok p ∧ truthy p = true ∧ T.str p = path ∧
      ingestHook T a stamp = ingestFileEdit T a ms stamp := by
  obtain ⟨ms, hpayload, ⟨toolName, hname, hne, hedit⟩, p, hp⟩ := h.payload
  refine ⟨ms, p, hp.1, hp.2.1, hp.2.2, ?_⟩
  have hempty : a.hookType ≠ "" := by
    rw [h.hookType]
    decide
  have hlookup : hookToEventType.lookup a.hookType = none := by
    rw [h.hookType]
    rfl
  have htype : fileEditEventType T a.hookType toolName = .ofString "file.edit" := by
    rw [fileEditEventType, if_pos ⟨h.hookType, hedit⟩]
  unfold ingestHook
  rw [if_neg hempty, if_neg h.sessionId, hpayload]
  dsimp only
  rw [hlookup]
  dsimp only
  rw [← hname, if_pos (.inr h.hookType), if_neg hne, if_pos htype]

/-- An edit is recorded with what a scan of the store finds for its path. -/
theorem FileEdit.recordsLink (h : FileEdit T a path) (db : Db) (stamp : Stamp) :
    RecordsLink (linkedMemory T db a.userId path) db (run (ingestHook T a stamp) db) := by
  obtain ⟨ms, p, hp, htruthy, rfl, hrun⟩ := h.ingestHook_eq stamp
  have hlink : (resolveTargetForFile T a.userId (T.str p)).exec ⟨db, none⟩ =
      ((linkedMemory T db a.userId (T.str p)).map linkTarget, ⟨db, none⟩) :=
    exec_resolveTargetForFile T a.userId h.nonempty ⟨db, none⟩
  have hpath : (if truthy p then T.str p else []) = T.str p := if_pos htruthy
  rw [hrun, ingestFileEdit, hp]
  constructor
  · intro e he
    rw [he] at hlink
    simp only [run, exec_bind, exec, hpath, hlink, Except.map]
  · intro found id db' hfound hok
    obtain ⟨text, htext⟩ : ∃ text, (T.str p).encode? = some text := by
      rw [← Option.isSome_iff_exists, Option.isSome_iff_ne_none]
      intro hnone
      rw [linkedMemory_unencodable T db a.userId hnone] at hfound
      cases hfound
    rw [hfound] at hlink
    simp only [run, exec_bind, exec, hpath, hlink, Except.map, bindText_ok_iff.2 htext] at hok
    exact run_recordHook_ok hok

/-! ## When an edit is linked right -/

/-- The environment with another order of its scans. -/
def HookEnv.scanning (T : HookEnv) (scan : List Memory → List Memory)
    (hscan : ∀ rows, (scan rows).Perm rows) : HookEnv :=
  { T with scan := scan, scan_perm := hscan }

@[simp] theorem HookEnv.scanning_like (T : HookEnv) (scan : List Memory → List Memory)
    (hscan : ∀ rows, (scan rows).Perm rows) : (T.scanning scan hscan).like = T.like := rfl

/-- The vault path is the path, or ends with it as the engine compares texts: up to their first
`NUL`, the letters of ASCII taken alike. -/
def Found (text : String) (m : Memory) : Prop :=
  m.vaultPath = text ∨ (Fts.cString text.toList).map Like.fold <:+
    (Fts.cString m.vaultPath.toList).map Like.fold

/-- Where the pattern for a path is short enough: of the memories only related ones end with the
path, only those of the path if there is one, and one does if one is related. -/
structure LinkedBySuffix (text : String) (own : List Memory) : Prop where
  bounded : ∀ m ∈ own, Found text m → Related (.ofString text) (.ofString m.vaultPath)
  unrivalled : ∀ n ∈ own, n.vaultPath = text → ∀ m ∈ own, Found text m → m.vaultPath = text
  found : ∀ n ∈ own, Related (.ofString text) (.ofString n.vaultPath) → ∃ m ∈ own, Found text m

/-- No memory is related to a path that cannot be bound. None is to one with a pattern that is too
long either, or all are of that path. Any other path is linked by the ends of the vault paths. -/
def Linkable (path : PyStr) (own : List Memory) : Prop :=
  match path.encode? with
  | none => ∀ m ∈ own, ¬ Related path (.ofString m.vaultPath)
  | some text =>
    if tooComplex (linkPattern text) then
      (∀ m ∈ own, ¬ Related path (.ofString m.vaultPath)) ∨ ∀ m ∈ own, m.vaultPath = text
    else LinkedBySuffix text own

section Scan

variable {T : HookEnv} {db : Db} {userId : String} {text : String}

theorem found_iff (hlike : T.like = Like.like (some '\\')) (m : Memory) :
    Found text m ↔ m.vaultPath = text ∨ T.like (linkPattern text) m.vaultPath = true := by
  rw [hlike, linkPattern, Like.like_endsWith, Found]

/-- A scan with a short pattern finds its first row that matches. -/
theorem firstLinked_short (hlike : T.like = Like.like (some '\\'))
    (hshort : tooComplex (linkPattern text) = false) (rows : List Memory) :
    (firstLinked T text (linkPattern text) rows = .ok none ∧ ∀ m ∈ rows, ¬ Found text m) ∨
    ∃ m ∈ rows, Found text m ∧ firstLinked T text (linkPattern text) rows = .ok (some m) := by
  induction rows with
  | nil => exact .inl ⟨rfl, by simp⟩
  | cons m rows ih =>
    have hfound : Found text m ↔
        m.vaultPath = text ∨ T.like (linkPattern text) m.vaultPath = true := found_iff hlike m
    unfold firstLinked
    rw [hshort]
    by_cases hm : Found text m
    · refine .inr ⟨m, List.mem_cons_self, hm, ?_⟩
      obtain hpath | hmatch := hfound.1 hm
      · rw [if_pos hpath]
      · simp [hmatch]
    · have hskip := mt hfound.2 hm
      rw [not_or] at hskip
      rw [if_neg hskip.1, if_neg (by decide), if_neg hskip.2]
      obtain ⟨hnone, hrows⟩ | ⟨n, hn, hmatch, hsome⟩ := ih
      · exact .inl ⟨hnone, by simpa [hm] using hrows⟩
      · exact .inr ⟨n, List.mem_cons_of_mem m hn, hmatch, hsome⟩

/-- With a pattern that is too long only a first row of the very path is found. -/
theorem firstLinked_long (hlong : tooComplex (linkPattern text) = true) (rows : List Memory) :
    rows = [] ∧ firstLinked T text (linkPattern text) rows = .ok none ∨
    (∃ m ∈ rows, m.vaultPath ≠ text) ∧
      firstLinked T text (linkPattern text) rows = .error patternTooComplex ∨
    ∃ m ∈ rows, m.vaultPath = text ∧ firstLinked T text (linkPattern text) rows = .ok (some m) := by
  cases rows with
  | nil => exact .inl ⟨rfl, rfl⟩
  | cons m rows =>
    unfold firstLinked
    by_cases hpath : m.vaultPath = text
    · rw [if_pos hpath]
      exact .inr (.inr ⟨m, List.mem_cons_self, hpath, rfl⟩)
    · rw [if_neg hpath, if_pos hlong]
      exact .inr (.inl ⟨⟨m, List.mem_cons_self, hpath⟩, rfl⟩)

theorem mem_scan {m : Memory} : m ∈ T.scan (ownMemories db userId) ↔
    m ∈ db.memories ∧ m.userId = userId := by
  rw [(T.scan_perm _).mem_iff, mem_ownMemories]

theorem ofString_inj {s t : String} : PyStr.ofString s = .ofString t ↔ s = t := by
  constructor
  · intro h
    have hencode := congrArg PyStr.encode? h
    rw [PyStr.encode?_ofString, PyStr.encode?_ofString] at hencode
    exact Option.some.inj hencode
  · rintro rfl
    rfl

theorem linksRight_short (hlike : T.like = Like.like (some '\\'))
    (hshort : tooComplex (linkPattern text) = false)
    (h : LinkedBySuffix text (ownMemories db userId)) :
    LinksRight db userId (.ofString text) (linkedMemory T db userId (.ofString text)) := by
  rw [linkedMemory_ofString]
  obtain ⟨hnone, hmiss⟩ | ⟨m, hm, hmatch, hsome⟩ :=
    firstLinked_short hlike hshort (T.scan (ownMemories db userId))
  · rw [hnone]
    refine ⟨fun m hm => by simp at hm, fun m hm => by simp at hm, ?_⟩
    intro n hn huser hrelated
    obtain ⟨m, hm, hmatch⟩ := h.found n (mem_ownMemories.2 ⟨hn, huser⟩) hrelated
    exact absurd hmatch (hmiss m (mem_scan.2 (mem_ownMemories.1 hm)))
  · have hown := mem_ownMemories.2 (mem_scan.1 hm)
    rw [hsome]
    constructor
    · rintro m' ⟨⟩
      exact ⟨(mem_scan.1 hm).1, (mem_scan.1 hm).2, h.bounded m hown hmatch⟩
    · rintro m' ⟨⟩ n hn huser hpath
      have hexact := h.unrivalled n (mem_ownMemories.2 ⟨hn, huser⟩) (ofString_inj.1 hpath) m hown
      rw [hexact hmatch]
    · intro n hn huser hrelated
      exact ⟨m, rfl⟩

theorem linksRight_long (hlong : tooComplex (linkPattern text) = true)
    (h : (∀ m ∈ ownMemories db userId, ¬ Related (.ofString text) (.ofString m.vaultPath)) ∨
      ∀ m ∈ ownMemories db userId, m.vaultPath = text) :
    LinksRight db userId (.ofString text) (linkedMemory T db userId (.ofString text)) := by
  rw [linkedMemory_ofString]
  obtain ⟨hempty, hnone⟩ | ⟨⟨m, hm, hother⟩, herror⟩ | ⟨m, hm, hpath, hsome⟩ :=
    firstLinked_long hlong (T.scan (ownMemories db userId))
  · rw [hnone]
    refine ⟨fun m hm => by simp at hm, fun m hm => by simp at hm, ?_⟩
    intro n hn huser hrelated
    have hmem : n ∈ T.scan (ownMemories db userId) := mem_scan.2 ⟨hn, huser⟩
    rw [hempty] at hmem
    cases hmem
  · rw [herror]
    refine ⟨fun m hm => by simp at hm, fun m hm => by simp at hm, ?_⟩
    intro n hn huser hrelated
    obtain hnone | hall := h
    · exact absurd hrelated (hnone n (mem_ownMemories.2 ⟨hn, huser⟩))
    · exact absurd (hall m (mem_ownMemories.2 (mem_scan.1 hm))) hother
  · rw [hsome]
    constructor
    · rintro m' ⟨⟩
      exact ⟨(mem_scan.1 hm).1, (mem_scan.1 hm).2, .inl (by rw [hpath])⟩
    · rintro m' ⟨⟩ n hn huser hexact
      rw [hpath]
    · intro n hn huser hrelated
      exact ⟨m, rfl⟩

theorem linksRight_of_linkable (hlike : T.like = Like.like (some '\\')) {path : PyStr}
    (h : Linkable path (ownMemories db userId)) :
    LinksRight db userId path (linkedMemory T db userId path) := by
  unfold Linkable at h
  cases hencode : path.encode? with
  | none =>
    rw [hencode] at h
    rw [linkedMemory_unencodable T db userId hencode]
    refine ⟨fun m hm => by simp at hm, fun m hm => by simp at hm, ?_⟩
    intro n hn huser hrelated
    exact absurd hrelated (h n (mem_ownMemories.2 ⟨hn, huser⟩))
  | some text =>
    rw [hencode] at h
    obtain rfl := PyStr.encode?_eq_some.1 hencode
    dsimp only at h
    split_ifs at h with hlong
    · exact linksRight_long hlong h
    · exact linksRight_short hlike (by simpa using hlong) h

/-! ### Scans in any order -/

/-- The scan that comes by one of its rows before the others. -/
def scanFirst (m : Memory) (rows : List Memory) : List Memory :=
  if m ∈ rows then m :: rows.erase m else rows

theorem scanFirst_perm (m : Memory) (rows : List Memory) : (scanFirst m rows).Perm rows := by
  unfold scanFirst
  split_ifs with hm
  · exact (List.perm_cons_erase hm).symm
  · exact .refl rows

/-- What a scan finds that comes by a memory of the user first. -/
theorem linkedMemory_scanFirst {m : Memory} (hm : m ∈ ownMemories db userId) :
    linkedMemory (T.scanning (scanFirst m) (scanFirst_perm m)) db userId (.ofString text) =
      firstLinked (T.scanning (scanFirst m) (scanFirst_perm m)) text (linkPattern text)
        (m :: (ownMemories db userId).erase m) := by
  rw [linkedMemory_ofString]
  congr 1
  exact if_pos hm

variable {path : PyStr}

theorem linkable_of_linksRight (hlike : T.like = Like.like (some '\\'))
    (h : ∀ scan hscan, LinksRight db userId path
      (linkedMemory (T.scanning scan hscan) db userId path)) :
    Linkable path (ownMemories db userId) := by
  unfold Linkable
  have hself : LinksRight db userId path (linkedMemory T db userId path) := h T.scan T.scan_perm
  cases hencode : path.encode? with
  | none =>
    intro m hm hrelated
    obtain ⟨hmem, huser⟩ := mem_ownMemories.1 hm
    obtain ⟨found, hfound⟩ := hself.complete m hmem huser hrelated
    rw [linkedMemory_unencodable T db userId hencode] at hfound
    cases hfound
  | some text =>
    obtain rfl := PyStr.encode?_eq_some.1 hencode
    dsimp only
    split_ifs with hlong
    · by_cases hall : ∀ m ∈ ownMemories db userId, m.vaultPath = text
      · exact .inr hall
      · push Not at hall
        obtain ⟨n, hn, hother⟩ := hall
        refine .inl fun m hm hrelated => ?_
        obtain ⟨hmem, huser⟩ := mem_ownMemories.1 hm
        obtain ⟨found, hfound⟩ := (h (scanFirst n) (scanFirst_perm n)).complete m hmem huser hrelated
        rw [linkedMemory_scanFirst hn, firstLinked, if_neg hother, if_pos hlong] at hfound
        cases hfound
    · have hshort : tooComplex (linkPattern text) = false := by simpa using hlong
      have hhead (m : Memory) (hm : m ∈ ownMemories db userId) (hmatch : Found text m) :
          linkedMemory (T.scanning (scanFirst m) (scanFirst_perm m)) db userId (.ofString text) =
            .ok (some m) := by
        rw [linkedMemory_scanFirst hm, firstLinked, hshort]
        obtain hpath | hpath := (found_iff hlike m).1 hmatch
        · simp [hpath]
        · simp [hpath]
      constructor
      · intro m hm hmatch
        exact ((h (scanFirst m) (scanFirst_perm m)).sound m (hhead m hm hmatch)).2.2
      · intro n hn hexact m hm hmatch
        obtain ⟨hmem, huser⟩ := mem_ownMemories.1 hn
        have hpath := (h (scanFirst m) (scanFirst_perm m)).preferred m (hhead m hm hmatch) n hmem
          huser (by rw [hexact])
        exact ofString_inj.1 hpath
      · intro n hn hrelated
        obtain ⟨hmem, huser⟩ := mem_ownMemories.1 hn
        obtain ⟨m, hm⟩ := hself.complete n hmem huser hrelated
        rw [linkedMemory_ofString] at hm
        obtain ⟨hnone, -⟩ | ⟨m', hm', hmatch, -⟩ :=
          firstLinked_short hlike hshort (T.scan (ownMemories db userId))
        · rw [hnone] at hm
          cases hm
        · exact ⟨m', mem_ownMemories.2 (mem_scan.1 hm'), hmatch⟩

/-- An edit is recorded with what a scan finds, and whatever the order of the scan, this is right
exactly if the path can be linked among the memories of the user. -/
theorem file_edit_links_iff (hlike : T.like = Like.like (some '\\')) (db : Db) {a : HookArgs}
    (hedit : FileEdit T a path) :
    (∀ scan hscan stamp, RecordsLink (linkedMemory (T.scanning scan hscan) db a.userId path) db
      (run (ingestHook (T.scanning scan hscan) a stamp) db)) ∧
    ((∀ scan hscan, LinksRight db a.userId path
        (linkedMemory (T.scanning scan hscan) db a.userId path)) ↔
      Linkable path (ownMemories db a.userId)) := by
  refine ⟨fun scan hscan stamp => ?_, linkable_of_linksRight hlike, fun h scan hscan => ?_⟩
  · exact FileEdit.recordsLink (T := T.scanning scan hscan)
      ⟨hedit.hookType, hedit.sessionId, hedit.nonempty, hedit.payload⟩ db stamp
  · exact linksRight_of_linkable (T := T.scanning scan hscan) hlike h

/-! ### Paths that end alike -/

/-- The environment with the engine's own `LIKE`. -/
def linkEnv : HookEnv := { sampleEnv with like := Like.like (some '\\') }

def editOf (path : String) : HookArgs where
  hookType := "PostToolUse"
  sessionId := .ofString "s1"
  payload := .obj [(.ofString "tool_name", .str (.ofString "Edit")),
    (.ofString "tool_input", .obj [(.ofString "file_path", .str (.ofString path))])]
  userId := "u"
  actor := "claude-code"

theorem fileEdit_editOf (path : String) (h : PyStr.ofString path ≠ []) :
    FileEdit linkEnv (editOf path) (.ofString path) := by
  have htruthy : truthy (.str (.ofString path)) = true := by
    simpa [truthy] using h
  refine ⟨rfl, by simp [editOf, PyStr.ofString, PyStr.ofChars], h, _, rfl,
    ⟨.ofString "Edit", by rfl, by decide, by decide⟩, .str (.ofString path), ?_, htruthy, rfl⟩
  change (if truthy (.str (.ofString path)) then Except.ok _ else _) = _
  rw [if_pos htruthy]
  rfl

/-- A store with one memory of the user. -/
def vaultStore (vaultPath : String) : Db :=
  { Db.empty with
    memories := [⟨"m1", "u", none, vaultPath, none, none, "", "active", "", ""⟩] }

/-- A path that the vault path ends with is linked to it. -/
theorem file_edit_links_sample : LinksRight (vaultStore "/repo/src/a.py") "u"
    (.ofString "src/a.py") (linkedMemory (linkEnv.scanning id fun rows => List.Perm.refl rows)
      (vaultStore "/repo/src/a.py") "u" (.ofString "src/a.py")) := by
  have hedit := fileEdit_editOf "src/a.py" (by decide)
  refine (file_edit_links_iff (T := linkEnv) rfl (vaultStore "/repo/src/a.py") hedit).2.2 ?_ id
    fun rows => List.Perm.refl rows
  have hrelated : Related (.ofString "src/a.py") (.ofString "/repo/src/a.py") :=
    .inr (.inl ⟨.ofString "/repo/", by decide, by decide⟩)
  have hshort : tooComplex (linkPattern "src/a.py") = false := by decide
  have hown : ownMemories (vaultStore "/repo/src/a.py") (editOf "src/a.py").userId =
      (vaultStore "/repo/src/a.py").memories := by
    rfl
  unfold Linkable
  rw [PyStr.encode?_ofString, hown]
  dsimp only
  rw [if_neg (by simp [hshort])]
  constructor
  · intro m hm hmatch
    obtain rfl := List.mem_singleton.1 hm
    exact hrelated
  · intro n hn hexact m hm hmatch
    obtain rfl := List.mem_singleton.1 hn
    exact absurd hexact (by decide)
  · intro n hn hn'
    exact ⟨n, hn, .inr (by obtain rfl := List.mem_singleton.1 hn; decide)⟩

/-- A path is linked to another one that ends with the same characters, and an absolute one is not
linked to its own relative one. -/
theorem file_edit_links_wrong :
    FileEdit linkEnv (editOf "foo.py") (.ofString "foo.py") ∧
    (run (ingestHook linkEnv (editOf "foo.py") sampleStamp)
      (vaultStore "barfoo.py")).2.events.map (·.targetId) = [some "m1"] ∧
    ¬ Related (.ofString "foo.py") (.ofString "barfoo.py") ∧
    FileEdit linkEnv (editOf "/repo/src/a.py") (.ofString "/repo/src/a.py") ∧
    (run (ingestHook linkEnv (editOf "/repo/src/a.py") sampleStamp)
      (vaultStore "src/a.py")).2.events.map (·.targetId) = [none] ∧
    Related (.ofString "/repo/src/a.py") (.ofString "src/a.py") := by
  refine ⟨fileEdit_editOf _ (by decide), by rfl, ?_, fileEdit_editOf _ (by decide), by rfl,
    .inr (.inr ⟨.ofString "/repo/", by decide, by decide⟩)⟩
  rintro (heq | ⟨start, hsplit, hbound⟩ | ⟨start, hsplit, hbound⟩)
  · exact absurd heq (by decide)
  · have hstart : start = .ofString "bar" :=
      List.append_cancel_right (hsplit.symm.trans (by decide))
    subst hstart
    exact absurd hbound (by decide)
  · have hlength := congrArg List.length hsplit
    rw [List.length_append] at hlength
    have hshort : (PyStr.ofString "foo.py").length < (PyStr.ofString "barfoo.py").length := by decide
    omega

end Scan

end ParallaxKernel.Session
