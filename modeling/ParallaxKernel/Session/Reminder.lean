import Mathlib.Data.List.Induction
import Mathlib.Data.String.Basic
import ParallaxKernel.Lib.Runs
import ParallaxKernel.Session.Hooks

/-!
# The session reminder

`injector.py`. The reminder reads the payloads that the log was given without a look at their
shape. It is built exactly if the payloads it gets to are shaped as tool calls are, the paths it
searches for can be searched for, and its own arguments can be bound; what is built then keeps to
its frame and its length.
-/

namespace ParallaxKernel.Session

open Lib Store Prog

/-! ## Recently modified files -/

/-- What a set tells values apart by: equal numbers are one number, whatever their types. -/
inductive HashKey where
  | text (s : PyStr)
  | number (q : ℚ)
  | inf
  | negInf
  | nan
  | none
  deriving DecidableEq

/-- The key of a hashable value, and its `str`. -/
def hashed? : PyJson → Option (HashKey × PyStr)
  | .null => some (.none, .ofString "None")
  | .bool b => some (.number (if b then 1 else 0), .ofString (if b then "True" else "False"))
  | .int n => some (.number n, .ofChars (Json.intChars n))
  | .float (.finite lit) => some (.number lit.value, .ofChars lit.chars)
  | .float .inf => some (.inf, .ofString "inf")
  | .float .negInf => some (.negInf, .ofString "-inf")
  | .float .nan => some (.nan, .ofString "nan")
  | .str s => some (.text s, s)
  | .arr _ => none
  | .obj _ => none

def unhashable (value : PyJson) : Exc := .typeError ("unhashable type: '" ++ typeName value ++ "'")

/-- The path that a row names, to be looked up among those seen. -/
def readFile (e : Event) : Except Exc (Option (HashKey × PyStr)) :=
  match PyJson.loads e.payloadJson with
  | none => .ok none
  | some payload =>
    match filePath payload with
    | .error err => .error err
    | .ok p =>
      if !truthy p then .ok none
      else
        match hashed? p with
        | none => .error (unhashable p)
        | some file => .ok (some file)

/-- The loop of `_recent_files` over the rows, with the paths found so far. -/
def scanFiles (limit : Nat) : List Event → List HashKey → List PyStr → Except Exc (List PyStr)
  | [], _, paths => .ok paths
  | e :: rows, seen, paths =>
    match readFile e with
    | .error err => .error err
    | .ok none => scanFiles limit rows seen paths
    | .ok (some (key, text)) =>
      if key ∈ seen then scanFiles limit rows seen paths
      else if limit ≤ paths.length + 1 then .ok (paths ++ [text])
      else scanFiles limit rows (key :: seen) (paths ++ [text])

/-- An integer that is bound to a parameter of a statement. -/
def bindInt (n : Nat) : Except Exc Nat :=
  if n < 2 ^ 63 then .ok n
  else .error (.overflowError "Python int too large to convert to SQLite INTEGER")

section Build

variable (E : Engine) (db : Db)

/-- The file events of the latest session, or of all sessions if none has started. -/
def sessionFileEvents (userId : String) : List Event :=
  let session := latestSessionId E db userId
  E.newest (db.events.filter fun e => e.userId == userId &&
    (session.isNone || e.sessionId == session) && fileEventTypes.contains e.eventType)

def recentFiles (userId : String) (limit : Nat) : Except Exc (List PyStr) := do
  let rows ← bindInt (limit * 4)
  scanFiles limit ((sessionFileEvents E db userId).take rows) [] []

/-! ## Rendering -/

def renderSection (title : String) (entries : List PyStr) : List PyStr :=
  .ofString (title ++ ":") ::
    if entries = [] then [.ofString "  (none)"]
    else entries.map fun e => .ofString "  - " ++ e

/-- `"\n".join(lines)`. -/
def joinLines : List PyStr → PyStr
  | [] => []
  | [line] => line
  | line :: lines => line ++ .scalar '\n' :: joinLines lines

/-- `_TRUNCATED_SUFFIX`. -/
def truncatedSuffix : PyStr := .ofString "... (truncated)"

/-- The suffix and the newline before it. -/
def markerBudget : Nat := truncatedSuffix.length + 1

/-- Drops trailing lines until the rest and the marker fit, but not the first line. -/
def popLines (cap : Nat) (lines : List PyStr) : List PyStr :=
  if 1 < lines.length ∧ cap < (joinLines lines).length + markerBudget then
    popLines cap lines.dropLast
  else lines
termination_by lines.length
decreasing_by simp; omega

/-- `_trim_to_cap`. -/
def trimToCap (lines : List PyStr) (cap : Nat) : PyStr :=
  if (joinLines lines).length ≤ cap then joinLines lines
  else
    let out := joinLines (popLines cap lines)
    let out := if cap < out.length + markerBudget then out.take (cap - markerBudget) else out
    out ++ .scalar '\n' :: truncatedSuffix

/-- `MAX_REMINDER_CHARS`. -/
def maxReminderChars : Nat := 2000

def openTag : PyStr := .ofString "<system-reminder>\n"
def closeTag : PyStr := .ofString "\n</system-reminder>"

/-- The length of the two tags with one newline between them. -/
def wrapperLen : Nat := (PyStr.ofString "<system-reminder>\n</system-reminder>").length

/-- The arguments of `build_session_reminder`. -/
structure ReminderArgs where
  userId : PyStr
  sessionId : Option PyStr
  maxHits : Nat

/-- `max(3, max_hits // 2)`. -/
def ReminderArgs.fileLimit (a : ReminderArgs) : Nat := max 3 (a.maxHits / 2)

def hitLine (h : Hit) : PyStr :=
  .ofString (h.title ++ "  (score=" ++ E.scoreText h.score ++ ")")

/-- The lines on the hits for a session, if one is asked for. -/
def contextLines (userId : String) (a : ReminderArgs) : Except Exc (List PyStr) :=
  match a.sessionId with
  | none => .ok []
  | some session => do
    let session ← bindText session
    let limit ← bindInt a.maxHits
    .ok (((recentContext E db userId (some session) limit).take 3).map (hitLine E))

/-- The first hit for each path. -/
def fileHitLines (userId : String) : List PyStr → Except Exc (List PyStr)
  | [] => .ok []
  | p :: paths => do
    let hits ← byFile E db userId p 1
    let lines ← fileHitLines userId paths
    .ok (match hits with
      | [] => lines
      | h :: _ => (p ++ .ofString (" → " ++ h.title)) :: lines)

def buildSessionReminder (a : ReminderArgs) : Except Exc PyStr := do
  let userId ← bindText a.userId
  let files ← recentFiles E db userId a.fileLimit
  let decisionLines := (byDecision E db userId 3).map (hitLine E)
  let ctxLines ← contextLines E db userId a
  let extra ← fileHitLines E db userId (files.take 3)
  let inner := renderSection "Recently modified files" (files.take a.fileLimit) ++
    renderSection "Last 3 decisions" decisionLines ++
    (if ctxLines = [] then [] else renderSection "Recent context" ctxLines) ++
    (if extra = [] then [] else renderSection "Top file-edit hit" extra)
  .ok (openTag ++ trimToCap inner (maxReminderChars - wrapperLen - 2) ++ closeTag)

end Build

/-! ## The frame and the length -/

/-- The text is in its tags, opens with the file section and is not too long. -/
structure IsReminder (text : PyStr) : Prop where
  length_le : text.length ≤ 2000
  framed : ∃ body, text = openTag ++ body ++ closeTag ∧
    PyStr.ofString "Recently modified files:\n" <+: body

theorem joinLines_cons {line : PyStr} {lines : List PyStr} (h : lines ≠ []) :
    joinLines (line :: lines) = line ++ .scalar '\n' :: joinLines lines := by
  cases lines with
  | nil => exact absurd rfl h
  | cons l lines => rfl

theorem popLines_cons (cap : Nat) (line : PyStr) (lines : List PyStr) :
    ∃ rest, popLines cap (line :: lines) = line :: rest ∧
      (rest = [] ∨ (joinLines (line :: rest)).length + markerBudget ≤ cap) := by
  induction lines using List.reverseRecOn with
  | nil =>
    refine ⟨[], ?_, .inl rfl⟩
    rw [popLines, if_neg]
    simp
  | append_singleton lines last ih =>
    rw [popLines]
    split_ifs with hlong
    · have hdrop : (line :: (lines ++ [last])).dropLast = line :: lines := by
        rw [← List.cons_append, List.dropLast_concat]
      rw [hdrop]
      exact ih
    · refine ⟨lines ++ [last], rfl, .inr ?_⟩
      simp only [List.length_cons, List.length_append, List.length_nil] at hlong
      omega

theorem trimToCap_length_le (lines : List PyStr) {cap : Nat} (hcap : markerBudget ≤ cap) :
    (trimToCap lines cap).length ≤ cap := by
  have hbudget : truncatedSuffix.length + 1 = markerBudget := rfl
  unfold trimToCap
  split_ifs with hfits
  · exact hfits
  · dsimp only
    rw [List.length_append, List.length_cons]
    split_ifs with hslice
    · rw [List.length_take]
      omega
    · omega

/-- The first line stays whole if it fits with the marker. -/
theorem trimToCap_prefix {line : PyStr} {lines : List PyStr} {cap : Nat} (hne : lines ≠ [])
    (hfits : line.length + markerBudget ≤ cap) :
    line ++ [.scalar '\n'] <+: trimToCap (line :: lines) cap := by
  have hjoined {rest : List PyStr} (hrest : rest ≠ []) (tail : PyStr) :
      line ++ [.scalar '\n'] <+: joinLines (line :: rest) ++ tail := by
    rw [joinLines_cons hrest]
    exact ⟨joinLines rest ++ tail, by simp⟩
  unfold trimToCap
  split_ifs with hall
  · simpa using hjoined hne []
  · obtain ⟨rest, hpop, hrest⟩ := popLines_cons cap line lines
    have hslice : ¬ cap < (joinLines (line :: rest)).length + markerBudget := by
      cases hrest with
      | inl hnil =>
        subst hnil
        exact Nat.not_lt.2 hfits
      | inr hle => exact Nat.not_lt.2 hle
    dsimp only
    rw [hpop, if_neg hslice]
    by_cases hnil : rest = []
    · subst hnil
      exact ⟨truncatedSuffix, by simp [joinLines]⟩
    · exact hjoined hnil _

/-- Whatever the sections say, the text keeps to its frame and its length. -/
theorem isReminder_frame (files : List PyStr) (sections : List PyStr) :
    IsReminder (openTag ++ trimToCap (renderSection "Recently modified files" files ++ sections)
      (maxReminderChars - wrapperLen - 2) ++ closeTag) := by
  have hcap : maxReminderChars - wrapperLen - 2 = 1962 := by decide
  have htags : openTag.length + closeTag.length = 37 := by decide
  have hbudget : markerBudget = 16 := by decide
  have htitle : (PyStr.ofString ("Recently modified files" ++ ":")).length = 24 := by decide
  constructor
  · have hlen := trimToCap_length_le (renderSection "Recently modified files" files ++ sections)
      (hbudget ▸ hcap ▸ (by decide : 16 ≤ 1962))
    simp only [List.length_append]
    omega
  · refine ⟨_, rfl, ?_⟩
    have hline : PyStr.ofString "Recently modified files:\n" =
        PyStr.ofString ("Recently modified files" ++ ":") ++ [.scalar '\n'] := by decide
    rw [hline, renderSection, List.cons_append]
    apply trimToCap_prefix
    · split_ifs with hnone
      · simp
      · simp [hnone]
    · omega

/-! ## Payloads that can be read -/

/-- The member of a dictionary, `None` where there is none. -/
def field (value : PyJson) (key : String) : PyJson :=
  match value with
  | .obj ms => (PyJson.member? (.ofString key) ms).getD .null
  | _ => .null

/-- The path that a payload shaped as a tool call names. -/
def namedPath (payload : PyJson) : PyJson :=
  let toolInput := orElse (field payload "tool_input") (.obj [])
  orElse (field toolInput "file_path")
    (orElse (field toolInput "path") (field payload "file_path"))

/-- A payload shaped as that of a tool call: a dictionary whose `tool_input` is one if there is any,
and whose path is neither a list nor a dictionary. -/
structure WellShaped (payload : PyJson) : Prop where
  payload_obj : ∃ ms, payload = .obj ms
  toolInput_obj : truthy (field payload "tool_input") = true →
    ∃ ms, field payload "tool_input" = .obj ms
  path_hashable : truthy (namedPath payload) = true →
    (hashed? (namedPath payload)).isSome = true

theorem get_ok_iff {value x : PyJson} {key : String} :
    get value key = .ok x ↔ (∃ ms, value = .obj ms) ∧ x = field value key := by
  cases value with
  | obj ms => simp [get, field, eq_comm]
  | _ => simp [get]

theorem orElse_obj_iff {value : PyJson} :
    (∃ ms, orElse value (.obj []) = .obj ms) ↔ (truthy value = true → ∃ ms, value = .obj ms) := by
  unfold orElse
  split_ifs with h <;> simp [h]

theorem filePath_of_obj {payload : PyJson} (hpayload : ∃ ms, payload = .obj ms)
    (htool : ∃ ms, orElse (field payload "tool_input") (.obj []) = .obj ms) :
    filePath payload = .ok (namedPath payload) := by
  have hget (key : String) : get payload key = .ok (field payload key) :=
    get_ok_iff.2 ⟨hpayload, rfl⟩
  have hgetTool (key : String) : get (orElse (field payload "tool_input") (.obj [])) key =
      .ok (field (orElse (field payload "tool_input") (.obj [])) key) :=
    get_ok_iff.2 ⟨htool, rfl⟩
  unfold filePath namedPath
  simp only [hget, hgetTool, bind, Except.bind]
  unfold orElse
  split_ifs <;> rfl

theorem filePath_ok_iff {payload p : PyJson} : filePath payload = .ok p ↔
    (∃ ms, payload = .obj ms) ∧
    (truthy (field payload "tool_input") = true →
      ∃ ms, field payload "tool_input" = .obj ms) ∧
    p = namedPath payload := by
  rw [← orElse_obj_iff]
  constructor
  · intro h
    obtain ⟨toolInput, htool, hrest⟩ := except_bind_eq_ok.1 h
    obtain ⟨hpayload, rfl⟩ := get_ok_iff.1 htool
    obtain ⟨path, hpath, -⟩ := except_bind_eq_ok.1 hrest
    obtain ⟨hobj, -⟩ := get_ok_iff.1 hpath
    rw [filePath_of_obj hpayload hobj] at h
    exact ⟨hpayload, hobj, (Except.ok.inj h).symm⟩
  · rintro ⟨hpayload, htool, rfl⟩
    exact filePath_of_obj hpayload htool

/-- An event whose payload is no text of a value, or of a well-shaped one. -/
def Legible (e : Event) : Prop :=
  ∀ payload, PyJson.loads e.payloadJson = some payload → WellShaped payload

/-- The file that an event names, if its payload can be read. -/
def fileOf (e : Event) : Option (HashKey × PyStr) :=
  (PyJson.loads e.payloadJson).bind fun payload =>
    if truthy (namedPath payload) then hashed? (namedPath payload) else none

/-- The files that the events name, each once and those with a key in `seen` left out. -/
def distinctFiles : List HashKey → List Event → List PyStr
  | _, [] => []
  | seen, e :: rows =>
    match fileOf e with
    | none => distinctFiles seen rows
    | some (key, text) =>
      if key ∈ seen then distinctFiles seen rows
      else text :: distinctFiles (key :: seen) rows

/-- Every event is legible up to the one that names the last of `n` files. -/
def LegibleUpTo (n : Nat) (seen : List HashKey) (rows : List Event) : Prop :=
  ∀ before e after, rows = before ++ e :: after → (distinctFiles seen before).length < n →
    Legible e

theorem legibleUpTo_zero (seen : List HashKey) (rows : List Event) :
    LegibleUpTo 0 seen rows := by
  intro before e after _ h
  cases h

theorem legibleUpTo_nil (n : Nat) (seen : List HashKey) : LegibleUpTo n seen [] := by
  intro before e after h _
  simp at h

/-- The first event is legible, and those behind it are up to what it leaves to be found. -/
theorem legibleUpTo_cons {n : Nat} {seen : List HashKey} {e : Event} {rows : List Event} :
    LegibleUpTo (n + 1) seen (e :: rows) ↔ Legible e ∧
      match fileOf e with
      | none => LegibleUpTo (n + 1) seen rows
      | some (key, _) =>
        if key ∈ seen then LegibleUpTo (n + 1) seen rows
        else LegibleUpTo n (key :: seen) rows := by
  have hsplit : LegibleUpTo (n + 1) seen (e :: rows) ↔ Legible e ∧
      ∀ before f after, rows = before ++ f :: after →
        (distinctFiles seen (e :: before)).length < n + 1 → Legible f := by
    constructor
    · intro h
      refine ⟨h [] e rows rfl (Nat.succ_pos n), ?_⟩
      intro before f after hrows hlen
      exact h (e :: before) f after (by rw [hrows]; rfl) hlen
    · rintro ⟨he, hrest⟩ before f after hrows hlen
      cases before with
      | nil =>
        cases hrows
        exact he
      | cons d before =>
        obtain ⟨rfl, htail⟩ := List.cons.inj hrows
        exact hrest before f after htail hlen
  rw [hsplit]
  refine and_congr_right fun _ => ?_
  cases hfile : fileOf e with
  | none => simp only [LegibleUpTo, distinctFiles, hfile]
  | some file =>
    obtain ⟨key, text⟩ := file
    by_cases hkey : key ∈ seen
    · simp only [LegibleUpTo, distinctFiles, hfile, if_pos hkey]
    · simp only [LegibleUpTo, distinctFiles, hfile, if_neg hkey, List.length_cons,
        Nat.add_lt_add_iff_right]

theorem readFile_ok_iff {e : Event} {file : Option (HashKey × PyStr)} :
    readFile e = .ok file ↔ Legible e ∧ file = fileOf e := by
  have hok (read : Option (HashKey × PyStr)) :
      (Except.ok read : Except Exc _) = .ok file ↔ file = read := by
    rw [Except.ok.injEq, eq_comm]
  unfold readFile Legible fileOf
  cases PyJson.loads e.payloadJson with
  | none => simp [hok]
  | some payload =>
    simp only [Option.some.injEq, forall_eq', Option.bind_some]
    cases hpath : filePath payload with
    | error err =>
      have hshape : ¬ WellShaped payload := by
        intro hshape
        rw [filePath_ok_iff.2 ⟨hshape.payload_obj, hshape.toolInput_obj, rfl⟩] at hpath
        cases hpath
      simp [hshape]
    | ok p =>
      obtain ⟨hobj, htool, rfl⟩ := filePath_ok_iff.1 hpath
      have hshape : WellShaped payload ↔ (truthy (namedPath payload) = true →
          (hashed? (namedPath payload)).isSome = true) :=
        ⟨fun h => h.path_hashable, fun h => ⟨hobj, htool, h⟩⟩
      rw [hshape]
      cases htruthy : truthy (namedPath payload) with
      | false => simp [htruthy, hok]
      | true => cases hhash : hashed? (namedPath payload) <;> simp [htruthy, hhash, hok]

/-- The loop ends well exactly if it reads legible events only, and finds the first files then. -/
theorem scanFiles_ok_iff {limit n : Nat} (rows : List Event) (seen : List HashKey)
    (paths files : List PyStr) (hn : limit = paths.length + (n + 1)) :
    scanFiles limit rows seen paths = .ok files ↔
      LegibleUpTo (n + 1) seen rows ∧ files = paths ++ (distinctFiles seen rows).take (n + 1) := by
  induction rows generalizing n seen paths with
  | nil => simp [scanFiles, legibleUpTo_nil, distinctFiles, eq_comm]
  | cons e rows ih =>
    rw [legibleUpTo_cons, scanFiles]
    cases hread : readFile e with
    | error err =>
      have hillegible : ¬ Legible e := fun h => by
        rw [readFile_ok_iff.2 ⟨h, rfl⟩] at hread
        cases hread
      simp [hillegible]
    | ok file =>
      obtain ⟨hlegible, rfl⟩ := readFile_ok_iff.1 hread
      rw [distinctFiles]
      cases fileOf e with
      | none => simpa [hlegible] using ih seen paths hn
      | some file =>
        obtain ⟨key, text⟩ := file
        simp only [hlegible, true_and]
        by_cases hseen : key ∈ seen
        · simp only [if_pos hseen]
          exact ih seen paths hn
        · simp only [if_neg hseen]
          cases n with
          | zero =>
            have hlast : limit ≤ paths.length + 1 := by omega
            simp [hlast, legibleUpTo_zero, eq_comm]
          | succ n =>
            have hmore : ¬ limit ≤ paths.length + 1 := by omega
            have hlen : limit = (paths ++ [text]).length + (n + 1) := by
              rw [List.length_append, List.length_singleton]
              omega
            simpa [hmore] using ih (key :: seen) (paths ++ [text]) hlen

/-! ## When a reminder is built -/

section Build

variable (E : Engine) (db : Db)

/-- The file events that a reminder may look at. -/
def readableEvents (userId : String) (a : ReminderArgs) : List Event :=
  (sessionFileEvents E db userId).take (a.fileLimit * 4)

/-- What the building of a reminder for a user rests on: arguments that can be bound, legible file
events up to the last file that is listed, and three first paths that can be searched for. -/
structure Buildable (a : ReminderArgs) (userId : String) : Prop where
  userId_eq : a.userId = .ofString userId
  sessionId : ∀ session, a.sessionId = some session → session.encode?.isSome = true
  maxHits : a.maxHits < 2 ^ 62
  events : LegibleUpTo a.fileLimit [] (readableEvents E db userId a)
  paths : ∀ p ∈ (distinctFiles [] (readableEvents E db userId a)).take 3, Searchable userId p

theorem bindInt_ok_iff {n m : Nat} : bindInt n = .ok m ↔ n < 2 ^ 63 ∧ m = n := by
  unfold bindInt
  split_ifs with h
  · rw [Except.ok.injEq, eq_comm, and_iff_right h]
  · exact iff_of_false (by simp) fun hn => h hn.1

theorem fileLimit_lt_iff (a : ReminderArgs) : a.fileLimit * 4 < 2 ^ 63 ↔ a.maxHits < 2 ^ 62 := by
  unfold ReminderArgs.fileLimit
  omega

theorem recentFiles_ok_iff {userId : String} {a : ReminderArgs} {files : List PyStr} :
    recentFiles E db userId a.fileLimit = .ok files ↔ a.maxHits < 2 ^ 62 ∧
      LegibleUpTo a.fileLimit [] (readableEvents E db userId a) ∧
      files = (distinctFiles [] (readableEvents E db userId a)).take a.fileLimit := by
  have hlimit : a.fileLimit = (a.fileLimit - 1) + 1 := by
    unfold ReminderArgs.fileLimit
    omega
  have hscan := scanFiles_ok_iff (readableEvents E db userId a) [] [] files
    (hlimit.trans (Nat.zero_add _).symm)
  rw [← hlimit, List.nil_append] at hscan
  simp only [recentFiles, except_bind_eq_ok, bindInt_ok_iff, fileLimit_lt_iff]
  constructor
  · rintro ⟨rows, ⟨hmax, rfl⟩, h⟩
    exact ⟨hmax, hscan.1 h⟩
  · rintro ⟨hmax, h⟩
    exact ⟨_, ⟨hmax, rfl⟩, hscan.2 h⟩

theorem contextLines_ok_iff {userId : String} {a : ReminderArgs} (h : a.maxHits < 2 ^ 62) :
    (∃ lines, contextLines E db userId a = .ok lines) ↔
      ∀ session, a.sessionId = some session → session.encode?.isSome = true := by
  have hmax : a.maxHits < 2 ^ 63 := by omega
  unfold contextLines
  cases a.sessionId with
  | none => simp
  | some session =>
    simp only [except_bind_eq_ok, bindText_ok_iff, bindInt_ok_iff, Option.some.injEq, forall_eq',
      Option.isSome_iff_exists]
    constructor
    · rintro ⟨lines, text, htext, -⟩
      exact ⟨text, htext⟩
    · rintro ⟨text, htext⟩
      exact ⟨_, text, htext, _, ⟨hmax, rfl⟩, rfl⟩

theorem fileHitLines_ok_iff {userId : String} {paths : List PyStr} :
    (∃ lines, fileHitLines E db userId paths = .ok lines) ↔ ∀ p ∈ paths, Searchable userId p := by
  induction paths with
  | nil => simp [fileHitLines]
  | cons p paths ih =>
    rw [List.forall_mem_cons, ← ih, ← byFile_ok_iff E db userId p 1]
    simp only [fileHitLines, except_bind_eq_ok]
    constructor
    · rintro ⟨lines, hits, hhits, rest, hrest, -⟩
      exact ⟨⟨hits, hhits⟩, rest, hrest⟩
    · rintro ⟨⟨hits, hhits⟩, rest, hrest⟩
      exact ⟨_, hits, hhits, rest, hrest, rfl⟩

theorem take_files (userId : String) (a : ReminderArgs) :
    ((distinctFiles [] (readableEvents E db userId a)).take a.fileLimit).take 3 =
      (distinctFiles [] (readableEvents E db userId a)).take 3 := by
  have hle : 3 ≤ a.fileLimit := le_max_left 3 _
  rw [List.take_take, Nat.min_eq_left hle]

/-- A reminder is built exactly if what it rests on is given. -/
theorem buildSessionReminder_ok_iff {a : ReminderArgs} :
    (∃ text, buildSessionReminder E db a = .ok text) ↔ ∃ userId, Buildable E db a userId := by
  simp only [buildSessionReminder, except_bind_eq_ok, bindText_ok_iff, PyStr.encode?_eq_some]
  constructor
  · rintro ⟨text, userId, huser, files, hfiles, ctx, hctx, extra, hextra, -⟩
    obtain ⟨hmax, hevents, rfl⟩ := (recentFiles_ok_iff E db).1 hfiles
    have hpaths := (fileHitLines_ok_iff E db).1 ⟨extra, hextra⟩
    rw [take_files] at hpaths
    exact ⟨userId, huser, (contextLines_ok_iff E db hmax).1 ⟨ctx, hctx⟩, hmax, hevents, hpaths⟩
  · rintro ⟨userId, h⟩
    have hfiles := (recentFiles_ok_iff E db).2 ⟨h.maxHits, h.events, rfl⟩
    have hctx : ∃ lines, contextLines E db userId a = .ok lines :=
      (contextLines_ok_iff E db h.maxHits).2 h.sessionId
    have hextra := (fileHitLines_ok_iff E db).2 h.paths
    rw [← take_files] at hextra
    obtain ⟨ctx, hctx⟩ := hctx
    obtain ⟨extra, hextra⟩ := hextra
    exact ⟨_, userId, h.userId_eq, _, hfiles, ctx, hctx, extra, hextra, rfl⟩

theorem isReminder_of_built {a : ReminderArgs} {text : PyStr}
    (h : buildSessionReminder E db a = .ok text) : IsReminder text := by
  simp only [buildSessionReminder, except_bind_eq_ok] at h
  obtain ⟨userId, -, files, -, ctx, -, extra, -, htext⟩ := h
  rw [← Except.ok.inj htext]
  simp only [List.append_assoc (renderSection _ _)]
  exact isReminder_frame _ _

end Build

/-! ## Runs -/

/-- A call that writes to the store, with what it draws. -/
inductive Writer where
  | hook (T : HookEnv) (a : HookArgs) (stamp : Stamp)
  | hookJson (T : HookEnv) (userId rawJson actor : String) (stamp : Stamp)
  | record (a : EventArgs) (payload : List (PyStr × PyJson)) (stamp : Stamp)
  | memory (D : Digest) (a : MemoryArgs) (d : Draws)
  | claim (D : Digest) (a : ClaimArgs) (d : Draws)
  | transition (a : TransitionArgs) (updatedAt : String) (stamp : Stamp)

def Writer.prog : Writer → Sql Unit
  | .hook T a stamp => ignore (ingestHook T a stamp)
  | .hookJson T userId rawJson actor stamp => ignore (ingestFromJson T userId rawJson actor stamp)
  | .record a payload stamp => ignore (recordPayload a payload stamp)
  | .memory D a d => ignore (ingestMemory D a d)
  | .claim D a d => ignore (ingestClaim D a d)
  | .transition a updatedAt stamp => ignore (transitionClaimState a updatedAt stamp)

inductive Action where
  | write (w : Writer)
  | remind (E : Engine) (a : ReminderArgs)

/-- A call that returns; a reminder leaves the store as it is. -/
def step (db : Db) : Action → Option Db
  | .write w =>
    match run w.prog db with
    | (.ok (), db') => some db'
    | (.error _, _) => none
  | .remind _ _ => some db

/-- A reminder that is asked for is built, in its frame and length. -/
def StepCorrect (db : Db) (action : Action) (_ : Db) : Prop :=
  match action with
  | .write _ => True
  | .remind E a => ∃ text, buildSessionReminder E db a = .ok text ∧ IsReminder text

/-- What a reminder that is asked for rests on is given. -/
def StepBuildable (db : Db) (action : Action) (_ : Db) : Prop :=
  match action with
  | .write _ => True
  | .remind E a => ∃ userId, Buildable E db a userId

theorem stepCorrect_iff (db db' : Db) (action : Action) :
    StepCorrect db action db' ↔ StepBuildable db action db' := by
  cases action with
  | write w => exact Iff.rfl
  | remind E a =>
    simp only [StepCorrect, StepBuildable, ← buildSessionReminder_ok_iff]
    constructor
    · rintro ⟨text, htext, -⟩
      exact ⟨text, htext⟩
    · rintro ⟨text, htext⟩
      exact ⟨text, htext, isReminder_of_built E db htext⟩

/-- From any store on and in any order of writes and reminders, every reminder is right exactly if
what each rests on is given when it is asked for. -/
theorem reminders_correct_iff (db : Db) (actions : List Action) :
    Along step StepCorrect db actions ↔ Along step StepBuildable db actions :=
  along_iff (Q := StepBuildable)
    (fun s a t _ _ => ⟨stepCorrect_iff s t a, fun _ => trivial⟩) (trivial : (fun _ => True) db)
    actions

/-! ### An edit whose input is a list -/

/-- The payload of an `Edit` whose `tool_input` is a list of paths. -/
def samplePayload : Json := .obj [("tool_input", .arr [.str "a.py"]), ("tool_name", .str "Edit")]

def sampleHook : HookArgs where
  hookType := "PreToolUse"
  sessionId := .ofString "s1"
  payload := .ofJson samplePayload
  userId := "u"
  actor := "claude-code"

/-- The store after the hook. -/
def sampleDb : Db :=
  { Db.empty with
    events := [⟨"01J0", "u", "claude-code", "tool.edit", none, none,
      String.ofList (PyJson.ofJson samplePayload).chars, none,
      "2026-04-21T00:00:00.000000+00:00", some "s1"⟩] }

def sampleReminder : ReminderArgs := ⟨.ofString "u", none, 8⟩

def sampleEdit : Action := .write (.hook sampleEnv sampleHook sampleStamp)

theorem sampleEdit_runs : [sampleEdit].foldlM step Db.empty = some sampleDb := by
  rfl

theorem not_wellShaped_sample : ¬ WellShaped (.ofJson samplePayload) := by
  intro h
  obtain ⟨ms, hms⟩ := h.toolInput_obj rfl
  cases hms

theorem sampleReminder_raises : ¬ ∃ text,
    buildSessionReminder sampleEngine sampleDb sampleReminder = .ok text := by
  rw [buildSessionReminder_ok_iff]
  rintro ⟨userId, h⟩
  obtain rfl : "u" = userId := by
    have huser := congrArg PyStr.encode? h.userId_eq
    rw [PyStr.encode?_ofString] at huser
    exact Option.some.inj huser
  have hlegible := h.events [] _ [] rfl (by decide)
  exact not_wellShaped_sample (hlegible _ (PyJson.loads_chars_ofJson samplePayload))

/-- The hook is accepted, and the reminder after it raises. -/
theorem sampleEdit_breaks : ¬ ∀ actions, Along step StepCorrect Db.empty actions := by
  intro h
  have hrun := h ([sampleEdit] ++ [.remind sampleEngine sampleReminder])
  obtain ⟨text, htext, -⟩ := hrun.reached [sampleEdit] [] sampleEdit_runs rfl
  exact sampleReminder_raises ⟨text, htext⟩

end ParallaxKernel.Session
