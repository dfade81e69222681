import ParallaxKernel.Lib.FiledLog
import ParallaxKernel.Lib.IsoInstant
import ParallaxKernel.Shadow.ChecksumChain

/-!
# The lines and files of the decision logs

What the readers of the two decision logs share: a line is a JSON object with a timestamp, and the
name of a file holds its date. The line of a record is read back as the record.
-/

namespace ParallaxKernel.Router

open Lib Store

/-! ## Lines -/

/-- What a reader makes of a line. -/
inductive LogLine where
  | blank
  | malformed
  /-- The instant of the record in microseconds, and the line without the blanks at its ends. -/
  | record (timestamp : Int) (members : List (PyStr × PyJson)) (stripped : List Char)

/-- `_parse_timestamp`: a time without an offset is in UTC. -/
def parseTimestamp (raw : PyStr) : Option Int :=
  raw.encode?.bind fun text => (DateTime.fromIsoformat text).toOption.map DateTime.timestamp

def readLine (raw : List Char) : LogLine :=
  let stripped := stripBy isPySpace raw
  if stripped = [] then .blank
  else
    match PyJson.loads (String.ofList stripped) with
    | some (.obj ms) =>
      match PyJson.member? (.ofString "timestamp") ms with
      | some (.str raw) =>
        match parseTimestamp raw with
        | some timestamp => .record timestamp ms stripped
        | none => .malformed
      | _ => .malformed
    | _ => .malformed

def LogLine.isMalformed : LogLine → Bool
  | .malformed => true
  | _ => false

/-- The records of the lines, each with its instant. -/
def LogLine.record? : LogLine → Option (Int × List (PyStr × PyJson) × List Char)
  | .record timestamp ms stripped => some (timestamp, ms, stripped)
  | _ => none

/-- `json.dumps(record, sort_keys=True) + "\n"`. -/
def renderLine (ms : List (PyStr × PyJson)) : List Char :=
  (PyJson.dumpsSorted (.obj ms)).toList ++ ['\n']

/-! ## Files -/

/-- The day of an instant in UTC, as `date.toordinal` counts them. -/
def dayOf (us : Int) : Int := (us + 719163 * 86400000000) / 86400000000

/-- The name of the file of a day. -/
def dailyName (stem : String) (dt : DateTime) : String :=
  stem ++ String.ofList dt.dateChars ++ ".jsonl"

/-- What stands for the star of `stem*.jsonl` in a name. -/
def starOf (stem : String) (name : String) : Option (List Char) :=
  let cs := name.toList
  let rest := cs.drop stem.length
  let star := rest.take (rest.length - 6)
  if cs = stem.toList ++ star ++ ".jsonl".toList then some star else none

/-- `\d{4}-\d{2}-\d{2}`, of ASCII digits. -/
def isDateText (cs : List Char) : Bool :=
  let dash := fun k => (cs.drop k).take 1 == ['-']
  cs.length == 10 && (cs.take 4).all DateTime.isDigit && dash 4 &&
    ((cs.drop 5).take 2).all DateTime.isDigit && dash 7 && (cs.drop 8).all DateTime.isDigit

/-- `_file_date`, as a day. -/
def fileDate (stem name : String) : Option Int :=
  (starOf stem name).bind fun star =>
    if isDateText star then
      match DateTime.dateFromIsoformat (String.ofList star) with
      | .ok (year, month, day) => some (DateTime.toOrdinal year month day)
      | .error _ => none
    else none

/-- `sorted(dir.glob(stem + "*.jsonl"))`. -/
def logFiles (stem : String) (dir : List (String × List Char)) : List (String × List Char) :=
  (dir.filter fun file => (starOf stem file.1).isSome).insertionSort fun a b => a.1 ≤ b.1

/-! ## A record's line is read back -/

theorem encode?_ofString (s : String) : (PyStr.ofString s).encode? = some s := by
  rw [PyStr.encode?, PyStr.ofString, PyStr.mapM_scalar?_ofChars]
  simp

theorem ofString_injective : Function.Injective PyStr.ofString := by
  intro s t h
  have heq := encode?_ofString s
  rw [h, encode?_ofString t] at heq
  exact (Option.some.inj heq).symm

theorem chars_obj_ends (ms : List (PyStr × PyJson)) :
    ∃ body, PyJson.chars (.obj ms) = '{' :: (body ++ ['}']) := by
  have hrest : ∀ ns : List (PyStr × PyJson), ∃ body, PyJson.membersChars ns = body ++ ['}'] := by
    intro ns
    induction ns with
    | nil => exact ⟨[], rfl⟩
    | cons n ns ih =>
      obtain ⟨k, x⟩ := n
      obtain ⟨body, hbody⟩ := ih
      rw [PyJson.membersChars, hbody]
      exact ⟨',' :: ' ' :: (PyJson.quote k ++ ':' :: ' ' :: (PyJson.chars x ++ body)), by simp⟩
  cases ms with
  | nil => exact ⟨[], rfl⟩
  | cons m ms =>
    obtain ⟨k, x⟩ := m
    obtain ⟨body, hbody⟩ := hrest ms
    rw [PyJson.chars, hbody]
    exact ⟨PyJson.quote k ++ ':' :: ' ' :: (PyJson.chars x ++ body), by simp⟩

theorem stripBy_ends {p : Char → Bool} {c d : Char} (hc : p c = false) (hd : p d = false)
    (body : List Char) : stripBy p (c :: (body ++ [d])) = c :: (body ++ [d]) := by
  simp [stripBy, hc, hd]

theorem member?_eq_some {key : PyStr} {x : PyJson} {ms : List (PyStr × PyJson)}
    (hnodup : (ms.map Prod.fst).Nodup) (h : (key, x) ∈ ms) : PyJson.member? key ms = some x := by
  have hfind : ms.reverse.find? (·.1 == key) = some (key, x) := by
    rw [List.find?_eq_some_iff_append]
    obtain ⟨before, after, rfl⟩ := List.append_of_mem h
    refine ⟨by simp, after.reverse, before.reverse, by simp, fun m hm => ?_⟩
    rw [List.map_append, List.map_cons, List.nodup_append] at hnodup
    have hne := (List.nodup_cons.1 hnodup.2.1).1
    simp only [Bool.not_eq_eq_eq_not, Bool.not_true, beq_eq_false_iff_ne, ne_eq]
    intro heq
    exact hne (List.mem_map.2 ⟨m, List.mem_reverse.1 hm, heq⟩)
  rw [PyJson.member?, hfind]
  rfl

theorem unpaired_obj_iff {ms : List (PyStr × PyJson)} :
    (PyJson.obj ms).Unpaired ↔ ∀ m ∈ ms, m.1.unpaired = true ∧ m.2.Unpaired := by
  induction ms with
  | nil => exact iff_of_true trivial fun m hm => absurd hm List.not_mem_nil
  | cons m ms ih =>
    rw [List.forall_mem_cons, ← ih, and_assoc]
    exact Iff.rfl

theorem keys_sortMembers (ms : List (PyStr × PyJson)) :
    ((PyJson.sortMembers ms).map Prod.fst).Perm (ms.map Prod.fst) := by
  rw [PyJson.sortMembers_eq]
  refine ((List.perm_insertionSort _ _).map Prod.fst).trans ?_
  rw [List.map_map]
  exact List.Perm.refl _

/-- What a key of a record is bound to after its line is read. -/
theorem member?_sortMembers (key : PyStr) {ms : List (PyStr × PyJson)}
    (hnodup : (ms.map Prod.fst).Nodup) :
    PyJson.member? key (PyJson.sortMembers ms) = (PyJson.member? key ms).map PyJson.sortKeys := by
  have hsorted : ((PyJson.sortMembers ms).map Prod.fst).Nodup :=
    (keys_sortMembers ms).nodup_iff.2 hnodup
  by_cases hkey : key ∈ ms.map Prod.fst
  · obtain ⟨⟨k, x⟩, hm, rfl⟩ := List.mem_map.1 hkey
    rw [member?_eq_some hnodup hm, member?_eq_some hsorted (PyJson.mem_sortMembers hm)]
    rfl
  · have hnone : ∀ {ns : List (PyStr × PyJson)}, key ∉ ns.map Prod.fst →
        PyJson.member? key ns = none := by
      intro ns hns
      rw [PyJson.member?, List.find?_eq_none.2, Option.map_none]
      intro n hn heq
      exact hns (beq_iff_eq.1 heq ▸ List.mem_map_of_mem (List.mem_reverse.1 hn))
    rw [hnone hkey, hnone (fun h => hkey ((keys_sortMembers ms).mem_iff.1 h))]
    rfl

/-- The line of a record with a timestamp of the writers. -/
theorem readLine_dumpsSorted {ms : List (PyStr × PyJson)} (hunpaired : (PyJson.obj ms).Unpaired)
    (hnodup : (ms.map Prod.fst).Nodup) {us : Int} {dt : DateTime}
    (hdt : DateTime.ofTimestamp us = some dt)
    (hts : (PyStr.ofString "timestamp", .str (.ofString dt.isoformatUtc)) ∈ ms) :
    readLine (PyJson.dumpsSorted (.obj ms)).toList =
      .record us (PyJson.sortMembers ms) (PyJson.dumpsSorted (.obj ms)).toList := by
  obtain ⟨hvalid, hoffset, htimestamp⟩ := DateTime.ofTimestamp_spec hdt
  obtain ⟨body, hbody⟩ := chars_obj_ends (PyJson.sortMembers ms)
  have htext : (PyJson.dumpsSorted (.obj ms)).toList = '{' :: (body ++ ['}']) := by
    rw [PyJson.dumpsSorted, String.toList_ofList]
    exact hbody
  have hloads : PyJson.loads (String.ofList ('{' :: (body ++ ['}']))) =
      some (.obj (PyJson.sortMembers ms)) := by
    rw [← hbody]
    exact PyJson.loads_chars (v := .obj (PyJson.sortMembers ms))
      (PyJson.unpaired_sortMembers ms hunpaired)
  have hmember := member?_sortMembers (.ofString "timestamp") hnodup
  rw [member?_eq_some hnodup hts] at hmember
  have hparse : parseTimestamp (.ofString dt.isoformatUtc) = some us := by
    rw [parseTimestamp, encode?_ofString, Option.bind_some,
      DateTime.fromIsoformat_isoformatUtc hvalid hoffset]
    exact congrArg some htimestamp
  rw [htext, readLine, stripBy_ends (by decide) (by decide)]
  simp only [hloads, hmember, Option.map_some, PyJson.sortKeys, hparse]
  rw [if_neg (by simp)]

/-- The lines of a file are the lines that were appended. -/
theorem splitlines_renderLine (records : List (List (PyStr × PyJson))) :
    splitlines (records.flatMap renderLine) =
      records.map fun ms => (PyJson.dumpsSorted (.obj ms)).toList := by
  have hlines : records.flatMap renderLine =
      (records.map fun ms => (PyJson.dumpsSorted (.obj ms)).toList).flatMap (· ++ ['\n']) := by
    rw [List.flatMap_map]
    rfl
  rw [hlines, splitlines_flatMap]
  intro line hline c hc
  obtain ⟨ms, -, rfl⟩ := List.mem_map.1 hline
  obtain ⟨hlow, hhigh⟩ := PyJson.printed_dumpsSorted _ c hc
  unfold isLineBreak
  simp only [Bool.or_eq_false_iff, Bool.and_eq_false_iff, decide_eq_false_iff_not,
    beq_eq_false_iff_ne]
  omega

/-! ## A file's name is read back -/

/-- The files of a log, in the order of their names. -/
theorem logFiles_filesOf {α : Type} {stem : String} (render : α → List Char)
    {gs : List (String × List α)} (h : ∀ g ∈ gs, (starOf stem g.1).isSome = true) :
    logFiles stem (filesOf render gs) =
      filesOf render (gs.insertionSort fun a b => a.1 ≤ b.1) := by
  have hall : (filesOf render gs).filter (fun file => (starOf stem file.1).isSome) =
      filesOf render gs := by
    rw [List.filter_eq_self]
    intro file hfile
    obtain ⟨g, hg, rfl⟩ := List.mem_map.1 hfile
    exact h g hg
  rw [logFiles, hall, filesOf, filesOf, List.map_insertionSort
    (fun a b : String × List α => a.1 ≤ b.1) (fun a b : String × List Char => a.1 ≤ b.1)]
  intro a _ b _
  exact Iff.rfl

theorem starOf_dailyName (stem : String) (dt : DateTime) :
    starOf stem (dailyName stem dt) = some dt.dateChars := by
  have hname : (dailyName stem dt).toList = stem.toList ++ dt.dateChars ++ ".jsonl".toList := by
    simp [dailyName]
  have hrest : (dailyName stem dt).toList.drop stem.length = dt.dateChars ++ ".jsonl".toList := by
    rw [hname, List.append_assoc, ← String.length_toList, List.drop_left]
  have hstar : (dt.dateChars ++ ".jsonl".toList).take
      ((dt.dateChars ++ ".jsonl".toList).length - 6) = dt.dateChars := by
    have hlength : (dt.dateChars ++ ".jsonl".toList).length - 6 = dt.dateChars.length := by simp
    rw [hlength, List.take_left]
  rw [starOf, hrest]
  simp only [hstar]
  exact if_pos hname

theorem isDateText_dateChars {dt : DateTime} (h : dt.Valid) : isDateText dt.dateChars = true := by
  have hyear := @DateTime.length_paddedChars 3 _ h.year_lt
  have hmonth := @DateTime.length_paddedChars 1 _ h.month_lt
  have hdigits : ∀ (width : Nat) {n : Nat}, n < 10 ^ (width + 1) →
      (DateTime.paddedChars (width + 1) n).all DateTime.isDigit = true := by
    intro width n hn
    exact List.all_eq_true.2 fun c hc => DateTime.isDigit_of_mem_padded width hn hc
  have h4 : dt.dateChars.drop 4 =
      '-' :: (DateTime.paddedChars 2 dt.month ++ '-' :: DateTime.paddedChars 2 dt.day) :=
    List.drop_left' hyear
  have h5 : dt.dateChars.drop 5 =
      DateTime.paddedChars 2 dt.month ++ '-' :: DateTime.paddedChars 2 dt.day := by
    rw [← List.drop_drop (i := 1) (j := 4), h4]
    rfl
  have h7 : dt.dateChars.drop 7 = '-' :: DateTime.paddedChars 2 dt.day := by
    rw [← List.drop_drop (i := 2) (j := 5), h5]
    exact List.drop_left' hmonth
  have h8 : dt.dateChars.drop 8 = DateTime.paddedChars 2 dt.day := by
    rw [← List.drop_drop (i := 1) (j := 7), h7]
    rfl
  have htake4 : dt.dateChars.take 4 = DateTime.paddedChars 4 dt.year := List.take_left' hyear
  have htake5 : (dt.dateChars.drop 5).take 2 = DateTime.paddedChars 2 dt.month := by
    rw [h5]
    exact List.take_left' hmonth
  simp only [isDateText, DateTime.length_dateChars h, htake4, htake5, h4, h7, h8,
    hdigits 3 h.year_lt, hdigits 1 h.month_lt, hdigits 1 h.day_lt]
  rfl

/-- The name of a day's file says which day it is. -/
theorem fileDate_dailyName (stem : String) {us : Int} {dt : DateTime}
    (h : DateTime.ofTimestamp us = some dt) :
    fileDate stem (dailyName stem dt) = some (dayOf us) := by
  obtain ⟨hvalid, hoffset, htimestamp⟩ := DateTime.ofTimestamp_spec h
  have hsize : (dt.dateChars.map Char.utf8Size).sum = 10 := by
    have hone : ∀ c ∈ dt.dateChars, c.utf8Size = 1 := by
      have hdigit : ∀ (width : Nat) {n : Nat}, n < 10 ^ (width + 1) →
          ∀ c ∈ DateTime.paddedChars (width + 1) n, c.utf8Size = 1 := by
        intro width n hn c hc
        have hle := DateTime.isDigit_of_mem_padded width hn hc
        simp only [DateTime.isDigit, Bool.and_eq_true, decide_eq_true_eq] at hle
        have hlast : c.val ≤ '9'.val := hle.2
        have hascii : '9'.val ≤ 127 := by decide
        exact Char.utf8Size_eq_one_iff.2 (UInt32.le_trans hlast hascii)
      intro c hc
      rw [DateTime.dateChars, List.mem_append, List.mem_cons, List.mem_append, List.mem_cons] at hc
      obtain hc | rfl | hc | rfl | hc := hc
      · exact hdigit 3 hvalid.year_lt c hc
      · rfl
      · exact hdigit 1 hvalid.month_lt c hc
      · rfl
      · exact hdigit 1 hvalid.day_lt c hc
    rw [List.map_congr_left hone]
    simp [DateTime.length_dateChars hvalid]
  have hparse := DateTime.parseDate_dateChars hvalid []
  rw [List.append_nil] at hparse
  obtain ⟨hyear, hyearLe, hmonth, hmonthLe, hday, hdayLe⟩ := hvalid.date
  have hdate : DateTime.dateFromIsoformat (String.ofList dt.dateChars) =
      .ok (dt.year, dt.month, dt.day) := by
    rw [DateTime.dateFromIsoformat]
    simp only [String.toList_ofList, hsize, hparse]
    rw [if_pos (by simp), DateTime.mk?]
    simp only [List.getD_nil]
    rw [if_neg (by omega), if_neg (by omega), if_neg (by omega)]
    rfl
  have hmicro := hvalid.microsecond
  have hsecond := hvalid.second
  have hminute := hvalid.minute
  have hhour := hvalid.hour
  rw [DateTime.timestamp, hoffset, Option.getD_some] at htimestamp
  have hordinal : (DateTime.toOrdinal dt.year dt.month dt.day : Int) = dayOf us := by
    rw [dayOf]
    omega
  rw [fileDate, starOf_dailyName, Option.bind_some, isDateText_dateChars hvalid]
  simp only [hdate, if_true, hordinal]

/-- Instants of one day have one file. -/
theorem dailyName_congr (stem : String) {m n : Int} {a b : DateTime}
    (ha : DateTime.ofTimestamp m = some a) (hb : DateTime.ofTimestamp n = some b)
    (h : dayOf m = dayOf n) : dailyName stem a = dailyName stem b := by
  have hdate : a.dateChars = b.dateChars := by
    rw [dayOf, dayOf] at h
    simp only [DateTime.ofTimestamp] at ha hb
    split_ifs at ha hb
    rw [h] at ha
    obtain rfl := Option.some.inj ha
    obtain rfl := Option.some.inj hb
    rfl
  rw [dailyName, dailyName, hdate]

end ParallaxKernel.Router
