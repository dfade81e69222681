import ParallaxKernel.Lib.Float
import ParallaxKernel.Lib.Framed
import ParallaxKernel.Store.Hashing

/-!
# The fingerprint of the core tables

`_core_fingerprint` hashes the texts of all cells between separators. The texts of different values
may be equal, and a text may hold the separators: the fingerprint detects every change of a content
exactly if the content has neither a cell of the first kind nor neighbours of the second.
-/

namespace ParallaxKernel.Router

open Lib Store

/-! ## Values and columns -/

/-- A value of a database. -/
inductive Cell where
  | null
  | integer (n : Int)
  | real (x : PyFloat)
  | text (s : String)
  | blob (bytes : List UInt8)
  deriving DecidableEq

/-- `str` of a float. -/
def floatStr : PyFloat → List Char
  | .finite lit => lit.chars
  | .inf => "inf".toList
  | .negInf => "-inf".toList
  | .nan => "nan".toList

/-- One byte in a bytes literal. -/
def byteChars (quote : Char) (byte : UInt8) : List Char :=
  let c := Char.ofNat byte.toNat
  if c = quote ∨ c = '\\' then ['\\', c]
  else if c = '\t' then ['\\', 't']
  else if c = '\n' then ['\\', 'n']
  else if c = '\r' then ['\\', 'r']
  else if 32 ≤ byte.toNat ∧ byte.toNat < 127 then [c]
  else ['\\', 'x', Json.hexDigit (byte.toNat / 16), Json.hexDigit byte.toNat]

/-- `str` of bytes. -/
def bytesStr (bytes : List UInt8) : List Char :=
  let quote := if 39 ∈ bytes ∧ 34 ∉ bytes then '"' else Char.ofNat 39
  'b' :: quote :: (bytes.flatMap (byteChars quote) ++ [quote])

/-- `"<NULL>" if value is None else str(value)`. -/
def Cell.token : Cell → List Char
  | .null => "<NULL>".toList
  | .integer n => Json.intChars n
  | .real x => floatStr x
  | .text s => s.toList
  | .blob bytes => bytesStr bytes

inductive Affinity where
  | text
  | real
  | numeric
  deriving DecidableEq

structure Column where
  name : String
  affinity : Affinity
  nullable : Bool
  deriving DecidableEq

/-! ### Texts that a numeric column converts -/

def isSqlSpace (c : Char) : Bool := c = ' ' || (9 ≤ c.toNat && c.toNat ≤ 13)

def dropSign : List Char → List Char
  | c :: cs => if c = '-' ∨ c = '+' then cs else c :: cs
  | [] => []

def isExponentEnd : List Char → Bool
  | c :: cs =>
    if c = 'e' ∨ c = 'E' then
      let ds := dropSign cs
      !(ds.takeWhile Char.isDigit).isEmpty && (ds.dropWhile Char.isDigit).all isSqlSpace
    else (c :: cs).all isSqlSpace
  | [] => true

/-- What stands after the digits before the point, if there are any. -/
def isFractionEnd (whole : Bool) : List Char → Bool
  | c :: cs =>
    if c = '.' then
      (whole || !(cs.takeWhile Char.isDigit).isEmpty) && isExponentEnd (cs.dropWhile Char.isDigit)
    else whole && isExponentEnd (c :: cs)
  | [] => whole

def isNumericText (cs : List Char) : Bool :=
  let ds := dropSign (cs.dropWhile isSqlSpace)
  isFractionEnd (!(ds.takeWhile Char.isDigit).isEmpty) (ds.dropWhile Char.isDigit)

example : isNumericText " -5.e+1 ".toList = true := by decide
example : isNumericText "5e+".toList = false := by decide
example : isNumericText ".".toList = false := by decide

/-- Characters of the texts that a numeric column converts. -/
def isNumericChar (c : Char) : Bool := isSqlSpace c || isNumChar c

variable {p : Char → Bool} {cs : List Char}

theorem numericChars_dropWhile (hp : ∀ c, p c = true → isNumericChar c = true)
    (h : ∀ c ∈ cs.dropWhile p, isNumericChar c = true) : ∀ c ∈ cs, isNumericChar c = true := by
  intro c hc
  rw [← List.takeWhile_append_dropWhile (p := p) (l := cs)] at hc
  cases List.mem_append.1 hc with
  | inl hc => exact hp c (List.mem_takeWhile_imp hc)
  | inr hc => exact h c hc

theorem numericChars_dropSign (h : ∀ c ∈ dropSign cs, isNumericChar c = true) :
    ∀ c ∈ cs, isNumericChar c = true := by
  cases cs with
  | nil => simp
  | cons d cs =>
    rw [dropSign] at h
    split_ifs at h with hd
    · obtain rfl | rfl := hd
      · exact List.forall_mem_cons.2 ⟨by decide, h⟩
      · exact List.forall_mem_cons.2 ⟨by decide, h⟩
    · exact h

theorem isNumericChar_of_isSqlSpace (c : Char) (h : isSqlSpace c = true) :
    isNumericChar c = true := by
  simp [isNumericChar, h]

theorem isNumericChar_of_isDigit (c : Char) (h : c.isDigit = true) : isNumericChar c = true := by
  simp [isNumericChar, Json.isNumChar_of_isDigit h]

theorem numericChars_of_isExponentEnd (h : isExponentEnd cs = true) :
    ∀ c ∈ cs, isNumericChar c = true := by
  have hspaces {ds : List Char} (hds : ds.all isSqlSpace = true) :
      ∀ c ∈ ds, isNumericChar c = true := fun c hc =>
    isNumericChar_of_isSqlSpace c (List.all_eq_true.1 hds c hc)
  cases cs with
  | nil => simp
  | cons d cs =>
    rw [isExponentEnd] at h
    split_ifs at h with hd
    · have hcs : ∀ c ∈ cs, isNumericChar c = true := by
        refine numericChars_dropSign (numericChars_dropWhile isNumericChar_of_isDigit (hspaces ?_))
        simp only [Bool.and_eq_true] at h
        exact h.2
      obtain rfl | rfl := hd
      · exact List.forall_mem_cons.2 ⟨by decide, hcs⟩
      · exact List.forall_mem_cons.2 ⟨by decide, hcs⟩
    · exact hspaces h

theorem numericChars_of_isFractionEnd {whole : Bool} (h : isFractionEnd whole cs = true) :
    ∀ c ∈ cs, isNumericChar c = true := by
  cases cs with
  | nil => simp
  | cons d cs =>
    rw [isFractionEnd] at h
    split_ifs at h with hd
    · rw [Bool.and_eq_true] at h
      refine List.forall_mem_cons.2 ⟨by rw [hd]; decide, ?_⟩
      exact numericChars_dropWhile isNumericChar_of_isDigit (numericChars_of_isExponentEnd h.2)
    · rw [Bool.and_eq_true] at h
      exact numericChars_of_isExponentEnd h.2

theorem numericChars_of_isNumericText (h : isNumericText cs = true) :
    ∀ c ∈ cs, isNumericChar c = true :=
  numericChars_dropWhile isNumericChar_of_isSqlSpace <| numericChars_dropSign <|
    numericChars_dropWhile isNumericChar_of_isDigit (numericChars_of_isFractionEnd h)

/-! ### The values of a column -/

variable (isRepr : FloatLit → Prop)

/-- A float that a database stores, where `isRepr` are the literals that `repr` writes. -/
def storedFloat : PyFloat → Prop
  | .finite lit => isRepr lit ∧ (lit.neg = true → lit.value ≠ 0)
  | .nan => False
  | _ => True

/-- A column of numeric affinity stores such a float as an integer. -/
def isStoredInteger : PyFloat → Prop
  | .finite lit => ∃ n : Int, lit.value = n ∧ n.natAbs < 2 ^ 63
  | _ => False

def Affinity.Holds : Affinity → Cell → Prop
  | _, .blob _ => True
  | .text, .text _ => True
  | .real, .text s => isNumericText s.toList = false
  | .numeric, .text s => isNumericText s.toList = false
  | .real, .real x => storedFloat isRepr x
  | .numeric, .real x => storedFloat isRepr x ∧ ¬ isStoredInteger x
  | .numeric, .integer n => -2 ^ 63 ≤ n ∧ n < 2 ^ 63
  | _, _ => False

/-- What the column's type lets it hold. Keys, references and checks are not among it. -/
def Column.Holds (c : Column) : Cell → Prop
  | .null => c.nullable = true
  | v => c.affinity.Holds isRepr v

/-! ### The tables -/

/-- `TEXT PRIMARY KEY` admits NULL. -/
def nullableText (name : String) : Column := ⟨name, .text, true⟩

def textNotNull (name : String) : Column := ⟨name, .text, false⟩

def timestampNotNull (name : String) : Column := ⟨name, .numeric, false⟩

/-- The tables of `_core_fingerprint`. -/
inductive CoreTable where
  | events
  | claims
  | memories
  | decisions
  deriving DecidableEq

def CoreTable.columns : CoreTable → List Column
  | .events => [nullableText "event_id", textNotNull "user_id", textNotNull "actor",
      textNotNull "event_type", nullableText "target_kind", nullableText "target_id",
      textNotNull "payload_json", nullableText "approval_tier", timestampNotNull "created_at",
      nullableText "session_id"]
  | .claims => [nullableText "claim_id", textNotNull "user_id", textNotNull "subject",
      textNotNull "predicate", textNotNull "object", textNotNull "source_id",
      textNotNull "content_hash", ⟨"confidence", .real, true⟩, textNotNull "state",
      timestampNotNull "created_at", timestampNotNull "updated_at"]
  | .memories => [nullableText "memory_id", textNotNull "user_id", nullableText "source_id",
      textNotNull "vault_path", nullableText "title", nullableText "summary",
      textNotNull "content_hash", textNotNull "state", timestampNotNull "created_at",
      timestampNotNull "updated_at"]
  | .decisions => [nullableText "decision_id", textNotNull "user_id", textNotNull "target_kind",
      textNotNull "target_id", textNotNull "action", textNotNull "actor",
      nullableText "approval_tier", textNotNull "state", nullableText "rationale",
      timestampNotNull "created_at"]

abbrev Row := List Cell

/-- The rows of the core tables, in the order of their rowids. -/
structure CoreContents where
  rows : CoreTable → List Row
  held (t : CoreTable) : ∀ r ∈ rows t, List.Forall₂ (Column.Holds isRepr) t.columns r

variable {isRepr : FloatLit → Prop}

/-! ## The snapshot of a table -/

/-- What the digest is fed for a row. -/
def rowText (r : Row) : List Char :=
  r.flatMap (fun v => '\x1f' :: (v.token ++ ['\x1e'])) ++ ['\n']

/-- The loop of `_table_snapshot` over chunks of `_CHUNK_SIZE` rows, with `total_count` and what the
digest was fed. -/
def snapshotLoop (rows : List Row) (count : Nat) (fed : List Char) (offset : Nat) :
    Nat × List Char :=
  let chunk := (rows.drop offset).take 1000
  if chunk = [] then (count, fed)
  else if chunk.length < 1000 then (count + chunk.length, fed ++ chunk.flatMap rowText)
  else
    snapshotLoop rows (count + chunk.length) (fed ++ chunk.flatMap rowText) (offset + chunk.length)
termination_by rows.length - offset
decreasing_by
  have hlen : chunk.length ≤ rows.length - offset := by simp [chunk]
  change rows.length - (offset + chunk.length) < rows.length - offset
  omega

structure Snapshot where
  count : Nat
  digest : String
  deriving DecidableEq

variable (D : Digest)

/-- `_table_snapshot`. -/
def tableSnapshot (rows : List Row) : Snapshot :=
  let (count, fed) := snapshotLoop rows 0 [] 0
  ⟨count, D.sha256 (String.ofList fed)⟩

def Snapshot.chars (s : Snapshot) : List Char :=
  '{' :: (Json.quote "count" ++ ':' :: (Json.intChars s.count ++
    ',' :: (Json.quote "digest" ++ ':' :: (Json.quote s.digest ++ ['}']))))

/-- `json.dumps(snapshot, sort_keys=True, separators=(",", ":"))`. -/
def snapshotPayload (snapshot : CoreTable → Snapshot) : List Char :=
  '{' :: (Json.quote "claims" ++ ':' :: ((snapshot .claims).chars ++
    ',' :: (Json.quote "decisions" ++ ':' :: ((snapshot .decisions).chars ++
      ',' :: (Json.quote "events" ++ ':' :: ((snapshot .events).chars ++
        ',' :: (Json.quote "memories" ++ ':' :: ((snapshot .memories).chars ++ ['}']))))))))

/-- `_core_fingerprint`. -/
def coreFingerprint (A : CoreContents isRepr) : String :=
  D.sha256 (String.ofList (snapshotPayload fun t => tableSnapshot D (A.rows t)))

/-- The comparison that ends `BackfillRunner.run`. -/
def checkCore (pre post : CoreContents isRepr) : Except String Unit :=
  if coreFingerprint D pre ≠ coreFingerprint D post then
    .error "BackfillRunner violated read-only core invariant"
  else .ok ()

theorem snapshotLoop_eq (rows : List Row) (count : Nat) (fed : List Char) (offset : Nat) :
    snapshotLoop rows count fed offset =
      (count + (rows.drop offset).length, fed ++ (rows.drop offset).flatMap rowText) := by
  induction count, fed, offset using snapshotLoop.induct rows with
  | case1 count fed offset chunk hchunk =>
    have hdrop : rows.drop offset = [] := by simpa [chunk] using hchunk
    rw [snapshotLoop, if_pos hchunk, hdrop]
    simp
  | case2 count fed offset chunk hchunk hshort =>
    have hall : chunk = rows.drop offset := by
      refine List.take_of_length_le ?_
      simp only [chunk, List.length_take] at hshort
      omega
    rw [snapshotLoop, if_neg hchunk, if_pos hshort]
    change (count + chunk.length, fed ++ chunk.flatMap rowText) = _
    rw [hall]
  | case3 count fed offset chunk hchunk hfull ih =>
    have hsplit : rows.drop offset = chunk ++ rows.drop (offset + chunk.length) := by
      have hlen : chunk.length = 1000 := by
        simp only [chunk, List.length_take] at hfull ⊢
        omega
      rw [hlen, ← List.drop_drop]
      exact (List.take_append_drop 1000 _).symm
    rw [snapshotLoop, if_neg hchunk, if_neg hfull]
    change snapshotLoop rows (count + chunk.length) _ _ = _
    rw [ih, hsplit]
    simp [Nat.add_assoc]

@[simp] theorem tableSnapshot_eq (rows : List Row) :
    tableSnapshot D rows = ⟨rows.length, D.sha256 (String.ofList (rows.flatMap rowText))⟩ := by
  simp [tableSnapshot, snapshotLoop_eq]

theorem intChars_append_inj {m n : Int} {x y : List Char}
    (h : Json.intChars m ++ x = Json.intChars n ++ y) (hx : Json.NumEnds x)
    (hy : Json.NumEnds y) : m = n ∧ x = y := by
  rw [← Json.chars, ← Json.chars] at h
  simpa using Json.chars_append_inj h (fun _ => hx) fun _ => hy

theorem quote_append_inj {m n : String} {x y : List Char}
    (h : Json.quote m ++ x = Json.quote n ++ y) : m = n ∧ x = y := by
  rw [← Json.chars, ← Json.chars] at h
  simpa using Json.chars_append_inj h (fun hnum => by cases hnum) fun hnum => by cases hnum

theorem Snapshot.chars_append_inj {s u : Snapshot} {x y : List Char}
    (h : s.chars ++ x = u.chars ++ y) : s = u ∧ x = y := by
  simp only [Snapshot.chars, List.append_assoc, List.cons_append, List.cons.injEq, true_and,
    List.append_cancel_left_eq] at h
  obtain ⟨hcount, hrest⟩ := intChars_append_inj h (Json.numEnds_cons (by decide) _)
    (Json.numEnds_cons (by decide) _)
  simp only [List.cons.injEq, true_and, List.append_cancel_left_eq] at hrest
  obtain ⟨hdigest, hrest⟩ := quote_append_inj hrest
  cases s
  cases u
  simp_all

theorem snapshotPayload_injective : Function.Injective snapshotPayload := by
  intro S T h
  simp only [snapshotPayload, List.cons.injEq, true_and, List.append_cancel_left_eq] at h
  obtain ⟨hclaims, hrest⟩ := Snapshot.chars_append_inj h
  simp only [List.cons.injEq, true_and, List.append_cancel_left_eq] at hrest
  obtain ⟨hdecisions, hrest⟩ := Snapshot.chars_append_inj hrest
  simp only [List.cons.injEq, true_and, List.append_cancel_left_eq] at hrest
  obtain ⟨hevents, hrest⟩ := Snapshot.chars_append_inj hrest
  simp only [List.cons.injEq, true_and, List.append_cancel_left_eq] at hrest
  obtain ⟨hmemories, -⟩ := Snapshot.chars_append_inj hrest
  funext t
  cases t <;> assumption

/-- The fingerprints are equal if and only if the tables have as many rows and the same texts. -/
theorem coreFingerprint_eq_iff (hinj : Function.Injective D.sha256) {A B : CoreContents isRepr} :
    coreFingerprint D A = coreFingerprint D B ↔
      ∀ t, (A.rows t).length = (B.rows t).length ∧
        (A.rows t).flatMap rowText = (B.rows t).flatMap rowText := by
  have hofList {x y : List Char} : String.ofList x = String.ofList y ↔ x = y :=
    ⟨fun h => by simpa using congrArg String.toList h, congrArg String.ofList⟩
  rw [coreFingerprint, coreFingerprint, hinj.eq_iff, hofList, snapshotPayload_injective.eq_iff,
    funext_iff]
  simp [hinj.eq_iff, hofList]

theorem checkCore_ok_iff {pre post : CoreContents isRepr} :
    checkCore D pre post = .ok () ↔ coreFingerprint D pre = coreFingerprint D post := by
  simp [checkCore]

/-! ## Cells in reading order -/

/-- A column, and whether a line ends after it. -/
abbrev Label := Column × Bool

def labels : List Column → List Label
  | [] => []
  | [c] => [(c, true)]
  | c :: d :: cs => (c, false) :: labels (d :: cs)

@[simp] theorem labels_fst (cs : List Column) : (labels cs).map Prod.fst = cs := by
  induction cs using labels.induct with
  | case1 => rfl
  | case2 c => rfl
  | case3 c d cs ih => simp [labels, ih]

@[simp] theorem labels_length (cs : List Column) : (labels cs).length = cs.length := by
  rw [← List.length_map Prod.fst, labels_fst]

variable (isRepr) in
/-- The separators of `_table_snapshot`. -/
def framing : Framing Char Label where
  start := '\x1f'
  stop := '\x1e'
  line := '\n'
  ends := Prod.snd
  fits l t := ∃ v, l.1.Holds isRepr v ∧ v.token = t
  start_ne_stop := by decide
  start_ne_line := by decide
  stop_ne_line := by decide
  fits_of_stop {l t} h := by
    have hnot : isNumericText t = false := by
      by_contra hnum
      exact absurd (numericChars_of_isNumericText (by simpa using hnum) _ h) (by decide)
    refine ⟨.text (String.ofList t), ?_, String.toList_ofList⟩
    cases ha : l.1.affinity <;> simp [Column.Holds, Affinity.Holds, ha, hnot]

/-- The cells of rows with their labels, row by row. -/
def cells (ls : List Label) (rows : List Row) : List (Label × Cell) := rows.flatMap (ls.zip ·)

def pieces (cs : List (Label × Cell)) : List (Label × List Char) :=
  cs.map fun p => (p.1, p.2.token)

@[simp] theorem pieces_fst (cs : List (Label × Cell)) :
    (pieces cs).map Prod.fst = cs.map Prod.fst := by
  simp [pieces, Function.comp_def]

theorem text_row {columns : List Column} {r : Row} (hlen : r.length = columns.length)
    (hne : columns ≠ []) : (framing isRepr).text (pieces ((labels columns).zip r)) = rowText r := by
  induction columns using labels.induct generalizing r with
  | case1 => exact absurd rfl hne
  | case2 c =>
    obtain ⟨v, rfl⟩ := List.length_eq_one_iff.1 hlen
    simp [labels, pieces, rowText, framing, Framing.close]
  | case3 c d cs ih =>
    cases r with
    | nil => cases hlen
    | cons v r =>
      have hrest := ih (r := r) (by simpa using hlen) (by simp)
      simp only [labels, List.zip_cons_cons, pieces, List.map_cons, Framing.text_cons] at hrest ⊢
      rw [hrest]
      simp [rowText, framing, Framing.close]

theorem text_cells {columns : List Column} {rows : List Row}
    (hlen : ∀ r ∈ rows, r.length = columns.length) (hne : columns ≠ []) :
    (framing isRepr).text (pieces (cells (labels columns) rows)) = rows.flatMap rowText := by
  induction rows with
  | nil => rfl
  | cons r rows ih =>
    obtain ⟨hr, hrows⟩ := List.forall_mem_cons.1 hlen
    have hrow : (framing isRepr).text (pieces ((labels columns).zip r)) = rowText r :=
      text_row hr hne
    have hrest := ih hrows
    simp only [cells, pieces, List.flatMap_cons, List.map_append, Framing.text_append]
      at hrow hrest ⊢
    rw [hrow, hrest]

theorem cells_fst {ls : List Label} {rows : List Row} (hlen : ∀ r ∈ rows, r.length = ls.length) :
    (cells ls rows).map Prod.fst = (rows.map fun _ => ls).flatten := by
  induction rows with
  | nil => rfl
  | cons r rows ih =>
    obtain ⟨hr, hrows⟩ := List.forall_mem_cons.1 hlen
    have hrest := ih hrows
    simp only [cells, List.flatMap_cons, List.map_append, List.map_cons, List.flatten_cons]
      at hrest ⊢
    rw [List.map_fst_zip hr.ge, hrest]

/-- Cells that stand under the labels of rows are the cells of rows. -/
theorem exists_rows {ls : List Label} {rows : List Row} (hlen : ∀ r ∈ rows, r.length = ls.length)
    {cs : List (Label × Cell)} (hcs : cs.map Prod.fst = (cells ls rows).map Prod.fst) :
    ∃ rows' : List Row, (∀ r ∈ rows', r.length = ls.length) ∧ rows'.length = rows.length ∧
      cells ls rows' = cs := by
  rw [cells_fst hlen] at hcs
  induction rows generalizing cs with
  | nil => exact ⟨[], by simp, rfl, (List.map_eq_nil_iff.1 hcs).symm⟩
  | cons r rows ih =>
    obtain ⟨xs, ys, rfl, hxs, hys⟩ := List.map_eq_append_iff.1 hcs
    obtain ⟨rows', hlen', hcount, hcells⟩ := ih (List.forall_mem_cons.1 hlen).2 hys
    refine ⟨xs.map Prod.snd :: rows', ?_, by simp [hcount], ?_⟩
    · have hrow : (xs.map Prod.snd).length = ls.length := by simp [← hxs]
      exact List.forall_mem_cons.2 ⟨hrow, hlen'⟩
    · have hzip : xs = ls.zip (xs.map Prod.snd) := List.zip_of_prod hxs rfl
      rw [cells, List.flatMap_cons, ← cells, hcells, ← hzip]

theorem rows_eq_of_cells_eq {ls : List Label} {rows rows' : List Row}
    (hlen : ∀ r ∈ rows, r.length = ls.length) (hlen' : ∀ r ∈ rows', r.length = ls.length)
    (hcount : rows.length = rows'.length) (h : cells ls rows = cells ls rows') : rows = rows' := by
  induction rows generalizing rows' with
  | nil => exact (List.eq_nil_of_length_eq_zero hcount.symm).symm
  | cons r rows ih =>
    cases rows' with
    | nil => cases hcount
    | cons r' rows' =>
      obtain ⟨hr, hrows⟩ := List.forall_mem_cons.1 hlen
      obtain ⟨hr', hrows'⟩ := List.forall_mem_cons.1 hlen'
      obtain ⟨hzip, hrest⟩ := List.append_inj h (by simp [hr, hr'])
      have hsnd := congrArg (List.map Prod.snd) hzip
      rw [List.map_snd_zip hr.le, List.map_snd_zip hr'.le] at hsnd
      rw [hsnd, ih hrows hrows' (by simpa using hcount) hrest]

theorem forall₂_holds_iff {columns : List Column} {r : Row} :
    List.Forall₂ (Column.Holds isRepr) columns r ↔
      r.length = columns.length ∧ ∀ p ∈ (labels columns).zip r, p.1.1.Holds isRepr p.2 := by
  rw [← labels_fst columns, List.forall₂_map_left_iff, List.forall₂_iff_zip]
  simp [eq_comm]

theorem mem_cells {ls : List Label} {rows : List Row} {p : Label × Cell} :
    p ∈ cells ls rows ↔ ∃ r ∈ rows, p ∈ ls.zip r :=
  List.mem_flatMap

/-- Neighbouring cells stand in different columns. -/
theorem isChain_labels (t : CoreTable) {rows : List Row}
    (hlen : ∀ r ∈ rows, r.length = (labels t.columns).length) :
    ((cells (labels t.columns) rows).map Prod.fst).IsChain (· ≠ ·) := by
  have hends : ∀ l ∈ (labels t.columns).getLast?, ∀ m ∈ (labels t.columns).head?, l ≠ m := by
    cases t <;> decide
  have hrow : (labels t.columns).IsChain (· ≠ ·) := by
    cases t <;> decide
  have hne : labels t.columns ≠ [] := by
    cases t <;> decide
  rw [cells_fst hlen, List.isChain_flatten (by simpa using fun _ => hne)]
  refine ⟨?_, ?_⟩
  · intro l hl
    obtain ⟨-, -, rfl⟩ := List.mem_map.1 hl
    exact hrow
  · rw [List.isChain_map]
    exact (List.pairwise_of_forall fun _ _ => hends).isChain

namespace CoreContents

def cells (A : CoreContents isRepr) (t : CoreTable) : List (Label × Cell) :=
  Router.cells (labels t.columns) (A.rows t)

/-- No other value of the column has the text of the cell. -/
def Sole (isRepr : FloatLit → Prop) (p : Label × Cell) : Prop :=
  ∀ v, p.1.1.Holds isRepr v → v.token = p.2.token → v = p.2

/-- Every cell is the sole one with its text, and no neighbours have the text of two others. -/
structure Unambiguous (A : CoreContents isRepr) (t : CoreTable) : Prop where
  sole : ∀ p ∈ A.cells t, Sole isRepr p
  rigid : (framing isRepr).Rigid (pieces (A.cells t))

variable {A B : CoreContents isRepr} {t : CoreTable}

theorem length_row (A : CoreContents isRepr) (t : CoreTable) :
    ∀ r ∈ A.rows t, r.length = (labels t.columns).length := by
  intro r hr
  rw [labels_length]
  exact (forall₂_holds_iff.1 (A.held t r hr)).1

theorem holds_cell {p : Label × Cell} (hp : p ∈ A.cells t) : p.1.1.Holds isRepr p.2 := by
  obtain ⟨r, hr, hp⟩ := mem_cells.1 hp
  exact (forall₂_holds_iff.1 (A.held t r hr)).2 p hp

theorem columns_ne_nil (t : CoreTable) : t.columns ≠ [] := by
  cases t <;> decide

theorem text_eq (A : CoreContents isRepr) (t : CoreTable) :
    (framing isRepr).text (pieces (A.cells t)) = (A.rows t).flatMap rowText :=
  text_cells (fun r hr => by rw [A.length_row t r hr, labels_length]) (columns_ne_nil t)

theorem eq_of_pieces_eq {cs ds : List (Label × Cell)} (hcs : ∀ p ∈ cs, Sole isRepr p)
    (hds : ∀ q ∈ ds, q.1.1.Holds isRepr q.2) (h : pieces cs = pieces ds) : cs = ds := by
  induction cs generalizing ds with
  | nil => exact (List.map_eq_nil_iff.1 h.symm).symm
  | cons p cs ih =>
    cases ds with
    | nil => cases h
    | cons q ds =>
      obtain ⟨hp, hcs⟩ := List.forall_mem_cons.1 hcs
      obtain ⟨hq, hds⟩ := List.forall_mem_cons.1 hds
      simp only [pieces, List.map_cons, List.cons.injEq, Prod.mk.injEq] at h
      obtain ⟨⟨hlabel, htoken⟩, hrest⟩ := h
      have hvalue : q.2 = p.2 := hp q.2 (hlabel ▸ hq) htoken.symm
      rw [ih hcs hds hrest, Prod.ext hlabel hvalue.symm]

/-- Equal texts of an unambiguous table come from equal rows. -/
theorem Unambiguous.rows_eq (h : A.Unambiguous t)
    (hcount : (A.rows t).length = (B.rows t).length)
    (htext : (A.rows t).flatMap rowText = (B.rows t).flatMap rowText) : A.rows t = B.rows t := by
  have hlabels : (A.cells t).map Prod.fst = (B.cells t).map Prod.fst := by
    rw [cells, cells, cells_fst (A.length_row t), cells_fst (B.length_row t), List.map_const',
      List.map_const', hcount]
  have hpieces : pieces (A.cells t) = pieces (B.cells t) := by
    refine h.rigid.eq_of_text_eq (by simpa using hlabels) ?_ (by rw [text_eq, text_eq, htext])
    intro b hb
    obtain ⟨p, hp, rfl⟩ := List.mem_map.1 hb
    exact ⟨p.2, holds_cell hp, rfl⟩
  have hcells : A.cells t = B.cells t := eq_of_pieces_eq h.sole (fun q hq => holds_cell hq) hpieces
  exact rows_eq_of_cells_eq (A.length_row t) (B.length_row t) hcount hcells

/-- A content with other cells in one table. -/
theorem exists_withCells (A : CoreContents isRepr) (t : CoreTable) {cs : List (Label × Cell)}
    (hlabels : cs.map Prod.fst = (A.cells t).map Prod.fst)
    (hheld : ∀ p ∈ cs, p.1.1.Holds isRepr p.2) :
    ∃ B : CoreContents isRepr, (∀ u ≠ t, B.rows u = A.rows u) ∧
      (B.rows t).length = (A.rows t).length ∧ B.cells t = cs := by
  obtain ⟨rows, hlen, hcount, hcells⟩ := exists_rows (A.length_row t) hlabels
  refine ⟨⟨Function.update A.rows t rows, ?_⟩, ?_, ?_, ?_⟩
  · intro u r hr
    by_cases hu : u = t
    · subst hu
      rw [Function.update_self] at hr
      refine forall₂_holds_iff.2 ⟨by rw [hlen r hr, labels_length], fun p hp => hheld p ?_⟩
      rw [← hcells]
      exact mem_cells.2 ⟨r, hr, hp⟩
    · rw [Function.update_of_ne hu] at hr
      exact A.held u r hr
  · intro u hu
    simp [Function.update_of_ne hu]
  · simp [hcount]
  · simp [cells, hcells]

/-- What makes a table ambiguous leads to another content with the same fingerprint: other cells
with the same text. -/
theorem cells_perm_of_detected (D : Digest) (hinj : Function.Injective D.sha256)
    (h : ∀ B : CoreContents isRepr, coreFingerprint D A = coreFingerprint D B →
      ∀ t, (A.rows t).Perm (B.rows t))
    {cs : List (Label × Cell)} (hlabels : cs.map Prod.fst = (A.cells t).map Prod.fst)
    (hheld : ∀ p ∈ cs, p.1.1.Holds isRepr p.2)
    (htext : (framing isRepr).text (pieces cs) = (framing isRepr).text (pieces (A.cells t))) :
    (A.cells t).Perm cs := by
  obtain ⟨B, hrest, hcount, hcells⟩ := A.exists_withCells t hlabels hheld
  have hfp : coreFingerprint D A = coreFingerprint D B := by
    rw [coreFingerprint_eq_iff D hinj]
    intro u
    by_cases hu : u = t
    · subst hu
      exact ⟨hcount.symm, by rw [← text_eq, ← text_eq, hcells, htext]⟩
    · rw [hrest u hu]
      exact ⟨rfl, rfl⟩
  rw [← hcells]
  exact (h B hfp t).flatMap_right _

theorem sole_of_detected (D : Digest) (hinj : Function.Injective D.sha256)
    (h : ∀ B : CoreContents isRepr, coreFingerprint D A = coreFingerprint D B →
      ∀ t, (A.rows t).Perm (B.rows t)) : ∀ p ∈ A.cells t, Sole isRepr p := by
  intro p hp v hv htoken
  have hheld (q : Label × Cell) (hq : q ∈ A.cells t) := holds_cell hq
  have hperm (cs : List (Label × Cell)) (hlabels : cs.map Prod.fst = (A.cells t).map Prod.fst) :=
    cells_perm_of_detected D hinj h hlabels
  obtain ⟨pre, post, hsplit⟩ := List.append_of_mem hp
  rw [hsplit] at hperm hheld
  have hsame := hperm (pre ++ (p.1, v) :: post) (by simp) ?_ (by simp [pieces, htoken])
  · rw [List.perm_append_left_iff] at hsame
    have hsingle : [p].Perm [(p.1, v)] := (List.perm_append_right_iff post).1 hsame
    rw [List.singleton_perm_singleton] at hsingle
    exact (congrArg Prod.snd hsingle).symm
  · intro q hq
    simp only [List.mem_append, List.mem_cons] at hq hheld
    obtain hq | rfl | hq := hq
    · exact hheld q (.inl hq)
    · exact hv
    · exact hheld q (.inr (.inr hq))

theorem rigid_of_detected (D : Digest) (hinj : Function.Injective D.sha256)
    (h : ∀ B : CoreContents isRepr, coreFingerprint D A = coreFingerprint D B →
      ∀ t, (A.rows t).Perm (B.rows t)) : (framing isRepr).Rigid (pieces (A.cells t)) := by
  rw [Framing.Rigid, pieces, List.isChain_map, List.isChain_iff_forall_rel_of_append_cons_cons]
  intro p q pre post hsplit hcut
  obtain ⟨_, _, ⟨v, hv, rfl⟩, ⟨w, hw, rfl⟩, hlen, htext⟩ := Framing.exists_of_recuttable hcut
  have hne : p.1 ≠ q.1 := by
    have hchain := isChain_labels t (A.length_row t)
    rw [← cells, hsplit, List.isChain_map] at hchain
    exact (List.isChain_append_cons_cons.1 hchain).2.1
  have hheld (r : Label × Cell) (hr : r ∈ A.cells t) := holds_cell hr
  have hperm (cs : List (Label × Cell)) (hlabels : cs.map Prod.fst = (A.cells t).map Prod.fst) :=
    cells_perm_of_detected D hinj h hlabels
  rw [hsplit] at hperm hheld
  have hsame := hperm (pre ++ (p.1, v) :: (q.1, w) :: post) (by simp) ?_ ?_
  · rw [List.perm_append_left_iff] at hsame
    have hpair : [p, q].Perm [(p.1, v), (q.1, w)] := (List.perm_append_right_iff post).1 hsame
    have hmem := hpair.subset List.mem_cons_self
    simp only [List.mem_cons, List.not_mem_nil, or_false] at hmem
    cases hmem with
    | inl hpv =>
      have hvalue : p.2 = v := congrArg Prod.snd hpv
      exact hlen (by rw [hvalue])
    | inr hqw =>
      have hlabel : p.1 = q.1 := by rw [hqw]
      exact hne hlabel
  · intro r hr
    simp only [List.mem_append, List.mem_cons] at hr hheld
    obtain hr | rfl | rfl | hr := hr
    · exact hheld r (.inl hr)
    · exact hv
    · exact hw
    · exact hheld r (.inr (.inr (.inr hr)))
  · simpa [pieces] using htext (pieces pre) (pieces post)

/-- The fingerprint, and with it the comparison at the end of a run, detects every change of a
content if and only if no table of it is ambiguous. -/
theorem changes_detected_iff (D : Digest) (hinj : Function.Injective D.sha256)
    (A : CoreContents isRepr) :
    ((∀ B : CoreContents isRepr, coreFingerprint D A = coreFingerprint D B →
        ∀ t, (A.rows t).Perm (B.rows t)) ↔ ∀ t, A.Unambiguous t) ∧
      ((∀ B : CoreContents isRepr, checkCore D A B = .ok () →
        ∀ t, (A.rows t).Perm (B.rows t)) ↔ ∀ t, A.Unambiguous t) := by
  simp only [checkCore_ok_iff, and_self]
  constructor
  · intro h t
    exact ⟨sole_of_detected D hinj h, rigid_of_detected D hinj h⟩
  · intro h B hfp t
    obtain ⟨hcount, htext⟩ := (coreFingerprint_eq_iff D hinj).1 hfp t
    exact .of_eq ((h t).rows_eq hcount htext)

section Untitled

variable (isRepr)

/-- A memory with a title, and no other row. -/
def memoryContents (title : Cell) (h : (nullableText "title").Holds isRepr title) :
    CoreContents isRepr where
  rows
    | .memories => [[.text "m1", .text "alice", .text "s1", .text "a.md", title, .text "note",
        .text "h1", .text "active", .text "2025-01-01T00:00:00Z", .text "2025-01-02T00:00:00Z"]]
    | _ => []
  held t r hr := by
    cases t with
    | memories =>
      obtain rfl := List.mem_singleton.1 hr
      have htimes : isNumericText "2025-01-01T00:00:00Z".toList = false ∧
          isNumericText "2025-01-02T00:00:00Z".toList = false := by decide
      simp only [CoreTable.columns, List.forall₂_cons, List.forall₂_nil_right_iff, and_true]
      exact ⟨trivial, trivial, trivial, trivial, h, trivial, trivial, trivial, htimes⟩
    | events => cases hr
    | claims => cases hr
    | decisions => cases hr

/-- A memory without a title. -/
def untitled : CoreContents isRepr := memoryContents isRepr .null rfl

/-- A memory whose title is the text that stands for none. -/
def titledNull : CoreContents isRepr := memoryContents isRepr (.text "<NULL>") trivial

theorem untitled_fingerprint (D : Digest) (hinj : Function.Injective D.sha256) :
    coreFingerprint D (untitled isRepr) = coreFingerprint D (titledNull isRepr) := by
  rw [coreFingerprint_eq_iff D hinj]
  intro t
  cases t <;> exact ⟨rfl, rfl⟩

theorem untitled_ne_titledNull :
    ¬ ((untitled isRepr).rows .memories).Perm ((titledNull isRepr).rows .memories) := by
  intro h
  have hrow := List.singleton_perm_singleton.1 h
  simp at hrow

end Untitled

theorem changes_detected_untitled : ¬ ∀ t, (untitled fun _ => True).Unambiguous t := by
  rw [← (changes_detected_iff ⟨id, id⟩ Function.injective_id _).1]
  intro h
  have hsame := untitled_fingerprint (fun _ => True) ⟨id, id⟩ Function.injective_id
  exact untitled_ne_titledNull _ (h (titledNull _) hsame .memories)

theorem change_undetected :
    ¬ ∀ D : Digest, Function.Injective D.sha256 → ∀ A B : CoreContents fun _ => True,
      coreFingerprint D A = coreFingerprint D B → ∀ t, (A.rows t).Perm (B.rows t) := by
  intro h
  have hinj : Function.Injective (⟨id, id⟩ : Digest).sha256 := Function.injective_id
  have hsame := untitled_fingerprint (fun _ => True) _ hinj
  exact untitled_ne_titledNull _ (h _ hinj _ _ hsame .memories)

end CoreContents
end ParallaxKernel.Router
