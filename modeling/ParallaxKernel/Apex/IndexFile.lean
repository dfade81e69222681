import ParallaxKernel.Apex.SubjectIndex

/-!
# The file of the subject index

`load_index` and `save_index` of `apex/subject_index.py`, on the text of the file. An index that is
saved is loaded as it was.
-/

namespace ParallaxKernel.Apex

open Lib

/-- What Python makes of the values of other types than the expected one: `value == n` of a float,
`str(value)`, and `int(value)` and `float(value)` where they return. -/
structure Coercions where
  equalsInt : PyFloat → Int → Bool
  str : Json → String
  int : Json → Option Int
  float : Json → Option PyFloat

namespace Coercions

variable (co : Coercions)

/-- `value == 2`. -/
def isSchemaVersion : Option Json → Bool
  | some (.int n) => n = 2
  | some (.float f) => co.equalsInt f 2
  | _ => false

def strOf : Json → String
  | .str s => s
  | v => co.str v

def intOf : Json → Option Int
  | .int n => some n
  | .bool b => some (if b then 1 else 0)
  | v => co.int v

def floatOf : Json → Option PyFloat
  | .float f => some f
  | v => co.float v

end Coercions

/-- The elements that a loop over a value sees. -/
def elements : Json → Option (List Json)
  | .arr xs => some xs
  | .obj ms => some (ms.map fun m => .str m.1)
  | .str s => some (s.toList.map fun c => .str (String.singleton c))
  | _ => none

/-- `item[key]` of an element. -/
def item (key : String) : Json → Option Json
  | .obj ms => Json.member? key ms
  | _ => none

section Load

variable (co : Coercions)

def loadEntry (v : Json) : Option IndexEntry := do
  return {
    subject := co.strOf (← item "subject" v)
    packageId := co.strOf (← item "package_id" v)
    claimId := co.strOf (← item "claim_id" v)
    packageFile := co.strOf (← item "package_file" v) }

/-- A size below zero, which no file has, is not told from a corrupt index. -/
def loadStat (v : Json) : Option PackageStat := do
  let name ← item "name" v
  let size ← co.intOf (← item "size" v)
  let mtimeNs ← co.intOf (← item "mtime_ns" v)
  if size < 0 then none else return ⟨co.strOf name, size.toNat, mtimeNs⟩

/-- `load_index`, of the text of the file. -/
def loadText (raw : String) : Option SubjectIndex := do
  match ← Json.loads raw with
  | .obj ms =>
    if co.isSchemaVersion (Json.member? "schema_version" ms) then
      let entries ← (← elements (← Json.member? "entries" ms)).mapM (loadEntry co)
      let packages ← (← elements (← Json.member? "packages" ms)).mapM (loadStat co)
      let builtAt ← co.floatOf (← Json.member? "built_at" ms)
      return ⟨entries, packages, builtAt⟩
    else none
  | _ => none

end Load

def saveEntry (entry : IndexEntry) : Json :=
  .obj [("subject", .str entry.subject), ("package_id", .str entry.packageId),
    ("claim_id", .str entry.claimId), ("package_file", .str entry.packageFile)]

def saveStat (pkg : PackageStat) : Json :=
  .obj [("name", .str pkg.name), ("size", .int pkg.size), ("mtime_ns", .int pkg.mtimeNs)]

/-- The text that `save_index` writes. -/
def saveText (index : SubjectIndex) : String :=
  Json.dumpsSorted (.obj [("schema_version", .int 2), ("built_at", .float index.builtAt),
    ("packages", .arr (index.packages.map saveStat)),
    ("entries", .arr (index.entries.map saveEntry))])

/-! ## Loading what was saved -/

theorem sortElements_eq (xs : List Json) : Json.sortElements xs = xs.map Json.sortKeys := by
  induction xs with
  | nil => rw [Json.sortElements, List.map_nil]
  | cons x xs ih => rw [Json.sortElements, List.map_cons, ih]

theorem sortKeys_saveEntry (entry : IndexEntry) :
    Json.sortKeys (saveEntry entry) =
      .obj [("claim_id", .str entry.claimId), ("package_file", .str entry.packageFile),
        ("package_id", .str entry.packageId), ("subject", .str entry.subject)] := by
  simp only [saveEntry, Json.sortKeys, Json.sortMembers, Json.insertMember, String.reduceLT,
    if_true, if_false]

theorem sortKeys_saveStat (pkg : PackageStat) :
    Json.sortKeys (saveStat pkg) =
      .obj [("mtime_ns", .int pkg.mtimeNs), ("name", .str pkg.name), ("size", .int pkg.size)] := by
  simp only [saveStat, Json.sortKeys, Json.sortMembers, Json.insertMember, String.reduceLT,
    if_true, if_false]

theorem sortKeys_payload (index : SubjectIndex) :
    Json.sortKeys (.obj [("schema_version", .int 2), ("built_at", .float index.builtAt),
        ("packages", .arr (index.packages.map saveStat)),
        ("entries", .arr (index.entries.map saveEntry))]) =
      .obj [("built_at", .float index.builtAt),
        ("entries", .arr (index.entries.map fun entry => Json.sortKeys (saveEntry entry))),
        ("packages", .arr (index.packages.map fun pkg => Json.sortKeys (saveStat pkg))),
        ("schema_version", .int 2)] := by
  simp only [Json.sortKeys, Json.sortMembers, Json.insertMember, String.reduceLT, if_true, if_false,
    sortElements_eq, List.map_map, Function.comp_def]

variable {co : Coercions}

theorem loadEntry_saved (entry : IndexEntry) :
    loadEntry co (Json.sortKeys (saveEntry entry)) = some entry := by
  rw [sortKeys_saveEntry]
  rfl

theorem loadStat_saved (pkg : PackageStat) :
    loadStat co (Json.sortKeys (saveStat pkg)) = some pkg := by
  have hsize : ¬ (pkg.size : Int) < 0 := by omega
  rw [sortKeys_saveStat]
  simp [loadStat, item, Json.member?, Coercions.intOf, Coercions.strOf, hsize]

/-- An index survives its file. -/
theorem loadText_saveText (index : SubjectIndex) : loadText co (saveText index) = some index := by
  have hentries : (index.entries.map fun entry => Json.sortKeys (saveEntry entry)).mapM
      (loadEntry co) = some index.entries := by
    induction index.entries with
    | nil => rfl
    | cons entry entries ih =>
      rw [List.map_cons, List.mapM_cons, loadEntry_saved, ih]
      rfl
  have hpackages : (index.packages.map fun pkg => Json.sortKeys (saveStat pkg)).mapM
      (loadStat co) = some index.packages := by
    induction index.packages with
    | nil => rfl
    | cons pkg pkgs ih =>
      rw [List.map_cons, List.mapM_cons, loadStat_saved, ih]
      rfl
  rw [loadText, saveText, Json.dumpsSorted, Json.loads_dumps, sortKeys_payload]
  simp [Json.member?, Coercions.isSchemaVersion, elements, hentries, hpackages, Coercions.floatOf]

end ParallaxKernel.Apex
