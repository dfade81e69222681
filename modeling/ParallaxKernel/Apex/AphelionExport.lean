import Mathlib.Data.String.Basic
import ParallaxKernel.Lib.Act
import ParallaxKernel.Lib.FileTree
import ParallaxKernel.Lib.Json
import ParallaxKernel.Lib.KeyOrder
import ParallaxKernel.Lib.Lines

/-!
# Exporting claims

`export_claims` of `apex/aphelion_export.py`, over the tree of files that it finds. The functions of
the `aphelion` package, UTF-8 and SHA-256 are parameters. `source_dir` is given resolved.
-/

namespace ParallaxKernel.Apex

open Lib

/-! ## Claims -/

/-- A lowercase hexadecimal digit. -/
def isLowerHex (c : Char) : Bool := c.isDigit || ('a' ≤ c && c ≤ 'f')

/-- `_CLAIM_ID_RE`, a class for each character. -/
def claimIdClasses : List (Char → Bool) :=
  List.replicate 8 isLowerHex ++ (· == '-') :: List.replicate 4 isLowerHex ++
    (· == '-') :: (· == '7') :: List.replicate 3 isLowerHex ++
    (· == '-') :: ("89ab".toList.contains ·) :: List.replicate 3 isLowerHex ++
    (· == '-') :: List.replicate 12 isLowerHex

/-- A text with one character for each class. -/
def fullMatch : List (Char → Bool) → List Char → Bool
  | [], [] => true
  | p :: ps, c :: cs => p c && fullMatch ps cs
  | _, _ => false

structure ExportClaim where
  claimId : String
  body : String
  claimInstanceId : Option String
  subject : Option String
  polarity : Option String
  validFrom : Option String
  validUntil : Option String
  supersedes : List String
  targetClaimId : Option String

/-- `AphelionExportError`. -/
inductive ExportError where
  | claimId (claimId : String)
  | lineBreak (field value : String)
  | itemLineBreak (field item : String)
  | claimsSymlink
  | claimsNotDirectory
  | staleSymlink (name : String)
  | outside (target : Path)

/-- What `export_claims` raises: its own error, an `OSError`, or what a function of the `aphelion`
package raises. -/
inductive ExportFailure where
  | refused (e : ExportError)
  | os
  | aphelion

/-- `_validate_claim_id`. -/
def validateClaimId (claimId : String) : Except ExportError Unit :=
  if fullMatch claimIdClasses claimId.toList then .ok () else .error (.claimId claimId)

/-- A value of the frontmatter. -/
inductive FrontValue where
  | text (s : String)
  | list (items : List String)

/-- `_has_line_break`. -/
def hasLineBreak (value : String) : Bool :=
  value ≠ "" && splitlines value.toList ≠ [value.toList]

/-- `_reject_multiline_frontmatter`. -/
def rejectMultilineFrontmatter (frontmatter : List (String × FrontValue)) :
    Except ExportError Unit :=
  frontmatter.forM fun
    | (key, .text value) => if hasLineBreak value then .error (.lineBreak key value) else .ok ()
    | (key, .list items) => items.forM fun item =>
      if hasLineBreak item then .error (.itemLineBreak key item) else .ok ()

/-- The fields of the frontmatter that are there. -/
def frontmatter (claim : ExportClaim) : List (String × FrontValue) :=
  let text (key : String) (value : Option String) : List (String × FrontValue) :=
    (value.map fun s => (key, .text s)).toList
  ("claim_id", .text claim.claimId) :: text "subject" claim.subject ++
    text "polarity" claim.polarity ++ text "valid_from" claim.validFrom ++
    text "valid_until" claim.validUntil ++
    (if claim.supersedes = [] then []
      else [("supersedes", .list (claim.supersedes.insertionSort (· ≤ ·)))]) ++
    text "target_claim_id" claim.targetClaimId

/-! ## What is written -/

/-- An entry of the manifest; its `state` is `active`. -/
structure ManifestClaim where
  claimId : String
  claimInstanceId : String
  hash : String
  path : String

/-- The manifest. Its versions and the path of the provenance are constants. -/
structure Manifest where
  claims : List ManifestClaim
  createdAt : String
  license : String
  packageId : String
  producer : String

/-- An event of type `create`. -/
structure CreateEvent where
  actor : String
  claimId : String
  claimInstanceId : String
  eventId : String
  timestamp : String

/-- What the export calls of the `aphelion` package, of `hashlib` and of UTF-8. A function that
raises returns none. -/
structure Aphelion (Bytes : Type) where
  utf8 : String → Bytes
  sha256 : Bytes → String
  join : List Bytes → Bytes
  emitFrontmatter : List (String × FrontValue) → Option String
  manifestBytes : Manifest → Option Bytes
  eventBytes : CreateEvent → Option Bytes
  pack : FileTree Bytes → Option Unit × FileTree Bytes

/-- The arguments of `export_claims` beside the claims. -/
structure Package where
  source : Path
  names : ∀ name ∈ source, FileTree.IsName name
  packageId : String
  createdAt : String
  producer : String
  license : String
  actor : String

namespace Package

variable (pkg : Package)

def claimsDir : Path := pkg.source ++ ["claims"]

def claimPath (claimId : String) : Path := pkg.claimsDir ++ [claimId ++ ".md"]

def manifestPath : Path := pkg.source ++ ["manifest.json"]

def provenancePath : Path := pkg.source ++ ["provenance.jsonl"]

end Package

/-- The UUID that is cut out of a digest. -/
def uuidOfDigest (digest : String) : String :=
  let piece (start stop : Nat) : List Char := (digest.toList.drop start).take (stop - start)
  let variant := (digest.toList.drop 16).head?.bind Json.hexVal
  String.ofList (piece 0 8 ++ '-' :: piece 8 12 ++ '-' :: '7' :: piece 13 16 ++
    '-' :: Json.hexDigit ((variant.getD 0 &&& 3) ||| 8) :: piece 17 20 ++ '-' :: piece 20 32)

section Export

variable {Bytes : Type} (A : Aphelion Bytes)

/-- `_derive_uuid7`. -/
def deriveUuid7 (parts : List String) : String :=
  uuidOfDigest (A.sha256 (A.utf8 ("\x1f".intercalate parts)))

/-- `build_claim_markdown`. -/
def buildClaimMarkdown (claim : ExportClaim) : Except ExportFailure Bytes := do
  let ordered := (frontmatter claim).insertionSort (KeyLe id)
  (rejectMultilineFrontmatter ordered).mapError .refused
  match A.emitFrontmatter ordered with
  | none => throw .aphelion
  | some yaml => return A.utf8 ("---\n" ++ yaml ++ "---\n" ++ claim.body)

/-- The claims with their files, built before anything is touched. -/
def prepare (claims : List ExportClaim) : Except ExportFailure (List (ExportClaim × Bytes)) :=
  claims.mapM fun claim => do
    (validateClaimId claim.claimId).mapError .refused
    return (claim, ← buildClaimMarkdown A claim)

variable (pkg : Package)

def instanceId (claim : ExportClaim) : String :=
  match claim.claimInstanceId with
  | none | some "" => deriveUuid7 A [pkg.packageId, claim.claimId, "instance"]
  | some given => given

def relPath (claimId : String) : String := "claims/" ++ (claimId ++ ".md")

def manifestClaim (prepared : ExportClaim × Bytes) : ManifestClaim where
  claimId := prepared.1.claimId
  claimInstanceId := instanceId A pkg prepared.1
  hash := A.sha256 prepared.2
  path := relPath prepared.1.claimId

def createEvent (prepared : ExportClaim × Bytes) : CreateEvent where
  actor := pkg.actor
  claimId := prepared.1.claimId
  claimInstanceId := instanceId A pkg prepared.1
  eventId := deriveUuid7 A [pkg.packageId, prepared.1.claimId, "create"]
  timestamp := pkg.createdAt

def manifest (prepared : List (ExportClaim × Bytes)) : Manifest where
  claims := prepared.map (manifestClaim A pkg)
  createdAt := pkg.createdAt
  license := pkg.license
  packageId := pkg.packageId
  producer := pkg.producer

/-! ## The export -/

/-- A system call, which may fail. -/
def osStep (call : FileTree Bytes → Option (FileTree Bytes)) :
    Act (FileTree Bytes) ExportFailure Unit :=
  Act.step fun t =>
    match call t with
    | some u => (.ok (), u)
    | none => (.error .os, t)

/-- The pattern `*.md`. -/
def isMd (name : String) : Bool := ".md".toList.isSuffixOf name.toList

/-- `claims_dir.glob("*.md")`. -/
def claimFiles (t : FileTree Bytes) : List String := (t.children pkg.claimsDir).filter isMd

/-- The body of the loop over stale claim files. -/
def removeStale (name : String) : Act (FileTree Bytes) ExportFailure PUnit := do
  match ← Act.look (·.node? (pkg.claimsDir ++ [name])) with
  | some (.link _) => throw (.refused (.staleSymlink name))
  | _ => osStep (·.unlink (pkg.claimsDir ++ [name]))

/-- The write of one claim. -/
def writeClaim (prepared : ExportClaim × Bytes) : Act (FileTree Bytes) ExportFailure PUnit := do
  match ← Act.look (·.resolve (pkg.claimPath prepared.1.claimId)) with
  | none => throw .os
  | some target =>
    if pkg.claimsDir <+: target then osStep (·.put target prepared.2)
    else throw (.refused (.outside target))

/-- The write of the manifest and of the provenance. -/
def writeDocuments (prepared : List (ExportClaim × Bytes)) :
    Act (FileTree Bytes) ExportFailure Unit := do
  match A.manifestBytes (manifest A pkg prepared) with
  | none => throw .aphelion
  | some bytes => osStep (·.write pkg.manifestPath bytes)
  match prepared.mapM fun p => A.eventBytes (createEvent A pkg p) with
  | none => throw .aphelion
  | some events => osStep (·.write pkg.provenancePath (A.join events))

/-- `export_claims` from the removal of stale files to the call of the packer. -/
def materializeInto (prepared : List (ExportClaim × Bytes)) :
    Act (FileTree Bytes) ExportFailure Unit := do
  forM (← Act.look (claimFiles pkg)) (removeStale pkg)
  forM prepared (writeClaim pkg)
  writeDocuments A pkg prepared

/-- `export_claims` up to the call of the packer. -/
def materialize (claims : List ExportClaim) :
    Act (FileTree Bytes) ExportFailure Unit := do
  let prepared ← Act.ofExcept (prepare A claims)
  match ← Act.look (·.node? pkg.claimsDir) with
  | some (.link _) => throw (.refused .claimsSymlink)
  | some (.file _) => throw (.refused .claimsNotDirectory)
  | _ => osStep (·.mkdirs pkg.claimsDir)
  materializeInto A pkg prepared

/-- `export_claims`: the ids of the exported claims. -/
def exportClaims (claims : List ExportClaim) : Act (FileTree Bytes) ExportFailure (List String) := do
  materialize A pkg claims
  Act.step fun t =>
    match A.pack t with
    | (some _, u) => (.ok (), u)
    | (none, u) => (.error .aphelion, u)
  return claims.map ExportClaim.claimId

/-! ## Stale claim files -/

variable {A} {pkg} {t u : FileTree Bytes}

theorem osStep_ends (call : FileTree Bytes → Option (FileTree Bytes)) :
    (osStep call).ends t =
      match call t with
      | some u => (.ok (), u)
      | none => (.error .os, t) := rfl

def IsFile (t : FileTree Bytes) (p : Path) : Prop := ∃ i, t.node? p = some (.file i)

def IsLink (t : FileTree Bytes) (p : Path) : Prop := ∃ l, t.node? p = some (.link l)

/-- The claim files `names` are removed from `t`, and nothing else. -/
structure Removed (pkg : Package) (names : List String) (t u : FileTree Bytes) : Prop where
  node? : ∀ p, u.node? p = if ∃ name ∈ names, p = pkg.claimsDir ++ [name] then none else t.node? p
  contents : u.contents = t.contents
  sameWays : FileTree.SameWays t u
  same : names = [] → u = t

theorem removeStale_file {name : String} (h : IsFile t (pkg.claimsDir ++ [name])) :
    ∃ u, (removeStale pkg name).ends t = (.ok (), u) ∧ Removed pkg [name] t u := by
  obtain ⟨i, hi⟩ := h
  have hdir : t.node? (pkg.claimsDir ++ [name]) ≠ some .dir := by
    rw [hi]
    simp
  have hends : (removeStale pkg name).ends t =
      (osStep (·.unlink (pkg.claimsDir ++ [name]))).ends t := by
    rw [removeStale, Act.ends_look_bind, hi]
  refine ⟨t.remove (pkg.claimsDir ++ [name]) hdir, ?_, ?_, rfl, ?_, by simp⟩
  · rw [hends, osStep_ends, FileTree.unlink_file hi hdir]
  · intro p
    rw [FileTree.node?_remove (by simp)]
    simp
  · exact FileTree.sameWays_remove hi

/-- The loop removes the files before the first entry that is none, and stops there. -/
theorem removeStale_loop {names : List String} (rest : List String) (hnodup : names.Nodup)
    (hfiles : ∀ name ∈ names, IsFile t (pkg.claimsDir ++ [name])) :
    ∃ u, (forM (names ++ rest) (removeStale pkg)).ends t =
      (forM rest (removeStale pkg)).ends u ∧ Removed pkg names t u := by
  induction names generalizing t with
  | nil => exact ⟨t, rfl, fun p => by simp, rfl, .refl t, fun _ => rfl⟩
  | cons name names ih =>
    rw [List.nodup_cons] at hnodup
    obtain ⟨u, hu, hremoved⟩ := removeStale_file (hfiles name List.mem_cons_self)
    have hleft : ∀ other ∈ names, IsFile u (pkg.claimsDir ++ [other]) := by
      intro other hother
      obtain ⟨i, hi⟩ := hfiles other (List.mem_cons_of_mem name hother)
      have hne : other ≠ name := fun heq => hnodup.1 (heq ▸ hother)
      exact ⟨i, by rw [hremoved.node?, if_neg (by simpa using hne), hi]⟩
    obtain ⟨v, hv, hremoved'⟩ := ih hnodup.2 hleft
    refine ⟨v, ?_, ?_, hremoved'.contents.trans hremoved.contents,
      hremoved.sameWays.trans hremoved'.sameWays, by simp⟩
    · rw [List.cons_append, List.forM_cons, Act.ends_bind, hu]
      exact hv
    · intro p
      rw [hremoved'.node?, hremoved.node?]
      by_cases hp : p = pkg.claimsDir ++ [name]
      · subst hp
        simp
      · simp [hp]

theorem removeStale_link {name : String} (h : IsLink t (pkg.claimsDir ++ [name])) :
    (removeStale pkg name).ends t = (.error (.refused (.staleSymlink name)), t) := by
  obtain ⟨l, hl⟩ := h
  rw [removeStale, Act.ends_look_bind, hl, Act.ends_throw]

theorem removeStale_dir {name : String} (h : t.node? (pkg.claimsDir ++ [name]) = some .dir) :
    (removeStale pkg name).ends t = (.error .os, t) := by
  have hends : (removeStale pkg name).ends t =
      (osStep (·.unlink (pkg.claimsDir ++ [name]))).ends t := by
    rw [removeStale, Act.ends_look_bind, h]
  rw [hends, osStep_ends, FileTree.unlink_dir h]

theorem nodup_claimFiles (pkg : Package) (t : FileTree Bytes) : (claimFiles pkg t).Nodup :=
  (FileTree.nodup_children t _).filter _

theorem exists_node {name : String} (h : name ∈ claimFiles pkg t) :
    ∃ n, t.node? (pkg.claimsDir ++ [name]) = some n :=
  Option.isSome_iff_exists.1 (FileTree.mem_children.1 (List.mem_filter.1 h).1)

/-- The claim files of the tree start with files, and a link comes before anything else. -/
def LinkAfterFiles (pkg : Package) (t : FileTree Bytes) (files : List String) : Prop :=
  ∃ link rest, claimFiles pkg t = files ++ link :: rest ∧
    (∀ name ∈ files, IsFile t (pkg.claimsDir ++ [name])) ∧ IsLink t (pkg.claimsDir ++ [link])

/-- How the loop over stale claim files ends. -/
inductive Cleared (pkg : Package) (t : FileTree Bytes) :
    Except ExportFailure PUnit × FileTree Bytes → Prop where
  | all (u : FileTree Bytes)
      (hfiles : ∀ name ∈ claimFiles pkg t, IsFile t (pkg.claimsDir ++ [name]))
      (hremoved : Removed pkg (claimFiles pkg t) t u) : Cleared pkg t (.ok (), u)
  | link (u : FileTree Bytes) (files : List String) (name : String)
      (hlink : LinkAfterFiles pkg t files) (hremoved : Removed pkg files t u) :
      Cleared pkg t (.error (.refused (.staleSymlink name)), u)
  | dir (u : FileTree Bytes) (files rest : List String) (name : String)
      (hnames : claimFiles pkg t = files ++ name :: rest)
      (hfiles : ∀ name ∈ files, IsFile t (pkg.claimsDir ++ [name]))
      (hdir : t.node? (pkg.claimsDir ++ [name]) = some .dir) : Cleared pkg t (.error .os, u)

/-- A list starts with its longest run of elements that satisfy `p`. -/
theorem exists_run {α : Type} (p : α → Prop) (xs : List α) :
    (∀ x ∈ xs, p x) ∨ ∃ run x rest, xs = run ++ x :: rest ∧ (∀ y ∈ run, p y) ∧ ¬ p x := by
  induction xs with
  | nil => exact .inl (by simp)
  | cons x xs ih =>
    by_cases hx : p x
    · cases ih with
      | inl hall => exact .inl (List.forall_mem_cons.2 ⟨hx, hall⟩)
      | inr hrun =>
        obtain ⟨run, y, rest, rfl, hrun, hy⟩ := hrun
        exact .inr ⟨x :: run, y, rest, rfl, List.forall_mem_cons.2 ⟨hx, hrun⟩, hy⟩
    · exact .inr ⟨[], x, xs, rfl, by simp, hx⟩

theorem cleared (pkg : Package) (t : FileTree Bytes) :
    Cleared pkg t ((forM (claimFiles pkg t) (removeStale pkg)).ends t) := by
  have hnodup := nodup_claimFiles pkg t
  cases exists_run (fun name => IsFile t (pkg.claimsDir ++ [name])) (claimFiles pkg t) with
  | inl hall =>
    obtain ⟨u, hends, hremoved⟩ := removeStale_loop [] hnodup hall
    rw [List.append_nil, List.forM_nil, Act.ends_pure] at hends
    exact hends ▸ .all u hall hremoved
  | inr hrun =>
    obtain ⟨files, name, rest, hnames, hfiles, hname⟩ := hrun
    rw [hnames] at hnodup ⊢
    obtain ⟨u, hends, hremoved⟩ :=
      removeStale_loop (name :: rest) (List.nodup_append.1 hnodup).1 hfiles
    have hsame : u.node? (pkg.claimsDir ++ [name]) = t.node? (pkg.claimsDir ++ [name]) := by
      have hnot : name ∉ files := fun hmem =>
        (List.nodup_append.1 hnodup).2.2 name hmem name List.mem_cons_self rfl
      rw [hremoved.node?, if_neg (by simpa using hnot)]
    obtain ⟨n, hn⟩ := exists_node (hnames ▸ List.mem_append_right files List.mem_cons_self)
    rw [hends, List.forM_cons, Act.ends_bind]
    cases n with
    | file i => exact absurd ⟨i, hn⟩ hname
    | dir =>
      rw [removeStale_dir (hsame.trans hn)]
      exact .dir u files rest name hnames hfiles hn
    | link l =>
      rw [removeStale_link ⟨l, hsame.trans hn⟩]
      exact .link u files name ⟨name, rest, hnames, hfiles, l, hn⟩ hremoved

/-! ## Writing claims -/

/-- The claims directory is real, and what is named like a claim in it is a file with no other
name. -/
structure Ready (pkg : Package) (t : FileTree Bytes) : Prop where
  dirs : ∀ q, q <+: pkg.claimsDir → t.node? q = some .dir
  files : ∀ name, isMd name = true → ∀ n, t.node? (pkg.claimsDir ++ [name]) = some n →
    ∃ i, n = .file i
  single : ∀ name, isMd name = true → ∀ q,
    FileTree.SameFile t (pkg.claimsDir ++ [name]) q → q = pkg.claimsDir ++ [name]

theorem isMd_claim (claimId : String) : isMd (claimId ++ ".md") = true := by
  rw [isMd, List.isSuffixOf_iff_suffix, String.toList_append]
  exact List.suffix_append _ _

theorem isName_of_isMd {name : String} (h : isMd name = true) : FileTree.IsName name := by
  constructor
  · rintro rfl
    revert h
    decide
  · rintro rfl
    revert h
    decide

theorem names_claimsDir : ∀ name ∈ pkg.claimsDir, FileTree.IsName name := by
  intro name hname
  cases List.mem_append.1 hname with
  | inl hsource => exact pkg.names name hsource
  | inr hclaims =>
    rw [List.mem_singleton.1 hclaims]
    exact ⟨by decide, by decide⟩

/-- Claims are written where they are asked to be. -/
theorem Ready.resolve (h : Ready pkg t) {name : String} (hmd : isMd name = true) :
    t.resolve (pkg.claimsDir ++ [name]) = some (pkg.claimsDir ++ [name]) :=
  FileTree.resolve_real names_claimsDir (isName_of_isMd hmd) h.dirs (h.files name hmd)

theorem Ready.put (h : Ready pkg t) {p : Path} {b : Bytes} (hput : t.put p b = some u) :
    Ready pkg u := by
  obtain ⟨⟨j, hfile⟩, hother⟩ := FileTree.node?_put hput
  constructor
  · intro q hq
    have hne : q ≠ p := by
      rintro rfl
      obtain ⟨i, hi⟩ := FileTree.file_of_put hput _ (h.dirs q hq)
      cases hi
    rw [hother q hne, h.dirs q hq]
  · intro name hmd n hn
    by_cases heq : pkg.claimsDir ++ [name] = p
    · rw [heq, hfile] at hn
      cases hn
      exact ⟨j, rfl⟩
    · rw [hother _ heq] at hn
      exact h.files name hmd n hn
  · intro name hmd q hsame
    cases FileTree.sameFile_of_put hput hsame with
    | inl heq => exact heq.symm
    | inr hsame => exact h.single name hmd q hsame

theorem Ready.exists_put (h : Ready pkg t) {name : String} (hmd : isMd name = true) (b : Bytes) :
    ∃ u, t.put (pkg.claimsDir ++ [name]) b = some u := by
  refine FileTree.exists_put (h.files name hmd) ?_ b
  rw [List.dropLast_concat]
  exact h.dirs _ List.prefix_rfl

theorem writeClaim_ends (h : Ready pkg t) (prepared : ExportClaim × Bytes) :
    ∃ u, t.put (pkg.claimPath prepared.1.claimId) prepared.2 = some u ∧ Ready pkg u ∧
      (writeClaim pkg prepared).ends t = (.ok (), u) := by
  have hmd := isMd_claim prepared.1.claimId
  obtain ⟨u, hput⟩ := h.exists_put hmd prepared.2
  refine ⟨u, hput, h.put hput, ?_⟩
  rw [writeClaim, Act.ends_look_bind, Package.claimPath, h.resolve hmd]
  have hinside : pkg.claimsDir <+: pkg.claimsDir ++ [prepared.1.claimId ++ ".md"] :=
    List.prefix_append _ _
  simp only [if_pos hinside]
  rw [osStep_ends, hput]

theorem writeClaim_loop (h : Ready pkg t) (prepared : List (ExportClaim × Bytes)) :
    ∃ u, (forM prepared (writeClaim pkg)).ends t = (.ok (), u) := by
  induction prepared generalizing t with
  | nil => exact ⟨t, rfl⟩
  | cons p ps ih =>
    obtain ⟨u, -, hready, hends⟩ := writeClaim_ends h p
    obtain ⟨v, hv⟩ := ih hready
    refine ⟨v, ?_⟩
    rw [List.forM_cons, Act.ends_bind, hends]
    exact hv

/-! ## Refused exports -/

/-- Where claims/ is a directory the call that makes it changes nothing. -/
theorem mkdirs_claimsDir (h : t.node? pkg.claimsDir = some .dir) :
    t.mkdirs pkg.claimsDir = some t := by
  refine FileTree.mkdirs_of_dir fun q hq => ?_
  by_cases hne : q = pkg.claimsDir
  · exact hne ▸ h
  · exact FileTree.dir_of_prefix h hq hne

/-- A new claims directory is empty. -/
theorem claimFiles_mkdirs (h : t.node? pkg.claimsDir ≠ some .dir)
    (hmkdirs : t.mkdirs pkg.claimsDir = some u) : claimFiles pkg u = [] := by
  rw [claimFiles, List.filter_eq_nil_iff]
  intro name hname
  have hnode := FileTree.mem_children.1 hname
  have hout : ¬ pkg.claimsDir ++ [name] <+: pkg.claimsDir := fun hpre => by
    have hlen := hpre.length_le
    simp at hlen
  rw [FileTree.node?_mkdirs hmkdirs, if_neg hout, ← FileTree.mem_children,
    FileTree.children_of_not_dir h] at hnode
  cases hnode

/-- After the stale claim files are gone there is nothing that is named like a claim. -/
theorem node?_of_removed (h : Removed pkg (claimFiles pkg t) t u) {name : String}
    (hmd : isMd name = true) : u.node? (pkg.claimsDir ++ [name]) = none := by
  rw [h.node?]
  split_ifs with hstale
  · rfl
  · by_contra hne
    have hmem : name ∈ claimFiles pkg t := List.mem_filter.2
      ⟨FileTree.mem_children.2 (Option.isSome_iff_ne_none.2 hne), hmd⟩
    exact hstale ⟨name, hmem, rfl⟩

/-- The directory is ready for the new files then. -/
theorem ready_of_removed (hdirs : ∀ q, q <+: pkg.claimsDir → t.node? q = some .dir)
    (h : Removed pkg (claimFiles pkg t) t u) : Ready pkg u := by
  constructor
  · intro q hq
    have hne : ¬ ∃ name ∈ claimFiles pkg t, q = pkg.claimsDir ++ [name] := by
      rintro ⟨name, -, rfl⟩
      have hlen := hq.length_le
      simp at hlen
    rw [h.node?, if_neg hne, hdirs q hq]
  · intro name hmd n hn
    rw [node?_of_removed h hmd] at hn
    cases hn
  · rintro name hmd q (heq | ⟨i, hi, -⟩)
    · exact heq.symm
    · rw [node?_of_removed h hmd] at hi
      cases hi

theorem writeDocuments_refused {prepared : List (ExportClaim × Bytes)} {e : ExportError} :
    (writeDocuments A pkg prepared).ends t ≠ (.error (.refused e), u) := by
  intro h
  rw [writeDocuments] at h
  cases hmanifest : A.manifestBytes (manifest A pkg prepared) with
  | none =>
    rw [hmanifest, Act.ends_bind] at h
    cases h
  | some bytes =>
    rw [hmanifest, Act.ends_bind] at h
    simp only [osStep_ends] at h
    cases hwrite : t.write pkg.manifestPath bytes with
    | none =>
      rw [hwrite] at h
      cases h
    | some v =>
      rw [hwrite] at h
      cases hevents : prepared.mapM fun p => A.eventBytes (createEvent A pkg p) with
      | none =>
        rw [hevents] at h
        cases h
      | some events =>
        simp only [hevents, osStep_ends] at h
        cases hwrite' : v.write pkg.provenancePath (A.join events) with
        | none =>
          rw [hwrite'] at h
          cases h
        | some w =>
          rw [hwrite'] at h
          cases h

/-- From the removal of stale files on only a link among them is refused. -/
theorem materializeInto_refused {prepared : List (ExportClaim × Bytes)} {e : ExportError}
    (hdirs : ∀ q, q <+: pkg.claimsDir → t.node? q = some .dir)
    (h : (materializeInto A pkg prepared).ends t = (.error (.refused e), u)) :
    ∃ files, LinkAfterFiles pkg t files ∧ Removed pkg files t u := by
  rw [materializeInto, Act.ends_look_bind, Act.ends_bind] at h
  have hcleared := cleared pkg t
  generalize (forM (claimFiles pkg t) (removeStale pkg)).ends t = ended at h hcleared
  cases hcleared with
  | all v hfiles hremoved =>
    have hready := ready_of_removed hdirs hremoved
    obtain ⟨w, hw⟩ := writeClaim_loop hready prepared
    simp only [Act.ends_bind, hw] at h
    exact absurd h writeDocuments_refused
  | link v files name hlink hremoved =>
    cases h
    exact ⟨files, hlink, hremoved⟩
  | dir v files rest name hnames hfiles hdir => cases h

theorem materializeInto_link {prepared : List (ExportClaim × Bytes)} {files : List String}
    (h : LinkAfterFiles pkg t files) : ∃ e u,
      (materializeInto A pkg prepared).ends t = (.error (.refused e), u) ∧
        Removed pkg files t u := by
  obtain ⟨link, rest, hnames, hfiles, hlink⟩ := h
  have hnodup := hnames ▸ nodup_claimFiles pkg t
  obtain ⟨u, hends, hremoved⟩ :=
    removeStale_loop (link :: rest) (List.nodup_append.1 hnodup).1 hfiles
  have hnot : link ∉ files := fun hmem =>
    (List.nodup_append.1 hnodup).2.2 link hmem link List.mem_cons_self rfl
  have hlink' : IsLink u (pkg.claimsDir ++ [link]) := by
    obtain ⟨l, hl⟩ := hlink
    exact ⟨l, by rw [hremoved.node?, if_neg (by simpa using hnot), hl]⟩
  refine ⟨.staleSymlink link, u, ?_, hremoved⟩
  rw [materializeInto, Act.ends_look_bind, hnames, Act.ends_bind, hends, List.forM_cons,
    Act.ends_bind, removeStale_link hlink']

theorem mkdirs_refused {prepared : List (ExportClaim × Bytes)} {e : ExportError}
    (h : (osStep (·.mkdirs pkg.claimsDir) >>= fun _ => materializeInto A pkg prepared).ends t =
      (.error (.refused e), u)) :
    t.node? pkg.claimsDir = some .dir ∧
      ∃ files, LinkAfterFiles pkg t files ∧ Removed pkg files t u := by
  rw [Act.ends_bind, osStep_ends] at h
  cases hmkdirs : t.mkdirs pkg.claimsDir with
  | none =>
    rw [hmkdirs] at h
    cases h
  | some v =>
    rw [hmkdirs] at h
    have hdirs : ∀ q, q <+: pkg.claimsDir → v.node? q = some .dir := by
      intro q hq
      rw [FileTree.node?_mkdirs hmkdirs, if_pos hq]
    obtain ⟨files, hlink, hremoved⟩ := materializeInto_refused hdirs h
    by_cases hdir : t.node? pkg.claimsDir = some .dir
    · obtain rfl : v = t := by
        rw [mkdirs_claimsDir hdir] at hmkdirs
        exact (Option.some.inj hmkdirs).symm
      exact ⟨hdir, files, hlink, hremoved⟩
    · obtain ⟨link, rest, hnames, -⟩ := hlink
      rw [claimFiles_mkdirs hdir hmkdirs] at hnames
      simp at hnames

/-- How an export is refused. -/
theorem materialize_refused {claims : List ExportClaim} {e : ExportError}
    (h : (materialize A pkg claims).ends t = (.error (.refused e), u)) :
    u = t ∨ (∃ prepared, prepare A claims = .ok prepared) ∧
      t.node? pkg.claimsDir = some .dir ∧
      ∃ files, LinkAfterFiles pkg t files ∧ Removed pkg files t u := by
  rw [materialize, Act.ends_bind, Act.ends_ofExcept] at h
  cases hprepare : prepare A claims with
  | error failure =>
    rw [hprepare] at h
    cases h
    exact .inl rfl
  | ok prepared =>
    rw [hprepare] at h
    simp only [Act.ends_look_bind] at h
    split at h
    · cases h
      exact .inl rfl
    · cases h
      exact .inl rfl
    · exact .inr ⟨⟨prepared, rfl⟩, mkdirs_refused h⟩

theorem materialize_link (claims : List ExportClaim) {prepared : List (ExportClaim × Bytes)}
    (hprepare : prepare A claims = .ok prepared) (hdir : t.node? pkg.claimsDir = some .dir)
    {files : List String} (h : LinkAfterFiles pkg t files) : ∃ e u,
      (materialize A pkg claims).ends t = (.error (.refused e), u) ∧ Removed pkg files t u := by
  obtain ⟨e, u, hends, hremoved⟩ := materializeInto_link (A := A) h
  refine ⟨e, u, ?_, hremoved⟩
  rw [materialize, Act.ends_bind, Act.ends_ofExcept, hprepare]
  simp only [Act.ends_look_bind, hdir]
  rw [Act.ends_bind, osStep_ends, mkdirs_claimsDir hdir]
  exact hends

theorem exportClaims_refused {claims : List ExportClaim} {e : ExportError} :
    (exportClaims A pkg claims).ends t = (.error (.refused e), u) ↔
      (materialize A pkg claims).ends t = (.error (.refused e), u) := by
  rw [exportClaims, Act.ends_bind]
  generalize (materialize A pkg claims).ends t = ended
  obtain ⟨result, v⟩ := ended
  cases result with
  | error failure => simp
  | ok _ =>
    refine iff_of_false (fun h => ?_) (by simp)
    simp only [Act.ends_bind, Act.ends_step] at h
    cases hpack : A.pack v with
    | mk packed w =>
      rw [hpack] at h
      cases packed <;> cases h

/-- A refused export leaves the tree as it was, unless claims are fit to be written and a stale
claim file that is a link comes after files that have been removed by then. -/
theorem refused_unchanged_iff (A : Aphelion Bytes) (pkg : Package) (claims : List ExportClaim)
    (t : FileTree Bytes) :
    (∀ e u, (exportClaims A pkg claims).ends t = (.error (.refused e), u) → u = t) ↔
      ¬ ((∃ prepared, prepare A claims = .ok prepared) ∧ t.node? pkg.claimsDir = some .dir ∧
        ∃ files, files ≠ [] ∧ LinkAfterFiles pkg t files) := by
  constructor
  · rintro hunchanged ⟨⟨prepared, hprepare⟩, hdir, files, hne, hlink⟩
    obtain ⟨e, u, hends, hremoved⟩ := materialize_link (A := A) claims hprepare hdir hlink
    obtain rfl := hunchanged e u (exportClaims_refused.2 hends)
    obtain ⟨name, hname⟩ := List.exists_mem_of_ne_nil files hne
    obtain ⟨link, rest, -, hfiles, -⟩ := hlink
    obtain ⟨i, hi⟩ := hfiles name hname
    rw [hremoved.node?, if_pos ⟨name, hname, rfl⟩] at hi
    cases hi
  · intro hnot e u h
    cases materialize_refused (exportClaims_refused.1 h) with
    | inl hsame => exact hsame
    | inr hpartial =>
      obtain ⟨hprepare, hdir, files, hlink, hremoved⟩ := hpartial
      by_cases hfiles : files = []
      · exact hremoved.same hfiles
      · exact absurd ⟨hprepare, hdir, files, hfiles, hlink⟩ hnot

end Export

/-- Library functions on texts; the export of no claims calls none of them before it is refused. -/
def plainAphelion : Aphelion String where
  utf8 := id
  sha256 := id
  join := String.join
  emitFrontmatter _ := some ""
  manifestBytes _ := some "\x7b\x7d"
  eventBytes _ := some "\x7b\x7d\n"
  pack t := (some (), t)

def samplePackage : Package where
  source := ["pkg"]
  names := by decide
  packageId := "0197a1b2-0000-7000-8000-00000000000a"
  createdAt := "2026-01-01T00:00:00Z"
  producer := "parallax-apex-export"
  license := "Apache-2.0"
  actor := "parallax-apex-export"

/-- A claims directory that lists a file of an earlier export and then a link. -/
def fileThenLink : FileTree String where
  nodes := [(["pkg"], .dir), (["pkg", "claims"], .dir), (["pkg", "claims", "a.md"], .file 0),
    (["pkg", "claims", "b.md"], .link ⟨true, ["tmp", "b.md"]⟩)]
  contents := ["---\n---\n"]
  distinct := by decide
  proper := by decide
  parents := by decide
  stored := by simp

/-- The file is gone although the export is refused. -/
theorem not_refused_unchanged : ∃ e u,
    (exportClaims plainAphelion samplePackage []).ends fileThenLink = (.error (.refused e), u) ∧
      u ≠ fileThenLink := by
  have hlink : LinkAfterFiles samplePackage fileThenLink ["a.md"] := by
    refine ⟨"b.md", [], by decide, ?_, ⟨true, ["tmp", "b.md"]⟩, by decide⟩
    intro name hname
    obtain rfl := List.mem_singleton.1 hname
    exact ⟨0, by decide⟩
  obtain ⟨e, u, hends, hremoved⟩ :=
    materialize_link (A := plainAphelion) [] rfl (by decide) hlink
  refine ⟨e, u, exportClaims_refused.2 hends, ?_⟩
  rintro rfl
  have hgone := hremoved.node? (samplePackage.claimsDir ++ ["a.md"])
  rw [if_pos ⟨"a.md", by simp, rfl⟩] at hgone
  revert hgone
  decide

end ParallaxKernel.Apex
