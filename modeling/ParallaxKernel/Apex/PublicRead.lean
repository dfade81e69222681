import ParallaxKernel.Apex.Resolver
import ParallaxKernel.Apex.SubjectIndex
import ParallaxKernel.Router.AphelionAdapter

/-!
# The public read router

`ApexPublicReadRouter` of `apex/router.py`. A free-text query resolves its prompt to subjects and
reads each of them from the packages that the subject index names; `query_freetext` says that it
answers what the exact reads of these subjects answer over all packages. Metrics and log lines are
left out.
-/

namespace ParallaxKernel.Apex

open Lib Router

/-! ## Packages -/

/-- What reading a claim file of an unpacked package gives. -/
inductive ClaimFile where
  | escapes
  | unreadable
  | raises (e : AphelionError)
  | holds (frontmatter : Claim) (body : String)

/-- The tree that `unpack` leaves, with the manifest where it can be read. -/
structure Extracted where
  manifest : Option Json
  claim : String → ClaimFile

/-- A package file of the directory. -/
structure PackageFile where
  stat : PackageStat
  unpack : Except AphelionError Extracted
  verifyPackage : Except AphelionError Unit
  validateSignatures : Except AphelionError Unit

def classifyPackageException : AphelionError → String
  | .fileNotFound => "package_missing"
  | .signerVerification code =>
    if code = "E_SIGNER_REQUIRED" then "unsigned_package" else "signer_untrusted"
  | .security | .verification | .semantic | .schema _ => "package_corrupt"
  | .permission | .os | .tar | .other _ => "lib_error"

/-- The fence of `_read_package_claims`. -/
def fenced {α : Type} (r : Except AphelionError α) : Except Exc α :=
  r.mapError fun e => .aphelionUnreachable (classifyPackageException e)

/-- `{**members, key: value}`. -/
def setMember (key : String) (value : Json) (members : List (String × Json)) :
    List (String × Json) :=
  if (Json.member? key members).isSome then
    members.map fun m => if m.1 = key then (key, value) else m
  else members ++ [(key, value)]

/-- An entry of the manifest with what its file holds. A `TypeError` or `KeyError` is a
`lib_error`. -/
def projectClaim (packageId : Json) (extracted : Extracted) : Json → Except Exc Claim
  | .obj entry =>
    match Json.member? "path" entry with
    | some (.str path) =>
      match extracted.claim path with
      | .escapes | .unreadable => .error (.aphelionUnreachable "package_corrupt")
      | .raises e => fenced (.error e)
      | .holds frontmatter body =>
        .ok (setMember claimContentKey (.str body) (setMember "package_id" packageId frontmatter))
    | _ => .error (.aphelionUnreachable "lib_error")
  | _ => .error (.aphelionUnreachable "lib_error")

/-- `_project_claims`. -/
def projectClaims (extracted : Extracted) : Except Exc (List Claim) :=
  match extracted.manifest with
  | some (.obj manifest) =>
    match Json.member? "package_id" manifest, Json.member? "claims" manifest with
    | some packageId, some (.arr entries) => entries.mapM (projectClaim packageId extracted)
    | some _, some (.obj []) | some _, some (.str "") => .ok []
    | some _, some _ => .error (.aphelionUnreachable "lib_error")
    | _, _ => .error (.aphelionUnreachable "package_corrupt")
  | _ => .error (.aphelionUnreachable "package_corrupt")

/-- `_read_package_claims`. -/
def readPackageClaims (package : PackageFile) : Except Exc (List Claim) := do
  let extracted ← fenced package.unpack
  fenced package.verifyPackage
  fenced package.validateSignatures
  projectClaims extracted

/-- `str(value or "")`, with `str` for what is not a text. -/
def strOr (str : Json → String) : Option Json → String
  | some (.str value) => value
  | some value => if value.truthy then str value else ""
  | none => ""

/-- `_scan_index_entries`, of one package. -/
def scanPackage (str : Json → String) (package : PackageFile) : Except Exc (List IndexEntry) := do
  let claims ← readPackageClaims package
  return claims.filterMap fun claim =>
    match stringField claim "subject", Json.member? "claim_id" claim with
    | some subject, some (.str claimId) =>
      some {
        subject
        packageId := strOr str (Json.member? "package_id" claim)
        claimId
        packageFile := package.stat.name }
    | _, _ => none

def scanIndexEntries (str : Json → String) (corpus : List PackageFile) :
    Except Exc (List IndexEntry) := do
  return (← corpus.mapM (scanPackage str)).flatten

/-- The packages that a load reads: all, or those of a scope. -/
def inScope (scopedPackages : Option (List String)) (corpus : List PackageFile) :
    List PackageFile :=
  match scopedPackages with
  | none => corpus
  | some names => corpus.filter fun package => package.stat.name ∈ names

/-- `_load_candidate_claims`. -/
def loadCandidateClaims (corpus : List PackageFile) (scopedPackages : Option (List String)) :
    Except Exc (List Claim) := do
  return (← (inScope scopedPackages corpus).mapM readPackageClaims).flatten

/-! ## The router -/

/-- What a router is built with, the packages of its directory in the order of their names, the
order in which it iterates over a set of subjects, and what it draws: for the `n`-th read of the
adapter an audit connection, the time and a message id. -/
structure PublicRouter where
  corpus : List PackageFile
  str : Json → String
  lower : String → String
  iterate : List String → List String
  resolverTopK : Int
  validateV03Fields : Claim → Except SchemaError Unit
  read : String → List Claim → Except SchemaError ReadResult
  auditConnProvider : Nat → Except Exc Unit
  utcNow : Nat → DateTime
  uuid4 : Nat → String
  indexSaved : Bool
  builtAt : PyFloat

/-- The adapter, the scratch state of a query, the index as it is stored, and how many reads the
adapter has made. -/
structure RouterState where
  adapter : Adapter
  scopedPackages : Option (List String)
  lastCorpusEmpty : Bool
  index : Option SubjectIndex
  reads : Nat

abbrev PublicRead (α : Type) := Act (Session AuditTable RouterState) Exc α

abbrev Hit := List (String × Json)

/-- `_explicit_subject`. -/
def explicitSubject (request : QueryRequest) : Option String :=
  stringField (request.params.getD []) "subject"

/-- `_with_subject`. -/
def withSubject (request : QueryRequest) (subject : String) : QueryRequest :=
  { request with params := some (setMember "subject" (.str subject) (request.params.getD [])) }

def notFoundNote : String := "conflict_class=" ++ ConflictClass.notFound.value

/-- `_empty_evidence`. -/
def emptyEvidence (extraNotes : List String) : RetrievalEvidence Json where
  hits := []
  stages := ["aphelion_v03_r4"]
  notes := notFoundNote :: extraNotes
  sqlFragments := []
  diversityMode := "none"

/-- The id of a hit of the adapter, where it is not empty. -/
def hitId (hit : Hit) : Option String := stringField hit "id"

section Router

variable (D : HexDigest) (py : PyText) (router : PublicRouter)

/-- The adapter of the router at its `n`-th read. -/
def aphelionOf (n : Nat) (scopedPackages : Option (List String)) : Router.Aphelion where
  claimLoader _ := loadCandidateClaims router.corpus scopedPackages
  validateV03Fields := router.validateV03Fields
  read := router.read
  auditConnProvider := router.auditConnProvider n
  utcNow := router.utcNow n
  uuid4 := router.uuid4 n

def setScopedPackages (scopedPackages : Option (List String)) : PublicRead Unit :=
  .modify fun s => { s with own := { s.own with scopedPackages } }

def setLastCorpusEmpty (lastCorpusEmpty : Bool) : PublicRead Unit :=
  .modify fun s => { s with own := { s.own with lastCorpusEmpty } }

/-- The session as the adapter has it. -/
def adapterSession (s : Session AuditTable RouterState) : Session AuditTable Adapter :=
  ⟨s.conn, s.answers, s.own.adapter⟩

def setAdapterSession (s : Session AuditTable RouterState) (t : Session AuditTable Adapter) :
    Session AuditTable RouterState :=
  ⟨t.conn, t.answers, { s.own with adapter := t.own }⟩

/-- `self._adapter.query`. -/
def adapterQuery (request : QueryRequest) : PublicRead (RetrievalEvidence Json) := do
  let state ← Act.look fun s => s.own
  Act.modify fun s => { s with own := { s.own with reads := s.own.reads + 1 } }
  setLastCorpusEmpty router.corpus.isEmpty
  Act.focus adapterSession setAdapterSession
    (Router.query D py (aphelionOf router state.reads state.scopedPackages) request)

/-- `_query_exact`. -/
def queryExact (request : QueryRequest) : PublicRead (RetrievalEvidence Json) := do
  setScopedPackages none
  adapterQuery D py router request

/-- The loop over the candidates, with the ids that it has seen and the hits that it has merged. -/
def readCandidates (index : SubjectIndex) (request : QueryRequest) :
    List ScoredSubject → List String × List Hit → PublicRead (List Hit)
  | [], merged => pure merged.2
  | candidate :: candidates, merged => do
    let packages := index.packagesForSubject candidate.subject
    setScopedPackages (some packages)
    if packages.isEmpty then readCandidates index request candidates merged
    else
      let evidence ← adapterQuery D py router (withSubject request candidate.subject)
      readCandidates index request candidates (evidence.hits.foldl (collectFirst hitId) merged)

/-- `subject_index.load_or_rebuild`, which saves the index that it rebuilds if it can. -/
def loadIndex : PublicRead SubjectIndex := do
  let stored ← Act.look fun s => s.own.index
  let index ← Act.ofExcept (loadOrRebuild stored (router.corpus.map (·.stat))
    (scanIndexEntries router.str router.corpus) router.builtAt)
  Act.modify fun s =>
    if router.indexSaved then { s with own := { s.own with index := some index } } else s
  return index

/-- `_query_freetext` from the index on. -/
def queryIndex (index : SubjectIndex) (request : QueryRequest) :
    PublicRead (RetrievalEvidence Json) := do
  setLastCorpusEmpty index.isEmpty
  if index.isEmpty then return emptyEvidence ["corpus=empty"]
  else
    let candidates := resolveSubjects router.lower request.q (router.iterate index.subjects)
      router.resolverTopK
    if candidates.isEmpty then
      return emptyEvidence ["resolver=token_overlap", "candidates=0"]
    else
      let merged ← readCandidates D py router index request candidates ([], [])
      let notes := ["resolver=token_overlap", "candidates=" ++ toString candidates.length,
        "subjects=" ++ ",".intercalate (candidates.map (·.subject))]
      if merged.isEmpty then return emptyEvidence notes
      else
        return {
          hits := merged
          stages := ["aphelion_v03_r4"]
          notes
          sqlFragments := []
          diversityMode := "none" }

def queryFreetext (request : QueryRequest) : PublicRead (RetrievalEvidence Json) := do
  let index ← loadIndex router
  queryIndex D py router index request

def publicQuery (request : QueryRequest) : PublicRead (RetrievalEvidence Json) := do
  setScopedPackages none
  match explicitSubject request with
  | some _ => queryExact D py router request
  | none => queryFreetext D py router request

/-! ## The ranked union -/

/-- The hits of the exact reads of some subjects, one read after the other. -/
def exactReads (request : QueryRequest) : List ScoredSubject → PublicRead (List (List Hit))
  | [] => pure []
  | candidate :: candidates => do
    let evidence ← publicQuery D py router (withSubject request candidate.subject)
    let rest ← exactReads request candidates
    return evidence.hits :: rest

/-- The hits of the exact reads in the order of the candidates, of each id the first. -/
def rankedUnion (request : QueryRequest) (candidates : List ScoredSubject) :
    PublicRead (List Hit) := do
  let hitss ← exactReads D py router request candidates
  return firstOfEach hitId hitss.flatten

/-- The packages can be read and their claims pass the validation of the adapter. -/
def PublicRouter.Valid : Prop :=
  ∀ package ∈ router.corpus, ∃ claims, readPackageClaims package = .ok claims ∧
    ∀ claim ∈ claims, router.validateV03Fields claim = .ok ()

/-- The answer of the reader depends on the claims that carry the subject. -/
def PublicRouter.ReadsOwnClaims : Prop :=
  ∀ subject claims claims',
    (claims.filter fun claim => stringField claim "subject" = some subject) =
      (claims'.filter fun claim => stringField claim "subject" = some subject) →
    router.read subject claims = router.read subject claims'

/-- A claim of the package carries the subject. -/
def PackageFile.Carries (package : PackageFile) (subject : String) : Prop :=
  ∃ claims, readPackageClaims package = .ok claims ∧
    ∃ claim ∈ claims, stringField claim "subject" = some subject

end Router

/-- The index is that of the packages: their identities, and under each subject the packages that
carry it. -/
structure SubjectIndex.Fresh (index : SubjectIndex) (corpus : List PackageFile) : Prop where
  packages : index.packages = corpus.map (·.stat)
  entries : ∀ subject file, file ∈ index.packagesForSubject subject ↔
    ∃ package ∈ corpus, package.stat.name = file ∧ package.Carries subject

/-- The claims of a package have ids. -/
def PackageFile.HasIds (package : PackageFile) : Prop :=
  ∀ claims, readPackageClaims package = .ok claims →
    ∀ claim ∈ claims, ∃ id, Json.member? "claim_id" claim = some (.str id)

theorem exists_mem_scanPackage {str : Json → String} {package : PackageFile}
    {entries : List IndexEntry} (hids : package.HasIds)
    (hscan : scanPackage str package = .ok entries) (subject file : String) :
    (∃ entry ∈ entries, entry.subject = subject ∧ entry.packageFile = file) ↔
      package.stat.name = file ∧ package.Carries subject := by
  obtain ⟨claims, hclaims, hentries⟩ := except_bind_eq_ok.1 hscan
  obtain rfl := Except.ok.inj hentries
  constructor
  · rintro ⟨entry, hentry, rfl, rfl⟩
    obtain ⟨claim, hclaim, hsome⟩ := List.mem_filterMap.1 hentry
    split at hsome
    · rename_i subject claimId hsubject hid
      obtain rfl := Option.some.inj hsome
      exact ⟨rfl, claims, hclaims, claim, hclaim, hsubject⟩
    · cases hsome
  · rintro ⟨rfl, claims', hclaims', claim, hclaim, hsubject⟩
    obtain rfl : claims = claims' := Except.ok.inj (hclaims.symm.trans hclaims')
    obtain ⟨id, hid⟩ := hids claims hclaims claim hclaim
    refine ⟨⟨subject, strOr str (Json.member? "package_id" claim), id, package.stat.name⟩,
      List.mem_filterMap.2 ⟨claim, hclaim, ?_⟩, rfl, rfl⟩
    simp only [hsubject, hid]

/-- A scan of packages whose claims have ids is a fresh index. -/
theorem fresh_scan {str : Json → String} {corpus : List PackageFile} {entries : List IndexEntry}
    {now : PyFloat} (hids : ∀ package ∈ corpus, package.HasIds)
    (hscan : scanIndexEntries str corpus = .ok entries) :
    SubjectIndex.Fresh ⟨entries, corpus.map (·.stat), now⟩ corpus := by
  refine ⟨rfl, fun subject file => ?_⟩
  rw [SubjectIndex.mem_packagesForSubject]
  dsimp only
  obtain ⟨found, hfound, hflat⟩ := except_bind_eq_ok.1 hscan
  obtain rfl : found.flatten = entries := Except.ok.inj hflat
  clear hscan hflat
  induction corpus generalizing found with
  | nil =>
    obtain rfl : [] = found := Except.ok.inj hfound
    simp
  | cons package corpus ih =>
    rw [List.mapM_cons] at hfound
    obtain ⟨first, hfirst, hloop⟩ := except_bind_eq_ok.1 hfound
    obtain ⟨rest, hrest, hcons⟩ := except_bind_eq_ok.1 hloop
    obtain rfl : first :: rest = found := Except.ok.inj hcons
    have hpackage := exists_mem_scanPackage (hids package List.mem_cons_self) hfirst subject file
    have hcorpus := ih (fun p hp => hids p (List.mem_cons_of_mem package hp)) rest hrest
    simp only [List.flatten_cons, List.mem_append, List.mem_cons, or_and_right, exists_or,
      exists_eq_left, hpackage, hcorpus]

/-- What the router loads is a fresh index, where an index is stored only after a change of the
packages or fresh. -/
theorem fresh_loadOrRebuild {str : Json → String} {corpus : List PackageFile}
    {stored : Option SubjectIndex} {now : PyFloat} {index : SubjectIndex}
    (hids : ∀ package ∈ corpus, package.HasIds)
    (hstored : ∀ index, stored = some index → index.packages = corpus.map (·.stat) →
      index.Fresh corpus)
    (h : loadOrRebuild stored (corpus.map (·.stat)) (scanIndexEntries str corpus) now =
      .ok index) : index.Fresh corpus := by
  unfold loadOrRebuild at h
  split at h
  · rename_i index' hsome
    obtain rfl := Except.ok.inj h
    obtain ⟨hmem, hpackages⟩ := Option.filter_eq_some_iff.1 hsome
    exact hstored _ hmem (by simpa using hpackages)
  · cases hscan : scanIndexEntries str corpus with
    | ok entries =>
      rw [hscan] at h
      obtain rfl := Except.ok.inj h
      exact fresh_scan hids hscan
    | error e =>
      rw [hscan] at h
      cases h

/-- What a query shows: the connection, the adapter, and how often it was asked. -/
def shown (s : Session AuditTable RouterState) :
    Prog.Conn AuditTable × List Answer × Adapter × Nat :=
  (s.conn, s.answers, s.own.adapter, s.own.reads)

section Union

variable {D : HexDigest} {py : PyText} {router : PublicRouter} {request : QueryRequest}
variable {index : SubjectIndex}

open Act

/-! ### Subjects of requests -/

theorem member?_setMember {key : String} {value : Json} {members : List (String × Json)} :
    Json.member? key (setMember key value members) = some value := by
  unfold setMember
  split_ifs with hmem
  · obtain ⟨m, hm, -⟩ := Option.map_eq_some_iff.1 (Option.isSome_iff_exists.1 hmem).choose_spec
    have hkey : m.1 = key := by simpa using List.find?_some hm
    have hsame : ((fun n : String × Json => n.1 == key) ∘
        fun n => if n.1 = key then (key, value) else n) = fun n => n.1 == key := by
      funext n
      by_cases h : n.1 = key <;> simp [h]
    unfold Json.member?
    rw [← List.map_reverse, List.find?_map, hsame, hm]
    simp [hkey]
  · simp [Json.member?]

theorem explicitSubject_withSubject {subject : String} (h : subject ≠ "") :
    explicitSubject (withSubject request subject) = some subject := by
  simp [explicitSubject, withSubject, stringField, member?_setMember, h]

theorem resolveSubject_withSubject {subject : String} (h : subject ≠ "") :
    resolveSubject (withSubject request subject) = subject := by
  simp [resolveSubject, withSubject, member?_setMember, h]

/-! ### Loads -/

/-- The claims of a package that can be read. -/
def packageClaims (package : PackageFile) : List Claim :=
  (readPackageClaims package).toOption.getD []

theorem loadCandidateClaims_eq (hvalid : router.Valid) (names : Option (List String)) :
    loadCandidateClaims router.corpus names =
      .ok ((inScope names router.corpus).map packageClaims).flatten := by
  have hsub : ∀ package ∈ inScope names router.corpus, package ∈ router.corpus := by
    cases names with
    | none => exact fun _ h => h
    | some names => exact fun _ h => (List.mem_filter.1 h).1
  have hread : ∀ package ∈ inScope names router.corpus,
      readPackageClaims package = .ok (packageClaims package) := by
    intro package hpackage
    obtain ⟨claims, hclaims, -⟩ := hvalid package (hsub package hpackage)
    simp [packageClaims, hclaims, Except.toOption]
  rw [loadCandidateClaims, except_mapM_eq_ok hread]
  rfl

theorem validateV03Fields_of_valid (hvalid : router.Valid) (names : Option (List String)) :
    ∀ claim ∈ ((inScope names router.corpus).map packageClaims).flatten,
      router.validateV03Fields claim = .ok () := by
  intro claim hclaim
  obtain ⟨claims, hclaims, hmem⟩ := List.mem_flatten.1 hclaim
  obtain ⟨package, hpackage, rfl⟩ := List.mem_map.1 hclaims
  have hcorpus : package ∈ router.corpus := by
    cases names with
    | none => exact hpackage
    | some names => exact (List.mem_filter.1 hpackage).1
  obtain ⟨claims, hread, hall⟩ := hvalid package hcorpus
  refine hall claim ?_
  simpa [packageClaims, hread, Except.toOption] using hmem

/-- Out of scope there are no claims of the subject. -/
theorem filter_inScope {subject : String} {names : List String} {corpus : List PackageFile}
    (h : ∀ package ∈ corpus, package.Carries subject → package.stat.name ∈ names) :
    (((inScope (some names) corpus).map packageClaims).flatten.filter fun claim =>
        stringField claim "subject" = some subject) =
      (corpus.map packageClaims).flatten.filter fun claim =>
        stringField claim "subject" = some subject := by
  induction corpus with
  | nil => rfl
  | cons package corpus ih =>
    have ih := ih fun p hp => h p (List.mem_cons_of_mem package hp)
    by_cases hname : package.stat.name ∈ names
    · have hscope : inScope (some names) (package :: corpus) =
        package :: inScope (some names) corpus := by simp [inScope, hname]
      rw [hscope, List.map_cons, List.map_cons, List.flatten_cons, List.flatten_cons,
        List.filter_append, List.filter_append, ih]
    · have hscope : inScope (some names) (package :: corpus) = inScope (some names) corpus := by
        simp [inScope, hname]
      have hnone : (packageClaims package).filter (fun claim =>
          stringField claim "subject" = some subject) = [] := by
        refine List.filter_eq_nil_iff.2 fun claim hclaim hsubject => hname ?_
        cases hread : readPackageClaims package with
        | error e => simp [packageClaims, hread, Except.toOption] at hclaim
        | ok claims =>
          refine h package List.mem_cons_self ⟨claims, hread, claim, ?_, by simpa using hsubject⟩
          simpa [packageClaims, hread, Except.toOption] using hclaim
      rw [hscope, List.map_cons, List.flatten_cons, List.filter_append, hnone, List.nil_append, ih]

/-! ### One read -/

theorem validateClaims_eq {aphelion : Router.Aphelion} {claims : List Claim}
    (h : ∀ claim ∈ claims, aphelion.validateV03Fields claim = .ok ()) :
    validateClaims aphelion claims = pure () := by
  induction claims with
  | nil => rfl
  | cons claim claims ih =>
    rw [validateClaims, h claim List.mem_cons_self]
    exact ih fun c hc => h c (List.mem_cons_of_mem claim hc)

/-- The adapter does the same in the scope of a subject as over all packages. -/
theorem query_inScope (hvalid : router.Valid) (hlocal : router.ReadsOwnClaims)
    (hfresh : index.Fresh router.corpus) {subject : String} (hsubject : subject ≠ "") (n : Nat) :
    Router.query D py (aphelionOf router n (some (index.packagesForSubject subject)))
        (withSubject request subject) =
      Router.query D py (aphelionOf router n none) (withSubject request subject) := by
  have hread : router.read subject
      ((inScope (some (index.packagesForSubject subject)) router.corpus).map packageClaims).flatten =
      router.read subject ((inScope none router.corpus).map packageClaims).flatten := by
    refine hlocal subject _ _ (filter_inScope fun package hpackage hcarries => ?_)
    exact (hfresh.entries subject _).2 ⟨package, hpackage, rfl, hcarries⟩
  have hload (names : Option (List String)) :
      loadClaims (aphelionOf router n names) (withSubject request subject) =
        pure ((inScope names router.corpus).map packageClaims).flatten := by
    simp only [loadClaims, aphelionOf, loadCandidateClaims_eq hvalid]
  have hvalidate (names : Option (List String)) :
      validateClaims (aphelionOf router n names)
        ((inScope names router.corpus).map packageClaims).flatten = pure () :=
    validateClaims_eq (validateV03Fields_of_valid hvalid names)
  have hclaims : readClaims (aphelionOf router n (some (index.packagesForSubject subject))) subject
      ((inScope (some (index.packagesForSubject subject)) router.corpus).map packageClaims).flatten =
      readClaims (aphelionOf router n none) subject
        ((inScope none router.corpus).map packageClaims).flatten := by
    simp only [readClaims, aphelionOf, hread]
  have hemit : emit D py (aphelionOf router n (some (index.packagesForSubject subject))) =
      emit D py (aphelionOf router n none) := rfl
  unfold Router.query
  simp only [hload, hvalidate, pure_bind, resolveSubject_withSubject hsubject, hclaims, hemit]

/-! ### The loop over the candidates -/

variable (D py router) in
/-- A read in a scope is a query of the adapter, and the scope does not show. -/
theorem scopedQuery_run (names : Option (List String)) (request : QueryRequest)
    (s : Session AuditTable RouterState) :
    let run := (do setScopedPackages names; adapterQuery D py router request) s
    let query := Router.query D py (aphelionOf router s.own.reads names) request (adapterSession s)
    run.result = query.result ∧ shown run.final =
      (query.final.conn, query.final.answers, query.final.own, s.own.reads + 1) := ⟨rfl, rfl⟩

/-- The read of a candidate in its scope shows what the exact read of the subject shows. -/
theorem scopedRead_agree (hvalid : router.Valid) (hlocal : router.ReadsOwnClaims)
    (hfresh : index.Fresh router.corpus) {subject : String} (hsubject : subject ≠ "") :
    Agree shown
      (do
        setScopedPackages (some (index.packagesForSubject subject))
        adapterQuery D py router (withSubject request subject))
      (publicQuery D py router (withSubject request subject)) := by
  unfold publicQuery
  rw [explicitSubject_withSubject hsubject]
  refine agree_modify_right (fun _ => rfl) ?_
  intro s t hst
  have hsession : adapterSession s = adapterSession t := by
    simp only [shown, Prod.mk.injEq] at hst
    simp only [adapterSession, hst.1, hst.2.1, hst.2.2.1]
  have hreads : s.own.reads = t.own.reads := congrArg (fun v => v.2.2.2) hst
  obtain ⟨hresult, hfinal⟩ := scopedQuery_run D py router
    (some (index.packagesForSubject subject)) (withSubject request subject) s
  obtain ⟨hresult', hfinal'⟩ := scopedQuery_run D py router none (withSubject request subject) t
  rw [query_inScope hvalid hlocal hfresh hsubject, hsession, hreads] at hresult hfinal
  exact ⟨hresult.trans hresult'.symm, hfinal.trans hfinal'.symm⟩

/-- The loop over the candidates merges the hits of their exact reads. -/
theorem readCandidates_agree {candidates : List ScoredSubject} {merged : List String × List Hit}
    (hpackages : ∀ c ∈ candidates, index.packagesForSubject c.subject ≠ [])
    (hread : ∀ c ∈ candidates, Agree shown
      (do
        setScopedPackages (some (index.packagesForSubject c.subject))
        adapterQuery D py router (withSubject request c.subject))
      (publicQuery D py router (withSubject request c.subject))) :
    Agree shown (readCandidates D py router index request candidates merged) (do
      let hitss ← exactReads D py router request candidates
      return (hitss.flatten.foldl (collectFirst hitId) merged).2) := by
  induction candidates generalizing merged with
  | nil => exact agree_pure merged.2
  | cons candidate candidates ih =>
    have hne : (index.packagesForSubject candidate.subject).isEmpty = false := by
      simpa using hpackages candidate List.mem_cons_self
    rw [readCandidates, exactReads]
    simp only [hne, Bool.false_eq_true, if_false, bind_assoc, pure_bind]
    rw [← bind_assoc]
    refine agree_bind (hread candidate List.mem_cons_self) fun evidence => ?_
    simp only [List.flatten_cons, List.foldl_append]
    exact ih (fun c hc => hpackages c (List.mem_cons_of_mem _ hc))
      fun c hc => hread c (List.mem_cons_of_mem _ hc)

/-! ### Free-text queries -/

/-- The subjects of a fresh index are not empty texts. -/
theorem subject_ne_empty (hfresh : index.Fresh router.corpus) {subject : String}
    (h : subject ∈ index.subjects) : subject ≠ "" := by
  obtain ⟨file, hfile⟩ := List.exists_mem_of_ne_nil _ (SubjectIndex.packagesForSubject_ne_nil h)
  obtain ⟨package, -, -, claims, -, claim, -, hsubject⟩ := (hfresh.entries subject file).1 hfile
  rintro rfl
  unfold stringField at hsubject
  split at hsubject
  · split_ifs at hsubject with hne
    exact hne (Option.some.inj hsubject)
  · cases hsubject

theorem subjects_of_isEmpty (hfresh : index.Fresh router.corpus) (h : index.isEmpty = true) :
    index.subjects = [] := by
  refine List.eq_nil_iff_forall_not_mem.2 fun subject hmem => ?_
  obtain ⟨file, hfile⟩ := List.exists_mem_of_ne_nil _ (SubjectIndex.packagesForSubject_ne_nil hmem)
  obtain ⟨package, hpackage, -⟩ := (hfresh.entries subject file).1 hfile
  have hcorpus : router.corpus = [] := by simpa [SubjectIndex.isEmpty, hfresh.packages] using h
  rw [hcorpus] at hpackage
  cases hpackage

theorem loadIndex_run {s : Session AuditTable RouterState}
    (h : loadOrRebuild s.own.index (router.corpus.map (·.stat))
      (scanIndexEntries router.str router.corpus) router.builtAt = .ok index) :
    (loadIndex router s).result = .ok index ∧ shown (loadIndex router s).final = shown s := by
  simp only [loadIndex, Act.bind_apply, Act.look, Act.ofExcept, Act.done, h]
  refine ⟨rfl, ?_⟩
  simp only [Act.modify, Act.step, pure, Act.done, shown]
  split_ifs <;> rfl

variable (hvalid : router.Valid) (hlocal : router.ReadsOwnClaims)
variable (hiterate : ∀ subjects x, x ∈ router.iterate subjects ↔ x ∈ subjects)
variable (hfresh : index.Fresh router.corpus)

/-- The candidates of a query. -/
def candidatesOf (router : PublicRouter) (index : SubjectIndex) (request : QueryRequest) :
    List ScoredSubject :=
  resolveSubjects router.lower request.q index.subjects router.resolverTopK

include hvalid hlocal hiterate hfresh in
/-- From the index on, a query shows the ranked union of the exact reads of its candidates. -/
theorem queryIndex_agree : Agree shown
    (do
      let evidence ← queryIndex D py router index request
      return evidence.hits)
    (rankedUnion D py router request (candidatesOf router index request)) := by
  have hcandidates : resolveSubjects router.lower request.q (router.iterate index.subjects)
      router.resolverTopK = candidatesOf router index request :=
    resolveSubjects_congr fun x => hiterate _ x
  unfold queryIndex
  rw [hcandidates, bind_assoc]
  refine agree_modify_left (fun _ => rfl) ?_
  by_cases hempty : index.isEmpty = true
  · have hnone : candidatesOf router index request = [] := by
      refine List.eq_nil_iff_forall_not_mem.2 fun c hc => ?_
      have hmem := (mem_resolveSubjects hc).1
      rw [subjects_of_isEmpty hfresh hempty] at hmem
      cases hmem
    rw [if_pos hempty, hnone]
    exact agree_pure []
  rw [if_neg hempty]
  by_cases hnone : (candidatesOf router index request).isEmpty = true
  · rw [if_pos hnone, List.isEmpty_iff.1 hnone]
    exact agree_pure []
  rw [if_neg hnone]
  have hloop : Agree shown (readCandidates D py router index request
      (candidatesOf router index request) ([], []))
      (rankedUnion D py router request (candidatesOf router index request)) := by
    have hsubject : ∀ c ∈ candidatesOf router index request, c.subject ∈ index.subjects :=
      fun c hc => (mem_resolveSubjects hc).1
    have h : Agree shown (readCandidates D py router index request
        (candidatesOf router index request) ([], [])) _ := readCandidates_agree
      (fun c hc => SubjectIndex.packagesForSubject_ne_nil (hsubject c hc))
      fun c hc => scopedRead_agree hvalid hlocal hfresh (subject_ne_empty hfresh (hsubject c hc))
    simp only [collectFirst_nil] at h
    exact h
  rw [← bind_pure (rankedUnion D py router request (candidatesOf router index request)), bind_assoc]
  refine agree_bind hloop fun merged => ?_
  cases merged with
  | nil => exact agree_pure []
  | cons hit hits => exact agree_pure (hit :: hits)

/-- A query whose answer holds no hits says so. -/
theorem keeps_queryIndex (s : Session AuditTable RouterState) :
    Keeps (fun _ => True) (queryIndex D py router index request) s fun r _ =>
      ∀ evidence, r = .ok evidence → evidence.hits = [] → notFoundNote ∈ evidence.notes := by
  have hempty (notes : List String) (t : Session AuditTable RouterState) :
      Keeps (fun _ => True) (pure (emptyEvidence notes)) t fun (r : Except Exc _) _ =>
        ∀ evidence, r = .ok evidence → evidence.hits = [] → notFoundNote ∈ evidence.notes := by
    refine keeps_pure fun evidence h _ => ?_
    obtain rfl := Except.ok.inj h
    exact List.mem_cons_self
  unfold queryIndex
  refine keeps_step_bind rfl trivial ?_
  split_ifs
  · exact hempty _ _
  · dsimp only
    split_ifs
    · exact hempty _ _
    · refine keeps_bind (Q := fun _ _ => True) ⟨fun _ _ => trivial, trivial⟩ ?_ ?_
      · intro merged t _
        cases merged with
        | nil => exact hempty _ _
        | cons hit hits =>
          refine keeps_pure fun evidence h hnil => ?_
          obtain rfl := Except.ok.inj h
          cases hnil
      · intro e t _ evidence h
        cases h

include hvalid hlocal hiterate hfresh in
/-- A free-text query answers the ranked union of the exact reads of its candidates: it ends as they
end one after the other, with the same rows, and its hits are theirs, of each id the first. Every
candidate shares a token with the prompt, an answer without hits carries the note, and the scope of
a candidate does not change what its read shows. The order of the iteration does not occur in it. -/
theorem query_freetext {s : Session AuditTable RouterState}
    (hfree : explicitSubject request = none)
    (hload : loadOrRebuild s.own.index (router.corpus.map (·.stat))
      (scanIndexEntries router.str router.corpus) router.builtAt = .ok index) :
    let run := publicQuery D py router request s
    let union := rankedUnion D py router request (candidatesOf router index request) s
    (run.result.map (·.hits) = union.result ∧ shown run.final = shown union.final) ∧
    (∀ evidence, run.result = .ok evidence → evidence.hits = [] →
      notFoundNote ∈ evidence.notes) ∧
    ∀ c ∈ candidatesOf router index request,
      (∃ tok ∈ tokenize router.lower request.q, tok ∈ tokenize router.lower c.subject) ∧
      Agree shown
        (do
          setScopedPackages (some (index.packagesForSubject c.subject))
          adapterQuery D py router (withSubject request c.subject))
        (publicQuery D py router (withSubject request c.subject)) := by
  intro run union
  have hrun : ∃ t, shown t = shown s ∧
      run.result = (queryIndex D py router index request t).result ∧
      run.final = (queryIndex D py router index request t).final := by
    have hrun : run = (do setScopedPackages none; queryFreetext D py router request) s := by
      simp only [run, publicQuery, hfree]
    obtain ⟨hindex, hshown⟩ := loadIndex_run (s := ⟨s.conn, s.answers,
      { s.own with scopedPackages := none }⟩) hload
    refine ⟨_, hshown, ?_⟩
    simp only [hrun, setScopedPackages, Act.modify, Act.step, queryFreetext, Act.bind_apply, hindex]
    exact ⟨trivial, trivial⟩
  obtain ⟨t, hshown, hresult, hfinal⟩ := hrun
  obtain ⟨hunion, hsame⟩ := queryIndex_agree hvalid hlocal hiterate hfresh t s hshown
  obtain ⟨hmap, hend⟩ := Act.bind_return_apply (queryIndex D py router index request)
    (fun evidence => evidence.hits) t
  refine ⟨⟨?_, ?_⟩, ?_, ?_⟩
  · rw [hresult, ← hmap]
    exact hunion
  · rw [hfinal, ← hend]
    exact hsame
  · intro evidence hevidence
    exact (keeps_queryIndex t).2 evidence (hresult.symm.trans hevidence)
  · intro c hc
    obtain ⟨hmem, hshared⟩ := mem_resolveSubjects hc
    exact ⟨hshared, scopedRead_agree hvalid hlocal hfresh (subject_ne_empty hfresh hmem)⟩

end Union

/-! ## Two packages -/

/-- A package of one claim. -/
def PackageFile.sample (name claimId subject : String) : PackageFile where
  stat := ⟨name, 1024, 0⟩
  unpack := .ok {
    manifest := some (.obj [("package_id", .str "01963f7d-7000-7000-8000-0000000000aa"),
      ("claims", .arr [.obj [("path", .str "claims/1.md")]])])
    claim := fun _ => .holds [("claim_id", .str claimId), ("subject", .str subject)] "Ann's." }
  verifyPackage := .ok ()
  validateSignatures := .ok ()

def PublicRouter.sample : PublicRouter where
  corpus := [.sample "a.aphelion.tar" "01963f7d-7000-7000-8000-000000000011" "coffee",
    .sample "b.aphelion.tar" "01963f7d-7000-7000-8000-000000000012" "green-tea"]
  str _ := ""
  lower := String.toLower
  iterate := List.reverse
  resolverTopK := 8
  validateV03Fields _ := .ok ()
  read subject claims :=
    let own := claims.filter fun claim => stringField claim "subject" = some subject
    .ok ⟨.other "supersession", own.head?, own, [], "2026-05-09T14:23:11Z"⟩
  auditConnProvider _ := .ok ()
  utcNow _ := ⟨2026, 5, 9, 14, 23, 11, 0, some 0⟩
  uuid4 _ := "7b0c5a52-3f0e-4d61-9c55-0a4f3f7d9b11"
  indexSaved := true
  builtAt := .finite ⟨false, "0.0".toList, isFloatLit_zero⟩

theorem readPackageClaims_sample (name claimId subject : String) :
    readPackageClaims (.sample name claimId subject) = .ok [[("claim_id", .str claimId),
      ("subject", .str subject), ("package_id", .str "01963f7d-7000-7000-8000-0000000000aa"),
      ("body", .str "Ann's.")]] := rfl

theorem PackageFile.hasIds_sample (name claimId subject : String) :
    (PackageFile.sample name claimId subject).HasIds := by
  intro claims hclaims claim hclaim
  obtain rfl := Except.ok.inj ((readPackageClaims_sample name claimId subject).symm.trans hclaims)
  obtain rfl := List.mem_singleton.1 hclaim
  exact ⟨claimId, rfl⟩

def SubjectIndex.sample : SubjectIndex where
  entries := [⟨"coffee", "01963f7d-7000-7000-8000-0000000000aa",
      "01963f7d-7000-7000-8000-000000000011", "a.aphelion.tar"⟩,
    ⟨"green-tea", "01963f7d-7000-7000-8000-0000000000aa",
      "01963f7d-7000-7000-8000-000000000012", "b.aphelion.tar"⟩]
  packages := [⟨"a.aphelion.tar", 1024, 0⟩, ⟨"b.aphelion.tar", 1024, 0⟩]
  builtAt := .finite ⟨false, "0.0".toList, isFloatLit_zero⟩

theorem query_freetext_sample :
    let D : HexDigest := .listed [] (by simp)
    let s : Session AuditTable RouterState := ⟨⟨[], none⟩, [], ⟨⟨none, none⟩, none, false, none, 0⟩⟩
    let candidates := candidatesOf .sample .sample sampleRequest
    candidates.map (·.subject) = ["green-tea"] ∧
      (publicQuery D .ascii .sample sampleRequest s).result.map (·.hits) =
        (rankedUnion D .ascii .sample sampleRequest candidates s).result := by
  have hvalid : PublicRouter.sample.Valid := by
    intro package hpackage
    simp only [PublicRouter.sample, List.mem_cons, List.not_mem_nil, or_false] at hpackage
    obtain rfl | rfl := hpackage
    · exact ⟨_, rfl, fun _ _ => rfl⟩
    · exact ⟨_, rfl, fun _ _ => rfl⟩
  have hlocal : PublicRouter.sample.ReadsOwnClaims := by
    intro subject claims claims' h
    simp only [PublicRouter.sample, h]
  have hscan : scanIndexEntries (fun _ => "") PublicRouter.sample.corpus =
    .ok SubjectIndex.sample.entries := rfl
  have hids : ∀ package ∈ PublicRouter.sample.corpus, package.HasIds := by
    intro package hpackage
    simp only [PublicRouter.sample, List.mem_cons, List.not_mem_nil, or_false] at hpackage
    obtain rfl | rfl := hpackage
    · exact PackageFile.hasIds_sample _ _ _
    · exact PackageFile.hasIds_sample _ _ _
  have hfresh : SubjectIndex.sample.Fresh PublicRouter.sample.corpus := fresh_scan hids hscan
  refine ⟨by decide +kernel, ?_⟩
  exact (query_freetext hvalid hlocal (fun _ _ => List.mem_reverse) hfresh rfl rfl).1.1

end ParallaxKernel.Apex
