import Mathlib.Logic.Function.Basic
import ParallaxKernel.Apex.IndexFile
import ParallaxKernel.Lib.Runs

/-!
# The index against the directory

`load_or_rebuild` and `update_index_for_package` of `apex/subject_index.py`, step by step: any
number of readers and of ingests share one index file while packages come, change and go between any
two of their steps. What a reader returns is right for every package that has not changed since.
-/

namespace ParallaxKernel.Apex.Freshness

open Lib

/-! ## Packages -/

/-- A claim of a package: its id in the manifest, and the id and the subject of its frontmatter. -/
structure PackageClaim where
  manifestId : String
  claimId : String
  subject : String

structure Package where
  packageId : String
  claims : List PackageClaim

/-- The package carries the subject. -/
def Package.Carries (pkg : Package) (subject : String) : Prop :=
  subject ≠ "" ∧ ∃ claim ∈ pkg.claims, claim.subject = subject

/-- What `_scan_index_entries` finds in a package. -/
def Package.scanned (pkg : Package) (packageFile : String) : List IndexEntry :=
  (pkg.claims.filter (·.subject ≠ "")).map fun claim =>
    { subject := claim.subject, packageId := pkg.packageId, claimId := claim.claimId, packageFile }

/-- `claim_subjects` of an ingest. -/
def Package.claimSubjects (pkg : Package) : List (String × String) :=
  pkg.claims.map fun claim => (claim.manifestId, claim.subject)

/-- The `*.aphelion.tar` files of the directory, and all that have been there. An identity stands
for one content and does not come back. -/
structure Disk where
  files : List PackageStat
  past : List PackageStat

def Disk.put (d : Disk) (p : PackageStat) : Disk :=
  ⟨p :: d.files.filter (·.name ≠ p.name), p :: d.past⟩

def Disk.remove (d : Disk) (name : String) : Disk :=
  { d with files := d.files.filter (·.name ≠ name) }

/-- `sorted(glob("*.aphelion.tar"))`. -/
def Disk.glob (d : Disk) : List String := (d.files.map (·.name)).insertionSort (· ≤ ·)

/-- `path.stat()`. -/
def Disk.stat? (d : Disk) (name : String) : Option PackageStat := d.files.find? (·.name = name)

/-! ## The calls -/

/-- A call of `load_or_rebuild`, or the update for the package that an ingest has read. -/
inductive Job where
  | read
  | ingest (p : PackageStat) (existing : Option SubjectIndex)

/-- How far a call is. `current_packages` is asked name by name, as is the scan. -/
inductive Progress where
  | idle
  | ingested (p : PackageStat)
  | loaded (p : PackageStat) (existing : Option SubjectIndex)
  | listing (job : Job) (names : List String) (current : List PackageStat)
  | stale (current : List PackageStat)
  | scanning (current : List PackageStat) (names : List String) (entries : List IndexEntry)
  | saving (job : Job) (index : SubjectIndex)
  | returned (index : SubjectIndex)
  | ended

variable {ι : Type} [DecidableEq ι]

structure State (ι : Type) where
  disk : Disk
  file : Option String
  calls : ι → Progress

/-- An empty directory, without an index. -/
def State.initial : State ι := ⟨⟨[], []⟩, none, fun _ => .idle⟩

/-- A package comes or is replaced, or goes; the file of the index is lost, or overwritten with
something that is no index; a call begins, or takes its next step, with what the clock reads then
and whether a file can be written. -/
inductive Action (ι : Type) where
  | put (p : PackageStat)
  | remove (name : String)
  | lose
  | corrupt (raw : String)
  | startRead (i : ι)
  | startIngest (i : ι) (name : String)
  | advance (i : ι) (now : PyFloat) (saves : Bool)

section Steps

variable (co : Coercions) (holds : PackageStat → Option Package)

def loadIndex (file : Option String) : Option SubjectIndex := file.bind (loadText co)

/-- The next step of a call, and the file of the index after it. -/
def next (d : Disk) (file : Option String) (now : PyFloat) (saves : Bool) :
    Progress → Option (Progress × Option String)
  | .ingested p => some (.loaded p (loadIndex co file), file)
  | .loaded p existing => some (.listing (.ingest p existing) d.glob [], file)
  | .listing job (name :: names) current =>
    some (.listing job names (current ++ (d.stat? name).toList), file)
  | .listing .read [] current =>
    match (loadIndex co file).filter fun index => index.packages = current with
    | some index => some (.returned index, file)
    | none => some (.stale current, file)
  | .listing (.ingest p existing) [] current => do
    let pkg ← holds p
    some (.saving (.ingest p existing)
      (updateIndex existing current p.name pkg.packageId pkg.claimSubjects now), file)
  | .stale current => some (.scanning current d.glob [], file)
  | .scanning current (name :: names) entries =>
    match (d.stat? name).bind holds with
    | some pkg => some (.scanning current names (entries ++ pkg.scanned name), file)
    | none => some (.ended, file)
  | .scanning current [] entries => some (.saving .read ⟨entries, current, now⟩, file)
  | .saving job index =>
    let file := if saves then some (saveText index) else file
    match job with
    | .read => some (.returned index, file)
    | .ingest _ _ => some (.ended, file)
  | _ => none

def State.start (s : State ι) (i : ι) (p : Progress) : Option (State ι) :=
  match s.calls i with
  | .idle => some { s with calls := Function.update s.calls i p }
  | _ => none

def step (s : State ι) : Action ι → Option (State ι)
  | .put p => if p ∈ s.disk.past then none else some { s with disk := s.disk.put p }
  | .remove name => some { s with disk := s.disk.remove name }
  | .lose => some { s with file := none }
  | .corrupt raw => if (loadText co raw).isSome then none else some { s with file := some raw }
  | .startRead i => s.start i (.listing .read s.disk.glob [])
  | .startIngest i name =>
    match s.disk.stat? name with
    | some p => if (holds p).isSome then s.start i (.ingested p) else none
    | none => none
  | .advance i now saves => do
    let (progress, file) ← next co holds s.disk s.file now saves (s.calls i)
    some { s with file, calls := Function.update s.calls i progress }

end Steps

/-- The package of an ingest is not replaced between its reading and the `stat` of the update. -/
def Undisturbed (s : State ι) (a : Action ι) (_ : State ι) : Prop :=
  ∀ i now saves p existing current, a = .advance i now saves →
    s.calls i = .listing (.ingest p existing) [] current →
      ∀ stat ∈ current, stat.name = p.name → stat = p

/-- The package that the update of an ingest stamps next, and what it has seen. -/
def Progress.stamps : Progress → Option (PackageStat × List PackageStat)
  | .listing (.ingest p _) [] current => some (p, current)
  | _ => none

theorem stamps_eq_some {progress : Progress} {p : PackageStat} {current : List PackageStat} :
    progress.stamps = some (p, current) ↔
      ∃ existing, progress = .listing (.ingest p existing) [] current := by
  constructor
  · intro h
    rw [Progress.stamps.eq_def] at h
    split at h
    · rename_i existing seen
      cases h
      exact ⟨existing, rfl⟩
    · cases h
  · rintro ⟨existing, rfl⟩
    rfl

instance instDecidableUndisturbed (s : State ι) : ∀ a t, Decidable (Undisturbed s a t)
  | .advance i now saves, _ =>
    decidable_of_iff
      (∀ x ∈ (s.calls i).stamps, ∀ stat ∈ x.2, stat.name = x.1.name → stat = x.1) <| by
      constructor
      · rintro h _ _ _ p existing current hadvance hcall
        cases hadvance
        exact h (p, current) (stamps_eq_some.2 ⟨existing, hcall⟩)
      · rintro h ⟨p, current⟩ hx
        obtain ⟨existing, hcall⟩ := stamps_eq_some.1 hx
        exact h i now saves p existing current rfl hcall
  | .put _, _ => .isTrue fun _ _ _ _ _ _ h => by cases h
  | .remove _, _ => .isTrue fun _ _ _ _ _ _ h => by cases h
  | .lose, _ => .isTrue fun _ _ _ _ _ _ h => by cases h
  | .corrupt _, _ => .isTrue fun _ _ _ _ _ _ h => by cases h
  | .startRead _, _ => .isTrue fun _ _ _ _ _ _ h => by cases h
  | .startIngest _ _, _ => .isTrue fun _ _ _ _ _ _ h => by cases h

/-- The entries for a package are those that it carries. -/
def Exact (holds : PackageStat → Option Package) (entries : List IndexEntry) (p : PackageStat) :
    Prop :=
  ∃ pkg, holds p = some pkg ∧ ∀ subject,
    (∃ entry ∈ entries, entry.packageFile = p.name ∧ entry.subject = subject) ↔ pkg.Carries subject

/-! ## What the directory allows -/

/-- Nothing comes back. -/
structure Later (d d' : Disk) : Prop where
  past : ∀ p ∈ d.past, p ∈ d'.past
  files : ∀ p ∈ d.past, p ∈ d'.files → p ∈ d.files

structure Disk.Sound (d : Disk) : Prop where
  past : ∀ p ∈ d.files, p ∈ d.past
  names : (d.files.map (·.name)).Nodup

variable {d d' : Disk} {p q : PackageStat} {name : String}

theorem later_put (hp : p ∉ d.past) : Later d (d.put p) := by
  refine ⟨fun q hq => List.mem_cons_of_mem p hq, fun q hq hfiles => ?_⟩
  obtain rfl | hold := List.mem_cons.1 hfiles
  · exact absurd hq hp
  · exact (List.mem_filter.1 hold).1

theorem later_remove (d : Disk) (name : String) : Later d (d.remove name) :=
  ⟨fun _ hq => hq, fun _ _ hfiles => (List.mem_filter.1 hfiles).1⟩

theorem Disk.Sound.put (h : d.Sound) : (d.put p).Sound := by
  refine ⟨?_, ?_⟩
  · intro q hq
    obtain rfl | hold := List.mem_cons.1 hq
    · exact List.mem_cons_self
    · exact List.mem_cons_of_mem _ (h.past q (List.mem_filter.1 hold).1)
  · rw [Disk.put, List.map_cons, List.nodup_cons]
    refine ⟨?_, (List.filter_sublist.map _).nodup h.names⟩
    intro hmem
    obtain ⟨q, hq, hname⟩ := List.mem_map.1 hmem
    exact of_decide_eq_true (List.mem_filter.1 hq).2 hname

theorem Disk.Sound.remove (h : d.Sound) : (d.remove name).Sound :=
  ⟨fun q hq => h.past q (List.mem_filter.1 hq).1, (List.filter_sublist.map _).nodup h.names⟩

theorem mem_glob : name ∈ d.glob ↔ ∃ p ∈ d.files, p.name = name := by
  rw [Disk.glob, List.mem_insertionSort, List.mem_map]

theorem Disk.Sound.nodup_glob (h : d.Sound) : d.glob.Nodup :=
  (List.perm_insertionSort _ _).nodup_iff.2 h.names

theorem mem_of_stat? (h : d.stat? name = some p) : p ∈ d.files ∧ p.name = name :=
  ⟨List.mem_of_find?_eq_some h, by simpa using List.find?_some h⟩

/-- A file is the one that its name finds. -/
theorem Disk.Sound.stat?_name (h : d.Sound) (hq : q ∈ d.files) : d.stat? q.name = some q := by
  cases hstat : d.stat? q.name with
  | none =>
    have hnone := List.find?_eq_none.1 hstat q hq
    simp at hnone
  | some p =>
    obtain ⟨hp, hname⟩ := mem_of_stat? hstat
    rw [List.inj_on_of_nodup_map h.names hp hq hname]

/-! ## Sound indexes -/

variable {holds : PackageStat → Option Package} {entries more : List IndexEntry} {pkg : Package}

theorem Exact.append (h : Exact holds entries q) (hmore : ∀ e ∈ more, e.packageFile ≠ q.name) :
    Exact holds (entries ++ more) q := by
  obtain ⟨pkg, hpkg, hexact⟩ := h
  refine ⟨pkg, hpkg, fun subject => ?_⟩
  rw [← hexact subject]
  constructor
  · rintro ⟨e, he, hfile, hsubject⟩
    obtain he | he := List.mem_append.1 he
    · exact ⟨e, he, hfile, hsubject⟩
    · exact absurd hfile (hmore e he)
  · rintro ⟨e, he, hfile⟩
    exact ⟨e, List.mem_append_left _ he, hfile⟩

/-- The entries of a package behind those of others. -/
theorem exact_of_new (hpkg : holds q = some pkg) (hold : ∀ e ∈ entries, e.packageFile ≠ q.name)
    (hnew : ∀ subject, (∃ e ∈ more, e.packageFile = q.name ∧ e.subject = subject) ↔
      pkg.Carries subject) : Exact holds (entries ++ more) q := by
  refine ⟨pkg, hpkg, fun subject => ?_⟩
  rw [← hnew subject]
  constructor
  · rintro ⟨e, he, hfile, hsubject⟩
    obtain he | he := List.mem_append.1 he
    · exact absurd hfile (hold e he)
    · exact ⟨e, he, hfile, hsubject⟩
  · rintro ⟨e, he, hfile⟩
    exact ⟨e, List.mem_append_right _ he, hfile⟩

theorem packageFile_scanned {e : IndexEntry} (he : e ∈ pkg.scanned name) :
    e.packageFile = name := by
  obtain ⟨claim, -, rfl⟩ := List.mem_map.1 he
  rfl

theorem carries_scanned (subject : String) :
    (∃ e ∈ pkg.scanned name, e.packageFile = name ∧ e.subject = subject) ↔ pkg.Carries subject := by
  constructor
  · rintro ⟨e, he, -, rfl⟩
    obtain ⟨claim, hclaim, rfl⟩ := List.mem_map.1 he
    obtain ⟨hclaim, hsubject⟩ := List.mem_filter.1 hclaim
    exact ⟨of_decide_eq_true hsubject, claim, hclaim, rfl⟩
  · rintro ⟨hne, claim, hclaim, rfl⟩
    exact ⟨_, List.mem_map.2 ⟨claim, List.mem_filter.2 ⟨hclaim, decide_eq_true hne⟩, rfl⟩, rfl, rfl⟩

/-- The index is right for every package that it stands for and that is still there. -/
def SoundIndex (holds : PackageStat → Option Package) (d : Disk) (index : SubjectIndex) : Prop :=
  ∀ p ∈ index.packages, p ∈ d.past ∧ (p ∈ d.files → Exact holds index.entries p)

theorem SoundIndex.later {index : SubjectIndex} (h : SoundIndex holds d index)
    (hlater : Later d d') : SoundIndex holds d' index := by
  intro p hp
  obtain ⟨hpast, hexact⟩ := h p hp
  exact ⟨hlater.past p hpast, fun hfiles => hexact (hlater.files p hpast hfiles)⟩

/-- The update keeps what the index says of the other packages, and adds the one that was read. -/
theorem soundIndex_update {existing : Option SubjectIndex} {current : List PackageStat}
    {now : PyFloat} (hexisting : ∀ index, existing = some index → SoundIndex holds d index)
    (hcurrent : ∀ q ∈ current, q ∈ d.past) (hpkg : holds p = some pkg)
    (hstat : ∀ q ∈ current, q.name = p.name → q = p) :
    SoundIndex holds d
      (updateIndex existing current p.name pkg.packageId pkg.claimSubjects now) := by
  intro q hq
  rw [updateIndex] at hq ⊢
  dsimp only at hq ⊢
  rw [List.mem_mergeSort, List.mem_append] at hq
  obtain hbase | hnew := hq
  · obtain ⟨hprev, hkept⟩ := List.mem_filter.1 hbase
    rw [Bool.and_eq_true, decide_eq_true_eq, decide_eq_true_eq] at hkept
    obtain ⟨hother, hdisk⟩ := hkept
    cases existing with
    | none => exact absurd hprev List.not_mem_nil
    | some index =>
      obtain ⟨hpast, hexact⟩ := hexisting index rfl q hprev
      refine ⟨hpast, fun hfiles => Exact.append ?_ ?_⟩
      · obtain ⟨pkg', hpkg', hsubjects⟩ := hexact hfiles
        refine ⟨pkg', hpkg', fun subject => ?_⟩
        rw [← hsubjects subject]
        constructor
        · rintro ⟨e, he, hfile⟩
          exact ⟨e, (List.mem_filter.1 he).1, hfile⟩
        · rintro ⟨e, he, hfile, hsubject⟩
          refine ⟨e, List.mem_filter.2 ⟨he, ?_⟩, hfile, hsubject⟩
          rw [Bool.and_eq_true, decide_eq_true_eq, decide_eq_true_eq, hfile]
          exact ⟨hother, hdisk⟩
      · intro e he hfile
        obtain ⟨pair, -, rfl⟩ := List.mem_map.1 he
        exact hother hfile.symm
  · have hfound : current.find? (·.name = p.name) = some q := Option.mem_toList.1 hnew
    have hmem := List.mem_of_find?_eq_some hfound
    have hname : q.name = p.name := by simpa using List.find?_some hfound
    obtain rfl := hstat q hmem hname
    refine ⟨hcurrent q hmem, fun _ => exact_of_new hpkg ?_ ?_⟩
    · intro e he
      have hkept := (List.mem_filter.1 he).2
      rw [Bool.and_eq_true, decide_eq_true_eq] at hkept
      exact hkept.1
    · intro subject
      constructor
      · rintro ⟨e, he, -, rfl⟩
        obtain ⟨pair, hpair, rfl⟩ := List.mem_map.1 he
        obtain ⟨hpair, hsubject⟩ := List.mem_filter.1 hpair
        obtain ⟨claim, hclaim, rfl⟩ := List.mem_map.1 hpair
        exact ⟨of_decide_eq_true hsubject, claim, hclaim, rfl⟩
      · rintro ⟨hne, claim, hclaim, rfl⟩
        refine ⟨_, List.mem_map.2 ⟨(claim.manifestId, claim.subject), List.mem_filter.2
          ⟨List.mem_map.2 ⟨claim, hclaim, rfl⟩, decide_eq_true hne⟩, rfl⟩, rfl, rfl⟩

/-! ## The calls -/

/-- What a call has seen is right for what is still there. -/
def Good (holds : PackageStat → Option Package) (d : Disk) : Progress → Prop
  | .ingested p => p ∈ d.past
  | .loaded _ existing => ∀ index, existing = some index → SoundIndex holds d index
  | .listing job _ current => (∀ q ∈ current, q ∈ d.past) ∧
      ∀ p existing, job = .ingest p existing →
        ∀ index, existing = some index → SoundIndex holds d index
  | .stale current => ∀ q ∈ current, q ∈ d.past
  | .scanning current names entries => names.Nodup ∧ ∀ q ∈ current, q ∈ d.past ∧ (q ∈ d.files →
      (q.name ∈ names → ∀ e ∈ entries, e.packageFile ≠ q.name) ∧
        (q.name ∉ names → Exact holds entries q))
  | .saving _ index | .returned index => SoundIndex holds d index
  | .idle | .ended => True

theorem Good.later {progress : Progress} (h : Good holds d progress) (hlater : Later d d') :
    Good holds d' progress := by
  cases progress with
  | idle | ended => trivial
  | ingested p => exact hlater.past p h
  | loaded p existing => exact fun index hindex => (h index hindex).later hlater
  | listing job names current =>
    obtain ⟨hcurrent, hjob⟩ := h
    exact ⟨fun q hq => hlater.past q (hcurrent q hq),
      fun p existing hp index hindex => (hjob p existing hp index hindex).later hlater⟩
  | stale current => exact fun q hq => hlater.past q (h q hq)
  | scanning current names entries =>
    obtain ⟨hnodup, hcurrent⟩ := h
    refine ⟨hnodup, fun q hq => ?_⟩
    obtain ⟨hpast, hscan⟩ := hcurrent q hq
    exact ⟨hlater.past q hpast, fun hfiles => hscan (hlater.files q hpast hfiles)⟩
  | saving job index => exact SoundIndex.later h hlater
  | returned index => exact SoundIndex.later h hlater

/-- The scan reads one more package. -/
theorem good_scanned (hd : d.Sound) {current : List PackageStat} {names : List String}
    (h : Good holds d (.scanning current (name :: names) entries))
    (hpkg : (d.stat? name).bind holds = some pkg) :
    Good holds d (.scanning current names (entries ++ pkg.scanned name)) := by
  obtain ⟨hnodup, hcurrent⟩ := h
  obtain ⟨hnotMem, hnodup⟩ := List.nodup_cons.1 hnodup
  refine ⟨hnodup, fun q hq => ?_⟩
  obtain ⟨hpast, hscan⟩ := hcurrent q hq
  refine ⟨hpast, fun hfiles => ?_⟩
  obtain ⟨hunread, hread⟩ := hscan hfiles
  by_cases hname : q.name = name
  · -- This is the package that is read now.
    subst hname
    rw [hd.stat?_name hfiles, Option.bind_some] at hpkg
    exact ⟨fun hmem => absurd hmem hnotMem,
      fun _ => exact_of_new hpkg (hunread List.mem_cons_self) carries_scanned⟩
  · have hother : ∀ e ∈ pkg.scanned name, e.packageFile ≠ q.name := by
      intro e he hfile
      exact hname (hfile.symm.trans (packageFile_scanned he))
    constructor
    · intro hmem e he
      obtain he | he := List.mem_append.1 he
      · exact hunread (List.mem_cons_of_mem _ hmem) e he
      · exact hother e he
    · intro hmem
      refine (hread fun hcons => ?_).append hother
      obtain h | h := List.mem_cons.1 hcons
      · exact hname h
      · exact hmem h

variable {co : Coercions} {file file' : Option String} {now : PyFloat} {saves : Bool}
  {progress progress' : Progress}

/-- A step of a call keeps what it knows, and leaves a sound index behind. -/
theorem good_next (hd : d.Sound)
    (hfile : ∀ index, loadIndex co file = some index → SoundIndex holds d index)
    (hgood : Good holds d progress)
    (hundisturbed : ∀ p existing current, progress = .listing (.ingest p existing) [] current →
      ∀ stat ∈ current, stat.name = p.name → stat = p)
    (h : next co holds d file now saves progress = some (progress', file')) :
    Good holds d progress' ∧
      ∀ index, loadIndex co file' = some index → SoundIndex holds d index := by
  cases progress with
  | idle => cases h
  | returned index => cases h
  | ended => cases h
  | ingested p =>
    cases h
    exact ⟨hfile, hfile⟩
  | loaded p existing =>
    cases h
    refine ⟨⟨fun q hq => absurd hq List.not_mem_nil, ?_⟩, hfile⟩
    rintro p' existing' hjob index hindex
    cases hjob
    exact hgood index hindex
  | stale current =>
    cases h
    refine ⟨⟨hd.nodup_glob, fun q hq => ⟨hgood q hq, fun hfiles => ?_⟩⟩, hfile⟩
    exact ⟨fun _ e he => absurd he List.not_mem_nil,
      fun hmem => absurd (mem_glob.2 ⟨q, hfiles, rfl⟩) hmem⟩
  | listing job names current =>
    obtain ⟨hcurrent, hjob⟩ := hgood
    cases names with
    | cons name names =>
      cases h
      refine ⟨⟨fun q hq => ?_, hjob⟩, hfile⟩
      obtain hq | hq := List.mem_append.1 hq
      · exact hcurrent q hq
      · exact hd.past q (mem_of_stat? (Option.mem_toList.1 hq)).1
    | nil =>
      cases job with
      | read =>
        rw [next] at h
        split at h
        · rename_i index hfresh
          cases h
          exact ⟨hfile index (Option.filter_eq_some_iff.1 hfresh).1, hfile⟩
        · cases h
          exact ⟨hcurrent, hfile⟩
      | ingest p existing =>
        obtain ⟨pkg, hpkg, h⟩ := Option.bind_eq_some_iff.1 h
        cases h
        exact ⟨soundIndex_update (hjob p existing rfl) hcurrent hpkg
          (hundisturbed p existing current rfl), hfile⟩
  | scanning current names entries =>
    cases names with
    | cons name names =>
      rw [next] at h
      split at h
      · rename_i pkg hpkg
        cases h
        exact ⟨good_scanned hd hgood hpkg, hfile⟩
      · cases h
        exact ⟨trivial, hfile⟩
    | nil =>
      cases h
      refine ⟨fun q hq => ?_, hfile⟩
      obtain ⟨hpast, hscan⟩ := hgood.2 q hq
      exact ⟨hpast, fun hfiles => (hscan hfiles).2 List.not_mem_nil⟩
  | saving job index =>
    have hsaved : ∀ index', loadIndex co (if saves then some (saveText index) else file) =
        some index' → SoundIndex holds d index' := by
      intro index' hindex'
      cases saves with
      | false => exact hfile index' hindex'
      | true =>
        rw [if_pos rfl, loadIndex, Option.bind_some, loadText_saveText] at hindex'
        cases hindex'
        exact hgood
    cases job with
    | read =>
      cases h
      exact ⟨hgood, hsaved⟩
    | ingest p existing =>
      cases h
      exact ⟨trivial, hsaved⟩

/-! ## Runs -/

section Runs

variable {ι : Type} [DecidableEq ι] {s t : State ι} {a : Action ι}

structure Inv (co : Coercions) (holds : PackageStat → Option Package) (s : State ι) : Prop where
  disk : s.disk.Sound
  file : ∀ index, loadIndex co s.file = some index → SoundIndex holds s.disk index
  calls : ∀ i, Good holds s.disk (s.calls i)

omit [DecidableEq ι] in
theorem Inv.initial : Inv co holds (State.initial : State ι) :=
  ⟨⟨fun _ hp => hp, List.nodup_nil⟩, (fun _ h => by cases h), fun _ => trivial⟩

omit [DecidableEq ι] in
/-- The directory changes. -/
theorem Inv.later (h : Inv co holds s) (hd : d.Sound) (hlater : Later s.disk d) :
    Inv co holds { s with disk := d } :=
  ⟨hd, fun index hindex => (h.file index hindex).later hlater, fun i => (h.calls i).later hlater⟩

theorem good_update {calls : ι → Progress} (h : ∀ j, Good holds d (calls j)) (i : ι)
    (hgood : Good holds d progress) (j : ι) :
    Good holds d (Function.update calls i progress j) := by
  by_cases hj : j = i
  · subst hj
    rwa [Function.update_self]
  · rw [Function.update_of_ne hj]
    exact h j

theorem Inv.start {i : ι} (h : Inv co holds s) (hgood : Good holds s.disk progress)
    (hstart : s.start i progress = some t) : Inv co holds t := by
  rw [State.start] at hstart
  split at hstart
  · cases hstart
    exact ⟨h.disk, h.file, good_update h.calls i hgood⟩
  · cases hstart

theorem Inv.step (h : Inv co holds s) (hstep : step co holds s a = some t)
    (hundisturbed : Undisturbed s a t) : Inv co holds t := by
  cases a with
  | put p =>
    rw [Freshness.step] at hstep
    split_ifs at hstep with hpast
    cases hstep
    exact h.later h.disk.put (later_put hpast)
  | remove name =>
    cases hstep
    exact h.later h.disk.remove (later_remove _ _)
  | lose =>
    cases hstep
    exact ⟨h.disk, (fun _ hindex => by cases hindex), h.calls⟩
  | corrupt raw =>
    rw [Freshness.step] at hstep
    split_ifs at hstep with hraw
    cases hstep
    refine ⟨h.disk, fun index hindex => ?_, h.calls⟩
    rw [loadIndex, Option.bind_some] at hindex
    exact absurd (Option.isSome_iff_exists.2 ⟨index, hindex⟩) hraw
  | startRead i =>
    have hgood : Good holds s.disk (.listing .read s.disk.glob []) :=
      ⟨fun q hq => absurd hq List.not_mem_nil, fun p existing hjob => by cases hjob⟩
    exact h.start hgood hstep
  | startIngest i name =>
    rw [Freshness.step] at hstep
    split at hstep
    · rename_i p hstat
      split_ifs at hstep
      have hgood : Good holds s.disk (.ingested p) := h.disk.past p (mem_of_stat? hstat).1
      exact h.start hgood hstep
    · cases hstep
  | advance i now saves =>
    obtain ⟨⟨progress, file⟩, hnext, hstep⟩ := Option.bind_eq_some_iff.1 hstep
    cases hstep
    obtain ⟨hgood, hfile⟩ := good_next h.disk h.file (h.calls i)
      (fun p existing current hp => hundisturbed i now saves p existing current rfl hp) hnext
    exact ⟨h.disk, hfile, good_update h.calls i hgood⟩

/-! ## What a reader has not missed -/

/-- A reader is on its way to every package that was there when it began. -/
def Complete (start : List PackageStat) (d : Disk) : Progress → Prop
  | .listing .read names current => ∀ q ∈ start, q ∈ d.files → q.name ∈ names ∨ q ∈ current
  | .stale current | .scanning current _ _ => ∀ q ∈ start, q ∈ d.files → q ∈ current
  | .saving .read index | .returned index => ∀ q ∈ start, q ∈ d.files → q ∈ index.packages
  | .ended => True
  | _ => False

variable {start : List PackageStat}

theorem Complete.later (h : Complete start d progress) (hstart : ∀ q ∈ start, q ∈ d.past)
    (hlater : Later d d') : Complete start d' progress := by
  have hfiles : ∀ q ∈ start, q ∈ d'.files → q ∈ d.files := fun q hq =>
    hlater.files q (hstart q hq)
  cases progress with
  | idle | ingested | loaded => exact h
  | listing job names current =>
    cases job with
    | read => exact fun q hq hmem => h q hq (hfiles q hq hmem)
    | ingest p existing => exact h
  | stale current => exact fun q hq hmem => h q hq (hfiles q hq hmem)
  | scanning current names entries => exact fun q hq hmem => h q hq (hfiles q hq hmem)
  | saving job index =>
    cases job with
    | read => exact fun q hq hmem => h q hq (hfiles q hq hmem)
    | ingest p existing => exact h
  | returned index => exact fun q hq hmem => h q hq (hfiles q hq hmem)
  | ended => trivial

theorem complete_next (hd : d.Sound) (h : Complete start d progress)
    (hnext : next co holds d file now saves progress = some (progress', file')) :
    Complete start d progress' := by
  cases progress with
  | idle | ingested | loaded => exact h.elim
  | returned index => cases hnext
  | ended => cases hnext
  | listing job names current =>
    cases job with
    | ingest p existing => exact h.elim
    | read =>
      cases names with
      | cons name names =>
        cases hnext
        intro q hq hfiles
        obtain hmem | hmem := h q hq hfiles
        · obtain rfl | hmem := List.mem_cons.1 hmem
          · refine .inr (List.mem_append_right _ ?_)
            rw [hd.stat?_name hfiles]
            exact List.mem_singleton_self q
          · exact .inl hmem
        · exact .inr (List.mem_append_left _ hmem)
      | nil =>
        have hcurrent : ∀ q ∈ start, q ∈ d.files → q ∈ current := fun q hq hfiles =>
          (h q hq hfiles).resolve_left List.not_mem_nil
        rw [next] at hnext
        split at hnext
        · rename_i index hfresh
          cases hnext
          have hpackages : index.packages = current :=
            of_decide_eq_true (Option.filter_eq_some_iff.1 hfresh).2
          intro q hq hfiles
          rw [hpackages]
          exact hcurrent q hq hfiles
        · cases hnext
          exact hcurrent
  | stale current =>
    cases hnext
    exact h
  | scanning current names entries =>
    cases names with
    | cons name names =>
      rw [next] at hnext
      split at hnext
      · cases hnext
        exact h
      · cases hnext
        trivial
    | nil =>
      cases hnext
      exact h
  | saving job index =>
    cases job with
    | ingest p existing => exact h.elim
    | read =>
      cases hnext
      exact h

/-- What holds of a reader that began with some packages there. -/
structure Reading (co : Coercions) (holds : PackageStat → Option Package) (start : List PackageStat)
    (i : ι) (s : State ι) : Prop where
  inv : Inv co holds s
  known : ∀ q ∈ start, q ∈ s.disk.past
  complete : Complete start s.disk (s.calls i)

theorem Reading.step {i : ι} (h : Reading co holds start i s) (hstep : step co holds s a = some t)
    (hundisturbed : Undisturbed s a t) : Reading co holds start i t := by
  have hinv := h.inv.step hstep hundisturbed
  have hstarts (j : ι) (p : Progress) (hj : s.start j p = some t) : Reading co holds start i t := by
    rw [State.start] at hj
    split at hj
    · rename_i hidle
      cases hj
      refine ⟨hinv, h.known, ?_⟩
      by_cases hij : i = j
      · -- The reader has begun before.
        subst hij
        have hcomplete := h.complete
        rw [hidle] at hcomplete
        exact hcomplete.elim
      · dsimp only
        rw [Function.update_of_ne hij]
        exact h.complete
    · cases hj
  cases a with
  | put p =>
    rw [Freshness.step] at hstep
    split_ifs at hstep with hpast
    cases hstep
    have hlater := later_put (d := s.disk) hpast
    exact ⟨hinv, fun q hq => hlater.past q (h.known q hq), h.complete.later h.known hlater⟩
  | remove name =>
    cases hstep
    exact ⟨hinv, h.known, h.complete.later h.known (later_remove _ _)⟩
  | lose =>
    cases hstep
    exact ⟨hinv, h.known, h.complete⟩
  | corrupt raw =>
    rw [Freshness.step] at hstep
    split_ifs at hstep
    cases hstep
    exact ⟨hinv, h.known, h.complete⟩
  | startRead j => exact hstarts j _ hstep
  | startIngest j name =>
    rw [Freshness.step] at hstep
    split at hstep
    · split_ifs at hstep
      exact hstarts j _ hstep
    · cases hstep
  | advance j now saves =>
    obtain ⟨⟨progress, file⟩, hnext, hstep⟩ := Option.bind_eq_some_iff.1 hstep
    cases hstep
    refine ⟨hinv, h.known, ?_⟩
    by_cases hij : i = j
    · subst hij
      dsimp only
      rw [Function.update_self]
      exact complete_next h.inv.disk h.complete hnext
    · dsimp only
      rw [Function.update_of_ne hij]
      exact h.complete

/-- A reader is never silently stale: under every name that it is given for a subject, and under no
other, a package that was there when it began and has not changed carries the subject. -/
theorem never_silently_stale {as bs : List (Action ι)} {r : State ι} {i : ι} {index : SubjectIndex}
    (hr : as.foldlM (step co holds) .initial = some r)
    (ht : (Action.startRead i :: bs).foldlM (step co holds) r = some t)
    (hundisturbed : Along (step co holds) Undisturbed .initial (as ++ .startRead i :: bs))
    (hreturned : t.calls i = .returned index) :
    ∀ p ∈ r.disk.files, p ∈ t.disk.files → ∃ pkg, holds p = some pkg ∧
      ∀ subject, p.name ∈ index.packagesForSubject subject ↔ pkg.Carries subject := by
  obtain ⟨has, hbs⟩ := (along_append as (.startRead i :: bs)).1 hundisturbed
  have hstep : ∀ (s : State ι) a t, Inv co holds s → step co holds s a = some t →
      Undisturbed s a t → Inv co holds t := fun s a t h => h.step
  have hinv : Inv co holds r := Along.inv hstep .initial has hr
  obtain ⟨s, hs, hrest⟩ := Option.bind_eq_some_iff.1 ht
  obtain ⟨hnow, halong⟩ := hbs r hr s hs
  have hreading : Reading co holds r.disk.files i s := by
    have hinvs := hinv.step hs hnow
    rw [Freshness.step, State.start] at hs
    split at hs
    · cases hs
      refine ⟨hinvs, fun q hq => hinv.disk.past q hq, ?_⟩
      dsimp only
      rw [Function.update_self]
      exact fun q hq hfiles => .inl (mem_glob.2 ⟨q, hfiles, rfl⟩)
    · cases hs
  have hkept : ∀ s a t, Reading co holds r.disk.files i s → step co holds s a = some t →
      Undisturbed s a t → Reading co holds r.disk.files i t := fun s a t h => h.step
  have hlast : Reading co holds r.disk.files i t :=
    Along.inv hkept hreading halong hrest
  intro p hp hfiles
  have hcomplete := hlast.complete
  have hgood := hlast.inv.calls i
  rw [hreturned] at hcomplete hgood
  obtain ⟨pkg, hpkg, hexact⟩ := (hgood p (hcomplete p hp hfiles)).2 hfiles
  refine ⟨pkg, hpkg, fun subject => ?_⟩
  rw [SubjectIndex.mem_packagesForSubject, ← hexact subject]
  constructor
  · rintro ⟨e, he, hsubject, hfile⟩
    exact ⟨e, he, hfile, hsubject⟩
  · rintro ⟨e, he, hfile, hsubject⟩
    exact ⟨e, he, hsubject, hfile⟩

def sampleStat : PackageStat := ⟨"a.aphelion.tar", 10, 7⟩

def sampleReplacement : PackageStat := ⟨"a.aphelion.tar", 10, 8⟩

def sampleHolds (p : PackageStat) : Option Package :=
  if p = sampleStat then some ⟨"p", [⟨"1", "1", "Ada"⟩, ⟨"2", "2", ""⟩]⟩
  else if p = sampleReplacement then some ⟨"p", [⟨"1", "1", "Bob"⟩]⟩
  else none

def sampleCoercions : Coercions := ⟨fun _ _ => false, fun _ => "", fun _ => none, fun _ => none⟩

def sampleNow : PyFloat := .finite ⟨false, "8.5".toList, by decide⟩

/-- A reader and an ingest take turns. -/
def sampleTurns : List (Action Bool) :=
  .advance false sampleNow true :: .startIngest true "a.aphelion.tar" ::
    (List.replicate 5 [.advance true sampleNow true, .advance false sampleNow true]).flatten

def Progress.index? : Progress → Option SubjectIndex
  | .returned index => some index
  | _ => none

theorem index?_eq_some {index : SubjectIndex} (h : progress.index? = some index) :
    progress = .returned index := by
  cases progress with
  | returned index' =>
    cases h
    rfl
  | _ => cases h

theorem never_silently_stale_sample : ∃ r t index,
    [Action.put sampleStat].foldlM (step sampleCoercions sampleHolds) .initial = some r ∧
      (Action.startRead false :: sampleTurns).foldlM (step sampleCoercions sampleHolds) r = some t ∧
      t.calls false = .returned index ∧ ∀ p ∈ r.disk.files, p ∈ t.disk.files →
        ∃ pkg, sampleHolds p = some pkg ∧
          ∀ subject, p.name ∈ index.packagesForSubject subject ↔ pkg.Carries subject := by
  have hsome : (([Action.put sampleStat].foldlM (step sampleCoercions sampleHolds) .initial).bind
      fun r => ((Action.startRead false :: sampleTurns).foldlM
        (step sampleCoercions sampleHolds) r).bind
          fun t => (t.calls false).index?).isSome = true := by decide +kernel
  obtain ⟨index, hindex⟩ := Option.isSome_iff_exists.1 hsome
  obtain ⟨r, hr, hindex⟩ := Option.bind_eq_some_iff.1 hindex
  obtain ⟨t, ht, hindex⟩ := Option.bind_eq_some_iff.1 hindex
  have hreturned := index?_eq_some hindex
  exact ⟨r, t, index, hr, ht, hreturned,
    never_silently_stale hr ht (by decide +kernel) hreturned⟩

/-! ## A package that is replaced while it is ingested -/

/-- A reader lists what is there. -/
theorem listed (co : Coercions) (holds : PackageStat → Option Package) (now : PyFloat)
    (saves : Bool) {i : ι} {names : List String} {current : List PackageStat}
    (hcall : s.calls i = .listing .read names current) :
    ∃ t, (List.replicate names.length (.advance i now saves)).foldlM (step co holds) s = some t ∧
      t.disk = s.disk ∧ t.file = s.file ∧
      t.calls i = .listing .read [] (current ++ names.filterMap s.disk.stat?) := by
  induction names generalizing s current with
  | nil =>
    refine ⟨s, rfl, rfl, rfl, ?_⟩
    rw [hcall, List.filterMap_nil, List.append_nil]
  | cons name names ih =>
    obtain ⟨u, hstep, hdisk, hfile, hu⟩ : ∃ u, step co holds s (.advance i now saves) = some u ∧
        u.disk = s.disk ∧ u.file = s.file ∧
        u.calls i = .listing .read names (current ++ (s.disk.stat? name).toList) := by
      let seen := current ++ (s.disk.stat? name).toList
      refine ⟨{ s with calls := Function.update s.calls i (.listing .read names seen) }, ?_, rfl,
        rfl, Function.update_self i _ s.calls⟩
      rw [Freshness.step, hcall]
      rfl
    obtain ⟨t, ht, htdisk, htfile, hlisted⟩ := ih hu
    refine ⟨t, ?_, htdisk.trans hdisk, htfile.trans hfile, ?_⟩
    · rw [List.length_cons, List.replicate_succ, List.foldlM_cons, hstep]
      exact ht
    · rw [hlisted, hdisk, List.append_assoc]
      cases hstat : s.disk.stat? name with
      | none => rw [List.filterMap_cons_none hstat, Option.toList_none, List.nil_append]
      | some p => rw [List.filterMap_cons_some hstat, Option.toList_some, List.singleton_append]

/-- The fast path: an index that stands for what is there is returned, whatever it says. -/
theorem returns_fresh (holds : PackageStat → Option Package) (now : PyFloat) (saves : Bool) {i : ι}
    {index : SubjectIndex} (hidle : s.calls i = .idle)
    (hfile : loadIndex co s.file = some index)
    (hfresh : index.packages = s.disk.glob.filterMap s.disk.stat?) :
    ∃ t, (Action.startRead i :: (List.replicate s.disk.glob.length (.advance i now saves) ++
        [.advance i now saves])).foldlM (step co holds) s = some t ∧
      t.disk = s.disk ∧ t.calls i = .returned index := by
  obtain ⟨u, hstart, hdisk, hufile, hu⟩ : ∃ u, step co holds s (.startRead i) = some u ∧
      u.disk = s.disk ∧ u.file = s.file ∧ u.calls i = .listing .read s.disk.glob [] := by
    refine ⟨{ s with calls := Function.update s.calls i (.listing .read s.disk.glob []) }, ?_, rfl,
      rfl, Function.update_self i _ s.calls⟩
    rw [Freshness.step, State.start, hidle]
  obtain ⟨v, hv, hvdisk, hvfile, hlisted⟩ := listed co holds now saves hu
  rw [List.nil_append, hdisk, ← hfresh] at hlisted
  have hnext : next co holds v.disk v.file now saves (v.calls i) =
      some (.returned index, v.file) := by
    have hfound : (loadIndex co v.file).filter (fun index' => index'.packages = index.packages) =
        some index := by
      rw [hvfile, hufile, hfile]
      exact Option.filter_eq_some_iff.2 ⟨rfl, decide_eq_true rfl⟩
    rw [hlisted, next, hfound]
  refine ⟨{ v with calls := Function.update v.calls i (.returned index) }, ?_,
    hvdisk.trans hdisk, Function.update_self i _ v.calls⟩
  rw [List.foldlM_cons, hstart, Option.bind_eq_bind, Option.bind_some, List.foldlM_append, hv,
    Option.bind_eq_bind, Option.bind_some, List.foldlM_cons, Freshness.step, hnext]
  rfl

/-- The package is replaced when it has been read. -/
def sampleOvertaken : List (Action Bool) :=
  .put sampleStat :: .startIngest true "a.aphelion.tar" :: .put sampleReplacement ::
    List.replicate 5 (.advance true sampleNow true)

/-- What the ingest saves then. -/
def sampleStamped : SubjectIndex :=
  updateIndex none [sampleReplacement] "a.aphelion.tar" "p" [("1", "Ada"), ("2", "")] sampleNow

theorem sampleOvertaken_saves : ∃ r : State Bool,
    sampleOvertaken.foldlM (step sampleCoercions sampleHolds) .initial = some r ∧
      r.disk = ⟨[sampleReplacement], [sampleReplacement, sampleStat]⟩ ∧ r.calls false = .idle ∧
      r.file = some (saveText sampleStamped) := ⟨_, rfl, rfl, rfl, rfl⟩

/-- The update stamps the identity of the new package on the subjects of the old one, and a reader
takes them for fresh. -/
theorem stale_if_replaced : ∃ r t index,
    sampleOvertaken.foldlM (step sampleCoercions sampleHolds) .initial = some r ∧
      (Action.startRead false :: List.replicate 2 (.advance false sampleNow true)).foldlM
        (step sampleCoercions sampleHolds) r = some t ∧
      t.calls false = .returned index ∧ t.disk.files = [sampleReplacement] ∧
      index.packagesForSubject "Ada" = [sampleReplacement.name] ∧
      index.packagesForSubject "Bob" = [] := by
  obtain ⟨r, hr, hdisk, hidle, hfile⟩ := sampleOvertaken_saves
  have hloaded : loadIndex sampleCoercions r.file = some sampleStamped := by
    rw [hfile, loadIndex, Option.bind_some, loadText_saveText]
  have hfresh : sampleStamped.packages = r.disk.glob.filterMap r.disk.stat? := by
    rw [hdisk]
    decide +kernel
  obtain ⟨t, ht, htdisk, hreturned⟩ := returns_fresh sampleHolds sampleNow true hidle hloaded hfresh
  have hglob : r.disk.glob.length = 1 := by
    rw [hdisk]
    rfl
  rw [hglob] at ht
  refine ⟨r, t, sampleStamped, hr, ht, hreturned, ?_, ?_, ?_⟩
  · rw [htdisk, hdisk]
  · decide +kernel
  · decide +kernel

end Runs

end ParallaxKernel.Apex.Freshness
