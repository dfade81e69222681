import Mathlib.Data.List.Dedup
import Mathlib.Data.List.Sort
import Mathlib.Data.String.Basic
import ParallaxKernel.Lib.Json

/-!
# The subject index

`apex/subject_index.py`: which packages carry a subject, and for which packages the index stands.
-/

namespace ParallaxKernel.Apex

open Lib

structure IndexEntry where
  subject : String
  packageId : String
  claimId : String
  packageFile : String
  deriving DecidableEq

/-- The identity of a package file. -/
structure PackageStat where
  name : String
  size : Nat
  mtimeNs : Int
  deriving DecidableEq

structure SubjectIndex where
  entries : List IndexEntry
  packages : List PackageStat
  builtAt : PyFloat

namespace SubjectIndex

/-- `subjects`, as a set. -/
def subjects (index : SubjectIndex) : List String := index.entries.map (·.subject)

def packagesForSubject (index : SubjectIndex) (subject : String) : List String :=
  let files := (index.entries.filter (·.subject = subject)).map (·.packageFile)
  files.dedup.insertionSort (· ≤ ·)

def isEmpty (index : SubjectIndex) : Bool := index.packages.length = 0

theorem mem_packagesForSubject {index : SubjectIndex} {subject file : String} :
    file ∈ index.packagesForSubject subject ↔
      ∃ entry ∈ index.entries, entry.subject = subject ∧ entry.packageFile = file := by
  simp [packagesForSubject, and_assoc]

theorem packagesForSubject_ne_nil {index : SubjectIndex} {subject : String}
    (h : subject ∈ index.subjects) : index.packagesForSubject subject ≠ [] := by
  obtain ⟨entry, hentry, hsubject⟩ := List.mem_map.1 h
  exact List.ne_nil_of_mem (mem_packagesForSubject.2 ⟨entry, hentry, hsubject, rfl⟩)

end SubjectIndex

/-- `load_or_rebuild`, from the index that is stored and the packages on disk. -/
def loadOrRebuild {ε : Type} (stored : Option SubjectIndex) (current : List PackageStat)
    (scan : Except ε (List IndexEntry)) (now : PyFloat) : Except ε SubjectIndex :=
  match stored.filter fun index => index.packages = current with
  | some index => .ok index
  | none => scan.map fun entries => ⟨entries, current, now⟩

/-- What `update_index_for_package` saves: the entries of the other packages that are still on disk,
with the identities that were recorded for them, and the package that was ingested. -/
def updateIndex (existing : Option SubjectIndex) (current : List PackageStat)
    (packageFile packageId : String) (claimSubjects : List (String × String)) (now : PyFloat) :
    SubjectIndex :=
  let onDisk := current.map (·.name)
  let prevEntries := (existing.map (·.entries)).getD []
  let prevPackages := (existing.map (·.packages)).getD []
  let baseEntries := prevEntries.filter fun entry =>
    entry.packageFile ≠ packageFile && entry.packageFile ∈ onDisk
  let basePackages := prevPackages.filter fun pkg => pkg.name ≠ packageFile && pkg.name ∈ onDisk
  let added := (claimSubjects.filter (·.2 ≠ "")).map fun (claimId, subject) =>
    { subject, packageId, claimId, packageFile }
  let combined := basePackages ++ (current.find? (·.name = packageFile)).toList
  { entries := baseEntries ++ added
    packages := combined.mergeSort fun a b => a.name ≤ b.name
    builtAt := now }

/-- An entry of the updated index stood in it before or is one of a claim of the package. -/
theorem mem_updateIndex {existing : Option SubjectIndex} {current : List PackageStat}
    {packageFile packageId : String} {claimSubjects : List (String × String)} {now : PyFloat}
    {entry : IndexEntry}
    (h : entry ∈ (updateIndex existing current packageFile packageId claimSubjects now).entries) :
    entry ∈ (existing.map (·.entries)).getD [] ∨
      (entry.packageId = packageId ∧ entry.packageFile = packageFile ∧
        (entry.claimId, entry.subject) ∈ claimSubjects) := by
  cases List.mem_append.1 h with
  | inl hbase => exact .inl (List.mem_filter.1 hbase).1
  | inr hadded =>
    obtain ⟨⟨claimId, subject⟩, hmem, rfl⟩ := List.mem_map.1 hadded
    exact .inr ⟨rfl, rfl, (List.mem_filter.1 hmem).1⟩

end ParallaxKernel.Apex
