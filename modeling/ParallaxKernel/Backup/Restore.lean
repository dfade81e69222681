import ParallaxKernel.Backup.Create
import ParallaxKernel.Lib.KeyedList
import Mathlib.Data.Bool.AllAny
import Mathlib.Data.Nat.Find
import Mathlib.Data.Set.Finite.Range
import Mathlib.Data.Set.Finite.List

/-!
# Restoring a backup

`restore.py`. SQLite reads a file together with the log beside it, and moves the log into the file
when the last connection is closed; no other connection has the restored path open. The vault lies
apart from the database.
-/

namespace ParallaxKernel.Backup

open Lib Wal

variable {Page : Type} [Inhabited Page]

/-! ## Safe extraction -/

/-- `resolve` of a path below a directory without links. -/
def resolve (root : List (List Char)) (name : List Char) : List (List Char) :=
  (name.splitOn '/').foldl (fun path part =>
    if part = [] ∨ part = ['.'] then path
    else if part = ['.', '.'] then path.dropLast
    else path ++ [part]) root

/-- `_is_safe_member`. -/
def isSafeMember (destRoot : List (List Char)) (member : Member) : Bool :=
  let name := member.name.toList.map fun c => if c = '\\' then '/' else c
  if name.head? = some '/' ∨ ':' ∈ name.takeWhile (· ≠ '/') then false
  else if !destRoot.isPrefixOf (resolve destRoot name) then false
  else member.kind = .file || member.kind = .dir

def Archive.members (archive : Archive Page) : List Member :=
  (archive.db.map fun db => ⟨"db/parallax.db", db.1⟩).toList ++ archive.vault.getD [] ++
    (archive.manifest.map fun _ => ⟨"manifest.json", .file⟩).toList

/-! ## The target -/

/-- What lies at the target: the database file, the log beside it, the files that were moved aside
from the path of the database, the vault and what was moved aside from its path. -/
structure Target (Page : Type) where
  main : Option (List Page)
  log : List (Commit Page)
  aside : List (String × List Page)
  vault : Option (List Member)
  vaultAside : List (String × List Member)

/-- What a connection would read. -/
def Target.effective (t : Target Page) : Option (List Page) :=
  t.main.map fun main => overlay main t.log

/-- The endings that `_move_aside` tries in turn. -/
def bakSuffix (timestamp : String) : Nat → String
  | 0 => ".bak-" ++ timestamp
  | n + 1 => ".bak-" ++ timestamp ++ ("-" ++ Nat.repr (n + 1))

theorem bakSuffix_injective (timestamp : String) : Function.Injective (bakSuffix timestamp) := by
  intro m n h
  cases m with
  | zero =>
    cases n with
    | zero => rfl
    | succ n =>
      have hlength := congrArg String.length h
      simp [bakSuffix] at hlength
  | succ m =>
    cases n with
    | zero =>
      have hlength := congrArg String.length h
      simp [bakSuffix] at hlength
    | succ n =>
      simp only [bakSuffix, String.append_right_inj] at h
      have hdigits := congrArg (fun s : String => Nat.ofDigitChars 10 s.toList 0) h
      simpa only [Nat.toList_repr, Nat.ofDigitChars_ten_toDigits] using hdigits

theorem exists_free (taken : List String) (timestamp : String) :
    ∃ n, bakSuffix timestamp n ∉ taken := by
  by_contra h
  push Not at h
  exact Set.infinite_range_of_injective (bakSuffix_injective timestamp)
    (taken.finite_toSet.subset (Set.range_subset_iff.2 h))

/-- The first free ending. -/
def freeSuffix (taken : List String) (timestamp : String) : String :=
  bakSuffix timestamp (Nat.find (exists_free taken timestamp))

theorem freeSuffix_free (taken : List String) (timestamp : String) :
    freeSuffix taken timestamp ∉ taken :=
  Nat.find_spec (exists_free taken timestamp)

/-- `_move_aside`. -/
def moveAside {α : Type} (timestamp : String) :
    Option α → List (String × α) → List (String × α)
  | none, aside => aside
  | some content, aside => (freeSuffix (aside.map Prod.fst) timestamp, content) :: aside

/-! ## The restore -/

/-- `_diff_manifests`, of one kind of counts. -/
def diffCounts (kind : String) (expected actual : List (String × Int)) : List String :=
  expected.filterMap fun (key, want) =>
    let got := (lookupKey Prod.fst key actual).map Prod.snd
    if got = some want then none
    else some (kind ++ "[" ++ key ++ "] mismatch: expected=" ++ toString want ++ " actual=" ++
      (got.map toString).getD "None")

/-- `_diff_manifests`. -/
def diffManifests (expected actual : BackupManifest) : List String :=
  (if expected.dbSha256 ≠ actual.dbSha256 then
    ["db_sha256 mismatch: expected=" ++ expected.dbSha256 ++ " actual=" ++ actual.dbSha256]
  else []) ++
  diffCounts "row_counts" expected.rowCounts actual.rowCounts ++
  diffCounts "content_hash_counts" expected.contentHashCounts actual.contentHashCounts

/-- Where the archive is unpacked and the times of the two renames. -/
structure RestoreArgs where
  destRoot : List (List Char)
  dbTimestamp : String
  vaultTimestamp : String
  verify : Bool

variable (sql : Sql Page) (sha256 : List Page → String)

/-- `compute_manifest_from_db`, of the restored database. -/
def computeManifestFromTarget (expected : BackupManifest) :
    Act (Target Page) BackupError BackupManifest :=
  .focus (fun t => (⟨⟨t.main.getD [], t.log⟩, []⟩ : Site Page))
    (fun t site => { t with main := some site.disk.main, log := site.disk.log })
    (computeManifestFromDb sql sha256 expected.parallaxVersion expected.createdAt true)

def install (args : RestoreArgs) (db : List Page) (vault : Option (List Member)) :
    Act (Target Page) BackupError Unit := do
  Act.modify fun t => { t with
    main := some db
    aside := moveAside args.dbTimestamp t.main t.aside }
  match vault with
  | none => pure ()
  | some members => Act.modify fun t => { t with
      vault := some members
      vaultAside := moveAside args.vaultTimestamp t.vault t.vaultAside }

def verifyRestored (expected : BackupManifest) : Act (Target Page) BackupError Unit := do
  let actual ← tryCatch (computeManifestFromTarget sql sha256 expected) fun
    | .sqlite _ => throw (.verification ["restored db is not a valid SQLite database"])
    | e => throw e
  match diffManifests expected actual with
  | [] => pure ()
  | diffs => throw (.verification diffs)

def restoreBackup (args : RestoreArgs) (archive : Option (Archive Page)) :
    Act (Target Page) BackupError BackupManifest :=
  match archive with
  | none => throw .fileNotFound
  | some archive =>
    if !archive.members.all (isSafeMember args.destRoot) then throw .tar
    else match archive.manifest.map BackupManifest.fromDict, archive.db with
      | none, _ => throw .tar
      | some none, _ => throw .manifest
      | some (some expected), some (.file, db) => do
        install args db archive.vault
        if args.verify then verifyRestored sql sha256 expected else pure ()
        return expected
      | some (some _), _ => throw .tar

/-! ## What a restore does -/

section Spec

variable {sql sha256}

/-- A manifest does not differ from itself. -/
theorem diffCounts_self {kind : String} {counts : List (String × Int)}
    (h : (counts.map Prod.fst).Nodup) : diffCounts kind counts counts = [] := by
  refine List.filterMap_eq_nil_iff.2 fun count hcount => ?_
  simp [lookupKey_of_mem h hcount]

/-- A path of plain names is safe. -/
theorem isSafeMember_plain (destRoot : List (List Char)) {name : String}
    (parts : List (List Char)) (hsplit : name.toList.splitOn '/' = parts)
    (hparts : ∀ part ∈ parts, part ≠ [] ∧ part ≠ ['.'] ∧ part ≠ ['.', '.'])
    (hplain : ∀ c ∈ name.toList, c ≠ '\\' ∧ c ≠ ':') (hhead : name.toList.head? ≠ some '/') :
    isSafeMember destRoot ⟨name, .file⟩ = true := by
  have hname : (name.toList.map fun c => if c = '\\' then '/' else c) = name.toList :=
    (List.map_congr_left fun c hc => if_neg (hplain c hc).1).trans (List.map_id' _)
  have hresolve : resolve destRoot name.toList = destRoot ++ parts := by
    rw [resolve, hsplit]
    clear hsplit
    induction parts generalizing destRoot with
    | nil => rw [List.foldl_nil, List.append_nil]
    | cons part parts ih =>
      obtain ⟨hempty, hdot, hup⟩ := hparts part List.mem_cons_self
      rw [List.foldl_cons, if_neg (not_or.2 ⟨hempty, hdot⟩), if_neg hup,
        ih _ fun p hp => hparts p (List.mem_cons_of_mem part hp), List.append_assoc,
        List.singleton_append]
  have hcolon : ':' ∉ name.toList.takeWhile (· ≠ '/') := fun h =>
    (hplain _ ((List.takeWhile_sublist _).subset h)).2 rfl
  simp only [isSafeMember, hname, if_neg (not_or.2 ⟨hhead, hcolon⟩), hresolve]
  simp

/-- The names that `createBackup` chooses are safe. -/
theorem isSafeMember_db (destRoot : List (List Char)) :
    isSafeMember destRoot ⟨"db/parallax.db", .file⟩ = true :=
  isSafeMember_plain destRoot ["db".toList, "parallax.db".toList] (by decide) (by decide)
    (List.all_iff_forall_prop.1 (by decide)) (by decide)

theorem isSafeMember_manifest (destRoot : List (List Char)) :
    isSafeMember destRoot ⟨"manifest.json", .file⟩ = true :=
  isSafeMember_plain destRoot ["manifest.json".toList] (by decide) (by decide)
    (List.all_iff_forall_prop.1 (by decide)) (by decide)

/-- The restored database is read and closed by the only connection. -/
theorem computeManifestFromTarget_spec (sql : Sql Page) (sha256 : List Page → String)
    (expected : BackupManifest) {t : Target Page} {file : List Page} (hmain : t.main = some file) :
    (∃ e, countsOfContent (sql · (overlay file t.log)) = .error e ∧
      (computeManifestFromTarget sql sha256 expected t).result = .error (.sqlite e)) ∨
    ∃ counts, countsOfContent (sql · (overlay file t.log)) = .ok counts ∧
      (computeManifestFromTarget sql sha256 expected t).result =
        .ok ⟨expected.parallaxVersion, counts.1, expected.createdAt,
          sha256 (overlay file t.log), counts.2.1, counts.2.2⟩ ∧
      (computeManifestFromTarget sql sha256 expected t).final =
        { t with main := some (overlay file t.log), log := [] } := by
  have hanswers : Answers sql (sql · (overlay file t.log))
      fun _ s => s = (⟨⟨file, t.log⟩, []⟩ : Site Page) := by
    rintro n s rfl
    exact ⟨fun q => rfl, rfl⟩
  obtain ⟨s, hs⟩ : ∃ s, s = (⟨⟨t.main.getD [], t.log⟩, []⟩ : Site Page) := ⟨_, rfl⟩
  rw [computeManifestFromTarget, Act.focus]
  rw [hmain, Option.getD_some] at hs ⊢
  cases computeManifest_spec sha256 hanswers (n := 0) hs expected.parallaxVersion
    expected.createdAt true with
  | inl h =>
    obtain ⟨e, hcounts, hresult⟩ := h
    rw [hs] at hresult
    exact .inl ⟨e, hcounts, hresult⟩
  | inr h =>
    obtain ⟨u, counts, rfl, hcounts, hresult, hfinal⟩ := h
    rw [hs] at hresult hfinal
    refine .inr ⟨counts, hcounts, hresult, ?_⟩
    simp only [hfinal]
    rfl

omit [Inhabited Page] in
theorem install_spec (args : RestoreArgs) (file : List Page) (vault : Option (List Member))
    (t : Target Page) :
    ∃ u, install args file vault t = ⟨.ok (), u, (install args file vault t).trail⟩ ∧
      u.main = some file ∧ u.log = t.log ∧
      u.aside = moveAside args.dbTimestamp t.main t.aside := by
  cases vault with
  | none => exact ⟨_, rfl, rfl, rfl, rfl⟩
  | some members => exact ⟨_, rfl, rfl, rfl, rfl⟩

/-- An archive with a manifest of its own database, whose members are all safe. -/
structure Sound (sql : Sql Page) (sha256 : List Page → String) (destRoot : List (List Char))
    (archive : Archive Page) (m : BackupManifest) (file : List Page) : Prop where
  db : archive.db = some (.file, file)
  manifest : archive.manifest = some m.toDict
  describes : Describes sql sha256 m file
  safe : archive.members.all (isSafeMember destRoot) = true

variable {args : RestoreArgs} {archive : Archive Page} {m : BackupManifest} {file : List Page}

theorem restoreBackup_eq (h : Sound sql sha256 args.destRoot archive m file)
    (hverify : args.verify = true) :
    restoreBackup sql sha256 args (some archive) = (do
      install args file archive.vault
      verifyRestored sql sha256 m
      return m) := by
  simp only [restoreBackup, h.safe, h.db, h.manifest, Option.map_some, fromDict_toDict, hverify]
  rfl

/-- The digest tells whether the log beside the file changes it. -/
theorem verifyRestored_spec (h : Describes sql sha256 m file) {t : Target Page}
    (hmain : t.main = some file) :
    (overlay file t.log = file ∧ (verifyRestored sql sha256 m t).result = .ok () ∧
      (verifyRestored sql sha256 m t).final = { t with main := some file, log := [] }) ∨
    (overlay file t.log ≠ file ∧ (Function.Injective sha256 →
      ∃ e, (verifyRestored sql sha256 m t).result = .error e)) := by
  obtain ⟨hsha, hcounts⟩ := id h
  have hspec := computeManifestFromTarget_spec sql sha256 m hmain
  rw [verifyRestored, Act.bind_apply, Act.tryCatch_apply]
  by_cases hlog : overlay file t.log = file
  · rw [hlog, hcounts] at hspec
    obtain ⟨e, he, -⟩ | ⟨counts, hok, hresult, hfinal⟩ := hspec
    · cases he
    · cases hok
      have hdiff : diffManifests m m = [] := by
        rw [diffManifests, diffCounts_self h.names_nodup.1, diffCounts_self h.names_nodup.2]
        simp
      refine .inl ⟨hlog, ?_, ?_⟩
      all_goals
        simp only [hresult, hfinal, ← hsha, Act.done]
        rw [hdiff]
        rfl
  · refine .inr ⟨hlog, fun hinj => ?_⟩
    obtain ⟨e, -, hresult⟩ | ⟨counts, -, hresult, -⟩ := hspec
    · rw [hresult]
      exact ⟨_, rfl⟩
    · rw [hresult]
      have hne : m.dbSha256 ≠ sha256 (overlay file t.log) := fun heq =>
        hlog (hinj (hsha.symm.trans heq)).symm
      simp only [Act.done, diffManifests, if_pos hne, List.cons_append, List.nil_append]
      exact ⟨_, rfl⟩

/-- A restore of a sound archive. -/
theorem restoreBackup_spec (h : Sound sql sha256 args.destRoot archive m file)
    (hverify : args.verify = true) (t : Target Page) :
    (overlay file t.log = file ∧
      (restoreBackup sql sha256 args (some archive) t).result = .ok m ∧
      (restoreBackup sql sha256 args (some archive) t).final.effective = some file ∧
      (restoreBackup sql sha256 args (some archive) t).final.aside =
        moveAside args.dbTimestamp t.main t.aside) ∨
    (overlay file t.log ≠ file ∧ (Function.Injective sha256 →
      ∃ e, (restoreBackup sql sha256 args (some archive) t).result = .error e)) := by
  obtain ⟨u, hu, hmain, hulog, haside⟩ := install_spec args file archive.vault t
  have hverified := verifyRestored_spec h.describes hmain
  rw [hulog] at hverified
  rw [restoreBackup_eq h hverify, Act.bind_apply, hu]
  dsimp only
  rw [Act.bind_apply]
  obtain ⟨hlog, hresult, hfinal⟩ | ⟨hlog, herror⟩ := hverified
  · refine .inl ⟨hlog, ?_, ?_, ?_⟩
    · rw [hresult]
      rfl
    · rw [hresult, hfinal]
      rfl
    · rw [hresult, hfinal]
      exact haside
  · refine .inr ⟨hlog, fun hinj => ?_⟩
    obtain ⟨e, he⟩ := herror hinj
    rw [he]
    exact ⟨e, rfl⟩

end Spec




end ParallaxKernel.Backup
