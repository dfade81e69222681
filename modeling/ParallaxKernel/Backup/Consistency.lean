import ParallaxKernel.Backup.Restore

/-!
# What a backup holds and what a restore keeps

A backup of a database that others write to is one of a single moment only where the writers leave
alone what the manifest counts, and the file between its digest and its copy. A restore moves the
database file aside without the log beside it.
-/

namespace ParallaxKernel.Backup

open Lib Wal

variable {Page : Type} [Inhabited Page] {sql : Sql Page} {sha256 : List Page → String}

/-! ## Backups under writers -/

/-- The queries answer `v`. -/
def Reads (sql : Sql Page) (v : Query → Except SqliteError Int) (file : List Page) : Prop :=
  ∀ q, sql q file = v q

/-- Whatever is moved to the file during the next `n` steps, the queries answer `v`; after these
steps `later` is to come. -/
structure Calm (sql : Sql Page) (v : Query → Except SqliteError Int)
    (later : List (List (Event Page))) (n : Nat) (s : Site Page) : Prop where
  disk : Throughout (Reads sql v) s.disk
  commits : Throughout (Reads sql v) ⟨s.disk.effective, commitsOf (s.others.take n).flatten⟩
  later_eq : s.others.drop n = later

variable {v : Query → Except SqliteError Int} {later : List (List (Event Page))} {n : Nat}
variable {s : Site Page}

theorem Calm.next (h : Calm sql v later (n + 1) s) :
    Calm sql v later n ⟨s.found, s.others.tail⟩ := by
  obtain ⟨hdisk, hcommits, rfl⟩ := h
  have hsplit : commitsOf (s.others.take (n + 1)).flatten =
      commitsOf (s.others.headD []) ++ commitsOf (s.others.tail.take n).flatten := by
    rw [← commitsOf_append]
    cases s.others with
    | nil => simp
    | cons events others => rfl
  rw [hsplit] at hcommits
  obtain ⟨hfound, hrest⟩ := hdisk.events hcommits
  exact ⟨hfound, hrest, by rw [List.drop_tail]⟩

theorem Calm.closed (h : Calm sql v later (n + 1) s) (lastToClose : Bool) :
    Calm sql v later n (s.closed lastToClose) := by
  obtain ⟨hdisk, hcommits, hlater⟩ := h.next
  cases lastToClose with
  | false => exact ⟨hdisk, hcommits, hlater⟩
  | true => exact ⟨hdisk.truncate, hcommits, hlater⟩

theorem checkpointTruncate_spec (args : BackupArgs) (s : Site Page) :
    (∃ e, (checkpointTruncate args s).result = .error e) ∨
      (checkpointTruncate args s).result = .ok () ∧
        (checkpointTruncate args s).final =
          Site.closed ⟨s.found.truncate, s.others.tail⟩ args.lastToClose := by
  rw [checkpointTruncate, Act.bind_apply, (closing_apply args.lastToClose _ s).1,
    (closing_apply args.lastToClose _ s).2]
  simp only [onDisk, Act.step]
  cases args.checkpointRow with
  | error e => exact .inl ⟨.sqlite e, rfl⟩
  | ok row =>
    cases row with
    | none => exact .inl ⟨.runtime, rfl⟩
    | some busy =>
      cases busy with
      | ofNat n =>
        cases n with
        | zero => exact .inr ⟨rfl, rfl⟩
        | succ n => exact .inl ⟨.runtime, rfl⟩
      | negSucc n => exact .inl ⟨.runtime, rfl⟩

/-- A backup that is made has found the file, checkpointed it and computed a manifest. -/
theorem createBackup_eq_ok {args : BackupArgs} {archive : Archive Page}
    (h : (createBackup sql sha256 args s).result = .ok archive) :
    ∃ t m, t = computeManifestFromDb sql sha256 args.parallaxVersion args.createdAt
        args.lastToClose (Site.closed ⟨s.found.truncate, s.others.tail⟩ args.lastToClose) ∧
      t.result = .ok m ∧
      archive = ⟨some (if args.isLink then .link else .file, t.final.found.main), args.vault,
        some m.toDict⟩ := by
  rw [createBackup] at h
  cases hfile : args.isFile with
  | false => rw [hfile] at h; cases h
  | true =>
    cases hexists : args.archiveExists with
    | true => rw [hfile, hexists] at h; cases h
    | false =>
      simp only [hfile, hexists, Bool.not_true, Bool.false_eq_true, if_false] at h
      rw [Act.bind_apply] at h
      obtain ⟨e, he⟩ | ⟨hresult, hfinal⟩ := checkpointTruncate_spec args s
      · rw [he] at h
        cases h
      · rw [hresult, hfinal] at h
        dsimp only at h
        rw [Act.bind_apply] at h
        cases hm : (computeManifestFromDb sql sha256 args.parallaxVersion args.createdAt
            args.lastToClose
            (Site.closed ⟨s.found.truncate, s.others.tail⟩ args.lastToClose)).result with
        | error e => rw [hm] at h; cases h
        | ok m =>
          rw [hm] at h
          cases h
          exact ⟨_, m, rfl, hm, rfl⟩

/-! ## Self-consistency -/

/-- Nothing at the target. -/
def emptyTarget : Target Page := ⟨none, [], [], none, []⟩

/-- What `tar.add` finds can be extracted again. -/
structure Extractable (destRoot : List (List Char)) (args : BackupArgs) : Prop where
  notLink : args.isLink = false
  vault : ∀ members, args.vault = some members → ∀ m ∈ members, isSafeMember destRoot m = true

/-- Between the checkpoint and the digest no commit changes an answer, and between the digest and
the copy no checkpoint moves anything. -/
structure Undisturbed (sql : Sql Page) (s : Site Page) : Prop where
  answers : ∀ n q, sql q (overlay s.found.effective
    ((commitsOf (s.others.tail.take 12).flatten).take n)) = sql q s.found.effective
  file : ∀ n, .checkpoint n ∈ (s.others.drop 13).headD [] → n = 0

omit [Inhabited Page] in
/-- An archive whose members are safe. -/
theorem members_safe {args : BackupArgs} {destRoot : List (List Char)}
    (h : Extractable destRoot args) (file : List Page) (manifest : Json) :
    (Archive.members ⟨some (if args.isLink then .link else .file, file), args.vault,
      some manifest⟩).all (isSafeMember destRoot) = true := by
  obtain ⟨hlink, hvault⟩ := h
  simp only [Archive.members, hlink, Option.map_some, Option.toList_some, List.all_append,
    Bool.and_eq_true, List.all_cons, List.all_nil, Bool.and_true]
  refine ⟨⟨isSafeMember_db destRoot, ?_⟩, isSafeMember_manifest destRoot⟩
  cases hmembers : args.vault with
  | none => rfl
  | some members => exact List.all_eq_true.2 (hvault members hmembers)

/-- Pages of one character; the events are as many as the pages. -/
def sampleSql : Sql Char := fun
  | .schemaVersion, _ => .ok 14
  | .count "events", file => .ok file.length
  | _, _ => .ok 0

def sampleArgs : BackupArgs :=
  ⟨true, false, false, none, "0.6.0", "2026-01-01T00:00:00+00:00", .ok (some 0), false⟩

def sampleRestore : RestoreArgs := ⟨[], "20260101T000000", "20260101T000000", true⟩

/-- The target holds the content, and what it held before lies in a file that was moved aside. -/
def Recovers (before after : Target Page) (content : List Page) : Prop :=
  after.effective = some content ∧
    ∀ previous, before.effective = some previous →
      ∃ name, name ∉ before.aside.map Prod.fst ∧ (name, previous) ∈ after.aside

/-- A member of the archive cannot be extracted. -/
def Refused (destRoot : List (List Char)) (args : BackupArgs) : Prop :=
  args.isLink = true ∨
    ∃ members, args.vault = some members ∧ ∃ m ∈ members, isSafeMember destRoot m = false

omit [Inhabited Page] in
theorem extractable_of_not_refused {destRoot : List (List Char)} {args : BackupArgs}
    (h : ¬ Refused destRoot args) : Extractable destRoot args := by
  obtain ⟨hlink, hvault⟩ := not_or.1 h
  refine ⟨Bool.eq_false_iff.2 hlink, fun members hmembers m hm => ?_⟩
  by_contra hunsafe
  exact hvault ⟨members, hmembers, m, hm, Bool.eq_false_iff.2 hunsafe⟩

/-- A backup of a database that nobody writes to. -/
theorem createBackup_quiescent {args : BackupArgs} {d : Disk Page} {archive : Archive Page}
    (hcreate : (createBackup sql sha256 args ⟨d, []⟩).result = .ok archive) :
    ∃ m, archive = ⟨some (if args.isLink then .link else .file, d.effective), args.vault,
      some m.toDict⟩ ∧ Describes sql sha256 m d.effective := by
  obtain ⟨t, m, ht, hm, harchive⟩ := createBackup_eq_ok hcreate
  have hanswers : Answers sql (sql · d.effective)
      fun _ s => s = (⟨⟨d.effective, []⟩, []⟩ : Site Page) := by
    rintro n s rfl
    exact ⟨fun q => rfl, rfl⟩
  have hclosed (lastToClose : Bool) :
      Site.closed (⟨⟨d.effective, []⟩, []⟩ : Site Page) lastToClose =
        ⟨⟨d.effective, []⟩, []⟩ := by
    cases lastToClose <;> rfl
  have hstart : t = computeManifestFromDb sql sha256 args.parallaxVersion args.createdAt
      args.lastToClose ⟨⟨d.effective, []⟩, []⟩ := ht.trans (congrArg _ (hclosed args.lastToClose))
  obtain ⟨e, -, he⟩ | ⟨u, counts, rfl, hcounts, hok, hfinal⟩ :=
    computeManifest_spec sha256 hanswers (n := 0) rfl args.parallaxVersion args.createdAt
      args.lastToClose
  · rw [← hstart, hm] at he
    cases he
  · rw [← hstart, hclosed] at hok hfinal
    rw [hm] at hok
    cases hok
    rw [hfinal] at harchive
    exact ⟨_, harchive, rfl, hcounts⟩

/-- An archive with a member that is not safe is refused. -/
theorem restoreBackup_refused {args : BackupArgs} {rargs : RestoreArgs}
    (h : Refused rargs.destRoot args) (file : List Page) (manifest : Json) (t : Target Page) :
    (restoreBackup sql sha256 rargs (some ⟨some (if args.isLink then .link else .file, file),
      args.vault, some manifest⟩) t).result = .error .tar := by
  have hunsafe : (Archive.members ⟨some (if args.isLink then .link else .file, file), args.vault,
      some manifest⟩).all (isSafeMember rargs.destRoot) = false := by
    simp only [Archive.members, Option.map_some, Option.toList_some, List.all_append,
      Bool.and_eq_false_iff]
    cases h with
    | inl hlink =>
      refine .inl (.inl ?_)
      rw [hlink]
      simp [isSafeMember]
    | inr hvault =>
      obtain ⟨members, hmembers, m, hm, hsafe⟩ := hvault
      refine .inl (.inr ?_)
      rw [hmembers]
      exact List.all_eq_false.2 ⟨m, hm, by simp [hsafe]⟩
  simp only [restoreBackup, hunsafe]
  rfl

/-- What was at the target is kept as far as it is in the file that is moved aside. -/
theorem moveAside_keeps_iff (timestamp : String) (t : Target Page) :
    (∀ previous, t.effective = some previous → ∃ name, name ∉ t.aside.map Prod.fst ∧
      (name, previous) ∈ moveAside timestamp t.main t.aside) ↔
    ∀ main, t.main = some main → overlay main t.log = main := by
  cases hmain : t.main with
  | none => simp [Target.effective, hmain]
  | some main =>
    have heffective : t.effective = some (overlay main t.log) := by
      rw [Target.effective, hmain]
      rfl
    rw [heffective]
    constructor
    · rintro h main' ⟨⟩
      obtain ⟨name, hfree, hmem⟩ := h _ rfl
      cases List.mem_cons.1 hmem with
      | inl heq => exact (Prod.mk.inj heq).2
      | inr hold => exact absurd (List.mem_map_of_mem hold) hfree
    · rintro h previous ⟨⟩
      refine ⟨freeSuffix (t.aside.map Prod.fst) timestamp, freeSuffix_free _ _, ?_⟩
      rw [h main rfl]
      exact List.mem_cons_self

theorem restoreBackup_recovers_iff (hsha : Function.Injective sha256) {args : BackupArgs}
    {rargs : RestoreArgs} (hverify : rargs.verify = true) {d : Disk Page} {archive : Archive Page}
    (hcreate : (createBackup sql sha256 args ⟨d, []⟩).result = .ok archive)
    (before : Target Page) :
    (∀ m, (restoreBackup sql sha256 rargs (some archive) before).result = .ok m →
      Recovers before (restoreBackup sql sha256 rargs (some archive) before).final
        d.effective) ↔
    Refused rargs.destRoot args ∨
      (∀ main, before.main = some main → overlay main before.log = main) ∨
      overlay d.effective before.log ≠ d.effective := by
  obtain ⟨m, rfl, hdescribes⟩ := createBackup_quiescent hcreate
  by_cases hrefused : Refused rargs.destRoot args
  · refine iff_of_true (fun m hm => ?_) (.inl hrefused)
    rw [restoreBackup_refused hrefused] at hm
    cases hm
  · have hextract := extractable_of_not_refused hrefused
    have hsound : Sound sql sha256 rargs.destRoot
        ⟨some (if args.isLink then .link else .file, d.effective), args.vault, some m.toDict⟩
        m d.effective :=
      ⟨by rw [hextract.notLink]; rfl, rfl, hdescribes, members_safe hextract _ _⟩
    obtain ⟨hlog, hok, heffective, haside⟩ | ⟨hlog, herror⟩ :=
      restoreBackup_spec hsound hverify before
    · rw [or_iff_right hrefused, or_iff_left (not_not.2 hlog),
        ← moveAside_keeps_iff rargs.dbTimestamp, ← haside]
      constructor
      · exact fun h => (h m hok).2
      · exact fun h m' _ => ⟨heffective, h⟩
    · refine iff_of_true (fun m' hm' => ?_) (.inr (.inr hlog))
      obtain ⟨e, he⟩ := herror hsha
      rw [he] at hm'
      cases hm'

/-- The manifest of a file of one page. -/
def sampleManifest : BackupManifest :=
  ⟨"0.6.0", 14, "2026-01-01T00:00:00+00:00", "a",
    [("sources", 0), ("memories", 0), ("claims", 0), ("decisions", 0), ("events", 1),
      ("index_state", 0)], [("memories_hash_count", 0), ("claims_hash_count", 0)]⟩

theorem restoreBackup_recovers_sample :
    (∀ m, (restoreBackup sampleSql String.ofList sampleRestore
        (some ⟨some (.file, ['a']), none, some sampleManifest.toDict⟩) emptyTarget).result = .ok m →
      Recovers emptyTarget (restoreBackup sampleSql String.ofList sampleRestore
        (some ⟨some (.file, ['a']), none, some sampleManifest.toDict⟩) emptyTarget).final ['a']) ↔
    Refused [] sampleArgs ∨
      (∀ main, (emptyTarget : Target Char).main = some main → overlay main [] = main) ∨
      overlay ['a'] [] ≠ ['a'] :=
  restoreBackup_recovers_iff (fun _ _ h => String.ofList_injective h) rfl
    (show (createBackup sampleSql String.ofList sampleArgs ⟨⟨['a'], []⟩, []⟩).result = .ok _
      from rfl) emptyTarget

/-- A log beside the target whose pages the archive holds already. -/
def sampleTarget : Target Char := ⟨some ['a', 'b'], [⟨[(0, 'x')], 2⟩], [], none, []⟩

/-- The restore returns, and page `b` with its page `x` is nowhere. -/
theorem sampleTarget_lost :
    ∃ archive m after,
      (createBackup sampleSql String.ofList sampleArgs ⟨⟨['x', 'y'], []⟩, []⟩).result =
        .ok archive ∧
      (restoreBackup sampleSql String.ofList sampleRestore (some archive) sampleTarget).result =
        .ok m ∧
      (restoreBackup sampleSql String.ofList sampleRestore (some archive) sampleTarget).final =
        after ∧
      ¬ Recovers sampleTarget after ['x', 'y'] := by
  refine ⟨_, _, _, rfl, rfl, rfl, ?_⟩
  rintro ⟨-, h⟩
  obtain ⟨name, -, hmem⟩ := h ['x', 'b'] rfl
  cases congrArg Prod.snd (List.mem_singleton.1 hmem)

end ParallaxKernel.Backup
