import ParallaxKernel.Apex.AphelionExport
import ParallaxKernel.Lib.PartialMap
import ParallaxKernel.Apex.CanonicalForm
import ParallaxKernel.Lib.PyJsonText

/-!
# What an export leaves for the packer

The manifest and the claims directory agree, unless a claim id is repeated or one of the two
documents is written over another file of the export.
-/

namespace ParallaxKernel.Apex

open Lib

/-! ## Reading the tree back -/

/-- An entry of a manifest as it is read. -/
structure Entry where
  claimId : String
  path : String
  hash : String

/-- An event of a provenance as it is read. -/
structure EventEntry where
  eventId : String
  claimId : String
  eventType : String

structure Reader (Bytes : Type) where
  manifest : Bytes → Option (List Entry)
  provenance : Bytes → Option (List EventEntry)

section

variable {Bytes : Type}

/-- The manifest, the claims directory and the provenance on disk agree. -/
structure Agrees (A : Aphelion Bytes) (R : Reader Bytes) (pkg : Package) (t : FileTree Bytes)
    (entries : List Entry) (events : List EventEntry) : Prop where
  manifest : (t.read pkg.manifestPath).bind R.manifest = some entries
  provenance : (t.read pkg.provenancePath).bind R.provenance = some events
  files : ((claimFiles pkg t).map ("claims/" ++ ·)).Perm (entries.map Entry.path)
  paths : (entries.map Entry.path).Nodup
  claimIds : (entries.map Entry.claimId).Nodup
  hashes : ∀ e ∈ entries, ∃ name b, e.path = "claims/" ++ name ∧
    t.fileAt (pkg.claimsDir ++ [name]) = some b ∧ A.sha256 b = e.hash
  eventClaims : (events.map EventEntry.claimId).Perm (entries.map Entry.claimId)
  create : ∀ e ∈ events, e.eventType = "create"
  eventIds : (events.map EventEntry.eventId).Nodup

def manifestEntry (c : ManifestClaim) : Entry := ⟨c.claimId, c.path, c.hash⟩

def eventEntry (e : CreateEvent) : EventEntry := ⟨e.eventId, e.claimId, "create"⟩

/-- What the documents promise their readers. Normalisation keeps ASCII; a claim starts with a fence,
as no JSON text does, and lines of events are no manifest. -/
structure Documents (A : Aphelion Bytes) (R : Reader Bytes) : Prop where
  hash_ascii (b : Bytes) : isAscii (A.sha256 b) = true
  manifest (m : Manifest) (b : Bytes) (h : A.manifestBytes m = some b)
    (hascii : ∀ c ∈ m.claims, isAscii c.claimId = true ∧ isAscii c.path = true ∧
      isAscii c.hash = true) : R.manifest b = some (m.claims.map manifestEntry)
  provenance (es : List CreateEvent) (bs : List Bytes) (h : es.mapM A.eventBytes = some bs)
    (hascii : ∀ e ∈ es, isAscii e.eventId = true ∧ isAscii e.claimId = true) :
    R.provenance (A.join bs) = some (es.map eventEntry)
  provenance_manifest (es : List CreateEvent) (bs : List Bytes)
    (h : es.mapM A.eventBytes = some bs) : R.manifest (A.join bs) = none
  claim_manifest (text : String) : R.manifest (A.utf8 ("---\n" ++ text)) = none
  claim_provenance (text : String) : R.provenance (A.utf8 ("---\n" ++ text)) = none

/-- The text whose digest gives the id of an event. -/
def eventText (pkg : Package) (claimId : String) : String :=
  "\x1f".intercalate [pkg.packageId, claimId, "create"]

/-- No two contents have one digest, and the ids cut out of digests are distinct for the events of
the export. -/
structure CollisionFree (A : Aphelion Bytes) (pkg : Package) (claims : List ExportClaim) :
    Prop where
  sha256 : Function.Injective A.sha256
  uuid : ∀ c ∈ claims, ∀ d ∈ claims,
    uuidOfDigest (A.sha256 (A.utf8 (eventText pkg c.claimId))) =
      uuidOfDigest (A.sha256 (A.utf8 (eventText pkg d.claimId))) →
    eventText pkg c.claimId = eventText pkg d.claimId

/-- The manifest and the provenance lead to different files, and neither leads to a claim file. -/
structure Apart (pkg : Package) (t : FileTree Bytes) (m p : Path) : Prop where
  different : ¬ FileTree.SameFile t p m
  manifest : ∀ name, isMd name = true → m ≠ pkg.claimsDir ++ [name]
  provenance : ∀ name, isMd name = true → p ≠ pkg.claimsDir ++ [name]

variable {A : Aphelion Bytes} {R : Reader Bytes} {pkg : Package} {t u v w x : FileTree Bytes}
variable {claims : List ExportClaim} {prepared : List (ExportClaim × Bytes)}

/-! ## Prepared claims -/

/-- A prepared claim has a valid id, and its file starts with a fence. -/
structure Prepared (A : Aphelion Bytes) (p : ExportClaim × Bytes) : Prop where
  claimId : fullMatch claimIdClasses p.1.claimId.toList = true
  fence : ∃ text, p.2 = A.utf8 ("---\n" ++ text)

theorem prepared_of_build {claim : ExportClaim} {b : Bytes}
    (h : buildClaimMarkdown A claim = .ok b) : ∃ text, b = A.utf8 ("---\n" ++ text) := by
  unfold buildClaimMarkdown at h
  obtain ⟨_, -, h⟩ := except_bind_eq_ok.1 h
  cases hemit : A.emitFrontmatter ((frontmatter claim).insertionSort (KeyLe id)) with
  | none =>
    rw [hemit] at h
    cases h
  | some yaml =>
    rw [hemit] at h
    cases h
    exact ⟨yaml ++ "---\n" ++ claim.body, by simp [String.append_assoc]⟩

theorem prepare_spec (h : prepare A claims = .ok prepared) :
    prepared.map Prod.fst = claims ∧ ∀ p ∈ prepared, Prepared A p := by
  unfold prepare at h
  induction claims generalizing prepared with
  | nil =>
    cases h
    exact ⟨rfl, by simp⟩
  | cons claim claims ih =>
    rw [List.mapM_cons] at h
    obtain ⟨p, hp, h⟩ := except_bind_eq_ok.1 h
    obtain ⟨ps, hps, h⟩ := except_bind_eq_ok.1 h
    obtain ⟨_, hvalid, hp⟩ := except_bind_eq_ok.1 hp
    obtain ⟨b, hb, hp⟩ := except_bind_eq_ok.1 hp
    cases h
    cases hp
    obtain ⟨hfst, hall⟩ := ih hps
    refine ⟨by rw [List.map_cons, hfst], List.forall_mem_cons.2 ⟨⟨?_, prepared_of_build hb⟩, hall⟩⟩
    by_contra hnot
    simp [validateClaimId, hnot, Except.mapError] at hvalid

/-! ## ASCII -/

theorem isAscii_append (s s' : String) : isAscii (s ++ s') = (isAscii s && isAscii s') := by
  simp [isAscii]

theorem ascii_of_isLowerHex {c : Char} (h : isLowerHex c = true) : c.toNat < 128 := by
  simp only [isLowerHex, Bool.or_eq_true, Bool.and_eq_true, decide_eq_true_eq, Char.isDigit,
    Char.le_def, UInt32.le_iff_toNat_le] at h
  have hcode : c.val.toNat = c.toNat := rfl
  simp at h
  omega

theorem ascii_of_fullMatch {ps : List (Char → Bool)} {cs : List Char}
    (hps : ∀ p ∈ ps, ∀ c, p c = true → c.toNat < 128) (h : fullMatch ps cs = true) :
    ∀ c ∈ cs, c.toNat < 128 := by
  induction ps generalizing cs with
  | nil =>
    cases cs with
    | nil => simp
    | cons c cs => cases h
  | cons p ps ih =>
    cases cs with
    | nil => cases h
    | cons c cs =>
      rw [fullMatch, Bool.and_eq_true] at h
      rw [List.forall_mem_cons] at hps
      exact List.forall_mem_cons.2 ⟨hps.1 c h.1, ih hps.2 h.2⟩

theorem isAscii_claimId {claimId : String}
    (h : fullMatch claimIdClasses claimId.toList = true) : isAscii claimId = true := by
  rw [isAscii, List.all_eq_true]
  have hclasses : ∀ p ∈ claimIdClasses, ∀ c, p c = true → c.toNat < 128 := by
    intro p hp c hc
    have hkinds : p = isLowerHex ∨ p = (· == '-') ∨ p = (· == '7') ∨
        p = ("89ab".toList.contains ·) := by
      simp only [claimIdClasses, List.mem_append, List.mem_cons, List.mem_replicate] at hp
      tauto
    obtain rfl | rfl | rfl | rfl := hkinds
    · exact ascii_of_isLowerHex hc
    · obtain rfl : c = '-' := by simpa using hc
      decide
    · obtain rfl : c = '7' := by simpa using hc
      decide
    · have hmem : c = '8' ∨ c = '9' ∨ c = 'a' ∨ c = 'b' := by simpa using hc
      obtain rfl | rfl | rfl | rfl := hmem <;> decide
  exact fun c hc => decide_eq_true (ascii_of_fullMatch hclasses h c hc)

theorem isAscii_uuidOfDigest {digest : String} (h : isAscii digest = true) :
    isAscii (uuidOfDigest digest) = true := by
  rw [isAscii, List.all_eq_true] at h ⊢
  have hpiece (start stop : Nat) :
      ∀ c ∈ (digest.toList.drop start).take (stop - start), decide (c.toNat < 128) = true :=
    fun c hc => h c (List.drop_subset _ _ (List.take_subset _ _ hc))
  have hdigit (n : Nat) : decide ((Json.hexDigit n).toNat < 128) = true := by
    have hall : ∀ k < 16, (Nat.digitChar k).toNat < 128 := by decide
    exact decide_eq_true (hall _ (Nat.mod_lt _ (by omega)))
  simp only [uuidOfDigest, String.toList_ofList, List.forall_mem_append, List.forall_mem_cons]
  and_intros <;> first | exact hpiece _ _ | exact hdigit _ | decide

theorem isAscii_relPath {claimId : String} (h : isAscii claimId = true) :
    isAscii (relPath claimId) = true := by
  rw [relPath, isAscii_append, isAscii_append, h]
  decide

theorem eventText_injective (pkg : Package) : Function.Injective (eventText pkg) := by
  intro id id' h
  have hchars := congrArg String.toList h
  simp only [eventText, String.intercalate_cons_cons, String.intercalate_singleton,
    String.toList_append, List.append_assoc, List.append_cancel_left_eq,
    List.append_cancel_right_eq] at hchars
  exact String.toList_inj.1 hchars

/-! ## The claim files -/

theorem claimPath_eq_iff {name claimId : String} :
    pkg.claimsDir ++ [name] = pkg.claimPath claimId ↔ name = claimId ++ ".md" := by
  simp [Package.claimPath]

/-- What the writes of the claims leave. -/
structure Written (pkg : Package) (prepared : List (ExportClaim × Bytes))
    (t u : FileTree Bytes) : Prop where
  ready : Ready pkg u
  sameWays : FileTree.SameWays t u
  other : ∀ q, (∀ p ∈ prepared, q ≠ pkg.claimPath p.1.claimId) →
    u.node? q = t.node? q ∧ u.fileAt q = t.fileAt q
  files : ∀ p ∈ prepared, ∃ i, u.node? (pkg.claimPath p.1.claimId) = some (.file i)
  contents : ((prepared.map Prod.fst).map ExportClaim.claimId).Nodup →
    ∀ p ∈ prepared, u.fileAt (pkg.claimPath p.1.claimId) = some p.2

theorem writeClaim_spec (h : Ready pkg t) (prepared : List (ExportClaim × Bytes)) :
    ∃ u, (forM prepared (writeClaim pkg)).ends t = (.ok (), u) ∧ Written pkg prepared t u := by
  induction prepared generalizing t with
  | nil =>
    exact ⟨t, rfl, h, .refl t, fun _ _ => ⟨rfl, rfl⟩, by simp, by simp⟩
  | cons p ps ih =>
    obtain ⟨u, hput, hready, hends⟩ := writeClaim_ends h p
    obtain ⟨v, hv, hwritten⟩ := ih hready
    obtain ⟨hfile, hother⟩ := FileTree.node?_put hput
    have hsingle (q : Path) (hq : q ≠ pkg.claimPath p.1.claimId) :
        ¬ FileTree.SameFile t (pkg.claimPath p.1.claimId) q :=
      fun hsame => hq (h.single _ (isMd_claim _) q hsame)
    refine ⟨v, ?_, hwritten.ready, (FileTree.sameWays_put hput).trans hwritten.sameWays, ?_, ?_, ?_⟩
    · rw [List.forM_cons, Act.ends_bind, hends]
      exact hv
    · intro q hq
      obtain ⟨hp, hps⟩ := List.forall_mem_cons.1 hq
      obtain ⟨hnode, hcontent⟩ := hwritten.other q hps
      exact ⟨hnode.trans (hother q hp),
        hcontent.trans ((FileTree.fileAt_put hput q).2 (hsingle q hp))⟩
    · refine List.forall_mem_cons.2 ⟨?_, hwritten.files⟩
      by_cases hmem : ∃ r ∈ ps, pkg.claimPath p.1.claimId = pkg.claimPath r.1.claimId
      · obtain ⟨r, hr, heq⟩ := hmem
        exact heq ▸ hwritten.files r hr
      · obtain ⟨i, hi⟩ := hfile
        exact ⟨i, (hwritten.other _ fun r hr heq => hmem ⟨r, hr, heq⟩).1.trans hi⟩
    · intro hnodup
      rw [List.map_cons, List.map_cons, List.nodup_cons] at hnodup
      refine List.forall_mem_cons.2 ⟨?_, hwritten.contents hnodup.2⟩
      have hnot : ∀ r ∈ ps, pkg.claimPath p.1.claimId ≠ pkg.claimPath r.1.claimId := by
        intro r hr heq
        have hid : p.1.claimId = r.1.claimId := by simpa [Package.claimPath] using heq
        exact hnodup.1 (hid ▸ List.mem_map_of_mem (List.mem_map_of_mem hr))
      exact (hwritten.other _ hnot).2.trans ((FileTree.fileAt_put hput _).1 (.inl rfl))

/-- How the export gets to the packer. -/
structure Reached (A : Aphelion Bytes) (pkg : Package) (claims : List ExportClaim)
    (t u : FileTree Bytes) (prepared : List (ExportClaim × Bytes)) (v w x y : FileTree Bytes)
    (m p : Path) (b : Bytes) (bs : List Bytes) : Prop where
  prepare : prepare A claims = .ok prepared
  mkdirs : t.mkdirs pkg.claimsDir = some v
  removed : Removed pkg (claimFiles pkg v) v w
  written : Written pkg prepared w x
  manifestBytes : A.manifestBytes (manifest A pkg prepared) = some b
  manifestPath : v.resolve pkg.manifestPath = some m
  manifestPut : x.put m b = some y
  eventBytes : prepared.mapM (fun p => A.eventBytes (createEvent A pkg p)) = some bs
  provenancePath : v.resolve pkg.provenancePath = some p
  provenancePut : y.put p (A.join bs) = some u

theorem write_eq_some {p : Path} {b : Bytes} (h : t.write p b = some u) :
    ∃ q, t.resolve p = some q ∧ t.put q b = some u := Option.bind_eq_some_iff.1 h

theorem writeDocuments_ok (h : (writeDocuments A pkg prepared).ends x = (.ok (), u)) :
    ∃ b m y bs p, A.manifestBytes (manifest A pkg prepared) = some b ∧
      x.resolve pkg.manifestPath = some m ∧ x.put m b = some y ∧
      prepared.mapM (fun p => A.eventBytes (createEvent A pkg p)) = some bs ∧
      y.resolve pkg.provenancePath = some p ∧ y.put p (A.join bs) = some u := by
  rw [writeDocuments] at h
  cases hmanifest : A.manifestBytes (manifest A pkg prepared) with
  | none =>
    rw [hmanifest, Act.ends_bind] at h
    cases h
  | some b =>
    rw [hmanifest, Act.ends_bind] at h
    simp only [osStep_ends] at h
    cases hwrite : x.write pkg.manifestPath b with
    | none =>
      rw [hwrite] at h
      cases h
    | some y =>
      rw [hwrite] at h
      cases hevents : prepared.mapM fun p => A.eventBytes (createEvent A pkg p) with
      | none =>
        rw [hevents] at h
        cases h
      | some bs =>
        simp only [hevents, osStep_ends] at h
        cases hwrite' : y.write pkg.provenancePath (A.join bs) with
        | none =>
          rw [hwrite'] at h
          cases h
        | some z =>
          rw [hwrite'] at h
          cases h
          obtain ⟨m, hm, hput⟩ := write_eq_some hwrite
          obtain ⟨p, hp, hput'⟩ := write_eq_some hwrite'
          exact ⟨b, m, y, bs, p, rfl, hm, hput, rfl, hp, hput'⟩

theorem reached_of_mkdirs (hprepare : prepare A claims = .ok prepared)
    (h : (osStep (·.mkdirs pkg.claimsDir) >>= fun _ => materializeInto A pkg prepared).ends t =
      (.ok (), u)) : ∃ v w x y m p b bs, Reached A pkg claims t u prepared v w x y m p b bs := by
  rw [Act.ends_bind, osStep_ends] at h
  cases hmkdirs : t.mkdirs pkg.claimsDir with
  | none =>
    rw [hmkdirs] at h
    cases h
  | some v =>
    rw [hmkdirs] at h
    replace h : (materializeInto A pkg prepared).ends v = (.ok (), u) := h
    rw [materializeInto, Act.ends_look_bind, Act.ends_bind] at h
    have hcleared := cleared pkg v
    generalize (forM (claimFiles pkg v) (removeStale pkg)).ends v = ended at h hcleared
    cases hcleared with
    | link _ files name hlink hremoved => cases h
    | dir _ files rest name hnames hfiles hdir => cases h
    | all w hfiles hremoved =>
      have hdirs : ∀ q, q <+: pkg.claimsDir → v.node? q = some .dir := by
        intro q hq
        rw [FileTree.node?_mkdirs hmkdirs, if_pos hq]
      obtain ⟨x, hx, hwritten⟩ := writeClaim_spec (ready_of_removed hdirs hremoved) prepared
      simp only [Act.ends_bind, hx] at h
      obtain ⟨b, m, y, bs, p, hb, hm, hput, hbs, hp, hput'⟩ := writeDocuments_ok h
      have hways := hremoved.sameWays.trans hwritten.sameWays
      refine ⟨v, w, x, y, m, p, b, bs, hprepare, hmkdirs, hremoved, hwritten, hb, ?_, hput, hbs,
        ?_, hput'⟩
      · rw [FileTree.resolve_congr hways, hm]
      · rw [FileTree.resolve_congr (hways.trans (FileTree.sameWays_put hput)), hp]

theorem reached_of_ok (h : (materialize A pkg claims).ends t = (.ok (), u)) :
    ∃ prepared v w x y m p b bs, Reached A pkg claims t u prepared v w x y m p b bs := by
  rw [materialize, Act.ends_bind, Act.ends_ofExcept] at h
  cases hprepare : prepare A claims with
  | error failure =>
    rw [hprepare] at h
    cases h
  | ok prepared =>
    rw [hprepare] at h
    simp only [Act.ends_look_bind] at h
    split at h
    · cases h
    · cases h
    · exact ⟨prepared, reached_of_mkdirs hprepare h⟩

/-! ## What is read back -/

section Reached

variable {y : FileTree Bytes} {m p : Path} {b : Bytes} {bs : List Bytes}

namespace Reached

variable (h : Reached A pkg claims t u prepared v w x y m p b bs)
include h

theorem sameWays : FileTree.SameWays v u :=
  ((h.removed.sameWays.trans h.written.sameWays).trans (FileTree.sameWays_put h.manifestPut)).trans
    (FileTree.sameWays_put h.provenancePut)

theorem ready : Ready pkg y := h.written.ready.put h.manifestPut

theorem read_manifest : u.read pkg.manifestPath = u.fileAt m := by
  rw [FileTree.read, ← FileTree.resolve_congr h.sameWays, h.manifestPath, Option.bind_some]

theorem read_provenance : u.read pkg.provenancePath = u.fileAt p := by
  rw [FileTree.read, ← FileTree.resolve_congr h.sameWays, h.provenancePath, Option.bind_some]

theorem fileAt_provenance : u.fileAt p = some (A.join bs) :=
  (FileTree.fileAt_put h.provenancePut p).1 (.inl rfl)

/-- The manifest stays if the provenance is another file. -/
theorem fileAt_manifest (hne : ¬ FileTree.SameFile y p m) : u.fileAt m = some b := by
  rw [(FileTree.fileAt_put h.provenancePut m).2 hne]
  exact (FileTree.fileAt_put h.manifestPut m).1 (.inl rfl)

/-- What is not named like a claim is as it was when the directory was made. -/
theorem node?_written {q : Path} (hq : ∀ name, isMd name = true → q ≠ pkg.claimsDir ++ [name]) :
    x.node? q = v.node? q := by
  rw [(h.written.other q fun r _ => hq _ (isMd_claim _)).1, h.removed.node?, if_neg]
  rintro ⟨name, hname, rfl⟩
  exact hq name (List.mem_filter.1 hname).2 rfl

/-- Away from the claim files, the two documents are one file at the end if and only if they were
at the start. -/
theorem sameFile_iff (hm : ∀ name, isMd name = true → m ≠ pkg.claimsDir ++ [name])
    (hp : ∀ name, isMd name = true → p ≠ pkg.claimsDir ++ [name]) :
    FileTree.SameFile y p m ↔ FileTree.SameFile v p m := by
  have hback : FileTree.SameFile x p m ↔ FileTree.SameFile v p m := by
    rw [FileTree.SameFile, FileTree.SameFile, h.node?_written hm, h.node?_written hp]
  rw [← hback]
  constructor
  · intro hsame
    cases FileTree.sameFile_of_put h.manifestPut hsame with
    | inl heq => exact .inl heq
    | inr hsame => exact hsame
  · rintro (heq | ⟨i, hpi, hmi⟩)
    · exact .inl heq
    · exact .inr ⟨i, FileTree.node?_put_file h.manifestPut hpi,
        FileTree.node?_put_file h.manifestPut hmi⟩

/-- A claim file that neither document is written over holds the claim. -/
theorem fileAt_claim (hnodup : (claims.map ExportClaim.claimId).Nodup)
    (hm : ∀ name, isMd name = true → m ≠ pkg.claimsDir ++ [name])
    (hp : ∀ name, isMd name = true → p ≠ pkg.claimsDir ++ [name]) {r : ExportClaim × Bytes}
    (hr : r ∈ prepared) : u.fileAt (pkg.claimPath r.1.claimId) = some r.2 := by
  have hmd := isMd_claim r.1.claimId
  have hout : ¬ FileTree.SameFile y p (pkg.claimPath r.1.claimId) := fun hsame =>
    hp _ hmd (h.ready.single _ hmd p (hsame.symm))
  have hout' : ¬ FileTree.SameFile x m (pkg.claimPath r.1.claimId) := fun hsame =>
    hm _ hmd (h.written.ready.single _ hmd m (hsame.symm))
  rw [(FileTree.fileAt_put h.provenancePut _).2 hout, (FileTree.fileAt_put h.manifestPut _).2 hout']
  refine h.written.contents ?_ r hr
  rwa [(prepare_spec h.prepare).1]

/-- The names of the claim files at the end: those of the claims, and those that a document is
written under. -/
theorem mem_claimFiles {name : String} : name ∈ claimFiles pkg u ↔ isMd name = true ∧
    ((∃ r ∈ prepared, name = r.1.claimId ++ ".md") ∨
      m = pkg.claimsDir ++ [name] ∨ p = pkg.claimsDir ++ [name]) := by
  rw [claimFiles, List.mem_filter, FileTree.mem_children, and_comm]
  refine and_congr_right fun hmd => ?_
  obtain ⟨⟨i, hi⟩, hother⟩ := FileTree.node?_put h.provenancePut
  obtain ⟨⟨j, hj⟩, hother'⟩ := FileTree.node?_put h.manifestPut
  by_cases hp : p = pkg.claimsDir ++ [name]
  · simp [← hp, hi]
  · rw [hother _ (Ne.symm hp)]
    by_cases hm : m = pkg.claimsDir ++ [name]
    · simp [← hm, hj]
    · rw [hother' _ (Ne.symm hm)]
      by_cases hclaim : ∃ r ∈ prepared, name = r.1.claimId ++ ".md"
      · obtain ⟨r, hr, rfl⟩ := hclaim
        obtain ⟨k, hk⟩ := h.written.files r hr
        rw [Package.claimPath] at hk
        simp only [hk, Option.isSome_some, true_iff]
        exact .inl ⟨r, hr, rfl⟩
      · have hnone : x.node? (pkg.claimsDir ++ [name]) = none := by
          rw [(h.written.other _ fun r hr heq => hclaim ⟨r, hr, claimPath_eq_iff.1 heq⟩).1]
          exact node?_of_removed h.removed hmd
        simp [hnone, hclaim, hp, hm]

/-- The manifest as it is read. -/
theorem manifest_entries (hdoc : Documents A R) : R.manifest b =
    some (prepared.map fun r => manifestEntry (manifestClaim A pkg r)) := by
  rw [hdoc.manifest _ b h.manifestBytes, manifest, List.map_map]
  · rfl
  · intro c hc
    obtain ⟨r, hr, rfl⟩ := List.mem_map.1 hc
    have hid := isAscii_claimId ((prepare_spec h.prepare).2 r hr).claimId
    exact ⟨hid, isAscii_relPath hid, hdoc.hash_ascii r.2⟩

/-- The provenance as it is read. -/
theorem provenance_events (hdoc : Documents A R) : R.provenance (A.join bs) =
    some (prepared.map fun r => eventEntry (createEvent A pkg r)) := by
  have hmap : (prepared.map (createEvent A pkg)).mapM A.eventBytes = some bs := by
    rw [List.mapM_map]
    exact h.eventBytes
  rw [hdoc.provenance _ bs hmap, List.map_map]
  · rfl
  · intro e he
    obtain ⟨r, hr, rfl⟩ := List.mem_map.1 he
    exact ⟨isAscii_uuidOfDigest (hdoc.hash_ascii _),
      isAscii_claimId ((prepare_spec h.prepare).2 r hr).claimId⟩

theorem map_claimId : prepared.map (fun r => r.1.claimId) = claims.map ExportClaim.claimId := by
  rw [← (prepare_spec h.prepare).1, List.map_map]
  rfl

/-- Distinct ids and documents of their own make the export agree. -/
theorem agrees (hdoc : Documents A R) (hfree : CollisionFree A pkg claims)
    (hnodup : (claims.map ExportClaim.claimId).Nodup) (hapart : Apart pkg v m p) :
    Agrees A R pkg u (prepared.map fun r => manifestEntry (manifestClaim A pkg r))
      (prepared.map fun r => eventEntry (createEvent A pkg r)) := by
  have hids : (prepared.map fun r => r.1.claimId).Nodup := h.map_claimId ▸ hnodup
  have hne : ¬ FileTree.SameFile y p m := fun hsame =>
    hapart.different ((h.sameFile_iff hapart.manifest hapart.provenance).1 hsame)
  have hfiles : (claimFiles pkg u).Perm (prepared.map fun r => r.1.claimId ++ ".md") := by
    refine (List.perm_ext_iff_of_nodup (nodup_claimFiles pkg u) ?_).2 fun name => ?_
    · have hmap := hids.map (f := (· ++ ".md")) fun _ _ heq => by simpa using heq
      simpa [Function.comp_def] using hmap
    · rw [h.mem_claimFiles, List.mem_map]
      constructor
      · rintro ⟨hmd, ⟨r, hr, rfl⟩ | hm | hp⟩
        · exact ⟨r, hr, rfl⟩
        · exact absurd hm (hapart.manifest name hmd)
        · exact absurd hp (hapart.provenance name hmd)
      · rintro ⟨r, hr, rfl⟩
        exact ⟨isMd_claim _, .inl ⟨r, hr, rfl⟩⟩
  have hpaths : ((claimFiles pkg u).map ("claims/" ++ ·)).Perm
      ((prepared.map fun r => manifestEntry (manifestClaim A pkg r)).map Entry.path) := by
    have hmap := hfiles.map ("claims/" ++ ·)
    rw [List.map_map] at hmap ⊢
    exact hmap
  constructor
  · rw [h.read_manifest, h.fileAt_manifest hne, Option.bind_some, h.manifest_entries hdoc]
  · rw [h.read_provenance, h.fileAt_provenance, Option.bind_some, h.provenance_events hdoc]
  · exact hpaths
  · refine hpaths.nodup_iff.1 ((nodup_claimFiles pkg u).map fun _ _ heq => ?_)
    simpa using heq
  · simpa [Function.comp_def, manifestEntry, manifestClaim] using hids
  · intro e he
    obtain ⟨r, hr, rfl⟩ := List.mem_map.1 he
    exact ⟨r.1.claimId ++ ".md", r.2, rfl,
      h.fileAt_claim hnodup hapart.manifest hapart.provenance hr, rfl⟩
  · rw [List.map_map, List.map_map]
    exact .refl _
  · intro e he
    obtain ⟨r, hr, rfl⟩ := List.mem_map.1 he
    rfl
  · rw [List.map_map, List.nodup_map_iff_inj_on (List.Nodup.of_map _ hids)]
    intro r hr q hq heq
    have hclaim {r : ExportClaim × Bytes} (hr : r ∈ prepared) : r.1 ∈ claims :=
      (prepare_spec h.prepare).1 ▸ List.mem_map_of_mem hr
    have hid := eventText_injective pkg (hfree.uuid r.1 (hclaim hr) q.1 (hclaim hq) heq)
    exact List.inj_on_of_nodup_map hids hr hq hid

/-- A document written under the name of a claim file is not what the manifest says of it. -/
theorem claim_of_entry {entries : List Entry} {events : List EventEntry}
    (hagrees : Agrees A R pkg u entries events)
    (hentries : entries = prepared.map fun r => manifestEntry (manifestClaim A pkg r))
    (hfree : CollisionFree A pkg claims) {name : String} (hmd : isMd name = true) {c : Bytes}
    (hnamed : m = pkg.claimsDir ++ [name] ∨ p = pkg.claimsDir ++ [name])
    (hc : u.fileAt (pkg.claimsDir ++ [name]) = some c) : ∃ text, c = A.utf8 ("---\n" ++ text) := by
  have hname : "claims/" ++ name ∈ entries.map Entry.path :=
    hagrees.files.mem_iff.1 (List.mem_map_of_mem (h.mem_claimFiles.2 ⟨hmd, .inr hnamed⟩))
  obtain ⟨e, he, hpath⟩ := List.mem_map.1 hname
  obtain ⟨name', c', hpath', hc', hhash⟩ := hagrees.hashes e he
  obtain rfl : name' = name := by simpa [hpath'] using hpath
  rw [hc] at hc'
  cases hc'
  rw [hentries] at he
  obtain ⟨r, hr, rfl⟩ := List.mem_map.1 he
  obtain ⟨text, htext⟩ := ((prepare_spec h.prepare).2 r hr).fence
  exact ⟨text, (hfree.sha256 hhash).trans htext⟩

theorem apart_of_agrees (hdoc : Documents A R) (hfree : CollisionFree A pkg claims) {entries : List Entry}
    {events : List EventEntry} (hagrees : Agrees A R pkg u entries events) :
    (claims.map ExportClaim.claimId).Nodup ∧ Apart pkg v m p := by
  have hmanifest := hagrees.manifest
  rw [h.read_manifest] at hmanifest
  have hmap : (prepared.map (createEvent A pkg)).mapM A.eventBytes = some bs := by
    rw [List.mapM_map]
    exact h.eventBytes
  have hne : ¬ FileTree.SameFile y p m := by
    intro hsame
    rw [(FileTree.fileAt_put h.provenancePut m).1 hsame, Option.bind_some,
      hdoc.provenance_manifest _ bs hmap] at hmanifest
    cases hmanifest
  rw [h.fileAt_manifest hne, Option.bind_some, h.manifest_entries hdoc] at hmanifest
  obtain hentries := (Option.some.inj hmanifest).symm
  have hm : ∀ name, isMd name = true → m ≠ pkg.claimsDir ++ [name] := by
    intro name hmd heq
    obtain ⟨text, htext⟩ := h.claim_of_entry hagrees hentries hfree hmd (.inl heq)
      (heq ▸ h.fileAt_manifest hne)
    have hread := h.manifest_entries hdoc
    rw [htext, hdoc.claim_manifest] at hread
    cases hread
  have hp : ∀ name, isMd name = true → p ≠ pkg.claimsDir ++ [name] := by
    intro name hmd heq
    obtain ⟨text, htext⟩ := h.claim_of_entry hagrees hentries hfree hmd (.inr heq)
      (heq ▸ h.fileAt_provenance)
    have hread := h.provenance_events hdoc
    rw [htext, hdoc.claim_provenance] at hread
    cases hread
  refine ⟨?_, fun hsame => hne ((h.sameFile_iff hm hp).2 hsame), hm, hp⟩
  have hids := hagrees.claimIds
  rw [hentries, List.map_map] at hids
  exact h.map_claimId ▸ hids

end Reached
end Reached

/-- What an export leaves for the packer agrees if and only if claim ids are distinct and the
manifest and the provenance are two files of their own. -/
theorem exported_tree_agrees_iff (hdoc : Documents A R) (hfree : CollisionFree A pkg claims)
    (h : (materialize A pkg claims).ends t = (.ok (), u)) :
    (∃ entries events, Agrees A R pkg u entries events) ↔
      (claims.map ExportClaim.claimId).Nodup ∧ ∃ v m p, t.mkdirs pkg.claimsDir = some v ∧
        v.resolve pkg.manifestPath = some m ∧ v.resolve pkg.provenancePath = some p ∧
          Apart pkg v m p := by
  obtain ⟨prepared, v, w, x, y, m, p, b, bs, hreached⟩ := reached_of_ok h
  constructor
  · rintro ⟨entries, events, hagrees⟩
    obtain ⟨hnodup, hapart⟩ := hreached.apart_of_agrees hdoc hfree hagrees
    exact ⟨hnodup, v, m, p, hreached.mkdirs, hreached.manifestPath, hreached.provenancePath,
      hapart⟩
  · rintro ⟨hnodup, v', m', p', hmkdirs, hm, hp, hapart⟩
    obtain rfl : v = v' := Option.some.inj (hreached.mkdirs.symm.trans hmkdirs)
    obtain rfl : m = m' := Option.some.inj (hreached.manifestPath.symm.trans hm)
    obtain rfl : p = p' := Option.some.inj (hreached.provenancePath.symm.trans hp)
    exact ⟨_, _, hreached.agrees hdoc hfree hnodup hapart⟩

end

/-! ## Documents in canonical JSON -/

def manifestClaimJson (c : ManifestClaim) : Json :=
  .obj [("claim_id", .str c.claimId), ("claim_instance_id", .str c.claimInstanceId),
    ("hash", .str c.hash), ("path", .str c.path), ("state", .str "active")]

def manifestJson (m : Manifest) : Json :=
  .obj [("aphelion_spec_version", .str "0.6.0"), ("claims", .arr (m.claims.map manifestClaimJson)),
    ("created_at", .str m.createdAt), ("format_version", .str "2.0"), ("license", .str m.license),
    ("package_id", .str m.packageId), ("producer", .str m.producer),
    ("provenance_path", .str "provenance.jsonl")]

def eventJson (e : CreateEvent) : Json :=
  .obj [("actor", .str e.actor), ("claim_id", .str e.claimId),
    ("claim_instance_id", .str e.claimInstanceId), ("event_id", .str e.eventId),
    ("event_type", .str "create"), ("timestamp", .str e.timestamp)]

def textOf : Json → Option String
  | .str s => some s
  | _ => none

def entryOfJson : Json → Option Entry
  | .obj ms => do
    let claimId ← (Json.member? "claim_id" ms).bind textOf
    let path ← (Json.member? "path" ms).bind textOf
    let hash ← (Json.member? "hash" ms).bind textOf
    some ⟨claimId, path, hash⟩
  | _ => none

def entriesOfJson : Json → Option (List Entry)
  | .obj ms =>
    match Json.member? "claims" ms with
    | some (.arr xs) => xs.mapM entryOfJson
    | _ => none
  | _ => none

def eventOf : Json → Option EventEntry
  | .obj ms => do
    let eventId ← (Json.member? "event_id" ms).bind textOf
    let claimId ← (Json.member? "claim_id" ms).bind textOf
    let eventType ← (Json.member? "event_type" ms).bind textOf
    some ⟨eventId, claimId, eventType⟩
  | _ => none

/-- A document of one line. -/
def lineOf (v : Json) : String := String.ofList (compactChars v ++ ['\n'])

/-- The values of a text, one after the other; `limit` is the fuel for each of them. -/
def readAll (limit : Nat) : Nat → List Char → Option (List Json)
  | 0, _ => none
  | fuel + 1, cs =>
    if Json.skipSpace cs = [] then some []
    else do
      let (v, rest) ← Json.readValue limit cs
      let vs ← readAll limit fuel rest
      some (v :: vs)

def jsonReader : Reader String where
  manifest text := (Json.loads text).bind entriesOfJson
  provenance text :=
    (readAll (text.toList.length + 1) (text.toList.length + 1) text.toList).bind
      fun vs => vs.mapM eventOf

/-- Canonical JSON on texts, with a stand-in for the digest that has no collisions. -/
def jsonAphelion : Aphelion String where
  utf8 := id
  sha256 text := String.ofList (Json.quote text).reverse
  join := String.join
  emitFrontmatter fields := some (String.join (fields.map fun
    | (key, .text value) => key ++ ": \"" ++ value ++ "\"\n"
    | (key, .list items) => key ++ ":\n" ++ String.join (items.map fun item =>
      "  - \"" ++ item ++ "\"\n")))
  manifestBytes m := some (lineOf (manifestJson m))
  eventBytes e := some (lineOf (eventJson e))
  pack t := (some (), t)

theorem readValue_lineOf {v : Json} (hv : Json.isNumber v = false) (rest : List Char) {fuel : Nat}
    (hfuel : (compactChars v).length < fuel) :
    Json.readValue fuel (compactChars v ++ rest) = some (v, rest) := by
  rw [← compact_chars] at hfuel ⊢
  exact compact.readValue_chars v rest fuel hfuel fun h => absurd h (by simp [hv])

theorem loads_lineOf {v : Json} (hv : Json.isNumber v = false) :
    Json.loads (lineOf v) = some v := by
  have hfuel : (compactChars v).length < (compactChars v ++ ['\n']).length + 1 := by
    rw [List.length_append]
    omega
  rw [Json.loads, lineOf, String.toList_ofList, readValue_lineOf hv ['\n'] hfuel]
  rfl

theorem entryOfJson_manifestClaimJson (c : ManifestClaim) :
    entryOfJson (manifestClaimJson c) = some (manifestEntry c) := by
  simp [entryOfJson, manifestClaimJson, Json.member?, textOf, manifestEntry]

theorem eventOf_eventJson (e : CreateEvent) : eventOf (eventJson e) = some (eventEntry e) := by
  simp [eventOf, eventJson, Json.member?, textOf, eventEntry]

theorem entriesOfJson_eventJson (e : CreateEvent) : entriesOfJson (eventJson e) = none := by
  simp [entriesOfJson, eventJson, Json.member?]

theorem entriesOfJson_manifestJson (m : Manifest) :
    entriesOfJson (manifestJson m) = some (m.claims.map manifestEntry) := by
  have hclaims : Json.member? "claims"
      [("aphelion_spec_version", .str "0.6.0"),
        ("claims", .arr (m.claims.map manifestClaimJson)),
        ("created_at", .str m.createdAt), ("format_version", .str "2.0"),
        ("license", .str m.license), ("package_id", .str m.packageId),
        ("producer", .str m.producer), ("provenance_path", .str "provenance.jsonl")] =
      some (.arr (m.claims.map manifestClaimJson)) := by
    simp [Json.member?]
  rw [manifestJson, entriesOfJson, hclaims]
  simp only
  rw [mapM_eq_some (g := fun v => (entryOfJson v).getD ⟨"", "", ""⟩), List.map_map]
  · refine congrArg some (List.map_congr_left fun c _ => ?_)
    simp [entryOfJson_manifestClaimJson]
  · intro v hv
    obtain ⟨c, -, rfl⟩ := List.mem_map.1 hv
    simp [entryOfJson_manifestClaimJson]

theorem eventBytes_eq {es : List CreateEvent} {bs : List String}
    (h : es.mapM jsonAphelion.eventBytes = some bs) :
    bs = (es.map eventJson).map lineOf := by
  have hall : es.mapM jsonAphelion.eventBytes = some (es.map fun e => lineOf (eventJson e)) :=
    mapM_eq_some fun _ _ => rfl
  rw [h, Option.some.injEq] at hall
  rw [hall, List.map_map]
  rfl

theorem skipSpace_newline (cs : List Char) : Json.skipSpace ('\n' :: cs) = Json.skipSpace cs := by
  simp [Json.skipSpace, Json.isSpace]

theorem readAll_newline (limit fuel : Nat) (cs : List Char) :
    readAll limit fuel ('\n' :: cs) = readAll limit fuel cs := by
  have hread : Json.readValue limit ('\n' :: cs) = Json.readValue limit cs := by
    cases limit <;> simp [Json.readValue, skipSpace_newline]
  cases fuel with
  | zero => rfl
  | succ fuel => rw [readAll, readAll, skipSpace_newline, hread]

theorem lines_cons (v : Json) (vs : List Json) : (String.join ((v :: vs).map lineOf)).toList =
    compactChars v ++ '\n' :: (String.join (vs.map lineOf)).toList := by
  simp [lineOf]

theorem length_le_lines (vs : List Json) :
    vs.length ≤ (String.join (vs.map lineOf)).toList.length := by
  induction vs with
  | nil => simp
  | cons v vs ih =>
    rw [lines_cons, List.length_append, List.length_cons, List.length_cons]
    omega

theorem skipSpace_compactChars (v : Json) (rest : List Char) :
    Json.skipSpace (compactChars v ++ rest) ≠ [] := by
  obtain ⟨c, tail, hc, hstarts⟩ := compact.chars_head v
  rw [← compact_chars, hc, List.cons_append, Json.skipSpace_cons hstarts.notSpace]
  simp

theorem readAll_lines {limit fuel : Nat} {vs : List Json}
    (hvs : ∀ v ∈ vs, Json.isNumber v = false)
    (hlimit : (String.join (vs.map lineOf)).toList.length < limit) (hfuel : vs.length < fuel) :
    readAll limit fuel (String.join (vs.map lineOf)).toList = some vs := by
  induction vs generalizing fuel with
  | nil =>
    obtain ⟨fuel, rfl⟩ : ∃ k, fuel = k + 1 := ⟨fuel - 1, by omega⟩
    rfl
  | cons v vs ih =>
    obtain ⟨fuel, rfl⟩ : ∃ k, fuel = k + 1 := ⟨fuel - 1, by simp at hfuel; omega⟩
    rw [lines_cons, List.length_append, List.length_cons] at hlimit
    rw [List.forall_mem_cons] at hvs
    have hrest := ih hvs.2 (by omega) (by simpa using hfuel)
    rw [lines_cons, readAll, if_neg (skipSpace_compactChars v _),
      readValue_lineOf hvs.1 _ (by omega)]
    simp only [Option.bind_eq_bind, Option.bind_some, readAll_newline, hrest]

/-- No value starts as a fence does. -/
theorem readValue_fence (limit : Nat) (cs : List Char) :
    Json.readValue limit ('-' :: '-' :: '-' :: '\n' :: cs) = none := by
  cases limit with
  | zero => rfl
  | succ limit =>
    rw [Json.readValue_atom limit (by decide) (by decide)]
    rfl

theorem fence_toList (text : String) :
    (jsonAphelion.utf8 ("---\n" ++ text)).toList = '-' :: '-' :: '-' :: '\n' :: text.toList := by
  simp [jsonAphelion]

theorem jsonDocuments : Documents jsonAphelion jsonReader where
  hash_ascii b := by
    rw [isAscii, List.all_eq_true]
    intro c hc
    have hprinted := PyJson.printed_quote (.ofString b)
    rw [PyJson.quote_ofString] at hprinted
    have hmem : c ∈ Json.quote b := by simpa [jsonAphelion] using hc
    have hbound := hprinted c hmem
    exact decide_eq_true (by omega)
  manifest m b h _ := by
    cases h
    exact (congrArg (Option.bind · entriesOfJson) (loads_lineOf rfl)).trans (entriesOfJson_manifestJson m)
  provenance es bs h _ := by
    rw [eventBytes_eq h]
    have hnumber : ∀ v ∈ es.map eventJson, Json.isNumber v = false := by
      simp [eventJson, Json.isNumber]
    have hread := readAll_lines hnumber (Nat.lt_succ_self _)
      (Nat.lt_succ_of_le (length_le_lines (es.map eventJson)))
    refine (congrArg (Option.bind · fun vs => vs.mapM eventOf) hread).trans ?_
    rw [Option.bind_some, List.mapM_map]
    exact mapM_eq_some fun e _ => eventOf_eventJson e
  provenance_manifest es bs h := by
    rw [eventBytes_eq h]
    cases es with
    | nil => rfl
    | cons e es =>
      have hread : Json.loads (String.join (((e :: es).map eventJson).map lineOf)) =
          if Json.skipSpace ('\n' :: (String.join ((es.map eventJson).map lineOf)).toList) = []
          then some (eventJson e) else none := by
        rw [Json.loads, List.map_cons, lines_cons,
          readValue_lineOf rfl _ (by rw [List.length_append]; omega)]
      refine (congrArg (Option.bind · entriesOfJson) hread).trans ?_
      split_ifs
      · exact entriesOfJson_eventJson e
      · rfl
  claim_manifest text := by
    have hloads : Json.loads (jsonAphelion.utf8 ("---\n" ++ text)) = none := by
      rw [Json.loads, fence_toList, readValue_fence]
    exact congrArg (Option.bind · entriesOfJson) hloads
  claim_provenance text := by
    have hread (limit fuel : Nat) :
        readAll limit (fuel + 1) (jsonAphelion.utf8 ("---\n" ++ text)).toList = none := by
      rw [fence_toList, readAll, readValue_fence]
      rfl
    exact congrArg (Option.bind · fun vs => vs.mapM eventOf) (hread _ _)

def sampleClaim (claimId body : String) : ExportClaim where
  claimId := claimId
  body := body
  claimInstanceId := none
  subject := none
  polarity := none
  validFrom := none
  validUntil := none
  supersedes := []
  targetClaimId := none

/-- A source directory with nothing in it. -/
def emptySource : FileTree String where
  nodes := [(["pkg"], .dir)]
  contents := []
  distinct := by decide
  proper := by decide
  parents := by decide
  stored := by simp

/-- Two claims under one id. -/
def sameIds : List ExportClaim :=
  [sampleClaim "0197a1b2-0000-7000-8000-000000000001" "one",
    sampleClaim "0197a1b2-0000-7000-8000-000000000001" "two"]

theorem jsonDigest_injective : Function.Injective jsonAphelion.sha256 := by
  intro s t h
  have hquote : Json.quote s = Json.quote t :=
    List.reverse_inj.1 (String.ofList_inj.1 h)
  have hdumps : Json.dumps (.str s) = Json.dumps (.str t) := by
    rw [Json.dumps, Json.dumps, Json.chars, Json.chars, hquote]
  simpa using Json.dumps_injective hdumps

/-- The manifest has two entries for one file. -/
theorem not_agrees_sameIds : ∃ u,
    (materialize jsonAphelion samplePackage sameIds).ends emptySource = (.ok (), u) ∧
      ¬ ∃ entries events, Agrees jsonAphelion jsonReader samplePackage u entries events := by
  obtain ⟨u, hok⟩ : ∃ u,
      (materialize jsonAphelion samplePackage sameIds).ends emptySource = (.ok (), u) := ⟨_, rfl⟩
  refine ⟨u, hok, ?_⟩
  rintro ⟨entries, events, hagrees⟩
  obtain ⟨prepared, v, w, x, y, m, p, b, bs, hreached⟩ := reached_of_ok hok
  have hfree : CollisionFree jsonAphelion samplePackage sameIds := by
    refine ⟨jsonDigest_injective, ?_⟩
    simp [sameIds, sampleClaim]
  have hnodup := (hreached.apart_of_agrees jsonDocuments hfree hagrees).1
  simp [sameIds, sampleClaim] at hnodup

def twoIds : List ExportClaim :=
  [sampleClaim "0197a1b2-0000-7000-8000-000000000001" "one",
    sampleClaim "0197a1b2-0000-7000-8000-000000000002" "two"]

theorem agrees_twoIds : ∃ u,
    (materialize jsonAphelion samplePackage twoIds).ends emptySource = (.ok (), u) ∧
      ∃ entries events, Agrees jsonAphelion jsonReader samplePackage u entries events := by
  have hfree : CollisionFree jsonAphelion samplePackage twoIds := by
    refine ⟨jsonDigest_injective, ?_⟩
    have hne : uuidOfDigest (jsonAphelion.sha256 (jsonAphelion.utf8
        (eventText samplePackage "0197a1b2-0000-7000-8000-000000000001"))) ≠
        uuidOfDigest (jsonAphelion.sha256 (jsonAphelion.utf8
        (eventText samplePackage "0197a1b2-0000-7000-8000-000000000002"))) := by decide
    intro c hc d hd heq
    obtain rfl | rfl : c = _ ∨ c = _ := by simpa [twoIds] using hc
    · obtain rfl | rfl : d = _ ∨ d = _ := by simpa [twoIds] using hd
      · rfl
      · exact absurd heq hne
    · obtain rfl | rfl : d = _ ∨ d = _ := by simpa [twoIds] using hd
      · exact absurd heq hne.symm
      · rfl
  refine ⟨_, rfl, (exported_tree_agrees_iff (t := emptySource) jsonDocuments hfree rfl).2
    ⟨by decide, ?_⟩⟩
  refine ⟨_, _, _, rfl, rfl, rfl, ?_⟩
  refine ⟨?_, fun name _ => ?_, fun name _ => ?_⟩
  · rintro (heq | ⟨i, hi, -⟩)
    · revert heq
      decide
    · cases hi
  · simp [Package.claimsDir, samplePackage]
  · simp [Package.claimsDir, samplePackage]

end ParallaxKernel.Apex
