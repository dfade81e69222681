import ParallaxKernel.Lib.Act
import ParallaxKernel.Store.Dedup
import ParallaxKernel.Store.Migrations

/-!
# The sweep of migration 7

`m0007_claim_content_hash_user_id.up` statement by statement: the unique index is dropped, the
claims get their new hashes one by one, and the index is built over one more column. With the user
among the hashed parts no two claims can clash that did not clash before.
-/

namespace ParallaxKernel.Store

open Lib

/-! ## A table with an index -/

/-- The columns of `uniq_claims_content`. -/
structure ClaimIndex where
  columns : List (String × (Claim → String))

namespace ClaimIndex

def key (i : ClaimIndex) (c : Claim) : List String := i.columns.map fun column => column.2 c

def failed (i : ClaimIndex) : Exc :=
  .integrityError ("UNIQUE constraint failed: " ++
    ", ".intercalate (i.columns.map fun column => "claims." ++ column.1))

def Holds (i : ClaimIndex) (rows : List Claim) : Prop := (rows.map i.key).Nodup

instance (i : ClaimIndex) (rows : List Claim) : Decidable (i.Holds rows) :=
  inferInstanceAs (Decidable (rows.map i.key).Nodup)

/-- The index of the versions before 7. -/
def old : ClaimIndex := ⟨[("content_hash", (·.contentHash)), ("source_id", (·.sourceId))]⟩

/-- The index from version 7 on. -/
def new : ClaimIndex :=
  ⟨[("content_hash", (·.contentHash)), ("source_id", (·.sourceId)), ("user_id", (·.userId))]⟩

theorem new_holds_iff (rows : List Claim) :
    new.Holds rows ↔ (rows.map (·.contentKey)).Nodup := by
  have hkey : new.key = (fun k : String × String × String => [k.1, k.2.1, k.2.2]) ∘
      Claim.contentKey := rfl
  have hinj : Function.Injective fun k : String × String × String => [k.1, k.2.1, k.2.2] := by
    rintro ⟨a, b, c⟩ ⟨a', b', c'⟩ h
    simpa using h
  rw [Holds, hkey, ← List.map_map, List.nodup_map_iff hinj]

end ClaimIndex

/-- The claims and the index on them, while there is one. -/
structure ClaimTable where
  rows : List Claim
  index : Option ClaimIndex

namespace ClaimTable

/-- The index in force is not violated. -/
def Unique (t : ClaimTable) : Prop := ∀ i ∈ t.index, i.Holds t.rows

/-- `DROP INDEX IF EXISTS uniq_claims_content`. -/
def dropIndex : Act ClaimTable Exc Unit := Act.modify fun t => { t with index := none }

/-- `CREATE UNIQUE INDEX IF NOT EXISTS uniq_claims_content ON claims(…)`. -/
def createIndex (i : ClaimIndex) : Act ClaimTable Exc Unit := Act.step fun t =>
  match t.index with
  | some _ => (.ok (), t)
  | none => if i.Holds t.rows then (.ok (), { t with index := some i }) else (.error i.failed, t)

def setHash (t : ClaimTable) (contentHash claimId : String) : ClaimTable where
  rows := updateKey (·.claimId) claimId (fun c => { c with contentHash := contentHash }) t.rows
  index := t.index

/-- `UPDATE claims SET content_hash = ? WHERE claim_id = ?`. -/
def updateHash (contentHash claimId : String) : Act ClaimTable Exc Unit := Act.step fun t =>
  match t.index with
  | some i =>
    if i.Holds (t.setHash contentHash claimId).rows then (.ok (), t.setHash contentHash claimId)
    else (.error i.failed, t)
  | none => (.ok (), t.setHash contentHash claimId)

end ClaimTable

open ClaimTable

variable (D : Digest)

/-- `m0007_claim_content_hash_user_id.up`. -/
def rehashUp : Act ClaimTable Exc Unit := do
  dropIndex
  let rows ← Act.look (·.rows)
  forM rows fun r => updateHash (r.hash D) r.claimId
  createIndex .new

/-- The hash of a claim before version 7. -/
def Claim.oldHash (c : Claim) : String :=
  D.contentHash [some c.subject, some c.predicate, some c.object, some c.sourceId]

/-! ## The sweep -/

/-- Between two updates the index is away, and the rows before the next one have new hashes. -/
structure Sweeping (rows rest : List Claim) (t : ClaimTable) : Prop where
  index : t.index = none
  swept : ∃ before, rows = before ++ rest ∧ t.rows = before.map (·.rehashed D) ++ rest

variable {D} {rows : List Claim}

theorem Sweeping.unique {rest : List Claim} {t : ClaimTable} (h : Sweeping D rows rest t) :
    t.Unique := by
  intro i hi
  rw [h.index] at hi
  cases hi

theorem keeps_updateHash (hids : (rows.map (·.claimId)).Nodup) {c : Claim} {rest : List Claim}
    {t : ClaimTable} (h : Sweeping D rows (c :: rest) t) :
    Act.Keeps Unique (updateHash (c.hash D) c.claimId) t fun r u =>
      r = .ok () ∧ Sweeping D rows rest u := by
  obtain ⟨before, hrows, hswept⟩ := h.swept
  have hids' : ((before.map (·.rehashed D) ++ c :: rest).map (·.claimId)).Nodup := by
    have hsame : (before.map (·.rehashed D) ++ c :: rest).map (·.claimId) =
        rows.map (·.claimId) := by
      rw [hrows]
      simp [Claim.rehashed]
    rwa [hsame]
  have hnext : Sweeping D rows rest (t.setHash (c.hash D) c.claimId) := by
    refine ⟨h.index, before ++ [c], by simpa using hrows, ?_⟩
    rw [setHash, hswept, updateKey_append hids']
    simp [Claim.rehashed]
  refine Act.keeps_step ?_ ?_
  · simp only [h.index]
    exact hnext.unique
  · simp only [h.index]
    exact ⟨trivial, hnext⟩

/-- The sweep gives every claim its new hash; the new index is built if it can be. -/
theorem keeps_rehashUp {t : ClaimTable} (hids : (t.rows.map (·.claimId)).Nodup) :
    Act.Keeps Unique (rehashUp D) t fun r u => u.rows = t.rows.map (·.rehashed D) ∧
      (ClaimIndex.new.Holds u.rows ∧ r = .ok () ∧ u.index = some .new ∨
        ¬ ClaimIndex.new.Holds u.rows ∧ r = .error ClaimIndex.new.failed ∧ u.index = none) := by
  have hstart : Sweeping D t.rows t.rows { t with index := none } := ⟨rfl, [], rfl, rfl⟩
  refine Act.keeps_step_bind (f := fun u : ClaimTable => (.ok (), { u with index := none }))
    rfl hstart.unique ?_
  refine Act.keeps_look_bind (Act.keeps_bind (Act.keeps_forM (P := Sweeping D t.rows)
    (E := fun _ _ => False) ?_ _ hstart) ?_ ?_)
  · intro c rest u hu
    exact (keeps_updateHash hids hu).mono fun r v ⟨hr, hv⟩ => by rw [hr]; exact hv
  · intro _ u hu
    obtain ⟨before, hrows, hswept⟩ := hu.swept
    rw [List.append_nil] at hrows hswept
    rw [← hrows] at hswept
    by_cases hholds : ClaimIndex.new.Holds u.rows
    · refine Act.keeps_step ?_ ?_
      · simp only [hu.index, if_pos hholds]
        intro i hi
        cases hi
        exact hholds
      · simp only [hu.index, if_pos hholds]
        exact ⟨hswept, .inl ⟨hholds, trivial, trivial⟩⟩
    · refine Act.keeps_step ?_ ?_
      · simp only [hu.index, if_neg hholds]
        exact hu.unique
      · simp only [hu.index, if_neg hholds]
        exact ⟨hswept, .inr ⟨hholds, trivial, trivial⟩⟩
  · intro e u hu
    exact hu.elim

/-- The migration of the whole store is the sweep of its claims. -/
theorem m0007_eq {x : OldDb} (hids : (x.db.claims.map (·.claimId)).Nodup) :
    m0007 D x =
      ((rehashUp D) ⟨x.db.claims, some .old⟩).result.map fun _ =>
        { x with db := { x.db with
          claims := ((rehashUp D) ⟨x.db.claims, some .old⟩).final.rows } } := by
  obtain ⟨-, hrows, hcases⟩ := keeps_rehashUp (D := D) (t := ⟨x.db.claims, some .old⟩) hids
  rw [hrows] at hcases ⊢
  rw [m0007]
  obtain ⟨hholds, hresult, -⟩ | ⟨hfails, hresult, -⟩ := hcases
  · rw [if_pos ((ClaimIndex.new_holds_iff _).1 hholds), hresult]
    rfl
  · rw [if_neg fun h => hfails ((ClaimIndex.new_holds_iff _).2 h), hresult]
    simp only [Except.map, Except.error.injEq]
    decide

/-! ## Old tables -/

variable (D)

/-- The claims of a store before version 7, with ids, sources and hashes of an ingest. -/
structure OldClaims (rows : List Claim) : Prop where
  ids : (rows.map (·.claimId)).Nodup
  unique : ClaimIndex.old.Holds rows
  hashes : ∀ c ∈ rows, c.contentHash = c.oldHash D
  admitted : ∀ c ∈ rows, ¬ Reserved c.userId (some c.sourceId)

variable {D}

/-- The new hash of a user's claims tells apart what the old one told apart. -/
theorem oldHash_eq_of_hash (hsha : Function.Injective D.sha256) {c d : Claim}
    (huser : c.userId = d.userId) (h : c.hash D = d.hash D) : c.oldHash D = d.oldHash D := by
  have hsplit (e : Claim) :
      D.normalize [some e.subject, some e.predicate, some e.object, some e.sourceId,
        some e.userId] = D.normalize [some e.subject, some e.predicate, some e.object,
          some e.sourceId] ++ separator ++ D.normalize [some e.userId] :=
    Digest.normalize_append (a := [some e.subject, some e.predicate, some e.object,
      some e.sourceId]) (by simp) (by simp)
  have hnormalize := hsha h
  rw [hsplit, hsplit, huser] at hnormalize
  have hlist := congrArg String.toList hnormalize
  simp only [String.toList_append, List.append_cancel_right_eq] at hlist
  exact congrArg D.sha256 (String.toList_inj.1 hlist)

/-- Claims that had keys of their own have keys of their own under their new hashes. -/
theorem OldClaims.keys_nodup (hsha : Function.Injective D.sha256) (h : OldClaims D rows) :
    ((rows.map (·.rehashed D)).map (·.contentKey)).Nodup := by
  rw [List.map_map]
  refine List.Nodup.map_on ?_ h.ids.of_map
  intro c hc d hd hkey
  simp only [Function.comp_apply, Claim.rehashed, Claim.contentKey, Prod.mk.injEq] at hkey
  obtain ⟨hhash, hsource, huser⟩ := hkey
  have hold : c.contentHash = d.contentHash := by
    rw [h.hashes c hc, h.hashes d hd]
    exact oldHash_eq_of_hash hsha huser hhash
  refine List.inj_on_of_nodup_map h.unique hc hd ?_
  simp [ClaimIndex.key, ClaimIndex.old, hold, hsource]

/-- An ingest of what a row says finds that row, and adds nothing but the source if it is gone. -/
theorem ingestClaim_dedups {db : Db} {c : Claim} {a : ClaimArgs} {d : Draws}
    (hkeys : (db.claims.map (·.contentKey)).Nodup) (hc : c ∈ db.claims)
    (hhash : c.contentHash = c.hash D) (huser : a.userId = c.userId)
    (hparts : a.parts = [c.subject, c.predicate, c.object].map some)
    (hsource : a.source = c.sourceId) (hreserved : ¬ Reserved a.userId a.sourceId)
    (hstate : a.state ∈ claimTransitions.map (·.1)) (hid : d.row.ulid ≠ c.claimId) : ∃ db',
      Prog.run (ingestClaimWithStatus D a d) db = (.ok (c.claimId, true), db') ∧
        db'.claims = db.claims ∧ db'.events = db.events ∧
        (db.hasSource c.sourceId = true → db' = db) := by
  obtain ⟨s, hs⟩ := sourceOf_ok (D := D) hreserved d.sourceNow
  have hsourceId : s.sourceId = c.sourceId := (sourceOf_sourceId hs).trans hsource
  have hcontent : a.contentHash D s.sourceId = c.contentHash := by
    simp only [ClaimArgs.parts, List.map_cons, List.map_nil, List.cons.injEq,
      Option.some.injEq, and_true] at hparts
    rw [hhash, ClaimArgs.contentHash, Claim.hash, hparts.1, hparts.2.1, hparts.2.2, hsourceId, huser]
  have hclash : (db.withSource s).claims.any (a.candidate D s.sourceId d.row).clashes = true := by
    rw [Db.withSource_claims]
    refine List.any_eq_true.2 ⟨c, hc, ?_⟩
    simp [Claim.clashes, ClaimArgs.candidate, hcontent, ← hsourceId, huser]
  have hinsert : Db.insertClaim (a.candidate D s.sourceId d.row) (db.withSource s) =
      .ok (db.withSource s, 0) := if_pos hclash
  have hmem : c.claimId ∈
      (db.withSource s).claimIdsOf (a.contentHash D s.sourceId) s.sourceId a.userId :=
    Db.mem_claimIdsOf.2 ⟨c, by simpa using hc, hcontent.symm, hsourceId.symm, huser.symm, rfl⟩
  obtain ⟨id, rest, hids⟩ := List.exists_cons_of_ne_nil (List.ne_nil_of_mem hmem)
  obtain ⟨x, hx, hxhash, hxsource, hxuser, hxid⟩ := Db.mem_claimIdsOf.1 (hids ▸ List.mem_cons_self)
  have hsame : x = c := by
    refine List.inj_on_of_nodup_map hkeys (by simpa using hx) hc ?_
    simp [Claim.contentKey, hxhash, hxsource, hxuser, hcontent, ← hsourceId, huser]
  obtain rfl : c.claimId = id := hsame ▸ hxid
  refine ⟨db.withSource s, ?_, Db.withSource_claims _ _, Db.withSource_events _ _, ?_⟩
  · rw [run_ingestClaimWithStatus, if_neg (not_not.2 hstate), hs]
    simp only [hinsert, hids, ne_eq, hid.symm, not_false_eq_true, if_true]
  · intro hsources
    unfold Db.withSource
    rw [if_pos]
    simpa [Db.hasSource, Source.clashes, hsourceId] using hsources

/-- Migration 7 on an old table: the index in force is never violated, only the hashes change, and
an ingest of what a migrated row says finds that row. -/
theorem rehash_safe (hsha : Function.Injective D.sha256) (db : Db) (h : OldClaims D db.claims) :
    (∀ t ∈ (rehashUp D ⟨db.claims, some .old⟩).trail, t.Unique) ∧
    (rehashUp D ⟨db.claims, some .old⟩).result = .ok () ∧
    ∃ t, (rehashUp D ⟨db.claims, some .old⟩).final = t ∧ t.index = some .new ∧
      ClaimIndex.new.Holds t.rows ∧
      t.rows = db.claims.map (fun c => { c with contentHash := c.hash D }) ∧
      ∀ c ∈ db.claims, ∀ (a : ClaimArgs) (d : Draws), a.userId = c.userId →
        a.subject = c.subject → a.predicate = c.predicate → a.object = c.object →
        a.source = c.sourceId → a.state ∈ claimTransitions.map (·.1) → d.row.ulid ≠ c.claimId →
        ∃ db', Prog.run (ingestClaimWithStatus D a d) { db with claims := t.rows } =
            (.ok (c.claimId, true), db') ∧
          db'.claims = t.rows ∧ db'.events = db.events ∧
          (db.hasSource c.sourceId = true → db' = { db with claims := t.rows }) := by
  obtain ⟨htrail, hrows, hcases⟩ := keeps_rehashUp (D := D) (t := ⟨db.claims, some .old⟩) h.ids
  have hkeys := h.keys_nodup hsha
  have hholds : ClaimIndex.new.Holds (db.claims.map (·.rehashed D)) :=
    (ClaimIndex.new_holds_iff _).2 hkeys
  rw [hrows] at hcases
  obtain ⟨-, hresult, hindex⟩ | ⟨hfails, -⟩ := hcases
  · refine ⟨htrail, hresult, _, rfl, hindex, hrows ▸ hholds, hrows, ?_⟩
    intro c hc a d huser hsubject hpredicate hobject hsource hstate hid
    have hreserved : ¬ Reserved a.userId a.sourceId := by
      rintro ⟨s, hs, hdirect, hown⟩
      have hsourceId : s = c.sourceId := by
        rw [← hsource, ClaimArgs.source, Option.mem_def.1 hs]
        rfl
      exact h.admitted c hc ⟨s, by rw [hsourceId]; rfl, hdirect, huser ▸ hown⟩
    rw [hrows]
    exact ingestClaim_dedups (c := c.rehashed D) hkeys
      (List.mem_map_of_mem hc) rfl huser (by simp [ClaimArgs.parts, Claim.rehashed, *]) hsource
      hreserved hstate hid
  · exact absurd hholds hfails

section Sample

def sampleOldDigest : Digest :=
  .listed
    [("s||p||o||ext", "0d74334ba65556bf35b2bac97fb427c9e91847862081b17cfbd4d4db057b031e"),
      ("s||p||q||ext", "24f1c2d310e56f568e9eb6e2fa2c59bdcce9876af0314e00c1ff665a3a3457d5"),
      ("s||p||o||ext||ann", "43e39cbd0257ca17135cc54610610f07ed3f65b03aa7a019061e0787def77299"),
      ("s||p||q||ext||bob", "88d9ca9e1d70d174060c5938be97bae81de6dc62c59f137abb11f5fae749b6a0")]

/-- Claims of two users under one source. -/
def sampleSharedDb : Db where
  sources := [⟨"ext", "parallax://external/ext", "external", "", "ann", "t", "ingested"⟩]
  memories := []
  claims :=
    [⟨"C1", "ann", "s", "p", "o", "ext",
      "0d74334ba65556bf35b2bac97fb427c9e91847862081b17cfbd4d4db057b031e", none, "auto", "t", "t"⟩,
    ⟨"C2", "bob", "s", "p", "q", "ext",
      "24f1c2d310e56f568e9eb6e2fa2c59bdcce9876af0314e00c1ff665a3a3457d5", none, "auto", "t", "t"⟩]
  decisions := []
  events := []

theorem sampleSharedDb_oldClaims : OldClaims sampleOldDigest sampleSharedDb.claims := by
  refine ⟨by decide, by decide, by decide +kernel, ?_⟩
  rintro c hc ⟨s, hs, hdirect, -⟩
  obtain rfl : c.sourceId = s := Option.some.inj hs
  revert c
  decide

theorem rehash_safe_sample : ∃ t,
    (rehashUp sampleOldDigest ⟨sampleSharedDb.claims, some .old⟩).final = t ∧
    Prog.run (ingestClaimWithStatus sampleOldDigest ⟨"bob", "s", "p", "q", some "ext", none, "auto"⟩
      ⟨"t1", ⟨"C3", "t2"⟩, ⟨"E1", "t3"⟩⟩) { sampleSharedDb with claims := t.rows } =
      (.ok ("C2", true), { sampleSharedDb with claims := t.rows }) := by
  have hsha : Function.Injective sampleOldDigest.sha256 :=
    Digest.listed_injective (by decide +kernel) (by decide +kernel)
  obtain ⟨-, -, t, ht, -, -, -, hdedup⟩ :=
    rehash_safe hsha sampleSharedDb sampleSharedDb_oldClaims
  obtain ⟨db', hrun, -, -, hsame⟩ := hdedup _ (List.mem_cons_of_mem _ List.mem_cons_self)
    ⟨"bob", "s", "p", "q", some "ext", none, "auto"⟩ ⟨"t1", ⟨"C3", "t2"⟩, ⟨"E1", "t3"⟩⟩
    rfl rfl rfl rfl rfl (by decide) (by decide)
  refine ⟨t, ht, ?_⟩
  rw [hrun, hsame (by decide)]

end Sample

end ParallaxKernel.Store
