import Mathlib.Logic.Relation
import ParallaxKernel.Lib.Cut
import ParallaxKernel.Store.Runs

/-!
# Dedup

Two parts lists have one content hash only if they agree part by part once normalised, as long as
no separator is among their characters. So two ingests of different content are two rows, whatever
the writers do between them.
-/

namespace ParallaxKernel.Store

open Lib Prog

/-! ## Hashes -/

namespace Digest

variable (D : Digest)

/-- A part as it is compared: normalised, `None` apart from every text. -/
def normal (part : Option String) : Option String := part.map fun s => strip (D.nfc s)

theorem canon_eq (part : Option String) : D.canon part = (D.normal part).getD noneSentinel := by
  cases part <;> rfl

/-- No part but the last contains the separator or ends with half of it. -/
def Separable (parts : List (Option String)) : Prop :=
  ∀ part ∈ parts.dropLast, ¬ ['|', '|'] <:+: (D.canon part).toList ∧
    (D.canon part).toList.getLast? ≠ some '|'

/-- No text is mistaken for `None`. -/
def NoSentinel (parts : List (Option String)) : Prop :=
  ∀ part ∈ parts, D.normal part ≠ some noneSentinel

instance (parts : List (Option String)) : Decidable (D.Separable parts) :=
  inferInstanceAs (Decidable (∀ part ∈ parts.dropLast, _))

instance (parts : List (Option String)) : Decidable (D.NoSentinel parts) :=
  inferInstanceAs (Decidable (∀ part ∈ parts, _))

variable {D} {a b : List (Option String)}

theorem canon_eq_of_normalize (hlen : a.length = b.length) (ha : D.Separable a)
    (hb : D.Separable b) (h : D.normalize a = D.normalize b) :
    a.map D.canon = b.map D.canon := by
  have hjoin := congrArg String.toList h
  simp only [normalize, String.toList_intercalate, List.map_map] at hjoin
  have hclear {parts : List (Option String)} (hparts : D.Separable parts) :
      ∀ p ∈ (parts.map (String.toList ∘ D.canon)).dropLast, Clear separator.toList p := by
    intro p hp
    rw [← List.map_dropLast] at hp
    obtain ⟨part, hpart, rfl⟩ := List.mem_map.1 hp
    exact (clear_pair '|' _).2 (hparts part hpart)
  have hmap := intercalate_inj (by simpa using hlen) (hclear ha) (hclear hb) hjoin
  rw [← List.map_map, ← List.map_map] at hmap
  exact List.map_injective_iff.2 (fun s t => String.toList_inj.1) hmap

theorem normal_eq_of_canon_eq {x y : Option String} (hx : D.normal x ≠ some noneSentinel)
    (hy : D.normal y ≠ some noneSentinel) (h : D.canon x = D.canon y) :
    D.normal x = D.normal y := by
  rw [canon_eq, canon_eq] at h
  cases hnx : D.normal x <;> cases hny : D.normal y <;> simp_all

/-- A content hash tells normalised parts lists of one length apart. -/
theorem contentHash_injective (hsha : Function.Injective D.sha256) (hlen : a.length = b.length)
    (ha : D.Separable a) (hb : D.Separable b) (ha' : D.NoSentinel a) (hb' : D.NoSentinel b)
    (h : D.contentHash a = D.contentHash b) : a.map D.normal = b.map D.normal := by
  have hcanon := canon_eq_of_normalize hlen ha hb (hsha h)
  refine List.ext_getElem (by simpa using hlen) fun n hna hnb => ?_
  have hn := List.getElem_of_eq hcanon (i := n) (by simpa using hna)
  simp only [List.getElem_map] at hn ⊢
  exact normal_eq_of_canon_eq (ha' _ (List.getElem_mem _)) (hb' _ (List.getElem_mem _)) hn

/-- Texts need no sentinel: their canonical forms are what is compared. -/
theorem normal_eq_of_texts {xs ys : List String}
    (h : (xs.map some).map D.canon = (ys.map some).map D.canon) :
    (xs.map some).map D.normal = (ys.map some).map D.normal := by
  have hnormal (zs : List String) :
      (zs.map some).map D.normal = ((zs.map some).map D.canon).map some := by
    simp only [List.map_map]
    rfl
  rw [hnormal, hnormal, h]

theorem normalize_append (ha : a ≠ []) (hb : b ≠ []) :
    D.normalize (a ++ b) = D.normalize a ++ separator ++ D.normalize b := by
  simp only [normalize, List.map_append]
  exact String.intercalate_append_of_ne_nil (by simpa using ha) (by simpa using hb)

end Digest

/-! ## What any call does to the rows -/

/-- What no writer undoes. -/
structure Db.Outlives (b v : Db) : Prop where
  valid : b.Valid → v.Valid
  memories : ∀ m ∈ b.memories, m ∈ v.memories
  claims : ∀ c ∈ b.claims, ∃ d ∈ v.claims, c.SameRow d

theorem Db.Outlives.refl (b : Db) : b.Outlives b :=
  ⟨fun h => h, fun _ hm => hm, fun c hc => ⟨c, hc, .refl c⟩⟩

theorem Db.Outlives.trans {a b c : Db} (hab : a.Outlives b) (hbc : b.Outlives c) :
    a.Outlives c := by
  refine ⟨fun h => hbc.valid (hab.valid h), fun m hm => hbc.memories m (hab.memories m hm), ?_⟩
  intro x hx
  obtain ⟨y, hy, hxy⟩ := hab.claims x hx
  obtain ⟨z, hz, hyz⟩ := hbc.claims y hy
  exact ⟨z, hz, hxy.trans hyz⟩

namespace Db.Outlives

variable {db : Db}

theorem withSource (db : Db) (s : Source) : db.Outlives (db.withSource s) :=
  ⟨fun h => h.withSource s, by simp, fun c hc => ⟨c, by simpa using hc, .refl c⟩⟩

theorem appendEvent (db : Db) (e : Event) : db.Outlives { db with events := db.events ++ [e] } :=
  ⟨fun h => h.appendEvent e, fun _ hm => hm, fun c hc => ⟨c, hc, .refl c⟩⟩

theorem changeState (db : Db) (c : Claim) (toState updatedAt : String) (e : Event) :
    db.Outlives (db.changeState c toState updatedAt e) := by
  refine ⟨fun h => h.changeState c toState updatedAt e, fun _ hm => hm, ?_⟩
  intro d hd
  exact ⟨_, List.mem_map.2 ⟨d, hd, rfl⟩, sameRow_moved c d toState updatedAt⟩

theorem insertMemory {m : Memory} {db' : Db} {n : Nat} (hm : db.insertMemory m = .ok (db', n)) :
    db.Outlives db' := by
  rcases db.insertMemory_cases m with ⟨hins, -⟩ | ⟨hins, hclash, hfk⟩ | hins
  all_goals simp only [hins, Except.ok.injEq, Prod.mk.injEq, reduceCtorEq] at hm
  · exact hm.1 ▸ .refl db
  · obtain ⟨rfl, -⟩ := hm
    exact ⟨fun h => h.addMemory hclash hfk, by simp +contextual, fun c hc => ⟨c, hc, .refl c⟩⟩

theorem insertClaim {c : Claim} {db' : Db} {n : Nat} (hc : db.insertClaim c = .ok (db', n)) :
    db.Outlives db' := by
  rcases db.insertClaim_cases c with ⟨hins, -⟩ | ⟨hins, hclash, hfk⟩ | hins
  all_goals simp only [hins, Except.ok.injEq, Prod.mk.injEq, reduceCtorEq] at hc
  · exact hc.1 ▸ .refl db
  · obtain ⟨rfl, -⟩ := hc
    refine ⟨fun h => h.addClaim hclash hfk, fun _ hm => hm, fun d hd => ⟨d, ?_, .refl d⟩⟩
    simp [hd]

theorem insertEvent {e : Event} {db' : Db} {n : Nat} (he : Db.insertEvent e db = .ok (db', n)) :
    db.Outlives db' := by
  rcases insertEvent_cases e db with ⟨x, hx⟩ | ⟨-, hins⟩
  · simp [hx] at he
  · simp only [hins, Except.ok.injEq, Prod.mk.injEq] at he
    exact he.1 ▸ .appendEvent db e

variable (D : Digest)

theorem ingestMemory (a : MemoryArgs) (d : Draws) (db : Db) :
    db.Outlives (run (ingestMemoryWithStatus D a d) db).2 := by
  rw [run_ingestMemoryWithStatus]
  split
  · exact .refl db
  rename_i s hs
  refine (withSource db s).trans ?_
  split
  · exact .refl _
  rename_i db₂ n hm
  refine (insertMemory hm).trans ?_
  split
  · exact .refl _
  split
  · exact .refl _
  split
  · exact .refl _
  · rename_i he
    exact insertEvent he

theorem ingestClaim (a : ClaimArgs) (d : Draws) (db : Db) :
    db.Outlives (run (ingestClaimWithStatus D a d) db).2 := by
  rw [run_ingestClaimWithStatus]
  split
  · exact .refl db
  split
  · exact .refl db
  rename_i s hs
  refine (withSource db s).trans ?_
  split
  · exact .refl _
  rename_i db₂ n hc
  refine (insertClaim hc).trans ?_
  split
  · exact .refl _
  split_ifs
  · exact .refl _
  split
  · exact .refl _
  split
  · exact .refl _
  · rename_i he
    exact insertEvent he

theorem review {db : Db} (h : db.Valid) (claimId toState updatedAt : String) (stamp : Stamp) :
    db.Outlives (run (reviewTransition claimId toState updatedAt stamp) db).2 := by
  obtain ⟨e, he⟩ | ⟨c, -, -, -, -, hrun⟩ :=
    run_reviewTransition h.claimIds claimId toState updatedAt stamp
  · exact he ▸ .refl db
  · exact hrun ▸ .changeState ..

theorem apply {db : Db} (h : db.Valid) (op : Op) : db.Outlives (op.apply D db) := by
  cases op with
  | ingestMemory a d =>
    rw [Op.apply, Store.ingestMemory, run_map]
    exact ingestMemory D a d db
  | ingestClaim a d =>
    rw [Op.apply, Store.ingestClaim, run_map]
    exact ingestClaim D a d db
  | transition a updatedAt stamp =>
    obtain ⟨e, he⟩ | ⟨c, -, -, -, hrun⟩ := run_transitionClaimState a updatedAt stamp db
    · rw [Op.apply, he]
      exact .refl db
    · rw [Op.apply, hrun]
      exact .changeState ..
  | approve claimId updatedAt stamp => exact review h claimId "confirmed" updatedAt stamp
  | reject claimId updatedAt stamp => exact review h claimId "rejected" updatedAt stamp
  | insertSource s =>
    obtain ⟨n, hn⟩ := db.insertSource_eq s
    rw [Op.apply, run_writeOnce db _ (exec_insertSource s), hn]
    exact withSource db s
  | insertMemory m =>
    rw [Op.apply, run_writeOnce db _ (exec_insertMemory m)]
    split
    · rename_i hm
      exact insertMemory hm
    · exact .refl db
  | insertClaim c =>
    rw [Op.apply, run_writeOnce db _ (exec_insertClaim c)]
    split
    · rename_i hc
      exact insertClaim hc
    · exact .refl db

theorem applyOps {db : Db} (h : db.Valid) (ops : List Op) : db.Outlives (applyOps D ops db) := by
  induction ops generalizing db with
  | nil => exact .refl db
  | cons op ops ih =>
    have hop := apply D h op
    exact hop.trans (ih (hop.valid h))

end Db.Outlives

/-! ## The rows that ingests return -/

variable (D : Digest)

def MemoryArgs.parts (a : MemoryArgs) : List (Option String) :=
  [a.title, a.summary, some a.vaultPath]

/-- What tells the claims of one user and one source apart. -/
def ClaimArgs.parts (a : ClaimArgs) : List (Option String) :=
  [a.subject, a.predicate, a.object].map some

/-- The source that a claim is stored under. -/
def ClaimArgs.source (a : ClaimArgs) : String :=
  a.sourceId.getD (syntheticDirectSourceId a.userId)

variable {D}

theorem sourceOf_sourceId {userId now : String} {sourceId : Option String} {s : Source}
    (h : sourceOf D userId sourceId now = .ok s) :
    s.sourceId = sourceId.getD (syntheticDirectSourceId userId) := by
  unfold sourceOf at h
  cases sourceId with
  | none =>
    cases h
    rfl
  | some sourceId =>
    simp only at h
    split_ifs at h with hdirect hown
    · cases h
      exact (not_not.1 hown).symm
    · cases h
      rfl

theorem ingestMemory_row {a : MemoryArgs} {d : Draws} {db db' : Db} {id : String} {dup : Bool}
    (h : run (ingestMemoryWithStatus D a d) db = (.ok (id, dup), db')) :
    ∃ m ∈ db'.memories, m.memoryId = id ∧ m.contentHash = a.contentHash D ∧
      m.userId = a.userId := by
  rw [run_ingestMemoryWithStatus] at h
  split at h
  · simp at h
  split at h
  · simp at h
  rename_i db₂ n hm
  split at h
  · simp at h
  rename_i id' rest hids
  split at h
  · simp at h
  split at h
  · simp at h
  rename_i db₃ k he
  simp only [Prod.mk.injEq, Except.ok.injEq] at h
  obtain ⟨⟨rfl, -⟩, rfl⟩ := h
  have hmem : id' ∈ db₂.memoryIdsOf (a.contentHash D) a.userId := by simp [hids]
  simp only [Db.memoryIdsOf, List.mem_map, List.mem_filter, Bool.and_eq_true, beq_iff_eq] at hmem
  obtain ⟨m, ⟨hm, hhash, huser⟩, hid⟩ := hmem
  exact ⟨m, (Db.Outlives.insertEvent he).memories m hm, hid, hhash, huser⟩

theorem ingestClaim_row {a : ClaimArgs} {d : Draws} {db db' : Db} {id : String} {dup : Bool}
    (h : run (ingestClaimWithStatus D a d) db = (.ok (id, dup), db')) :
    ∃ c ∈ db'.claims, c.claimId = id ∧ c.contentHash = a.contentHash D a.source ∧
      c.sourceId = a.source ∧ c.userId = a.userId := by
  rw [run_ingestClaimWithStatus] at h
  split at h
  · simp at h
  split at h
  · simp at h
  rename_i s hs
  rw [sourceOf_sourceId hs] at h
  split at h
  · simp at h
  rename_i db₂ n hc
  split at h
  · simp at h
  rename_i id' rest hids
  have hmem : id' ∈ db₂.claimIdsOf (a.contentHash D a.source) a.source a.userId := by
    simp only [ClaimArgs.source, hids, List.mem_cons, true_or]
  obtain ⟨c, hc, hhash, hsource, huser, hid⟩ := Db.mem_claimIdsOf.1 hmem
  split_ifs at h with hdup
  · simp only [Prod.mk.injEq, Except.ok.injEq] at h
    obtain ⟨⟨rfl, -⟩, rfl⟩ := h
    exact ⟨c, hc, hid, hhash, hsource, huser⟩
  split at h
  · simp at h
  split at h
  · simp at h
  rename_i db₃ k he
  simp only [Prod.mk.injEq, Except.ok.injEq] at h
  obtain ⟨⟨rfl, -⟩, rfl⟩ := h
  obtain ⟨x, hx, hsame⟩ := (Db.Outlives.insertEvent he).claims c hc
  exact ⟨x, hx, hsame.claimId.symm.trans hid, hsame.contentHash.symm.trans hhash,
    hsame.sourceId.symm.trans hsource, hsame.userId.symm.trans huser⟩

/-! ## Two ingests are two rows -/

/-- Both ids are in the table, and they are two. -/
def TwoRows (ids : List String) (id₁ id₂ : String) : Prop :=
  id₁ ≠ id₂ ∧ id₁ ∈ ids ∧ id₂ ∈ ids

theorem memories_distinct {db db₁ db₂ : Db} {ops : List Op} {a b : MemoryArgs} {d e : Draws}
    {id₁ id₂ : String} {dup₁ dup₂ : Bool} (hvalid : db.Valid)
    (ha : run (ingestMemoryWithStatus D a d) db = (.ok (id₁, dup₁), db₁))
    (hb : run (ingestMemoryWithStatus D b e) (applyOps D ops db₁) = (.ok (id₂, dup₂), db₂))
    (hhash : a.contentHash D ≠ b.contentHash D) :
    TwoRows (db₂.memories.map (·.memoryId)) id₁ id₂ := by
  have hfirst : db.Outlives db₁ := by simpa only [ha] using Db.Outlives.ingestMemory D a d db
  have hsecond : (applyOps D ops db₁).Outlives db₂ := by
    simpa only [hb] using Db.Outlives.ingestMemory D b e (applyOps D ops db₁)
  have hbetween := Db.Outlives.applyOps D (hfirst.valid hvalid) ops
  have hvalid₂ := hsecond.valid (hbetween.valid (hfirst.valid hvalid))
  obtain ⟨m, hm, rfl, hmhash, -⟩ := ingestMemory_row ha
  obtain ⟨n, hn, rfl, hnhash, -⟩ := ingestMemory_row hb
  have hm₂ := hsecond.memories m (hbetween.memories m hm)
  refine ⟨fun hid => hhash ?_, List.mem_map.2 ⟨m, hm₂, rfl⟩, List.mem_map.2 ⟨n, hn, rfl⟩⟩
  rw [← hmhash, ← hnhash, hvalid₂.memory_eq_of_id hm₂ hn hid]

theorem claims_distinct {db db₁ db₂ : Db} {ops : List Op} {a b : ClaimArgs} {d e : Draws}
    {id₁ id₂ : String} {dup₁ dup₂ : Bool} (hvalid : db.Valid)
    (ha : run (ingestClaimWithStatus D a d) db = (.ok (id₁, dup₁), db₁))
    (hb : run (ingestClaimWithStatus D b e) (applyOps D ops db₁) = (.ok (id₂, dup₂), db₂))
    (hhash : a.contentHash D a.source ≠ b.contentHash D b.source) :
    TwoRows (db₂.claims.map (·.claimId)) id₁ id₂ := by
  have hfirst : db.Outlives db₁ := by simpa only [ha] using Db.Outlives.ingestClaim D a d db
  have hsecond : (applyOps D ops db₁).Outlives db₂ := by
    simpa only [hb] using Db.Outlives.ingestClaim D b e (applyOps D ops db₁)
  have hbetween := Db.Outlives.applyOps D (hfirst.valid hvalid) ops
  have hvalid₂ := hsecond.valid (hbetween.valid (hfirst.valid hvalid))
  obtain ⟨c, hc, rfl, hchash, -⟩ := ingestClaim_row ha
  obtain ⟨x, hx, rfl, hxhash, -⟩ := ingestClaim_row hb
  obtain ⟨y, hy, hcy⟩ := (hbetween.trans hsecond).claims c hc
  refine ⟨fun hid => hhash ?_, List.mem_map.2 ⟨y, hy, hcy.claimId.symm⟩,
    List.mem_map.2 ⟨x, hx, rfl⟩⟩
  rw [← hchash, ← hxhash, hcy.contentHash,
    hvalid₂.claim_eq_of_id hy hx (hcy.claimId.symm.trans hid)]

/-- Two ingests of one user under one hash end with one row. -/
theorem memories_same {db db₁ db₂ : Db} {ops : List Op} {a b : MemoryArgs} {d e : Draws}
    {id₁ id₂ : String} {dup₁ dup₂ : Bool} (hvalid : db.Valid)
    (ha : run (ingestMemoryWithStatus D a d) db = (.ok (id₁, dup₁), db₁))
    (hb : run (ingestMemoryWithStatus D b e) (applyOps D ops db₁) = (.ok (id₂, dup₂), db₂))
    (hhash : a.contentHash D = b.contentHash D) (huser : a.userId = b.userId) : id₁ = id₂ := by
  have hfirst : db.Outlives db₁ := by simpa only [ha] using Db.Outlives.ingestMemory D a d db
  have hsecond : (applyOps D ops db₁).Outlives db₂ := by
    simpa only [hb] using Db.Outlives.ingestMemory D b e (applyOps D ops db₁)
  have hbetween := Db.Outlives.applyOps D (hfirst.valid hvalid) ops
  have hvalid₂ := hsecond.valid (hbetween.valid (hfirst.valid hvalid))
  obtain ⟨m, hm, rfl, hmhash, hmuser⟩ := ingestMemory_row ha
  obtain ⟨n, hn, rfl, hnhash, hnuser⟩ := ingestMemory_row hb
  have hm₂ := hsecond.memories m (hbetween.memories m hm)
  have hclash : m.clashes n = true := by
    simp [Memory.clashes, hmhash, hnhash, hhash, hmuser, hnuser, huser]
  rw [hvalid₂.memory_eq hm₂ hn hclash]

theorem claims_same {db db₁ db₂ : Db} {ops : List Op} {a b : ClaimArgs} {d e : Draws}
    {id₁ id₂ : String} {dup₁ dup₂ : Bool} (hvalid : db.Valid)
    (ha : run (ingestClaimWithStatus D a d) db = (.ok (id₁, dup₁), db₁))
    (hb : run (ingestClaimWithStatus D b e) (applyOps D ops db₁) = (.ok (id₂, dup₂), db₂))
    (hhash : a.contentHash D a.source = b.contentHash D b.source) (hsource : a.source = b.source)
    (huser : a.userId = b.userId) : id₁ = id₂ := by
  have hfirst : db.Outlives db₁ := by simpa only [ha] using Db.Outlives.ingestClaim D a d db
  have hsecond : (applyOps D ops db₁).Outlives db₂ := by
    simpa only [hb] using Db.Outlives.ingestClaim D b e (applyOps D ops db₁)
  have hbetween := Db.Outlives.applyOps D (hfirst.valid hvalid) ops
  have hvalid₂ := hsecond.valid (hbetween.valid (hfirst.valid hvalid))
  obtain ⟨c, hc, rfl, hchash, hcsource, hcuser⟩ := ingestClaim_row ha
  obtain ⟨x, hx, rfl, hxhash, hxsource, hxuser⟩ := ingestClaim_row hb
  obtain ⟨y, hy, hcy⟩ := (hbetween.trans hsecond).claims c hc
  have hkey : x.contentHash = y.contentHash ∧ x.sourceId = y.sourceId ∧ x.userId = y.userId := by
    rw [← hcy.contentHash, ← hcy.sourceId, ← hcy.userId, hchash, hcsource, hcuser, hhash, hsource,
      huser]
    exact ⟨hxhash, hxsource, hxuser⟩
  have hclash : y.clashes x = true := by
    simp [Claim.clashes, hkey]
  rw [hcy.claimId, hvalid₂.claim_eq hy hx hclash]

/-- Claims of one user and one source have one hash only if their three texts agree. -/
theorem claim_contentHash_injective (hsha : Function.Injective D.sha256) {a b : ClaimArgs}
    (huser : a.userId = b.userId) (hsource : a.source = b.source) (ha : D.Separable a.parts)
    (hb : D.Separable b.parts) (h : a.contentHash D a.source = b.contentHash D b.source) :
    a.parts.map D.normal = b.parts.map D.normal := by
  have hsplit (c : ClaimArgs) :
      D.normalize [some c.subject, some c.predicate, some c.object, some c.source,
        some c.userId] = D.normalize c.parts ++ separator ++
          D.normalize [some c.source, some c.userId] :=
    Digest.normalize_append (a := c.parts) (by simp [ClaimArgs.parts]) (by simp)
  have hnormalize := hsha h
  rw [hsplit, hsplit, huser, hsource] at hnormalize
  have hlist := congrArg String.toList hnormalize
  simp only [String.toList_append, List.append_cancel_right_eq] at hlist
  exact Digest.normal_eq_of_texts
    (Digest.canon_eq_of_normalize rfl ha hb (String.toList_inj.1 hlist))

/-- Content that differs once normalised has hashes, and rows, of its own. -/
theorem dedup_keeps_distinct (hsha : Function.Injective D.sha256) :
    (∀ a b : List (Option String), a.length = b.length → D.Separable a → D.Separable b →
      D.NoSentinel a → D.NoSentinel b → D.contentHash a = D.contentHash b →
      a.map D.normal = b.map D.normal) ∧
    (∀ (a b : MemoryArgs) (d e : Draws) (ops : List Op) (db db₁ db₂ : Db) (id₁ id₂ : String)
      (dup₁ dup₂ : Bool), D.Separable a.parts → D.Separable b.parts →
      D.NoSentinel a.parts → D.NoSentinel b.parts → a.parts.map D.normal ≠ b.parts.map D.normal →
      db.Valid → run (ingestMemoryWithStatus D a d) db = (.ok (id₁, dup₁), db₁) →
      run (ingestMemoryWithStatus D b e) (applyOps D ops db₁) = (.ok (id₂, dup₂), db₂) →
      TwoRows (db₂.memories.map (·.memoryId)) id₁ id₂) ∧
    ∀ (a b : ClaimArgs) (d e : Draws) (ops : List Op) (db db₁ db₂ : Db) (id₁ id₂ : String)
      (dup₁ dup₂ : Bool), D.Separable a.parts → D.Separable b.parts →
      a.userId = b.userId → a.source = b.source → a.parts.map D.normal ≠ b.parts.map D.normal →
      db.Valid → run (ingestClaimWithStatus D a d) db = (.ok (id₁, dup₁), db₁) →
      run (ingestClaimWithStatus D b e) (applyOps D ops db₁) = (.ok (id₂, dup₂), db₂) →
      TwoRows (db₂.claims.map (·.claimId)) id₁ id₂ := by
  refine ⟨?_, ?_, ?_⟩
  · intro a b hlen ha hb ha' hb' h
    exact Digest.contentHash_injective hsha hlen ha hb ha' hb' h
  · intro a b d e ops db db₁ db₂ id₁ id₂ dup₁ dup₂ ha hb ha' hb' hne hvalid hfirst hsecond
    refine memories_distinct hvalid hfirst hsecond fun h => hne ?_
    exact Digest.contentHash_injective hsha rfl ha hb ha' hb' h
  · intro a b d e ops db db₁ db₂ id₁ id₂ dup₁ dup₂ ha hb huser hsource hne hvalid hfirst hsecond
    refine claims_distinct hvalid hfirst hsecond fun h => hne ?_
    exact claim_contentHash_injective hsha huser hsource ha hb h

section Sample

theorem sample_injective : Function.Injective Digest.sample.sha256 :=
  Digest.listed_injective (by decide +kernel) (by decide +kernel)

/-- A summary that is absent and one that is empty. -/
def sampleAbsent : MemoryArgs := ⟨"ann", some "T", none, "p.md", none⟩
def sampleEmpty : MemoryArgs := ⟨"ann", some "T", some "", "p.md", none⟩

def sampleFirst : Draws := ⟨"t1", ⟨"M1", "t2"⟩, ⟨"E1", "t3"⟩⟩
def sampleSecond : Draws := ⟨"t4", ⟨"M2", "t5"⟩, ⟨"E2", "t6"⟩⟩

theorem dedup_keeps_distinct_sample : ∃ db₁ db₂ : Db,
    run (ingestMemoryWithStatus .sample sampleAbsent sampleFirst) .empty =
      (.ok ("M1", false), db₁) ∧
    run (ingestMemoryWithStatus .sample sampleEmpty sampleSecond) db₁ =
      (.ok ("M2", false), db₂) ∧
    TwoRows (db₂.memories.map (·.memoryId)) "M1" "M2" := by
  refine ⟨_, _, Prod.ext (by decide +kernel) rfl, Prod.ext (by decide +kernel) rfl, ?_⟩
  refine (dedup_keeps_distinct sample_injective).2.1 sampleAbsent sampleEmpty sampleFirst
    sampleSecond [] .empty _ _ "M1" "M2" false false (by decide +kernel) (by decide +kernel)
    (by decide +kernel) (by decide +kernel) (by decide +kernel) ?_
    (Prod.ext (by decide +kernel) rfl) (Prod.ext (by decide +kernel) rfl)
  constructor <;> simp [Db.empty]

/-- A separator among the characters of a title: the second memory is taken for the first. -/
theorem separator_collides : Function.Injective Digest.sample.sha256 ∧
    Digest.sample.contentHash [some "a||b", some "c", some "p.md"] =
      Digest.sample.contentHash [some "a", some "b||c", some "p.md"] ∧
    [some "a||b", some "c", some "p.md"].map Digest.sample.normal ≠
      [some "a", some "b||c", some "p.md"].map Digest.sample.normal ∧
    (run (ingestMemoryWithStatus .sample ⟨"ann", some "a", some "b||c", "p.md", none⟩ sampleSecond)
      (run (ingestMemoryWithStatus .sample ⟨"ann", some "a||b", some "c", "p.md", none⟩
        sampleFirst) .empty).2).1 = .ok ("M1", true) :=
  ⟨sample_injective, by decide +kernel, by decide +kernel, by decide +kernel⟩

end Sample

end ParallaxKernel.Store
