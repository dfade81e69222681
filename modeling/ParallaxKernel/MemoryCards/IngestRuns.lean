import ParallaxKernel.MemoryCards.MemoryMd

/-!
# Runs of `ingest_memory_md`

The primary key of a card is a hash of `user::filename`, the conflict target of the upsert is the
pair. A run fails on a card of somebody else exactly if the hashes meet, as they do where the two
texts are one.
-/

namespace ParallaxKernel.MemoryCards

open Lib Store

/-! ## A sequence of upserts -/

namespace Table

def upserts (t : Table) (cards : List MemoryCard) : Option Table := cards.foldlM upsert t

@[simp] theorem upserts_nil (t : Table) : t.upserts [] = some t := rfl

theorem upserts_cons (t : Table) (card : MemoryCard) (cards : List MemoryCard) :
    t.upserts (card :: cards) = (t.upsert card).bind fun u => u.upserts cards := rfl

def keys (t : Table) : List (String × String) := t.rows.map MemoryCard.key

@[simp] theorem keys_update (t : Table) (new : MemoryCard) : (t.update new).keys = t.keys := by
  rw [keys, update, List.map_map]
  exact List.map_congr_left fun card _ => overwrite_key new card

@[simp] theorem keys_insert (t : Table) (new : MemoryCard)
    (hid : new.id ∉ t.rows.map MemoryCard.id) (hkey : new.key ∉ t.rows.map MemoryCard.key) :
    (t.insert new hid hkey).keys = t.keys ++ [new.key] := by
  simp [keys, insert]

/-- The primary key of every row is a function of its unique columns. -/
def IdsBy (f : String × String → String) (t : Table) : Prop := ∀ card ∈ t.rows, card.id = f card.key

theorem mem_update {t : Table} {new card : MemoryCard} :
    card ∈ (t.update new).rows ↔ ∃ old ∈ t.rows, overwrite new old = card := List.mem_map

theorem mem_insert {t : Table} {new card : MemoryCard} {hid : new.id ∉ t.rows.map MemoryCard.id}
    {hkey : new.key ∉ t.rows.map MemoryCard.key} :
    card ∈ (t.insert new hid hkey).rows ↔ card ∈ t.rows ∨ card = new := by
  simp [insert]

theorem IdsBy.update {f : String × String → String} {t : Table} (ht : t.IdsBy f)
    (new : MemoryCard) : (t.update new).IdsBy f := by
  intro card hcard
  obtain ⟨old, hold, rfl⟩ := mem_update.1 hcard
  rw [overwrite_id, overwrite_key]
  exact ht old hold

theorem IdsBy.insert {f : String × String → String} {t : Table} (ht : t.IdsBy f)
    {new : MemoryCard} (hnew : new.id = f new.key) (hid : new.id ∉ t.rows.map MemoryCard.id)
    (hkey : new.key ∉ t.rows.map MemoryCard.key) : (t.insert new hid hkey).IdsBy f := by
  intro card hcard
  cases mem_insert.1 hcard with
  | inl hold => exact ht card hold
  | inr heq => exact heq ▸ hnew

theorem IdsBy.mem_ids {f : String × String → String} {t : Table} (ht : t.IdsBy f) {id : String} :
    id ∈ t.rows.map MemoryCard.id ↔ ∃ k ∈ t.keys, f k = id := by
  simp only [keys, List.mem_map]
  constructor
  · rintro ⟨card, hcard, rfl⟩
    exact ⟨card.key, ⟨card, hcard, rfl⟩, (ht card hcard).symm⟩
  · rintro ⟨k, ⟨card, hcard, rfl⟩, hk⟩
    exact ⟨card, hcard, (ht card hcard).trans hk⟩

/-- In a table, a key is given by its primary key. -/
theorem IdsBy.key_inj {f : String × String → String} {t : Table} (ht : t.IdsBy f)
    {k l : String × String} (hk : k ∈ t.keys) (hl : l ∈ t.keys) (h : f k = f l) : k = l := by
  obtain ⟨card, hcard, rfl⟩ := List.mem_map.1 hk
  obtain ⟨other, hother, rfl⟩ := List.mem_map.1 hl
  have hid : card.id = other.id := by rw [ht card hcard, ht other hother, h]
  rw [List.inj_on_of_nodup_map t.id_nodup hcard hother hid]

theorem upsert_of_mem {t : Table} {new : MemoryCard} (h : new.key ∈ t.keys) :
    t.upsert new = some (t.update new) := dif_pos h

/-- What one upsert does to the keys, and when it fails. -/
theorem upsert_cases {f : String × String → String} {t : Table} (ht : t.IdsBy f)
    {new : MemoryCard} (hnew : new.id = f new.key) :
    new.key ∈ t.keys ∧ t.upsert new = some (t.update new) ∨
    new.key ∉ t.keys ∧ (∃ k ∈ t.keys, f k = f new.key) ∧ t.upsert new = none ∨
    new.key ∉ t.keys ∧ (∀ k ∈ t.keys, f k ≠ f new.key) ∧
      ∃ hid hkey, t.upsert new = some (t.insert new hid hkey) := by
  have hids : new.id ∈ t.rows.map MemoryCard.id ↔ _ := ht.mem_ids
  rw [hnew] at hids
  by_cases hkey : new.key ∈ t.keys
  · exact .inl ⟨hkey, upsert_of_mem hkey⟩
  · by_cases hid : new.id ∈ t.rows.map MemoryCard.id
    · exact .inr (.inl ⟨hkey, hids.1 (hnew ▸ hid), (dif_neg hkey).trans (dif_pos hid)⟩)
    · refine .inr (.inr ⟨hkey, fun k hk hf => hid ?_, hid, hkey,
        (dif_neg hkey).trans (dif_neg hid)⟩)
      rw [hnew]
      exact hids.2 ⟨k, hk, hf⟩

/-- Upserts go through exactly if no primary key of theirs belongs to another key, in the table or
among themselves. -/
theorem upserts_isSome_iff {f : String × String → String} {t : Table} (ht : t.IdsBy f)
    {cards : List MemoryCard} (hcards : ∀ card ∈ cards, card.id = f card.key) :
    (t.upserts cards).isSome = true ↔
      ∀ card ∈ cards, ∀ k ∈ t.keys ++ cards.map MemoryCard.key, f k = f card.key → k = card.key := by
  induction cards generalizing t with
  | nil => simp
  | cons new cards ih =>
    have hnew := hcards new List.mem_cons_self
    have hrest : ∀ card ∈ cards, card.id = f card.key :=
      fun card hcard => hcards card (List.mem_cons_of_mem new hcard)
    rw [upserts_cons]
    rcases upsert_cases ht hnew with ⟨hkey, hok⟩ | ⟨hkey, ⟨k, hk, hf⟩, hok⟩ | ⟨hkey, hfree, hid, hkey', hok⟩
    · rw [hok, Option.bind_some, ih (ht.update new) hrest, keys_update]
      constructor
      · intro h card hcard k hk hf
        have hk' : k ∈ t.keys ++ cards.map MemoryCard.key := by
          rw [List.map_cons, List.mem_append, List.mem_cons] at hk
          rcases hk with hk | rfl | hk
          · exact List.mem_append_left _ hk
          · exact List.mem_append_left _ hkey
          · exact List.mem_append_right _ hk
        cases List.mem_cons.1 hcard with
        | inr hmem => exact h card hmem k hk' hf
        | inl heq =>
          subst heq
          cases List.mem_append.1 hk' with
          | inl hmem => exact ht.key_inj hmem hkey hf
          | inr hmem =>
            obtain ⟨other, hother, rfl⟩ := List.mem_map.1 hmem
            exact (h other hother _ (List.mem_append_left _ hkey) hf.symm).symm
      · intro h card hcard k hk hf
        refine h card (List.mem_cons_of_mem new hcard) k ?_ hf
        rw [List.map_cons, List.mem_append, List.mem_cons]
        exact (List.mem_append.1 hk).imp_right .inr
    · rw [hok]
      simp only [Option.bind_none, Option.isSome_none, Bool.false_eq_true, false_iff]
      intro h
      have heq := h new List.mem_cons_self k (List.mem_append_left _ hk) hf
      exact hkey (heq ▸ hk)
    · rw [hok, Option.bind_some, ih (ht.insert hnew hid hkey') hrest, keys_insert]
      constructor
      · intro h card hcard k hk hf
        have hk' : k ∈ (t.keys ++ [new.key]) ++ cards.map MemoryCard.key := by
          rwa [List.append_assoc]
        cases List.mem_cons.1 hcard with
        | inr hmem => exact h card hmem k hk' hf
        | inl heq =>
          subst heq
          rw [List.map_cons, List.mem_append, List.mem_cons] at hk
          rcases hk with hk | rfl | hk
          · exact absurd hf (hfree k hk)
          · rfl
          · obtain ⟨other, hother, rfl⟩ := List.mem_map.1 hk
            refine (h other hother _ ?_ hf.symm).symm
            simp
      · intro h card hcard k hk hf
        refine h card (List.mem_cons_of_mem new hcard) k ?_ hf
        rwa [List.append_assoc] at hk

theorem IdsBy.upserts {f : String × String → String} {cards : List MemoryCard} {t u : Table}
    (ht : t.IdsBy f) (hcards : ∀ card ∈ cards, card.id = f card.key)
    (h : t.upserts cards = some u) : u.IdsBy f := by
  induction cards generalizing t with
  | nil =>
    cases h
    exact ht
  | cons new cards ih =>
    have hrest : ∀ card ∈ cards, card.id = f card.key :=
      fun card hcard => hcards card (List.mem_cons_of_mem new hcard)
    have hnew := hcards new List.mem_cons_self
    rw [upserts_cons] at h
    rcases upsert_cases ht hnew with ⟨-, hok⟩ | ⟨-, -, hok⟩ | ⟨-, -, hid, hkey, hok⟩
    · rw [hok] at h
      exact ih (ht.update new) hrest h
    · rw [hok] at h
      cases h
    · rw [hok] at h
      exact ih (ht.insert hnew hid hkey) hrest h

/-- Upserts of one user leave the rows of the others as they are. -/
theorem upserts_others {userId : String} {cards : List MemoryCard} {t u : Table}
    (hcards : ∀ card ∈ cards, card.userId = userId) (h : t.upserts cards = some u) :
    u.rows.filter (·.userId != userId) = t.rows.filter (·.userId != userId) := by
  induction cards generalizing t with
  | nil =>
    cases h
    rfl
  | cons new cards ih =>
    have hnew := hcards new List.mem_cons_self
    rw [upserts_cons] at h
    obtain ⟨v, hv, h⟩ := Option.bind_eq_some_iff.1 h
    rw [ih (fun card hcard => hcards card (List.mem_cons_of_mem new hcard)) h]
    rw [upsert] at hv
    split at hv
    · cases hv
      rw [update, List.filter_map]
      have huser : ((fun card : MemoryCard => card.userId != userId) ∘ overwrite new) =
          fun card => card.userId != userId := by
        funext card
        have hkey := congrArg Prod.fst (overwrite_key new card)
        simp only [MemoryCard.key] at hkey
        simp [hkey]
      rw [huser]
      have hsame : ∀ card ∈ t.rows.filter (·.userId != userId), overwrite new card = id card := by
        intro card hcard
        have hother := (List.mem_filter.1 hcard).2
        refine if_neg fun hkey => ?_
        have : card.userId = userId := (congrArg Prod.fst hkey).trans hnew
        simp [this] at hother
      rw [List.map_congr_left hsame, List.map_id]
    · split at hv
      · cases hv
      · cases hv
        simp [insert, hnew]

end Table

/-! ## Upserting twice -/

/-- The columns of a card but the time of its last change. -/
def MemoryCard.content (card : MemoryCard) : MemoryCard := { card with updatedAt := "" }

/-- The columns that do not depend on when a card is written. -/
def MemoryCard.timeless (card : MemoryCard) : MemoryCard :=
  { card with createdAt := "", updatedAt := "" }

namespace Table

/-- A row after the overwrites by the cards. -/
def settle (cards : List MemoryCard) (row : MemoryCard) : MemoryCard :=
  cards.foldl (fun row new => overwrite new row) row

@[simp] theorem settle_nil (row : MemoryCard) : settle [] row = row := rfl

theorem settle_cons (new : MemoryCard) (cards : List MemoryCard) (row : MemoryCard) :
    settle (new :: cards) row = settle cards (overwrite new row) := rfl

theorem settle_append (cards : List MemoryCard) (new row : MemoryCard) :
    settle (cards ++ [new]) row = overwrite new (settle cards row) := by
  rw [settle, List.foldl_append]
  rfl

/-- The columns that an overwrite keeps. -/
structure Kept (row row' : MemoryCard) : Prop where
  id : row'.id = row.id
  key : row'.key = row.key
  createdAt : row'.createdAt = row.createdAt

theorem kept_overwrite (new row : MemoryCard) : Kept row (overwrite new row) := by
  unfold overwrite
  split
  · exact ⟨rfl, rfl, rfl⟩
  · exact ⟨rfl, rfl, rfl⟩

theorem kept_settle (cards : List MemoryCard) (row : MemoryCard) : Kept row (settle cards row) := by
  induction cards generalizing row with
  | nil => exact ⟨rfl, rfl, rfl⟩
  | cons new cards ih =>
    have hfirst := kept_overwrite new row
    have hrest := ih (overwrite new row)
    exact ⟨hrest.id.trans hfirst.id, hrest.key.trans hfirst.key,
      hrest.createdAt.trans hfirst.createdAt⟩

/-- What an overwrite makes of a row rests on the columns that it keeps and on those of the new
card. -/
theorem overwrite_content {new new' row row' : MemoryCard} (hkept : Kept row row')
    (hnew : new.timeless = new'.timeless) (hkey : row.key = new.key) :
    (overwrite new' row').content = (overwrite new row).content := by
  simp only [MemoryCard.timeless, MemoryCard.mk.injEq] at hnew
  obtain ⟨-, huser, hcategory, hname, hfilename, hdescription, hbody, -, -⟩ := hnew
  have hkeys := hkept.key
  simp only [MemoryCard.key, Prod.mk.injEq] at hkeys
  have hkey' : row'.key = new'.key := by
    rw [hkept.key, hkey, MemoryCard.key, MemoryCard.key, huser, hfilename]
  rw [overwrite, overwrite, if_pos hkey, if_pos hkey']
  simp only [MemoryCard.content, hkept.id, hkept.createdAt, hkeys, hcategory, hname, hdescription,
    hbody]

theorem overwrite_of_ne {new row : MemoryCard} (h : row.key ≠ new.key) : overwrite new row = row :=
  if_neg h

theorem timeless_key {new new' : MemoryCard} (h : new.timeless = new'.timeless) :
    new'.key = new.key := by
  simp only [MemoryCard.timeless, MemoryCard.mk.injEq] at h
  rw [MemoryCard.key, MemoryCard.key, h.2.1, h.2.2.2.2.1]

/-- Cards that differ in their times settle a row to the same content. -/
theorem settle_content {cards cards' : List MemoryCard}
    (h : cards.map MemoryCard.timeless = cards'.map MemoryCard.timeless) (row : MemoryCard) :
    (settle cards' row).content = (settle cards row).content := by
  induction cards using List.reverseRecOn generalizing cards' with
  | nil =>
    rw [List.map_eq_nil_iff.1 h.symm]
  | append_singleton cards new ih =>
    rw [List.map_append, eq_comm, List.map_eq_append_iff] at h
    obtain ⟨first, last, rfl, hfirst, hlast⟩ := h
    obtain ⟨new', rfl, hnew⟩ := List.map_eq_singleton_iff.1 hlast
    rw [settle_append, settle_append]
    have hkept : Kept (settle cards row) (settle first row) := by
      have hold := kept_settle cards row
      have hnew := kept_settle first row
      exact ⟨hnew.id.trans hold.id.symm, hnew.key.trans hold.key.symm,
        hnew.createdAt.trans hold.createdAt.symm⟩
    by_cases hkey : (settle cards row).key = new.key
    · exact overwrite_content hkept hnew.symm hkey
    · rw [overwrite_of_ne hkey, overwrite_of_ne]
      · exact ih hfirst.symm
      · rw [hkept.key, timeless_key hnew.symm]
        exact hkey

/-- A row that a card has overwritten, or that is that card, has its columns. -/
theorem overwrite_overwrite {new row row' : MemoryCard} (hkept : Kept (overwrite new row) row')
    (hkey : row.key = new.key) : (overwrite new row').content = (overwrite new row).content := by
  have hfirst := kept_overwrite new row
  exact overwrite_content ⟨hkept.id.trans hfirst.id, hkept.key.trans hfirst.key,
    hkept.createdAt.trans hfirst.createdAt⟩ rfl hkey

theorem overwrite_self (new : MemoryCard) : overwrite new new = new := by
  rw [overwrite, if_pos rfl]

theorem upserts_append (t : Table) (cards : List MemoryCard) (new : MemoryCard) :
    t.upserts (cards ++ [new]) = (t.upserts cards).bind fun u => u.upsert new := by
  rw [upserts, List.foldlM_append, ← upserts]
  simp

/-- Upserts leave rows that the same upserts would leave as they are. -/
theorem upserts_settled {cards : List MemoryCard} {t u : Table} (h : t.upserts cards = some u) :
    ∀ row ∈ u.rows, row.key ∈ cards.map MemoryCard.key →
      (settle cards row).content = row.content := by
  induction cards using List.reverseRecOn generalizing u with
  | nil => exact fun row _ hkey => absurd hkey List.not_mem_nil
  | append_singleton cards new ih =>
    rw [upserts_append] at h
    obtain ⟨v, hv, h⟩ := Option.bind_eq_some_iff.1 h
    have hold : ∀ row ∈ v.rows, row.key ≠ new.key →
        row.key ∈ (cards ++ [new]).map MemoryCard.key →
        (settle (cards ++ [new]) row).content = row.content := by
      intro row hrow hne hkey
      rw [settle_append, overwrite_of_ne (by rw [(kept_settle cards row).key]; exact hne)]
      refine ih hv row hrow ?_
      rw [List.map_append, List.mem_append] at hkey
      exact hkey.resolve_right (by simpa using hne)
    intro row hrow hmem
    rw [upsert] at h
    split at h
    · cases h
      obtain ⟨old, hold', rfl⟩ := mem_update.1 hrow
      by_cases hkey : old.key = new.key
      · rw [settle_append]
        exact overwrite_overwrite (kept_settle cards _) hkey
      · rw [overwrite_of_ne hkey] at hmem ⊢
        exact hold old hold' hkey hmem
    · next hkey =>
      split at h
      · cases h
      · cases h
        cases mem_insert.1 hrow with
        | inl hrow =>
          refine hold row hrow (fun heq => hkey ?_) hmem
          exact heq ▸ List.mem_map_of_mem hrow
        | inr heq =>
          subst heq
          rw [settle_append]
          have hself : (overwrite row _).content = (overwrite row row).content :=
            overwrite_overwrite ((overwrite_self row).symm ▸ kept_settle cards row) rfl
          rwa [overwrite_self] at hself

theorem settle_of_not_mem {cards : List MemoryCard} {row : MemoryCard}
    (h : row.key ∉ cards.map MemoryCard.key) : settle cards row = row := by
  induction cards with
  | nil => rfl
  | cons new cards ih =>
    rw [List.map_cons, List.mem_cons, not_or] at h
    rw [settle_cons, overwrite_of_ne h.1, ih h.2]

theorem mem_keys_upserts {cards : List MemoryCard} {t u : Table} (h : t.upserts cards = some u) :
    t.keys ⊆ u.keys ∧ cards.map MemoryCard.key ⊆ u.keys := by
  induction cards generalizing t with
  | nil =>
    cases h
    simp
  | cons new cards ih =>
    rw [upserts_cons] at h
    obtain ⟨v, hv, h⟩ := Option.bind_eq_some_iff.1 h
    obtain ⟨hkeys, hcards⟩ := ih h
    have hstep : t.keys ⊆ v.keys ∧ new.key ∈ v.keys := by
      rw [upsert] at hv
      split at hv
      · next hkey =>
        cases hv
        rw [keys_update]
        exact ⟨List.Subset.refl _, hkey⟩
      · split at hv
        · cases hv
        · cases hv
          rw [keys_insert]
          exact ⟨List.subset_append_left _ _, by simp⟩
    exact ⟨fun k hk => hkeys (hstep.1 hk), by
      rw [List.map_cons]
      exact List.cons_subset.2 ⟨hkeys hstep.2, hcards⟩⟩

/-- Upserts whose keys are all there only overwrite. -/
theorem upserts_of_mem {cards : List MemoryCard} {t : Table}
    (h : cards.map MemoryCard.key ⊆ t.keys) :
    ∃ u, t.upserts cards = some u ∧ u.rows = t.rows.map (settle cards) := by
  induction cards generalizing t with
  | nil => exact ⟨t, rfl, (List.map_id _).symm⟩
  | cons new cards ih =>
    rw [List.map_cons, List.cons_subset] at h
    obtain ⟨u, hu, hrows⟩ := ih (t := t.update new) (by rw [keys_update]; exact h.2)
    refine ⟨u, ?_, ?_⟩
    · rw [upserts_cons, upsert_of_mem h.1]
      exact hu
    · rw [hrows, update, List.map_map]
      rfl

/-- A second round of upserts of the same cards changes no content. -/
theorem upserts_twice {cards cards' : List MemoryCard} {t u : Table}
    (h : t.upserts cards = some u)
    (hcards : cards.map MemoryCard.timeless = cards'.map MemoryCard.timeless) :
    cards'.map MemoryCard.key ⊆ u.keys ∧
      ∃ v, u.upserts cards' = some v ∧
        v.rows.map MemoryCard.content = u.rows.map MemoryCard.content := by
  have hkeys : cards'.map MemoryCard.key = cards.map MemoryCard.key := by
    have htimeless (card : MemoryCard) : card.timeless.key = card.key := rfl
    have hmap := congrArg (List.map MemoryCard.key) hcards
    simpa [List.map_map, Function.comp_def, htimeless] using hmap.symm
  have hmem : cards'.map MemoryCard.key ⊆ u.keys := hkeys ▸ (mem_keys_upserts h).2
  obtain ⟨v, hv, hrows⟩ := upserts_of_mem hmem
  refine ⟨hmem, v, hv, ?_⟩
  rw [hrows, List.map_map]
  refine List.map_congr_left fun row hrow => ?_
  rw [Function.comp_apply, settle_content hcards]
  by_cases hkey : row.key ∈ cards.map MemoryCard.key
  · exact upserts_settled h row hrow hkey
  · rw [settle_of_not_mem hkey]

end Table

/-! ## The upserts of a run -/

variable (D : Digest) (bodyLooksLikeSecret : String → Bool)

/-- The companion of an entry that is ingested. -/
def validCompanion (files : Files) (entry : MemoryMdEntry) : Option CompanionFile :=
  match files.companion entry.filename with
  | .text content =>
    match parseCompanion content with
    | .ok companion => if bodyLooksLikeSecret companion.body then none else some companion
    | .error _ => none
  | _ => none

/-- The cards that the valid entries ask for, the clock being read from the `n`-th time on. -/
def cardsFrom (files : Files) (userId : String) (clock : Nat → String) :
    Nat → List MemoryMdEntry → List MemoryCard
  | _, [] => []
  | n, entry :: entries =>
    match validCompanion bodyLooksLikeSecret files entry with
    | none => cardsFrom files userId clock n entries
    | some companion =>
      newCard D userId entry companion (clock n) ::
        cardsFrom files userId clock (n + 1) entries

/-- No companion makes the file system raise. -/
def Accessible (files : Files) (entries : List MemoryMdEntry) : Prop :=
  ∀ entry ∈ entries, files.companion entry.filename ≠ .fails

/-- What a run upserts, if MEMORY.md can be read. -/
def Run.entries (run : Run) : List MemoryMdEntry := (run.files.memoryMd.map parseMemoryMd).getD []

def Run.cards (run : Run) : List MemoryCard :=
  cardsFrom D bodyLooksLikeSecret run.files run.userId run.clock 0 run.entries

section Entry

variable {D bodyLooksLikeSecret} {files : Files} {userId : String} {clock : Nat → String}

variable (D bodyLooksLikeSecret files userId clock) in
/-- One turn of the loop: it raises, skips the entry, or upserts its card. -/
theorem ingestEntry_cases (t : Table) (report : IngestReport) (entry : MemoryMdEntry) :
    files.companion entry.filename = .fails ∧
      ingestEntry D bodyLooksLikeSecret files userId clock (t, report) entry = .error .os ∨
    files.companion entry.filename ≠ .fails ∧
      validCompanion bodyLooksLikeSecret files entry = none ∧
      (∃ report', ingestEntry D bodyLooksLikeSecret files userId clock (t, report) entry =
          .ok (t, report') ∧ report'.cardsInserted = report.cardsInserted ∧
          report'.cardsUpdated = report.cardsUpdated) ∨
    files.companion entry.filename ≠ .fails ∧
      ∃ companion, validCompanion bodyLooksLikeSecret files entry = some companion ∧
      ingestEntry D bodyLooksLikeSecret files userId clock (t, report) entry =
        match t.upsert (newCard D userId entry companion
          (clock (report.cardsInserted + report.cardsUpdated))) with
        | none => .error .integrity
        | some u =>
          if (userId, entry.filename) ∈ t.keys then
            .ok (u, { report with cardsUpdated := report.cardsUpdated + 1 })
          else .ok (u, { report with cardsInserted := report.cardsInserted + 1 }) := by
  unfold ingestEntry validCompanion
  dsimp only
  cases hpath : files.companion entry.filename with
  | fails => exact .inl ⟨rfl, rfl⟩
  | escapes => exact .inr (.inl ⟨nofun, rfl, _, rfl, rfl, rfl⟩)
  | missing => exact .inr (.inl ⟨nofun, rfl, _, rfl, rfl, rfl⟩)
  | unreadable => exact .inr (.inl ⟨nofun, rfl, _, rfl, rfl, rfl⟩)
  | text content =>
    dsimp only
    cases parseCompanion content with
    | error e => exact .inr (.inl ⟨nofun, rfl, _, rfl, rfl, rfl⟩)
    | ok companion =>
      dsimp only
      by_cases hsecret : bodyLooksLikeSecret companion.body = true
      · simp only [if_pos hsecret]
        exact .inr (.inl ⟨nofun, trivial, _, rfl, rfl, rfl⟩)
      · simp only [if_neg hsecret]
        exact .inr (.inr ⟨nofun, companion, rfl, rfl⟩)

theorem newCard_key (entry : MemoryMdEntry) (companion : CompanionFile) (now : String) :
    (newCard D userId entry companion now).key = (userId, entry.filename) := rfl

/-- The loop does the upserts of the valid entries, all of them. -/
theorem ingestEntries_ok_iff (entries : List MemoryMdEntry) (t u : Table) (report : IngestReport) :
    (∃ report', entries.foldlM (ingestEntry D bodyLooksLikeSecret files userId clock) (t, report) =
      .ok (u, report')) ↔
    Accessible files entries ∧
      t.upserts (cardsFrom D bodyLooksLikeSecret files userId clock
        (report.cardsInserted + report.cardsUpdated) entries) = some u := by
  induction entries generalizing t report with
  | nil => simp [Accessible, cardsFrom, pure, Except.pure]
  | cons entry entries ih =>
    rw [List.foldlM_cons]
    have haccess : Accessible files (entry :: entries) ↔
        files.companion entry.filename ≠ .fails ∧ Accessible files entries :=
      List.forall_mem_cons
    rw [haccess]
    rcases ingestEntry_cases D bodyLooksLikeSecret files userId clock t report entry with
      ⟨hfails, hstep⟩ | ⟨hpath, hvalid, report', hstep, hinserted, hupdated⟩ |
        ⟨hpath, companion, hvalid, hstep⟩
    · rw [hstep]
      simp [hfails, bind, Except.bind]
    · have hih := ih t report'
      rw [hinserted, hupdated] at hih
      rw [hstep, cardsFrom, hvalid, and_iff_right hpath]
      exact hih
    · rw [hstep, cardsFrom, hvalid, Table.upserts_cons, and_iff_right hpath]
      cases t.upsert (newCard D userId entry companion
        (clock (report.cardsInserted + report.cardsUpdated))) with
      | none => simp [bind, Except.bind]
      | some v =>
        dsimp only
        split_ifs with hkey
        · exact ih v { report with cardsUpdated := report.cardsUpdated + 1 }
        · have hih := ih v { report with cardsInserted := report.cardsInserted + 1 }
          rw [show report.cardsInserted + 1 + report.cardsUpdated =
            report.cardsInserted + report.cardsUpdated + 1 by omega] at hih
          exact hih

/-- Where every key is there, nothing is reported as inserted. -/
theorem ingestEntries_inserted {entries : List MemoryMdEntry} {t u : Table}
    {report report' : IngestReport}
    (h : entries.foldlM (ingestEntry D bodyLooksLikeSecret files userId clock) (t, report) =
      .ok (u, report'))
    (hkeys : (cardsFrom D bodyLooksLikeSecret files userId clock
      (report.cardsInserted + report.cardsUpdated) entries).map MemoryCard.key ⊆ t.keys) :
    report'.cardsInserted = report.cardsInserted := by
  induction entries generalizing t report with
  | nil =>
    cases h
    rfl
  | cons entry entries ih =>
    rw [List.foldlM_cons] at h
    rcases ingestEntry_cases D bodyLooksLikeSecret files userId clock t report entry with
      ⟨hfails, hstep⟩ | ⟨hpath, hvalid, first, hstep, hinserted, hupdated⟩ |
        ⟨hpath, companion, hvalid, hstep⟩
    · rw [hstep] at h
      cases h
    · rw [hstep] at h
      rw [cardsFrom, hvalid] at hkeys
      rw [← hinserted]
      exact ih h (by rw [hinserted, hupdated]; exact hkeys)
    · rw [cardsFrom, hvalid, List.map_cons, List.cons_subset] at hkeys
      obtain ⟨hkey, hrest⟩ := hkeys
      rw [hstep, Table.upsert_of_mem hkey] at h
      rw [newCard_key] at hkey
      simp only [if_pos hkey] at h
      exact @ih _ { report with cardsUpdated := report.cardsUpdated + 1 } h
        (by rw [Table.keys_update]; exact hrest)

end Entry

/-! ## Runs of all users -/

section Runs

/-- What is asked of a run of `u` on the table `t` that leaves the table `u'`. -/
structure RunCorrect (t : Table) (run : Run) (u : Table) : Prop where
  /-- It commits the upserts of its valid entries, or raises and leaves the table as it was. -/
  atomic : (∃ report, ingestMemoryMd D bodyLooksLikeSecret run.files run.userId run.clock t =
      .ok (u, report) ∧ t.upserts (run.cards D bodyLooksLikeSecret) = some u) ∨
    (∃ e, ingestMemoryMd D bodyLooksLikeSecret run.files run.userId run.clock t = .error e) ∧ u = t
  /-- The cards of the other users stay as they are. -/
  others : u.rows.filter (·.userId != run.userId) = t.rows.filter (·.userId != run.userId)
  /-- It does not fail on a table if it would not on an empty one. -/
  not_blocked :
    (∃ x, ingestMemoryMd D bodyLooksLikeSecret run.files run.userId run.clock .empty = .ok x) →
    ∃ x, ingestMemoryMd D bodyLooksLikeSecret run.files run.userId run.clock t = .ok x
  /-- Once more on the same files, it inserts nothing and changes no column but `updated_at`. -/
  twice : ∀ report, ingestMemoryMd D bodyLooksLikeSecret run.files run.userId run.clock t =
      .ok (u, report) → ∀ clock, ∃ v report',
    ingestMemoryMd D bodyLooksLikeSecret run.files run.userId clock u = .ok (v, report') ∧
      report'.cardsInserted = 0 ∧
      v.rows.map MemoryCard.content = u.rows.map MemoryCard.content

/-- No stored card but its own has the primary key of a valid entry, unless the run fails anyway:
MEMORY.md or a companion cannot be read, or two entries have one primary key. -/
def Unclashing (t : Table) (run : Run) (_ : Table) : Prop :=
  run.files.memoryMd.isSome = true → Accessible run.files run.entries →
    (∀ card ∈ run.cards D bodyLooksLikeSecret, ∀ other ∈ run.cards D bodyLooksLikeSecret,
      other.id = card.id → other.key = card.key) →
    ∀ card ∈ run.cards D bodyLooksLikeSecret, ∀ row ∈ t.rows, row.id = card.id → row.key = card.key

def step (t : Table) (run : Run) : Option Table := some (afterRun D bodyLooksLikeSecret t run)

/-- `cardId` of a key. -/
def keyId (k : String × String) : String := cardId D k.1 k.2

variable {D bodyLooksLikeSecret}

theorem cardsFrom_id (files : Files) (userId : String) (clock : Nat → String) (n : Nat)
    (entries : List MemoryMdEntry) :
    ∀ card ∈ cardsFrom D bodyLooksLikeSecret files userId clock n entries,
      card.id = keyId D card.key ∧ card.userId = userId := by
  induction entries generalizing n with
  | nil => exact fun card hcard => absurd hcard List.not_mem_nil
  | cons entry entries ih =>
    rw [cardsFrom]
    split
    · exact ih n
    · intro card hcard
      cases List.mem_cons.1 hcard with
      | inl heq => exact heq ▸ ⟨rfl, rfl⟩
      | inr hmem => exact ih (n + 1) card hmem

theorem cardsFrom_timeless (files : Files) (userId : String) (clock clock' : Nat → String)
    (n n' : Nat) (entries : List MemoryMdEntry) :
    (cardsFrom D bodyLooksLikeSecret files userId clock n entries).map MemoryCard.timeless =
      (cardsFrom D bodyLooksLikeSecret files userId clock' n' entries).map MemoryCard.timeless := by
  induction entries generalizing n n' with
  | nil => rfl
  | cons entry entries ih =>
    rw [cardsFrom, cardsFrom]
    split
    · exact ih n n'
    · rw [List.map_cons, List.map_cons, ih (n + 1) (n' + 1)]
      rfl

theorem ingestMemoryMd_ok_iff (run : Run) (clock : Nat → String) (t u : Table) :
    (∃ report, ingestMemoryMd D bodyLooksLikeSecret run.files run.userId clock t =
      .ok (u, report)) ↔
    run.files.memoryMd.isSome = true ∧ Accessible run.files run.entries ∧
      t.upserts (cardsFrom D bodyLooksLikeSecret run.files run.userId clock 0 run.entries) =
        some u := by
  unfold ingestMemoryMd Run.entries
  cases run.files.memoryMd with
  | none => simp
  | some text =>
    simp only [Option.map_some, Option.getD_some, Option.isSome_some, true_and]
    exact ingestEntries_ok_iff (parseMemoryMd text) t u _

/-- A run goes through exactly if it can read its files and no primary keys meet. -/
theorem ingestMemoryMd_succeeds_iff (run : Run) {t : Table} (ht : t.IdsBy (keyId D)) :
    (∃ x, ingestMemoryMd D bodyLooksLikeSecret run.files run.userId run.clock t = .ok x) ↔
    run.files.memoryMd.isSome = true ∧ Accessible run.files run.entries ∧
      ∀ card ∈ run.cards D bodyLooksLikeSecret,
        (∀ row ∈ t.rows, row.id = card.id → row.key = card.key) ∧
        ∀ other ∈ run.cards D bodyLooksLikeSecret, other.id = card.id → other.key = card.key := by
  have hids (card : MemoryCard) (hcard : card ∈ run.cards D bodyLooksLikeSecret) :
      card.id = keyId D card.key := (cardsFrom_id _ _ _ _ _ card hcard).1
  have hupserts := Table.upserts_isSome_iff ht hids
  have hsplit : (∃ x, ingestMemoryMd D bodyLooksLikeSecret run.files run.userId run.clock t =
      .ok x) ↔ ∃ u report, ingestMemoryMd D bodyLooksLikeSecret run.files run.userId run.clock t =
      .ok (u, report) := Prod.exists
  rw [hsplit]
  simp only [ingestMemoryMd_ok_iff, exists_and_left]
  refine and_congr_right fun _ => and_congr_right fun _ => ?_
  rw [← Option.isSome_iff_exists]
  refine hupserts.trans (forall_congr' fun card => forall_congr' fun hcard => ?_)
  rw [← hids card hcard]
  simp only [List.mem_append, or_imp, forall_and, Table.keys, List.forall_mem_map]
  refine and_congr (forall_congr' fun row => forall_congr' fun hrow => ?_)
    (forall_congr' fun other => forall_congr' fun hother => ?_)
  · rw [← ht row hrow]
  · rw [← hids other hother]

theorem idsBy_empty : Table.empty.IdsBy (keyId D) := fun _ hcard => absurd hcard List.not_mem_nil

theorem runCorrect_iff {t : Table} (ht : t.IdsBy (keyId D)) (run : Run) :
    RunCorrect D bodyLooksLikeSecret t run (afterRun D bodyLooksLikeSecret t run) ↔
      Unclashing D bodyLooksLikeSecret t run (afterRun D bodyLooksLikeSecret t run) := by
  constructor
  · intro h hread haccess hown card hcard row hrow
    have hempty := (ingestMemoryMd_succeeds_iff run idsBy_empty).2 ⟨hread, haccess,
      fun card hcard => ⟨fun row hrow => absurd hrow List.not_mem_nil, hown card hcard⟩⟩
    exact (((ingestMemoryMd_succeeds_iff run ht).1 (h.not_blocked hempty)).2.2 card hcard).1 row hrow
  · intro h
    have hcards : ∀ card ∈ run.cards D bodyLooksLikeSecret, card.userId = run.userId :=
      fun card hcard => (cardsFrom_id _ _ _ _ _ card hcard).2
    have hcases : (∃ u report, ingestMemoryMd D bodyLooksLikeSecret run.files run.userId run.clock
          t = .ok (u, report) ∧ afterRun D bodyLooksLikeSecret t run = u) ∨
        (∃ e, ingestMemoryMd D bodyLooksLikeSecret run.files run.userId run.clock t = .error e) ∧
          afterRun D bodyLooksLikeSecret t run = t := by
      unfold afterRun
      cases hrun : ingestMemoryMd D bodyLooksLikeSecret run.files run.userId run.clock t with
      | ok x => exact .inl ⟨x.1, x.2, rfl, rfl⟩
      | error e => exact .inr ⟨⟨e, rfl⟩, rfl⟩
    constructor
    · rcases hcases with ⟨u, report, hok, hafter⟩ | herror
      · rw [hafter]
        exact .inl ⟨report, hok, ((ingestMemoryMd_ok_iff run run.clock t u).1 ⟨report, hok⟩).2.2⟩
      · exact .inr herror
    · rcases hcases with ⟨u, report, hok, hafter⟩ | ⟨-, hafter⟩
      · rw [hafter]
        exact Table.upserts_others hcards ((ingestMemoryMd_ok_iff run run.clock t u).1
          ⟨report, hok⟩).2.2
      · rw [hafter]
    · intro hempty
      obtain ⟨hread, haccess, hown⟩ := (ingestMemoryMd_succeeds_iff run idsBy_empty).1 hempty
      have hown' := fun card hcard => (hown card hcard).2
      exact (ingestMemoryMd_succeeds_iff run ht).2 ⟨hread, haccess, fun card hcard =>
        ⟨h hread haccess hown' card hcard, hown' card hcard⟩⟩
    · intro report hok clock
      obtain ⟨hread, haccess, hupserts⟩ := (ingestMemoryMd_ok_iff run run.clock t _).1 ⟨report, hok⟩
      obtain ⟨hkeys, v, hv, hcontent⟩ := Table.upserts_twice hupserts
        (cardsFrom_timeless run.files run.userId run.clock clock 0 0 run.entries)
      obtain ⟨report', hagain⟩ := (ingestMemoryMd_ok_iff run clock _ v).2 ⟨hread, haccess, hv⟩
      refine ⟨v, report', hagain, ?_, hcontent⟩
      unfold ingestMemoryMd at hagain
      obtain ⟨text, htext⟩ := Option.isSome_iff_exists.1 hread
      have hentries : run.entries = parseMemoryMd text := by
        rw [Run.entries, htext]
        rfl
      rw [htext] at hagain
      rw [hentries] at hkeys
      exact ingestEntries_inserted hagain hkeys

theorem idsBy_afterRun {t : Table} (ht : t.IdsBy (keyId D)) (run : Run) :
    (afterRun D bodyLooksLikeSecret t run).IdsBy (keyId D) := by
  unfold afterRun
  cases hrun : ingestMemoryMd D bodyLooksLikeSecret run.files run.userId run.clock t with
  | error e => exact ht
  | ok x =>
    have hupserts := ((ingestMemoryMd_ok_iff run run.clock t x.1).1 ⟨x.2, hrun⟩).2.2
    exact ht.upserts (fun card hcard => (cardsFrom_id _ _ _ _ _ card hcard).1) hupserts

end Runs

/-- In any order of runs of any users, every run is correct exactly if, when it is made, no stored
card but its own has the primary key of one of its valid entries. -/
theorem runs_correct_iff (runs : List Run) :
    Along (step D bodyLooksLikeSecret) (RunCorrect D bodyLooksLikeSecret) Table.empty runs ↔
      Along (step D bodyLooksLikeSecret) (Unclashing D bodyLooksLikeSecret) Table.empty runs := by
  refine @along_iff _ _ _ _ _ (fun t => t.IdsBy (keyId D)) ?_ _ idsBy_empty runs
  intro t run u ht hstep
  cases Option.some.inj hstep
  exact ⟨runCorrect_iff ht run, fun _ => idsBy_afterRun ht run⟩

/-! ### Two users, one hash -/

def sampleDigest : Digest :=
  .listed [("a::b::c.md", "a594316b649ab1122d5ed486de04b5748e2f17f18288d0511015bd5786004ab2")]

def sampleCompanion : String := "---\nname: n\ndescription: d\ntype: user\n---\nbody"

/-- A run whose MEMORY.md names one file, which can be read. -/
def sampleRun (userId filename : String) : Run where
  files := ⟨some ("# User\n- [T](" ++ filename ++ ")"), fun _ => .text sampleCompanion⟩
  userId := userId
  clock _ := "2026-04-21T00:00:00.000000+00:00"

def sampleCard (userId filename : String) : MemoryCard where
  id := "a594316b649ab112"
  userId := userId
  category := .user
  name := "n"
  filename := filename
  description := ""
  body := "body"
  createdAt := "2026-04-21T00:00:00.000000+00:00"
  updatedAt := "2026-04-21T00:00:00.000000+00:00"

theorem sampleRun_first :
    (sampleRun "a" "b::c.md").cards sampleDigest (fun _ => false) = [sampleCard "a" "b::c.md"] := by
  decide +kernel

theorem sampleRun_second :
    (sampleRun "a::b" "c.md").cards sampleDigest (fun _ => false) = [sampleCard "a::b" "c.md"] := by
  decide +kernel

/-- The first user's file keeps the second user's run from committing. -/
theorem runs_blocked : ¬ ∀ D bodyLooksLikeSecret runs,
    Along (step D bodyLooksLikeSecret) (RunCorrect D bodyLooksLikeSecret) Table.empty runs := by
  intro h
  have haccess (userId filename : String) : Accessible (sampleRun userId filename).files
      (sampleRun userId filename).entries := fun _ _ => nofun
  have hown {cards : List MemoryCard} {card : MemoryCard} (heq : cards = [card]) :
      ∀ c ∈ cards, ∀ other ∈ cards, other.id = c.id → other.key = c.key := by
    subst heq
    simp
  obtain ⟨⟨u, report⟩, hfirst⟩ := (ingestMemoryMd_succeeds_iff (sampleRun "a" "b::c.md")
    (idsBy_empty (D := sampleDigest))).2 ⟨rfl, haccess _ _, fun card hcard =>
      ⟨fun row hrow => absurd hrow List.not_mem_nil,
        fun other => hown sampleRun_first card hcard other⟩⟩
  have hafter : afterRun sampleDigest (fun _ => false) .empty (sampleRun "a" "b::c.md") = u := by
    rw [afterRun, hfirst]
  have hupserts := ((ingestMemoryMd_ok_iff _ _ _ _).1 ⟨report, hfirst⟩).2.2
  have hrow : sampleCard "a" "b::c.md" ∈ u.rows := by
    change Table.empty.upserts ((sampleRun "a" "b::c.md").cards sampleDigest fun _ => false) =
      some u at hupserts
    rw [sampleRun_first] at hupserts
    cases hupserts
    exact List.mem_singleton_self _
  have hclash := (runs_correct_iff _ _ _).1 (h sampleDigest (fun _ => false)
    [sampleRun "a" "b::c.md", sampleRun "a::b" "c.md"]) u (by rw [step, hafter])
  have hkey := (hclash.2 _ rfl).1 rfl (haccess _ _) (hown sampleRun_second)
    (sampleCard "a::b" "c.md") (by rw [sampleRun_second]; exact List.mem_singleton_self _)
    (sampleCard "a" "b::c.md") hrow rfl
  revert hkey
  decide

end ParallaxKernel.MemoryCards
