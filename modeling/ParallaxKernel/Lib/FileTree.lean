import Mathlib.Data.List.Infix
import ParallaxKernel.Lib.KeyedList

/-!
# Trees of files

Directories, files and symbolic links by their paths. Hard links are paths with one inode. A path
is followed link by link; where it leads does not depend on which files there are.
-/

namespace ParallaxKernel.Lib

/-- The components of an absolute path. -/
abbrev Path := List String

/-- What a symbolic link holds. -/
structure Link where
  absolute : Bool
  parts : List String
  deriving DecidableEq

inductive Node where
  | file (inode : Nat)
  | dir
  | link (target : Link)
  deriving DecidableEq

/-- The entries of a file system in the order in which directories list them, and what each inode
holds. The root is a directory and no entry. -/
@[ext] structure FileTree (β : Type) where
  nodes : List (Path × Node)
  contents : List β
  distinct : (nodes.map Prod.fst).Nodup
  proper : ∀ e ∈ nodes, e.1 ≠ []
  parents : ∀ e ∈ nodes, e.1.dropLast = [] ∨ (e.1.dropLast, .dir) ∈ nodes
  stored : ∀ e ∈ nodes, ∀ i, e.2 = .file i → i < contents.length

namespace FileTree

variable {β : Type} {t u : FileTree β} {p q d : Path} {n : Node} {name : String} {i : Nat}

/-- `os.lstat`. -/
def node? (t : FileTree β) (p : Path) : Option Node :=
  if p = [] then some .dir else (lookupKey Prod.fst p t.nodes).map Prod.snd

theorem node?_eq_some (hp : p ≠ []) : t.node? p = some n ↔ (p, n) ∈ t.nodes := by
  rw [node?, if_neg hp]
  constructor
  · intro h
    obtain ⟨⟨q, m⟩, hlookup, rfl⟩ := Option.map_eq_some_iff.1 h
    obtain ⟨hmem, rfl⟩ := lookupKey_mem hlookup
    exact hmem
  · intro h
    exact Option.map_eq_some_iff.2 ⟨(p, n), lookupKey_of_mem t.distinct h, rfl⟩

theorem node?_eq_none (hp : p ≠ []) : t.node? p = none ↔ p ∉ t.nodes.map Prod.fst := by
  simp only [node?, if_neg hp, Option.map_eq_none_iff, lookupKey_eq_none, List.mem_map, not_exists,
    not_and]

theorem ne_nil_of_file (h : t.node? p = some (.file i)) : p ≠ [] := by
  rintro rfl
  simp [node?] at h

theorem ne_nil_of_missing (h : t.node? p = none) : p ≠ [] := by
  rintro rfl
  simp [node?] at h

theorem lt_of_file (h : t.node? p = some (.file i)) : i < t.contents.length :=
  t.stored _ ((node?_eq_some (ne_nil_of_file h)).1 h) i rfl

theorem parent_of_node (hp : p ≠ []) (h : t.node? p = some n) :
    t.node? p.dropLast = some .dir := by
  cases t.parents _ ((node?_eq_some hp).1 h) with
  | inl hroot => rw [node?, if_pos hroot]
  | inr hdir =>
    rw [node?]
    split_ifs with hroot
    · rfl
    · rw [← node?_eq_some hroot] at hdir
      rwa [node?, if_neg hroot] at hdir

/-- What is above an entry is a directory. -/
theorem dir_of_prefix (h : t.node? p = some n) (hq : q <+: p) (hne : q ≠ p) :
    t.node? q = some .dir := by
  induction p using List.reverseRecOn generalizing n with
  | nil => exact absurd (List.prefix_nil.1 hq) hne
  | append_singleton p name ih =>
    have hparent : t.node? p = some .dir := by simpa using parent_of_node (by simp) h
    cases List.prefix_concat_iff.1 hq with
    | inl heq => exact absurd heq hne
    | inr hq =>
      by_cases hqp : q = p
      · exact hqp ▸ hparent
      · exact ih hparent hq hqp

/-! ## The entries of a directory -/

/-- The names in a directory, in the order in which it lists them. -/
def children (t : FileTree β) (d : Path) : List String :=
  t.nodes.filterMap fun e => if e.1.dropLast = d then e.1.getLast? else none

theorem mem_children : name ∈ t.children d ↔ (t.node? (d ++ [name])).isSome := by
  have hne : d ++ [name] ≠ [] := by simp
  rw [Option.isSome_iff_exists]
  simp only [node?_eq_some hne, children, List.mem_filterMap]
  constructor
  · rintro ⟨⟨p, n⟩, he, hlast⟩
    obtain ⟨hd, hlast⟩ := Option.ite_none_right_eq_some.1 hlast
    refine ⟨n, ?_⟩
    rwa [← hd, List.dropLast_append_getLast? name hlast]
  · rintro ⟨n, hn⟩
    exact ⟨_, hn, by simp⟩

theorem children_of_not_dir (h : t.node? d ≠ some .dir) : t.children d = [] := by
  refine List.eq_nil_iff_forall_not_mem.2 fun name hname => h ?_
  obtain ⟨n, hn⟩ := Option.isSome_iff_exists.1 (mem_children.1 hname)
  simpa using parent_of_node (by simp) hn

theorem nodup_children (t : FileTree β) (d : Path) : (t.children d).Nodup := by
  have hpaths : t.nodes.Pairwise fun e f => e.1 ≠ f.1 := List.pairwise_map.1 t.distinct
  refine List.Pairwise.filterMap _ ?_ hpaths
  rintro ⟨p, n⟩ ⟨q, m⟩ hne x hx y hy rfl
  obtain ⟨hp, hx⟩ := Option.ite_none_right_eq_some.1 hx
  obtain ⟨hq, hy⟩ := Option.ite_none_right_eq_some.1 hy
  refine hne ?_
  rw [← List.dropLast_append_getLast? x hx, ← List.dropLast_append_getLast? x hy, hp, hq]

/-! ## Changes -/

/-- Removes an entry that is no directory. -/
def remove (t : FileTree β) (p : Path) (h : t.node? p ≠ some .dir) : FileTree β where
  nodes := t.nodes.filter fun e => e.1 ≠ p
  contents := t.contents
  distinct := (List.filter_sublist.map Prod.fst).nodup t.distinct
  proper e he := t.proper e (List.mem_filter.1 he).1
  parents e he := by
    refine (t.parents e (List.mem_filter.1 he).1).imp_right fun hdir => ?_
    refine List.mem_filter.2 ⟨hdir, decide_eq_true ?_⟩
    rintro rfl
    exact h ((node?_eq_some (t.proper _ hdir)).2 hdir)
  stored e he := t.stored e (List.mem_filter.1 he).1

/-- Adds an entry, and contents with new inodes. -/
def add (t : FileTree β) (p : Path) (n : Node) (new : List β) (hp : p ≠ [])
    (h : t.node? p = none) (hparent : t.node? p.dropLast = some .dir)
    (hn : ∀ i, n = .file i → i < (t.contents ++ new).length) : FileTree β where
  nodes := t.nodes ++ [(p, n)]
  contents := t.contents ++ new
  distinct := by
    rw [List.map_append, List.nodup_append]
    refine ⟨t.distinct, by simp, ?_⟩
    rintro q hq r hr rfl
    obtain rfl : q = p := by simpa using hr
    exact (node?_eq_none hp).1 h hq
  proper e he := by
    cases List.mem_append.1 he with
    | inl he => exact t.proper e he
    | inr he => exact List.mem_singleton.1 he ▸ hp
  parents e he := by
    cases List.mem_append.1 he with
    | inl he => exact (t.parents e he).imp_right (List.mem_append_left _)
    | inr he =>
      obtain rfl := List.mem_singleton.1 he
      by_cases hroot : p.dropLast = []
      · exact .inl hroot
      · exact .inr (List.mem_append_left _ ((node?_eq_some hroot).1 hparent))
  stored e he i hi := by
    cases List.mem_append.1 he with
    | inl he => exact List.length_append ▸ Nat.lt_add_right _ (t.stored e he i hi)
    | inr he =>
      obtain rfl := List.mem_singleton.1 he
      exact hn i hi

/-- Changes what an inode holds. -/
def setContent (t : FileTree β) (i : Nat) (b : β) : FileTree β where
  nodes := t.nodes
  contents := t.contents.set i b
  distinct := t.distinct
  proper := t.proper
  parents := t.parents
  stored e he j hj := by
    rw [List.length_set]
    exact t.stored e he j hj

theorem node?_remove (hp : p ≠ []) {h : t.node? p ≠ some .dir} (q : Path) :
    (t.remove p h).node? q = if q = p then none else t.node? q := by
  by_cases hq : q = []
  · subst hq
    rw [if_neg hp.symm]
    rfl
  · ext n
    rw [node?_eq_some hq]
    by_cases hqp : q = p
    · simp [remove, hqp]
    · simp [remove, hqp, node?_eq_some hq]

theorem node?_add {new : List β} {hp : p ≠ []} {h : t.node? p = none}
    {hparent : t.node? p.dropLast = some .dir}
    {hn : ∀ i, n = .file i → i < (t.contents ++ new).length} (q : Path) :
    (t.add p n new hp h hparent hn).node? q = if q = p then some n else t.node? q := by
  by_cases hq : q = []
  · subst hq
    rw [if_neg hp.symm]
    rfl
  · ext m
    rw [node?_eq_some hq]
    by_cases hqp : q = p
    · subst hqp
      have hnone : (q, m) ∉ t.nodes := fun hmem => by simp [(node?_eq_some hq).2 hmem] at h
      simp [add, hnone, eq_comm]
    · simp [add, hqp, node?_eq_some hq]

@[simp] theorem node?_setContent (i : Nat) (b : β) (q : Path) :
    (t.setContent i b).node? q = t.node? q := rfl

/-! ## Following a path -/

/-- How far a path leads: to an end, or to a link that is to be followed. -/
inductive Stretch where
  | stop (p : Option Path)
  | follow (from_ : Path) (todo : List String)

/-- Follows `todo` from the directory `cur` up to the first link. The last component may be
missing. -/
def stretch (t : FileTree β) (cur : Path) : List String → Stretch
  | [] => .stop (some cur)
  | name :: rest =>
    if name = "." then stretch t cur rest
    else if name = ".." then stretch t cur.dropLast rest
    else match t.node? (cur ++ [name]) with
      | some .dir => stretch t (cur ++ [name]) rest
      | some (.link l) => .follow (if l.absolute then [] else cur) (l.parts ++ rest)
      | _ => .stop (if rest = [] then some (cur ++ [name]) else none)

/-- The path that `todo` leads to from `cur` if at most `links` links are followed. -/
def walk (t : FileTree β) : Nat → Path → List String → Option Path
  | 0, cur, todo =>
    match t.stretch cur todo with
    | .stop p => p
    | .follow _ _ => none
  | links + 1, cur, todo =>
    match t.stretch cur todo with
    | .stop p => p
    | .follow cur todo => walk t links cur todo

/-- What the system allows. -/
def maxLinks : Nat := 40

/-- Where a path leads. -/
def resolve (t : FileTree β) (p : Path) : Option Path := t.walk maxLinks [] p

/-- The directories and links are the same. -/
def SameWays (t u : FileTree β) : Prop :=
  ∀ p, t.node? p = u.node? p ∨
    (∀ n, t.node? p = some n → ∃ i, n = .file i) ∧ ∀ n, u.node? p = some n → ∃ i, n = .file i

theorem SameWays.refl (t : FileTree β) : SameWays t t := fun _ => .inl rfl

theorem SameWays.trans {v : FileTree β} (h : SameWays t u) (h' : SameWays u v) :
    SameWays t v := by
  intro p
  cases h p with
  | inl heq => exact heq ▸ h' p
  | inr hfiles =>
    cases h' p with
    | inl heq => exact .inr (heq ▸ hfiles)
    | inr hfiles' => exact .inr ⟨hfiles.1, hfiles'.2⟩

theorem stretch_congr (h : SameWays t u) (cur : Path) (todo : List String) :
    t.stretch cur todo = u.stretch cur todo := by
  induction todo generalizing cur with
  | nil => rfl
  | cons name rest ih =>
    rw [stretch, stretch, ih, ih, ih]
    cases h (cur ++ [name]) with
    | inl heq => rw [heq]
    | inr hfiles =>
      have hstop (v : FileTree β) (hv : ∀ n, v.node? (cur ++ [name]) = some n → ∃ i, n = .file i) :
          (match v.node? (cur ++ [name]) with
            | some .dir => u.stretch (cur ++ [name]) rest
            | some (.link l) => .follow (if l.absolute then [] else cur) (l.parts ++ rest)
            | _ => .stop (if rest = [] then some (cur ++ [name]) else none)) =
          .stop (if rest = [] then some (cur ++ [name]) else none) := by
        cases hnode : v.node? (cur ++ [name]) with
        | none => rfl
        | some n =>
          obtain ⟨i, rfl⟩ := hv n hnode
          rfl
      rw [hstop t hfiles.1, hstop u hfiles.2]

theorem walk_congr (h : SameWays t u) (links : Nat) (cur : Path) (todo : List String) :
    t.walk links cur todo = u.walk links cur todo := by
  induction links generalizing cur todo with
  | zero => rw [walk, walk, stretch_congr h]
  | succ links ih =>
    rw [walk, walk, stretch_congr h]
    cases u.stretch cur todo with
    | stop p => rfl
    | follow cur todo => exact ih cur todo

theorem resolve_congr (h : SameWays t u) (p : Path) : t.resolve p = u.resolve p :=
  walk_congr h maxLinks [] p

/-! ### Real directories -/

/-- A name that is no step to a directory itself or to its parent. -/
def IsName (name : String) : Prop := name ≠ "." ∧ name ≠ ".."

instance (name : String) : Decidable (IsName name) :=
  inferInstanceAs (Decidable (name ≠ "." ∧ name ≠ ".."))

theorem stretch_dirs {cur : Path} {todo : List String} (hnames : ∀ name ∈ p, IsName name)
    (hdirs : ∀ q, q <+: p → t.node? (cur ++ q) = some .dir) :
    t.stretch cur (p ++ todo) = t.stretch (cur ++ p) todo := by
  induction p generalizing cur with
  | nil => simp
  | cons name p ih =>
    have hname := hnames name List.mem_cons_self
    have hdir : t.node? (cur ++ [name]) = some .dir := hdirs [name] ⟨p, rfl⟩
    rw [List.cons_append, stretch, if_neg hname.1, if_neg hname.2, hdir]
    have hrest : t.stretch (cur ++ [name]) (p ++ todo) = t.stretch (cur ++ [name] ++ p) todo := by
      refine ih (fun x hx => hnames x (List.mem_cons_of_mem _ hx)) ?_
      rintro q ⟨r, rfl⟩
      simpa using hdirs (name :: q) ⟨r, rfl⟩
    simpa using hrest

theorem walk_of_stretch {links : Nat} {cur : Path} {todo : List String} {r : Option Path}
    (h : t.stretch cur todo = .stop r) : t.walk links cur todo = r := by
  cases links <;> rw [walk, h]

/-- A path through directories to a file, or to where one can be, leads to itself. -/
theorem resolve_real (hnames : ∀ name ∈ d, IsName name) (hname : IsName name)
    (hdirs : ∀ q, q <+: d → t.node? q = some .dir)
    (hend : ∀ n, t.node? (d ++ [name]) = some n → ∃ i, n = .file i) :
    t.resolve (d ++ [name]) = some (d ++ [name]) := by
  refine walk_of_stretch ?_
  rw [stretch_dirs hnames (by simpa using hdirs), List.nil_append, stretch, if_neg hname.1,
    if_neg hname.2]
  cases hnode : t.node? (d ++ [name]) with
  | none => rfl
  | some n =>
    obtain ⟨i, rfl⟩ := hend n hnode
    rfl

/-- `mkdir(exist_ok=True)`, without its parents. -/
def mkdir (t : FileTree β) (p : Path) : Option (FileTree β) :=
  match h : t.node? p with
  | none =>
    if hparent : t.node? p.dropLast = some .dir then
      some (t.add p .dir [] (ne_nil_of_missing h) h hparent fun _ hi => nomatch hi)
    else none
  | some .dir => some t
  | some _ => none

/-- `mkdir(parents=True, exist_ok=True)`. -/
def mkdirs (t : FileTree β) (p : Path) : Option (FileTree β) := p.inits.foldlM mkdir t

theorem node?_mkdir (h : t.mkdir p = some u) (q : Path) :
    u.node? q = if q = p then some .dir else t.node? q := by
  unfold mkdir at h
  split at h
  · split_ifs at h
    cases h
    exact node?_add q
  · cases h
    split_ifs with hq
    · rwa [hq]
    · rfl
  · cases h

theorem mkdir_of_dir (h : t.node? p = some .dir) : t.mkdir p = some t := by
  unfold mkdir
  split
  · rename_i hnone
    rw [h] at hnone
    cases hnone
  · rfl
  · rename_i n hne hn
    rw [h] at hn
    cases hn
    exact absurd rfl (hne ·)

/-- Directories stay, and the one asked for and its parents are there. -/
theorem node?_mkdirs (h : t.mkdirs p = some u) (q : Path) :
    u.node? q = if q <+: p then some .dir else t.node? q := by
  have hfold : ∀ (ps : List Path) (t : FileTree β), ps.foldlM mkdir t = some u →
      u.node? q = if q ∈ ps then some .dir else t.node? q := by
    intro ps
    induction ps with
    | nil =>
      rintro t ⟨⟩
      simp
    | cons r ps ih =>
      intro t h
      rw [List.foldlM_cons] at h
      obtain ⟨v, hv, hu⟩ := Option.bind_eq_some_iff.1 h
      rw [ih v hu, node?_mkdir hv]
      by_cases hq : q = r <;> simp [hq]
  simp only [hfold _ t h, List.mem_inits]

theorem mkdirs_of_dir (h : ∀ q, q <+: p → t.node? q = some .dir) : t.mkdirs p = some t := by
  have hfold : ∀ ps : List Path, (∀ q ∈ ps, t.node? q = some .dir) →
      ps.foldlM mkdir t = some t := by
    intro ps hps
    induction ps with
    | nil => rfl
    | cons r ps ih =>
      rw [List.foldlM_cons, mkdir_of_dir (hps r List.mem_cons_self)]
      exact ih fun q hq => hps q (List.mem_cons_of_mem r hq)
  exact hfold _ fun q hq => h q ((List.mem_inits q p).1 hq)

/-! ## Files -/

/-- What the file at a path holds. -/
def fileAt (t : FileTree β) (p : Path) : Option β :=
  match t.node? p with
  | some (.file i) => t.contents[i]?
  | _ => none

/-- `read_bytes()`. -/
def read (t : FileTree β) (p : Path) : Option β := (t.resolve p).bind t.fileAt

/-- Writes the file at a path that is no link. -/
def put (t : FileTree β) (p : Path) (b : β) : Option (FileTree β) :=
  match h : t.node? p with
  | none =>
    if hparent : t.node? p.dropLast = some .dir then
      some (t.add p (.file t.contents.length) [b] (ne_nil_of_missing h) h hparent (by simp))
    else none
  | some (.file i) => some (t.setContent i b)
  | some _ => none

/-- `write_bytes`. -/
def write (t : FileTree β) (p : Path) (b : β) : Option (FileTree β) :=
  (t.resolve p).bind fun q => t.put q b

/-- `unlink()`. -/
def unlink (t : FileTree β) (p : Path) : Option (FileTree β) :=
  match h : t.node? p with
  | some (.file _) => some (t.remove p (by simp [h]))
  | some (.link _) => some (t.remove p (by simp [h]))
  | _ => none

theorem unlink_file (h : t.node? p = some (.file i)) (hdir : t.node? p ≠ some .dir) :
    t.unlink p = some (t.remove p hdir) := by
  unfold unlink
  split
  · rfl
  · rfl
  · rename_i hfile _
    exact absurd h (hfile i)

theorem unlink_dir (h : t.node? p = some .dir) : t.unlink p = none := by
  unfold unlink
  split
  · rename_i i hnode
    rw [h] at hnode
    cases hnode
  · rename_i l hnode
    rw [h] at hnode
    cases hnode
  · rfl

/-- The paths name one file. -/
def SameFile (t : FileTree β) (p q : Path) : Prop :=
  p = q ∨ ∃ i, t.node? p = some (.file i) ∧ t.node? q = some (.file i)

theorem SameFile.symm (h : SameFile t p q) : SameFile t q p := by
  cases h with
  | inl heq => exact .inl heq.symm
  | inr hinode =>
    obtain ⟨i, hp, hq⟩ := hinode
    exact .inr ⟨i, hq, hp⟩

theorem node?_put {b : β} (h : t.put p b = some u) :
    (∃ i, u.node? p = some (.file i)) ∧ ∀ q, q ≠ p → u.node? q = t.node? q := by
  unfold put at h
  split at h
  · split_ifs at h
    cases h
    refine ⟨⟨_, (node?_add p).trans (if_pos rfl)⟩, fun q hq => (node?_add q).trans (if_neg hq)⟩
  · rename_i i hnode
    cases h
    exact ⟨⟨i, hnode⟩, fun _ _ => rfl⟩
  · cases h

/-- A file that is written was one, or was not there. -/
theorem file_of_put {b : β} (h : t.put p b = some u) :
    ∀ n, t.node? p = some n → ∃ i, n = .file i := by
  intro n hn
  unfold put at h
  split at h
  · rename_i hnone
    rw [hn] at hnone
    cases hnone
  · rename_i i hnode
    rw [hn] at hnode
    cases hnode
    exact ⟨i, rfl⟩
  · cases h

theorem exists_put (h : ∀ n, t.node? p = some n → ∃ i, n = .file i)
    (hparent : t.node? p.dropLast = some .dir) (b : β) : ∃ u, t.put p b = some u := by
  unfold put
  split
  · exact ⟨_, dif_pos hparent⟩
  · exact ⟨_, rfl⟩
  · rename_i n hfile hn
    obtain ⟨i, rfl⟩ := h n hn
    exact absurd rfl (hfile i)

theorem sameWays_put {b : β} (h : t.put p b = some u) : SameWays t u := by
  obtain ⟨⟨i, hi⟩, hother⟩ := node?_put h
  intro q
  by_cases hq : q = p
  · subst hq
    refine .inr ⟨file_of_put h, fun n hn => ?_⟩
    rw [hi] at hn
    cases hn
    exact ⟨i, rfl⟩
  · exact .inl (hother q hq).symm

theorem sameWays_remove (h : t.node? p = some (.file i)) {hdir : t.node? p ≠ some .dir} :
    SameWays t (t.remove p hdir) := by
  intro q
  rw [node?_remove (ne_nil_of_file h)]
  by_cases hq : q = p
  · subst hq
    refine .inr ⟨fun n hn => ?_, by simp⟩
    rw [h] at hn
    cases hn
    exact ⟨i, rfl⟩
  · exact .inl (if_neg hq).symm

/-- A file keeps its inode. -/
theorem node?_put_file {b : β} (h : t.put p b = some u) (hq : t.node? q = some (.file i)) :
    u.node? q = some (.file i) := by
  by_cases hqp : q = p
  · unfold put at h
    split at h
    · rename_i hnone
      rw [hqp, hnone] at hq
      cases hq
    · cases h
      exact hq
    · cases h
  · rw [(node?_put h).2 q hqp, hq]

/-- A written file has the names that it had, or only the one that it is written under. -/
theorem sameFile_of_put {b : β} (h : t.put p b = some u) {r : Path} (hsame : SameFile u q r) :
    q = r ∨ SameFile t q r := by
  cases hsame with
  | inl heq => exact .inl heq
  | inr hinode =>
    obtain ⟨i, hq, hr⟩ := hinode
    unfold put at h
    split at h
    · split_ifs at h
      cases h
      rw [node?_add] at hq hr
      split_ifs at hq hr with hqp hrp hrp
      · exact .inl (hqp.trans hrp.symm)
      · cases hq
        exact absurd (lt_of_file hr) (lt_irrefl _)
      · cases hr
        exact absurd (lt_of_file hq) (lt_irrefl _)
      · exact .inr (.inr ⟨i, hq, hr⟩)
    · cases h
      exact .inr (.inr ⟨i, hq, hr⟩)
    · cases h

/-- A write changes what its file holds, under all its names, and nothing else. -/
theorem fileAt_put {b : β} (h : t.put p b = some u) (q : Path) :
    (SameFile t p q → u.fileAt q = some b) ∧ (¬ SameFile t p q → u.fileAt q = t.fileAt q) := by
  unfold put at h
  split at h
  · rename_i hnone
    split_ifs at h with hparent
    cases h
    have hfile : ∀ i, Node.file t.contents.length = .file i → i < (t.contents ++ [b]).length := by
      simp
    have hnode : (t.add p (.file t.contents.length) [b] (ne_nil_of_missing hnone) hnone hparent
        hfile).node? q = if q = p then some (.file t.contents.length) else t.node? q := node?_add q
    constructor
    · rintro (rfl | ⟨i, hi, -⟩)
      · rw [if_pos rfl] at hnode
        simp only [fileAt, hnode]
        simp [add]
      · rw [hnone] at hi
        cases hi
    · intro hne
      rw [if_neg fun hqp => hne (.inl hqp.symm)] at hnode
      simp only [fileAt, hnode]
      cases hq : t.node? q with
      | none => rfl
      | some n =>
        cases n with
        | file i => exact List.getElem?_append_left (lt_of_file hq)
        | _ => rfl
  · rename_i i hnode
    cases h
    constructor
    · rintro (rfl | ⟨j, hj, hq⟩)
      · simp only [fileAt, node?_setContent, hnode]
        simp [setContent, lt_of_file hnode]
      · rw [hnode] at hj
        cases hj
        simp only [fileAt, node?_setContent, hq]
        simp [setContent, lt_of_file hnode]
    · intro hne
      simp only [fileAt, node?_setContent]
      cases hq : t.node? q with
      | none => rfl
      | some n =>
        cases n with
        | file j =>
          have hij : i ≠ j := fun hij => hne (.inr ⟨i, hnode, hij ▸ hq⟩)
          simp [setContent, List.getElem?_set_ne hij]
        | _ => rfl
  · cases h

end FileTree
end ParallaxKernel.Lib
