import ParallaxKernel.Lib.Cut
import ParallaxKernel.Lib.HashChain
import ParallaxKernel.Lib.PyJsonOrder
import ParallaxKernel.Lib.PyJsonText
import ParallaxKernel.Store.Hashing

/-!
# The checksum chain of a log

`compute_checksum_chain` of `shadow/discrepancy.py`. The line of a record has no line break and
neither has a digest, so the break between them is where the first one stands.
-/

namespace ParallaxKernel.Shadow

open Lib Store

/-- A record of a log: an object as `json.loads` returns it. -/
structure Record where
  members : List (PyStr × PyJson)
  unpaired : (PyJson.obj members).Unpaired
  distinct : (PyJson.obj members).DistinctKeys

namespace Record

/-- What a line of a log says, where no object of it repeats a key. -/
def ofLine {text : String} {ms : List (PyStr × PyJson)}
    (h : PyJson.loads text = some (.obj ms)) (distinct : (PyJson.obj ms).DistinctKeys) : Record :=
  ⟨ms, PyJson.unpaired_of_loads h, distinct⟩

/-- `json.dumps(record, sort_keys=True)`. -/
def line (r : Record) : String := PyJson.dumpsSorted (.obj r.members)

/-- The records are equal as JSON values; the order of keys does not count. -/
def Same (r s : Record) : Prop := PyJson.Same (.obj r.members) (.obj s.members)

end Record

variable (D : Digest)

/-- `compute_checksum_chain`, where `sha256` is the hexadecimal digest. -/
def computeChecksumChain (records : List Record) : String :=
  records.foldl
    (fun digest r => if digest = "" then D.sha256 r.line else D.sha256 (digest ++ "\n" ++ r.line)) ""

/-- A step of the chain, where none stands for the empty text. -/
def chainStep (digest : Option String) (r : Record) : String :=
  match digest with
  | none => D.sha256 r.line
  | some digest => D.sha256 (digest ++ "\n" ++ r.line)

variable {D}

/-- What a hexadecimal digest is: it is not empty and has no line break. -/
structure OneLineDigest (D : Digest) : Prop where
  ne_empty : ∀ text, D.sha256 text ≠ ""
  one_line : ∀ text, '\n' ∉ (D.sha256 text).toList

theorem computeChecksumChain_eq (h : OneLineDigest D) (records : List Record) :
    computeChecksumChain D records = (chain (chainStep D) records).getD "" := by
  induction records using List.reverseRecOn with
  | nil => rfl
  | append_singleton rs r ih =>
    rw [computeChecksumChain, List.foldl_concat, ← computeChecksumChain, ih, chain_concat]
    cases rs using List.reverseRecOn with
    | nil => rfl
    | append_singleton rs s =>
      rw [chain_concat]
      have hne : chainStep D (chain (chainStep D) rs) s ≠ "" := by
        unfold chainStep
        split <;> exact h.ne_empty _
      simp only [Option.getD_some, if_neg hne]
      rfl

theorem line_no_break (r : Record) : '\n' ∉ r.line.toList :=
  (PyJson.printed_dumpsSorted (.obj r.members)).ne (by decide)

theorem line_eq_iff {r s : Record} : r.line = s.line ↔ r.Same s :=
  (PyJson.same_iff_dumpsSorted ⟨r.unpaired, r.distinct⟩ ⟨s.unpaired, s.distinct⟩).symm

/-- A text is cut at its first line break. -/
theorem cut_line {d e x y : List Char} (hd : '\n' ∉ d) (he : '\n' ∉ e)
    (h : d ++ '\n' :: x = e ++ '\n' :: y) : d = e ∧ x = y := by
  have hclear {cs : List Char} (hcs : '\n' ∉ cs) : Clear ['\n'] cs := by
    intro k hk hpre
    rw [List.drop_append_of_le_length hk.le] at hpre
    cases hdrop : cs.drop k with
    | nil => exact absurd (List.drop_eq_nil_iff.1 hdrop) (by omega)
    | cons c tail =>
      rw [hdrop] at hpre
      obtain rfl : '\n' = c := (List.cons_prefix_cons.1 hpre).1
      exact hcs ((List.drop_subset k cs) (by simp [hdrop]))
  exact (hclear hd).cut (hclear he) (by simpa using h)

theorem one_line_of_chain (h : OneLineDigest D) {rs : List Record} {d : String}
    (hd : chain (chainStep D) rs = some d) : '\n' ∉ d.toList := by
  cases rs using List.reverseRecOn with
  | nil => cases hd
  | append_singleton rs r =>
    rw [chain_concat] at hd
    cases hd
    unfold chainStep
    split <;> exact h.one_line _

/-- A step determines the digest before it and the record: where the first line break of the hashed
text stands tells the two apart, and whether there is one tells whether there is a digest. -/
theorem chainStep_eq_iff (hinj : Function.Injective D.sha256) (h : OneLineDigest D)
    (rs ss : List Record) (r s : Record) :
    chainStep D (chain (chainStep D) rs) r = chainStep D (chain (chainStep D) ss) s ↔
      chain (chainStep D) rs = chain (chainStep D) ss ∧ r.Same s := by
  have hbreak (d : String) (u v : Record) : u.line ≠ d ++ "\n" ++ v.line := by
    intro heq
    exact line_no_break u (by simp [heq])
  cases hrs : chain (chainStep D) rs with
  | none =>
    cases hss : chain (chainStep D) ss with
    | none => simp [chainStep, hinj.eq_iff, line_eq_iff]
    | some e => simp [chainStep, hinj.eq_iff, hbreak]
  | some d =>
    cases hss : chain (chainStep D) ss with
    | none => simp [chainStep, hinj.eq_iff, (hbreak d s r).symm]
    | some e =>
      simp only [chainStep, hinj.eq_iff, Option.some.injEq]
      constructor
      · intro heq
        have hchars := congrArg String.toList heq
        simp only [String.toList_append, List.append_assoc] at hchars
        obtain ⟨hde, hline⟩ := cut_line (one_line_of_chain h hrs) (one_line_of_chain h hss) hchars
        exact ⟨String.toList_inj.1 hde, line_eq_iff.1 (String.toList_inj.1 hline)⟩
      · rintro ⟨rfl, hsame⟩
        rw [line_eq_iff.2 hsame]

theorem chain_ne_empty (h : OneLineDigest D) (rs : List Record) :
    chain (chainStep D) rs ≠ some "" := by
  cases rs using List.reverseRecOn with
  | nil => simp
  | append_singleton rs r =>
    rw [chain_concat, ne_eq, Option.some.injEq]
    unfold chainStep
    split <;> exact h.ne_empty _

theorem getD_inj {d e : Option String} (hd : d ≠ some "") (he : e ≠ some "")
    (h : d.getD "" = e.getD "") : d = e := by
  cases d with
  | none =>
    cases e with
    | none => rfl
    | some e => exact absurd (congrArg some h.symm) he
  | some d =>
    cases e with
    | none => exact absurd (congrArg some h) hd
    | some e => exact congrArg some h

/-- The digest of a log determines its records, as JSON values: how many there are, in which order,
and what each of them says. -/
theorem computeChecksumChain_eq_iff (hinj : Function.Injective D.sha256) (h : OneLineDigest D)
    (xs ys : List Record) :
    computeChecksumChain D xs = computeChecksumChain D ys ↔ List.Forall₂ Record.Same xs ys := by
  rw [← chain_eq_iff (chainStep_eq_iff hinj h), computeChecksumChain_eq h,
    computeChecksumChain_eq h]
  constructor
  · exact getD_inj (chain_ne_empty h xs) (chain_ne_empty h ys)
  · intro heq
    rw [heq]

/-- A digest without collisions. -/
def quoteDigest : Digest := ⟨id, fun text => String.ofList (Json.quote text)⟩

theorem quoteDigest_injective : Function.Injective quoteDigest.sha256 := by
  intro s t h
  have hdumps : Json.dumps (.str s) = Json.dumps (.str t) := by
    rw [Json.dumps, Json.dumps, Json.chars, Json.chars]
    exact h
  simpa using Json.dumps_injective hdumps

theorem quoteDigest_oneLine : OneLineDigest quoteDigest where
  ne_empty text h := by
    have hchars := congrArg String.toList h
    simp [quoteDigest, Json.quote] at hchars
  one_line text h := by
    have hprinted := PyJson.printed_quote (.ofString text)
    rw [PyJson.quote_ofString] at hprinted
    exact hprinted.ne (c := '\n') (by decide) (by simpa [quoteDigest] using h)

/-- A record without members. -/
def emptyRecord : Record := ⟨[], trivial, List.nodup_nil, trivial⟩

theorem computeChecksumChain_repeated : computeChecksumChain quoteDigest [emptyRecord] ≠
    computeChecksumChain quoteDigest [emptyRecord, emptyRecord] := by
  rw [ne_eq, computeChecksumChain_eq_iff quoteDigest_injective quoteDigest_oneLine]
  intro h
  have hlen := h.length_eq
  simp at hlen

end ParallaxKernel.Shadow
