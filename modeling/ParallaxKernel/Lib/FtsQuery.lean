import Mathlib.Data.List.TakeWhile
import Mathlib.Tactic.Common

/-!
# Queries of a full-text index

The expressions of FTS5 as far as column filters go: strings, each looked for in one column, joined
by `AND`, and lists of alternatives in parentheses, joined by `OR`. Every token is read; an
expression that uses another operator is not parsed. The engine
takes an expression for a C string, so it reads up to the first `NUL`: a rendered query is read back
if no string in it has one, and breaks off inside the string if one does.
-/

namespace ParallaxKernel.Lib.Fts

/-! ## Expressions -/

inductive Token where
  | word (cs : List Char)
  | text (cs : List Char)
  | symbol (c : Char)
  deriving DecidableEq

inductive SyntaxError where
  | unterminated
  | unexpected
  deriving DecidableEq

/-- Where the lexer stands: after the characters of a bareword, which may be none, or inside a
string. -/
inductive Mode where
  | plain (word : List Char)
  | quoted (text : List Char)

def isBareword (c : Char) : Bool := c.isAlphanum || c == '_' || c.toNat == 26 || 128 ≤ c.toNat

def isSpace (c : Char) : Bool := c == ' ' || c == '\t' || c == '\n' || c == '\r'

def isPunctuation (c : Char) : Bool :=
  ['(', ')', '{', '}', ':', ',', '+', '*', '-', '^'].contains c

/-- The bareword that ends here. -/
def flush (word : List Char) : List Token := if word = [] then [] else [.word word]

def lex : Mode → List Char → Except SyntaxError (List Token)
  | .plain word, [] => .ok (flush word)
  | .plain word, c :: cs =>
    if isBareword c then lex (.plain (word ++ [c])) cs
    else if c = '"' then (lex (.quoted []) cs).map (flush word ++ ·)
    else if isSpace c then (lex (.plain []) cs).map (flush word ++ ·)
    else if isPunctuation c then (lex (.plain []) cs).map (flush word ++ .symbol c :: ·)
    else .error .unexpected
  | .quoted _, [] => .error .unterminated
  | .quoted text, '"' :: '"' :: cs => lex (.quoted (text ++ ['"'])) cs
  | .quoted text, c :: cs =>
    if c = '"' then (lex (.plain []) cs).map (.text text :: ·)
    else lex (.quoted (text ++ [c])) cs

/-- A string that is looked for in a column. -/
structure Term where
  column : List Char
  text : List Char
  deriving DecidableEq

def parseTokens : List Token → Except SyntaxError (List Term)
  | [.word column, .symbol ':', .text text] => .ok [⟨column, text⟩]
  | .word column :: .symbol ':' :: .text text :: .word ['A', 'N', 'D'] :: tokens =>
    (parseTokens tokens).map (⟨column, text⟩ :: ·)
  | _ => .error .unexpected

/-- The part of a text that a C string holds. -/
def cString (cs : List Char) : List Char := cs.takeWhile (· ≠ '\x00')

def parse (cs : List Char) : Except SyntaxError (List Term) :=
  (lex (.plain []) (cString cs)).bind parseTokens

/-! ## Rendered queries -/

/-- A quote inside a string is written twice. -/
def double (c : Char) : List Char := if c = '"' then ['"', '"'] else [c]

def quote (text : List Char) : List Char := '"' :: (text.flatMap double ++ ['"'])

def Term.render (t : Term) : List Char := t.column ++ ':' :: quote t.text

def conjunction : List Char := [' ', 'A', 'N', 'D', ' ']

def render : List Term → List Char
  | [] => []
  | [t] => t.render
  | t :: ts => t.render ++ conjunction ++ render ts

/-- A column that the lexer reads as one bareword. -/
def Term.Named (t : Term) : Prop := t.column ≠ [] ∧ ∀ c ∈ t.column, isBareword c = true

/-! ## Lexing -/

theorem lex_plain_nil (word : List Char) : lex (.plain word) [] = .ok (flush word) := rfl

theorem lex_plain_cons (word : List Char) (c : Char) (cs : List Char) :
    lex (.plain word) (c :: cs) =
      if isBareword c then lex (.plain (word ++ [c])) cs
      else if c = '"' then (lex (.quoted []) cs).map (flush word ++ ·)
      else if isSpace c then (lex (.plain []) cs).map (flush word ++ ·)
      else if isPunctuation c then (lex (.plain []) cs).map (flush word ++ .symbol c :: ·)
      else .error .unexpected := rfl

theorem lex_quoted_twice (text cs : List Char) :
    lex (.quoted text) ('"' :: '"' :: cs) = lex (.quoted (text ++ ['"'])) cs := rfl

theorem lex_word {word : List Char} (h : ∀ c ∈ word, isBareword c = true) (start cs : List Char) :
    lex (.plain start) (word ++ cs) = lex (.plain (start ++ word)) cs := by
  induction word generalizing start with
  | nil => simp
  | cons c word ih =>
    rw [List.cons_append, lex_plain_cons, if_pos (h c List.mem_cons_self),
      ih fun d hd => h d (List.mem_cons_of_mem c hd), List.append_assoc]
    rfl

theorem lex_quoted_cons {c : Char} (hc : c ≠ '"') (text cs : List Char) :
    lex (.quoted text) (c :: cs) = lex (.quoted (text ++ [c])) cs := by
  rw [lex, if_neg hc]
  rintro ds rfl
  exact absurd rfl hc

theorem lex_quoted_body (text body cs : List Char) :
    lex (.quoted text) (body.flatMap double ++ cs) = lex (.quoted (text ++ body)) cs := by
  induction body generalizing text with
  | nil => simp
  | cons c body ih =>
    rw [List.flatMap_cons, double]
    split_ifs with hc
    · subst hc
      rw [List.append_assoc, List.cons_append, List.cons_append, lex_quoted_twice, List.nil_append,
        ih, List.append_assoc]
      rfl
    · rw [List.append_assoc, List.singleton_append, lex_quoted_cons hc, ih, List.append_assoc]
      rfl

theorem lex_quoted_close (text : List Char) {cs : List Char} (hcs : cs.head? ≠ some '"') :
    lex (.quoted text) ('"' :: cs) = (lex (.plain []) cs).map (.text text :: ·) := by
  rw [lex, if_pos rfl]
  rintro ds - rfl
  exact hcs rfl

theorem lex_colon {word : List Char} (hword : word ≠ []) (cs : List Char) :
    lex (.plain word) (':' :: '"' :: cs) =
      (lex (.quoted []) cs).map fun tokens => .word word :: .symbol ':' :: tokens := by
  have hcolon : isBareword ':' = false := by decide
  have hquote : isBareword '"' = false := by decide
  simp only [lex_plain_cons, hcolon, hquote]
  cases lex (.quoted []) cs <;> simp [isSpace, isPunctuation, flush, hword, Except.map]

/-- The tokens of a term stand before those of what follows it. -/
theorem lex_term {t : Term} (ht : t.Named) {cs : List Char} (hcs : cs.head? ≠ some '"') :
    lex (.plain []) (t.render ++ cs) = (lex (.plain []) cs).map
      fun tokens => .word t.column :: .symbol ':' :: .text t.text :: tokens := by
  have hbody : (quote t.text ++ cs) = '"' :: (t.text.flatMap double ++ '"' :: cs) := by
    simp [quote]
  rw [Term.render, List.append_assoc, List.cons_append, hbody, lex_word ht.2, List.nil_append,
    lex_colon ht.1, lex_quoted_body, lex_quoted_close _ hcs, List.nil_append]
  cases lex (.plain []) cs <;> rfl

theorem lex_space (word cs : List Char) :
    lex (.plain word) (' ' :: cs) = (lex (.plain []) cs).map (flush word ++ ·) := by
  have hspace : isBareword ' ' = false := by decide
  simp [lex_plain_cons, hspace, isSpace]

theorem lex_conjunction (cs : List Char) : lex (.plain []) (conjunction ++ cs) =
    (lex (.plain []) cs).map (.word ['A', 'N', 'D'] :: ·) := by
  have hword : ∀ c ∈ ['A', 'N', 'D'], isBareword c = true := List.all_eq_true.1 rfl
  have hsplit : conjunction ++ cs = ' ' :: (['A', 'N', 'D'] ++ ' ' :: cs) := rfl
  rw [hsplit, lex_space, lex_word hword, List.nil_append, lex_space]
  cases lex (.plain []) cs <;> rfl

/-! ## Reading a rendered query -/

theorem cString_append {cs ds : List Char} (h : '\x00' ∉ cs) :
    cString (cs ++ ds) = cs ++ cString ds := by
  unfold cString
  rw [List.takeWhile_append_of_pos]
  intro c hc
  exact decide_eq_true fun hnul => h (hnul ▸ hc)

theorem cString_eq_self {cs : List Char} (h : '\x00' ∉ cs) : cString cs = cs := by
  have hcut : cString (cs ++ []) = cs ++ cString [] := cString_append h
  rwa [List.append_nil, show cString [] = [] from rfl, List.append_nil] at hcut

theorem cString_cons {c : Char} (hc : c ≠ '\x00') (cs : List Char) :
    cString (c :: cs) = c :: cString cs := by
  simp [cString, hc]

theorem cString_append_of_nul {cs : List Char} (h : '\x00' ∈ cs) (ds : List Char) :
    cString (cs ++ ds) = cString cs := by
  induction cs with
  | nil => cases h
  | cons c cs ih =>
    by_cases hc : c = '\x00'
    · simp [cString, hc]
    · have hlater : '\x00' ∈ cs := by simpa [Ne.symm hc] using h
      rw [List.cons_append, cString_cons hc, cString_cons hc, ih hlater]

theorem nul_not_mem_cString (cs : List Char) : '\x00' ∉ cString cs := by
  intro h
  simpa using List.mem_takeWhile_imp h

theorem nul_mem_body {text : List Char} : '\x00' ∈ text.flatMap double ↔ '\x00' ∈ text := by
  constructor
  · intro h
    obtain ⟨c, hc, hmem⟩ := List.mem_flatMap.1 h
    unfold double at hmem
    split_ifs at hmem
    · simp at hmem
    · rwa [List.mem_singleton.1 hmem]
  · intro h
    exact List.mem_flatMap.2 ⟨'\x00', h, by simp [double]⟩

theorem cString_body_of_nul {text : List Char} (h : '\x00' ∈ text) (cs : List Char) :
    cString (text.flatMap double ++ cs) = (cString text).flatMap double := by
  induction text with
  | nil => cases h
  | cons c text ih =>
    by_cases hc : c = '\x00'
    · subst hc
      rfl
    · have htext : '\x00' ∈ text := by simpa [Ne.symm hc] using h
      have hdouble : '\x00' ∉ double c := by
        unfold double
        split_ifs <;> simp [Ne.symm hc]
      rw [List.flatMap_cons, List.append_assoc, cString_append hdouble, ih htext]
      simp [cString, hc]

theorem nul_not_mem_column {t : Term} (ht : t.Named) : '\x00' ∉ t.column := by
  intro h
  exact absurd (ht.2 _ h) (by decide)

theorem cString_term {t : Term} (ht : t.Named) (hnul : '\x00' ∉ t.text) (cs : List Char) :
    cString (t.render ++ cs) = t.render ++ cString cs := by
  have hbody : '\x00' ∉ t.text.flatMap double := fun h => hnul (nul_mem_body.1 h)
  refine cString_append fun h => ?_
  simp only [Term.render, quote, List.mem_append, List.mem_cons, List.not_mem_nil, or_false] at h
  obtain h | h | h | h | h := h
  · exact nul_not_mem_column ht h
  · exact absurd h (by decide)
  · exact absurd h (by decide)
  · exact hbody h
  · exact absurd h (by decide)

/-- A `NUL` in its string breaks a term off before the closing quote. -/
theorem lex_cString_of_nul {t : Term} (ht : t.Named) (hnul : '\x00' ∈ t.text) (cs : List Char) :
    lex (.plain []) (cString (t.render ++ cs)) = .error .unterminated := by
  have hsplit : t.render ++ cs = (t.column ++ [':', '"']) ++
      (t.text.flatMap double ++ ('"' :: cs)) := by simp [Term.render, quote]
  have hclean : '\x00' ∉ t.column ++ [':', '"'] := by simp [nul_not_mem_column ht]
  have hbody := lex_quoted_body [] (cString t.text) []
  rw [List.append_nil] at hbody
  rw [hsplit, cString_append hclean, cString_body_of_nul hnul, List.append_assoc, lex_word ht.2,
    List.nil_append, List.cons_append, List.cons_append, List.nil_append, lex_colon ht.1, hbody]
  rfl

def tokens : List Term → List Token
  | [] => []
  | [t] => [.word t.column, .symbol ':', .text t.text]
  | t :: ts => .word t.column :: .symbol ':' :: .text t.text :: .word ['A', 'N', 'D'] :: tokens ts

theorem lex_render {ts : List Term} (hnamed : ∀ t ∈ ts, t.Named)
    (hnul : ∀ t ∈ ts, '\x00' ∉ t.text) :
    lex (.plain []) (cString (render ts)) = .ok (tokens ts) := by
  induction ts with
  | nil => rfl
  | cons t ts ih =>
    have ht := hnamed t List.mem_cons_self
    have hclean := hnul t List.mem_cons_self
    cases ts with
    | nil =>
      have hcut := cString_term ht hclean []
      have hnil : ([] : List Char).head? ≠ some '"' := by simp
      have hlex := lex_term ht hnil
      rw [List.append_nil] at hcut
      rw [render, hcut]
      exact hlex
    | cons u us =>
      have hrest := ih (fun v hv => hnamed v (List.mem_cons_of_mem t hv))
        fun v hv => hnul v (List.mem_cons_of_mem t hv)
      rw [render, List.append_assoc, cString_term ht hclean, cString_append (by decide),
        lex_term ht (by simp [conjunction]), lex_conjunction, hrest]
      · rfl
      · simp

theorem parseTokens_tokens {ts : List Term} (hne : ts ≠ []) :
    parseTokens (tokens ts) = .ok ts := by
  induction ts with
  | nil => exact absurd rfl hne
  | cons t ts ih =>
    cases ts with
    | nil => rfl
    | cons u us =>
      rw [tokens, parseTokens, ih (by simp)]
      · rfl
      · simp

/-- A query of strings without `NUL` is read back. -/
theorem parse_render {ts : List Term} (hne : ts ≠ []) (hnamed : ∀ t ∈ ts, t.Named)
    (hnul : ∀ t ∈ ts, '\x00' ∉ t.text) : parse (render ts) = .ok ts := by
  rw [parse, lex_render hnamed hnul]
  exact parseTokens_tokens hne

/-- A query with a `NUL` in one of its strings is not. -/
theorem parse_render_of_nul {ts : List Term} (hnamed : ∀ t ∈ ts, t.Named)
    (hnul : ∃ t ∈ ts, '\x00' ∈ t.text) : parse (render ts) = .error .unterminated := by
  have hlex : lex (.plain []) (cString (render ts)) = .error .unterminated := by
    induction ts with
    | nil =>
      obtain ⟨t, ht, -⟩ := hnul
      cases ht
    | cons t ts ih =>
      have ht := hnamed t List.mem_cons_self
      by_cases hclean : '\x00' ∈ t.text
      · cases ts with
        | nil => simpa [render] using lex_cString_of_nul ht hclean []
        | cons u us =>
          rw [render, List.append_assoc]
          · exact lex_cString_of_nul ht hclean _
          · simp
      · have hlater : ∃ v ∈ ts, '\x00' ∈ v.text := by
          obtain ⟨v, hv, hvnul⟩ := hnul
          obtain rfl | hv := List.mem_cons.1 hv
          · exact absurd hvnul hclean
          · exact ⟨v, hv, hvnul⟩
        have hrest := ih (fun v hv => hnamed v (List.mem_cons_of_mem t hv)) hlater
        cases ts with
        | nil =>
          obtain ⟨v, hv, -⟩ := hlater
          cases hv
        | cons u us =>
          rw [render, List.append_assoc, cString_term ht hclean, cString_append (by decide),
            lex_term ht (by simp [conjunction]), lex_conjunction, hrest]
          · rfl
          · simp
  rw [parse, hlex]
  rfl

/-! ## Alternatives -/

/-- Strings one of which is looked for in a column. -/
structure Clause where
  column : List Char
  texts : List (List Char)
  deriving DecidableEq

/-- The strings up to a closing parenthesis, with an `OR` between them. -/
def parseAlternatives : List Token → Except SyntaxError (List (List Char) × List Token)
  | .text t :: .symbol ')' :: tokens => .ok ([t], tokens)
  | .text t :: .word ['O', 'R'] :: tokens =>
    (parseAlternatives tokens).map fun r => (t :: r.1, r.2)
  | _ => .error .unexpected

def parseClause : List Token → Except SyntaxError (Clause × List Token)
  | .word column :: .symbol ':' :: .text t :: tokens => .ok (⟨column, [t]⟩, tokens)
  | .word column :: .symbol ':' :: .symbol '(' :: tokens =>
    (parseAlternatives tokens).map fun r => (⟨column, r.1⟩, r.2)
  | _ => .error .unexpected

/-- Clauses with an `AND` between them. -/
def parseClauses : Nat → List Token → Except SyntaxError (List Clause)
  | 0, _ => .error .unexpected
  | fuel + 1, tokens =>
    match parseClause tokens with
    | .error e => .error e
    | .ok (clause, []) => .ok [clause]
    | .ok (clause, .word ['A', 'N', 'D'] :: rest) => (parseClauses fuel rest).map (clause :: ·)
    | .ok _ => .error .unexpected

def parseQuery (cs : List Char) : Except SyntaxError (List Clause) :=
  (lex (.plain []) (cString cs)).bind fun tokens => parseClauses tokens.length tokens

def disjunction : List Char := [' ', 'O', 'R', ' ']

def alternatives : List (List Char) → List Char
  | [] => []
  | [t] => quote t
  | t :: ts => quote t ++ disjunction ++ alternatives ts

def group : List (List Char) → List Char
  | [t] => quote t
  | ts => '(' :: (alternatives ts ++ [')'])

def Clause.render (c : Clause) : List Char := c.column ++ ':' :: group c.texts

def renderQuery : List Clause → List Char
  | [] => []
  | [c] => c.render
  | c :: cs => c.render ++ conjunction ++ renderQuery cs

/-- A clause of a column that is one bareword and of strings that a C string holds. -/
structure Clause.Plain (c : Clause) : Prop where
  named : c.column ≠ [] ∧ ∀ d ∈ c.column, isBareword d = true
  texts : c.texts ≠ []
  noNul : ∀ t ∈ c.texts, '\x00' ∉ t

def alternativeTokens : List (List Char) → List Token
  | [] => []
  | [t] => [.text t]
  | t :: ts => .text t :: .word ['O', 'R'] :: alternativeTokens ts

def groupTokens : List (List Char) → List Token
  | [t] => [.text t]
  | ts => .symbol '(' :: (alternativeTokens ts ++ [.symbol ')'])

def Clause.tokens (c : Clause) : List Token := .word c.column :: .symbol ':' :: groupTokens c.texts

def queryTokens : List Clause → List Token
  | [] => []
  | [c] => c.tokens
  | c :: cs => c.tokens ++ .word ['A', 'N', 'D'] :: queryTokens cs

theorem lex_quote (t : List Char) {cs : List Char} (hcs : cs.head? ≠ some '"') :
    lex (.plain []) (quote t ++ cs) = (lex (.plain []) cs).map (.text t :: ·) := by
  have hquote : isBareword '"' = false := by decide
  have hbody : quote t ++ cs = '"' :: (t.flatMap double ++ '"' :: cs) := by simp [quote]
  rw [hbody, lex_plain_cons, hquote, if_neg (by decide), if_pos rfl, lex_quoted_body, lex_quoted_close _ hcs,
    List.nil_append]
  cases lex (.plain []) cs <;> rfl

theorem lex_punctuation {c : Char} (hword : isBareword c = false) (hc : c ≠ '"')
    (hspace : isSpace c = false) (hpunct : isPunctuation c = true) (word cs : List Char) :
    lex (.plain word) (c :: cs) = (lex (.plain []) cs).map (flush word ++ .symbol c :: ·) := by
  simp [lex_plain_cons, hword, hc, hspace, hpunct]

theorem lex_disjunction (cs : List Char) : lex (.plain []) (disjunction ++ cs) =
    (lex (.plain []) cs).map (.word ['O', 'R'] :: ·) := by
  have hword : ∀ c ∈ ['O', 'R'], isBareword c = true := List.all_eq_true.1 rfl
  have hsplit : disjunction ++ cs = ' ' :: (['O', 'R'] ++ ' ' :: cs) := rfl
  rw [hsplit, lex_space, lex_word hword, List.nil_append, lex_space]
  cases lex (.plain []) cs <;> rfl

theorem lex_alternatives {ts : List (List Char)} (hts : ts ≠ []) {cs : List Char}
    (hcs : cs.head? ≠ some '"') : lex (.plain []) (alternatives ts ++ cs) =
      (lex (.plain []) cs).map (alternativeTokens ts ++ ·) := by
  induction ts with
  | nil => exact absurd rfl hts
  | cons t ts ih =>
    cases ts with
    | nil =>
      rw [alternatives, lex_quote t hcs]
      rfl
    | cons u us =>
      rw [alternatives, List.append_assoc, List.append_assoc, lex_quote t (by simp [disjunction]),
        lex_disjunction, ih (by simp)]
      · cases lex (.plain []) cs <;> rfl
      · simp

theorem lex_group {ts : List (List Char)} (hts : ts ≠ []) {cs : List Char}
    (hcs : cs.head? ≠ some '"') : lex (.plain []) (group ts ++ cs) =
      (lex (.plain []) cs).map (groupTokens ts ++ ·) := by
  unfold group groupTokens
  split
  · exact lex_quote _ hcs
  · rw [List.cons_append, List.append_assoc, lex_punctuation (by decide) (by decide) (by decide)
      (by decide), lex_alternatives hts (by simp), List.singleton_append,
      lex_punctuation (by decide) (by decide) (by decide) (by decide)]
    cases lex (.plain []) cs <;> simp [Except.map, flush]

/-- The tokens of a clause stand before those of what follows it. -/
theorem lex_clause {c : Clause} (h : c.Plain) {cs : List Char} (hcs : cs.head? ≠ some '"') :
    lex (.plain []) (c.render ++ cs) = (lex (.plain []) cs).map (c.tokens ++ ·) := by
  rw [Clause.render, List.append_assoc, List.cons_append, lex_word h.named.2, List.nil_append,
    lex_punctuation (by decide) (by decide) (by decide) (by decide), lex_group h.texts hcs]
  cases lex (.plain []) cs <;> simp [Except.map, flush, h.named.1, Clause.tokens]

theorem nul_not_mem_quote {t : List Char} (h : '\x00' ∉ t) : '\x00' ∉ quote t := by
  intro hmem
  simp only [quote, List.mem_cons, List.mem_append, List.not_mem_nil, or_false] at hmem
  obtain hmem | hmem | hmem := hmem
  · exact absurd hmem (by decide)
  · exact h (nul_mem_body.1 hmem)
  · exact absurd hmem (by decide)

theorem nul_not_mem_alternatives {ts : List (List Char)} (h : ∀ t ∈ ts, '\x00' ∉ t) :
    '\x00' ∉ alternatives ts := by
  induction ts with
  | nil => simp [alternatives]
  | cons t ts ih =>
    have ht := nul_not_mem_quote (h t List.mem_cons_self)
    have hts := ih fun u hu => h u (List.mem_cons_of_mem t hu)
    cases ts with
    | nil => simpa [alternatives] using ht
    | cons u us =>
      rw [alternatives]
      · simp only [List.mem_append, not_or]
        exact ⟨⟨ht, by decide⟩, hts⟩
      · simp

theorem cString_clause {c : Clause} (h : c.Plain) (cs : List Char) :
    cString (c.render ++ cs) = c.render ++ cString cs := by
  have hcolumn : '\x00' ∉ c.column := fun hmem => absurd (h.named.2 _ hmem) (by decide)
  have hgroup : '\x00' ∉ group c.texts := by
    unfold group
    split
    case h_1 t heq => exact nul_not_mem_quote (h.noNul t (by simp [heq]))
    case h_2 => simp [nul_not_mem_alternatives h.noNul]
  refine cString_append ?_
  simp [Clause.render, hcolumn, hgroup]

theorem lex_renderQuery {cs : List Clause} (h : ∀ c ∈ cs, c.Plain) :
    lex (.plain []) (cString (renderQuery cs)) = .ok (queryTokens cs) := by
  induction cs with
  | nil => rfl
  | cons c cs ih =>
    have hc := h c List.mem_cons_self
    cases cs with
    | nil =>
      have hcut := cString_clause hc []
      have hlex : lex (.plain []) (c.render ++ []) = (lex (.plain []) []).map (c.tokens ++ ·) :=
        lex_clause hc (by simp)
      rw [List.append_nil] at hcut
      rw [renderQuery, hcut, show cString [] = [] from rfl, hlex]
      simp [lex_plain_nil, flush, Except.map, queryTokens]
    | cons d ds =>
      have hrest := ih fun e he => h e (List.mem_cons_of_mem c he)
      rw [renderQuery, List.append_assoc, cString_clause hc, cString_append (by decide),
        lex_clause hc (by simp [conjunction]), lex_conjunction, hrest]
      · rfl
      · simp

theorem parseAlternatives_tokens {ts : List (List Char)} (hts : ts ≠ []) (rest : List Token) :
    parseAlternatives (alternativeTokens ts ++ .symbol ')' :: rest) = .ok (ts, rest) := by
  induction ts with
  | nil => exact absurd rfl hts
  | cons t ts ih =>
    cases ts with
    | nil => rfl
    | cons u us =>
      rw [alternativeTokens, List.cons_append, List.cons_append, parseAlternatives, ih (by simp)]
      · rfl
      · simp

theorem parseClause_tokens {c : Clause} (h : c.texts ≠ []) (rest : List Token) :
    parseClause (c.tokens ++ rest) = .ok (c, rest) := by
  obtain ⟨column, texts⟩ := c
  unfold Clause.tokens groupTokens
  split
  case h_1 t heq =>
    obtain rfl : texts = [t] := heq
    rfl
  case h_2 =>
    simp only [List.cons_append, List.append_assoc, List.nil_append, parseClause,
      parseAlternatives_tokens h]
    rfl

theorem parseClauses_tokens {cs : List Clause} (hne : cs ≠ []) (h : ∀ c ∈ cs, c.Plain) {fuel : Nat}
    (hfuel : cs.length ≤ fuel) : parseClauses fuel (queryTokens cs) = .ok cs := by
  induction cs generalizing fuel with
  | nil => exact absurd rfl hne
  | cons c cs ih =>
    obtain _ | fuel := fuel
    · simp at hfuel
    have hc := parseClause_tokens (h c List.mem_cons_self).texts
    cases cs with
    | nil =>
      have hone := hc []
      rw [List.append_nil] at hone
      simp only [queryTokens, parseClauses, hone]
    | cons d ds =>
      have hrest := ih (by simp) (fun e he => h e (List.mem_cons_of_mem c he))
        (Nat.le_of_succ_le_succ hfuel)
      rw [queryTokens]
      · simp only [parseClauses, hc, hrest]
        rfl
      · simp

theorem length_le_queryTokens (cs : List Clause) : cs.length ≤ (queryTokens cs).length := by
  induction cs with
  | nil => exact Nat.le_refl 0
  | cons c cs ih =>
    cases cs with
    | nil => simp [queryTokens, Clause.tokens]
    | cons d ds =>
      rw [queryTokens]
      · simp only [List.length_append, List.length_cons] at ih ⊢
        omega
      · simp

/-- A query of alternatives without `NUL` is read back. -/
theorem parseQuery_render {cs : List Clause} (hne : cs ≠ []) (h : ∀ c ∈ cs, c.Plain) :
    parseQuery (renderQuery cs) = .ok cs := by
  rw [parseQuery, lex_renderQuery h]
  exact parseClauses_tokens hne h (length_le_queryTokens cs)

/-- A query breaks off inside its first string where that has a `NUL`. -/
theorem parseQuery_of_nul {t : Term} (ht : t.Named) (hnul : '\x00' ∈ t.text) (cs : List Char) :
    parseQuery (t.render ++ cs) = .error .unterminated := by
  rw [parseQuery, lex_cString_of_nul ht hnul]
  rfl

end ParallaxKernel.Lib.Fts
