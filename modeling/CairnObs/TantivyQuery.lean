import CairnObs.EscapedQuote

/-! The query strings of Tantivy, as far as words, quoted phrases and the two operators go:
how a string is cut into tokens, and which messages the tokens ask for. -/
namespace TantivyQuery

def isBlank (c : Char) : Bool := c == ' ' || c == '\t' || c == '\n' || c == '\r'

def isAlphanumeric (c : Char) : Bool :=
  decide ('a' ≤ c ∧ c ≤ 'z') || decide ('A' ≤ c ∧ c ≤ 'Z') || decide ('0' ≤ c ∧ c ≤ '9')

/-- The characters of a bare word. Which others than letters and digits there are is left
open. -/
structure WordChars where
  isWord : Char → Bool
  alphanumeric : ∀ c, isAlphanumeric c = true → isWord c = true
  blank : ∀ c, isBlank c = true → isWord c = false
  quote : isWord '"' = false

variable {c : Char} {w : List Char}

theorem isAlphanumeric_eq_false (h : isBlank c = true ∨ c = '"') : isAlphanumeric c = false := by
  have hcases : c = ' ' ∨ c = '\t' ∨ c = '\n' ∨ c = '\r' ∨ c = '"' := by
    simpa [isBlank, or_assoc] using h
  rcases hcases with rfl | rfl | rfl | rfl | rfl <;> decide

/-- Every character but blanks and quotes. -/
def WordChars.plain : WordChars where
  isWord c := !isBlank c && c != '"'
  alphanumeric c hc := by
    by_contra h
    have hnot : isBlank c = true ∨ c = '"' := by
      by_cases hb : isBlank c = true
      · exact .inl hb
      · simpa [hb] using h
    rw [isAlphanumeric_eq_false hnot] at hc
    cases hc
  blank c hc := by simp [hc]
  quote := by decide

inductive Token
  | and
  | or
  | word (w : List Char)
  | phrase (s : List Char)
  | special (c : Char)
  deriving DecidableEq, Repr

/-- The operators are words in capitals. -/
def wordToken (w : List Char) : Token :=
  if w = ['A', 'N', 'D'] then .and else if w = ['O', 'R'] then .or else .word w

/-- Where the scanner is: between tokens, in a word, in a phrase, or behind a backslash in a
phrase. -/
inductive Place
  | between
  | word (acc : List Char)
  | phrase (acc : List Char)
  | escape (acc : List Char)
  deriving DecidableEq, Repr

variable (W : WordChars)

/-- Between tokens: the token that `c` is alone, if it is one, and the place behind it. -/
def start (c : Char) : List Token × Place :=
  if isBlank c then ([], .between)
  else if c = '"' then ([], .phrase [])
  else if W.isWord c then ([], .word [c])
  else ([.special c], .between)

def advance (p : Place) (c : Char) : List Token × Place :=
  match p with
  | .between => start W c
  | .word acc =>
    if W.isWord c then ([], .word (acc ++ [c]))
    else (wordToken acc :: (start W c).1, (start W c).2)
  | .phrase acc =>
    if c = '"' then ([.phrase acc], .between)
    else if c = '\\' then ([], .escape acc)
    else ([], .phrase (acc ++ [c]))
  | .escape acc => ([], .phrase (acc ++ [c]))

/-- The tokens from a place on; `none` for a phrase without an end. -/
def lexFrom : Place → List Char → Option (List Token)
  | .between, [] => some []
  | .word acc, [] => some [wordToken acc]
  | .phrase _, [] | .escape _, [] => none
  | p, c :: cs => (lexFrom (advance W p c).2 cs).map ((advance W p c).1 ++ ·)

def lex (cs : List Char) : Option (List Token) := lexFrom W .between cs

@[simp] theorem lexFrom_cons (p : Place) (c : Char) (cs : List Char) :
    lexFrom W p (c :: cs) = (lexFrom W (advance W p c).2 cs).map ((advance W p c).1 ++ ·) := by
  cases p <;> rfl

variable {W} in
theorem lexFrom_silent {p p' : Place} (h : advance W p c = ([], p')) (cs : List Char) :
    lexFrom W p (c :: cs) = lexFrom W p' cs := by
  rw [lexFrom_cons, h]
  cases lexFrom W p' cs <;> rfl

/-! ### Pieces in front of a rest -/

/-- Nothing follows, or a blank. -/
def EndsPiece (rest : List Char) : Prop := ∀ c ∈ rest.head?, isBlank c = true

/-- The piece is one token, whatever follows behind a blank. -/
def ReadsAs (piece : List Char) (t : Token) : Prop :=
  ∀ rest, EndsPiece rest → lex W (piece ++ rest) = (lex W rest).map (t :: ·)

variable {W}

theorem lexFrom_word (hw : ∀ c ∈ w, W.isWord c = true) (acc : List Char) {rest : List Char}
    (hrest : EndsPiece rest) :
    lexFrom W (.word acc) (w ++ rest) = (lex W rest).map (wordToken (acc ++ w) :: ·) := by
  induction w generalizing acc with
  | nil =>
    cases rest with
    | nil => simp [lexFrom, lex]
    | cons c rest =>
      have hc : isBlank c = true := hrest c rfl
      have hword : W.isWord c = false := W.blank c hc
      simp [lex, advance, start, hc, hword]
  | cons c w ih =>
    have hc : W.isWord c = true := hw c List.mem_cons_self
    have hnext : advance W (.word acc) c = ([], .word (acc ++ [c])) := by simp [advance, hc]
    rw [List.cons_append, lexFrom_silent hnext,
      ih (fun d hd => hw d (List.mem_cons_of_mem _ hd)), List.append_assoc, List.singleton_append]

theorem isBlank_eq_false_of_isWord (h : W.isWord c = true) : isBlank c = false := by
  by_contra hc
  rw [Bool.not_eq_false] at hc
  rw [W.blank c hc] at h
  cases h

theorem ne_quote_of_isWord (h : W.isWord c = true) : c ≠ '"' := by
  rintro rfl
  rw [W.quote] at h
  cases h

theorem reads_word (hne : w ≠ []) (hw : ∀ c ∈ w, W.isWord c = true) :
    ReadsAs W w (wordToken w) := by
  intro rest hrest
  obtain ⟨c, w, rfl⟩ := List.exists_cons_of_ne_nil hne
  have hc : W.isWord c = true := hw c List.mem_cons_self
  have hnext : advance W .between c = ([], .word [c]) := by
    simp [advance, start, isBlank_eq_false_of_isWord hc, ne_quote_of_isWord hc, hc]
  rw [lex, List.cons_append, lexFrom_silent hnext,
    lexFrom_word (fun d hd => hw d (List.mem_cons_of_mem _ hd)) [c] hrest, List.singleton_append]

theorem reads_and : ReadsAs W ['A', 'N', 'D'] .and := by
  apply reads_word (w := ['A', 'N', 'D']) (by decide)
  rw [← List.all_eq_true]
  simp only [List.all_cons, List.all_nil, Bool.and_true]
  rw [W.alphanumeric 'A' (by decide), W.alphanumeric 'N' (by decide),
    W.alphanumeric 'D' (by decide)]
  rfl

theorem reads_or : ReadsAs W ['O', 'R'] .or := by
  apply reads_word (w := ['O', 'R']) (by decide)
  rw [← List.all_eq_true]
  simp only [List.all_cons, List.all_nil, Bool.and_true]
  rw [W.alphanumeric 'O' (by decide), W.alphanumeric 'R' (by decide)]
  rfl

/-- What stands behind an opening quote: the content of the phrase and the rest. -/
def phraseTail : List Char → Option (List Char × List Char)
  | [] => none
  | [c] => if c = '"' then some ([], []) else none
  | c :: d :: rest =>
    if c = '"' then some ([], d :: rest)
    else if c = '\\' then (phraseTail rest).map (fun x => (d :: x.1, x.2))
    else (phraseTail (d :: rest)).map (fun x => (c :: x.1, x.2))

@[simp] theorem phraseTail_quote (rest : List Char) :
    phraseTail ('"' :: rest) = some ([], rest) := by
  cases rest <;> rfl

@[simp] theorem phraseTail_escape (c : Char) (rest : List Char) :
    phraseTail ('\\' :: c :: rest) = (phraseTail rest).map (fun x => (c :: x.1, x.2)) := by
  simp [phraseTail]

theorem phraseTail_plain (hq : c ≠ '"') (he : c ≠ '\\') (rest : List Char) :
    phraseTail (c :: rest) = (phraseTail rest).map (fun x => (c :: x.1, x.2)) := by
  cases rest <;> simp [phraseTail, hq, he]

theorem lexFrom_phrase (acc cs : List Char) :
    lexFrom W (.phrase acc) cs =
      (phraseTail cs).bind (fun x => (lex W x.2).map (.phrase (acc ++ x.1) :: ·)) := by
  induction cs using phraseTail.induct generalizing acc with
  | case1 => rfl
  | case2 => simp [advance, lex]
  | case3 c hq => by_cases he : c = '\\' <;> simp [phraseTail, advance, lexFrom, hq, he]
  | case4 d rest => simp [advance, lex, Function.comp_def]
  | case5 d rest hq ih =>
    simp [advance, ih, Option.bind_map]
  | case6 c d rest hq he ih =>
    have hnext : advance W (.phrase acc) c = ([], .phrase (acc ++ [c])) := by
      simp [advance, hq, he]
    rw [lexFrom_silent hnext, ih, phraseTail_plain hq he, Option.bind_map]
    simp

theorem lex_quote (cs : List Char) :
    lex W ('"' :: cs) = (phraseTail cs).bind (fun x => (lex W x.2).map (.phrase x.1 :: ·)) := by
  have hnext : advance W .between '"' = ([], .phrase []) := by simp [advance, start, isBlank]
  rw [lex, lexFrom_silent hnext, lexFrom_phrase]
  rfl

/-- A phrase with its quotes and backslashes escaped is read as it was. -/
theorem phraseTail_escaped (text rest : List Char) :
    phraseTail (EscapedQuote.escape '"' '\\' text ++ '"' :: rest) = some (text, rest) := by
  have hscan := @EscapedQuote.scan_escape Char _ _ '"' '\\' phraseTail (fun rest => some ([], rest))
    (fun c => Option.map (fun x => (c :: x.1, x.2))) rest (phraseTail_quote rest)
    (phraseTail_escape '"') (phraseTail_escape '\\')
    (fun c rest hq he => phraseTail_plain hq he rest) text
  rw [hscan]
  clear hscan
  induction text with
  | nil => rfl
  | cons c text ih => rw [List.foldr_cons, ih, Option.map_some]

/-! ### Words among the tokens -/

/-- What `wordToken` makes a word of. -/
def IsBareWord (W : WordChars) (w : List Char) : Prop :=
  w ≠ [] ∧ w.all W.isWord = true ∧ w ≠ ['A', 'N', 'D'] ∧ w ≠ ['O', 'R']

instance (W : WordChars) (w : List Char) : Decidable (IsBareWord W w) :=
  inferInstanceAs (Decidable (w ≠ [] ∧ w.all W.isWord = true ∧ w ≠ ['A', 'N', 'D'] ∧
    w ≠ ['O', 'R']))

theorem IsBareWord.token (h : IsBareWord W w) : wordToken w = .word w := by
  rw [wordToken, if_neg h.2.2.1, if_neg h.2.2.2]

theorem IsBareWord.readsAs (h : IsBareWord W w) : ReadsAs W w (.word w) := by
  rw [← h.token]
  exact reads_word h.1 (List.all_eq_true.mp h.2.1)

theorem isBareWord_of_wordToken {v : List Char} (hne : v ≠ []) (hv : ∀ c ∈ v, W.isWord c = true)
    (h : Token.word w = wordToken v) : IsBareWord W w := by
  unfold wordToken at h
  split at h
  · cases h
  · rename_i hand
    split at h
    · cases h
    · rename_i hor
      cases h
      exact ⟨hne, List.all_eq_true.mpr hv, hand, hor⟩

/-- A place whose pending word has word characters only. -/
def Place.Good (W : WordChars) : Place → Prop
  | .word acc => acc ≠ [] ∧ ∀ c ∈ acc, W.isWord c = true
  | .between | .phrase _ | .escape _ => True

theorem start_good (c : Char) : (start W c).2.Good W ∧ ∀ w, Token.word w ∉ (start W c).1 := by
  unfold start
  split_ifs with hb hq hw
  · exact ⟨trivial, by simp⟩
  · exact ⟨trivial, by simp⟩
  · exact ⟨⟨by simp, by simpa using hw⟩, by simp⟩
  · exact ⟨trivial, by simp⟩

theorem advance_good {p : Place} (hp : p.Good W) (c : Char) :
    (advance W p c).2.Good W ∧ ∀ w, Token.word w ∈ (advance W p c).1 → IsBareWord W w := by
  cases p with
  | between => exact ⟨(start_good c).1, fun w hw => absurd hw ((start_good c).2 w)⟩
  | word acc =>
    simp only [advance]
    split
    · rename_i hc
      refine ⟨⟨by simp, ?_⟩, by simp⟩
      intro d hd
      rcases List.mem_append.mp hd with hd | hd
      · exact hp.2 d hd
      · rw [List.mem_singleton.mp hd]
        exact hc
    · refine ⟨(start_good c).1, fun w hw => ?_⟩
      rcases List.mem_cons.mp hw with hw | hw
      · exact isBareWord_of_wordToken hp.1 hp.2 hw
      · exact absurd hw ((start_good c).2 w)
  | phrase acc =>
    simp only [advance]
    split_ifs <;> exact ⟨trivial, by simp⟩
  | escape acc => exact ⟨trivial, by simp [advance]⟩

theorem isBareWord_of_lexFrom {p : Place} (hp : p.Good W) {cs : List Char} {ts : List Token}
    (h : lexFrom W p cs = some ts) (hw : Token.word w ∈ ts) : IsBareWord W w := by
  induction cs generalizing p ts with
  | nil =>
    cases p with
    | between =>
      cases h
      cases hw
    | word acc =>
      cases h
      exact isBareWord_of_wordToken hp.1 hp.2 (List.mem_singleton.mp hw)
    | phrase acc => cases h
    | escape acc => cases h
  | cons c cs ih =>
    rw [lexFrom_cons] at h
    obtain ⟨us, hus, rfl⟩ := Option.map_eq_some_iff.mp h
    obtain ⟨hnext, hhere⟩ := advance_good hp c
    rcases List.mem_append.mp hw with hw | hw
    · exact hhere w hw
    · exact ih hnext hus hw

/-! ### Joined pieces -/

theorem ends_nil : EndsPiece [] := by simp [EndsPiece]

theorem ends_blank (rest : List Char) : EndsPiece (' ' :: rest) := by
  intro c hc
  cases hc
  rfl

theorem lex_blank (cs : List Char) : lex W (' ' :: cs) = lex W cs := by
  have hnext : advance W .between ' ' = ([], .between) := by simp [advance, start, isBlank]
  rw [lex, lexFrom_silent hnext, lex]

theorem lex_joined_cons {piece : List Char} {t : Token} (h : ReadsAs W piece t)
    (pieces : List (List Char)) :
    lex W ([' '].intercalate (piece :: pieces)) =
      (lex W ([' '].intercalate pieces)).map (t :: ·) := by
  cases pieces with
  | nil => simpa using h [] ends_nil
  | cons p ps =>
    rw [List.intercalate_cons_cons, List.append_assoc, List.singleton_append, h _ (ends_blank _),
      lex_blank]

/-- Pieces that are one token each, joined by blanks, give the tokens back. -/
theorem lex_joined {α : Type*} {piece : α → List Char} {token : α → Token} {xs : List α}
    (h : ∀ x ∈ xs, ReadsAs W (piece x) (token x)) :
    lex W ([' '].intercalate (xs.map piece)) = some (xs.map token) := by
  induction xs with
  | nil => rfl
  | cons x xs ih =>
    rw [List.map_cons, lex_joined_cons (h x List.mem_cons_self),
      ih (fun y hy => h y (List.mem_cons_of_mem _ hy))]
    rfl

/-- And only such pieces do, if a piece that gives its token in front of some rest does so in
front of every rest. -/
theorem reads_of_lex_joined {α : Type*} {piece : α → List Char} {token : α → Token} {xs : List α}
    (hone : ∀ x ∈ xs, ∀ rest ts, EndsPiece rest → lex W (piece x ++ rest) = some (token x :: ts) →
      ReadsAs W (piece x) (token x))
    (h : lex W ([' '].intercalate (xs.map piece)) = some (xs.map token)) :
    ∀ x ∈ xs, ReadsAs W (piece x) (token x) := by
  induction xs with
  | nil => simp
  | cons x xs ih =>
    have hx : ReadsAs W (piece x) (token x) := by
      cases xs with
      | nil => exact hone x List.mem_cons_self [] [] ends_nil (by simpa using h)
      | cons y ys =>
        rw [List.map_cons, List.map_cons, List.intercalate_cons_cons, List.append_assoc] at h
        exact hone x List.mem_cons_self _ _ (ends_blank _) h
    have hxs : lex W ([' '].intercalate (xs.map piece)) = some (xs.map token) := by
      rw [List.map_cons, lex_joined_cons hx] at h
      obtain ⟨us, hus, heq⟩ := Option.map_eq_some_iff.mp h
      rw [hus, (List.cons.inj heq).2]
    intro y hy
    rcases List.mem_cons.mp hy with rfl | hy
    · exact hx
    · exact ih (fun z hz => hone z (List.mem_cons_of_mem _ hz)) hxs y hy

/-! ### What the tokens ask for -/

def Token.isClause : Token → Bool
  | .word _ | .phrase _ => true
  | .and | .or | .special _ => false

/-- The alternatives of a query whose last alternative so far is `current`. `AND` adds to it;
`OR`, and the lack of an operator, begin the next one. -/
def alternativesFrom (current : List Token) : List Token → Option (List (List Token))
  | [] => some [current]
  | [t] => if t.isClause then some [current, [t]] else none
  | t :: u :: ts =>
    if t = .and then if u.isClause then alternativesFrom (current ++ [u]) ts else none
    else if t = .or then if u.isClause then (alternativesFrom [u] ts).map (current :: ·) else none
    else if t.isClause then (alternativesFrom [t] (u :: ts)).map (current :: ·) else none

def alternatives : List Token → Option (List (List Token))
  | [] => none
  | t :: ts => if t.isClause then alternativesFrom [t] ts else none

/-- A message is a list of words; a phrase asks for its words one after the other. -/
def Token.Hits (message : List (List Char)) : Token → Prop
  | .word w => w ∈ message
  | .phrase s => (s.splitOnP isBlank).filter (· ≠ []) <:+: message
  | .and | .or | .special _ => False

variable (W) in
/-- The string is a query, and one of its alternatives has all its clauses in the message. -/
def Matches (query : List Char) (message : List (List Char)) : Prop :=
  ∃ ts alts, lex W query = some ts ∧ alternatives ts = some alts ∧
    ∃ a ∈ alts, ∀ t ∈ a, t.Hits message

theorem alternativesFrom_and {u : Token} (hu : u.isClause = true) (current ts : List Token) :
    alternativesFrom current (.and :: u :: ts) = alternativesFrom (current ++ [u]) ts := by
  simp [alternativesFrom, hu]

theorem alternativesFrom_or {u : Token} (hu : u.isClause = true) (current ts : List Token) :
    alternativesFrom current (.or :: u :: ts) =
      (alternativesFrom [u] ts).map (current :: ·) := by
  simp [alternativesFrom, hu]

/-- Two clauses side by side are alternatives. -/
theorem alternativesFrom_clause {t : Token} (ht : t.isClause = true) (current ts : List Token) :
    alternativesFrom current (t :: ts) = (alternativesFrom [t] ts).map (current :: ·) := by
  have hand : t ≠ .and := by
    rintro rfl
    cases ht
  have hor : t ≠ .or := by
    rintro rfl
    cases ht
  cases ts with
  | nil => simp [alternativesFrom, ht]
  | cons u us => simp [alternativesFrom, ht, hand, hor]

end TantivyQuery
