import CairnObs.SqlLexer

/-! Pieces of a statement that are read back as given tokens wherever a blank or a
bracket follows them, and the rules that put such pieces together. -/
namespace SqlLexer
open EscapedQuote TextSearch

/-- The characters that end every word, number and quoted text before them. -/
def stops : List Char := [' ', ',', ')', ']', '(', '[']

inductive Stop : List Char → Prop
  | nil : Stop []
  | cons {c : Char} (h : c ∈ stops) (rest : List Char) : Stop (c :: rest)

/-- In front of `rest` the piece `cs` is read as the tokens `ts`, if no dot comes before it. -/
def ReadsAs (cs : List Char) (ts : List (SqlToken String)) (rest : List Char) : Prop :=
  ∀ before ≠ .dot, ∃ after ≠ .dot, tokensFrom before (cs ++ rest) = ts ++ tokensFrom after rest

/-- The piece `cs` is read as the tokens `ts`. -/
def Lexes (cs : List Char) (ts : List (SqlToken String)) : Prop :=
  ∀ rest, Stop rest → ReadsAs cs ts rest

/-- A text that may stand behind any piece, and is read as `ts` whatever follows it. -/
structure Separates (cs : List Char) (ts : List (SqlToken String)) : Prop where
  stop : ∀ rest, Stop (cs ++ rest)
  reads : ∀ rest, ReadsAs cs ts rest

/-- A text, maybe empty, that may stand behind any piece. -/
structure Trails (cs : List Char) (ts : List (SqlToken String)) : Prop where
  stop : ∀ rest, Stop rest → Stop (cs ++ rest)
  reads : Lexes cs ts

theorem readsAs_nil (rest : List Char) : ReadsAs [] [] rest := fun before h => ⟨before, h, rfl⟩

variable {ts us : List (SqlToken String)} {cs ds rest : List Char} {c : Char}

theorem ReadsAs.append (h : ReadsAs cs ts (ds ++ rest)) (h' : ReadsAs ds us rest) :
    ReadsAs (cs ++ ds) (ts ++ us) rest := by
  intro before hbefore
  obtain ⟨mid, hmid, hcs⟩ := h before hbefore
  obtain ⟨after, hafter, hds⟩ := h' mid hmid
  exact ⟨after, hafter, by rw [List.append_assoc, hcs, hds, List.append_assoc]⟩

/-! ### The first token of a text -/

section First
variable {before : Before}

theorem tokens_of_nil (h : skipBlank cs = []) : tokensFrom before cs = [] := by
  rw [tokensFrom]
  split
  · rename_i c rest hc
    rw [h] at hc
    cases hc
  · rfl

theorem tokens_of_cons (h : skipBlank cs = c :: rest) :
    tokensFrom before cs = (scan before c rest).1 ::
      tokensFrom (scan before c rest).1.before (scan before c rest).2 := by
  rw [tokensFrom]
  split
  · rename_i c' rest' hc
    rw [h] at hc
    cases hc
    rfl
  · rename_i hc
    rw [h] at hc
    cases hc

theorem tokens_nil : tokensFrom before [] = [] := tokens_of_nil (by rw [skipBlank, splitBlank])

theorem skipBlank_space (cs : List Char) : skipBlank (' ' :: cs) = skipBlank cs := by
  rw [skipBlank, splitBlank]
  · rfl
  · simp
  · simp
  · simp
  · simp
  · simp

theorem tokens_space (cs : List Char) : tokensFrom before (' ' :: cs) = tokensFrom before cs := by
  have hskip := skipBlank_space cs
  cases h : skipBlank cs with
  | nil => rw [tokens_of_nil h, tokens_of_nil (hskip.trans h)]
  | cons c rest => rw [tokens_of_cons h, tokens_of_cons (hskip.trans h)]

/-- A character that is no white space and cannot start a comment. -/
def isInk (c : Char) : Bool := !isBlank c && c != '-' && c != '#' && c != '/'

theorem tokens_ink (h : isInk c = true) (cs : List Char) :
    tokensFrom before (c :: cs) = (scan before c cs).1 ::
      tokensFrom (scan before c cs).1.before (scan before c cs).2 := by
  simp only [isInk, Bool.and_eq_true, Bool.not_eq_true', bne_iff_ne] at h
  apply tokens_of_cons
  rw [skipBlank, splitBlank]
  · simp [h.1.1.1]
  · simp [h.1.1.2]
  · simp [h.1.2]
  · simp [h.1.2]
  · simp [h.2]
  · simp [h.2]

end First

/-- A piece that is one token. -/
theorem readsAs_token {token : SqlToken String} (hc : isInk c = true) (htoken : token.before ≠ .dot)
    (h : ∀ before ≠ .dot, scan before c (cs ++ rest) = (token, rest)) :
    ReadsAs (c :: cs) [token] rest := by
  intro before hbefore
  refine ⟨token.before, htoken, ?_⟩
  rw [List.cons_append, tokens_ink hc, h before hbefore]
  rfl

/-! ### Words -/

def isWordStart (c : Char) : Bool := isWordChar c && !c.isDigit

def isWord (w : String) : Bool :=
  match w.toList with
  | [] => false
  | c :: cs => isWordStart c && cs.all isWordChar

/-- What is true of the characters of words is not so of others. -/
theorem ne_of_isWordChar (hc : isWordChar c = true) (d : Char) (hd : isWordChar d = false) :
    c ≠ d := by
  rintro rfl
  rw [hd] at hc
  cases hc

theorem range_of_isWordChar (h : isWordChar c = true) : 48 ≤ c.toNat ∧ c.toNat ≤ 122 := by
  have hrange {a b : Char} (ha : 48 ≤ a.toNat) (hb : b.toNat ≤ 122) (hc : a ≤ c ∧ c ≤ b) :
      48 ≤ c.toNat ∧ c.toNat ≤ 122 := ⟨ha.trans hc.1, Nat.le_trans hc.2 hb⟩
  simp only [isWordChar, Bool.or_eq_true, beq_iff_eq, decide_eq_true_eq] at h
  rcases h with ((rfl | h) | h) | h
  · decide
  · exact hrange (by decide) (by decide) h
  · exact hrange (by decide) (by decide) h
  · exact hrange (by decide) (by decide) h

theorem isBlank_of_isWordChar (h : isWordChar c = true) : isBlank c = false := by
  have hrange := range_of_isWordChar h
  rw [isBlank, Bool.or_eq_false_iff, decide_eq_false_iff_not]
  constructor
  · rw [← Bool.not_eq_true, List.contains_iff_mem]
    intro hmem
    have hout : blanks.all (fun d => decide (¬ (48 ≤ d.toNat ∧ d.toNat ≤ 122))) = true := by decide
    exact of_decide_eq_true (List.all_eq_true.mp hout c hmem) hrange
  · intro hspaces
    have hfrom : 8192 ≤ c.toNat := hspaces.1
    omega

theorem isInk_of_isWordChar (h : isWordChar c = true) : isInk c = true := by
  have hne := ne_of_isWordChar h
  simp [isInk, isBlank_of_isWordChar h, hne '-' rfl, hne '#' rfl, hne '/' rfl]

theorem scan_word {before : Before} (h : isWordStart c = true) (cs : List Char) :
    scan before c cs = wordToken (c :: cs) := by
  obtain ⟨hword, hdigit⟩ := Bool.and_eq_true_iff.mp h
  have hne := ne_of_isWordChar hword
  simp [scan, hne '\'' rfl, hne '`' rfl, hne '"' rfl, hne '\u2018' rfl, hne '\u201c' rfl,
    hne '.' rfl, hne '$' rfl, Bool.not_eq_true' _ ▸ hdigit, hword]

/-- A run of characters ends at a stop. -/
theorem takeWhile_append_stop {p : Char → Bool} (hp : stops.all (fun c => !p c) = true)
    (hcs : ∀ c ∈ cs, p c = true) (h : Stop rest) :
    (cs ++ rest).takeWhile p = cs ∧ (cs ++ rest).dropWhile p = rest := by
  rw [List.takeWhile_append_of_pos hcs, List.dropWhile_append_of_pos hcs]
  cases h with
  | nil => exact ⟨List.append_nil cs, rfl⟩
  | cons hc rest =>
    have hno := List.all_eq_true.mp hp _ hc
    rw [Bool.not_eq_true'] at hno
    simp [hno]

theorem lexes_word {w : String} (h : isWord w = true) : Lexes w.toList [.word w] := by
  intro rest hrest
  unfold isWord at h
  cases hw : w.toList with
  | nil => simp [hw] at h
  | cons c cs =>
    rw [hw] at h
    simp only [Bool.and_eq_true, List.all_eq_true] at h
    obtain ⟨hc, hcs⟩ := h
    have hword := (Bool.and_eq_true_iff.mp hc).1
    have hall : ∀ d ∈ c :: cs, isNameChar d = true := by
      intro d hd
      rcases List.mem_cons.mp hd with rfl | hd
      · simp [isNameChar, hword]
      · simp [isNameChar, hcs d hd]
    obtain ⟨htake, hdrop⟩ := takeWhile_append_stop (by decide) hall hrest
    refine readsAs_token (isInk_of_isWordChar hword) (fun h => by cases h) (fun before _ => ?_)
    rw [scan_word hc, wordToken, ← List.cons_append, htake, hdrop, ← hw, String.ofList_toList]

/-! ### Quoted texts -/

theorem quoted_close {q : Char} (hq : q ≠ '\\') (hstop : q ∉ stops) (h : Stop rest) :
    quoted q (q :: rest) = some ([], rest) := by
  cases h with
  | nil => simp [quoted]
  | @cons d hd rest =>
    have hne : d ≠ q := fun he => hstop (he ▸ hd)
    simp [quoted, hq, hne]

theorem quoted_plain {q : Char} (hq : c ≠ q) (hc : c ≠ '\\') (rest : List Char) :
    quoted q (c :: rest) = (quoted q rest).map (fun x => (c :: x.1, x.2)) := by
  cases rest with
  | nil => simp [quoted, hq]
  | cons d rest => simp [quoted, hq, hc]

/-- The scanner undoes the escapes up to the closing quote. -/
theorem quoted_escape {q : Char} (hq : q ≠ '\\') (hself : unescape q = [q]) (hstop : q ∉ stops)
    (text : List Char) (h : Stop rest) :
    quoted q (escape q '\\' text ++ q :: rest) = some (text, rest) := by
  have hscan := @scan_escape _ _ _ q '\\' (quoted q) (fun rest => some ([], rest))
    (fun c x => x.map (fun x => (c :: x.1, x.2))) rest (quoted_close hq hstop h)
    (fun rest => by simp [quoted, hself]) (fun rest => by simp [quoted, unescape])
    (fun c rest hc he => quoted_plain hc he rest) text
  rw [hscan]
  clear hscan
  induction text with
  | nil => rfl
  | cons c cs ih => rw [List.foldr_cons, ih]; rfl

theorem lexes_literal (text : String) :
    Lexes ('\'' :: escape '\'' '\\' text.toList ++ ['\'']) [.literal text] := by
  intro rest hrest
  show ReadsAs ('\'' :: (escape '\'' '\\' text.toList ++ ['\''])) [.literal text] rest
  refine readsAs_token (by decide) nofun (fun before _ => ?_)
  have hquoted := quoted_escape (q := '\'') (by decide) rfl (by decide) text.toList hrest
  rw [scan, if_pos rfl, List.append_assoc, List.singleton_append, hquoted, quotedToken,
    String.ofList_toList]

/-- Identifiers are written without escapes, so they must not need any. -/
theorem lexes_ident (name : String) (h : ∀ c ∈ name.toList, c ≠ '`' ∧ c ≠ '\\') :
    Lexes ('`' :: name.toList ++ ['`']) [.ident name] := by
  intro rest hrest
  have hquoted := quoted_escape (q := '`') (by decide) rfl (by decide) name.toList hrest
  rw [escape_eq_self h] at hquoted
  show ReadsAs ('`' :: (name.toList ++ ['`'])) [.ident name] rest
  refine readsAs_token (by decide) nofun (fun before _ => ?_)
  rw [scan, if_neg (by decide), if_pos rfl, List.append_assoc, List.singleton_append, hquoted,
    quotedToken, String.ofList_toList]

/-! ### Numbers and symbols -/

theorem isWordChar_of_isDigit (h : c.isDigit = true) : isWordChar c = true := by
  simp only [Char.isDigit, Bool.and_eq_true, decide_eq_true_eq] at h
  simp only [isWordChar, Bool.or_eq_true, decide_eq_true_eq]
  exact .inr h

theorem upTo_append (cs rest : List Char) : upTo (cs ++ rest) rest = cs := by
  simp [upTo]

/-- A number is read up to a stop. -/
theorem lexes_number (hne : cs ≠ []) (h : ∀ rest, Stop rest → skipNumber (cs ++ rest) = rest)
    (hd : ∀ c ∈ cs.head?, c.isDigit = true) : Lexes cs [.number (String.ofList cs)] := by
  intro rest hrest
  obtain ⟨c, cs, rfl⟩ := List.exists_cons_of_ne_nil hne
  have hdigit := hd c rfl
  have hword := isWordChar_of_isDigit hdigit
  have hother := ne_of_isWordChar hword
  refine readsAs_token (isInk_of_isWordChar hword) nofun (fun before hbefore => ?_)
  have hend : rest.head?.any isWordChar = false := by
    cases hrest with
    | nil => rfl
    | cons hc rest =>
      have hstops :=
        List.all_eq_true.mp (by decide : stops.all (fun c => !isWordChar c) = true) _ hc
      simpa using hstops
  simp only [scan, hother '\'' rfl, hother '`' rfl, hother '"' rfl, hother '\u2018' rfl,
    hother '\u201c' rfl, if_false, hdigit, if_true, numberToken, numberRest, if_neg hbefore,
    ← List.cons_append, h rest hrest, hend, Bool.false_eq_true, upTo_append]

/-- Digits, and what is none behind them. -/
theorem skipRun_digits {p : Char → Bool} (h : ∀ c ∈ cs, p c = true)
    (hrest : ∀ c ∈ rest.head?, p c = false ∧ c ≠ '_') (first : Bool) :
    skipRun p first (cs ++ rest) = rest := by
  induction cs generalizing first with
  | nil =>
    cases rest with
    | nil => rfl
    | cons c rest =>
      obtain ⟨hp, hc⟩ := hrest c rfl
      simp [skipRun, hp, hc]
  | cons c cs ih =>
    obtain ⟨hc, hcs⟩ := List.forall_mem_cons.mp h
    rw [List.cons_append, skipRun, hc, Bool.true_or, if_pos rfl, ih hcs]

/-- A stop ends every part of a number. -/
theorem Stop.ends_number (h : Stop rest) :
    (∀ c ∈ rest.head?, isDigitOf false c = false ∧ c ≠ '_') ∧ skipFraction false rest = rest ∧
      skipExponent false rest = rest := by
  cases h with
  | nil => exact ⟨nofun, rfl, rfl⟩
  | @cons c hc rest =>
    have hstops : stops.all (fun c => decide (isDigitOf false c = false ∧ c ≠ '_' ∧ c ≠ '.' ∧
        isExponent false c = false)) = true := by decide
    obtain ⟨hdigit, hline, hdot, hexp⟩ := of_decide_eq_true (List.all_eq_true.mp hstops c hc)
    refine ⟨?_, ?_, ?_⟩
    · intro d hd
      obtain rfl : c = d := Option.some.inj hd
      exact ⟨hdigit, hline⟩
    · unfold skipFraction
      split
      · rename_i heq
        exact absurd (List.cons.inj heq).1 hdot
      · rfl
    · cases rest with
      | nil => rfl
      | cons d rest => simp [skipExponent, hexp]

/-- Without the mark of a base a number is decimal. -/
theorem skipNumber_cons (c : Char) (h : ∀ x ∈ cs.head?, x ∉ ['x', 'X', 'b', 'B']) :
    skipNumber (c :: cs) = skipDigits false false cs := by
  unfold skipNumber
  split
  · rename_i x d rest heq
    obtain rfl := (List.cons.inj heq).2
    have hx := h x rfl
    simp only [List.mem_cons, List.not_mem_nil, or_false, not_or] at hx
    simp [hx]
  · rfl

theorem not_mark_of_isDigit (h : c.isDigit = true) : c ∉ ['x', 'X', 'b', 'B'] := by
  intro hc
  simp only [List.mem_cons, List.not_mem_nil, or_false] at hc
  rcases hc with rfl | rfl | rfl | rfl <;> cases h

theorem skipNumber_digits (hne : cs ≠ []) (h : ∀ c ∈ cs, c.isDigit = true)
    (hrest : ∀ c ∈ rest.head?, c ∉ ['x', 'X', 'b', 'B', '_'] ∧ c.isDigit = false) :
    skipNumber (cs ++ rest) = skipExponent false (skipFraction false rest) := by
  obtain ⟨c, cs, rfl⟩ := List.exists_cons_of_ne_nil hne
  obtain ⟨-, hcs⟩ := List.forall_mem_cons.mp h
  rw [List.cons_append, skipNumber_cons, skipDigits, skipRun_digits (p := isDigitOf false) hcs]
  · intro d hd
    obtain ⟨hmark, hdigit⟩ := hrest d hd
    refine ⟨hdigit, ?_⟩
    rintro rfl
    exact hmark (by decide)
  · intro x hx
    cases cs with
    | nil =>
      obtain ⟨hmark, -⟩ := hrest x hx
      exact fun hm => hmark (List.mem_append_left ['_'] hm)
    | cons d cs =>
      obtain rfl : d = x := Option.some.inj hx
      exact not_mark_of_isDigit (hcs d List.mem_cons_self)

theorem number_digits (hne : cs ≠ []) (h : ∀ c ∈ cs, c.isDigit = true) (hrest : Stop rest) :
    skipNumber (cs ++ rest) = rest := by
  obtain ⟨-, hfraction, hexponent⟩ := hrest.ends_number
  rw [skipNumber_digits hne h, hfraction, hexponent]
  intro c hc
  cases hrest with
  | nil => cases hc
  | @cons d hd rest =>
    obtain rfl : d = c := Option.some.inj hc
    have hstops : stops.all (fun c =>
        decide (c ∉ ['x', 'X', 'b', 'B', '_'] ∧ c.isDigit = false)) = true := by decide
    exact of_decide_eq_true (List.all_eq_true.mp hstops d hd)

theorem number_fraction (hne : cs ≠ []) (hcs : ∀ c ∈ cs, c.isDigit = true)
    (hds : ∀ d ∈ ds, d.isDigit = true) (hrest : Stop rest) :
    skipNumber (cs ++ '.' :: ds ++ rest) = rest := by
  obtain ⟨hend, -, hexponent⟩ := hrest.ends_number
  rw [List.append_assoc, skipNumber_digits hne hcs, List.cons_append, skipFraction,
    skipRun_digits (p := isDigitOf false) hds hend, hexponent]
  intro c hc
  obtain rfl : '.' = c := Option.some.inj hc
  decide

/-- A minus sign in front of a digit is a token of its own. -/
theorem Lexes.minus (h : Lexes (c :: cs) ts) (hc : c.isDigit = true) :
    Lexes ('-' :: c :: cs) (.symbol "-" :: ts) := by
  intro rest hrest before _
  have hne := ne_of_isWordChar (isWordChar_of_isDigit hc)
  have hskip : skipBlank ('-' :: c :: (cs ++ rest)) = '-' :: c :: (cs ++ rest) := by
    rw [skipBlank, splitBlank]
    · rfl
    · simp [hne '-' rfl]
    · simp
    · simp
    · simp
    · simp
  have hop : isOperator '-' c = false := by simp [isOperator, operators, hne '>' rfl]
  have hscan : scan before '-' (c :: (cs ++ rest)) = (.symbol "-", c :: (cs ++ rest)) := by
    have hoperator : operator '-' (c :: (cs ++ rest)) = (['-'], c :: (cs ++ rest)) :=
      if_neg (by simp [hop])
    show (SqlToken.symbol (String.ofList (operator '-' (c :: (cs ++ rest))).1),
      (operator '-' (c :: (cs ++ rest))).2) = _
    rw [hoperator]
  obtain ⟨after, hafter, hts⟩ := h rest hrest .other nofun
  refine ⟨after, hafter, ?_⟩
  rw [List.cons_append, List.cons_append, tokens_of_cons hskip, hscan, List.cons_append, ← hts]
  rfl

/-- A character that only starts symbols. -/
def isSymbolStart (c : Char) : Bool :=
  isInk c && !(['\'', '`', '"', '\u2018', '\u201c', '.', '$'].contains c) && !isWordChar c

theorem scan_symbol {before : Before} (h : isSymbolStart c = true) (cs : List Char) :
    scan before c cs = (.symbol (String.ofList (operator c cs).1), (operator c cs).2) := by
  simp only [isSymbolStart, Bool.and_eq_true, Bool.not_eq_true', List.contains_eq_mem,
    decide_eq_false_iff_not, List.mem_cons, List.not_mem_nil, or_false, not_or] at h
  obtain ⟨⟨-, hstart⟩, hword⟩ := h
  have hdigit : c.isDigit = false := by
    by_contra hd
    rw [isWordChar_of_isDigit (Bool.not_eq_false _ ▸ hd)] at hword
    cases hword
  simp [scan, hstart, hdigit, hword]

theorem before_symbol (h : isSymbolStart c = true) (cs : List Char) :
    (SqlToken.symbol (String.ofList (c :: cs)) : SqlToken String).before ≠ .dot := by
  have hdot : String.ofList (c :: cs) ≠ "." := by
    intro heq
    have hlist := congrArg String.toList heq
    rw [String.toList_ofList] at hlist
    obtain rfl : c = '.' := (List.cons.inj hlist).1
    cases h
  rw [SqlToken.before, if_neg hdot]
  split_ifs <;> exact nofun

theorem readsAs_symbol (h : isSymbolStart c = true)
    (hop : operator c (cs ++ rest) = (c :: cs, rest)) :
    ReadsAs (c :: cs) [.symbol (String.ofList (c :: cs))] rest := by
  refine readsAs_token ?_ (before_symbol h cs) (fun before _ => by rw [scan_symbol h, hop])
  exact (Bool.and_eq_true_iff.mp (Bool.and_eq_true_iff.mp h).1).1

theorem lexes_symbol (h : isSymbolStart c = true)
    (hop : stops.all (fun d => !isOperator c d) = true) :
    Lexes [c] [.symbol (String.ofList [c])] := by
  intro rest hrest
  apply readsAs_symbol h
  cases hrest with
  | nil => rfl
  | cons hd rest =>
    have hno := List.all_eq_true.mp hop _ hd
    rw [Bool.not_eq_true'] at hno
    simp [operator, hno]

theorem lexes_operator {d : Char} (h : isSymbolStart c = true) (hop : isOperator c d = true) :
    Lexes [c, d] [.symbol (String.ofList [c, d])] := by
  intro rest _
  exact readsAs_symbol h (if_pos hop)

/-! ### Separators -/

theorem separates_space : Separates [' '] [] where
  stop := Stop.cons (by decide)
  reads := fun rest before h => ⟨before, h, tokens_space rest⟩

/-- Brackets and commas are tokens by themselves, whatever follows. -/
theorem separates_punct (hstop : c ∈ stops) (h : isSymbolStart c = true)
    (hop : ∀ x ∈ operators, c ≠ x.1) : Separates [c] [.symbol (String.ofList [c])] where
  stop := Stop.cons hstop
  reads := by
    intro rest
    apply readsAs_symbol h
    cases rest with
    | nil => rfl
    | cons d rest =>
      have hno : isOperator c d = false := by
        simp only [isOperator, List.contains_eq_mem, decide_eq_false_iff_not]
        intro hmem
        exact hop _ hmem rfl
      simp [operator, hno]

theorem Separates.append (h : Separates cs ts) (h' : Separates ds us) :
    Separates (cs ++ ds) (ts ++ us) where
  stop rest := by
    rw [List.append_assoc]
    exact h.stop _
  reads rest := (h.reads _).append (h'.reads rest)

/-- A keyword between two separators is one. -/
theorem Separates.between {es : List Char} {vs : List (SqlToken String)} (h : Separates cs ts)
    (hd : Lexes ds us) (h' : Separates es vs) :
    Separates (cs ++ ds ++ es) (ts ++ us ++ vs) where
  stop rest := by
    rw [List.append_assoc, List.append_assoc]
    exact h.stop _
  reads rest := ((h.reads _).append (hd _ (h'.stop rest))).append (h'.reads rest)

theorem Lexes.append (h : Lexes cs ts) (h' : Trails ds us) : Lexes (cs ++ ds) (ts ++ us) :=
  fun rest hrest => (h _ (h'.stop rest hrest)).append (h'.reads rest hrest)

theorem Separates.trails (h : Separates cs ts) :
    Trails cs ts where
  stop rest _ := h.stop rest
  reads rest _ := h.reads rest

theorem trails_nil : Trails [] [] where
  stop _ h := h
  reads rest _ := readsAs_nil rest

theorem Separates.lexes (h : Separates cs ts) (h' : Lexes ds us) :
    Trails (cs ++ ds) (ts ++ us) where
  stop rest _ := by
    rw [List.append_assoc]
    exact h.stop _
  reads rest hrest := (h.reads _).append (h' rest hrest)

theorem Lexes.separated {ss : List Char} {ms : List (SqlToken String)} (h : Lexes cs ts)
    (hs : Separates ss ms) (h' : Lexes ds us) : Lexes (cs ++ ss ++ ds) (ts ++ ms ++ us) := by
  rw [List.append_assoc, List.append_assoc]
  exact h.append (hs.lexes h')

/-- A list of pieces with separators between them. -/
theorem lexes_intercalate {ss : List Char} {ms : List (SqlToken String)} (hs : Separates ss ms)
    {css : List (List Char)} {tss : List (List (SqlToken String))}
    (h : List.Forall₂ Lexes css tss) : Lexes (ss.intercalate css) (ms.intercalate tss) := by
  induction h with
  | nil => exact trails_nil.reads
  | @cons cs ts css tss hcs htail ih =>
    cases htail with
    | nil => simpa using hcs
    | cons hds htail => simpa [List.intercalate_cons_cons] using hcs.separated hs ih

/-- At the end of the text nothing follows. -/
theorem Lexes.tokens_eq (h : Lexes cs ts) : tokens cs = ts := by
  obtain ⟨after, -, hts⟩ := h [] Stop.nil .other nofun
  rwa [List.append_nil, tokens_nil, List.append_nil] at hts

end SqlLexer
