import CairnObs.QueryAst

/-! Printing a query back: its tokens with a space between them, and the proof that the
lexer reads exactly these tokens. -/
namespace CairnObs.QueryLang
open EscapedQuote

/-- A token without its position. -/
abbrev Lexeme := Kind × String

def Token.lexeme (t : Token) : Lexeme := (t.kind, t.value)

def symbol (k : Kind) : Lexeme := (k, String.ofList k.symbol)

def word (s : String) : Lexeme := (.ident, s)

def quoted (s : String) : Lexeme := (.string, s)

def numeral (n : ℕ) : Lexeme := (.number, String.ofList (Nat.toDigits 10 n))

/-- How a lexeme is written. -/
def Lexeme.chars (x : Lexeme) : List Char :=
  match x.1 with
  | .string => '"' :: (escape '"' '\\' x.2.toList ++ ['"'])
  | .ident | .number => x.2.toList
  | k => k.symbol

def printLexemes : List Lexeme → List Char
  | [] => []
  | [x] => Lexeme.chars x
  | x :: xs => Lexeme.chars x ++ ' ' :: printLexemes xs

/-! ### The lexemes of a query -/

def TimeExpr.lexemes : TimeExpr → List Lexeme
  | .absolute value => [quoted value]
  | .relative sign n unit => [symbol sign.kind, numeral n, word unit.text]

def Term.lexemes : Term → List Lexeme
  | .comparison field op value => [word field, symbol op.kind, quoted value]
  | .timeBound kind expr => word kind.text :: symbol .eq :: expr.lexemes
  | .freeText query => [quoted query]

def moreLexemes (more : List (Conj × Term)) : List Lexeme :=
  more.flatMap (fun x => word x.1.text :: x.2.lexemes)

def BoolExpr.lexemes (e : BoolExpr) : List Lexeme :=
  match e.terms with
  | [] => []
  | t :: ts => t.lexemes ++ moreLexemes (e.conjs.zip ts)

def commaLexemes {α : Type} (f : α → List Lexeme) : List α → List Lexeme
  | [] => []
  | [a] => f a
  | a :: as => f a ++ symbol .comma :: commaLexemes f as

def AggCall.lexemes (a : AggCall) : List Lexeme :=
  word a.func.text :: symbol .lparen :: ((if a.field = "" then [] else [word a.field]) ++
    symbol .rparen :: (if a.aliasName = "" then [] else [word "as", word a.aliasName]))

def SortField.lexemes (f : SortField) : List Lexeme :=
  [symbol (if f.desc then .minus else .plus), word f.field]

def byLexemes (by_ : List String) : List Lexeme :=
  if by_ = [] then [] else word "by" :: commaLexemes (fun f => [word f]) by_

def countLexemes (n : Option ℕ) : List Lexeme := (n.map numeral).toList

def PipeStage.lexemes : PipeStage → List Lexeme
  | .whereStage expr => word "where" :: expr.lexemes
  | .statsStage aggs by_ => word "stats" :: (commaLexemes AggCall.lexemes aggs ++ byLexemes by_)
  | .sortStage fields => word "sort" :: commaLexemes SortField.lexemes fields
  | .fieldsStage fields => word "fields" :: commaLexemes (fun f => [word f]) fields
  | .headStage n => word "head" :: countLexemes n
  | .tailStage n => word "tail" :: countLexemes n

def pipesLexemes (ps : List PipeStage) : List Lexeme :=
  ps.flatMap (fun p => symbol .pipe :: p.lexemes)

/-- The first stage of a query without a base search has no pipe in front of it. -/
def Query.lexemes (q : Query) : List Lexeme :=
  match q.base.terms, q.pipes with
  | [], [] => []
  | [], p :: ps => p.lexemes ++ pipesLexemes ps
  | _ :: _, ps => q.base.lexemes ++ pipesLexemes ps

def render (q : Query) : String := String.ofList (printLexemes q.lexemes)

/-! ### The lexer on printed lexemes -/

/-- A lexeme whose text the lexer reads back. -/
def Printable (x : Lexeme) : Prop :=
  match x.1 with
  | .string => True
  | .ident => isIdentText x.2 = true
  | .number => x.2.toList ≠ [] ∧ x.2.toList.all isDigit = true
  | k => k.symbol ≠ [] ∧ x.2.toList = k.symbol

/-- What may follow a printed lexeme. -/
inductive Break : List Char → Prop
  | nil : Break []
  | space (cs) : Break (' ' :: cs)

theorem lexString_escape (v rest : List Char) :
    lexString (escape '"' '\\' v ++ '"' :: rest) = (.string, v, rest) := by
  have h := @scan_escape _ _ _ '"' '\\' lexString (fun rest => (.string, [], rest))
    (fun c x => (x.1, c :: x.2.1, x.2.2)) rest (by simp [lexString])
    (fun rest => by simp [lexString]) (fun rest => by simp [lexString])
    (fun c rest hq he => by rw [lexString] <;> simp_all) v
  rw [h]
  clear h
  induction v with
  | nil => rfl
  | cons c v ih => rw [List.foldr_cons, ih]

variable {rest v : List Char} {c : Char}

theorem takeWhile_append_break {p : Char → Bool} (hp : p ' ' = false) (hv : v.all p = true)
    (hrest : Break rest) : (v ++ rest).takeWhile p = v ∧ (v ++ rest).dropWhile p = rest := by
  have hv' : ∀ c ∈ v, p c = true := List.all_eq_true.mp hv
  rw [List.takeWhile_append_of_pos hv', List.dropWhile_append_of_pos hv']
  cases hrest with
  | nil => simp
  | space cs => simp [hp]

theorem lexNumber_break (hv : v.all isDigit = true) (hrest : Break rest) :
    lexNumber (v ++ rest) = (v, rest) := by
  obtain ⟨htake, hdrop⟩ := takeWhile_append_break (p := isDigit) (by decide) hv hrest
  simp only [lexNumber, htake, hdrop]
  cases hrest with
  | nil => rfl
  | space cs => rfl

theorem lexIdent_break (hv : v.all isIdentPart = true) (hrest : Break rest) :
    lexIdent (v ++ rest) = (v, rest) := by
  obtain ⟨htake, hdrop⟩ := takeWhile_append_break (p := isIdentPart) (by decide) hv hrest
  simp only [lexIdent, htake, hdrop]

/-- No symbol and no quote starts a number or an identifier. -/
theorem scan_word (h : isDigit c = true ∨ isIdentStart c = true) (cs : List Char) :
    scan c cs = if isDigit c then (.number, lexNumber (c :: cs))
      else (.ident, lexIdent (c :: cs)) := by
  have hne : ∀ d, isDigit d = false → isIdentStart d = false → c ≠ d := by
    rintro d hd hi rfl
    simp_all
  simp only [scan, hne '|' rfl rfl, hne '=' rfl rfl, hne '!' rfl rfl, hne '>' rfl rfl,
    hne '<' rfl rfl, hne ':' rfl rfl, hne ',' rfl rfl, hne '(' rfl rfl, hne ')' rfl rfl,
    hne '-' rfl rfl, hne '+' rfl rfl, hne '*' rfl rfl, hne '"' rfl rfl, false_and, if_false]
  split
  · rfl
  · rename_i hd
    rw [if_pos (h.resolve_left hd)]

theorem isDigit_of_isIdentStart (h : isIdentStart c = true) : isDigit c = false := by
  simp only [isIdentStart, Bool.or_eq_true, beq_iff_eq, decide_eq_true_eq] at h
  simp only [isDigit, decide_eq_false_iff_not]
  rintro ⟨h0, h9⟩
  rcases h with (rfl | ⟨ha, hz⟩) | ⟨ha, hz⟩
  · exact absurd h9 (by decide)
  · exact absurd (Char.le_trans ha h9) (by decide)
  · exact absurd (Char.le_trans ha h9) (by decide)

theorem isSpace_of_word (h : isDigit c = true ∨ isIdentStart c = true) : isSpace c = false := by
  have hne : ∀ d, isDigit d = false → isIdentStart d = false → c ≠ d := by
    rintro d hd hi rfl
    simp_all
  simp [isSpace, hne ' ' rfl rfl, hne '\t' rfl rfl, hne '\n' rfl rfl, hne '\r' rfl rfl]

theorem scan_number (hne : v ≠ []) (hv : v.all isDigit = true) (hrest : Break rest) :
    ∃ c cs, v ++ rest = c :: cs ∧ isSpace c = false ∧ scan c cs = (.number, v, rest) := by
  obtain ⟨c, cs, rfl⟩ := List.exists_cons_of_ne_nil hne
  have hc : isDigit c = true := by simp_all
  refine ⟨c, cs ++ rest, rfl, isSpace_of_word (.inl hc), ?_⟩
  rw [scan_word (.inl hc), if_pos hc, ← List.cons_append, lexNumber_break hv hrest]

theorem scan_ident {v : String} (hv : isIdentText v = true) (hrest : Break rest) :
    ∃ c cs, v.toList ++ rest = c :: cs ∧ isSpace c = false ∧
      scan c cs = (.ident, v.toList, rest) := by
  simp only [isIdentText] at hv
  split at hv
  · cases hv
  · rename_i c cs hcs
    rw [Bool.and_eq_true] at hv
    have hall : (c :: cs).all isIdentPart = true := by simp_all [isIdentPart]
    refine ⟨c, cs ++ rest, by rw [hcs]; rfl, isSpace_of_word (.inr hv.1), ?_⟩
    rw [scan_word (.inr hv.1), if_neg (by simp [isDigit_of_isIdentStart hv.1]),
      ← List.cons_append, lexIdent_break hall hrest, hcs]

theorem scan_symbol {k : Kind} (hk : k.symbol ≠ []) (hrest : Break rest) :
    ∃ c cs, k.symbol ++ rest = c :: cs ∧ isSpace c = false ∧ scan c cs = (k, k.symbol, rest) := by
  cases k <;> first
    | exact absurd rfl hk
    | exact ⟨_, _, rfl, rfl, by cases hrest <;> rfl⟩

/-- The text of a lexeme is read back whatever comes behind the space. -/
theorem scan_chars {x : Lexeme} (hx : Printable x) (hrest : Break rest) :
    ∃ c cs, Lexeme.chars x ++ rest = c :: cs ∧ isSpace c = false ∧
      scan c cs = (x.1, x.2.toList, rest) := by
  obtain ⟨k, v⟩ := x
  have hsym : ∀ k : Kind, k.symbol ≠ [] ∧ v.toList = k.symbol → ∃ c cs,
      k.symbol ++ rest = c :: cs ∧ isSpace c = false ∧ scan c cs = (k, v.toList, rest) := by
    intro k h
    rw [h.2]
    exact scan_symbol h.1 hrest
  cases k with
  | string =>
    refine ⟨'"', escape '"' '\\' v.toList ++ '"' :: rest, by simp [Lexeme.chars], rfl, ?_⟩
    exact lexString_escape v.toList rest
  | ident => exact scan_ident hx hrest
  | number => exact scan_number hx.1 hx.2 hrest
  | eof => exact absurd rfl hx.1
  | illegal => exact absurd rfl hx.1
  | _ => exact hsym _ hx

theorem tokensFrom_of_nil {n : ℕ} {cs : List Char} (h : skipWhitespace cs = []) :
    tokensFrom n cs = [⟨.eof, "", n⟩] := by
  rw [tokensFrom]
  split
  · rfl
  · rename_i c rest hc
    rw [h] at hc
    cases hc

theorem tokensFrom_of_cons {n : ℕ} {cs : List Char} (h : skipWhitespace cs = c :: rest) :
    tokensFrom n cs = ⟨(scan c rest).1, String.ofList (scan c rest).2.1, n - (rest.length+1)⟩ ::
      tokensFrom n (scan c rest).2.2 := by
  rw [tokensFrom]
  split
  · rename_i hc
    rw [h] at hc
    cases hc
  · rename_i c' rest' hc
    rw [h] at hc
    cases hc
    rfl

theorem tokensFrom_space (n : ℕ) (cs : List Char) : tokensFrom n (' ' :: cs) = tokensFrom n cs := by
  have hskip : skipWhitespace (' ' :: cs) = skipWhitespace cs := rfl
  cases h : skipWhitespace cs with
  | nil => rw [tokensFrom_of_nil h, tokensFrom_of_nil (hskip.trans h)]
  | cons c rest => rw [tokensFrom_of_cons h, tokensFrom_of_cons (hskip.trans h)]

theorem tokensFrom_chars (n : ℕ) {x : Lexeme} (hx : Printable x) (hrest : Break rest) :
    (tokensFrom n (Lexeme.chars x ++ rest)).map Token.lexeme =
      x :: (tokensFrom n rest).map Token.lexeme := by
  obtain ⟨c, cs, hcs, hspace, hscan⟩ := scan_chars hx hrest
  have hskip : skipWhitespace (c :: cs) = c :: cs := by simp [skipWhitespace, hspace]
  rw [hcs, tokensFrom_of_cons hskip, hscan]
  simp [Token.lexeme]

/-- The lexer reads back what is printed, lexeme by lexeme. -/
theorem tokensFrom_printLexemes (n : ℕ) {xs : List Lexeme} (h : ∀ x ∈ xs, Printable x) :
    (tokensFrom n (printLexemes xs)).map Token.lexeme = xs ++ [(.eof, "")] := by
  induction xs with
  | nil =>
    rw [printLexemes, tokensFrom_of_nil rfl]
    rfl
  | cons x xs ih =>
    have hx : Printable x := h x List.mem_cons_self
    have hxs : ∀ y ∈ xs, Printable y := fun y hy => h y (List.mem_cons_of_mem _ hy)
    cases xs with
    | nil =>
      have := tokensFrom_chars n hx .nil
      rw [List.append_nil] at this
      rw [printLexemes, this, tokensFrom_of_nil rfl]
      rfl
    | cons y ys =>
      rw [printLexemes, tokensFrom_chars n hx (.space _), tokensFrom_space, ih hxs]
      · rfl
      · exact List.cons_ne_nil _ _

/-! ### The lexemes of a well-formed query are printable -/

theorem printable_symbol {k : Kind} (h : k.symbol ≠ []) : Printable (symbol k) := by
  cases k <;> first
    | exact absurd rfl h
    | exact ⟨h, by simp [symbol]⟩

theorem printable_word {s : String} (h : isIdentText s = true) : Printable (word s) := h

theorem printable_quoted (s : String) : Printable (quoted s) := trivial

theorem printable_numeral (n : ℕ) : Printable (numeral n) := by
  refine ⟨by simp [numeral, Nat.toDigits_ne_nil], ?_⟩
  simp only [numeral, String.toList_ofList, List.all_eq_true]
  intro c hc
  rw [isDigit_eq]
  exact Nat.isDigit_of_mem_toDigits (by decide) (by decide) hc

theorem TimeExpr.printable (e : TimeExpr) : ∀ x ∈ e.lexemes, Printable x := by
  cases e with
  | absolute value => simp [TimeExpr.lexemes, printable_quoted]
  | relative sign n unit =>
    simp only [TimeExpr.lexemes, List.mem_cons, List.not_mem_nil, or_false]
    rintro x (rfl | rfl | rfl)
    · exact printable_symbol (by cases sign <;> exact nofun)
    · exact printable_numeral n
    · exact printable_word (by cases unit <;> rfl)

theorem Term.WellFormed.printable {t : Term} (h : t.WellFormed) : ∀ x ∈ t.lexemes, Printable x := by
  cases t with
  | comparison field op value =>
    simp only [Term.lexemes, List.mem_cons, List.not_mem_nil, or_false]
    rintro x (rfl | rfl | rfl)
    · exact printable_word h.1
    · exact printable_symbol (by cases op <;> exact nofun)
    · exact printable_quoted value
  | timeBound kind expr =>
    simp only [Term.lexemes, List.mem_cons]
    rintro x (rfl | rfl | hx)
    · exact printable_word (by cases kind <;> rfl)
    · exact printable_symbol nofun
    · exact expr.printable x hx
  | freeText query => simp [Term.lexemes, printable_quoted]

theorem BoolExpr.WellFormed.printable {e : BoolExpr} (h : e.WellFormed) :
    ∀ x ∈ e.lexemes, Printable x := by
  obtain ⟨terms, conjs⟩ := e
  cases terms with
  | nil => exact nofun
  | cons t ts =>
    intro x hx
    rcases List.mem_append.mp hx with hx | hx
    · exact (h.terms t List.mem_cons_self).printable x hx
    · obtain ⟨⟨c, u⟩, hcu, hx⟩ := List.mem_flatMap.mp hx
      rcases List.mem_cons.mp hx with rfl | hx
      · exact printable_word (s := c.text) (by cases c <;> rfl)
      · have hu : u ∈ ts := (List.of_mem_zip hcu).2
        exact (h.terms u (List.mem_cons_of_mem _ hu)).printable x hx

theorem printable_commaLexemes {α : Type} {f : α → List Lexeme} {as : List α}
    (h : ∀ a ∈ as, ∀ x ∈ f a, Printable x) : ∀ x ∈ commaLexemes f as, Printable x := by
  induction as with
  | nil => exact nofun
  | cons a as ih =>
    have ha : ∀ x ∈ f a, Printable x := h a List.mem_cons_self
    cases as with
    | nil => exact ha
    | cons b bs =>
      intro x hx
      rcases List.mem_append.mp hx with hx | hx
      · exact ha x hx
      · rcases List.mem_cons.mp hx with rfl | hx
        · exact printable_symbol nofun
        · exact ih (fun a ha => h a (List.mem_cons_of_mem _ ha)) x hx

theorem printable_words {fs : List String} (h : ∀ f ∈ fs, isIdentText f = true) :
    ∀ x ∈ commaLexemes (fun f => [word f]) fs, Printable x := by
  refine printable_commaLexemes fun f hf x hx => ?_
  cases List.mem_singleton.mp hx
  exact h f hf

theorem AggCall.WellFormed.printable {a : AggCall} (h : a.WellFormed) :
    ∀ x ∈ a.lexemes, Printable x := by
  have hfield : ∀ x ∈ (if a.field = "" then [] else [word a.field]), Printable x := by
    split
    · exact nofun
    · rename_i hne
      intro x hx
      cases List.mem_singleton.mp hx
      exact printable_word (h.field.resolve_left hne)
  have halias : ∀ x ∈ (if a.aliasName = "" then [] else [word "as", word a.aliasName]),
      Printable x := by
    split
    · exact nofun
    · rename_i hne
      simp only [List.mem_cons, List.not_mem_nil, or_false]
      rintro x (rfl | rfl)
      · exact printable_word rfl
      · exact printable_word (h.aliasName.resolve_left hne)
  intro x hx
  simp only [AggCall.lexemes, List.mem_cons, List.mem_append] at hx
  rcases hx with rfl | rfl | hx | rfl | hx
  · exact printable_word (by cases a.func <;> rfl)
  · exact printable_symbol nofun
  · exact hfield x hx
  · exact printable_symbol nofun
  · exact halias x hx

theorem printable_byLexemes {by_ : List String} (h : ∀ f ∈ by_, isIdentText f = true) :
    ∀ x ∈ byLexemes by_, Printable x := by
  simp only [byLexemes]
  split
  · exact nofun
  · intro x hx
    rcases List.mem_cons.mp hx with rfl | hx
    · exact printable_word rfl
    · exact printable_words h x hx

theorem printable_countLexemes (n : Option ℕ) : ∀ x ∈ countLexemes n, Printable x := by
  cases n with
  | none => exact nofun
  | some k =>
    intro x hx
    cases List.mem_singleton.mp hx
    exact printable_numeral k

theorem printable_cons_word {s : String} {xs : List Lexeme} (hs : isIdentText s = true)
    (h : ∀ x ∈ xs, Printable x) : ∀ x ∈ word s :: xs, Printable x := by
  intro x hx
  rcases List.mem_cons.mp hx with rfl | hx
  · exact printable_word hs
  · exact h x hx

theorem PipeStage.WellFormed.printable {p : PipeStage} (h : p.WellFormed) :
    ∀ x ∈ p.lexemes, Printable x := by
  cases p with
  | whereStage expr => exact printable_cons_word rfl (BoolExpr.WellFormed.printable h)
  | statsStage aggs by_ =>
    refine printable_cons_word rfl fun x hx => ?_
    rcases List.mem_append.mp hx with hx | hx
    · exact printable_commaLexemes (fun a ha => (h.1 a ha).printable) x hx
    · exact printable_byLexemes h.2 x hx
  | sortStage fields =>
    refine printable_cons_word rfl (printable_commaLexemes fun f hf x hx => ?_)
    simp only [SortField.lexemes, List.mem_cons, List.not_mem_nil, or_false] at hx
    rcases hx with rfl | rfl
    · exact printable_symbol (by cases f.desc <;> exact nofun)
    · exact printable_word (h f hf)
  | fieldsStage fields => exact printable_cons_word rfl (printable_words h)
  | headStage n => exact printable_cons_word rfl (printable_countLexemes n)
  | tailStage n => exact printable_cons_word rfl (printable_countLexemes n)

theorem printable_pipesLexemes {ps : List PipeStage} (h : ∀ p ∈ ps, p.WellFormed) :
    ∀ x ∈ pipesLexemes ps, Printable x := by
  intro x hx
  obtain ⟨p, hp, hx⟩ := List.mem_flatMap.mp hx
  rcases List.mem_cons.mp hx with rfl | hx
  · exact printable_symbol nofun
  · exact (h p hp).printable x hx

theorem Query.WellFormed.printable {q : Query} (h : q.WellFormed) :
    ∀ x ∈ q.lexemes, Printable x := by
  obtain ⟨⟨terms, conjs⟩, pipes⟩ := q
  cases terms with
  | nil =>
    cases pipes with
    | nil => exact nofun
    | cons p ps =>
      intro x hx
      rcases List.mem_append.mp hx with hx | hx
      · exact (h.pipes p List.mem_cons_self).printable x hx
      · exact printable_pipesLexemes (fun p hp => h.pipes p (List.mem_cons_of_mem _ hp)) x hx
  | cons t ts =>
    have hbase : (⟨t :: ts, conjs⟩ : BoolExpr).WellFormed :=
      h.base.resolve_right (fun hempty => by simp [BoolExpr.empty] at hempty)
    intro x hx
    rcases List.mem_append.mp hx with hx | hx
    · exact hbase.printable x hx
    · exact printable_pipesLexemes h.pipes x hx

/-- The lexer on a rendered query. -/
theorem tokens_render {q : Query} (h : q.WellFormed) :
    (tokens (render q)).map Token.lexeme = q.lexemes ++ [(.eof, "")] := by
  rw [tokens, render, String.toList_ofList]
  exact tokensFrom_printLexemes _ h.printable

end CairnObs.QueryLang
