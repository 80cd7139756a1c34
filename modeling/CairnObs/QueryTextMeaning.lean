import CairnObs.QueryPhrases

/-! What the text search of a query asks for, and what its stages say. The parts of one stage
are joined by operators, but nothing stands between those of two stages, and clauses side by
side are alternatives. -/
namespace CairnObs.QueryLang
open TantivyQuery (WordChars lex alternatives alternativesFrom Matches)

/-! ### The text of an expression -/

def Term.text? : Term → Option String
  | .freeText s => some s
  | .comparison _ _ _ | .timeBound _ _ => none

def freeTextsOf (ts : List (Option Conj × Term)) : List (Option Conj × String) :=
  ts.filterMap (fun x => x.2.text?.map (fun s => (x.1, s)))

variable {x : Option Conj × String} {s : String} {e : BoolExpr}

theorem mem_of_freeTextsOf {ts : List (Option Conj × Term)} (h : x ∈ freeTextsOf ts) :
    (x.1, Term.freeText x.2) ∈ ts := by
  obtain ⟨⟨conj, t⟩, hy, hyx⟩ := List.mem_filterMap.mp h
  obtain ⟨s, hs, rfl⟩ := Option.map_eq_some_iff.mp hyx
  cases t with
  | freeText s' =>
    cases hs
    exact hy
  | comparison field op value => cases hs
  | timeBound kind expr => cases hs

/-- The free texts in their order, each with the conjunction before it. -/
def BoolExpr.texts (e : BoolExpr) : List (Option Conj × String) := freeTextsOf e.joined

/-- `and` binds tighter than `or`: an `or` begins the next alternative. -/
def textAlternativesFrom (current : List (List Char)) :
    List (Option Conj × String) → List (List (List Char))
  | [] => [current]
  | (conj, s) :: ts =>
    if conj = some .or then current :: textAlternativesFrom [s.toList] ts
    else textAlternativesFrom (current ++ [s.toList]) ts

def BoolExpr.textAlternatives (e : BoolExpr) : List (List (List Char)) :=
  match e.texts with
  | [] => []
  | (_, s) :: ts => textAlternativesFrom [s.toList] ts

/-- The words of one alternative are all in the message; an expression without free text asks
for nothing. -/
def BoolExpr.TextMatches (e : BoolExpr) (message : List (List Char)) : Prop :=
  e.texts = [] ∨ ∃ a ∈ e.textAlternatives, ∀ w ∈ a, w ∈ message

def PipeStage.exprs : PipeStage → List BoolExpr
  | .whereStage e => [e]
  | .statsStage _ _ | .sortStage _ | .fieldsStage _ | .headStage _ | .tailStage _ => []

/-- The base search and the expressions of the `where` stages. -/
def Query.exprs (q : Query) : List BoolExpr := q.base :: q.pipes.flatMap PipeStage.exprs

def isPlainChar (c : Char) : Bool := decide ('a' ≤ c ∧ c ≤ 'z') || decide ('0' ≤ c ∧ c ≤ '9')

/-- A lower-case alphanumeric word. -/
def IsPlainWord (s : String) : Prop := s ≠ "" ∧ s.toList.all isPlainChar = true

/-- Each `or` joins two free texts. -/
def BoolExpr.OrsJoinTexts (e : BoolExpr) : Prop :=
  ∀ g ∈ e.gaps, g.2.1 = .or → g.1.isStructured = false ∧ g.2.2.isStructured = false

/-! ### The parts of an expression -/

theorem isAlphanumeric_of_isPlainChar {c : Char} (h : isPlainChar c = true) :
    TantivyQuery.isAlphanumeric c = true := by
  have hcases : decide ('a' ≤ c ∧ c ≤ 'z') = true ∨ decide ('0' ≤ c ∧ c ≤ '9') = true := by
    simpa only [isPlainChar, Bool.or_eq_true] using h
  rcases hcases with hc | hc
  · simp only [TantivyQuery.isAlphanumeric, hc, Bool.true_or]
  · simp only [TantivyQuery.isAlphanumeric, hc, Bool.or_true]

theorem IsPlainWord.isBareWord (h : IsPlainWord s) (W : WordChars) :
    TantivyQuery.IsBareWord W s.toList := by
  have hplain := List.all_eq_true.mp h.2
  refine ⟨by simpa using h.1, ?_, ?_, ?_⟩
  · rw [List.all_eq_true]
    intro c hc
    exact W.alphanumeric c (isAlphanumeric_of_isPlainChar (hplain c hc))
  · intro hs
    rw [hs] at hplain
    exact absurd (hplain 'A' List.mem_cons_self) (by decide)
  · intro hs
    rw [hs] at hplain
    exact absurd (hplain 'O' List.mem_cons_self) (by decide)

theorem IsPlainWord.hasBlank (h : IsPlainWord s) : hasBlank s = false := by
  have hplain := List.all_eq_true.mp h.2
  unfold QueryLang.hasBlank
  rw [List.any_eq_false]
  intro c hc hb
  have hcases : c = ' ' ∨ c = '\t' := by simpa using hb
  rcases hcases with rfl | rfl
  · exact absurd (hplain ' ' hc) (by decide)
  · exact absurd (hplain '\t' hc) (by decide)

theorem IsPlainWord.token (h : IsPlainWord s) : (TextPart.text s).token = .word s.toList := by
  simp [TextPart.token, h.hasBlank]

/-- An operator and a word for each text behind the first one. -/
def laterParts : List (Option Conj × String) → List TextPart
  | [] => []
  | (conj, s) :: ts => .op (if conj = some .or then .or else .and) :: .text s :: laterParts ts

def textsParts : List (Option Conj × String) → List TextPart
  | [] => []
  | (_, s) :: ts => .text s :: laterParts ts

theorem textPartsFrom_eq {ps : List TextPart} (hps : ps ≠ []) (ts : List (Option Conj × Term)) :
    textPartsFrom ps ts = ps ++ laterParts (freeTextsOf ts) := by
  induction ts generalizing ps with
  | nil => simp [textPartsFrom, freeTextsOf, laterParts]
  | cons x ts ih =>
    obtain ⟨conj, t⟩ := x
    cases t with
    | comparison field op value => exact ih hps
    | timeBound kind expr => exact ih hps
    | freeText s =>
      have hadd : addPart conj (.freeText s) ps =
          ps ++ [.op (if conj = some .or then .or else .and), .text s] := by
        by_cases hor : conj = some .or <;> simp [addPart, hor, hps]
      rw [textPartsFrom, hadd, ih (by simp)]
      simp [freeTextsOf, Term.text?, laterParts]

/-- Behind a structured term no `or` comes before the first text. -/
theorem textPartsFrom_nil {ts : List (Option Conj × Term)}
    (h : ∀ x rest, freeTextsOf ts = x :: rest → x.1 ≠ some .or) :
    textPartsFrom [] ts = textsParts (freeTextsOf ts) := by
  induction ts with
  | nil => rfl
  | cons x ts ih =>
    obtain ⟨conj, t⟩ := x
    cases t with
    | comparison field op value => exact ih h
    | timeBound kind expr => exact ih h
    | freeText s =>
      have htexts : freeTextsOf ((conj, .freeText s) :: ts) = (conj, s) :: freeTextsOf ts := rfl
      have hor : conj ≠ some .or := h _ _ htexts
      have hadd : addPart conj (.freeText s) [] = [.text s] := by simp [addPart, hor]
      rw [textPartsFrom, hadd, textPartsFrom_eq (by simp), htexts]
      rfl

theorem first_text_conj {cs : List Conj} {t : Term} (ht : t.isStructured = true) {ts : List Term}
    (hors : ∀ g ∈ (t :: ts).zip (cs.zip ts), g.2.1 = .or →
      g.1.isStructured = false ∧ g.2.2.isStructured = false) {rest : List (Option Conj × String)}
    (h : freeTextsOf ((cs.map some).zip ts) = x :: rest) : x.1 ≠ some .or := by
  induction cs generalizing t ts with
  | nil => cases h
  | cons c cs ih =>
    cases ts with
    | nil => cases h
    | cons u us =>
      have hgap := hors (t, c, u) List.mem_cons_self
      have hrest := fun g hg => hors g (List.mem_cons_of_mem _ hg)
      cases u with
      | comparison field op value => exact ih rfl hrest h
      | timeBound kind expr => exact ih rfl hrest h
      | freeText s =>
        have hx : (some c, s) = x := (List.cons.inj h).1
        subst hx
        intro hor
        rw [(hgap (Option.some.inj hor)).1] at ht
        cases ht

theorem BoolExpr.OrsJoinTexts.textParts (h : e.OrsJoinTexts) :
    e.textParts = textsParts e.texts := by
  apply textPartsFrom_nil
  intro x rest hx
  unfold BoolExpr.OrsJoinTexts BoolExpr.gaps at h
  unfold BoolExpr.joined at hx
  cases hterms : e.terms with
  | nil =>
    rw [hterms] at hx
    cases hx
  | cons t ts =>
    rw [hterms] at h hx
    cases t with
    | comparison field op value => exact first_text_conj rfl h hx
    | timeBound kind expr => exact first_text_conj rfl h hx
    | freeText s =>
      have hfirst : (none, s) = x := (List.cons.inj hx).1
      subst hfirst
      simp

/-! ### The alternatives of the search -/

/-- The alternatives of what stands behind a complete expression. -/
def furtherAlternatives (ts : List TantivyQuery.Token) :
    Option (List (List TantivyQuery.Token)) :=
  if ts = [] then some [] else alternatives ts

/-- A list of tokens that can follow a complete expression as one of its own. -/
def StartsClause (ts : List TantivyQuery.Token) : Prop := ∀ t ∈ ts.head?, t.isClause = true

theorem alternativesFrom_further {ts : List TantivyQuery.Token} (h : StartsClause ts)
    (current : List TantivyQuery.Token) :
    alternativesFrom current ts = (furtherAlternatives ts).map (current :: ·) := by
  cases ts with
  | nil => rfl
  | cons t ts =>
    have ht : t.isClause = true := h t rfl
    rw [TantivyQuery.alternativesFrom_clause ht]
    simp [furtherAlternatives, alternatives, ht]

def wordTokens (ws : List (List Char)) : List TantivyQuery.Token := ws.map .word

theorem alternativesFrom_laterParts {ts : List (Option Conj × String)}
    (hts : ∀ x ∈ ts, IsPlainWord x.2) (current : List (List Char))
    {more : List TantivyQuery.Token} (hmore : StartsClause more) :
    alternativesFrom (wordTokens current) ((laterParts ts).map TextPart.token ++ more) =
      (furtherAlternatives more).map ((textAlternativesFrom current ts).map wordTokens ++ ·) := by
  induction ts generalizing current with
  | nil => exact alternativesFrom_further hmore _
  | cons x ts ih =>
    obtain ⟨conj, s⟩ := x
    have hs : (TextPart.text s).token = .word s.toList := (hts _ List.mem_cons_self).token
    have ih := ih (fun y hy => hts y (List.mem_cons_of_mem _ hy))
    simp only [laterParts, List.map_cons, List.cons_append, hs]
    by_cases hor : conj = some .or
    · have hop : (TextPart.op (if conj = some .or then .or else .and)).token = .or := by
        rw [if_pos hor]
        rfl
      have htail := ih [s.toList]
      rw [hop, TantivyQuery.alternativesFrom_or rfl]
      have hone : wordTokens [s.toList] = [.word s.toList] := rfl
      rw [hone] at htail
      rw [htail, textAlternativesFrom, if_pos hor]
      simp [Function.comp_def]
    · have hop : (TextPart.op (if conj = some .or then .or else .and)).token = .and := by
        rw [if_neg hor]
        rfl
      have htail := ih (current ++ [s.toList])
      have hsnoc : wordTokens (current ++ [s.toList]) = wordTokens current ++ [.word s.toList] := by
        simp [wordTokens]
      rw [hop, TantivyQuery.alternativesFrom_and rfl, ← hsnoc, htail, textAlternativesFrom,
        if_neg hor]

theorem startsClause_textsParts {ts : List (Option Conj × String)}
    (hts : ∀ x ∈ ts, IsPlainWord x.2) {more : List TantivyQuery.Token} (hmore : StartsClause more) :
    StartsClause ((textsParts ts).map TextPart.token ++ more) := by
  cases ts with
  | nil => exact hmore
  | cons x ts =>
    intro t ht
    have hx := (hts x List.mem_cons_self).token
    cases ht
    rw [hx]
    rfl

/-- The words of the expressions side by side. -/
def expressionsTokens (es : List BoolExpr) : List TantivyQuery.Token :=
  es.flatMap (fun e => (textsParts e.texts).map TextPart.token)

theorem startsClause_expressions {es : List BoolExpr}
    (h : ∀ e ∈ es, ∀ x ∈ e.texts, IsPlainWord x.2) : StartsClause (expressionsTokens es) := by
  induction es with
  | nil => simp [expressionsTokens, StartsClause]
  | cons e es ih =>
    exact startsClause_textsParts (h e List.mem_cons_self)
      (ih (fun e' he' => h e' (List.mem_cons_of_mem _ he')))

/-- The search takes the alternatives of all expressions together. -/
theorem furtherAlternatives_expressions {es : List BoolExpr}
    (h : ∀ e ∈ es, ∀ x ∈ e.texts, IsPlainWord x.2) :
    furtherAlternatives (expressionsTokens es) =
      some ((es.flatMap BoolExpr.textAlternatives).map wordTokens) := by
  induction es with
  | nil => rfl
  | cons e es ih =>
    have hes := fun e' he' => h e' (List.mem_cons_of_mem e he')
    have hmore := startsClause_expressions hes
    have ih := ih hes
    have hcons : expressionsTokens (e :: es) =
        (textsParts e.texts).map TextPart.token ++ expressionsTokens es := rfl
    rw [hcons, List.flatMap_cons]
    cases htexts : e.texts with
    | nil =>
      have hnone : e.textAlternatives = [] := by simp [BoolExpr.textAlternatives, htexts]
      rw [hnone]
      exact ih
    | cons x ts =>
      have hwords := h e List.mem_cons_self
      rw [htexts] at hwords
      have hx := (hwords x List.mem_cons_self).token
      have hlater := alternativesFrom_laterParts
        (fun y hy => hwords y (List.mem_cons_of_mem _ hy)) [x.2.toList] hmore
      have halts : e.textAlternatives = textAlternativesFrom [x.2.toList] ts := by
        simp [BoolExpr.textAlternatives, htexts]
      rw [halts, List.map_append, textsParts, List.map_cons, hx, List.cons_append,
        furtherAlternatives, if_neg (by simp), alternatives]
      refine (if_pos rfl).trans (hlater.trans ?_)
      rw [ih]
      rfl

/-! ### Queries -/

theorem Query.textParts_eq (q : Query) : q.textParts = q.exprs.flatMap BoolExpr.textParts := by
  have hstage : ∀ p : PipeStage, p.textParts = p.exprs.flatMap BoolExpr.textParts := by
    intro p
    cases p <;> simp [PipeStage.textParts, PipeStage.exprs]
  rw [Query.textParts, Query.exprs, List.flatMap_cons, List.flatMap_assoc]
  congr 1
  apply List.flatMap_congr
  intro p _
  exact hstage p

theorem mem_terms_of_texts {q : Query} (he : e ∈ q.exprs) (hx : x ∈ e.texts) :
    Term.freeText x.2 ∈ q.terms := by
  have hterm : Term.freeText x.2 ∈ e.terms :=
    BoolExpr.mem_terms_of_joined (mem_of_freeTextsOf hx)
  rcases List.mem_cons.mp he with rfl | he
  · exact List.mem_append_left _ hterm
  · obtain ⟨p, hp, hep⟩ := List.mem_flatMap.mp he
    refine List.mem_append_right _ (List.mem_flatMap.mpr ⟨p, hp, ?_⟩)
    cases p with
    | whereStage e' =>
      cases List.mem_singleton.mp hep
      exact hterm
    | statsStage aggs by_ | sortStage fields | fieldsStage fields | headStage n | tailStage n =>
      cases hep

section Search
variable {W : WordChars} {now : ℤ} {q : Query} {plan : Plan}

theorem tokens_textParts (hors : ∀ e ∈ q.exprs, e.OrsJoinTexts) :
    q.textParts.map TextPart.token = expressionsTokens q.exprs := by
  rw [Query.textParts_eq, expressionsTokens, List.map_flatMap]
  apply List.flatMap_congr
  intro e he
  rw [(hors e he).textParts]

/-- The search of a query takes the alternatives of all its expressions together. -/
theorem matches_iff (hq : q.WellFormed) (hors : ∀ e ∈ q.exprs, e.OrsJoinTexts)
    (hwords : ∀ s, Term.freeText s ∈ q.terms → IsPlainWord s) (h : compileQuery now q = .ok plan)
    {query : String} (hquery : query ∈ plan.textSearch) (message : List (List Char)) :
    Matches W query.toList message ↔
      ∃ e ∈ q.exprs, ∃ a ∈ e.textAlternatives, ∀ w ∈ a, w ∈ message := by
  have hparts : q.textParts ≠ [] := by
    intro hempty
    rw [compileQuery_textSearch h, if_pos hempty] at hquery
    cases hquery
  have hlegible : ∀ s, TextPart.text s ∈ q.textParts → Legible W s := by
    intro s hs
    have hplain := hwords s ((mem_query_textParts hq).mp hs)
    rw [Legible, if_neg (by simp [hplain.hasBlank])]
    exact hplain.isBareWord W
  have hlex : lex W query.toList = some (expressionsTokens q.exprs) := by
    rw [mem_textSearch h hquery, ← tokens_textParts hors]
    exact lex_textParts_iff.mpr hlegible
  have halts : alternatives (expressionsTokens q.exprs) =
      some ((q.exprs.flatMap BoolExpr.textAlternatives).map wordTokens) := by
    rw [← furtherAlternatives_expressions
      (fun e he x hx => hwords x.2 (mem_terms_of_texts he hx)), furtherAlternatives, if_neg]
    rw [← tokens_textParts hors]
    simpa using hparts
  have hhits : ∀ a : List (List Char),
      (∀ t ∈ wordTokens a, t.Hits message) ↔ ∀ w ∈ a, w ∈ message := by
    intro a
    simp [wordTokens, TantivyQuery.Token.Hits]
  constructor
  · rintro ⟨ts, alts, hts, halts', t, ht, hall⟩
    rw [hlex] at hts
    cases hts
    rw [halts] at halts'
    cases halts'
    obtain ⟨a, ha, rfl⟩ := List.mem_map.mp ht
    obtain ⟨e, he, hae⟩ := List.mem_flatMap.mp ha
    exact ⟨e, he, a, hae, (hhits a).mp hall⟩
  · rintro ⟨e, he, a, ha, hall⟩
    refine ⟨_, _, hlex, halts, wordTokens a, ?_, (hhits a).mpr hall⟩
    exact List.mem_map_of_mem (List.mem_flatMap.mpr ⟨e, he, ha⟩)

theorem BoolExpr.texts_eq_nil (h : e.textParts = []) : e.texts = [] := by
  cases htexts : e.texts with
  | nil => rfl
  | cons x ts =>
    have hx : x ∈ e.texts := htexts ▸ List.mem_cons_self
    have hmem : TextPart.text x.2 ∈ e.textParts := by
      rw [BoolExpr.textParts, mem_textPartsFrom]
      exact .inr (List.mem_map_of_mem (mem_of_freeTextsOf hx))
    rw [h] at hmem
    cases hmem

/-- The search matches a message exactly when the texts of the base search and of every
`where` stage do, for all messages, if and only if any two expressions with free text ask for
the same: each alternative of the one has all the words of an alternative of the other. -/
theorem text_search_meaning_iff (hq : q.WellFormed) (hors : ∀ e ∈ q.exprs, e.OrsJoinTexts)
    (hwords : ∀ s, Term.freeText s ∈ q.terms → IsPlainWord s)
    (h : compileQuery now q = .ok plan) :
    (∀ message, (∀ query ∈ plan.textSearch, Matches W query.toList message) ↔
      ∀ e ∈ q.exprs, e.TextMatches message) ↔
    ∀ e ∈ q.exprs, ∀ e' ∈ q.exprs, e'.texts ≠ [] →
      ∀ a ∈ e.textAlternatives, ∃ a' ∈ e'.textAlternatives, a' ⊆ a := by
  have hsearch : ∀ query ∈ plan.textSearch, ∀ message, Matches W query.toList message ↔
      ∃ e ∈ q.exprs, ∃ a ∈ e.textAlternatives, ∀ w ∈ a, w ∈ message :=
    fun query hquery message => matches_iff hq hors hwords h hquery message
  constructor
  · intro hexact e he e' he' htexts a ha
    -- the words of the alternative, as a message
    have hall := (hexact a).mp
      (fun query hquery => (hsearch query hquery a).mpr ⟨e, he, a, ha, fun _ hw => hw⟩)
    rcases hall e' he' with hnone | ⟨a', ha', hsub⟩
    · exact absurd hnone htexts
    · exact ⟨a', ha', hsub⟩
  · intro hsame message
    constructor
    · intro hmatch e' he'
      by_cases htexts : e'.texts = []
      · exact .inl htexts
      · have hparts : q.textParts ≠ [] := by
          intro hempty
          rw [Query.textParts_eq, List.flatMap_eq_nil_iff] at hempty
          exact htexts (BoolExpr.texts_eq_nil (hempty e' he'))
        have hmem :
            String.intercalate " " (q.textParts.map TextPart.written) ∈ plan.textSearch := by
          rw [compileQuery_textSearch h, if_neg hparts]
          exact List.mem_singleton_self _
        obtain ⟨e, he, a, ha, hsub⟩ := (hsearch _ hmem message).mp (hmatch _ hmem)
        obtain ⟨a', ha', hsub'⟩ := hsame e he e' he' htexts a ha
        exact .inr ⟨a', ha', fun w hw => hsub w (hsub' hw)⟩
    · intro hall query hquery
      apply (hsearch query hquery message).mpr
      have hparts : q.textParts ≠ [] := by
        intro hempty
        rw [compileQuery_textSearch h, if_pos hempty] at hquery
        cases hquery
      rw [Query.textParts_eq, ne_eq, List.flatMap_eq_nil_iff] at hparts
      push Not at hparts
      obtain ⟨e, he, hne⟩ := hparts
      rcases hall e he with hnone | ⟨a, ha, hsub⟩
      · rw [(hors e he).textParts, hnone] at hne
        exact absurd rfl hne
      · exact ⟨e, he, a, ha, hsub⟩

end Search

/-- The query `error or timeout | where status>=500`. -/
def textThenFilter : Query :=
  ⟨⟨[.freeText "error", .freeText "timeout"], [.or]⟩,
    [.whereStage ⟨[.comparison "status" .gte "500"], []⟩]⟩

theorem text_search_meaning_one_text :
    ∃ plan, compileQuery 0 textThenFilter = .ok plan ∧ ∀ message,
      (∀ query ∈ plan.textSearch, Matches .plain query.toList message) ↔
        ∀ e ∈ textThenFilter.exprs, e.TextMatches message := by
  have haccepted : ∃ plan, compileQuery 0 textThenFilter = .ok plan := ⟨_, rfl⟩
  obtain ⟨plan, h⟩ := haccepted
  refine ⟨plan, h, (text_search_meaning_iff (by decide) ?_ ?_ h).mpr ?_⟩
  · unfold BoolExpr.OrsJoinTexts
    decide
  · intro s hs
    have hcases : s = "error" ∨ s = "timeout" := by
      simpa [textThenFilter, Query.terms, PipeStage.terms] using hs
    rcases hcases with rfl | rfl
    · exact ⟨by decide, by decide⟩
    · exact ⟨by decide, by decide⟩
  · decide +kernel

/-- The query `error | where timeout`. -/
def textThenText : Query :=
  ⟨⟨[.freeText "error"], []⟩, [.whereStage ⟨[.freeText "timeout"], []⟩]⟩

/-- The two words become alternatives, so the stage lets more messages through than the base
search alone. -/
theorem where_text_becomes_alternative :
    parse "error | where timeout" = .ok textThenText ∧
    ∃ plan, compileQuery 0 textThenText = .ok plan ∧ plan.textSearch = ["error timeout"] ∧
      (∀ query ∈ plan.textSearch, Matches .plain query.toList ["error".toList]) ∧
      ¬ ∀ e ∈ textThenText.exprs, e.TextMatches ["error".toList] := by
  refine ⟨by decide +kernel, _, rfl, by decide +kernel, ?_, ?_⟩
  · intro query hquery
    have hone : query = "error timeout" := by
      rw [← List.mem_singleton]
      exact hquery
    subst hone
    refine ⟨[.word "error".toList, .word "timeout".toList], _, by decide +kernel, rfl,
      [.word "error".toList], List.mem_cons_self, ?_⟩
    intro t ht
    cases List.mem_singleton.mp ht
    exact List.mem_cons_self
  · intro h
    rcases h ⟨[.freeText "timeout"], []⟩ (by decide) with hnone | ⟨a, ha, hsub⟩
    · exact absurd hnone (by decide)
    · cases List.mem_singleton.mp ha
      exact absurd (hsub _ List.mem_cons_self) (by decide)

end CairnObs.QueryLang
