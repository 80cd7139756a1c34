import CairnObs.QueryPlanner
import CairnObs.QuerySegments

/-! The times that may stand behind `earliest=` and `latest=`, and such clauses in front of
further terms. -/
namespace CairnObs.QueryLang
open Fallible

/-! ### Times the query language accepts -/

/-- The text is a time as the parser wants it behind `earliest=`, and it stands for `t`. -/
def AcceptsTime (now : ℤ) (v : List Char) (t : ℤ) : Prop :=
  ∃ expr r, parseTimeExpr (tokensFrom v.length v) = .ok (expr, r) ∧ (cur r).kind = .eof ∧
    resolveTimeExpr now expr = .ok t

/-- The lexemes of a time. -/
inductive TimeLexemes : List Lexeme → TimeExpr → Prop
  | absolute (s : String) : TimeLexemes [quoted s] (.absolute s)
  | unsigned {v : String} {n : ℕ} (unit : TimeUnit) (hn : atoi v = some n) :
    TimeLexemes [(.number, v), word unit.text] (.relative .plus n unit)
  | signed {v : String} {n : ℕ} (sign : Sign) (s : String) (unit : TimeUnit)
    (hn : atoi v = some n) :
    TimeLexemes [(sign.kind, s), (.number, v), word unit.text] (.relative sign n unit)

theorem timeUnitOfText_eq {u : String} {unit : TimeUnit} (h : timeUnitOfText u = some unit) :
    u = unit.text := by
  unfold timeUnitOfText at h
  split_ifs at h <;> cases h <;> assumption

variable {ts r : List Token} {expr : TimeExpr} {ls : List Lexeme} {b a : List (Conj × Term)}
  {p : PipeStage}

theorem cur_cons (h : (cur ts).kind ≠ .eof) : ∃ t us, ts = t :: us := by
  cases ts with
  | nil => exact absurd rfl h
  | cons t us => exact ⟨t, us, rfl⟩

theorem parseOffset_split {sign : Sign} (h : parseOffset sign ts = .ok (expr, r)) :
    ∃ T v n unit, ts = T ++ r ∧
      T.map Token.lexeme = [(.number, v), word unit.text] ∧ atoi v = some n ∧
      expr = .relative sign n unit := by
  unfold parseOffset at h
  split at h
  · cases h
  rename_i hk
  split at h
  · cases h
  rename_i n hn
  split at h
  · cases h
  rename_i unit hunit
  cases h
  have hident : (next ts).kind = .ident := by
    by_contra hne
    rw [if_neg hne] at hunit
    cases hunit
  rw [if_pos hident] at hunit
  obtain ⟨t, us, rfl⟩ := @cur_cons ts (by rw [not_not.mp hk]; exact nofun)
  obtain ⟨u, us, rfl⟩ := @cur_cons us
    (by rw [show (cur us).kind = .ident from hident]; exact nofun)
  refine ⟨[t, u], t.value, n, unit, rfl, ?_, hn, rfl⟩
  have ht : t.kind = .number := not_not.mp hk
  have hu : u.kind = .ident := hident
  have huv : u.value = unit.text := timeUnitOfText_eq hunit
  simp only [List.map_cons, List.map_nil, Token.lexeme, ht, hu, huv, word]

theorem parseTimeExpr_split (h : parseTimeExpr ts = .ok (expr, r)) :
    ∃ T, ts = T ++ r ∧ TimeLexemes (T.map Token.lexeme) expr := by
  unfold parseTimeExpr at h
  split at h
  · rename_i hk
    cases h
    obtain ⟨t, us, rfl⟩ := @cur_cons ts (by rw [hk]; exact nofun)
    have ht : t.lexeme = quoted t.value := Prod.ext hk rfl
    refine ⟨[t], rfl, ?_⟩
    rw [List.map_singleton, ht]
    exact .absolute t.value
  · obtain ⟨T, v, n, unit, hT, hlex, hn, rfl⟩ := parseOffset_split h
    have hsigned (sign : Sign) (hk : (cur ts).kind = sign.kind) (htail : ts.tail = T ++ r) :
        ∃ T', ts = T' ++ r ∧ TimeLexemes (T'.map Token.lexeme) (.relative sign n unit) := by
      obtain ⟨t, us, rfl⟩ := @cur_cons ts (by rw [hk]; cases sign <;> exact nofun)
      have ht : t.lexeme = (sign.kind, t.value) := Prod.ext hk rfl
      refine ⟨t :: T, congrArg (t :: ·) htail, ?_⟩
      rw [List.map_cons, ht, hlex]
      exact .signed sign t.value unit hn
    unfold parseSign at hT ⊢
    split at hT
    · exact hsigned .minus ‹_› hT
    · exact hsigned .plus ‹_› hT
    · refine ⟨T, hT, ?_⟩
      rw [hlex]
      exact .unsigned unit hn

/-- A time is read whatever follows it. -/
theorem parseTimeExpr_append {T : List Token} (h : TimeLexemes (T.map Token.lexeme) expr)
    (rest : List Token) : parseTimeExpr (T ++ rest) = .ok (expr, rest) := by
  have hoffset (sign : Sign) {us : List Token} {v : String} {n : ℕ} {unit : TimeUnit}
      (hus : us.map Token.lexeme = (.number, v) :: word unit.text :: rest.map Token.lexeme)
      (hn : atoi v = some n) : parseOffset sign us = .ok (.relative sign n unit, us.tail.tail) := by
    obtain ⟨hk, hv, htail⟩ := cur_of_lexemes hus
    obtain ⟨hk₁, hv₁, -⟩ := cur_of_lexemes htail
    have hunit : timeUnitOfText (next us).value = some unit := by
      rw [next, hv₁]
      exact timeUnitOfText_text unit
    have hident : (next us).kind = .ident := hk₁
    simp [parseOffset, hk, hv, hn, hident, hunit]
  generalize hls : T.map Token.lexeme = ls at h
  have hall : (T ++ rest).map Token.lexeme = ls ++ rest.map Token.lexeme := by
    rw [List.map_append, hls]
  have hlen := congrArg List.length hls
  rw [List.length_map] at hlen
  cases h with
  | absolute s =>
    obtain ⟨hk, hv, -⟩ := cur_of_lexemes hall
    obtain ⟨t, rfl⟩ := List.length_eq_one_iff.mp hlen
    rw [parseTimeExpr, if_pos hk, hv]
    rfl
  | unsigned unit hn =>
    obtain ⟨hk, -, -⟩ := cur_of_lexemes hall
    obtain ⟨t, u, rfl⟩ := List.length_eq_two.mp hlen
    simp only [parseTimeExpr, parseSign, hk, reduceCtorEq, if_false]
    exact hoffset .plus hall hn
  | signed sign s unit hn =>
    obtain ⟨hk, -, htail⟩ := cur_of_lexemes hall
    obtain ⟨t, u, w, rfl⟩ := List.length_eq_three.mp hlen
    have hsign : parseSign ([t, u, w] ++ rest) = (sign, ([t, u, w] ++ rest).tail) := by
      unfold parseSign
      rw [hk]
      cases sign <;> rfl
    have hstring : (cur ([t, u, w] ++ rest)).kind ≠ .string := by
      rw [hk]
      cases sign <;> decide
    rw [parseTimeExpr, if_neg hstring, hsign]
    exact hoffset sign htail hn

theorem TimeLexemes.unstopped (h : TimeLexemes ls expr) : Unstopped ls := by
  cases h with
  | absolute s => simp [Unstopped, quoted, Kind.stops]
  | unsigned unit hn => simp [Unstopped, word, Kind.stops]
  | signed sign s unit hn => cases sign <;> simp [Unstopped, word, Kind.stops, Sign.kind]

theorem lexed_of_split {cs : List Char} {T : List Token} (h : tokensFrom cs.length cs = T ++ r)
    (hT : Unstopped (T.map Token.lexeme)) (hr : (cur r).kind = .eof) :
    lexed cs = T.map Token.lexeme := by
  have hhead {us : List Token} (hus : Stops us) :
      ∀ l ∈ (us.map Token.lexeme).head?, l.1.stops = true := by
    cases us with
    | nil => exact nofun
    | cons t us =>
      intro l hl
      cases hl
      exact hus
  have hstops : Stops r := by
    rw [Stops, hr]
    rfl
  obtain ⟨T', r', part, ls, hT', rfl, hpart, hls, hr', hstops'⟩ :=
    exists_part (tokensFrom_lexed cs.length cs)
  have hsplit : T.map Token.lexeme ++ r.map Token.lexeme =
      T'.map Token.lexeme ++ r'.map Token.lexeme := by
    rw [← List.map_append, ← List.map_append, ← h, hT']
  obtain ⟨heq, hrest⟩ := part_append_pipe_inj hT hpart (hhead hstops) (hhead hstops') hsplit
  rw [hr'] at hrest
  -- The end of file stands at the end only.
  have hnil : ls = [] := by
    cases ls with
    | nil => rfl
    | cons l ls =>
      have heof := (cur_of_lexemes (k := l.1) (v := l.2) hrest).1.symm.trans hr
      have hmem : l ∈ lexed cs := hls ▸ List.mem_append_right _ List.mem_cons_self
      exact absurd heof (lexed_lexemes cs l hmem).1
  rw [hls, hnil, List.append_nil, heq]

theorem AcceptsTime.lexemes {now t : ℤ} {v : List Char} (h : AcceptsTime now v t) :
    ∃ expr, TimeLexemes (lexed v) expr ∧ resolveTimeExpr now expr = .ok t := by
  obtain ⟨expr, r, hparse, hr, ht⟩ := h
  obtain ⟨T, hT, hlex⟩ := parseTimeExpr_split hparse
  refine ⟨expr, ?_, ht⟩
  rw [lexed_of_split hT hlex.unstopped hr]
  exact hlex

theorem clean_of_unstopped {cs : List Char} (h : Unstopped (lexed cs)) : Clean cs := by
  intro l hl hk
  have hgo := h l hl
  rw [hk] at hgo
  cases hgo

/-! ### Terms behind the first -/

theorem parseMoreTerms_iff {ts₁ : List Token} {c : Conj} (hc : conjunction ts = some (c, ts₁)) :
    parseMoreTerms ts = .ok (b, r) ↔
      ∃ t ts₂ more, parseTerm ts₁ = .ok (t, ts₂) ∧ parseMoreTerms ts₂ = .ok (more, r) ∧
        b = (c, t) :: more := by
  constructor
  · intro h
    fun_induction parseMoreTerms ts generalizing b r with
    | case1 ts hnone =>
      rw [hnone] at hc
      cases hc
    | case2 ts c' ts' hc' e he => cases h
    | case3 ts c' ts' hc' t ts₂ ht _ e hmore => cases h
    | case4 ts c' ts' hc' t ts₂ ht _ more r' hmore =>
      rw [hc'] at hc
      cases hc
      cases h
      exact ⟨t, ts₂, more, ht, hmore, rfl⟩
  · rintro ⟨t, ts₂, more, ht, hmore, rfl⟩
    exact parseMoreTerms_of_some hc ht hmore

/-- `parseBoolExpr`, with the terms as the loop returns them. -/
def parseAndTerms (ts : List Token) : Except SyntaxError (List (Conj × Term) × List Token) := do
  let (t, ts₁) ← parseTerm ts
  let (more, ts₂) ← parseMoreTerms ts₁
  .ok ((.and, t) :: more, ts₂)

theorem parseAndTerms_iff :
    parseAndTerms ts = .ok (a, r) ↔ ∃ t ts₁ more, parseTerm ts = .ok (t, ts₁) ∧
      parseMoreTerms ts₁ = .ok (more, r) ∧ a = (.and, t) :: more := by
  simp only [parseAndTerms, bind_eq_ok]
  constructor
  · rintro ⟨⟨t, ts₁⟩, ht, ⟨more, ts₂⟩, hmore, h⟩
    cases h
    exact ⟨t, ts₁, more, ht, hmore, rfl⟩
  · rintro ⟨t, ts₁, more, ht, hmore, rfl⟩
    exact ⟨(t, ts₁), ht, (more, r), hmore, rfl⟩

def exprOf (a : List (Conj × Term)) : BoolExpr := ⟨a.map Prod.snd, (a.map Prod.fst).tail⟩

theorem parseBoolExpr_iff {e : BoolExpr} : parseBoolExpr ts = .ok (e, r) ↔
    ∃ a, parseAndTerms ts = .ok (a, r) ∧ e = exprOf a := by
  simp only [parseBoolExpr, bind_eq_ok, parseAndTerms_iff]
  constructor
  · rintro ⟨⟨t, ts₁⟩, ht, ⟨more, ts₂⟩, hmore, h⟩
    cases h
    exact ⟨_, ⟨t, ts₁, more, ht, hmore, rfl⟩, rfl⟩
  · rintro ⟨a, ⟨t, ts₁, more, ht, hmore, rfl⟩, rfl⟩
    exact ⟨(t, ts₁), ht, (more, r), hmore, rfl⟩

/-- Behind a conjunction stands a search like any other. -/
theorem parseMoreTerms_and {ts₁ : List Token} (hc : conjunction ts = some (.and, ts₁)) :
    parseMoreTerms ts = .ok (a, r) ↔ parseAndTerms ts₁ = .ok (a, r) := by
  rw [parseMoreTerms_iff hc, parseAndTerms_iff]

theorem parseTerm_kind {x : Term × List Token} (h : parseTerm ts = .ok x) :
    (cur ts).kind = .ident ∨ (cur ts).kind = .string := by
  unfold parseTerm at h
  split at h
  · exact .inl ‹_›
  · exact .inr ‹_›
  · cases h

/-- A bare word is a text to search for, unless the grammar gives it a meaning. -/
theorem parseTerm_word (hk : (cur ts).kind = .ident) (hearliest : (cur ts).value ≠ "earliest")
    (hlatest : (cur ts).value ≠ "latest") (hmessage : (cur ts).value ≠ "message")
    (hnext : isComparatorStart (next ts).kind = false) :
    parseTerm ts = .ok (.freeText (cur ts).value, ts.tail) := by
  simp [parseTerm, hk, hearliest, hlatest, hmessage, hnext]

/-! ### Parts of a query as searches -/

/-- `and` and `or`, which are conjunctions behind a term and words in front. -/
def isConjWord (l : Lexeme) : Bool := l == word "and" || l == word "or"

/-- No conjunction stands first. -/
def Plain (ls : List Lexeme) : Prop := ∀ l ∈ ls.head?, isConjWord l = false

theorem whole_more_and : Whole parseMoreTerms (word "and" :: ls) a ↔ Whole parseAndTerms ls a :=
  parseMoreTerms_and (conjunction_lexemes (c := .and) rfl)

theorem whole_more_or :
    Whole parseMoreTerms (word "or" :: ls) b ↔
      ∃ t more, Whole parseAndTerms ls ((.and, t) :: more) ∧ b = (.or, t) :: more := by
  have hiff := parseMoreTerms_iff (b := b) (r := atEnd)
    (@conjunction_lexemes _ (bare (word "or" :: ls) ++ atEnd) .or rfl)
  refine hiff.trans ?_
  simp only [Whole, parseAndTerms_iff]
  constructor
  · rintro ⟨t, ts₂, more, ht, hmore, rfl⟩
    exact ⟨t, more, ⟨t, ts₂, more, ht, hmore, rfl⟩, rfl⟩
  · rintro ⟨t, more, ⟨t', ts₂, more', ht, hmore, heq⟩, rfl⟩
    cases heq
    exact ⟨t, ts₂, more, ht, hmore, rfl⟩

/-- In front of what is no conjunction an `and` is understood. -/
theorem conjunction_of_plain (hplain : Plain ls)
    (hkind : (cur (bare ls ++ atEnd)).kind = .ident ∨ (cur (bare ls ++ atEnd)).kind = .string) :
    conjunction (bare ls ++ atEnd) = some (.and, bare ls ++ atEnd) := by
  cases ls with
  | nil => rcases hkind with hk | hk <;> cases hk
  | cons l ls =>
    have hl := hplain l rfl
    have hand : ¬ (l.1 = .ident ∧ l.2 = "and") := by
      rintro ⟨hk, hv⟩
      rw [show l = word "and" from Prod.ext hk hv] at hl
      cases hl
    have hor : ¬ (l.1 = .ident ∧ l.2 = "or") := by
      rintro ⟨hk, hv⟩
      rw [show l = word "or" from Prod.ext hk hv] at hl
      cases hl
    exact (if_neg hand).trans ((if_neg hor).trans (if_pos hkind))

theorem whole_more_of_plain (hplain : Plain ls) (h : Whole parseAndTerms ls a) :
    Whole parseMoreTerms ls a := by
  obtain ⟨t, ts₁, more, ht, -, -⟩ := parseAndTerms_iff.mp h
  exact (parseMoreTerms_and (conjunction_of_plain hplain (parseTerm_kind ht))).mpr h

/-- No comparator stands where a search can be read. -/
theorem Whole.no_comparator (h : Whole parseAndTerms ls a) :
    isComparatorStart (cur (bare ls ++ atEnd)).kind = false := by
  obtain ⟨t, ts₁, more, ht, -, -⟩ := parseAndTerms_iff.mp h
  rcases parseTerm_kind ht with hk | hk
  · rw [hk]
    rfl
  · rw [hk]
    rfl

theorem whole_and_word {w : String} (hw : w ∉ ["earliest", "latest", "message"])
    (hls : isComparatorStart (cur (bare ls ++ atEnd)).kind = false) :
    Whole parseAndTerms (word w :: ls) a ↔
      ∃ more, Whole parseMoreTerms ls more ∧ a = (.and, .freeText w) :: more := by
  simp only [List.mem_cons, List.not_mem_nil, or_false, not_or] at hw
  have hterm : parseTerm (bare (word w :: ls) ++ atEnd) = .ok (.freeText w, bare ls ++ atEnd) :=
    parseTerm_word rfl hw.1 hw.2.1 hw.2.2 hls
  rw [Whole, parseAndTerms_iff]
  constructor
  · rintro ⟨t, ts₁, more, ht, hmore, rfl⟩
    rw [hterm] at ht
    cases ht
    exact ⟨more, hmore, rfl⟩
  · rintro ⟨more, hmore, rfl⟩
    exact ⟨_, _, more, hterm, hmore, rfl⟩

/-! ### Stages by their keywords -/

def PipeStage.keyword : PipeStage → String
  | .whereStage _ => "where"
  | .statsStage _ _ => "stats"
  | .sortStage _ => "sort"
  | .fieldsStage _ => "fields"
  | .headStage _ => "head"
  | .tailStage _ => "tail"

theorem parseHeadTailStage_stage {stage : Option ℕ → PipeStage}
    (h : parseHeadTailStage stage ts = .ok (p, r)) : ∃ n, p = stage n := by
  simp only [parseHeadTailStage] at h
  split at h
  · split at h
    · cases h
    · cases h
      exact ⟨_, rfl⟩
  · cases h
    exact ⟨_, rfl⟩

theorem parsePipeStage_keyword (h : parsePipeStage ts = .ok (p, r)) :
    (cur ts).kind = .ident ∧ (cur ts).value = p.keyword := by
  unfold parsePipeStage at h
  split at h
  · cases h
  rename_i hk
  refine ⟨not_not.mp hk, ?_⟩
  split at h
  · obtain ⟨⟨e, us⟩, -, h⟩ := bind_eq_ok.mp h
    cases h
    assumption
  split at h
  · obtain ⟨⟨aggs, us⟩, -, h⟩ := bind_eq_ok.mp h
    obtain ⟨⟨by_, vs⟩, -, h⟩ := bind_eq_ok.mp h
    cases h
    assumption
  split at h
  · obtain ⟨⟨fields, us⟩, -, h⟩ := bind_eq_ok.mp h
    cases h
    assumption
  split at h
  · obtain ⟨⟨fields, us⟩, -, h⟩ := bind_eq_ok.mp h
    cases h
    assumption
  split at h
  · obtain ⟨n, rfl⟩ := parseHeadTailStage_stage h
    assumption
  split at h
  · obtain ⟨n, rfl⟩ := parseHeadTailStage_stage h
    assumption
  · cases h

theorem whole_stage_keyword {part : List Lexeme} (h : Whole parsePipeStage part p) :
    ∃ ls, part = word p.keyword :: ls := by
  obtain ⟨hk, hv⟩ := parsePipeStage_keyword h
  cases part with
  | nil => cases hk
  | cons l ls => exact ⟨ls, congrArg (· :: ls) (Prod.ext hk hv)⟩

theorem whole_boolExpr {α : Type} (f : BoolExpr → α) {y : α} :
    (parseBoolExpr (bare ls ++ atEnd) >>= fun x => .ok (f x.1, x.2)) = .ok (y, atEnd) ↔
      ∃ a, Whole parseAndTerms ls a ∧ y = f (exprOf a) := by
  rw [bind_eq_ok]
  constructor
  · rintro ⟨⟨e, r⟩, he, h⟩
    cases h
    obtain ⟨a, ha, rfl⟩ := parseBoolExpr_iff.mp he
    exact ⟨a, ha, rfl⟩
  · rintro ⟨a, ha, rfl⟩
    exact ⟨(exprOf a, atEnd), parseBoolExpr_iff.mpr ⟨a, ha, rfl⟩, rfl⟩

theorem whole_where :
    Whole parsePipeStage (word "where" :: ls) p ↔
      ∃ a, Whole parseAndTerms ls a ∧ p = .whereStage (exprOf a) :=
  whole_boolExpr PipeStage.whereStage

/-! ### Clauses in front -/

/-- `earliest=` or `latest=` with a time, and the instant this is. -/
structure Clause (now : ℤ) where
  kind : BoundKind
  value : List Lexeme
  expr : TimeExpr
  time : ℤ
  isTime : TimeLexemes value expr
  resolves : resolveTimeExpr now expr = .ok time

section Clauses
variable {now : ℤ}

def Clause.lexemes (c : Clause now) : List Lexeme := word c.kind.text :: symbol .eq :: c.value

theorem AcceptsTime.clause {t : ℤ} {v : List Char} (h : AcceptsTime now v t) (kind : BoundKind) :
    ∃ c : Clause now, c.kind = kind ∧ c.time = t ∧
      c.lexemes = word kind.text :: symbol .eq :: lexed v := by
  obtain ⟨expr, hlex, ht⟩ := h.lexemes
  exact ⟨⟨kind, lexed v, expr, t, hlex, ht⟩, rfl, rfl, rfl⟩

def Clause.term (c : Clause now) : Conj × Term := (.and, .timeBound c.kind c.expr)

theorem parseTerm_clause (c : Clause now) (rest : List Token) :
    parseTerm (bare c.lexemes ++ rest) = .ok (c.term.2, rest) := by
  have htime : parseTimeExpr (bare c.value ++ rest) = .ok (c.expr, rest) :=
    parseTimeExpr_append (by rw [bare_lexemes]; exact c.isTime) rest
  have hbound : parseTimeBound c.kind (bare c.lexemes ++ rest) = .ok (c.term.2, rest) := by
    simp only [parseTimeBound, bind_eq_ok]
    exact ⟨bare c.value ++ rest, rfl, _, htime, rfl⟩
  rw [parseTerm, show (cur (bare c.lexemes ++ rest)).kind = .ident from rfl,
    show (cur (bare c.lexemes ++ rest)).value = c.kind.text from rfl]
  cases hkind : c.kind with
  | earliest =>
    rw [hkind] at hbound
    exact hbound
  | latest =>
    rw [hkind] at hbound
    exact hbound

theorem parseAndTerms_clause (c : Clause now) {rest : List Token} :
    parseAndTerms (bare c.lexemes ++ rest) = .ok (b, r) ↔
      ∃ more, parseMoreTerms rest = .ok (more, r) ∧ b = c.term :: more := by
  rw [parseAndTerms_iff, parseTerm_clause]
  constructor
  · rintro ⟨t, ts₁, more, ht, hmore, rfl⟩
    cases ht
    exact ⟨more, hmore, rfl⟩
  · rintro ⟨more, hmore, rfl⟩
    exact ⟨_, _, more, rfl, hmore, rfl⟩

theorem parseMoreTerms_clauses (cs : List (Clause now)) {rest : List Token} :
    parseMoreTerms (bare (cs.flatMap Clause.lexemes) ++ rest) = .ok (b, r) ↔
      ∃ more, parseMoreTerms rest = .ok (more, r) ∧ b = cs.map Clause.term ++ more := by
  induction cs generalizing b with
  | nil => simp [bare]
  | cons c cs ih =>
    have hsplit : bare ((c :: cs).flatMap Clause.lexemes) ++ rest =
        bare c.lexemes ++ (bare (cs.flatMap Clause.lexemes) ++ rest) := by
      simp [bare]
    have hconj : conjunction (bare c.lexemes ++ (bare (cs.flatMap Clause.lexemes) ++ rest)) =
        some (.and, bare c.lexemes ++ (bare (cs.flatMap Clause.lexemes) ++ rest)) := by
      unfold conjunction
      rw [show (cur (bare c.lexemes ++ _)).kind = .ident from rfl,
        show (cur (bare c.lexemes ++ _)).value = c.kind.text from rfl]
      cases c.kind <;> rfl
    rw [hsplit, parseMoreTerms_and hconj, parseAndTerms_clause]
    simp only [ih]
    constructor
    · rintro ⟨more, ⟨more', hmore, rfl⟩, rfl⟩
      exact ⟨more', hmore, rfl⟩
    · rintro ⟨more, hmore, rfl⟩
      exact ⟨_, ⟨more, hmore, rfl⟩, rfl⟩

/-- What stands behind the clauses goes on the search they begin. -/
theorem whole_start_clauses (c : Clause now) (cs : List (Clause now)) {part : List Lexeme}
    {q : Query} : Whole parseStart ((c :: cs).flatMap Clause.lexemes ++ part) q ↔
      ∃ more, Whole parseMoreTerms part more ∧
        q = ⟨exprOf ((c :: cs).map Clause.term ++ more), []⟩ := by
  have hsplit : bare ((c :: cs).flatMap Clause.lexemes ++ part) ++ atEnd =
      bare c.lexemes ++ (bare (cs.flatMap Clause.lexemes) ++ (bare part ++ atEnd)) := by
    simp [bare]
  have hstage : atPipeStageKeyword
      (bare c.lexemes ++ (bare (cs.flatMap Clause.lexemes) ++ (bare part ++ atEnd))) ≠ true := by
    have hnext : isComparatorStart (next (bare c.lexemes ++
        (bare (cs.flatMap Clause.lexemes) ++ (bare part ++ atEnd)))).kind = true := rfl
    rw [atPipeStageKeyword, if_pos (.inr hnext)]
    exact Bool.false_ne_true
  have hparse {e : BoolExpr} : parseBoolExpr
      (bare c.lexemes ++ (bare (cs.flatMap Clause.lexemes) ++ (bare part ++ atEnd))) =
        .ok (e, atEnd) ↔ ∃ more, Whole parseMoreTerms part more ∧
          e = exprOf ((c :: cs).map Clause.term ++ more) := by
    simp only [parseBoolExpr_iff, parseAndTerms_clause, parseMoreTerms_clauses]
    constructor
    · rintro ⟨a, ⟨more, ⟨more', hmore, rfl⟩, rfl⟩, rfl⟩
      exact ⟨more', hmore, rfl⟩
    · rintro ⟨more, hmore, rfl⟩
      exact ⟨_, ⟨_, ⟨more, hmore, rfl⟩, rfl⟩, rfl⟩
  rw [Whole, hsplit, parseStart, if_neg hstage]
  simp only [bind_eq_ok]
  constructor
  · rintro ⟨⟨e, r⟩, he, h⟩
    cases h
    obtain ⟨more, hmore, rfl⟩ := hparse.mp he
    exact ⟨more, hmore, rfl⟩
  · rintro ⟨more, hmore, rfl⟩
    exact ⟨_, hparse.mpr ⟨more, hmore, rfl⟩, rfl⟩

end Clauses

end CairnObs.QueryLang
