import CairnObs.QueryParser

/-! The pipe stages and the query as a whole, the second half of `querylang/parser`. -/
namespace CairnObs.QueryLang
open Fallible


def parseFieldIdent (ts : List Token) : Except SyntaxError (String × List Token) :=
  if (cur ts).kind = .ident then .ok ((cur ts).value, ts.tail)
  else .error (.expected "a field name" (cur ts))

variable {r ts : List Token} {p : PipeStage}

theorem parseFieldIdent_spec {f : String} (h : parseFieldIdent ts = .ok (f, r)) :
    After r ts ∧ (Lexed ts → isIdentText f = true) := by
  simp only [parseFieldIdent] at h
  split at h
  · rename_i hk
    cases h
    exact ⟨after_tail (by simp [hk]), fun hlex => hlex.cur hk⟩
  · cases h

def aggFuncOfText (f : String) : Option AggFunc :=
  if f = "count" then some .count
  else if f = "sum" then some .sum
  else if f = "avg" then some .avg
  else if f = "min" then some .min
  else if f = "max" then some .max
  else none

/-- The optional `(field)`, `(*)` or `()` of an aggregation. -/
def parseAggField (ts : List Token) : Except SyntaxError (String × List Token) :=
  if (cur ts).kind = .lparen then
    match (cur ts.tail).kind with
    | .ident => do
      let r ← expect .rparen ts.tail.tail
      .ok ((cur ts.tail).value, r)
    | .star => do
      let r ← expect .rparen ts.tail.tail
      .ok ("", r)
    | _ => do
      let r ← expect .rparen ts.tail
      .ok ("", r)
  else .ok ("", ts)

def parseAggAlias (ts : List Token) : Except SyntaxError (String × List Token) :=
  if (cur ts).kind = .ident ∧ (cur ts).value = "as" then
    if (next ts).kind = .ident then .ok ((next ts).value, ts.tail.tail)
    else .error (.expected "an alias after 'as'" (next ts))
  else .ok ("", ts)

def parseAggCall (ts : List Token) : Except SyntaxError (AggCall × List Token) :=
  if (cur ts).kind ≠ .ident then
    .error (.expected "an aggregation function (count/sum/avg/min/max)" (cur ts))
  else match aggFuncOfText (cur ts).value with
    | none => .error (.unknown "aggregation function" (cur ts) "want count/sum/avg/min/max")
    | some func => do
      let (field, ts₁) ← parseAggField ts.tail
      let (aliasName, ts₂) ← parseAggAlias ts₁
      .ok (⟨func, field, aliasName⟩, ts₂)

theorem parseAggField_spec {f : String} (h : parseAggField ts = .ok (f, r)) :
    r <:+ ts ∧ (Lexed ts → f = "" ∨ isIdentText f = true) := by
  simp only [parseAggField] at h
  have htail₂ : ts.tail.tail <:+ ts := (List.tail_suffix _).trans (List.tail_suffix _)
  split at h
  · split at h
    · rename_i hk
      obtain ⟨r', hr, h⟩ := bind_eq_ok.mp h
      cases h
      obtain ⟨_, rfl⟩ := expect_ok hr
      exact ⟨(List.tail_suffix _).trans htail₂,
        fun hlex => .inr ((hlex.suffix (List.tail_suffix ts)).cur hk)⟩
    · obtain ⟨r', hr, h⟩ := bind_eq_ok.mp h
      cases h
      obtain ⟨_, rfl⟩ := expect_ok hr
      exact ⟨(List.tail_suffix _).trans htail₂, fun _ => .inl rfl⟩
    · obtain ⟨r', hr, h⟩ := bind_eq_ok.mp h
      cases h
      obtain ⟨_, rfl⟩ := expect_ok hr
      exact ⟨htail₂, fun _ => .inl rfl⟩
  · cases h
    exact ⟨List.suffix_rfl, fun _ => .inl rfl⟩

theorem parseAggAlias_spec {f : String} (h : parseAggAlias ts = .ok (f, r)) :
    r <:+ ts ∧ (Lexed ts → f = "" ∨ isIdentText f = true) := by
  simp only [parseAggAlias] at h
  split at h
  · split at h
    · rename_i hk
      cases h
      exact ⟨(List.tail_suffix _).trans (List.tail_suffix _),
        fun hlex => .inr ((hlex.suffix (List.tail_suffix ts)).cur hk)⟩
    · cases h
  · cases h
    exact ⟨List.suffix_rfl, fun _ => .inl rfl⟩

theorem parseAggCall_spec {a : AggCall} (h : parseAggCall ts = .ok (a, r)) :
    After r ts ∧ (Lexed ts → a.WellFormed) := by
  simp only [parseAggCall] at h
  split at h
  · cases h
  rename_i hk
  split at h
  · cases h
  simp only [bind_eq_ok] at h
  obtain ⟨⟨field, ts₁⟩, hf, ⟨aliasName, ts₂⟩, ha, h⟩ := h
  cases h
  have hstart : After ts.tail ts := after_tail (by simp [not_not.mp hk])
  obtain ⟨h₁, hfield⟩ := parseAggField_spec hf
  obtain ⟨h₂, halias⟩ := parseAggAlias_spec ha
  refine ⟨hstart.of_suffix (h₂.trans h₁), fun hlex => ⟨?_, ?_⟩⟩
  · exact hfield (hlex.suffix hstart.suffix)
  · exact halias (hlex.suffix (h₁.trans hstart.suffix))

/-- No sign sorts descending, as an explicit minus does. -/
def parseSortSign (ts : List Token) : Bool × List Token :=
  match (cur ts).kind with
  | .minus => (true, ts.tail)
  | .plus => (false, ts.tail)
  | _ => (true, ts)

def parseSortField (ts : List Token) : Except SyntaxError (SortField × List Token) :=
  let (desc, ts₁) := parseSortSign ts
  if (cur ts₁).kind = .ident then .ok (⟨(cur ts₁).value, desc⟩, ts₁.tail)
  else .error (.expected "a field name in sort" (cur ts₁))

theorem parseSortSign_suffix (ts : List Token) : (parseSortSign ts).2 <:+ ts := by
  simp only [parseSortSign]
  split
  · exact List.tail_suffix ts
  · exact List.tail_suffix ts
  · exact List.suffix_rfl

theorem parseSortField_spec {f : SortField} (h : parseSortField ts = .ok (f, r)) :
    After r ts ∧ (Lexed ts → isIdentText f.field = true) := by
  simp only [parseSortField] at h
  split at h
  · rename_i hk
    cases h
    have hs := parseSortSign_suffix ts
    exact ⟨(after_tail (by simp [hk])).trans_suffix hs, fun hlex => (hlex.suffix hs).cur hk⟩
  · cases h

/-- The optional `by` clause of `stats`. -/
def parseBy (ts : List Token) : Except SyntaxError (List String × List Token) :=
  if (cur ts).kind = .ident ∧ (cur ts).value = "by" then
    parseCommaList parseFieldIdent (fun _ _ _ h => (parseFieldIdent_spec h).1) ts.tail
  else .ok ([], ts)

def parseStatsStage (ts : List Token) : Except SyntaxError (PipeStage × List Token) := do
  let (aggs, ts₁) ← parseCommaList parseAggCall (fun _ _ _ h => (parseAggCall_spec h).1) ts.tail
  let (by_, ts₂) ← parseBy ts₁
  .ok (.statsStage aggs by_, ts₂)

def parseSortStage (ts : List Token) : Except SyntaxError (PipeStage × List Token) := do
  let (fields, ts₁) ←
    parseCommaList parseSortField (fun _ _ _ h => (parseSortField_spec h).1) ts.tail
  .ok (.sortStage fields, ts₁)

def parseFieldsStage (ts : List Token) : Except SyntaxError (PipeStage × List Token) := do
  let (fields, ts₁) ←
    parseCommaList parseFieldIdent (fun _ _ _ h => (parseFieldIdent_spec h).1) ts.tail
  .ok (.fieldsStage fields, ts₁)

/-- `parseHeadTailStage`, with the constructor of the stage for its flag. -/
def parseHeadTailStage (stage : Option ℕ → PipeStage) (ts : List Token) :
    Except SyntaxError (PipeStage × List Token) :=
  if (next ts).kind = .number then
    match atoi (next ts).value with
    | none => .error (.invalidNumber (next ts) "")
    | some n => .ok (stage (some n), ts.tail.tail)
  else .ok (stage none, ts.tail)

def parsePipeStage (ts : List Token) : Except SyntaxError (PipeStage × List Token) :=
  if (cur ts).kind ≠ .ident then
    .error (.expected "a pipe stage (where/stats/sort/fields/head/tail)" (cur ts))
  else if (cur ts).value = "where" then do
    let (expr, r) ← parseBoolExpr ts.tail
    .ok (.whereStage expr, r)
  else if (cur ts).value = "stats" then parseStatsStage ts
  else if (cur ts).value = "sort" then parseSortStage ts
  else if (cur ts).value = "fields" then parseFieldsStage ts
  else if (cur ts).value = "head" then parseHeadTailStage .headStage ts
  else if (cur ts).value = "tail" then parseHeadTailStage .tailStage ts
  else .error (.unknown "pipe stage" (cur ts) "expected where/stats/sort/fields/head/tail")

theorem parseBy_spec {fs : List String} (h : parseBy ts = .ok (fs, r)) :
    r <:+ ts ∧ (Lexed ts → ∀ f ∈ fs, isIdentText f = true) := by
  simp only [parseBy] at h
  split at h
  · obtain ⟨hafter, _, hall⟩ :=
      parseCommaList_spec (fun _ _ _ h => (parseFieldIdent_spec h).2) h
    exact ⟨hafter.suffix.trans (List.tail_suffix _),
      fun hlex => hall (hlex.suffix (List.tail_suffix _))⟩
  · cases h
    exact ⟨List.suffix_rfl, fun _ => nofun⟩

/-- A stage is read behind its keyword and is well formed and not empty. -/
def StageOf (ts r : List Token) (p : PipeStage) : Prop :=
  After r ts ∧ p.Nonempty ∧ (Lexed ts → p.WellFormed)

theorem parseStatsStage_spec (h : parseStatsStage ts = .ok (p, r)) (hstart : After ts.tail ts) :
    StageOf ts r p := by
  simp only [parseStatsStage, bind_eq_ok] at h
  obtain ⟨⟨aggs, ts₁⟩, ha, ⟨by_, ts₂⟩, hb, h⟩ := h
  cases h
  obtain ⟨h₁, hne, haggs⟩ := parseCommaList_spec (fun _ _ _ h => (parseAggCall_spec h).2) ha
  obtain ⟨h₂, hby⟩ := parseBy_spec hb
  refine ⟨(h₁.trans hstart).of_suffix h₂, hne, fun hlex => ⟨?_, ?_⟩⟩
  · exact haggs (hlex.suffix hstart.suffix)
  · exact hby (hlex.suffix (h₁.suffix.trans hstart.suffix))

theorem parseSortStage_spec (h : parseSortStage ts = .ok (p, r)) (hstart : After ts.tail ts) :
    StageOf ts r p := by
  simp only [parseSortStage, bind_eq_ok] at h
  obtain ⟨⟨fields, ts₁⟩, hf, h⟩ := h
  cases h
  obtain ⟨h₁, hne, hall⟩ := parseCommaList_spec (fun _ _ _ h => (parseSortField_spec h).2) hf
  exact ⟨h₁.trans hstart, hne, fun hlex => hall (hlex.suffix hstart.suffix)⟩

theorem parseFieldsStage_spec (h : parseFieldsStage ts = .ok (p, r)) (hstart : After ts.tail ts) :
    StageOf ts r p := by
  simp only [parseFieldsStage, bind_eq_ok] at h
  obtain ⟨⟨fields, ts₁⟩, hf, h⟩ := h
  cases h
  obtain ⟨h₁, hne, hall⟩ := parseCommaList_spec (fun _ _ _ h => (parseFieldIdent_spec h).2) hf
  exact ⟨h₁.trans hstart, hne, fun hlex => hall (hlex.suffix hstart.suffix)⟩

theorem parseHeadTailStage_spec {stage : Option ℕ → PipeStage}
    (h : parseHeadTailStage stage ts = .ok (p, r)) (hstart : After ts.tail ts) :
    After r ts ∧ ∃ n, p = stage n ∧ ∀ k ∈ n, k ≤ maxInt := by
  simp only [parseHeadTailStage] at h
  split at h
  · split at h
    · cases h
    · rename_i n hn
      cases h
      refine ⟨hstart.of_suffix (List.tail_suffix _), some n, rfl, fun k hk => ?_⟩
      cases hk
      exact atoi_le hn
  · cases h
    exact ⟨hstart, none, rfl, nofun⟩

theorem parsePipeStage_spec (h : parsePipeStage ts = .ok (p, r)) : StageOf ts r p := by
  simp only [parsePipeStage] at h
  split at h
  · cases h
  rename_i hk
  have hstart : After ts.tail ts := after_tail (by simp [not_not.mp hk])
  split at h
  · obtain ⟨⟨expr, r'⟩, he, h⟩ := bind_eq_ok.mp h
    cases h
    obtain ⟨hafter, hwf⟩ := parseBoolExpr_spec he
    exact ⟨hafter.trans hstart, trivial, fun hlex => hwf (hlex.suffix hstart.suffix)⟩
  split at h
  · exact parseStatsStage_spec h hstart
  split at h
  · exact parseSortStage_spec h hstart
  split at h
  · exact parseFieldsStage_spec h hstart
  split at h
  · obtain ⟨hafter, n, rfl, hn⟩ := parseHeadTailStage_spec h hstart
    exact ⟨hafter, trivial, fun _ => hn⟩
  split at h
  · obtain ⟨hafter, n, rfl, hn⟩ := parseHeadTailStage_spec h hstart
    exact ⟨hafter, trivial, fun _ => hn⟩
  · cases h

/-- The loop over the stages behind a `|`. -/
def parsePipes (ts : List Token) : Except SyntaxError (List PipeStage × List Token) :=
  if (cur ts).kind = .pipe then
    match h : parsePipeStage ts.tail with
    | .error e => .error e
    | .ok (p, ts₁) =>
      have : ts₁.length < ts.length :=
        ((parsePipeStage_spec h).1.trans_suffix (List.tail_suffix ts)).length_lt
      match parsePipes ts₁ with
      | .error e => .error e
      | .ok (ps, r) => .ok (p :: ps, r)
  else .ok ([], ts)
termination_by ts.length

def isPipeStageKeyword (s : String) : Bool :=
  s == "where" || s == "stats" || s == "sort" || s == "fields" || s == "head" || s == "tail"

/-- A stage keyword as the first token of the query, unless a comparator follows it. -/
def atPipeStageKeyword (ts : List Token) : Bool :=
  if (cur ts).kind ≠ .ident ∨ isComparatorStart (next ts).kind = true then false
  else isPipeStageKeyword (cur ts).value

/-- The base search, or the first stage when the query starts with one. -/
def parseStart (ts : List Token) : Except SyntaxError (Query × List Token) :=
  if atPipeStageKeyword ts then do
    let (p, r) ← parsePipeStage ts
    .ok (⟨BoolExpr.empty, [p]⟩, r)
  else do
    let (base, r) ← parseBoolExpr ts
    .ok (⟨base, []⟩, r)

def parseQuery (ts : List Token) : Except SyntaxError Query := do
  let (q, ts₁) ← parseStart ts
  let (pipes, ts₂) ← parsePipes ts₁
  if (cur ts₂).kind = .eof then .ok { q with pipes := q.pipes ++ pipes }
  else .error (.unexpected (cur ts₂))

def parse (input : String) : Except SyntaxError Query := parseQuery (tokens input)

theorem parsePipes_spec {ps : List PipeStage} (h : parsePipes ts = .ok (ps, r)) :
    ∀ p ∈ ps, p.Nonempty ∧ (Lexed ts → p.WellFormed) := by
  fun_induction parsePipes ts generalizing ps r with
  | case1 ts hk e hp => cases h
  | case2 ts hk p ts₁ hp _ e hm ih => cases h
  | case3 ts hk p ts₁ hp _ ps' r' hm ih =>
    cases h
    obtain ⟨hafter, hne, hwf⟩ := parsePipeStage_spec hp
    have htail := List.tail_suffix ts
    intro x hx
    rcases List.mem_cons.mp hx with rfl | hx
    · exact ⟨hne, fun hlex => hwf (hlex.suffix htail)⟩
    · exact (ih hm x hx).imp_right
        (fun hxwf hlex => hxwf (hlex.suffix (hafter.suffix.trans htail)))
  | case4 ts hk =>
    cases h
    exact nofun

theorem parseStart_spec {q : Query} (h : parseStart ts = .ok (q, r)) :
    r <:+ ts ∧ (∀ p ∈ q.pipes, p.Nonempty ∧ (Lexed ts → p.WellFormed)) ∧
      (q.base = BoolExpr.empty ∧ q.pipes ≠ [] ∨ (Lexed ts → q.base.WellFormed)) := by
  simp only [parseStart] at h
  split at h
  · obtain ⟨⟨p, r'⟩, hp, h⟩ := bind_eq_ok.mp h
    cases h
    obtain ⟨hafter, hne, hwf⟩ := parsePipeStage_spec hp
    refine ⟨hafter.suffix, fun x hx => ?_, .inl ⟨rfl, List.cons_ne_nil _ _⟩⟩
    cases List.mem_singleton.mp hx
    exact ⟨hne, hwf⟩
  · obtain ⟨⟨base, r'⟩, hb, h⟩ := bind_eq_ok.mp h
    cases h
    obtain ⟨hafter, hwf⟩ := parseBoolExpr_spec hb
    exact ⟨hafter.suffix, nofun, .inr hwf⟩

theorem parseQuery_wellFormed {q : Query} (hlex : Lexed ts) (h : parseQuery ts = .ok q) :
    q.WellFormed ∧ ∀ p ∈ q.pipes, p.Nonempty := by
  simp only [parseQuery, bind_eq_ok] at h
  obtain ⟨⟨q₀, ts₁⟩, hs, ⟨pipes, ts₂⟩, hp, h⟩ := h
  split at h
  · cases h
    obtain ⟨hsuf, hfirst, hbase⟩ := parseStart_spec hs
    have hrest := parsePipes_spec hp
    have hall : ∀ p ∈ q₀.pipes ++ pipes, p.Nonempty ∧ p.WellFormed := by
      intro p hp
      rcases List.mem_append.mp hp with hp | hp
      · exact (hfirst p hp).imp_right (fun hwf => hwf hlex)
      · exact (hrest p hp).imp_right (fun hwf => hwf (hlex.suffix hsuf))
    refine ⟨⟨?_, fun p hp => (hall p hp).2⟩, fun p hp => (hall p hp).1⟩
    rcases hbase with ⟨hempty, hne⟩ | hwf
    · exact .inr ⟨hempty, by simp [hne]⟩
    · exact .inl (hwf hlex)
  · cases h

end CairnObs.QueryLang
