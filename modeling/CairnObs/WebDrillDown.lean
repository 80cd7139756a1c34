import CairnObs.QueryAppend
import CairnObs.QueryPlanTables
import CairnObs.WebTimeRange

/-! Drill-down from a point of a chart, `charts/drilldown.ts` of the web client: the query of
the panel is cut in front of its `stats` stage, and the group of the point is added. -/
namespace CairnObs.Web.DrillDown
open QueryLang Fallible
open JsStd (trim)

/-- `/stats\b/i` at the start of the text. -/
def atStats (cs : List Char) : Bool :=
  (cs.take 5).map Char.toLower == "stats".toList &&
    TextSearch.boundary (cs.take 5).getLast? (cs.drop 5).head?

/-- `/\|\s*stats\b/i`. -/
def atStatsStage : List Char → Bool
  | '|' :: rest => atStats (rest.dropWhile JsStd.isSpace)
  | _ => false

/-- `query.search(STATS_STAGE)`. -/
def searchStatsStage : List Char → Option ℕ
  | [] => none
  | c :: cs => if atStatsStage (c :: cs) then some 0 else (searchStatsStage cs).map (·+1)

/-- `idx >= 0 ? query.slice(0, idx) : query`. -/
def cutAtStats (query : List Char) : List Char :=
  match searchStatsStage query with
  | some idx => query.take idx
  | none => query

def baseFilterQuery (query : List Char) : List Char := trim (cutAtStats query)

/-- `value.replace(/\\/g, '\\\\').replace(/"/g, '\\"')` in quotes. -/
def quote (value : List Char) : List Char :=
  let slashed := value.flatMap (fun c => if c = '\\' then ['\\', '\\'] else [c])
  '"' :: (slashed.flatMap (fun c => if c = '"' then ['\\', '"'] else [c]) ++ ['"'])

/-- A clicked point. A text that is missing is empty and a missing width is 0, as the code asks
only whether they are falsy; `center` is the x value as a time, `none` if it is `NaN`. -/
structure Point where
  seriesName : List Char
  seriesColumn : List Char
  center : Option ℤ
  isTime : Bool
  bucketMs : ℕ

structure Target where
  query : List Char
  earliest : Option (List Char)
  latest : Option (List Char)
  deriving DecidableEq

def buildDrillDownQuery (panelQuery : List Char) (point : Point) : Target :=
  let base := baseFilterQuery panelQuery
  let query := if point.seriesColumn ≠ [] ∧ point.seriesName ≠ [] then
      trim (base ++ ' ' :: point.seriesColumn ++ '=' :: quote point.seriesName)
    else base
  if point.isTime then
    match point.center with
    | none => ⟨query, none, none⟩
    | some center =>
      let windowMs := if point.bucketMs ≠ 0 then point.bucketMs else 10*60000
      -- A date drops the half millisecond of an odd window, towards the epoch.
      ⟨query, some (JsStd.toISOString ((2*center-windowMs).tdiv 2)),
        some (JsStd.toISOString ((2*center+windowMs).tdiv 2))⟩
  else ⟨query, none, none⟩

/-! ### Where the query is cut -/

variable {cs post : List Char} {i : ℕ} {ls : List Lexeme} {column value : String}

theorem searchStatsStage_some (h : searchStatsStage cs = some i) :
    ∃ post, cs = cs.take i ++ '|' :: post ∧ atStatsStage ('|' :: post) = true := by
  induction cs generalizing i with
  | nil => cases h
  | cons c cs ih =>
    rw [searchStatsStage] at h
    split at h
    · rename_i hstage
      cases h
      have hpipe : c = '|' := by
        by_contra hne
        rw [atStatsStage] at hstage
        · cases hstage
        · exact fun rest h => hne (List.cons.inj h).1
      exact ⟨cs, by rw [hpipe]; rfl, hpipe ▸ hstage⟩
    · cases hi : searchStatsStage cs with
      | none =>
        rw [hi] at h
        cases h
      | some j =>
        rw [hi] at h
        cases h
        obtain ⟨post, hcs, hpost⟩ := ih hi
        exact ⟨post, congrArg (c :: ·) hcs, hpost⟩

theorem searchStatsStage_lt (h : searchStatsStage cs = some i) : i < cs.length := by
  obtain ⟨post, hcs, -⟩ := searchStatsStage_some h
  have hlen := congrArg List.length hcs
  rw [List.length_append, List.length_take, List.length_cons] at hlen
  omega

/-- A pipe ends what the pattern may match. -/
theorem atStats_append (cs post : List Char) : atStats (cs ++ '|' :: post) = atStats cs := by
  by_cases hlen : 5 ≤ cs.length
  · have hnext : ((cs.drop 5 ++ '|' :: post).head?).any TextSearch.isWordChar =
        (cs.drop 5).head?.any TextSearch.isWordChar := by
      cases cs.drop 5 with
      | nil => rfl
      | cons c rest => rfl
    rw [atStats, List.take_append_of_le_length hlen, List.drop_append_of_le_length hlen,
      TextSearch.boundary, hnext]
    rfl
  -- A shorter text has the pipe among the five characters, or not five of them.
  · have hpipe : ((cs ++ '|' :: post).take 5).map Char.toLower ≠ "stats".toList := by
      intro heq
      have hmem : '|' ∈ (cs ++ '|' :: post).take 5 := by
        obtain ⟨n, hn⟩ : ∃ n, 5-cs.length = n+1 := ⟨4-cs.length, by omega⟩
        rw [List.take_append, hn, List.take_succ_cons]
        exact List.mem_append_right _ List.mem_cons_self
      have hpipe : Char.toLower '|' ∈ "stats".toList := heq ▸ List.mem_map_of_mem hmem
      exact absurd hpipe (by decide)
    have hshort : (cs.take 5).map Char.toLower ≠ "stats".toList := by
      intro heq
      have hcount := congrArg List.length heq
      rw [List.length_map, List.length_take] at hcount
      have hfive : "stats".toList.length = 5 := rfl
      omega
    rw [atStats, atStats, beq_eq_false_iff_ne.mpr hpipe, beq_eq_false_iff_ne.mpr hshort]
    rfl

theorem atStatsStage_append {x : List Char} (hx : x ≠ []) (post : List Char) :
    atStatsStage (x ++ '|' :: post) = atStatsStage x := by
  obtain ⟨c, x, rfl⟩ := List.exists_cons_of_ne_nil hx
  by_cases hc : c = '|'
  · subst hc
    show atStats ((x ++ '|' :: post).dropWhile JsStd.isSpace) = atStats (x.dropWhile JsStd.isSpace)
    rw [List.dropWhile_append]
    cases hdrop : x.dropWhile JsStd.isSpace with
    | nil =>
      have hpipe : ('|' :: post).dropWhile JsStd.isSpace = [] ++ '|' :: post :=
        List.dropWhile_cons_of_neg (by decide)
      rw [List.isEmpty_nil, if_pos rfl, hpipe, atStats_append]
    | cons d y =>
      rw [List.isEmpty_cons, if_neg Bool.false_ne_true, atStats_append]
  · have hfalse (y : List Char) : atStatsStage (c :: y) = false := by
      rw [atStatsStage]
      exact fun rest h => hc (List.cons.inj h).1
    rw [List.cons_append, hfalse, hfalse]

theorem searchStatsStage_append (hpost : atStatsStage ('|' :: post) = true) (pre : List Char) :
    searchStatsStage (pre ++ '|' :: post) =
      some ((searchStatsStage pre).getD pre.length) := by
  induction pre with
  | nil => exact if_pos hpost
  | cons c pre ih =>
    have hhere := atStatsStage_append (List.cons_ne_nil c pre) post
    rw [List.cons_append] at hhere ⊢
    rw [searchStatsStage, hhere, ih, searchStatsStage]
    split
    · rfl
    · cases searchStatsStage pre with
      | none => rfl
      | some i => rfl

/-! ### Stages in the text -/

theorem lexed_pipe (cs : List Char) : lexed ('|' :: cs) = symbol .pipe :: lexed cs :=
  @lexed_of_cons ('|' :: cs) cs '|' rfl

theorem breaks_pipe (cs : List Char) : Breaks ('|' :: cs) := breaks_cons rfl (by decide) cs

/-- A pipe among the lexemes stands in the text. -/
theorem exists_pipe {ls' : List Lexeme} (h : lexed cs = ls ++ symbol .pipe :: ls') :
    ∃ pre post, cs = pre ++ '|' :: post ∧ lexed post = ls' := by
  obtain ⟨pre, rest, rfl, hrest⟩ := lexed_drop h
  cases hskip : skipWhitespace rest with
  | nil =>
    rw [lexed_of_nil hskip] at hrest
    cases hrest
  | cons c post =>
    rw [lexed_of_cons hskip] at hrest
    obtain ⟨hfirst, hpost⟩ := List.cons.inj hrest
    have hkind : (scan c post).1 = .pipe := congrArg Prod.fst hfirst
    -- No other rule of the lexer makes a pipe.
    obtain ⟨rfl, hscan⟩ : c = '|' ∧ (scan c post).2.2 = post := by
      have hscan := scanned_scan c post
      generalize scan c post = t at hkind hscan
      cases hscan with
      | @one k _ hk =>
        obtain rfl : k = .pipe := hkind
        exact ⟨(List.cons.inj hk).1.symm, rfl⟩
      | @two k _ _ hk =>
        obtain rfl : k = .pipe := hkind
        cases hk
      | string => rcases lexString_cases post with hk | hk <;> rw [hk] at hkind <;> cases hkind
      | number | ident | illegal => cases hkind
    rw [hscan] at hpost
    refine ⟨pre ++ rest.takeWhile QueryLang.isSpace, post, ?_, hpost⟩
    rw [List.append_assoc, ← hskip]
    exact congrArg (pre ++ ·) List.takeWhile_append_dropWhile.symm

theorem isIdentPart_of_isWordChar {c : Char} (h : TextSearch.isWordChar c = true) :
    isIdentPart c = true := by
  have hpart : isIdentPart c = (TextSearch.isWordChar c || c == '.' || c == '_' || c == '-') := rfl
  rw [hpart, h]
  rfl

/-- The pattern finds a `stats` stage behind a pipe. -/
theorem atStatsStage_of_lexed (h : lexed post = word "stats" :: ls) :
    atStatsStage ('|' :: post) = true := by
  obtain ⟨rest, hskip, -, hrest⟩ := lexed_first_word h
  have hdrop : post.dropWhile JsStd.isSpace = "stats".toList ++ rest := by
    have hsplit := List.takeWhile_append_dropWhile (p := QueryLang.isSpace) (l := post)
    rw [← hsplit, List.dropWhile_append_of_pos
      fun c hc => trims_isSpace.spaces c (List.mem_takeWhile_imp hc)]
    rw [show post.dropWhile QueryLang.isSpace = "stats".toList ++ rest from hskip]
    rfl
  have hnext : rest.head?.any TextSearch.isWordChar = false := by
    cases rest with
    | nil => rfl
    | cons c rest =>
      have hc := hrest c rfl
      by_contra hword
      rw [isIdentPart_of_isWordChar (Bool.not_eq_false _ ▸ hword)] at hc
      cases hc
  rw [atStatsStage, hdrop]
  show (_ && TextSearch.boundary (some 's') rest.head?) = true
  rw [TextSearch.boundary, hnext]
  rfl

def stageKeywords : List String := ["where", "stats", "sort", "fields", "head", "tail"]

theorem keyword_mem (p : PipeStage) : p.keyword ∈ stageKeywords := by
  cases p <;> simp [PipeStage.keyword, stageKeywords]

/-- What the pattern finds behind a pipe is a `stats` stage, if it is one that the parser
knows. -/
theorem keyword_of_atStatsStage {p : PipeStage} (h : atStatsStage ('|' :: post) = true)
    (hclean : Clean post) (hlex : lexed post = word p.keyword :: ls) : p.keyword = "stats" := by
  obtain ⟨rest, hskip, -, -⟩ := lexed_first_word hlex
  have hdrop := hclean.dropWhile_eq trims_isSpace
  simp only [atStatsStage, atStats, hdrop, hskip, Bool.and_eq_true, beq_iff_eq] at h
  have hkeyword := keyword_mem p
  have hlong : 2 ≤ p.keyword.toList.length :=
    of_decide_eq_true (List.all_eq_true.mp
      (by decide : stageKeywords.all (fun k => decide (2 ≤ k.toList.length)) = true) _ hkeyword)
  have htwo : (p.keyword.toList.take 2).map Char.toLower = "st".toList := by
    have htake := congrArg (List.take 2) h.1
    rw [← List.map_take, List.take_take, show min 2 5 = 2 from rfl,
      List.take_append_of_le_length hlong] at htake
    exact htake
  have honly : stageKeywords.all (fun k =>
      decide ((k.toList.take 2).map Char.toLower = "st".toList → k = "stats")) = true := by decide
  exact of_decide_eq_true (List.all_eq_true.mp honly _ hkeyword) htwo

/-! ### The text that is added -/

theorem quote_eq (value : List Char) :
    quote value = '"' :: (EscapedQuote.escape '"' '\\' value ++ ['"']) := by
  rw [quote]
  refine congrArg (fun cs => '"' :: (cs ++ ['"'])) ?_
  induction value with
  | nil => rfl
  | cons c cs ih =>
    rw [List.flatMap_cons, List.flatMap_append, ih, EscapedQuote.escape]
    by_cases hslash : c = '\\'
    · subst hslash
      rfl
    · by_cases hquote : c = '"'
      · subst hquote
        rfl
      · rw [if_neg hslash, if_neg (by simp [hslash, hquote])]
        simp [hquote]

def addition (column value : String) : List Char :=
  ' ' :: column.toList ++ '=' :: quote value.toList

theorem lexed_column (h : isTopLevel column = true) (rest : List Char) :
    lexed (' ' :: column.toList ++ '=' :: rest) = word column :: symbol .eq :: lexed rest := by
  rw [← lexed_eq]
  have hmem : column ∈ topLevelFields := List.contains_iff_mem.mp h
  simp only [topLevelFields, List.mem_cons, List.not_mem_nil, or_false] at hmem
  rcases hmem with rfl | rfl | rfl | rfl | rfl | rfl
  · exact @lexed_of_cons _ ("imestamp=".toList ++ rest) 't' rfl
  · exact @lexed_of_cons _ ("ost=".toList ++ rest) 'h' rfl
  · exact @lexed_of_cons _ ("ervice=".toList ++ rest) 's' rfl
  · exact @lexed_of_cons _ ("everity=".toList ++ rest) 's' rfl
  · exact @lexed_of_cons _ ("essage=".toList ++ rest) 'm' rfl
  · exact @lexed_of_cons _ ("ecord_id=".toList ++ rest) 'r' rfl

theorem lexed_addition (h : isTopLevel column = true) (value : String) :
    lexed (addition column value) = comparisonLexemes column value := by
  have hstring : lexed (quote value.toList) = [quoted value] := by
    rw [quote_eq,
      @lexed_of_cons ('"' :: (EscapedQuote.escape '"' '\\' value.toList ++ ['"'])) _ '"' rfl,
      scan_quote, lexString_escape, lexed_of_nil (show skipWhitespace [] = [] from rfl),
      String.ofList_toList]
    rfl
  rw [addition, lexed_column h, hstring]
  rfl

theorem addition_eq_concat (column value : String) : addition column value =
    (' ' :: column.toList ++ '=' :: '"' :: EscapedQuote.escape '"' '\\' value.toList) ++ ['"'] := by
  rw [addition, quote_eq]
  simp

theorem breaks_addition (column value : String) : Breaks (addition column value) :=
  breaks_cons rfl (by decide) _

/-- The query of a point. -/
theorem query_of_point {query : List Char} {point : Point}
    (hcolumn : point.seriesColumn = column.toList) (hname : point.seriesName = value.toList)
    (htop : isTopLevel column = true) (hvalue : value.toList ≠ [])
    (hbase : baseFilterQuery query ≠ []) :
    (buildDrillDownQuery query point).query = baseFilterQuery query ++ addition column value := by
  have hne : column.toList ≠ [] := by
    intro hnil
    have hmem : column ∈ topLevelFields := List.contains_iff_mem.mp htop
    rw [String.toList_eq_nil_iff.mp hnil] at hmem
    exact absurd hmem (by decide)
  have hquery : (buildDrillDownQuery query point).query =
      trim (baseFilterQuery query ++ addition column value) := by
    have hseries : point.seriesColumn ≠ [] ∧ point.seriesName ≠ [] :=
      ⟨hcolumn ▸ hne, hname ▸ hvalue⟩
    have hif : (if point.seriesColumn ≠ [] ∧ point.seriesName ≠ [] then
        trim (baseFilterQuery query ++ ' ' :: point.seriesColumn ++
          '=' :: quote point.seriesName) else baseFilterQuery query) =
        trim (baseFilterQuery query ++ addition column value) := by
      rw [if_pos hseries, hcolumn, hname, addition]
      simp
    rw [← hif, buildDrillDownQuery]
    cases point.isTime with
    | false => rfl
    | true =>
      cases point.center with
      | none => rfl
      | some center => rfl
  -- The base is trimmed and the addition ends in a quote, so the outer trim changes nothing.
  rw [hquery]
  obtain ⟨c, cs, hcs⟩ := List.exists_cons_of_ne_nil hbase
  have hc : JsStd.isSpace c = false := by
    refine @TextSearch.trim_head c (cutAtStats query) JsStd.isSpace ?_
    exact congrArg List.head? hcs
  rw [hcs, trim, TextSearch.trim, List.cons_append,
    List.dropWhile_cons_of_neg (by rw [hc]; exact Bool.false_ne_true), addition_eq_concat,
    ← List.cons_append, ← List.append_assoc, List.rdropWhile_concat_neg _ _ _ (by decide)]

/-! ### Panels -/

/-- A panel whose query compiles as a pipe query and counts the groups of a structured column. -/
structure StatsPanel where
  query : List Char
  language : Language
  now : ℤ
  base : BoolExpr
  before : List PipeStage
  aggs : List AggCall
  groupBy : List String
  after : List PipeStage
  plan : Plan
  column : String
  parsed : parse (String.ofList query) = .ok ⟨base, before ++ .statsStage aggs groupBy :: after⟩
  compiled : compile (String.ofList query) language now = .ok (.plan plan)
  single : ∀ p ∈ before ++ after, p.keyword ≠ "stats"
  unlimited : ∀ p ∈ before, p.keyword ≠ "head" ∧ p.keyword ≠ "tail"
  grouped : column ∈ groupBy
  structured : isTopLevel column = true

variable {α : Type} {q : Query} {plan : Plan} {kept : List Char}

theorem split_unique {P : α → Prop} {l₁ l₂ m₁ m₂ : List α} {a b : α}
    (h : l₁ ++ a :: l₂ = m₁ ++ b :: m₂) (ha : P a) (hb : P b) (hm : ∀ x ∈ m₁ ++ m₂, ¬ P x) :
    l₁ = m₁ ∧ a = b ∧ l₂ = m₂ := by
  induction l₁ generalizing m₁ with
  | nil =>
    cases m₁ with
    | nil =>
      obtain ⟨rfl, rfl⟩ := List.cons.inj h
      exact ⟨rfl, rfl, rfl⟩
    | cons m m₁ =>
      obtain ⟨rfl, -⟩ := List.cons.inj h
      exact absurd ha (hm a List.mem_cons_self)
  | cons l l₁ ih =>
    cases m₁ with
    | nil =>
      have hmem : a ∈ m₂ := by
        rw [← (List.cons.inj h).2]
        exact List.mem_append_right _ List.mem_cons_self
      exact absurd ha (hm a hmem)
    | cons m m₁ =>
      obtain ⟨rfl, hrest⟩ := List.cons.inj h
      obtain ⟨rfl, hsame⟩ := ih hrest (fun x hx => hm x (List.mem_cons_of_mem _ hx))
      exact ⟨rfl, hsame⟩

section Panel
variable (p : StatsPanel)

theorem StatsPanel.clean : Clean p.query := by
  have h := clean_of_parse p.parsed
  rwa [String.toList_ofList] at h

theorem StatsPanel.compileQuery_eq :
    isSQL p.query p.language = false ∧
      compileQuery p.now ⟨p.base, p.before ++ .statsStage p.aggs p.groupBy :: p.after⟩ =
        .ok p.plan := by
  obtain ⟨hsql, hplan⟩ := compile_plan_iff.mp p.compiled
  rw [String.toList_ofList] at hsql
  rw [compilePipe, p.parsed] at hplan
  exact ⟨hsql, hplan⟩

variable {p} {pre post : List Char}

/-- What stands in front of a pipe is a query with the stages up to there. -/
theorem StatsPanel.split_at_pipe (hquery : p.query = pre ++ '|' :: post) (hclean : Clean pre) :
    ∃ before' stage after' ls, parse (String.ofList pre) = .ok ⟨p.base, before'⟩ ∧
      before' ++ stage :: after' = p.before ++ .statsStage p.aggs p.groupBy :: p.after ∧
      lexed post = word stage.keyword :: ls := by
  obtain ⟨part, parts, q₀, ps, hseg, hstart, hps, hq⟩ := parse_iff_segments.mp p.parsed
  obtain ⟨hbase, hpipes⟩ := Query.mk.inj hq
  rw [String.toList_ofList, hquery, hclean.append (breaks_pipe post), lexed_pipe] at hseg
  obtain ⟨parts₁, s, parts₂, hpre, hpost, rfl⟩ := hseg.split
  obtain ⟨ps₁, ps₂, rfl, hps₁, hps₂⟩ := forall₂_append_left hps
  cases hps₂ with
  | @cons _ stage _ ps₂ hstage hps₂ =>
    obtain ⟨ls, rfl⟩ := whole_stage_keyword hstage
    refine ⟨q₀.pipes ++ ps₁, stage, ps₂, _, ?_, ?_, hpost.text⟩
    · rw [hbase]
      refine (Segments.parse_iff (by rw [String.toList_ofList]; exact hpre)).mpr ?_
      exact ⟨q₀, ps₁, hstart, hps₁, rfl⟩
    · rw [hpipes, List.append_assoc]

/-- The pattern finds the `stats` stage. -/
theorem StatsPanel.parse_front (hquery : p.query = pre ++ '|' :: post) (hclean : Clean pre)
    (hstats : atStatsStage ('|' :: post) = true) :
    parse (String.ofList pre) = .ok ⟨p.base, p.before⟩ := by
  obtain ⟨before', stage, after', ls, hparse, hpipes, hlex⟩ := p.split_at_pipe hquery hclean
  have hall := p.clean
  rw [hquery, Clean, hclean.append (breaks_pipe post), lexed_pipe] at hall
  have hpost : Clean post :=
    fun l hl => hall l (List.mem_append_right _ (List.mem_cons_of_mem _ hl))
  have hkeyword := keyword_of_atStatsStage hstats hpost hlex
  obtain ⟨rfl, -⟩ := split_unique (P := fun s => s.keyword = "stats") hpipes hkeyword rfl p.single
  exact hparse

theorem StatsPanel.atStatsStage_front (hquery : p.query = pre ++ '|' :: post)
    (hparse : parse (String.ofList pre) = .ok ⟨p.base, p.before⟩) :
    atStatsStage ('|' :: post) = true := by
  have hclean := clean_of_parse hparse
  rw [String.toList_ofList] at hclean
  obtain ⟨before', stage, after', ls, hparse', hpipes, hlex⟩ := p.split_at_pipe hquery hclean
  have hsame := Except.ok.inj (hparse.symm.trans hparse')
  obtain ⟨-, rfl⟩ := Query.mk.inj hsame
  obtain ⟨hstage, -⟩ := List.cons.inj (List.append_cancel_left hpipes)
  rw [hstage] at hlex
  exact atStatsStage_of_lexed hlex

theorem exists_left_of_mem {β : Type} {R : α → β → Prop} {as : List α} {bs : List β} {b : β}
    (h : List.Forall₂ R as bs) (hb : b ∈ bs) : ∃ as₁ a as₂, as = as₁ ++ a :: as₂ ∧ R a b := by
  induction h with
  | nil => cases hb
  | @cons a b' as bs hab _ ih =>
    rcases List.mem_cons.mp hb with rfl | hb
    · exact ⟨[], a, as, rfl, hab⟩
    · obtain ⟨as₁, a', as₂, rfl, hR⟩ := ih hb
      exact ⟨a :: as₁, a', as₂, rfl, hR⟩

theorem start_cases {part : List Lexeme} (h : Whole parseStart part q) :
    q.pipes = [] ∨ ∃ stage, q = ⟨BoolExpr.empty, [stage]⟩ := by
  cases hstage : atPipeStageKeyword (bare part ++ atEnd) with
  | true =>
    obtain ⟨stage, -, rfl⟩ := (whole_start_stage hstage).mp h
    exact .inr ⟨stage, rfl⟩
  | false =>
    obtain ⟨a, -, rfl⟩ := (whole_start_search hstage).mp h
    exact .inl rfl

/-- A pattern that is found nowhere: the query begins with its `stats` stage. -/
theorem StatsPanel.leads (hnone : searchStatsStage p.query = none) :
    p.base = BoolExpr.empty ∧ p.before = [] := by
  obtain ⟨part, parts, q₀, ps, hseg, hstart, hps, hq⟩ := parse_iff_segments.mp p.parsed
  obtain ⟨hbase, hpipes⟩ := Query.mk.inj hq
  rw [String.toList_ofList] at hseg
  -- A `stats` stage behind a pipe would have been found.
  have hstage : ∀ stage ∈ ps, stage.keyword ≠ "stats" := by
    intro stage hmem hkeyword
    obtain ⟨parts₁, s, parts₂, rfl, hwhole⟩ := exists_left_of_mem hps hmem
    obtain ⟨ls, rfl⟩ := whole_stage_keyword hwhole
    have htext : lexed p.query = (part ++ parts₁.flatMap (symbol .pipe :: ·)) ++
        symbol .pipe :: (word stage.keyword :: (ls ++ parts₂.flatMap (symbol .pipe :: ·))) := by
      rw [hseg.text]
      simp
    obtain ⟨pre, post, hquery, hpost⟩ := exists_pipe htext
    rw [hkeyword] at hpost
    rw [hquery, searchStatsStage_append (atStatsStage_of_lexed hpost)] at hnone
    cases hnone
  obtain hnil | ⟨stage, rfl⟩ := start_cases hstart
  · have hmem : PipeStage.statsStage p.aggs p.groupBy ∈ ps := by
      rw [hnil, List.nil_append] at hpipes
      rw [← hpipes]
      exact List.mem_append_right _ List.mem_cons_self
    exact absurd rfl (hstage _ hmem)
  · refine ⟨hbase, ?_⟩
    cases hbefore : p.before with
    | nil => rfl
    | cons stage' before =>
      have hmem : PipeStage.statsStage p.aggs p.groupBy ∈ ps := by
        rw [hbefore] at hpipes
        rw [show ps = _ from (List.cons.inj hpipes).2.symm]
        exact List.mem_append_right _ List.mem_cons_self
      exact absurd rfl (hstage _ hmem)

end Panel

/-! ### Rows -/

section Rows
variable {V : Type} (E : Engine V) (hits : String → List String)

/-- The filters of a plan on a row; `hits` are the records that the index finds for a text. -/
def picks (plan : Plan) (r : LogRow V) : Bool :=
  plan.textSearch.all (fun text => Cond.holds E r (.recordIn (hits text))) &&
    (condsOf plan []).all (Cond.holds E r)

theorem picks_filter (plan : Plan) (f : FilterPredicate) (r : LogRow V) :
    picks E hits { plan with filters := plan.filters ++ [f] } r =
      (picks E hits plan r && (comparisonOf f).holds E r) := by
  simp only [picks, condsOf, List.map_append, List.map_cons, List.map_nil, List.all_append,
    List.all_cons, List.all_nil, Bool.and_true, ne_eq, not_true_eq_false, if_false, Bool.true_and]
  ac_rfl

theorem picks_emptyPlan (r : LogRow V) : picks E hits emptyPlan r = true := rfl

end Rows

theorem compileQuery_front {now : ℤ} {base : BoolExpr} {ps ps' : List PipeStage}
    (h : compileQuery now ⟨base, ps ++ ps'⟩ = .ok plan) :
    ∃ plan₀, compileQuery now ⟨base, ps⟩ = .ok plan₀ := by
  obtain ⟨⟨parts, plan₁⟩, hbase, h⟩ := bind_eq_ok.mp h
  obtain ⟨⟨parts', plan₂⟩, hpipes, -⟩ := bind_eq_ok.mp h
  rw [compileStages_append] at hpipes
  cases hfront : compileStages now ps parts plan₁ with
  | error e =>
    rw [hfront] at hpipes
    cases hpipes
  | ok x =>
    by_cases hnil : x.1 = []
    · exact ⟨_, bind_eq_ok.mpr ⟨_, hbase, bind_eq_ok.mpr ⟨x, hfront, if_pos hnil⟩⟩⟩
    · exact ⟨_, bind_eq_ok.mpr ⟨_, hbase, bind_eq_ok.mpr ⟨x, hfront, if_neg hnil⟩⟩⟩

/-! ### The cut -/

theorem searchStatsStage_take (h : searchStatsStage cs = some i) :
    searchStatsStage (cs.take i) = none := by
  obtain ⟨post, hcs, hstats⟩ := searchStatsStage_some h
  have hlen : (cs.take i).length = i := List.length_take_of_le (searchStatsStage_lt h).le
  have hfound := searchStatsStage_append hstats (cs.take i)
  rw [← hcs, h, hlen] at hfound
  cases hpre : searchStatsStage (cs.take i) with
  | none => rfl
  | some j =>
    have hlt := searchStatsStage_lt hpre
    rw [hpre] at hfound
    have hij : i = j := Option.some.inj hfound
    omega

theorem cutAtStats_of_some (h : searchStatsStage cs = some i) : cutAtStats cs = cs.take i := by
  rw [cutAtStats, h]

theorem cutAtStats_of_none (h : searchStatsStage cs = none) : cutAtStats cs = cs := by
  rw [cutAtStats, h]

/-- The query is not cut, or cut within a string, or in front of its `stats` stage. -/
theorem StatsPanel.cut_cases (p : StatsPanel) :
    searchStatsStage p.query = none ∨
    (∃ ls body, Read (cutAtStats p.query) ls (some body) ∧ ∀ l ∈ ls, l.1 ≠ .illegal) ∨
    ∃ post, p.query = cutAtStats p.query ++ '|' :: post ∧
      searchStatsStage (cutAtStats p.query) = none ∧
      parse (String.ofList (cutAtStats p.query)) = .ok ⟨p.base, p.before⟩ := by
  cases hsearch : searchStatsStage p.query with
  | none => exact .inl rfl
  | some i =>
    obtain ⟨post, hquery, hstats⟩ := searchStatsStage_some hsearch
    rw [cutAtStats_of_some hsearch]
    refine .inr ?_
    have hclean := p.clean
    -- The search does not know about strings: the pipe may stand inside one.
    obtain ⟨ls, o, hr⟩ := exists_read (p.query.take i)
    cases o with
    | some body =>
      obtain ⟨ls', o', hr'⟩ := exists_read ('"' :: (body ++ '|' :: post))
      have hall := (hr.append_inside hr' (breaks_pipe post)).lexed
      rw [← hquery] at hall
      refine .inl ⟨ls, body, hr, fun l hl => hclean l ?_⟩
      rw [hall]
      exact List.mem_append_left _ (List.mem_append_left _ hl)
    | none =>
      obtain ⟨ls', o', hr'⟩ := exists_read ('|' :: post)
      have hall := (hr.append (breaks_pipe post) hr').lexed
      rw [← hquery] at hall
      have hfront : Clean (p.query.take i) := by
        intro l hl
        rw [hr.lexed, Option.map_none, Option.toList_none, List.append_nil] at hl
        refine hclean l ?_
        rw [hall]
        exact List.mem_append_left _ (List.mem_append_left _ hl)
      exact .inr ⟨post, hquery, searchStatsStage_take hsearch, p.parse_front hquery hfront hstats⟩

/-! ### The query of a point -/

theorem trims_go : Trims GoStrings.isSpace := trims_blanks (by decide) (by decide)

theorem isSQL_congr {cs' : List Char} (language : Language)
    (h : GoStrings.firstField cs = GoStrings.firstField cs') :
    isSQL cs language = isSQL cs' language := by
  cases language with
  | auto =>
    show looksLikeSQL cs = looksLikeSQL cs'
    rw [looksLikeSQL_eq, looksLikeSQL_eq, h]
  | sql => rfl
  | spl => rfl

theorem firstField_of_clean (h : Clean cs) : GoStrings.firstField cs =
    (skipWhitespace cs).takeWhile (fun c => !GoStrings.isSpace c) := by
  rw [GoStrings.firstField, h.dropWhile_eq trims_go]

/-- The blanks that are cut off do not change the first field. -/
theorem firstField_trim (h : Clean cs) :
    GoStrings.firstField (trim cs) = GoStrings.firstField cs := by
  have htrim : trim cs = (skipWhitespace cs).rdropWhile JsStd.isSpace := by
    rw [trim, TextSearch.trim, h.dropWhile_eq trims_isSpace]
  have hkept : Clean (trim cs) := by
    rw [Clean, trim, TextSearch.trim, lexed_trim trims_isSpace h]
    exact h
  have hskip : Clean (skipWhitespace cs) := by
    rw [← h.dropWhile_eq trims_isSpace, Clean, lexed_dropWhile trims_isSpace h]
    exact h
  have hblank : ∀ c ∈ ((skipWhitespace cs).rtakeWhile JsStd.isSpace).head?,
      GoStrings.isSpace c = true := by
    intro c hc
    have hmem := List.mem_of_mem_head? hc
    have hnil := lexed_eq_nil_iff.mp (hskip.rdropWhile_lexed trims_isSpace).2
    exact trims_go.spaces c (List.dropWhile_eq_nil_iff.mp hnil c hmem)
  rw [firstField_of_clean hkept, firstField_of_clean h, skipWhitespace_trim, htrim,
    ← GoStrings.takeWhile_append_spaces hblank, List.rdropWhile_append_rtakeWhile]

theorem trim_cons (h : Clean cs) (hne : lexed cs ≠ []) :
    ∃ c rest, trim cs = c :: rest ∧ GoStrings.isSpace c = false := by
  have hlex : lexed (trim cs) = lexed cs := lexed_trim trims_isSpace h
  cases htrim : trim cs with
  | nil =>
    rw [htrim] at hlex
    exact absurd (hlex.symm.trans (lexed_of_nil rfl)) hne
  | cons c rest =>
    have hkept : Clean (trim cs) := by
      rw [Clean, hlex]
      exact h
    have hout := hkept.first ((skipWhitespace_trim cs).trans htrim)
    refine ⟨c, rest, rfl, ?_⟩
    by_contra hspace
    rw [trims_go.outside c (Bool.not_eq_false _ ▸ hspace)] at hout
    cases hout

theorem isSQL_drilled (h : Clean kept) (hne : lexed kept ≠ []) (language : Language)
    (column value : String) :
    isSQL (trim kept ++ addition column value) language = isSQL kept language := by
  obtain ⟨c, rest, htrim, hc⟩ := trim_cons h hne
  refine isSQL_congr language ?_
  rw [← firstField_trim h, htrim, GoStrings.firstField, GoStrings.firstField, List.cons_append,
    List.dropWhile_cons_of_neg (by simp [hc]), List.dropWhile_cons_of_neg (by simp [hc]),
    ← List.cons_append, GoStrings.takeWhile_append_spaces]
  intro d hd
  cases hd
  rfl

theorem lexed_drilled (h : Clean kept) (hcolumn : isTopLevel column = true) (value : String) :
    lexed (trim kept ++ addition column value) =
      lexed kept ++ comparisonLexemes column value := by
  have hlex : lexed (trim kept) = lexed kept := lexed_trim trims_isSpace h
  have hkept : Clean (trim kept) := by
    rw [Clean, hlex]
    exact h
  rw [hkept.append (breaks_addition column value), hlex, lexed_addition hcolumn]

/-- What the kept text compiles to with the group behind it. -/
theorem compile_drilled_iff {now : ℤ} (hparse : parse (String.ofList kept) = .ok q)
    (hplan : compileQuery now q = .ok plan) (hcolumn : isTopLevel column = true) (value : String)
    (language : Language) {plan' : Plan} :
    compile (String.ofList (trim kept ++ addition column value)) language now =
        .ok (.plan plan') ↔
      isSQL kept language = false ∧ (∀ s ∈ q.pipes.getLast?, ∃ e, s = .whereStage e) ∧
        plan' = { plan with filters := plan.filters ++ [⟨column, .eq, value⟩] } := by
  have hclean := clean_of_parse hparse
  have hne := lexed_ne_nil_of_parse hparse
  rw [String.toList_ofList] at hclean hne
  have hread {q' : Query} :
      parse (String.ofList (trim kept ++ addition column value)) = .ok q' ↔
        q.withTerm (.comparison column .eq value) = some q' := by
    refine parse_appended_iff hcolumn hparse ?_
    rw [String.toList_ofList, String.toList_ofList, lexed_drilled hclean hcolumn]
  have hwf := (parse_ok_wellFormed hparse).1
  rw [compile_plan_iff, String.toList_ofList, isSQL_drilled hclean hne, compilePipe_eq_ok,
    ← @Query.withTerm_isSome (.comparison column .eq value) q, Option.isSome_iff_exists]
  refine and_congr_right fun _ => ?_
  constructor
  · rintro ⟨q', hq', hcompiled⟩
    have hterm := hread.mp hq'
    rw [compileQuery_withTerm hwf hplan hterm] at hcompiled
    exact ⟨⟨q', hterm⟩, (Except.ok.inj hcompiled).symm⟩
  · rintro ⟨⟨q', hterm⟩, rfl⟩
    exact ⟨q', hread.mpr hterm, compileQuery_withTerm hwf hplan hterm⟩

/-! ### The rows behind a point -/

/-- A point of the series of one group, on an axis that is not time. -/
def groupPoint (column value : String) (center : Option ℤ) (bucketMs : ℕ) : Point :=
  ⟨value.toList, column.toList, center, false, bucketMs⟩

/-- The query that the panel drills down to. -/
def StatsPanel.drilled (p : StatsPanel) (value : String) (center : Option ℤ) (bucketMs : ℕ) :
    String :=
  String.ofList (buildDrillDownQuery p.query (groupPoint p.column value center bucketMs)).query

section Shown
variable {V : Type} (E : Engine V) (hits : String → List String) (table : List (LogRow V))

/-- A row is in the group of a value. -/
def StatsPanel.inGroup (p : StatsPanel) (value : String) (r : LogRow V) : Bool :=
  E.compare (r.column p.column) .eq (.literal value)

/-- The text compiles, and its filters pick the rows of the group among those that the stages in
front of `stats` leave. -/
def StatsPanel.ShowsRows (p : StatsPanel) (value text : String) : Prop :=
  ∃ plan₀ plan', compileQuery p.now ⟨p.base, p.before⟩ = .ok plan₀ ∧
    compile text p.language p.now = .ok (.plan plan') ∧
    table.filter (picks E hits plan') =
      table.filter (fun r => picks E hits plan₀ r && p.inGroup E value r)

/-- What stands in front of the pipe of the `stats` stage ends in a search, has no `| stats` in
a string, and is not taken for SQL on its own. -/
def StatsPanel.EndsInSearch (p : StatsPanel) : Prop :=
  ∃ front post, p.query = front ++ '|' :: post ∧
    parse (String.ofList front) = .ok ⟨p.base, p.before⟩ ∧
    searchStatsStage front = none ∧
    isSQL front p.language = false ∧
    ∀ s ∈ p.before.getLast?, ∃ e, s = .whereStage e

/-- The query begins with its `stats` stage and ends in a search, and no search of it leaves out
a row of the group. -/
def StatsPanel.KeepsGroup (p : StatsPanel) (value : String) : Prop :=
  searchStatsStage p.query = none ∧ (∃ e, p.after.getLast? = some (.whereStage e)) ∧
    ∀ r ∈ table, p.inGroup E value r = true → picks E hits p.plan r = true

variable {E hits table} {p : StatsPanel}

theorem StatsPanel.holds_group (value : String) (r : LogRow V) :
    (comparisonOf ⟨p.column, .eq, value⟩).holds E r = p.inGroup E value r := by
  rw [comparisonOf, if_neg (by simp [p.structured]), columnOf, if_pos p.structured]
  rfl

theorem filter_eq_iff {f g : α → Bool} {l : List α} :
    l.filter f = l.filter g ↔ ∀ x ∈ l, f x = g x := by
  refine ⟨fun h x hx => ?_, List.filter_congr⟩
  have hmem : x ∈ l.filter f ↔ x ∈ l.filter g := by rw [h]
  simp only [List.mem_filter, hx, true_and] at hmem
  exact Bool.eq_iff_iff.mpr hmem

theorem StatsPanel.drilled_eq (hvalue : value ≠ "") (center : Option ℤ) (bucketMs : ℕ)
    (hbase : baseFilterQuery p.query ≠ []) :
    p.drilled value center bucketMs =
      String.ofList (baseFilterQuery p.query ++ addition p.column value) := by
  have hne : value.toList ≠ [] := fun hnil => hvalue (String.toList_eq_nil_iff.mp hnil)
  rw [StatsPanel.drilled, query_of_point rfl rfl p.structured hne hbase]

/-- A text that is kept and read in full. -/
theorem StatsPanel.showsRows_of_parse (hparse : parse (String.ofList (cutAtStats p.query)) = .ok q)
    (hplan : compileQuery p.now q = .ok plan) (hvalue : value ≠ "") (center : Option ℤ)
    (bucketMs : ℕ) :
    p.ShowsRows E hits table value (p.drilled value center bucketMs) ↔
      isSQL (cutAtStats p.query) p.language = false ∧
      (∀ s ∈ q.pipes.getLast?, ∃ e, s = .whereStage e) ∧
      ∃ plan₀, compileQuery p.now ⟨p.base, p.before⟩ = .ok plan₀ ∧
        ∀ r ∈ table, (picks E hits plan r && p.inGroup E value r) =
          (picks E hits plan₀ r && p.inGroup E value r) := by
  have hclean := clean_of_parse hparse
  have hne := lexed_ne_nil_of_parse hparse
  rw [String.toList_ofList] at hclean hne
  obtain ⟨c, rest, htrim, -⟩ := trim_cons hclean hne
  have hbase : baseFilterQuery p.query ≠ [] := by
    rw [baseFilterQuery, htrim]
    exact List.cons_ne_nil c rest
  rw [p.drilled_eq hvalue center bucketMs hbase]
  constructor
  · rintro ⟨plan₀, plan', hplan₀, hcompiled, hrows⟩
    obtain ⟨hsql, hlast, rfl⟩ :=
      (compile_drilled_iff hparse hplan p.structured value p.language).mp hcompiled
    refine ⟨hsql, hlast, plan₀, hplan₀, fun r hr => ?_⟩
    have hrow := filter_eq_iff.mp hrows r hr
    rwa [picks_filter, p.holds_group] at hrow
  · rintro ⟨hsql, hlast, plan₀, hplan₀, hrows⟩
    refine ⟨plan₀, _, hplan₀,
      (compile_drilled_iff hparse hplan p.structured value p.language).mpr ⟨hsql, hlast, rfl⟩,
      filter_eq_iff.mpr fun r hr => ?_⟩
    rw [picks_filter, p.holds_group]
    exact hrows r hr

theorem topLevel_plain (h : isTopLevel column = true) :
    ∀ d ∈ column.toList, d ≠ '"' ∧ d ≠ '\\' := by
  have hall : topLevelFields.all
      (fun name => name.toList.all (fun d => decide (d ≠ '"' ∧ d ≠ '\\'))) = true := by decide
  have hcolumn := List.all_eq_true.mp hall column (List.contains_iff_mem.mp h)
  exact fun d hd => of_decide_eq_true (List.all_eq_true.mp hcolumn d hd)

/-- A query that is cut within a string is no query any more. -/
theorem StatsPanel.not_showsRows_of_open {body : List Char}
    (hread : Read (cutAtStats p.query) ls (some body)) (hls : ∀ l ∈ ls, l.1 ≠ .illegal)
    (hvalue : value ≠ "") (center : Option ℤ) (bucketMs : ℕ) :
    ¬ p.ShowsRows E hits table value (p.drilled value center bucketMs) := by
  obtain ⟨ls', body', htrim⟩ := hread.trim_open trims_isSpace hls
  -- The quote that opens the string is no blank.
  have hbase : baseFilterQuery p.query ≠ [] := by
    intro hnil
    rw [show (((cutAtStats p.query).dropWhile JsStd.isSpace).rdropWhile JsStd.isSpace) = []
      from hnil] at htrim
    have hclosed := htrim.closed List.not_mem_nil
    cases hclosed
  rw [p.drilled_eq hvalue center bucketMs hbase]
  rintro ⟨plan₀, plan', -, hcompiled, -⟩
  obtain ⟨-, hpipe⟩ := compile_plan_iff.mp hcompiled
  obtain ⟨q, hparse, -⟩ := compilePipe_eq_ok.mp hpipe
  have hclean := clean_of_parse hparse
  rw [String.toList_ofList] at hclean
  have hplain : ∀ d ∈ ' ' :: (p.column.toList ++ ['=']), d ≠ '"' ∧ d ≠ '\\' := by
    intro d hd
    rcases List.mem_cons.mp hd with rfl | hd
    · decide
    · rcases List.mem_append.mp hd with hd | hd
      · exact topLevel_plain p.structured d hd
      · rw [List.mem_singleton.mp hd]
        decide
  -- The quote of the added value closes the string, and the last one opens another.
  refine htrim.quoted_not_clean hplain (breaks_cons rfl (by decide) _) value.toList ?_
  have htext : addition p.column value = ' ' :: (p.column.toList ++ ['=']) ++
      '"' :: (EscapedQuote.escape '"' '\\' value.toList ++ ['"']) := by
    rw [addition, quote_eq]
    simp
  rw [htext] at hclean
  exact hclean

theorem StatsPanel.showsRows_of_front (hvalue : value ≠ "") (center : Option ℤ) (bucketMs : ℕ)
    (hparse : parse (String.ofList (cutAtStats p.query)) = .ok ⟨p.base, p.before⟩) :
    p.ShowsRows E hits table value (p.drilled value center bucketMs) ↔
      isSQL (cutAtStats p.query) p.language = false ∧
      ∀ s ∈ p.before.getLast?, ∃ e, s = .whereStage e := by
  obtain ⟨plan, hplan⟩ := compileQuery_front p.compileQuery_eq.2
  rw [p.showsRows_of_parse hparse hplan hvalue center bucketMs]
  constructor
  · rintro ⟨hsql, hlast, -⟩
    exact ⟨hsql, hlast⟩
  · rintro ⟨hsql, hlast⟩
    exact ⟨hsql, hlast, plan, hplan, fun _ _ => rfl⟩

theorem getLast?_stats {aggs : List AggCall} {groupBy : List String} {after : List PipeStage} :
    (∀ s ∈ (PipeStage.statsStage aggs groupBy :: after).getLast?, ∃ e, s = .whereStage e) ↔
      ∃ e, after.getLast? = some (.whereStage e) := by
  rw [List.getLast?_cons]
  cases after.getLast? with
  | none => simp
  | some s => simp

theorem StatsPanel.showsRows_of_leads (hvalue : value ≠ "") (center : Option ℤ) (bucketMs : ℕ)
    (hnone : searchStatsStage p.query = none) :
    p.ShowsRows E hits table value (p.drilled value center bucketMs) ↔
      p.KeepsGroup E hits table value := by
  obtain ⟨hbase, hbefore⟩ := p.leads hnone
  obtain ⟨hsql, hplan⟩ := p.compileQuery_eq
  -- Nothing stands in front of the stage, so the panel counts all rows.
  have hempty : compileQuery p.now ⟨p.base, p.before⟩ = .ok emptyPlan := by
    rw [hbase, hbefore]
    rfl
  have hparse : parse (String.ofList (cutAtStats p.query)) =
      .ok ⟨p.base, p.before ++ .statsStage p.aggs p.groupBy :: p.after⟩ := by
    rw [cutAtStats_of_none hnone]
    exact p.parsed
  rw [p.showsRows_of_parse hparse hplan hvalue center bucketMs, cutAtStats_of_none hnone]
  dsimp only
  rw [hbefore, List.nil_append, getLast?_stats, StatsPanel.KeepsGroup]
  constructor
  · rintro ⟨-, hlast, plan₀, hplan₀, hrows⟩
    rw [← hbefore, hempty] at hplan₀
    obtain rfl := Except.ok.inj hplan₀
    refine ⟨hnone, hlast, fun r hr hgroup => ?_⟩
    have hrow := hrows r hr
    rwa [hgroup, Bool.and_true, Bool.and_true, picks_emptyPlan] at hrow
  · rintro ⟨-, hlast, hrows⟩
    refine ⟨hsql, hlast, emptyPlan, hbefore ▸ hempty, fun r hr => ?_⟩
    rw [picks_emptyPlan, Bool.true_and]
    cases hgroup : p.inGroup E value r with
    | false => exact Bool.and_false _
    | true => rw [hrows r hr hgroup, Bool.true_and]

theorem StatsPanel.cutAtStats_front {front : List Char} (hquery : p.query = front ++ '|' :: post)
    (hparse : parse (String.ofList front) = .ok ⟨p.base, p.before⟩)
    (hnone : searchStatsStage front = none) : cutAtStats p.query = front := by
  have hfound := searchStatsStage_append (p.atStatsStage_front hquery hparse) front
  rw [hnone, Option.getD_none, ← hquery] at hfound
  rw [cutAtStats_of_some hfound, hquery, List.take_left']
  rfl

/-- The rows behind a point are shown just if the query ends in a search in front of its `stats`
stage, or begins with that stage and none of its searches leaves out a row of the group. -/
theorem drill_down_shows_rows_iff (p : StatsPanel) (E : Engine V) (hits : String → List String)
    (table : List (LogRow V)) {value : String} (hvalue : value ≠ "") (center : Option ℤ)
    (bucketMs : ℕ) :
    p.ShowsRows E hits table value (p.drilled value center bucketMs) ↔
      p.EndsInSearch ∨ p.KeepsGroup E hits table value := by
  constructor
  · intro hshows
    obtain hnone | ⟨ls, body, hread, hls⟩ | ⟨post, hquery, hnone, hparse⟩ := p.cut_cases
    · exact .inr ((p.showsRows_of_leads hvalue center bucketMs hnone).mp hshows)
    · exact absurd hshows (p.not_showsRows_of_open hread hls hvalue center bucketMs)
    · obtain ⟨hsql, hlast⟩ := (p.showsRows_of_front hvalue center bucketMs hparse).mp hshows
      exact .inl ⟨_, post, hquery, hparse, hnone, hsql, hlast⟩
  · rintro (⟨front, post, hquery, hparse, hnone, hsql, hlast⟩ | hkeeps)
    · have hcut := p.cutAtStats_front hquery hparse hnone
      refine (p.showsRows_of_front hvalue center bucketMs (hcut ▸ hparse)).mpr ⟨?_, hlast⟩
      rw [hcut]
      exact hsql
    · exact (p.showsRows_of_leads hvalue center bucketMs hkeeps.1).mpr hkeeps

end Shown

/-- Texts that are compared for equality only. -/
def textEngine : Engine String where
  compare v op w := match op, w with
    | .eq, .literal text => v == text
    | _, _ => false
  toFloat v := v
  count n := toString n
  aggregate _ _ := ""
  missing := ""

/-- A row with this host and severity. -/
def hostRow (host severity : String) : LogRow String where
  column name := if name = "host" then host else if name = "severity" then severity else ""
  attr _ := ""

/-- Errors, counted for each host. -/
def errorsPanel : StatsPanel where
  query := "severity=error | stats count by host".toList
  language := .auto
  now := 0
  base := ⟨[.comparison "severity" .eq "error"], []⟩
  before := []
  aggs := [⟨.count, "", ""⟩]
  groupBy := ["host"]
  after := []
  plan := { emptyPlan with
    filters := [⟨"severity", .eq, "error"⟩]
    aggregation := some ⟨[⟨.count, "", "count"⟩], ["host"]⟩ }
  column := "host"
  parsed := by decide +kernel
  compiled := by decide +kernel
  single := by decide
  unlimited := by decide
  grouped := by decide
  structured := by decide

theorem drill_down_errors_of_host :
    errorsPanel.ShowsRows textEngine (fun _ => [])
      [hostRow "web-1" "error", hostRow "web-2" "error", hostRow "web-1" "info"] "web-1"
      (errorsPanel.drilled "web-1" none 0) := by
  refine (drill_down_shows_rows_iff errorsPanel textEngine _ _ (by decide) none 0).mpr (.inl ?_)
  exact ⟨"severity=error ".toList, " stats count by host".toList, by decide, by decide +kernel,
    by decide +kernel, by decide +kernel, fun s hs => by cases hs⟩

/-- All rows, counted for each host. -/
def countPanel : StatsPanel where
  query := "stats count by host".toList
  language := .auto
  now := 0
  base := BoolExpr.empty
  before := []
  aggs := [⟨.count, "", ""⟩]
  groupBy := ["host"]
  after := []
  plan := { emptyPlan with aggregation := some ⟨[⟨.count, "", "count"⟩], ["host"]⟩ }
  column := "host"
  parsed := by decide +kernel
  compiled := by decide +kernel
  single := by decide
  unlimited := by decide
  grouped := by decide
  structured := by decide

/-- The group is added behind the `stats` stage, where no term may stand. -/
theorem drill_down_leading_stats :
    countPanel.drilled "web-1" none 0 = "stats count by host host=\"web-1\"" ∧
    ¬ countPanel.ShowsRows textEngine (fun _ => []) [hostRow "web-1" "info"] "web-1"
      (countPanel.drilled "web-1" none 0) := by
  have htext : countPanel.drilled "web-1" none 0 = "stats count by host host=\"web-1\"" := by
    decide +kernel
  refine ⟨htext, ?_⟩
  rintro ⟨plan₀, plan', -, hcompiled, -⟩
  obtain ⟨-, hpipe⟩ := compile_plan_iff.mp hcompiled
  obtain ⟨q, hparse, -⟩ := compilePipe_eq_ok.mp hpipe
  have hfails : (parse (countPanel.drilled "web-1" none 0)).toOption = none := by decide +kernel
  rw [hparse] at hfails
  cases hfails

end CairnObs.Web.DrillDown
