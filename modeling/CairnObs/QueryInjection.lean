import CairnObs.QueryRoundTrip
import CairnObs.QueryStatementText

/-! What reaches the database: the tokens of the statement for an accepted query, up to the
texts in names, literals and numbers, are given by the shape of the plan, and each of these
texts is one that the user supplied. -/
namespace CairnObs.QueryLang
open Fallible
open SqlLexer (SqlToken)

variable {α β : Type}

/-! ### Names in the plan -/

theorem isName_of_isIdentText {s : String} (h : isIdentText s = true) : isName s = true := by
  unfold isIdentText at h
  unfold isName
  cases hs : s.toList with
  | nil => rfl
  | cons c cs =>
    rw [hs] at h
    simp only [Bool.and_eq_true] at h
    rw [List.all_cons, h.2, Bool.and_true]
    simp [isIdentPart, h.1]

theorem isName_append {s t : String} (hs : isName s = true) (ht : isName t = true) :
    isName (s ++ t) = true := by
  simp only [isName, String.toList_append, List.all_append, Bool.and_eq_true] at *
  exact ⟨hs, ht⟩

theorem isName_aggAlias {seen : List String} {a : AggCall} (h : a.WellFormed) :
    isName (aggAlias seen a) = true := by
  have hfunc : isName a.func.text = true := by cases a.func <;> decide
  have hfield : isName a.field = true := by
    rcases h.field with he | hf
    · rw [he]
      rfl
    · exact isName_of_isIdentText hf
  unfold aggAlias
  split
  · split
    · exact isName_append (isName_append hfunc (by decide)) hfield
    · exact hfunc
  · rename_i hne
    exact isName_of_isIdentText (h.aliasName.resolve_left hne)

theorem compileAggs_aliases {aggs : List AggCall} {seen : List String} {funcs : List Aggregate}
    (hwf : ∀ a ∈ aggs, a.WellFormed) (h : compileAggs aggs seen = .ok funcs) :
    ∀ f ∈ funcs, isName f.aliasName = true := by
  induction aggs generalizing seen funcs with
  | nil =>
    cases h
    simp
  | cons a as ih =>
    simp only [compileAggs] at h
    split at h
    · cases h
    · obtain ⟨rest, hrest, h⟩ := bind_eq_ok.mp h
      cases h
      intro f hf
      rcases List.mem_cons.mp hf with rfl | hf
      · exact isName_aggAlias (hwf a List.mem_cons_self)
      · exact ih (fun b hb => hwf b (List.mem_cons_of_mem _ hb)) hrest f hf

theorem emptyPlan_named : emptyPlan.Named where
  fields := by simp [emptyPlan]
  groupBy := by simp [emptyPlan]
  aliases := by simp [emptyPlan]

variable {plan plan' : Plan} {now : ℤ} {parts : List String}

theorem Plan.Named.compileBoolExpr {e : BoolExpr} (hn : plan.Named)
    (h : compileBoolExpr now e plan = .ok (parts, plan')) : plan'.Named := by
  rw [compileBoolExpr_frame h]
  exact ⟨hn.fields, hn.groupBy, hn.aliases⟩

/-- One stage of a parsed query keeps the names such that they can be written. -/
theorem Plan.Named.compileStage {p : PipeStage} (hwf : p.WellFormed) {parts' : List String}
    (hn : plan.Named) (h : compileStage now p parts plan = .ok (parts', plan')) : plan'.Named := by
  cases p with
  | whereStage expr =>
    obtain ⟨⟨more, plan₁⟩, he, h⟩ := bind_eq_ok.mp h
    cases h
    exact hn.compileBoolExpr he
  | statsStage aggs by_ =>
    obtain ⟨agg, hagg, h⟩ := bind_eq_ok.mp h
    obtain ⟨funcs, hfuncs, hagg⟩ := bind_eq_ok.mp hagg
    cases hagg
    cases h
    refine ⟨hn.fields, ?_, ?_⟩
    · rintro _ ⟨⟩ g hg
      exact isName_of_isIdentText (hwf.2 g hg)
    · rintro _ ⟨⟩
      exact compileAggs_aliases hwf.1 hfuncs
  | sortStage fields =>
    cases h
    exact ⟨hn.fields, hn.groupBy, hn.aliases⟩
  | fieldsStage fields =>
    cases h
    refine ⟨?_, hn.groupBy, hn.aliases⟩
    intro f hf
    rcases List.mem_append.mp hf with hf | hf
    · exact hn.fields f hf
    · exact isName_of_isIdentText (hwf f hf)
  | headStage n =>
    cases h
    exact ⟨hn.fields, hn.groupBy, hn.aliases⟩
  | tailStage n =>
    cases h
    exact ⟨hn.fields, hn.groupBy, hn.aliases⟩

theorem Plan.Named.compileStages {ps : List PipeStage} (hwf : ∀ p ∈ ps, p.WellFormed)
    {parts' : List String} (hn : plan.Named)
    (h : compileStages now ps parts plan = .ok (parts', plan')) : plan'.Named := by
  induction ps generalizing parts plan with
  | nil =>
    cases h
    exact hn
  | cons p ps ih =>
    obtain ⟨⟨parts₁, plan₁⟩, hp, hps⟩ := bind_eq_ok.mp h
    exact ih (fun r hr => hwf r (List.mem_cons_of_mem _ hr))
      (hn.compileStage (hwf p List.mem_cons_self) hp) hps

theorem compilePipe_named {query : String} (h : compilePipe query now = .ok plan) : plan.Named := by
  unfold compilePipe at h
  split at h
  · cases h
  · rename_i q hparse
    obtain ⟨⟨parts₁, plan₁⟩, hbase, h⟩ := bind_eq_ok.mp h
    obtain ⟨⟨parts₂, plan₂⟩, hpipes, h⟩ := bind_eq_ok.mp h
    have hn := (emptyPlan_named.compileBoolExpr hbase).compileStages
      (parse_ok_wellFormed hparse).1.pipes hpipes
    dsimp only at h
    split at h <;> cases h
    · exact hn
    · exact ⟨hn.fields, hn.groupBy, hn.aliases⟩

/-! ### The shape of a plan -/

/-- `number` is set if the value is compared as a number, to whether that is negative. -/
structure FilterShape where
  topLevel : Bool
  op : Op
  number : Option Bool
  deriving DecidableEq, Repr

/-- A field shows only whether it is written as an identifier (a column of the table, or an
alias) or as a key of the attributes. -/
structure PlanShape where
  ids : ℕ
  filters : List FilterShape
  earliest : Bool
  latest : Bool
  aggregation : Option (List Bool × List (AggFunc × Bool))
  fields : List Bool
  sort : List (Bool × Bool)
  limit : Option Bool
  deriving DecidableEq, Repr

def FilterPredicate.cast (f : FilterPredicate) : Bool :=
  !isTopLevel f.field && isNumericLiteral f.value

def FilterPredicate.shape (f : FilterPredicate) : FilterShape where
  topLevel := isTopLevel f.field
  op := f.op
  number := if f.cast then some (splitSign f.value).1 else none

def Aggregation.shape (agg : Aggregation) : List Bool × List (AggFunc × Bool) :=
  (agg.groupBy.map isTopLevel, agg.funcs.map (fun f => (f.func, isTopLevel f.field)))

def Plan.isIdentKey (plan : Plan) (field : String) : Bool :=
  isTopLevel field ||
    (plan.aggregation.map (fun agg => agg.funcs.any (fun f => f.aliasName == field))).getD false

def Plan.shape (plan : Plan) (ids : ℕ) : PlanShape where
  ids := ids
  filters := plan.filters.map FilterPredicate.shape
  earliest := (plan.timeRange.map (fun r => r.from_ != zeroTime)).getD false
  latest := (plan.timeRange.map (fun r => r.to_ != zeroTime)).getD false
  aggregation := plan.aggregation.map Aggregation.shape
  fields := plan.fields.map isTopLevel
  sort := plan.sort.map (fun s => (plan.isIdentKey s.field, s.desc))
  limit := plan.limit.map Limit.tail

/-! ### The skeleton of the statement for a shape -/

def columnSkeleton (ident : Bool) : Expr Unit := if ident then .column () else .attr ()

def FilterShape.cond (f : FilterShape) : Cond Unit :=
  match f.number with
  | some negative => .compare (.toFloat (columnSkeleton f.topLevel)) f.op (.number negative ())
  | none => .compare (columnSkeleton f.topLevel) f.op (.literal ())

def aggregateSkeleton (f : AggFunc × Bool) : Expr Unit :=
  if f.1 = .count then .countAll
  else .call f.1 (if f.2 then columnSkeleton f.2 else .toFloat (columnSkeleton f.2))

def PlanShape.select (s : PlanShape) : Option (List (Expr Unit × Unit)) :=
  match s.aggregation with
  | some (groupBy, funcs) => some (groupBy.map (fun g => (columnSkeleton g, ())) ++
      funcs.map (fun f => (aggregateSkeleton f, ())))
  | none => if s.fields ≠ [] then some (s.fields.map (fun f => (columnSkeleton f, ()))) else none

def boundSkeleton (present : Bool) (op : Op) : List (Cond Unit) :=
  if present then [.compare (.column ()) op (.literal ())] else []

def PlanShape.stmt (s : PlanShape) : Stmt Unit where
  select := s.select
  conds := (if s.ids ≠ 0 then [.recordIn (List.replicate s.ids ())] else []) ++
    s.filters.map FilterShape.cond ++ (boundSkeleton s.earliest .gte ++ boundSkeleton s.latest .lte)
  groupBy := (s.aggregation.map (fun agg => agg.1.map columnSkeleton)).getD []
  orderBy :=
    if s.sort ≠ [] then s.sort.map (fun k => (columnSkeleton k.1, k.2))
    else if s.limit.getD false then [(.column (), false)]
    else if s.aggregation = none then [(.column (), true)]
    else []
  limit := if s.limit.isSome ∨ s.aggregation = none then some () else none

/-! ### Erasing the texts of a statement -/

def Expr.map (f : α → β) : Expr α → Expr β
  | .column name => .column (f name)
  | .attr key => .attr (f key)
  | .toFloat e => .toFloat (e.map f)
  | .countAll => .countAll
  | .call func e => .call func (e.map f)

def Value.map (f : α → β) : Value α → Value β
  | .literal text => .literal (f text)
  | .number negative digits => .number negative (f digits)

def Cond.map (f : α → β) : Cond α → Cond β
  | .recordIn ids => .recordIn (ids.map f)
  | .compare e op v => .compare (e.map f) op (v.map f)

def Stmt.map (f : α → β) (s : Stmt α) : Stmt β where
  select := s.select.map (List.map (fun x => (x.1.map f, f x.2)))
  conds := s.conds.map (Cond.map f)
  groupBy := s.groupBy.map (Expr.map f)
  orderBy := s.orderBy.map (fun x => (x.1.map f, x.2))
  limit := s.limit.map f

theorem Expr.tokens_map (f : α → β) (e : Expr α) :
    (e.map f).tokens = e.tokens.map (SqlToken.map f) := by
  induction e with
  | column name => rfl
  | attr key => rfl
  | toFloat e ih => simp [Expr.map, Expr.tokens, ih, SqlToken.map]
  | countAll => rfl
  | call func e ih => simp [Expr.map, Expr.tokens, ih, SqlToken.map]

theorem Value.tokens_map (f : α → β) (v : Value α) :
    (v.map f).tokens = v.tokens.map (SqlToken.map f) := by
  cases v with
  | literal text => rfl
  | number negative digits => cases negative <;> rfl

theorem map_intercalate (f : α → β) (sep : SqlToken α) (xs : List (List (SqlToken α))) :
    (List.intercalate [sep] xs).map (SqlToken.map f) =
      List.intercalate [sep.map f] (xs.map (List.map (SqlToken.map f))) := by
  induction xs with
  | nil => rfl
  | cons x xs ih =>
    cases xs with
    | nil => simp
    | cons y ys =>
      rw [List.intercalate_cons_cons, List.map_append, List.map_append, ih]
      simp [List.intercalate_cons_cons]

theorem Cond.tokens_map (f : α → β) (c : Cond α) :
    (c.map f).tokens = c.tokens.map (SqlToken.map f) := by
  cases c with
  | recordIn ids =>
    simp [Cond.map, Cond.tokens, commaSeparated, map_intercalate, SqlToken.map, Function.comp_def]
  | compare e op v =>
    simp [Cond.map, Cond.tokens, Expr.tokens_map, Value.tokens_map, SqlToken.map]

theorem clauseTokens_map (f : α → β) (keywords : List String) (xs : List (List (SqlToken α)))
    (sep : SqlToken α) :
    (clauseTokens keywords xs sep).map (SqlToken.map f) =
      clauseTokens keywords (xs.map (List.map (SqlToken.map f))) (sep.map f) := by
  unfold clauseTokens
  by_cases h : xs = []
  · simp [h]
  · simp [h, map_intercalate, SqlToken.map, Function.comp_def]

/-- The kinds, keywords and operators of the tokens do not depend on the texts. -/
theorem Stmt.tokens_map (f : α → β) (s : Stmt α) :
    (s.map f).tokens = s.tokens.map (SqlToken.map f) := by
  have hselect : selectTokens (s.select.map (List.map (fun x => (x.1.map f, f x.2)))) =
      (selectTokens s.select).map (SqlToken.map f) := by
    cases s.select with
    | none => rfl
    | some items =>
      simp [selectTokens, commaSeparated, map_intercalate, itemTokens, Expr.tokens_map,
        SqlToken.map, Function.comp_def]
  have hlimit : limitTokens (s.limit.map f) = (limitTokens s.limit).map (SqlToken.map f) := by
    cases s.limit <;> rfl
  simp [Stmt.tokens, Stmt.map, hselect, hlimit, clauseTokens_map, Cond.tokens_map,
    Expr.tokens_map, orderTokens, SqlToken.map, Function.comp_def]

/-! ### The statement of a plan has the skeleton of its shape -/

theorem columnOf_erase (field : String) :
    (columnOf field).map (fun _ => ()) = columnSkeleton (isTopLevel field) := by
  unfold columnOf columnSkeleton
  split <;> rfl

theorem comparisonOf_erase (f : FilterPredicate) :
    (comparisonOf f).map (fun _ => ()) = f.shape.cond := by
  unfold comparisonOf FilterPredicate.shape FilterShape.cond FilterPredicate.cast
  split
  · simp [Cond.map, Expr.map, Value.map, columnOf_erase]
  · simp [Cond.map, Value.map, columnOf_erase]

theorem aggregateOf_erase (f : Aggregate) :
    (aggregateOf f).map (fun _ => ()) = aggregateSkeleton (f.func, isTopLevel f.field) := by
  unfold aggregateOf aggregateSkeleton
  split
  · rfl
  · split <;> simp [Expr.map, columnOf_erase]

theorem selectOf_erase (plan : Plan) (n : ℕ) :
    (selectOf plan).map (List.map (fun x => (x.1.map (fun _ => ()), ()))) =
      (plan.shape n).select := by
  unfold selectOf PlanShape.select Plan.shape
  cases plan.aggregation with
  | some agg =>
    simp [Aggregation.shape, columnOf_erase, aggregateOf_erase, Function.comp_def]
  | none =>
    by_cases h : plan.fields = []
    · simp [h]
    · simp [h, columnOf_erase, Function.comp_def]

theorem boundCondsOf_erase (r : TimeRange) :
    (boundCondsOf r).map (Cond.map (fun _ => ())) =
      boundSkeleton (r.from_ != zeroTime) .gte ++ boundSkeleton (r.to_ != zeroTime) .lte := by
  unfold boundCondsOf boundSkeleton
  by_cases hf : r.from_ = zeroTime <;> by_cases ht : r.to_ = zeroTime <;>
    simp [hf, ht, Cond.map, Expr.map, Value.map]

theorem condsOf_erase (plan : Plan) (ids : List String) :
    (condsOf plan ids).map (Cond.map (fun _ => ())) = (plan.shape ids.length).stmt.conds := by
  have hids : (if ids ≠ [] then [Cond.recordIn ids] else []).map (Cond.map (fun _ => ())) =
      if ids.length ≠ 0 then [.recordIn (List.replicate ids.length ())] else [] := by
    by_cases h : ids = []
    · simp [h]
    · simp [h, Cond.map, List.map_const']
  have hfilters : (plan.filters.map comparisonOf).map (Cond.map (fun _ => ())) =
      (plan.filters.map FilterPredicate.shape).map FilterShape.cond := by
    simp [comparisonOf_erase, Function.comp_def]
  unfold condsOf PlanShape.stmt Plan.shape
  rw [List.map_append, List.map_append, hids, hfilters]
  cases plan.timeRange with
  | none => rfl
  | some r => simp [boundCondsOf_erase]

theorem sortColumnOf_erase (plan : Plan) (field : String) :
    (sortColumnOf plan field).map (fun _ => ()) = columnSkeleton (plan.isIdentKey field) := by
  unfold sortColumnOf Plan.isIdentKey
  cases plan.aggregation with
  | none => simp [columnOf_erase]
  | some agg =>
    by_cases h : agg.funcs.any (fun f => f.aliasName == field) = true
    · simp [h, Expr.map, columnSkeleton]
    · simp [h, columnOf_erase]

theorem groupByOf_erase (plan : Plan) (n : ℕ) :
    (groupByOf plan).map (Expr.map (fun _ => ())) = (plan.shape n).stmt.groupBy := by
  unfold groupByOf PlanShape.stmt Plan.shape
  cases plan.aggregation with
  | none => rfl
  | some agg => simp [Aggregation.shape, columnOf_erase, Function.comp_def]

theorem orderByOf_erase (plan : Plan) (n : ℕ) :
    (orderByOf plan).map (fun x => (x.1.map (fun _ => ()), x.2)) =
      (plan.shape n).stmt.orderBy := by
  unfold orderByOf PlanShape.stmt Plan.shape
  by_cases hsort : plan.sort = []
  · -- The defaults sort by the timestamp, in the direction that the limit asks for.
    simp only [hsort, List.map_nil, ne_eq, not_true_eq_false, if_false, Option.map_eq_none_iff]
    split
    · rfl
    · split <;> rfl
  · simp [hsort, sortColumnOf_erase, Function.comp_def]

theorem limitOf_erase (plan : Plan) (n : ℕ) :
    (limitOf plan).map (fun _ => ()) = (plan.shape n).stmt.limit := by
  unfold limitOf PlanShape.stmt Plan.shape
  cases plan.limit with
  | some l => simp
  | none =>
    by_cases h : plan.aggregation = none
    · simp [h]
    · simp [h]

theorem stmtOf_erase (plan : Plan) (ids : List String) :
    (stmtOf plan ids).map (fun _ => ()) = (plan.shape ids.length).stmt := by
  simp only [Stmt.map, stmtOf, selectOf_erase plan ids.length, condsOf_erase,
    groupByOf_erase plan ids.length, orderByOf_erase plan ids.length, limitOf_erase plan ids.length]
  rfl

/-! ### The texts in the statement, in order -/

def Aggregate.texts (f : Aggregate) : List String :=
  (if f.func = .count then [] else [f.field]) ++ [f.aliasName]

/-- A value that is compared as a number appears without its sign. -/
def FilterPredicate.texts (f : FilterPredicate) : List String :=
  [f.field, if f.cast then String.ofList (splitSign f.value).2 else f.value]

def selectTexts (plan : Plan) : List String :=
  match plan.aggregation with
  | some agg => agg.groupBy.flatMap (fun g => [g, g]) ++ agg.funcs.flatMap Aggregate.texts
  | none => plan.fields.flatMap (fun f => [f, f])

def boundTexts (t : ℤ) : List String :=
  if t = zeroTime then [] else ["timestamp", formatClickHouseDateTime64 t]

def orderTexts (plan : Plan) : List String :=
  if plan.sort ≠ [] then plan.sort.map SortField.field
  else if (plan.limit.map Limit.tail).getD false ∨ plan.aggregation = none then ["timestamp"]
  else []

def Plan.texts (plan : Plan) (ids : List String) : List String :=
  selectTexts plan ++ ids ++ plan.filters.flatMap FilterPredicate.texts ++
    (match plan.timeRange with
      | none => []
      | some r => boundTexts r.from_ ++ boundTexts r.to_) ++
    (match plan.aggregation with
      | none => []
      | some agg => agg.groupBy) ++
    orderTexts plan ++ (limitOf plan).toList

/-- What the tokens carry. -/
def textsOf (ts : List (SqlToken α)) : List α := ts.filterMap SqlToken.text?

@[simp] theorem textsOf_nil : textsOf ([] : List (SqlToken α)) = [] := rfl

@[simp] theorem textsOf_cons (t : SqlToken α) (ts : List (SqlToken α)) :
    textsOf (t :: ts) = t.text?.toList ++ textsOf ts := by
  cases t <;> rfl

attribute [simp] SqlToken.text?

@[simp] theorem textsOf_append (ts us : List (SqlToken α)) :
    textsOf (ts ++ us) = textsOf ts ++ textsOf us := List.filterMap_append

theorem textsOf_intercalate {sep : SqlToken α} (h : sep.text? = none)
    (xs : List (List (SqlToken α))) : textsOf (List.intercalate [sep] xs) = xs.flatMap textsOf := by
  induction xs with
  | nil => rfl
  | cons x xs ih =>
    cases xs with
    | nil => simp
    | cons y ys =>
      rw [List.intercalate_cons_cons, textsOf_append, textsOf_append, ih]
      simp [h, -SqlToken.text?]

theorem textsOf_commaSeparated (xs : List (List (SqlToken α))) :
    textsOf (commaSeparated xs) = xs.flatMap textsOf := textsOf_intercalate rfl xs

theorem textsOf_clause {sep : SqlToken α} (h : sep.text? = none) (keywords : List String)
    (xs : List (List (SqlToken α))) :
    textsOf (clauseTokens keywords xs sep) = xs.flatMap textsOf := by
  have hwords : textsOf (keywords.map (SqlToken.word (α := α))) = [] := by
    simp [textsOf, SqlToken.text?, List.filterMap_map, Function.comp_def]
  unfold clauseTokens
  by_cases hxs : xs = []
  · simp [hxs, textsOf]
  · rw [if_neg hxs, textsOf_append, hwords, textsOf_intercalate h, List.nil_append]

@[simp] theorem textsOf_columnOf (field : String) : textsOf (columnOf field).tokens = [field] := by
  unfold columnOf
  split <;> rfl

theorem textsOf_aggregateOf (f : Aggregate) :
    textsOf (aggregateOf f).tokens = if f.func = .count then [] else [f.field] := by
  unfold aggregateOf
  split
  · rfl
  · split <;> simp [Expr.tokens]

theorem textsOf_comparisonOf (f : FilterPredicate) : textsOf (comparisonOf f).tokens = f.texts := by
  unfold comparisonOf FilterPredicate.texts FilterPredicate.cast
  split
  · cases (splitSign f.value).1 <;> simp [Cond.tokens, Expr.tokens, Value.tokens]
  · simp [Cond.tokens, Value.tokens]

theorem textsOf_selectOf (plan : Plan) :
    textsOf (selectTokens (selectOf plan)) = selectTexts plan := by
  unfold selectOf selectTexts
  cases plan.aggregation with
  | some agg =>
    simp [selectTokens, textsOf_commaSeparated, List.flatMap_map, itemTokens,
      textsOf_aggregateOf, Function.comp_def]
    rfl
  | none =>
    by_cases h : plan.fields = []
    · simp [h, selectTokens]
    · simp [h, selectTokens, textsOf_commaSeparated, List.flatMap_map, itemTokens]

theorem textsOf_boundCondsOf (r : TimeRange) :
    ((boundCondsOf r).map Cond.tokens).flatMap textsOf =
      boundTexts r.from_ ++ boundTexts r.to_ := by
  unfold boundCondsOf boundTexts
  by_cases hf : r.from_ = zeroTime <;> by_cases ht : r.to_ = zeroTime <;>
    simp [hf, ht, Cond.tokens, Expr.tokens, Value.tokens]

theorem textsOf_condsOf (plan : Plan) (ids : List String) :
    ((condsOf plan ids).map Cond.tokens).flatMap textsOf =
      ids ++ plan.filters.flatMap FilterPredicate.texts ++
        (match plan.timeRange with
          | none => []
          | some r => boundTexts r.from_ ++ boundTexts r.to_) := by
  have hids : ((if ids ≠ [] then [Cond.recordIn ids] else []).map Cond.tokens).flatMap textsOf =
      ids := by
    by_cases h : ids = []
    · simp [h]
    · simp [h, Cond.tokens, textsOf_commaSeparated, List.flatMap_map]
  have hfilters : ((plan.filters.map comparisonOf).map Cond.tokens).flatMap textsOf =
      plan.filters.flatMap FilterPredicate.texts := by
    simp [List.flatMap_map, textsOf_comparisonOf]
  unfold condsOf
  rw [List.map_append, List.map_append, List.flatMap_append, List.flatMap_append, hids, hfilters]
  cases plan.timeRange with
  | none => rfl
  | some r => rw [textsOf_boundCondsOf]

theorem textsOf_sortColumnOf (plan : Plan) (field : String) :
    textsOf (sortColumnOf plan field).tokens = [field] := by
  unfold sortColumnOf
  cases plan.aggregation with
  | none => exact textsOf_columnOf field
  | some agg =>
    dsimp only
    split
    · rfl
    · exact textsOf_columnOf field

theorem textsOf_orderByOf (plan : Plan) :
    ((orderByOf plan).map orderTokens).flatMap textsOf = orderTexts plan := by
  unfold orderByOf orderTexts
  by_cases hsort : plan.sort = []
  · by_cases htail : (plan.limit.map Limit.tail).getD false = true
    · simp [hsort, htail, orderTokens, Expr.tokens]
    · by_cases hagg : plan.aggregation = none <;>
        simp [hsort, htail, hagg, orderTokens, Expr.tokens]
  · simp [hsort, List.flatMap_map, orderTokens, textsOf_sortColumnOf, ← List.map_eq_flatMap]

theorem textsOf_stmtOf (plan : Plan) (ids : List String) :
    textsOf (stmtOf plan ids).tokens = plan.texts ids := by
  have hgroup : ((groupByOf plan).map Expr.tokens).flatMap textsOf =
      (match plan.aggregation with
        | none => []
        | some agg => agg.groupBy) := by
    unfold groupByOf
    cases plan.aggregation with
    | none => rfl
    | some agg => simp [List.flatMap_map]
  have hlimit : textsOf (limitTokens (limitOf plan)) = (limitOf plan).toList := by
    cases limitOf plan <;> rfl
  have hwhere := textsOf_clause (show (SqlToken.word "AND").text? = none from rfl) ["WHERE"]
    ((condsOf plan ids).map Cond.tokens)
  have hcomma := textsOf_clause (show (SqlToken.symbol (α := String) ",").text? = none from rfl)
  simp only [stmtOf, Stmt.tokens, textsOf_append, textsOf_cons, SqlToken.text?, Option.toList_none,
    List.nil_append, textsOf_nil, textsOf_selectOf,
    hwhere, hcomma, hlimit]
  rw [textsOf_condsOf, hgroup, textsOf_orderByOf]
  simp [Plan.texts]

/-- For every query that is accepted as pipe syntax and all record ids, the kinds, keywords
and operators of the tokens in the statement are given by the shape of the plan, and what the
names, literals and numbers decode to are the texts the user supplied, one token for each
mention. -/
theorem buildSQL_injection_free {query : String} {now : ℤ} {plan : Plan}
    (h : compilePipe query now = .ok plan) (ids : List String) :
    (SqlLexer.tokens (buildSQL plan ids).toList).map (SqlToken.map (fun _ => ())) =
        (plan.shape ids.length).stmt.tokens ∧
      textsOf (SqlLexer.tokens (buildSQL plan ids).toList) = plan.texts ids := by
  rw [tokens_buildSQL (compilePipe_named h) ids]
  constructor
  · rw [← Stmt.tokens_map, stmtOf_erase]
  · exact textsOf_stmtOf plan ids

theorem compilePipe_render {q : Query} (hwf : q.WellFormed) (hne : ∀ p ∈ q.pipes, p.Nonempty)
    (now : ℤ) : compilePipe (render q) now = compileQuery now q := by
  rw [compilePipe, parse_render_of_wellFormed hwf hne]

/-- A value with a quote and a backslash in it, a negative number, an aggregation, a sort and
a limit. -/
def hostileQuery : Query :=
  ⟨⟨[.comparison "service" .eq "x\\'; DROP TABLE logs; --", .comparison "latency" .gte "-2.5"],
    [.and]⟩,
    [.statsStage [⟨.avg, "latency", "m"⟩] ["host"], .sortStage [⟨"m", true⟩], .headStage (some 5)]⟩

theorem buildSQL_injection_free_hostile :
    ∃ plan, compilePipe (render hostileQuery) 0 = .ok plan ∧
      (SqlLexer.tokens (buildSQL plan ["1') OR ('1'='1"]).toList).map
          (SqlToken.map (fun _ => ())) = (plan.shape 1).stmt.tokens ∧
      textsOf (SqlLexer.tokens (buildSQL plan ["1') OR ('1'='1"]).toList) =
        ["host", "host", "latency", "m", "1') OR ('1'='1", "service",
          "x\\'; DROP TABLE logs; --", "latency", "2.5", "host", "m", "5"] := by
  have hcompile := compilePipe_render (q := hostileQuery) (by decide) (by decide) 0
  obtain ⟨hshape, htexts⟩ := buildSQL_injection_free hcompile ["1') OR ('1'='1"]
  refine ⟨_, hcompile, hshape, htexts.trans ?_⟩
  decide

/-- `status>"-5"`. -/
def negativeQuery : Query := ⟨⟨[.comparison "status" .gt "-5"], []⟩, []⟩

/-- `host="x"` for a column of the table, `rack="x"` for an attribute. -/
def fieldQuery (field : String) : Query := ⟨⟨[.comparison field .eq "x"], []⟩, []⟩

/-- No token decodes to a negative number, and the kinds of the tokens depend on which fields
are columns: the plans of `host="x"` and `rack="x"` agree in everything but that name. -/
theorem signs_and_fields_shape_the_tokens :
    (∃ plan, compilePipe (render negativeQuery) 0 = .ok plan ∧
      plan.filters = [⟨"status", .gt, "-5"⟩] ∧
      "-5" ∉ textsOf (SqlLexer.tokens (buildSQL plan []).toList)) ∧
    ∃ plan plan', compilePipe (render (fieldQuery "host")) 0 = .ok plan ∧
      compilePipe (render (fieldQuery "rack")) 0 = .ok plan' ∧
      plan = { plan' with filters := [⟨"host", .eq, "x"⟩] } ∧
      plan'.filters = [⟨"rack", .eq, "x"⟩] ∧
      (SqlLexer.tokens (buildSQL plan []).toList).map (SqlToken.map (fun _ => ())) ≠
        (SqlLexer.tokens (buildSQL plan' []).toList).map (SqlToken.map (fun _ => ())) := by
  have hnegative := compilePipe_render (q := negativeQuery) (by decide) (by decide) 0
  have hhost := compilePipe_render (q := fieldQuery "host") (by decide) (by decide) 0
  have hrack := compilePipe_render (q := fieldQuery "rack") (by decide) (by decide) 0
  refine ⟨⟨_, hnegative, rfl, ?_⟩, _, _, hhost, hrack, rfl, rfl, ?_⟩
  · rw [tokens_buildSQL (compilePipe_named hnegative)]
    decide
  · rw [tokens_buildSQL (compilePipe_named hhost), tokens_buildSQL (compilePipe_named hrack)]
    decide

end CairnObs.QueryLang
