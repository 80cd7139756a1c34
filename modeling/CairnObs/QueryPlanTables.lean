import CairnObs.QueryTables

/-! What a plan selects, and that the statement written for it selects the same. -/
namespace CairnObs.QueryLang
open TableOps

variable {V : Type} (E : Engine V)

/-! ### Expressions of the statement -/

theorem eval_columnOf (name : String) (r : LogRow V) (g : List (LogRow V)) :
    (columnOf name).eval E (r :: g) = r.field name := by
  unfold columnOf LogRow.field
  split <;> rfl

theorem eval_columnOf_head (name : String) (g : List (LogRow V)) :
    (columnOf name).eval E g = (g.head?.map (fun r => r.field name)).getD E.missing := by
  cases g with
  | cons r g => exact eval_columnOf E name r g
  | nil =>
    unfold columnOf
    split <;> rfl

theorem holds_comparisonOf (f : FilterPredicate) (r : LogRow V) :
    (comparisonOf f).holds E r = f.holds E (r.field f.field) := by
  unfold comparisonOf FilterPredicate.holds
  split
  · rw [Cond.holds, Expr.eval, eval_columnOf]
  · rw [Cond.holds, eval_columnOf]

theorem isAggregate_columnOf (name : String) : (columnOf name).isAggregate = false := by
  unfold columnOf
  split <;> rfl

theorem isAggregate_aggregateOf (f : Aggregate) : (aggregateOf f).isAggregate = true := by
  unfold aggregateOf
  split <;> rfl

theorem eval_aggregateOf (f : Aggregate) (g : List (LogRow V)) :
    (aggregateOf f).eval E g = f.eval E (g.map Row.log) := by
  unfold aggregateOf Aggregate.eval
  split
  · simp [Expr.eval]
  · rw [Expr.eval, List.map_map]
    congr 2
    funext r
    split
    · rw [eval_columnOf]
      simp [*, Row.get]
    · rw [Expr.eval, eval_columnOf]
      simp [*, Row.get]

/-! ### The meaning of a plan -/

/-- All the comparisons hold on a row. -/
def allHold (fs : List FilterPredicate) (row : Row V) : Bool :=
  fs.all (fun f => f.holds E (row.get E f.field))

def Plan.selected (plan : Plan) (table : List (LogRow V)) : List (Row V) :=
  (table.map Row.log).filter (allHold E plan.filters)

def Plan.limited {α : Type} (plan : Plan) (l : List α) : List α :=
  match plan.limit with
  | none => l
  | some limit => l.take limit.n

def Plan.projected (plan : Plan) (rows : List (Row V)) : List (Row V) :=
  if plan.aggregation = none ∧ plan.fields ≠ [] then rows.map (project E plan.fields) else rows

section Exec
variable [LinearOrder V]

def Plan.shaped (plan : Plan) (table : List (LogRow V)) : List (Row V) :=
  match plan.aggregation with
  | none => plan.selected E table
  | some agg => agg.rows E (plan.selected E table)

/-- Filters, aggregation, sort, limit and projection, in the order of the clauses. Unlike in
the statement there is no default for the sort and the limit. -/
def Plan.exec (plan : Plan) (table : List (LogRow V)) : List (Row V) :=
  plan.projected E (plan.limited (sortBy (sortKeys E plan.sort) (plan.shaped E table)))

end Exec

/-! ### Clauses of the statement -/

theorem selected_eq (plan : Plan) (htime : plan.timeRange = none) (table : List (LogRow V)) :
    plan.selected E table =
      (table.filter (fun r => (condsOf plan []).all (Cond.holds E r))).map Row.log := by
  unfold Plan.selected condsOf
  rw [List.filter_map, htime]
  congr 2
  funext r
  simp [allHold, Row.get, List.all_map, Function.comp_def, holds_comparisonOf]

theorem Plan.limited_map {α β : Type} (plan : Plan) (f : α → β) (l : List α) :
    plan.limited (l.map f) = (plan.limited l).map f := by
  unfold Plan.limited
  cases plan.limit with
  | none => rfl
  | some limit => rw [List.map_take]

variable {plan : Plan} {agg : Aggregation} {limit : Limit} {name : String}

theorem limited_stmtOf {α : Type} (h : plan.limit = some limit) (ids : List String) (l : List α) :
    (stmtOf plan ids).limited l = plan.limited l := by
  have hdigits : (toString limit.n).toList = Nat.toDigits 10 limit.n := by simp
  simp only [Stmt.limited, stmtOf, limitOf, Plan.limited, h, hdigits,
    Nat.ofDigitChars_ten_toDigits]

theorem orderByOf_sort (h : plan.sort ≠ []) :
    orderByOf plan = plan.sort.map (fun s => (sortColumnOf plan s.field, s.desc)) := by
  rw [orderByOf, if_pos h]

/-! ### Columns of a statement without an aggregation -/

theorem items_stmtOf_log (hagg : plan.aggregation = none) (ids : List String) :
    (stmtOf plan ids).items = plan.fields.map (fun f => (columnOf f, f)) := by
  by_cases hf : plan.fields = [] <;> simp [Stmt.items, stmtOf, selectOf, hagg, hf]

/-- An alias of the projection is the field of the same name. -/
theorem resolve_stmtOf_log (hagg : plan.aggregation = none) (ids : List String) (name : String) :
    (stmtOf plan ids).resolve (columnOf name) = columnOf name := by
  by_cases htop : isTopLevel name = true
  · have hcolumn : columnOf name = .column name := by simp [columnOf, htop]
    rw [hcolumn, Stmt.resolve, items_stmtOf_log hagg, List.find?_map]
    cases hf : plan.fields.find? ((fun x => x.2 == name) ∘ fun f => (columnOf f, f)) with
    | none => rfl
    | some f =>
      have hname : f = name := by simpa using List.find?_some hf
      rw [Option.map_some, hname, hcolumn]
  · simp [columnOf, htop, Stmt.resolve]

theorem output_stmtOf_log (hagg : plan.aggregation = none) (rows : List (LogRow V)) :
    rows.map (fun r => (stmtOf plan []).output E [r]) =
      plan.projected E (rows.map Row.log) := by
  unfold Plan.projected
  by_cases hf : plan.fields = []
  · simp [Stmt.output, stmtOf, selectOf, hagg, hf]
  · rw [if_pos ⟨hagg, hf⟩, List.map_map]
    simp [Stmt.output, stmtOf, selectOf, hagg, hf, project, Row.get, eval_columnOf,
      Function.comp_def]

/-! ### Columns of a statement with an aggregation -/

theorem items_stmtOf_agg (hagg : plan.aggregation = some agg) (ids : List String) :
    (stmtOf plan ids).items = agg.groupBy.map (fun g => (columnOf g, g)) ++
      agg.funcs.map (fun f => (aggregateOf f, f.aliasName)) := by
  simp [Stmt.items, stmtOf, selectOf, hagg]

theorem lookup_map {ι : Type} (items : List (ι × String)) (v : ι → V) (name : String) :
    (items.map (fun x => (x.2, v x.1))).lookup name =
      (items.find? (fun x => x.2 == name)).map (fun x => v x.1) := by
  induction items with
  | nil => rfl
  | cons x xs ih =>
    by_cases h : x.2 = name
    · simp [h]
    · have h' : (name == x.2) = false := by simpa using Ne.symm h
      simp [List.lookup_cons, h, h', ih]

theorem output_stmtOf_agg (hagg : plan.aggregation = some agg) (g : List (LogRow V)) :
    (stmtOf plan []).output E g = agg.row E (g.map Row.log) := by
  simp [Stmt.output, stmtOf, selectOf, hagg, Aggregation.row, eval_columnOf_head,
    eval_aggregateOf, Row.get, Function.comp_def]

/-- Every name of an aggregation is the alias of an item: of the by-field of that name, or
of an aggregate. -/
theorem find_items_agg (hagg : plan.aggregation = some agg) (hname : name ∈ agg.names)
    (ids : List String) :
    ∃ x, (stmtOf plan ids).items.find? (fun x => x.2 == name) = some x ∧
      (x = (columnOf name, name) ∨ agg.funcs.any (fun f => f.aliasName == name) = true) := by
  rw [items_stmtOf_agg hagg]
  set items := agg.groupBy.map (fun g => (columnOf g, g)) ++
    agg.funcs.map (fun f => (aggregateOf f, f.aliasName)) with hitems
  have hsome : (items.find? (fun x => x.2 == name)).isSome := by
    rw [List.find?_isSome]
    rcases List.mem_append.mp hname with hb | hf
    · exact ⟨(columnOf name, name), by simp [hitems, hb], by simp⟩
    · obtain ⟨f, hf, hal⟩ := List.mem_map.mp hf
      refine ⟨(aggregateOf f, f.aliasName), ?_, by simp [hal]⟩
      exact List.mem_append_right _ (List.mem_map_of_mem hf)
  obtain ⟨x, hx⟩ := Option.isSome_iff_exists.mp hsome
  have hx2 : x.2 = name := by simpa using List.find?_some hx
  refine ⟨x, hx, ?_⟩
  rcases List.mem_append.mp (List.mem_of_find?_eq_some hx) with hb | hf
  · obtain ⟨b, _, rfl⟩ := List.mem_map.mp hb
    cases hx2
    exact .inl rfl
  · obtain ⟨f, hfuncs, rfl⟩ := List.mem_map.mp hf
    exact .inr (List.any_eq_true.mpr ⟨f, hfuncs, by simpa using hx2⟩)

theorem get_output_agg (hagg : plan.aggregation = some agg) {x : Expr String × String}
    (hx : (stmtOf plan []).items.find? (fun x => x.2 == name) = some x) (g : List (LogRow V)) :
    ((stmtOf plan []).output E g).get E name = x.1.eval E g := by
  have hout : (stmtOf plan []).output E g =
      .cells ((stmtOf plan []).items.map (fun x => (x.2, x.1.eval E g))) := by
    simp [Stmt.output, Stmt.items, stmtOf, selectOf, hagg]
  rw [hout, Row.get, lookup_map, hx]
  rfl

/-- A key of the sort that the aggregation puts out is found under its name. -/
theorem resolve_stmtOf_agg (hagg : plan.aggregation = some agg) (hname : name ∈ agg.names)
    (g : List (LogRow V)) :
    ((stmtOf plan []).output E g).get E name =
      ((stmtOf plan []).resolve (sortColumnOf plan name)).eval E g := by
  obtain ⟨x, hx, hfound⟩ := find_items_agg hagg hname []
  have hresolve : (stmtOf plan []).resolve (.column name) = x.1 := by
    rw [Stmt.resolve, hx]
  rw [get_output_agg E hagg hx]
  unfold sortColumnOf
  rw [hagg]
  by_cases hany : agg.funcs.any (fun f => f.aliasName == name) = true
  · simp only [hany, if_true, hresolve]
  · simp only [hany]
    by_cases htop : isTopLevel name = true
    · simp [columnOf, htop, hresolve]
    · -- an attribute is no alias here, so the item is the group-by field
      rw [hfound.resolve_right hany]
      simp [columnOf, htop, Stmt.resolve]

/-! ### Statement and plan -/

variable [LinearOrder V]

theorem groups_stmtOf_log (hagg : plan.aggregation = none) (ids : List String)
    (table : List (LogRow V)) :
    (stmtOf plan ids).groups E table =
      (table.filter (fun r => (condsOf plan ids).all (Cond.holds E r))).map (fun r => [r]) := by
  have hnone : (stmtOf plan ids).items.any (fun x => x.1.isAggregate) = false := by
    simp [items_stmtOf_log hagg, isAggregate_columnOf]
  have hby : (stmtOf plan ids).groupBy = [] := by simp [stmtOf, groupByOf, hagg]
  simp only [Stmt.groups, hby, hnone]
  rfl

theorem exec_stmtOf_log (htime : plan.timeRange = none) (hsort : plan.sort ≠ [])
    (hlimit : plan.limit = some limit) (hagg : plan.aggregation = none) (table : List (LogRow V)) :
    (stmtOf plan []).exec E table = plan.exec E table := by
  set rows := table.filter (fun r => (condsOf plan []).all (Cond.holds E r))
  have hkeys : (stmtOf plan []).orderBy.map
        (fun x => (((stmtOf plan []).resolve x.1).eval E, x.2)) =
      plan.sort.map (fun s => ((columnOf s.field).eval E, s.desc)) := by
    have horder : (stmtOf plan []).orderBy = _ := orderByOf_sort hsort
    rw [horder, List.map_map]
    apply List.map_congr_left
    intro s _
    have hcolumn : sortColumnOf plan s.field = columnOf s.field := by simp [sortColumnOf, hagg]
    simp only [Function.comp_apply, hcolumn, resolve_stmtOf_log hagg]
  have hstmt := map_sortBy_keys plan.sort (fun s r => r.field s.field)
    (fun s => (columnOf s.field).eval E) SortField.desc (fun r => [r]) (l := rows)
    (fun s _ r _ => eval_columnOf E s.field r [])
  have hplan := map_sortBy_keys plan.sort (fun s r => r.field s.field)
    (fun s row => row.get E s.field) SortField.desc Row.log (l := rows) (fun s _ r _ => rfl)
  -- Both sides sort the selected rows of the table by the same keys.
  calc (stmtOf plan []).exec E table
      = (plan.limited (sortBy (plan.sort.map (fun s => (fun r => r.field s.field, s.desc)))
          rows)).map (fun r => (stmtOf plan []).output E [r]) := by
        rw [Stmt.exec, hkeys, groups_stmtOf_log E hagg [], ← hstmt, limited_stmtOf hlimit,
          Plan.limited_map, List.map_map]
        rfl
    _ = plan.exec E table := by
        rw [output_stmtOf_log E hagg, Plan.exec, Plan.shaped, hagg, selected_eq E plan htime,
          sortKeys, ← hplan, Plan.limited_map]

theorem groups_stmtOf_agg (htime : plan.timeRange = none) (hagg : plan.aggregation = some agg)
    (hne : agg.funcs ≠ []) (table : List (LogRow V)) :
    ((stmtOf plan []).groups E table).map (List.map Row.log) =
      agg.groups E (plan.selected E table) := by
  have hany : (stmtOf plan []).items.any (fun x => x.1.isAggregate) = true := by
    obtain ⟨f, fs, hf⟩ := List.exists_cons_of_ne_nil hne
    simp [items_stmtOf_agg hagg, hf, isAggregate_aggregateOf]
  have hby : (stmtOf plan []).groupBy = agg.groupBy.map columnOf := by
    simp [stmtOf, groupByOf, hagg]
  have hconds : (stmtOf plan []).conds = condsOf plan [] := rfl
  have hkey : (fun r : LogRow V => (agg.groupBy.map columnOf).map (Expr.eval E [r])) =
      fun r => agg.groupBy.map ((Row.log r).get E) := by
    funext r
    rw [List.map_map]
    apply List.map_congr_left
    intro b _
    exact eval_columnOf E b r []
  rw [selected_eq E plan htime]
  unfold Stmt.groups Aggregation.groups
  by_cases hg : agg.groupBy = []
  · simp [hby, hg, hany, hconds]
  · have hg' : agg.groupBy.map columnOf ≠ [] := by simpa using hg
    simp only [hby, hconds, ne_eq, hg, hg', not_false_eq_true, if_true]
    rw [groupsBy_map, hkey]

theorem exec_stmtOf_agg (htime : plan.timeRange = none) (hsort : plan.sort ≠ [])
    (hlimit : plan.limit = some limit) (hagg : plan.aggregation = some agg) (hne : agg.funcs ≠ [])
    (hvisible : ∀ s ∈ plan.sort, s.field ∈ agg.names) (table : List (LogRow V)) :
    (stmtOf plan []).exec E table = plan.exec E table := by
  have hkeys := map_sortBy_keys plan.sort
    (fun s => ((stmtOf plan []).resolve (sortColumnOf plan s.field)).eval E)
    (fun s row => row.get E s.field) SortField.desc ((stmtOf plan []).output E)
    (l := (stmtOf plan []).groups E table)
    (fun s hs g _ => resolve_stmtOf_agg E hagg (hvisible s hs) g)
  have horder : (stmtOf plan []).orderBy.map
        (fun x => (((stmtOf plan []).resolve x.1).eval E, x.2)) =
      plan.sort.map (fun s =>
        (((stmtOf plan []).resolve (sortColumnOf plan s.field)).eval E, s.desc)) := by
    have horder : (stmtOf plan []).orderBy = _ := orderByOf_sort hsort
    rw [horder, List.map_map]
    rfl
  have hrows : ((stmtOf plan []).groups E table).map ((stmtOf plan []).output E) =
      agg.rows E (plan.selected E table) := by
    rw [Aggregation.rows, ← groups_stmtOf_agg E htime hagg hne, List.map_map]
    apply List.map_congr_left
    intro g _
    exact output_stmtOf_agg E hagg g
  have hproject : plan.aggregation ≠ none := by simp [hagg]
  rw [Stmt.exec, horder, limited_stmtOf hlimit, ← Plan.limited_map, hkeys, hrows, Plan.exec,
    Plan.projected, if_neg (fun h => hproject h.1), Plan.shaped, hagg]
  rfl

/-- With a sort and a limit given, the statement for a plan selects what the plan says. -/
theorem exec_stmtOf (htime : plan.timeRange = none) (hsort : plan.sort ≠ [])
    (hlimit : plan.limit ≠ none)
    (hagg : ∀ agg ∈ plan.aggregation, agg.funcs ≠ [] ∧ ∀ s ∈ plan.sort, s.field ∈ agg.names)
    (table : List (LogRow V)) : (stmtOf plan []).exec E table = plan.exec E table := by
  obtain ⟨limit, hlimit⟩ := Option.ne_none_iff_exists'.mp hlimit
  cases h : plan.aggregation with
  | none => exact exec_stmtOf_log E htime hsort hlimit h table
  | some agg =>
    exact exec_stmtOf_agg E htime hsort hlimit h (hagg agg h).1 (hagg agg h).2 table

end CairnObs.QueryLang
