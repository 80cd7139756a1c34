import CairnObs.QueryInjection
import CairnObs.QueryTables
import CairnObs.CostGuard

/-! Aliases against columns. ClickHouse lets an alias of the SELECT list stand for its
expression wherever its name is used in the statement, so a name that is meant as a stored
column is one only if no alias of that name is defined as something else. -/
namespace CairnObs.QueryLang

/-! ### The names a statement reads -/

/-- The columns an expression reads; an attribute is looked up in the `attributes` map. -/
def Expr.names : Expr String → List String
  | .column name => [name]
  | .attr _ => ["attributes"]
  | .toFloat e => e.names
  | .countAll => []
  | .call _ e => e.names

/-- The names written inside an aggregate or an attribute expression. -/
def Expr.innerNames : Expr String → List String
  | .column _ => []
  | e => e.names

def Cond.names : Cond String → List String
  | .recordIn _ => ["record_id"]
  | .compare e _ _ => e.names

/-- The column names of WHERE, of GROUP BY and inside the expressions of the SELECT list. -/
def Stmt.names (s : Stmt String) : List String :=
  s.conds.flatMap Cond.names ++ s.groupBy.flatMap Expr.names ++
    s.items.flatMap (fun x => x.1.innerNames)

/-- Every name the statement reads is the stored column: an alias of that name, if there is
one, is defined as the column itself. -/
def Stmt.ReadsStored (s : Stmt String) : Prop :=
  ∀ name ∈ s.names, ∀ x ∈ s.items, x.2 = name → x.1 = .column name

/-! ### The columns a plan asks for -/

/-- The stored column a field is read from. -/
def storedColumn (field : String) : String := if isTopLevel field then field else "attributes"

/-- The fields the statement reads: filters, time bounds, record ids, groups, and aggregates
other than `count`, which reads none. -/
def Plan.columnsRead (plan : Plan) (agg : Aggregation) (ids : List String) : List String :=
  (if ids = [] then [] else ["record_id"]) ++
  plan.filters.map (fun f => storedColumn f.field) ++
  (if plan.hasTimeBound then ["timestamp"] else []) ++
  agg.groupBy.map storedColumn ++
  (agg.funcs.filter (fun f => f.func ≠ .count)).map (fun f => storedColumn f.field)

/-- No aggregate is named after a column the statement reads, and no output column after the
map of attributes. -/
structure Plan.AliasesApart (plan : Plan) (ids : List String) : Prop where
  aggregates : ∀ agg ∈ plan.aggregation, ∀ f ∈ agg.funcs, f.aliasName ∉ plan.columnsRead agg ids
  groups : ∀ agg ∈ plan.aggregation, "attributes" ∉ agg.groupBy
  fields : plan.aggregation = none → "attributes" ∉ plan.fields

/-! ### What is written is what is asked for -/

@[simp] theorem columnOf_names (field : String) :
    (columnOf field).names = [storedColumn field] := by
  unfold columnOf storedColumn
  split_ifs <;> rfl

theorem columnOf_ne_column {field : String} (h : isTopLevel field = false) (name : String) :
    columnOf field ≠ .column name := by
  unfold columnOf
  rw [if_neg (by simp [h])]
  exact nofun

theorem columnOf_innerNames {field name : String} (h : name ∈ (columnOf field).innerNames) :
    name = "attributes" ∧ isTopLevel field = false := by
  unfold columnOf at h
  split_ifs at h with htop
  · cases h
  · exact ⟨List.mem_singleton.mp h, by simpa using htop⟩

theorem comparisonOf_names (f : FilterPredicate) :
    (comparisonOf f).names = [storedColumn f.field] := by
  unfold comparisonOf
  split_ifs
  · exact columnOf_names f.field
  · exact columnOf_names f.field

theorem boundCondsOf_names (r : TimeRange) (name : String) :
    name ∈ (boundCondsOf r).flatMap Cond.names ↔
      name = "timestamp" ∧ (r.from_ ≠ zeroTime ∨ r.to_ ≠ zeroTime) := by
  unfold boundCondsOf
  by_cases hfrom : r.from_ = zeroTime <;> by_cases hto : r.to_ = zeroTime <;>
    simp [hfrom, hto, Cond.names, Expr.names]

theorem condsOf_names (plan : Plan) (ids : List String) (name : String) :
    name ∈ (condsOf plan ids).flatMap Cond.names ↔
      (name = "record_id" ∧ ids ≠ []) ∨ (∃ f ∈ plan.filters, storedColumn f.field = name) ∨
        (name = "timestamp" ∧ plan.hasTimeBound = true) := by
  have hfilters : name ∈ (plan.filters.map comparisonOf).flatMap Cond.names ↔
      ∃ f ∈ plan.filters, storedColumn f.field = name := by
    simp [List.mem_flatMap, comparisonOf_names, eq_comm (a := name)]
  have hids : name ∈ (if ids ≠ [] then [Cond.recordIn ids] else []).flatMap Cond.names ↔
      name = "record_id" ∧ ids ≠ [] := by
    by_cases h : ids = [] <;> simp [h, Cond.names]
  unfold condsOf
  rw [List.flatMap_append, List.flatMap_append, List.mem_append, List.mem_append, hids, hfilters,
    or_assoc]
  refine or_congr_right (or_congr_right ?_)
  unfold Plan.hasTimeBound
  cases plan.timeRange with
  | none => simp
  | some r => simpa using boundCondsOf_names r name

theorem aggregateOf_innerNames (f : Aggregate) :
    (aggregateOf f).innerNames = if f.func = .count then [] else [storedColumn f.field] := by
  unfold aggregateOf
  split_ifs with hcount htop
  · rfl
  · exact columnOf_names f.field
  · exact columnOf_names f.field

theorem aggregateOf_ne_column (f : Aggregate) (name : String) : aggregateOf f ≠ .column name := by
  unfold aggregateOf
  split_ifs <;> exact nofun

variable {ids : List String} {plan : Plan}

/-- The names of a statement that aggregates are the columns its plan reads. -/
theorem mem_names_of_aggregation {agg : Aggregation} (hagg : plan.aggregation = some agg)
    (name : String) : name ∈ (stmtOf plan ids).names ↔ name ∈ plan.columnsRead agg ids := by
  have hgroup : name ∈ (groupByOf plan).flatMap Expr.names ↔
      ∃ g ∈ agg.groupBy, storedColumn g = name := by
    simp [groupByOf, hagg, List.mem_flatMap, eq_comm (a := name)]
  -- An attribute that is grouped by is read in GROUP BY as well.
  have hitems : name ∈ ((stmtOf plan ids).items).flatMap (fun x => x.1.innerNames) →
      (∃ g ∈ agg.groupBy, storedColumn g = name) ∨
        ∃ f ∈ agg.funcs, f.func ≠ .count ∧ storedColumn f.field = name := by
    intro h
    obtain ⟨x, hx, hname⟩ := List.mem_flatMap.mp h
    simp only [Stmt.items, stmtOf, selectOf, hagg, Option.getD_some, List.mem_append,
      List.mem_map] at hx
    rcases hx with ⟨g, hg, rfl⟩ | ⟨f, hf, rfl⟩
    · obtain ⟨rfl, htop⟩ := columnOf_innerNames hname
      exact .inl ⟨g, hg, by simp [storedColumn, htop]⟩
    · rw [aggregateOf_innerNames] at hname
      split_ifs at hname with hcount
      · cases hname
      · exact .inr ⟨f, hf, hcount, (List.mem_singleton.mp hname).symm⟩
  have hfuncs : (∃ f ∈ agg.funcs, f.func ≠ .count ∧ storedColumn f.field = name) →
      name ∈ ((stmtOf plan ids).items).flatMap (fun x => x.1.innerNames) := by
    rintro ⟨f, hf, hcount, rfl⟩
    refine List.mem_flatMap.mpr ⟨(aggregateOf f, f.aliasName), ?_, ?_⟩
    · simp only [Stmt.items, stmtOf, selectOf, hagg, Option.getD_some, List.mem_append,
        List.mem_map]
      exact .inr ⟨f, hf, rfl⟩
    · rw [aggregateOf_innerNames, if_neg hcount]
      exact List.mem_singleton_self _
  have hread : name ∈ plan.columnsRead agg ids ↔
      ((name = "record_id" ∧ ids ≠ []) ∨ (∃ f ∈ plan.filters, storedColumn f.field = name) ∨
        (name = "timestamp" ∧ plan.hasTimeBound = true)) ∨
      (∃ g ∈ agg.groupBy, storedColumn g = name) ∨
        ∃ f ∈ agg.funcs, f.func ≠ .count ∧ storedColumn f.field = name := by
    unfold Plan.columnsRead
    by_cases hids : ids = [] <;> by_cases hbound : plan.hasTimeBound <;>
      simp [hids, hbound, and_assoc, or_assoc]
  rw [hread, Stmt.names, List.mem_append, List.mem_append, or_assoc]
  refine or_congr (condsOf_names plan ids name) ?_
  constructor
  · rintro (h | h)
    · exact .inl (hgroup.mp h)
    · exact hitems h
  · rintro (h | h)
    · exact .inl (hgroup.mpr h)
    · exact .inr (hfuncs h)

/-- Every name a statement reads is a column of the table. -/
theorem names_stored (plan : Plan) (ids : List String) {name : String}
    (h : name ∈ (stmtOf plan ids).names) : isTopLevel name = true ∨ name = "attributes" := by
  have hstored : ∀ field, isTopLevel (storedColumn field) = true ∨
      storedColumn field = "attributes" := by
    intro field
    unfold storedColumn
    split_ifs with htop
    · exact .inl htop
    · exact .inr rfl
  have hconds : name ∈ (condsOf plan ids).flatMap Cond.names →
      isTopLevel name = true ∨ name = "attributes" := by
    intro hname
    rcases (condsOf_names plan ids name).mp hname with ⟨rfl, -⟩ | ⟨f, -, rfl⟩ | ⟨rfl, -⟩
    · exact .inl (by decide)
    · exact hstored f.field
    · exact .inl (by decide)
  cases hagg : plan.aggregation with
  | some agg =>
    rw [mem_names_of_aggregation hagg] at h
    unfold Plan.columnsRead at h
    simp only [List.mem_append, List.mem_map] at h
    rcases h with (((h | ⟨f, -, rfl⟩) | h) | ⟨g, -, rfl⟩) | ⟨f, -, rfl⟩
    · split_ifs at h
      · cases h
      · rw [List.mem_singleton.mp h]
        exact .inl (by decide)
    · exact hstored f.field
    · split_ifs at h
      · rw [List.mem_singleton.mp h]
        exact .inl (by decide)
      · cases h
    · exact hstored g
    · exact hstored f.field
  | none =>
    simp only [Stmt.names, stmtOf, groupByOf, hagg, List.flatMap_nil, List.append_nil,
      List.mem_append] at h
    rcases h with h | h
    · exact hconds h
    · obtain ⟨x, hx, hname⟩ := List.mem_flatMap.mp h
      simp only [Stmt.items, selectOf, hagg] at hx
      split_ifs at hx
      · simp only [Option.getD_some, List.mem_map] at hx
        obtain ⟨f, -, rfl⟩ := hx
        exact .inr (columnOf_innerNames hname).1
      · cases hx

/-! ### Capture -/

/-- An output column that is a field of its own name is captured only when it is called
`attributes`. -/
theorem columnOf_reads_stored {field : String} (hne : field ≠ "attributes")
    (hname : field ∈ (stmtOf plan ids).names) : columnOf field = .column field := by
  rcases names_stored plan ids hname with htop | hattr
  · rw [columnOf, if_pos htop]
  · exact absurd hattr hne

theorem readsStored_of_aliasesApart (h : plan.AliasesApart ids) :
    (stmtOf plan ids).ReadsStored := by
  rintro name hname x hx rfl
  cases hagg : plan.aggregation with
  | some agg =>
    simp only [Stmt.items, stmtOf, selectOf, hagg, Option.getD_some, List.mem_append,
      List.mem_map] at hx
    rcases hx with ⟨g, hg, rfl⟩ | ⟨f, hf, rfl⟩
    · have hne : g ≠ "attributes" := by
        rintro rfl
        exact h.groups agg hagg hg
      exact columnOf_reads_stored hne hname
    · rw [mem_names_of_aggregation hagg] at hname
      exact absurd hname (h.aggregates agg hagg f hf)
  | none =>
    simp only [Stmt.items, stmtOf, selectOf, hagg] at hx
    split_ifs at hx
    · simp only [Option.getD_some, List.mem_map] at hx
      obtain ⟨f, hf, rfl⟩ := hx
      have hne : f ≠ "attributes" := by
        rintro rfl
        exact h.fields hagg hf
      exact columnOf_reads_stored hne hname
    · cases hx

/-- A field called `attributes` names its own lookup after the map it looks into. -/
theorem attributes_captured {s : Stmt String}
    (hmem : (columnOf "attributes", "attributes") ∈ s.items) :
    ¬ s.ReadsStored := by
  intro h
  have hname : "attributes" ∈ s.names := by
    apply List.mem_append_right
    exact List.mem_flatMap.mpr ⟨_, hmem, by decide⟩
  have heq := h "attributes" hname _ hmem rfl
  exact columnOf_ne_column (show isTopLevel "attributes" = false by decide) _ heq

theorem aliasesApart_of_readsStored (h : (stmtOf plan ids).ReadsStored) :
    plan.AliasesApart ids := by
  refine ⟨?_, ?_, ?_⟩
  · intro agg hagg f hf hread
    rw [← mem_names_of_aggregation hagg] at hread
    have hmem : (aggregateOf f, f.aliasName) ∈ (stmtOf plan ids).items := by
      simp only [Stmt.items, stmtOf, selectOf, Option.mem_def.mp hagg, Option.getD_some,
        List.mem_append, List.mem_map]
      exact .inr ⟨f, hf, rfl⟩
    exact aggregateOf_ne_column f _ (h _ hread _ hmem rfl)
  · intro agg hagg hg
    refine attributes_captured ?_ h
    simp only [Stmt.items, stmtOf, selectOf, Option.mem_def.mp hagg, Option.getD_some,
      List.mem_append, List.mem_map]
    exact .inl ⟨_, hg, rfl⟩
  · intro hagg hf
    refine attributes_captured ?_ h
    have hne : plan.fields ≠ [] := List.ne_nil_of_mem hf
    simp only [Stmt.items, stmtOf, selectOf, hagg, if_pos hne, Option.getD_some, List.mem_map]
    exact ⟨_, hf, rfl⟩

end CairnObs.QueryLang
