import CairnObs.QueryPipeline

/-! Running a plan, `querylang/executor`: the text search first, then one statement. -/
namespace CairnObs.QueryLang
open TableOps

/-- What a statement or a plan returns. -/
structure Result (V : Type) where
  columns : List String
  rows : List (List V)
  deriving DecidableEq, Repr

/-- A failure of the search is reported as such, one of the database is passed on. -/
inductive ExecError (ε : Type)
  | searchFailed (e : ε)
  | sqlFailed (e : ε)
  deriving DecidableEq, Repr

/-- The most record ids that a text search may put into a statement. -/
def textSearchLimit : ℕ := 5000

section Execute
variable {V ε : Type} (runSQL : String → Except (ExecError ε) (Result V))
  (search : String → ℕ → Except ε (List String))

/-- `rawSQL` is the field of the plan that is set for a query in SQL. -/
def execute (rawSQL : String) (plan : Plan) : Except (ExecError ε) (Result V) :=
  if rawSQL ≠ "" then runSQL rawSQL
  else
    match plan.textSearch with
    | [] => runSQL (buildSQL plan [])
    | query :: _ =>
      match search query textSearchLimit with
      | .error e => .error (.searchFailed e)
      | .ok ids => if ids = [] then .ok ⟨[], []⟩ else runSQL (buildSQL plan ids)

end Execute

/-! ### The statement over no record ids -/

section Statement
variable {V : Type} [LinearOrder V] (E : Engine V)

/-- The cells of a row; `star` are the columns of the table. -/
def Row.values (star : List String) : Row V → List V
  | .log r => star.map r.column
  | .cells cs => cs.map Prod.snd

def Stmt.columns (star : List String) (s : Stmt String) : List String :=
  match s.select with
  | none => star
  | some items => items.map Prod.snd

def Stmt.result (star : List String) (s : Stmt String) (table : List (LogRow V)) : Result V where
  columns := s.columns star
  rows := (s.exec E table).map (Row.values star)

/-- The statement for a plan with the condition that the record id is in the empty set. -/
def noIdsStmt (plan : Plan) : Stmt String :=
  { stmtOf plan [] with conds := .recordIn [] :: condsOf plan [] }

/-- An aggregation over the whole table has a row even where nothing was selected. -/
def Plan.isTotal (plan : Plan) : Bool :=
  match plan.aggregation with
  | none => false
  | some agg => agg.groupBy.isEmpty

theorem groups_noIdsStmt {plan : Plan} (h : plan.isTotal = false) (table : List (LogRow V)) :
    (noIdsStmt plan).groups E table = [] := by
  have hrows : table.filter (fun r => (noIdsStmt plan).conds.all (Cond.holds E r)) = [] := by
    simp [noIdsStmt, Cond.holds]
  unfold Stmt.groups
  simp only [hrows]
  cases hagg : plan.aggregation with
  | none =>
    have hby : (noIdsStmt plan).groupBy = [] := by simp [noIdsStmt, stmtOf, groupByOf, hagg]
    have hitems : (noIdsStmt plan).items = plan.fields.map (fun f => (columnOf f, f)) :=
      items_stmtOf_log hagg []
    have hany : (noIdsStmt plan).items.any (fun x => x.1.isAggregate) = false := by
      simp [hitems, isAggregate_columnOf]
    rw [if_neg (by simp [hby]), if_neg (by simp [hany])]
    rfl
  | some agg =>
    have hne : agg.groupBy ≠ [] := by
      simpa [Plan.isTotal, hagg] using h
    have hby : (noIdsStmt plan).groupBy ≠ [] := by
      simpa [noIdsStmt, stmtOf, groupByOf, hagg] using hne
    rw [if_pos hby]
    rfl

theorem exec_noIdsStmt {plan : Plan} (h : plan.isTotal = false ∨ ∃ l ∈ plan.limit, l.n = 0)
    (table : List (LogRow V)) : (noIdsStmt plan).exec E table = [] := by
  rcases h with h | ⟨l, hl, hn⟩
  · have hsorted : ∀ ks : List ((List (LogRow V) → V) × Bool), sortBy ks [] = [] := fun _ => rfl
    rw [Stmt.exec, groups_noIdsStmt E h, hsorted]
    unfold Stmt.limited
    split
    · rfl
    · rw [List.take_nil]
      rfl
  · have hlimited : ∀ gs : List (List (LogRow V)), (noIdsStmt plan).limited gs = [] := by
      intro gs
      have hplan := limited_stmtOf (Option.mem_def.mp hl) [] gs
      have htake : plan.limited gs = [] := by
        rw [Plan.limited, Option.mem_def.mp hl]
        simp [hn]
      exact hplan.trans htake
    rw [Stmt.exec, hlimited]
    rfl

end Statement

/-- Without hits a plan returns no columns and no rows, and asks the database nothing. The
statement over the empty set of record ids has no rows either, an aggregation over the whole
table apart. -/
theorem execute_no_hits {V ε : Type} [LinearOrder V] {search : String → ℕ → Except ε (List String)}
    {plan : Plan} {query : String} {more : List String} (htext : plan.textSearch = query :: more)
    (hnone : search query textSearchLimit = .ok [])
    (hgroups : plan.isTotal = false ∨ ∃ l ∈ plan.limit, l.n = 0) (E : Engine V)
    (star : List String) (table : List (LogRow V)) :
    (∀ runSQL : String → Except (ExecError ε) (Result V),
      execute runSQL search "" plan = .ok ⟨[], []⟩) ∧
      ((noIdsStmt plan).result E star table).rows = [] := by
  constructor
  · intro runSQL
    simp [execute, htext, hnone]
  · rw [Stmt.result, exec_noIdsStmt E hgroups]
    rfl

/-- A plan that only searches for a text. -/
def textPlan (query : String) : Plan := { emptyPlan with textSearch := [query] }

def logColumns : List String :=
  ["timestamp", "host", "service", "severity", "message", "attributes", "record_id"]

/-- A search without hits, and a database that is down. -/
def noHits (_ : String) (_ : ℕ) : Except Unit (List String) := .ok []

def downSQL (_ : String) : Except (ExecError Unit) (Result ℕ) := .error (.sqlFailed ())

theorem execute_no_hits_timeout :
    execute downSQL noHits "" (textPlan "timeout") = .ok ⟨[], []⟩ ∧
      ((noIdsStmt (textPlan "timeout")).result natEngine logColumns [request 3 200]).rows = [] := by
  have htext : (textPlan "timeout").textSearch = "timeout" :: [] := rfl
  have hnone : noHits "timeout" textSearchLimit = .ok [] := rfl
  have h := execute_no_hits htext hnone (.inl rfl) natEngine logColumns [request 3 200]
  exact ⟨h.1 downSQL, h.2⟩

/-- The statement names the columns of the table even without rows. -/
theorem no_hits_without_columns :
    compileQuery 0 ⟨⟨[.freeText "timeout"], []⟩, []⟩ = .ok (textPlan "timeout") ∧
      execute downSQL noHits "" (textPlan "timeout") ≠
        .ok ((noIdsStmt (textPlan "timeout")).result natEngine logColumns [request 3 200]) := by
  refine ⟨rfl, ?_⟩
  intro h
  have hcolumns := congrArg (fun r => r.toOption.map Result.columns) h
  exact absurd hcolumns (by decide)

end CairnObs.QueryLang
