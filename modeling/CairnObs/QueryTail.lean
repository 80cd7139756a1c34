import CairnObs.QueryPipeline

/-! Which rows a query with a `tail` returns. -/
namespace CairnObs.QueryLang
open TableOps Fallible

/-! ### The limit of a plan -/

def PipeStage.limitAfter (limit : Option Limit) : PipeStage → Option Limit
  | .headStage n => some ⟨n.getD defaultLimit, false⟩
  | .tailStage n => some ⟨n.getD defaultLimit, true⟩
  | .whereStage _ | .statsStage _ _ | .sortStage _ | .fieldsStage _ => limit

def PipeStage.isStats : PipeStage → Bool
  | .statsStage _ _ => true
  | .whereStage _ | .sortStage _ | .fieldsStage _ | .headStage _ | .tailStage _ => false

def PipeStage.isSort : PipeStage → Bool
  | .sortStage _ => true
  | .whereStage _ | .statsStage _ _ | .fieldsStage _ | .headStage _ | .tailStage _ => false

def PipeStage.isHead : PipeStage → Bool
  | .headStage _ => true
  | .whereStage _ | .statsStage _ _ | .sortStage _ | .fieldsStage _ | .tailStage _ => false

/-- The count that is left of a `tail` of count `n` after further stages: each later `tail`
replaces it. -/
def tailCount (n : ℕ) : List PipeStage → ℕ
  | [] => n
  | .tailStage m :: ps => tailCount (m.getD defaultLimit) ps
  | _ :: ps => tailCount n ps

/-- What stages other than `stats` and `sort` leave of a plan. -/
structure RawRows (plan plan' : Plan) (limit : Option Limit) : Prop where
  aggregation : plan'.aggregation = plan.aggregation
  sort : plan'.sort = plan.sort
  limit : plan'.limit = limit

variable {plan : Plan}

theorem compileStage_rawRows {now : ℤ} {p : PipeStage} (hstats : p.isStats = false)
    (hsort : p.isSort = false) {parts parts' : List String} {plan' : Plan}
    (h : compileStage now p parts plan = .ok (parts', plan')) :
    RawRows plan plan' (p.limitAfter plan.limit) := by
  cases p with
  | whereStage e =>
    obtain ⟨⟨more, plan₁⟩, he, h⟩ := bind_eq_ok.mp h
    cases h
    have hframe := compileBoolExpr_frame he
    exact ⟨by rw [hframe], by rw [hframe], by rw [hframe]; rfl⟩
  | statsStage aggs by_ => cases hstats
  | sortStage fields => cases hsort
  | fieldsStage fields | headStage n | tailStage n =>
    cases h
    exact ⟨rfl, rfl, rfl⟩

theorem compileStages_rawRows {now : ℤ} {ps : List PipeStage}
    (hps : ∀ p ∈ ps, p.isStats = false ∧ p.isSort = false) {parts parts' : List String}
    {plan' : Plan} (h : compileStages now ps parts plan = .ok (parts', plan')) :
    RawRows plan plan' (ps.foldl PipeStage.limitAfter plan.limit) := by
  induction ps generalizing parts plan with
  | nil =>
    cases h
    exact ⟨rfl, rfl, rfl⟩
  | cons p ps ih =>
    obtain ⟨⟨parts₁, plan₁⟩, hp, hps'⟩ := bind_eq_ok.mp h
    obtain ⟨hstats, hsort⟩ := hps p List.mem_cons_self
    have hhead := compileStage_rawRows hstats hsort hp
    have htail := ih (fun p' hp' => hps p' (List.mem_cons_of_mem _ hp')) hps'
    refine ⟨htail.aggregation.trans hhead.aggregation, htail.sort.trans hhead.sort, ?_⟩
    rw [List.foldl_cons, htail.limit, hhead.limit]

theorem foldl_limitAfter_tail {ps : List PipeStage} (hps : ∀ p ∈ ps, p.isHead = false) (n : ℕ) :
    ps.foldl PipeStage.limitAfter (some ⟨n, true⟩) = some ⟨tailCount n ps, true⟩ := by
  induction ps generalizing n with
  | nil => rfl
  | cons p ps ih =>
    have hhead := hps p List.mem_cons_self
    have ih := ih (fun p' hp' => hps p' (List.mem_cons_of_mem _ hp'))
    cases p with
    | headStage m => cases hhead
    | tailStage m => exact ih (m.getD defaultLimit)
    | whereStage e => exact ih n
    | statsStage aggs by_ => exact ih n
    | sortStage fields => exact ih n
    | fieldsStage fields => exact ih n

/-- The plan of a query with a `tail` that no `head` follows. -/
theorem compileQuery_tail {now : ℤ} {q : Query} (h : compileQuery now q = .ok plan)
    {before after : List PipeStage} {n : Option ℕ}
    (hpipes : q.pipes = before ++ .tailStage n :: after)
    (hraw : ∀ p ∈ q.pipes, p.isStats = false ∧ p.isSort = false)
    (hhead : ∀ p ∈ after, p.isHead = false) :
    plan.aggregation = none ∧ plan.sort = [] ∧
      plan.limit = some ⟨tailCount (n.getD defaultLimit) after, true⟩ := by
  obtain ⟨⟨parts, plan₁⟩, hb, h⟩ := bind_eq_ok.mp h
  obtain ⟨⟨parts', plan₂⟩, hps, h⟩ := bind_eq_ok.mp h
  have hstages := compileStages_rawRows hraw hps
  have hframe := compileBoolExpr_frame hb
  have hagg : plan₁.aggregation = none := by rw [hframe]; rfl
  have hsort : plan₁.sort = [] := by rw [hframe]; rfl
  have hlimit : plan₂.limit = some ⟨tailCount (n.getD defaultLimit) after, true⟩ := by
    rw [hstages.limit, hpipes, List.foldl_append, List.foldl_cons]
    exact foldl_limitAfter_tail hhead _
  dsimp only at h
  split at h <;> cases h <;>
    exact ⟨hstages.aggregation.trans hagg, hstages.sort.trans hsort, hlimit⟩

/-! ### The statement -/

section Statement
variable {V : Type} [LinearOrder V] (E : Engine V)

def LogRow.timestamp (r : LogRow V) : V := r.column "timestamp"

/-- The groups of rows that the rows of the result stand for. -/
def Stmt.returned (s : Stmt String) (table : List (LogRow V)) : List (List (LogRow V)) :=
  s.limited (sortBy (s.orderBy.map (fun x => ((s.resolve x.1).eval E, x.2))) (s.groups E table))

theorem Stmt.exec_eq_returned (s : Stmt String) (table : List (LogRow V)) :
    s.exec E table = (s.returned E table).map (s.output E) := rfl

def Stmt.matching (s : Stmt String) (table : List (LogRow V)) : List (LogRow V) :=
  table.filter (fun r => s.conds.all (Cond.holds E r))

/-- A `tail` without a sort takes the first rows by ascending timestamp. -/
theorem returned_tail (hagg : plan.aggregation = none) (hsort : plan.sort = []) {m : ℕ}
    (hlimit : plan.limit = some ⟨m, true⟩) (ids : List String) (table : List (LogRow V)) :
    (stmtOf plan ids).returned E table =
      ((sortBy [(LogRow.timestamp, false)] ((stmtOf plan ids).matching E table)).take m).map
        (fun r => [r]) := by
  have horder : (stmtOf plan ids).orderBy = [(.column "timestamp", false)] := by
    simp [stmtOf, orderByOf, hsort, hlimit]
  have hcolumn : columnOf "timestamp" = .column "timestamp" := rfl
  have hresolve : (stmtOf plan ids).resolve (.column "timestamp") = .column "timestamp" := by
    rw [← hcolumn]
    exact resolve_stmtOf_log hagg ids "timestamp"
  have hkeys := map_sortBy_keys [()] (fun _ r => LogRow.timestamp r)
    (fun _ => (Expr.column "timestamp").eval E) (fun _ => false) (fun r => [r])
    (l := (stmtOf plan ids).matching E table) (fun _ _ r _ => rfl)
  rw [Stmt.returned, horder, groups_stmtOf_log E hagg ids, limited_stmtOf hlimit]
  simp only [List.map_cons, List.map_nil, hresolve] at hkeys ⊢
  have hmatching : table.filter (fun r => (condsOf plan ids).all (Cond.holds E r)) =
      (stmtOf plan ids).matching E table := rfl
  rw [hmatching, ← hkeys, Plan.limited_map, Plan.limited, hlimit]

end Statement

/-- A query with a `tail` of count `n` (100 if it has none), without `stats` and `sort` and
without a later `head`, returns its newest `n` matching rows exactly if no more rows match
than the last `tail` takes, or the counts are zero; else it returns the oldest ones. -/
theorem tail_returns_newest_iff {query : String} {q : Query} {now : ℤ} {plan : Plan}
    (hparse : parse query = .ok q) (hcompile : compileQuery now q = .ok plan)
    {before after : List PipeStage} {n : Option ℕ}
    (hpipes : q.pipes = before ++ .tailStage n :: after)
    (hraw : ∀ p ∈ q.pipes, p.isStats = false ∧ p.isSort = false)
    (hhead : ∀ p ∈ after, p.isHead = false) (ids : List String)
    {V : Type} [LinearOrder V] (E : Engine V) {table : List (LogRow V)}
    (hties : table.Pairwise (fun r r' => r.timestamp ≠ r'.timestamp)) :
    SqlLexer.tokens (buildSQL plan ids).toList = (stmtOf plan ids).tokens ∧
    (stmtOf plan ids).exec E table =
      ((stmtOf plan ids).returned E table).flatten.map (fun r => (stmtOf plan ids).output E [r]) ∧
    (Largest LogRow.timestamp (n.getD defaultLimit) ((stmtOf plan ids).matching E table)
        ((stmtOf plan ids).returned E table).flatten ↔
      let matching := ((stmtOf plan ids).matching E table).length
      let count := tailCount (n.getD defaultLimit) after
      min count matching = min (n.getD defaultLimit) matching ∧
        (matching ≤ count ∨ count = 0)) := by
  have hnamed : plan.Named := by
    apply compilePipe_named
    rw [compilePipe, hparse]
    exact hcompile
  obtain ⟨hagg, hsort, hlimit⟩ := compileQuery_tail hcompile hpipes hraw hhead
  have hreturned := returned_tail E hagg hsort hlimit ids table
  have hflatten : ∀ l : List (LogRow V), (l.map (fun r => [r])).flatten = l := by
    intro l
    induction l <;> simp_all
  refine ⟨tokens_buildSQL hnamed ids, ?_, ?_⟩
  · rw [Stmt.exec_eq_returned, hreturned, hflatten, List.map_map]
    rfl
  · rw [hreturned, hflatten]
    exact largest_take_iff (hties.sublist List.filter_sublist) _ _

/-- A row at an instant, with nothing else in it. -/
def rowAt (t : ℕ) : LogRow ℕ := ⟨fun _ => t, fun _ => 0⟩

def lastRows (n : ℕ) : Query := ⟨BoolExpr.empty, [.tailStage (some n)]⟩

theorem tail_returns_newest_few :
    ∃ plan, compileQuery 0 (lastRows 2) = .ok plan ∧
      Largest LogRow.timestamp 2 [rowAt 2, rowAt 1]
        ((stmtOf plan []).returned natEngine [rowAt 2, rowAt 1]).flatten := by
  have hparse : parse (render (lastRows 2)) = .ok (lastRows 2) :=
    parse_render_of_wellFormed (by decide) (by decide)
  have haccepted : ∃ plan, compileQuery 0 (lastRows 2) = .ok plan ∧
      (stmtOf plan []).matching natEngine [rowAt 2, rowAt 1] = [rowAt 2, rowAt 1] := ⟨_, rfl, rfl⟩
  obtain ⟨plan, hcompile, hmatching⟩ := haccepted
  have hties : [rowAt 2, rowAt 1].Pairwise (fun r r' => r.timestamp ≠ r'.timestamp) := by
    simp [rowAt, LogRow.timestamp]
  have hpipes : (lastRows 2).pipes = [] ++ .tailStage (some 2) :: [] := rfl
  have htail := (tail_returns_newest_iff hparse hcompile hpipes (by decide) (by simp) [] natEngine
    hties).2.2
  rw [hmatching] at htail
  exact ⟨plan, hcompile, htail.mpr (by decide)⟩

/-- Of two rows `tail 1` returns the older one. -/
theorem tail_returns_oldest :
    parse "tail 1" = .ok (lastRows 1) ∧
    ∃ plan, compileQuery 0 (lastRows 1) = .ok plan ∧
      (stmtOf plan []).exec natEngine [rowAt 1, rowAt 2] = [.log (rowAt 1)] ∧
      (stmtOf plan []).matching natEngine [rowAt 1, rowAt 2] = [rowAt 1, rowAt 2] ∧
      ¬ Largest LogRow.timestamp 1 [rowAt 1, rowAt 2] [rowAt 1] := by
  refine ⟨by decide +kernel, _, rfl, rfl, rfl, ?_⟩
  rintro ⟨-, rest, hperm, hlarge⟩
  have hother : rest.Perm [rowAt 2] := (List.perm_cons (rowAt 1)).mp hperm
  have hless :=
    hlarge (rowAt 1) List.mem_cons_self (rowAt 2) (hother.mem_iff.mpr List.mem_cons_self)
  exact absurd hless (by decide)

end CairnObs.QueryLang
