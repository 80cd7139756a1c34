import CairnObs.QueryStages
import CairnObs.GoTimeFormat

/-! From the tree of a pipe query to a plan: `querylang/planner` and `querylang/ir`. -/
namespace CairnObs.QueryLang
open Fallible

structure FilterPredicate where
  field : String
  op : Op
  value : String
  deriving DecidableEq, Repr

/-- An aggregate of the plan; `aliasName` is always set. -/
structure Aggregate where
  func : AggFunc
  field : String
  aliasName : String
  deriving DecidableEq, Repr

structure Aggregation where
  funcs : List Aggregate
  groupBy : List String
  deriving DecidableEq, Repr

/-- The names of the output columns, in the order of `selectClause`. -/
def Aggregation.names (agg : Aggregation) : List String :=
  agg.groupBy ++ agg.funcs.map Aggregate.aliasName

structure Limit where
  n : ℕ
  tail : Bool
  deriving DecidableEq, Repr

/-- A bound at `zeroTime` is unset. -/
structure TimeRange where
  from_ : ℤ
  to_ : ℤ
  deriving DecidableEq, Repr

/-- `ir.Plan` without `RawSQL`, which is empty for a pipe query. -/
structure Plan where
  textSearch : List String
  filters : List FilterPredicate
  timeRange : Option TimeRange
  aggregation : Option Aggregation
  sort : List SortField
  fields : List String
  limit : Option Limit
  deriving DecidableEq, Repr

def emptyPlan : Plan :=
  { textSearch := [], filters := [], timeRange := none, aggregation := none, sort := []
    fields := [], limit := none }

/-- What `Compile` fails with on a pipe query. -/
inductive QueryError
  | parse (e : SyntaxError)
  | orBetweenFilters (field : String)
  | orOnTimeBound (kind : BoundKind)
  | invalidTimestamp (value : String)
  | fieldRequired (func : AggFunc)
  deriving DecidableEq, Repr

def defaultLimit : ℕ := 100

/-- A unit as a `time.Duration`. -/
def TimeUnit.duration : TimeUnit → ℤ
  | .s => second
  | .m => 60*second
  | .h => 3600*second
  | .d => 24*3600*second
  | .w => 7*24*3600*second

/-- The count times the unit in int64 arithmetic. -/
def relativeOffset (n : ℕ) (unit : TimeUnit) : ℤ := wrapInt64 (n*unit.duration)

def resolveTimeExpr (now : ℤ) : TimeExpr → Except QueryError ℤ
  | .absolute value =>
    match parseRFC3339 value with
    | none => .error (.invalidTimestamp value)
    | some t => .ok t
  -- Negation overflows as well, at the least int64.
  | .relative .minus n unit => .ok (now + wrapInt64 (-relativeOffset n unit))
  | .relative .plus n unit => .ok (now + relativeOffset n unit)

def setBound (kind : BoundKind) (t : ℤ) (r : TimeRange) : TimeRange :=
  match kind with
  | .earliest => { r with from_ := t }
  | .latest => { r with to_ := t }

def applyTimeBound (now : ℤ) (kind : BoundKind) (expr : TimeExpr) (plan : Plan) :
    Except QueryError Plan := do
  let t ← resolveTimeExpr now expr
  .ok { plan with
    timeRange := some (setBound kind t (plan.timeRange.getD ⟨zeroTime, zeroTime⟩)) }

/-- A text with a space or a tab becomes a phrase in quotes, with the quotes in it (and
nothing else) escaped. -/
def textPiece (query : String) : String :=
  if query.toList.any (fun c => c == ' ' || c == '\t') then
    "\"" ++ String.ofList (query.toList.flatMap (fun c => if c = '"' then ['\\', '"'] else [c])) ++
      "\""
  else query

def addTextPart (conj : Option Conj) (query : String) (parts : List String) : List String :=
  if conj = some .or then parts ++ ["OR", textPiece query]
  else if parts ≠ [] then parts ++ ["AND", textPiece query]
  else parts ++ [textPiece query]

/-- One turn of the loop of `compileBoolExpr`; `conj` is the conjunction before the term. -/
def compileTerm (now : ℤ) (conj : Option Conj) (t : Term) (parts : List String) (plan : Plan) :
    Except QueryError (List String × Plan) :=
  match t with
  | .comparison field op value =>
    if conj = some .or then .error (.orBetweenFilters field)
    else .ok (parts, { plan with filters := plan.filters ++ [⟨field, op, value⟩] })
  | .timeBound kind expr =>
    if conj = some .or then .error (.orOnTimeBound kind)
    else do
      let plan' ← applyTimeBound now kind expr plan
      .ok (parts, plan')
  | .freeText query => .ok (addTextPart conj query parts, plan)

def compileTerms (now : ℤ) : List (Option Conj × Term) → List String → Plan →
    Except QueryError (List String × Plan)
  | [], parts, plan => .ok (parts, plan)
  | (conj, t) :: ts, parts, plan => do
    let (parts', plan') ← compileTerm now conj t parts plan
    compileTerms now ts parts' plan'

/-- The terms with the conjunction before each; there is none before the first. -/
def BoolExpr.joined (e : BoolExpr) : List (Option Conj × Term) :=
  (none :: e.conjs.map some).zip e.terms

def compileBoolExpr (now : ℤ) (e : BoolExpr) (plan : Plan) :
    Except QueryError (List String × Plan) :=
  compileTerms now e.joined [] plan

/-- The name an aggregate gets, given those that are taken. Only an unnamed one gives way. -/
def aggAlias (seen : List String) (a : AggCall) : String :=
  if a.aliasName = "" then
    if a.func.text ∈ seen then a.func.text ++ "_" ++ a.field else a.func.text
  else a.aliasName

def compileAggs : List AggCall → List String → Except QueryError (List Aggregate)
  | [], _ => .ok []
  | a :: as, seen =>
    if a.func ≠ .count ∧ a.field = "" then .error (.fieldRequired a.func)
    else do
      let rest ← compileAggs as (aggAlias seen a :: seen)
      .ok (⟨a.func, a.field, aggAlias seen a⟩ :: rest)

def compileStats (aggs : List AggCall) (by_ : List String) : Except QueryError Aggregation := do
  let funcs ← compileAggs aggs []
  .ok ⟨funcs, by_⟩

/-- One turn of the loop over the stages. -/
def compileStage (now : ℤ) (p : PipeStage) (parts : List String) (plan : Plan) :
    Except QueryError (List String × Plan) :=
  match p with
  | .whereStage expr => do
    let (more, plan') ← compileBoolExpr now expr plan
    .ok (parts ++ more, plan')
  | .statsStage aggs by_ => do
    let agg ← compileStats aggs by_
    -- A second `stats` replaces the first, as a second `head` does below, while sort keys
    -- and fields add up.
    .ok (parts, { plan with aggregation := some agg })
  | .sortStage fields => .ok (parts, { plan with sort := plan.sort ++ fields })
  | .fieldsStage fields => .ok (parts, { plan with fields := plan.fields ++ fields })
  | .headStage n => .ok (parts, { plan with limit := some ⟨n.getD defaultLimit, false⟩ })
  | .tailStage n => .ok (parts, { plan with limit := some ⟨n.getD defaultLimit, true⟩ })

def compileStages (now : ℤ) : List PipeStage → List String → Plan →
    Except QueryError (List String × Plan)
  | [], parts, plan => .ok (parts, plan)
  | p :: ps, parts, plan => do
    let (parts', plan') ← compileStage now p parts plan
    compileStages now ps parts' plan'

def compileQuery (now : ℤ) (q : Query) : Except QueryError Plan := do
  let (parts, plan) ← compileBoolExpr now q.base emptyPlan
  let (parts', plan') ← compileStages now q.pipes parts plan
  if parts' = [] then .ok plan'
  else .ok { plan' with textSearch := [String.intercalate " " parts'] }

/-- `Compile` when it takes the query as pipe syntax. -/
def compilePipe (query : String) (now : ℤ) : Except QueryError Plan :=
  match parse query with
  | .error e => .error (.parse e)
  | .ok q => compileQuery now q

/-! ### What a search and a stage change -/

variable {parts : List String} {plan plan' : Plan} {now : ℤ}

theorem compileTerm_frame {conj : Option Conj} {t : Term} {parts' : List String}
    (h : compileTerm now conj t parts plan = .ok (parts', plan')) :
    plan' = { plan with filters := plan'.filters, timeRange := plan'.timeRange } := by
  cases t with
  | comparison field op value =>
    simp only [compileTerm] at h
    split at h <;> cases h
    rfl
  | timeBound kind expr =>
    simp only [compileTerm] at h
    split at h
    · cases h
    · obtain ⟨plan₁, happly, h⟩ := bind_eq_ok.mp h
      obtain ⟨t, -, ht⟩ := bind_eq_ok.mp happly
      cases ht
      cases h
      rfl
  | freeText query =>
    cases h
    rfl

theorem compileTerms_frame {ts : List (Option Conj × Term)} {parts' : List String}
    (h : compileTerms now ts parts plan = .ok (parts', plan')) :
    plan' = { plan with filters := plan'.filters, timeRange := plan'.timeRange } := by
  induction ts generalizing parts plan with
  | nil =>
    cases h
    rfl
  | cons x ts ih =>
    obtain ⟨⟨parts₁, plan₁⟩, hx, hts⟩ := bind_eq_ok.mp h
    have hframe := compileTerm_frame hx
    rw [ih hts, hframe]

/-- A search sets filters and time bounds and nothing else. -/
theorem compileBoolExpr_frame {e : BoolExpr} (h : compileBoolExpr now e plan = .ok (parts, plan')) :
    plan' = { plan with filters := plan'.filters, timeRange := plan'.timeRange } :=
  compileTerms_frame h

end CairnObs.QueryLang
