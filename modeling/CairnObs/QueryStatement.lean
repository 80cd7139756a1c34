import CairnObs.QuerySql
import CairnObs.SqlLexer

/-! The statements that `buildSQL` writes, as trees. The type of the names and values in a
tree is a parameter: at `String` it is the statement itself, at `Unit` only its skeleton. -/
namespace CairnObs.QueryLang
open SqlLexer (SqlToken)

variable {α : Type}

inductive Expr (α : Type)
  | column (name : α)
  | attr (key : α)
  | toFloat (e : Expr α)
  | countAll
  | call (func : AggFunc) (e : Expr α)
  deriving DecidableEq, Repr

inductive Value (α : Type)
  | literal (text : α)
  | number (negative : Bool) (digits : α)
  deriving DecidableEq, Repr

inductive Cond (α : Type)
  | recordIn (ids : List α)
  | compare (e : Expr α) (op : Op) (v : Value α)
  deriving DecidableEq, Repr

/-- `select` is `none` for a star. -/
structure Stmt (α : Type) where
  select : Option (List (Expr α × α))
  conds : List (Cond α)
  groupBy : List (Expr α)
  orderBy : List (Expr α × Bool)
  limit : Option α
  deriving DecidableEq, Repr

/-! ### The tokens of a statement -/

def Expr.tokens : Expr α → List (SqlToken α)
  | .column name => [.ident name]
  | .attr key => [.word "attributes", .symbol "[", .literal key, .symbol "]"]
  | .toFloat e => [.word "toFloat64OrZero", .symbol "("] ++ e.tokens ++ [.symbol ")"]
  | .countAll => [.word "count", .symbol "(", .symbol ")"]
  | .call func e => [.word func.upper, .symbol "("] ++ e.tokens ++ [.symbol ")"]

def Value.tokens : Value α → List (SqlToken α)
  | .literal text => [.literal text]
  | .number true digits => [.symbol "-", .number digits]
  | .number false digits => [.number digits]

def commaSeparated (xs : List (List (SqlToken α))) : List (SqlToken α) :=
  List.intercalate [.symbol ","] xs

def Cond.tokens : Cond α → List (SqlToken α)
  | .recordIn ids =>
    [.word "record_id", .word "IN", .symbol "("] ++
      commaSeparated (ids.map (fun id => [.literal id])) ++ [.symbol ")"]
  | .compare e op v => e.tokens ++ [.symbol op.text] ++ v.tokens

def itemTokens (x : Expr α × α) : List (SqlToken α) := x.1.tokens ++ [.word "AS", .ident x.2]

def orderTokens (x : Expr α × Bool) : List (SqlToken α) :=
  x.1.tokens ++ [.word (if x.2 then "DESC" else "ASC")]

/-- A clause that is left out when there is nothing in it. -/
def clauseTokens (keywords : List String) (xs : List (List (SqlToken α)))
    (separator : SqlToken α) : List (SqlToken α) :=
  if xs = [] then [] else keywords.map SqlToken.word ++ List.intercalate [separator] xs

def selectTokens : Option (List (Expr α × α)) → List (SqlToken α)
  | none => [.symbol "*"]
  | some items => commaSeparated (items.map itemTokens)

def limitTokens : Option α → List (SqlToken α)
  | none => []
  | some n => [.word "LIMIT", .number n]

def Stmt.tokens (s : Stmt α) : List (SqlToken α) :=
  [.word "SELECT"] ++ selectTokens s.select ++ [.word "FROM", .word "logs"] ++
    clauseTokens ["WHERE"] (s.conds.map Cond.tokens) (.word "AND") ++
    clauseTokens ["GROUP", "BY"] (s.groupBy.map Expr.tokens) (.symbol ",") ++
    clauseTokens ["ORDER", "BY"] (s.orderBy.map orderTokens) (.symbol ",") ++
    limitTokens s.limit

/-! ### The statement for a plan -/

def columnOf (field : String) : Expr String :=
  if isTopLevel field then .column field else .attr field

def comparisonOf (f : FilterPredicate) : Cond String :=
  if !isTopLevel f.field && isNumericLiteral f.value then
    .compare (.toFloat (columnOf f.field)) f.op
      (.number (splitSign f.value).1 (String.ofList (splitSign f.value).2))
  else .compare (columnOf f.field) f.op (.literal f.value)

def aggregateOf (f : Aggregate) : Expr String :=
  if f.func = .count then .countAll
  else .call f.func
    (if isTopLevel f.field then columnOf f.field else .toFloat (columnOf f.field))

def selectOf (plan : Plan) : Option (List (Expr String × String)) :=
  match plan.aggregation with
  | some agg => some (agg.groupBy.map (fun g => (columnOf g, g)) ++
      agg.funcs.map (fun f => (aggregateOf f, f.aliasName)))
  | none => if plan.fields ≠ [] then some (plan.fields.map (fun f => (columnOf f, f))) else none

def boundCondsOf (r : TimeRange) : List (Cond String) :=
  (if r.from_ = zeroTime then [] else
    [.compare (.column "timestamp") .gte (.literal (formatClickHouseDateTime64 r.from_))]) ++
  (if r.to_ = zeroTime then [] else
    [.compare (.column "timestamp") .lte (.literal (formatClickHouseDateTime64 r.to_))])

def condsOf (plan : Plan) (recordIDFilter : List String) : List (Cond String) :=
  (if recordIDFilter ≠ [] then [.recordIn recordIDFilter] else []) ++
  plan.filters.map comparisonOf ++
  (match plan.timeRange with
    | none => []
    | some r => boundCondsOf r)

def groupByOf (plan : Plan) : List (Expr String) :=
  match plan.aggregation with
  | some agg => agg.groupBy.map columnOf
  | none => []

def sortColumnOf (plan : Plan) (field : String) : Expr String :=
  match plan.aggregation with
  | some agg =>
    if agg.funcs.any (fun f => f.aliasName == field) then .column field else columnOf field
  | none => columnOf field

def orderByOf (plan : Plan) : List (Expr String × Bool) :=
  if plan.sort ≠ [] then plan.sort.map (fun s => (sortColumnOf plan s.field, s.desc))
  else if (plan.limit.map Limit.tail).getD false then [(.column "timestamp", false)]
  else if plan.aggregation = none then [(.column "timestamp", true)]
  else []

def limitOf (plan : Plan) : Option String :=
  match plan.limit with
  | some l => some (toString l.n)
  | none => if plan.aggregation = none then some (toString defaultRowLimit) else none

def stmtOf (plan : Plan) (recordIDFilter : List String) : Stmt String where
  select := selectOf plan
  conds := condsOf plan recordIDFilter
  groupBy := groupByOf plan
  orderBy := orderByOf plan
  limit := limitOf plan

end CairnObs.QueryLang
