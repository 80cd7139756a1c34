import CairnObs.QueryPlanner

/-! The statement for a plan, `querylang/executor/sql.go`. -/
namespace CairnObs.QueryLang
open EscapedQuote

def defaultRowLimit : ℕ := 100

def topLevelFields : List String :=
  ["timestamp", "host", "service", "severity", "message", "record_id"]

def isTopLevel (field : String) : Bool := topLevelFields.contains field

def quoteIdent (name : String) : String :=
  "`" ++ String.ofList (name.toList.flatMap (fun c => if c = '`' then ['`', '`'] else [c])) ++ "`"

def quoteLiteral (s : String) : String :=
  "'" ++ String.ofList (escape '\'' '\\' s.toList) ++ "'"

/-- The digits, and the optional fraction, of `^-?\d+(\.\d+)?$`. -/
def isUnsignedLiteral (cs : List Char) : Bool :=
  !(cs.takeWhile isDigit).isEmpty &&
    match cs.dropWhile isDigit with
    | [] => true
    | '.' :: d :: rest => (d :: rest).all isDigit
    | _ => false

/-- Whether a text starts with the sign, and what is left without it. -/
def splitSign (s : String) : Bool × List Char :=
  match s.toList with
  | '-' :: cs => (true, cs)
  | cs => (false, cs)

def isNumericLiteral (s : String) : Bool := isUnsignedLiteral (splitSign s).2

def columnExpr (field : String) : String :=
  if isTopLevel field then quoteIdent field else "attributes[" ++ quoteLiteral field ++ "]"

def buildComparisonSQL (f : FilterPredicate) : String :=
  if !isTopLevel f.field && isNumericLiteral f.value then
    "toFloat64OrZero(" ++ columnExpr f.field ++ ") " ++ f.op.text ++ " " ++ f.value
  else columnExpr f.field ++ " " ++ f.op.text ++ " " ++ quoteLiteral f.value

/-- `strings.ToUpper` of the function's name. -/
def AggFunc.upper : AggFunc → String
  | .count => "COUNT"
  | .sum => "SUM"
  | .avg => "AVG"
  | .min => "MIN"
  | .max => "MAX"

def aggExpr (f : Aggregate) : String :=
  if f.func = .count then "count()"
  else f.func.upper ++ "(" ++
    (if isTopLevel f.field then columnExpr f.field
      else "toFloat64OrZero(" ++ columnExpr f.field ++ ")") ++ ")"

def selectClause (plan : Plan) : String :=
  match plan.aggregation with
  | some agg => String.intercalate ", "
      (agg.groupBy.map (fun g => columnExpr g ++ " AS " ++ quoteIdent g) ++
        agg.funcs.map (fun f => aggExpr f ++ " AS " ++ quoteIdent f.aliasName))
  | none =>
    if plan.fields ≠ [] then
      String.intercalate ", " (plan.fields.map (fun f => columnExpr f ++ " AS " ++ quoteIdent f))
    else "*"

def boundConds (r : TimeRange) : List String :=
  (if r.from_ = zeroTime then [] else
    ["`timestamp` >= " ++ quoteLiteral (formatClickHouseDateTime64 r.from_)]) ++
  (if r.to_ = zeroTime then [] else
    ["`timestamp` <= " ++ quoteLiteral (formatClickHouseDateTime64 r.to_)])

def whereConds (plan : Plan) (recordIDFilter : List String) : List String :=
  (if recordIDFilter ≠ [] then
    ["record_id IN (" ++ String.intercalate "," (recordIDFilter.map quoteLiteral) ++ ")"]
    else []) ++
  plan.filters.map buildComparisonSQL ++
  (match plan.timeRange with
    | none => []
    | some r => boundConds r)

def buildWhereClause (plan : Plan) (recordIDFilter : List String) : String :=
  String.intercalate " AND " (whereConds plan recordIDFilter)

/-- An alias of the aggregation comes before its group-by fields and the columns. -/
def sortColumnExpr (plan : Plan) (field : String) : String :=
  match plan.aggregation with
  | some agg =>
    if agg.funcs.any (fun f => f.aliasName == field) then quoteIdent field else columnExpr field
  | none => columnExpr field

def orderByClause (plan : Plan) : String :=
  if plan.sort ≠ [] then
    " ORDER BY " ++ String.intercalate ", " (plan.sort.map (fun s =>
      sortColumnExpr plan s.field ++ " " ++ (if s.desc then "DESC" else "ASC")))
  else if (plan.limit.map Limit.tail).getD false then " ORDER BY `timestamp` ASC"
  else if plan.aggregation = none then " ORDER BY `timestamp` DESC"
  else ""

def groupByClause (plan : Plan) : String :=
  match plan.aggregation with
  | some agg =>
    if agg.groupBy ≠ [] then
      " GROUP BY " ++ String.intercalate ", " (agg.groupBy.map columnExpr)
    else ""
  | none => ""

def limitClause (plan : Plan) : String :=
  match plan.limit with
  | some l => " LIMIT " ++ toString l.n
  | none => if plan.aggregation = none then " LIMIT " ++ toString defaultRowLimit else ""

def buildSQL (plan : Plan) (recordIDFilter : List String) : String :=
  "SELECT " ++ selectClause plan ++ " FROM logs" ++
    (if buildWhereClause plan recordIDFilter ≠ "" then
      " WHERE " ++ buildWhereClause plan recordIDFilter else "") ++
    groupByClause plan ++ orderByClause plan ++ limitClause plan

end CairnObs.QueryLang
