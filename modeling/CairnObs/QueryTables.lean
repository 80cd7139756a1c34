import CairnObs.QueryStatement
import CairnObs.TableOps

/-! What statements and pipe queries mean on a finite table of logs: a statement by the
standard semantics of its clauses, a query by reading its stages from left to right. -/
namespace CairnObs.QueryLang
open TableOps

variable {V : Type}

/-- How single values are compared, cast and aggregated; `missing` is the value of a field
that a row does not have. -/
structure Engine (V : Type) where
  compare : V → Op → Value String → Bool
  toFloat : V → V
  count : ℕ → V
  aggregate : AggFunc → List V → V
  missing : V

/-- A row of `logs`: its columns and its attributes. -/
structure LogRow (V : Type) where
  column : String → V
  attr : String → V

/-- A row of a result is a row of `logs`, or has named cells. -/
inductive Row (V : Type)
  | log (r : LogRow V)
  | cells (cs : List (String × V))

/-! ### Statements -/

/-- The value of an expression on a group of rows. Columns are those of the first row: all
rows of a group agree on the columns that may stand outside of an aggregate. -/
def Expr.eval (E : Engine V) (g : List (LogRow V)) : Expr String → V
  | .column name => (g.head?.map (fun r => r.column name)).getD E.missing
  | .attr key => (g.head?.map (fun r => r.attr key)).getD E.missing
  | .toFloat e => E.toFloat (e.eval E g)
  | .countAll => E.count g.length
  | .call func e => E.aggregate func (g.map (fun r => e.eval E [r]))

def Cond.holds (E : Engine V) (r : LogRow V) : Cond String → Bool
  | .recordIn ids => ids.any (fun id => E.compare (r.column "record_id") .eq (.literal id))
  | .compare e op v => E.compare (e.eval E [r]) op v

def Expr.isAggregate : Expr String → Bool
  | .column _ | .attr _ => false
  | .toFloat e => e.isAggregate
  | .countAll | .call _ _ => true

def Stmt.items (s : Stmt String) : List (Expr String × String) := s.select.getD []

/-- WHERE and GROUP BY. Without GROUP BY there is one group if an aggregate is selected, even
of no rows, and else one for each row. -/
def Stmt.groups [DecidableEq V] (E : Engine V) (s : Stmt String) (table : List (LogRow V)) :
    List (List (LogRow V)) :=
  let rows := table.filter (fun r => s.conds.all (Cond.holds E r))
  if s.groupBy ≠ [] then groupsBy (fun r => s.groupBy.map (Expr.eval E [r])) rows
  else if s.items.any (fun x => x.1.isAggregate) then [rows]
  else rows.map (fun r => [r])

/-- In ORDER BY a name is that of the first selected item with this alias, if there is one. -/
def Stmt.resolve (s : Stmt String) : Expr String → Expr String
  | .column name =>
    match s.items.find? (fun x => x.2 == name) with
    | some x => x.1
    | none => .column name
  | e => e

def Stmt.output (E : Engine V) (s : Stmt String) (g : List (LogRow V)) : Row V :=
  match s.select, g with
  | none, r :: _ => .log r
  | none, [] => .cells []
  | some items, g => .cells (items.map (fun x => (x.2, x.1.eval E g)))

def Stmt.limited {α : Type} (s : Stmt String) (l : List α) : List α :=
  match s.limit with
  | none => l
  | some n => l.take (Nat.ofDigitChars 10 n.toList 0)

def Stmt.exec [LinearOrder V] (E : Engine V) (s : Stmt String) (table : List (LogRow V)) :
    List (Row V) :=
  (s.limited (sortBy (s.orderBy.map (fun x => ((s.resolve x.1).eval E, x.2)))
    (s.groups E table))).map (s.output E)

/-! ### Queries, read from left to right -/

def LogRow.field (r : LogRow V) (name : String) : V :=
  if isTopLevel name then r.column name else r.attr name

def Row.get (E : Engine V) (row : Row V) (name : String) : V :=
  match row with
  | .log r => r.field name
  | .cells cs => (cs.lookup name).getD E.missing

/-- A comparison of a field that has the value `v`. -/
def FilterPredicate.holds (E : Engine V) (f : FilterPredicate) (v : V) : Bool :=
  if !isTopLevel f.field && isNumericLiteral f.value then
    E.compare (E.toFloat v) f.op
      (.number (splitSign f.value).1 (String.ofList (splitSign f.value).2))
  else E.compare v f.op (.literal f.value)

/-- Only comparisons are read here; the other terms are not about one row's fields. -/
def Term.holds (E : Engine V) (row : Row V) : Term → Bool
  | .comparison field op value => FilterPredicate.holds E ⟨field, op, value⟩ (row.get E field)
  | .timeBound _ _ | .freeText _ => true

/-- `and` binds tighter than `or`; `acc` is the value of the terms since the last `or`. -/
def holdsJoined (E : Engine V) (row : Row V) : List (Conj × Term) → Bool → Bool
  | [], acc => acc
  | (.and, t) :: ts, acc => holdsJoined E row ts (acc && t.holds E row)
  | (.or, t) :: ts, acc => acc || holdsJoined E row ts (t.holds E row)

def BoolExpr.holds (E : Engine V) (e : BoolExpr) (row : Row V) : Bool :=
  match e.terms with
  | [] => true
  | t :: ts => holdsJoined E row (e.conjs.zip ts) (t.holds E row)

def project (E : Engine V) (fields : List String) (row : Row V) : Row V :=
  .cells (fields.map (fun f => (f, row.get E f)))

/-- The value of an aggregate; only the fields of the table are not cast to numbers. -/
def Aggregate.eval (E : Engine V) (g : List (Row V)) (f : Aggregate) : V :=
  if f.func = .count then E.count g.length
  else E.aggregate f.func (g.map (fun row =>
    if isTopLevel f.field then row.get E f.field else E.toFloat (row.get E f.field)))

def Aggregation.row (E : Engine V) (agg : Aggregation) (g : List (Row V)) : Row V :=
  .cells (agg.groupBy.map (fun b => (b, (g.head?.map (fun row => row.get E b)).getD E.missing)) ++
    agg.funcs.map (fun f => (f.aliasName, f.eval E g)))

def Aggregation.groups [DecidableEq V] (E : Engine V) (agg : Aggregation) (rows : List (Row V)) :
    List (List (Row V)) :=
  if agg.groupBy ≠ [] then groupsBy (fun row => agg.groupBy.map (row.get E)) rows else [rows]

def Aggregation.rows [DecidableEq V] (E : Engine V) (agg : Aggregation) (rows : List (Row V)) :
    List (Row V) :=
  (agg.groups E rows).map (agg.row E)

def sortKeys (E : Engine V) (fields : List SortField) : List ((Row V → V) × Bool) :=
  fields.map (fun f => ((fun row => row.get E f.field), f.desc))

/-- One stage applied to the table that the stages before it have left. -/
def readStage [LinearOrder V] (E : Engine V) (p : PipeStage) (rows : List (Row V)) :
    Except QueryError (List (Row V)) :=
  match p with
  | .whereStage e => .ok (rows.filter (e.holds E))
  | .statsStage aggs by_ => do
    let agg ← compileStats aggs by_
    .ok (agg.rows E rows)
  | .sortStage fields => .ok (sortBy (sortKeys E fields) rows)
  | .fieldsStage fields => .ok (rows.map (project E fields))
  | .headStage n => .ok (rows.take (n.getD defaultLimit))
  | .tailStage n => .ok (rows.drop (rows.length - n.getD defaultLimit))

def readStages [LinearOrder V] (E : Engine V) : List PipeStage → List (Row V) →
    Except QueryError (List (Row V))
  | [], rows => .ok rows
  | p :: ps, rows => do
    let rows' ← readStage E p rows
    readStages E ps rows'

/-- The base search selects rows of the table, and each stage works on what is left. -/
def readQuery [LinearOrder V] (E : Engine V) (q : Query) (table : List (LogRow V)) :
    Except QueryError (List (Row V)) :=
  readStages E q.pipes ((table.map Row.log).filter (q.base.holds E))

end CairnObs.QueryLang
