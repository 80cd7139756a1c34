import CairnObs.QueryLexer

/-! The tree of a pipe query, `querylang/ast`, and which trees are well formed. -/
namespace CairnObs.QueryLang

/-- The largest value of Go's `int`. -/
def maxInt : ℕ := 2^63-1

inductive Op
  | eq | neq | gt | gte | lt | lte
  deriving DecidableEq, Repr

def Op.kind : Op → Kind
  | .eq => .eq
  | .neq => .neq
  | .gt => .gt
  | .gte => .gte
  | .lt => .lt
  | .lte => .lte

def Op.text (op : Op) : String := String.ofList op.kind.symbol

inductive Conj
  | and | or
  deriving DecidableEq, Repr

def Conj.text : Conj → String
  | .and => "and"
  | .or => "or"

inductive BoundKind
  | earliest | latest
  deriving DecidableEq, Repr

def BoundKind.text : BoundKind → String
  | .earliest => "earliest"
  | .latest => "latest"

inductive TimeUnit
  | s | m | h | d | w
  deriving DecidableEq, Repr

def TimeUnit.text : TimeUnit → String
  | .s => "s"
  | .m => "m"
  | .h => "h"
  | .d => "d"
  | .w => "w"

inductive Sign
  | minus | plus
  deriving DecidableEq, Repr

def Sign.kind : Sign → Kind
  | .minus => .minus
  | .plus => .plus

inductive TimeExpr
  | absolute (value : String)
  | relative (sign : Sign) (n : ℕ) (unit : TimeUnit)
  deriving DecidableEq, Repr

inductive Term
  | comparison (field : String) (op : Op) (value : String)
  | timeBound (kind : BoundKind) (expr : TimeExpr)
  | freeText (query : String)
  deriving DecidableEq, Repr

/-- Terms joined by conjunctions, one for each gap. -/
structure BoolExpr where
  terms : List Term
  conjs : List Conj
  deriving DecidableEq, Repr

inductive AggFunc
  | count | sum | avg | min | max
  deriving DecidableEq, Repr

def AggFunc.text : AggFunc → String
  | .count => "count"
  | .sum => "sum"
  | .avg => "avg"
  | .min => "min"
  | .max => "max"

/-- `field` is empty for `count()`, `aliasName` when the planner is to choose one. -/
structure AggCall where
  func : AggFunc
  field : String
  aliasName : String
  deriving DecidableEq, Repr

structure SortField where
  field : String
  desc : Bool
  deriving DecidableEq, Repr

/-- `headStage none` is a `head` without a count. -/
inductive PipeStage
  | whereStage (expr : BoolExpr)
  | statsStage (aggs : List AggCall) (by_ : List String)
  | sortStage (fields : List SortField)
  | fieldsStage (fields : List String)
  | headStage (n : Option ℕ)
  | tailStage (n : Option ℕ)
  deriving DecidableEq, Repr

structure Query where
  base : BoolExpr
  pipes : List PipeStage
  deriving DecidableEq, Repr

/-- The zero value, which stands for an absent base search. -/
def BoolExpr.empty : BoolExpr := ⟨[], []⟩

/-! ### Well-formedness -/

/-- What the lexer reads as one identifier. -/
def isIdentText (s : String) : Bool :=
  match s.toList with
  | [] => false
  | c :: cs => isIdentStart c && cs.all isIdentPart

def TimeExpr.WellFormed : TimeExpr → Prop
  | .absolute _ => True
  | .relative _ n _ => n ≤ maxInt

def Term.WellFormed : Term → Prop
  | .comparison field _ _ => isIdentText field = true ∧ field ≠ "earliest" ∧ field ≠ "latest"
  | .timeBound _ expr => expr.WellFormed
  | .freeText _ => True

structure BoolExpr.WellFormed (e : BoolExpr) : Prop where
  terms : ∀ t ∈ e.terms, t.WellFormed
  conjs : e.terms.length = e.conjs.length+1

structure AggCall.WellFormed (a : AggCall) : Prop where
  field : a.field = "" ∨ isIdentText a.field = true
  aliasName : a.aliasName = "" ∨ isIdentText a.aliasName = true

def PipeStage.WellFormed : PipeStage → Prop
  | .whereStage expr => expr.WellFormed
  | .statsStage aggs by_ => (∀ a ∈ aggs, a.WellFormed) ∧ ∀ f ∈ by_, isIdentText f = true
  | .sortStage fields => ∀ f ∈ fields, isIdentText f.field = true
  | .fieldsStage fields => ∀ f ∈ fields, isIdentText f = true
  | .headStage n => ∀ k ∈ n, k ≤ maxInt
  | .tailStage n => ∀ k ∈ n, k ≤ maxInt

/-- A stage that names what it works on. -/
def PipeStage.Nonempty : PipeStage → Prop
  | .statsStage aggs _ => aggs ≠ []
  | .sortStage fields => fields ≠ []
  | .fieldsStage fields => fields ≠ []
  | .whereStage _ | .headStage _ | .tailStage _ => True

/-- Every identifier, count and conjunction is as the grammar wants it; the base search may
be absent if a stage follows. -/
structure Query.WellFormed (q : Query) : Prop where
  base : q.base.WellFormed ∨ q.base = BoolExpr.empty ∧ q.pipes ≠ []
  pipes : ∀ p ∈ q.pipes, p.WellFormed

instance (e : TimeExpr) : Decidable e.WellFormed :=
  match e with
  | .absolute _ => inferInstanceAs (Decidable True)
  | .relative _ n _ => inferInstanceAs (Decidable (n ≤ maxInt))

instance (t : Term) : Decidable t.WellFormed :=
  match t with
  | .comparison field _ _ =>
    inferInstanceAs (Decidable (isIdentText field = true ∧ field ≠ "earliest" ∧ field ≠ "latest"))
  | .timeBound _ expr => inferInstanceAs (Decidable expr.WellFormed)
  | .freeText _ => inferInstanceAs (Decidable True)

instance (e : BoolExpr) : Decidable e.WellFormed :=
  decidable_of_iff ((∀ t ∈ e.terms, t.WellFormed) ∧ e.terms.length = e.conjs.length+1)
    ⟨fun h => ⟨h.1, h.2⟩, fun h => ⟨h.terms, h.conjs⟩⟩

instance (a : AggCall) : Decidable a.WellFormed :=
  decidable_of_iff ((a.field = "" ∨ isIdentText a.field = true) ∧
    (a.aliasName = "" ∨ isIdentText a.aliasName = true))
    ⟨fun h => ⟨h.1, h.2⟩, fun h => ⟨h.field, h.aliasName⟩⟩

instance (p : PipeStage) : Decidable p.WellFormed :=
  match p with
  | .whereStage expr => inferInstanceAs (Decidable expr.WellFormed)
  | .statsStage aggs by_ =>
    inferInstanceAs (Decidable ((∀ a ∈ aggs, a.WellFormed) ∧ ∀ f ∈ by_, isIdentText f = true))
  | .sortStage fields => inferInstanceAs (Decidable (∀ f ∈ fields, isIdentText f.field = true))
  | .fieldsStage fields => inferInstanceAs (Decidable (∀ f ∈ fields, isIdentText f = true))
  | .headStage n => inferInstanceAs (Decidable (∀ k ∈ n, k ≤ maxInt))
  | .tailStage n => inferInstanceAs (Decidable (∀ k ∈ n, k ≤ maxInt))

instance (p : PipeStage) : Decidable p.Nonempty :=
  match p with
  | .statsStage aggs _ => inferInstanceAs (Decidable (aggs ≠ []))
  | .sortStage fields => inferInstanceAs (Decidable (fields ≠ []))
  | .fieldsStage fields => inferInstanceAs (Decidable (fields ≠ []))
  | .whereStage _ | .headStage _ | .tailStage _ => inferInstanceAs (Decidable True)

instance (q : Query) : Decidable q.WellFormed :=
  decidable_of_iff ((q.base.WellFormed ∨ q.base = BoolExpr.empty ∧ q.pipes ≠ []) ∧
    ∀ p ∈ q.pipes, p.WellFormed)
    ⟨fun h => ⟨h.1, h.2⟩, fun h => ⟨h.base, h.pipes⟩⟩

end CairnObs.QueryLang
