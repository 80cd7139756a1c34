import CairnObs.GoTime

/-! The firing/resolved state machine of `alerting/internal/evaluator` and the two
writes of `alerting/internal/rulestore` that persist its outcome. -/
namespace CairnObs.Alerting

/-- `rulestore.State`. The CHECK constraint of `alert_state` keeps the column to
these three values. -/
inductive State
  | ok | pending | firing
  deriving DecidableEq, Repr

/-- The two values of `delivery_log.event_type`. -/
inductive EventType
  | firing | resolved
  deriving DecidableEq, Repr

structure TransitionInput where
  currentState : State
  conditionTrueSince : Option ℤ
  firedAt : Option ℤ
  lastNotifiedAt : Option ℤ
  forMinutes : Duration
  renotifyInterval : Option Duration
  now : ℤ
  conditionTrue : Bool

structure TransitionResult where
  nextState : State
  nextConditionTrueSince : Option ℤ := none
  nextFiredAt : Option ℤ := none
  nextLastNotifiedAt : Option ℤ := none
  notify : Option EventType := none
  deriving DecidableEq

def fire (since now : ℤ) : TransitionResult :=
  { nextState := .firing
    nextConditionTrueSince := some since
    nextFiredAt := some now
    nextLastNotifiedAt := some now
    notify := some .firing }

/-- The renotification test of the firing branch: both pointers set and the interval elapsed. -/
def renotifyDue (inp : TransitionInput) : Bool :=
  match inp.renotifyInterval, inp.lastNotifiedAt with
  | some r, some l => decide (r.ns ≤ timeSub inp.now l)
  | _, _ => false

def computeConditionTrue (inp : TransitionInput) : TransitionResult :=
  match inp.currentState with
  | .pending =>
    -- A pending row without a since is inconsistent; the source then takes `now`.
    let since := inp.conditionTrueSince.getD inp.now
    if inp.forMinutes.ns ≤ timeSub inp.now since then fire since inp.now
    else { nextState := .pending, nextConditionTrueSince := some since }
  | .firing =>
    let result : TransitionResult :=
      { nextState := .firing
        nextConditionTrueSince := inp.conditionTrueSince
        nextFiredAt := inp.firedAt
        nextLastNotifiedAt := inp.lastNotifiedAt }
    if renotifyDue inp then
      { result with nextLastNotifiedAt := some inp.now, notify := some .firing }
    else result
  | .ok =>
    if inp.forMinutes.ns ≤ 0 then fire inp.now inp.now
    else { nextState := .pending, nextConditionTrueSince := some inp.now }

def computeConditionFalse (inp : TransitionInput) : TransitionResult :=
  match inp.currentState with
  | .firing => { nextState := .ok, notify := some .resolved }
  | .ok | .pending => { nextState := .ok }

def computeTransition (inp : TransitionInput) : TransitionResult :=
  if inp.conditionTrue then computeConditionTrue inp else computeConditionFalse inp

inductive EvalStatus
  | ok | error
  deriving DecidableEq, Repr

/-- A row of `alert_state`. -/
structure AlertState where
  state : State
  conditionTrueSince : Option ℤ
  firedAt : Option ℤ
  lastNotifiedAt : Option ℤ
  lastEvaluatedAt : Option ℤ
  lastEvalStatus : EvalStatus
  lastError : Option String
  lastValue : Option Float
  consecutiveErrors : ℕ

/-- The row `Store.Create` inserts beside the rule. -/
def initialState : AlertState :=
  { state := .ok, conditionTrueSince := none, firedAt := none, lastNotifiedAt := none
    lastEvaluatedAt := none, lastEvalStatus := .ok, lastError := none, lastValue := none
    consecutiveErrors := 0 }

/-- The UPDATE of `ApplyTransition`; `dbNow` is the database's `now()`. -/
def applyTransition (dbNow : ℤ) (next : TransitionResult) (value : Option Float)
    (_row : AlertState) : AlertState :=
  { state := next.nextState
    conditionTrueSince := next.nextConditionTrueSince
    firedAt := next.nextFiredAt
    lastNotifiedAt := next.nextLastNotifiedAt
    lastEvaluatedAt := some dbNow
    lastEvalStatus := .ok
    lastError := none
    lastValue := value
    consecutiveErrors := 0 }

/-- The UPDATE of `RecordError`: only the error-tracking columns. -/
def recordError (dbNow : ℤ) (errMsg : String) (row : AlertState) : AlertState :=
  { row with
    lastEvaluatedAt := some dbNow
    lastEvalStatus := .error
    lastError := some errMsg
    consecutiveErrors := row.consecutiveErrors+1 }

/-- The two durations `evaluateOne` passes to `ComputeTransition`. -/
structure Timing where
  forMinutes : Duration
  renotifyInterval : Option Duration

/-- One evaluation as `evaluateOne` sees it after the query: a condition with the
clock reading taken for the transition, or an error. -/
inductive Evaluation
  | condition (now : ℤ) (holds : Bool) (value : Option Float) (dbNow : ℤ)
  | error (errMsg : String) (dbNow : ℤ)

/-- The transition `evaluateOne` computes from a row it has read. -/
def transitionOf (τ : Timing) (row : AlertState) (now : ℤ) (holds : Bool) : TransitionResult :=
  computeTransition
    { currentState := row.state
      conditionTrueSince := row.conditionTrueSince
      firedAt := row.firedAt
      lastNotifiedAt := row.lastNotifiedAt
      forMinutes := τ.forMinutes
      renotifyInterval := τ.renotifyInterval
      now := now
      conditionTrue := holds }

/-- One evaluation from start to end with nothing in between: the row read, the
transition computed, the outcome written back. The event, if any, carries `now`. -/
def evalStep (τ : Timing) (row : AlertState) : Evaluation → AlertState × Option (ℤ × EventType)
  | .condition now holds value dbNow =>
    let r := transitionOf τ row now holds
    (applyTransition dbNow r value row, r.notify.map (fun e => (now, e)))
  | .error errMsg dbNow => (recordError dbNow errMsg row, none)

/-- The row after a sequence of evaluations. -/
def stateAfter (τ : Timing) (row : AlertState) : List Evaluation → AlertState
  | [] => row
  | e :: es => stateAfter τ (evalStep τ row e).1 es

/-- The events of a sequence of evaluations, oldest first. -/
def notifications (τ : Timing) (row : AlertState) : List Evaluation → List (ℤ × EventType)
  | [] => []
  | e :: es => (evalStep τ row e).2.toList ++ notifications τ (evalStep τ row e).1 es

theorem stateAfter_append (τ : Timing) (row : AlertState) (es fs : List Evaluation) :
    stateAfter τ row (es ++ fs) = stateAfter τ (stateAfter τ row es) fs := by
  induction es generalizing row with
  | nil => rfl
  | cons e es ih => exact ih (evalStep τ row e).1

theorem stateAfter_snoc (τ : Timing) (row : AlertState) (es : List Evaluation) (e : Evaluation) :
    stateAfter τ row (es ++ [e]) = (evalStep τ (stateAfter τ row es) e).1 :=
  stateAfter_append τ row es [e]

theorem notifications_snoc (τ : Timing) (row : AlertState) (es : List Evaluation) (e : Evaluation) :
    notifications τ row (es ++ [e]) =
      notifications τ row es ++ (evalStep τ (stateAfter τ row es) e).2.toList := by
  induction es generalizing row with
  | nil => simp [notifications, stateAfter]
  | cons f es ih => simp [notifications, stateAfter, ih]

end CairnObs.Alerting
