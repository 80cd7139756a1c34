import CairnObs.AlertTransition
import CairnObs.GuardedRuns

/-! Evaluators at work on the shared `alert_state` table: `ClaimDueRules` hands out a
rule with the state it has at that moment, the query runs outside any transaction, and
`ApplyTransition` or `RecordError` writes the outcome back later. -/
namespace CairnObs.Alerting

/-- What claiming and evaluating read of a rule. -/
structure Rule where
  timing : Timing
  evalIntervalSeconds : ℕ
  enabled : Bool

/-- A row of `alert_state` with the two columns that only claiming writes. -/
structure AlertRow where
  alert : AlertState
  nextEvalAt : ℤ
  claimedAt : Option ℤ

/-- A row `ApplyTransition` inserts into `delivery_log`; the payload is rendered from
the rule, the event, the value and the timestamp. -/
structure OutboxRow (ι : Type*) where
  ruleID : ι
  eventType : EventType
  timestamp : ℤ
  value : Option Float

/-- A claimed rule whose evaluation has not written its outcome yet. `reservedUntil` is
the `next_eval_at` its claim wrote; no process reads it. -/
structure InFlight (ι : Type*) where
  ruleID : ι
  snapshot : AlertState
  reservedUntil : ℤ

/-- The tables and the evaluations under way in all processes. `writes` (the history of
`alert_state`) and `clock` (the latest `now()` of the database) are read by no step. -/
structure World (ι : Type*) where
  rows : ι → AlertRow
  inFlight : List (InFlight ι)
  deliveryLog : List (OutboxRow ι)
  writes : List (ι × AlertState)
  clock : ℤ

inductive Action (ι : Type*)
  | claim (now : ℤ) (picked : List ι)
  | finish (i : ℕ) (e : Evaluation) (built : Bool)
  | abandon (i : ℕ)

section Store

variable {ι : Type*} [DecidableEq ι]

/-- The rows one evaluation inserts. `built` is false where `buildNotifyEvent` could not
look up the target or render the payload. -/
def outboxRows (r : ι) (e : Evaluation) (notify : Option EventType) (built : Bool) :
    List (OutboxRow ι) :=
  match e with
  | .condition now _ value _ =>
    if built then notify.toList.map (fun ev => ⟨r, ev, now, value⟩) else []
  | .error _ _ => []

/-- The UPDATE of `ClaimDueRules` for the rows its SELECT got. -/
def claimDueRules (rules : ι → Rule) (now : ℤ) (picked : List ι) (w : World ι) : World ι :=
  { w with
    rows := fun r =>
      if r ∈ picked then
        { w.rows r with
          nextEvalAt := now+(rules r).evalIntervalSeconds*second
          claimedAt := some now }
      else w.rows r
    inFlight := w.inFlight ++ picked.map (fun r =>
      ⟨r, (w.rows r).alert, now+(rules r).evalIntervalSeconds*second⟩)
    clock := now }

def writeBack (dbNow : ℤ) (r : ι) (next : AlertState) (out : List (OutboxRow ι)) (w : World ι) :
    World ι :=
  { w with
    rows := Function.update w.rows r { w.rows r with alert := next }
    deliveryLog := w.deliveryLog ++ out
    writes := w.writes ++ [(r, next)]
    clock := dbNow }

/-- The end of `evaluateOne`: a transition computed from the snapshot taken at the
claim, or an error recorded on whatever the row holds now. -/
def evaluateOne (rules : ι → Rule) (c : InFlight ι) (e : Evaluation) (built : Bool)
    (w : World ι) : World ι :=
  match e with
  | .condition now holds value dbNow =>
    -- The row is not read again: the snapshot may be older than what it overwrites.
    let r := transitionOf (rules c.ruleID).timing c.snapshot now holds
    writeBack dbNow c.ruleID (applyTransition dbNow r value (w.rows c.ruleID).alert)
      (outboxRows c.ruleID e r.notify built) w
  | .error errMsg dbNow =>
    writeBack dbNow c.ruleID (recordError dbNow errMsg (w.rows c.ruleID).alert) [] w

/-- One atomic step of some process. SKIP LOCKED lets a claim pass over rows, so any
choice of due and enabled rules up to the batch size can be what it got. An abandoned
evaluation is one whose process died or whose write failed. -/
def step (rules : ι → Rule) (batchSize : ℕ) (w : World ι) : Action ι → Option (World ι)
  | .claim now picked =>
    if picked.Nodup ∧ picked.length ≤ batchSize ∧
        ∀ r ∈ picked, (rules r).enabled = true ∧ (w.rows r).nextEvalAt ≤ now then
      some (claimDueRules rules now picked w)
    else none
  | .finish i e built =>
    (w.inFlight[i]?).map (fun c =>
      evaluateOne rules c e built { w with inFlight := w.inFlight.eraseIdx i })
  | .abandon i =>
    (w.inFlight[i]?).map (fun _ => { w with inFlight := w.inFlight.eraseIdx i })

/-- Rules created at `t₀`, due at once, and no evaluation under way. -/
def created (t₀ : ℤ) : World ι :=
  { rows := fun _ => ⟨initialState, t₀, none⟩
    inFlight := []
    deliveryLog := []
    writes := []
    clock := t₀ }

/-- The states a rule's row goes through, oldest first. -/
def World.writesOf (w : World ι) (r : ι) : List AlertState :=
  (w.writes.filter (fun x => x.1 = r)).map Prod.snd

def World.rowsOf (w : World ι) (r : ι) : List (OutboxRow ι) :=
  w.deliveryLog.filter (fun x => x.ruleID = r)

end Store

theorem outboxRows_ruleID {ι : Type*} {r : ι} {e : Evaluation} {ev : Option EventType}
    {built : Bool} {x : OutboxRow ι} (hx : x ∈ outboxRows r e ev built) : x.ruleID = r := by
  cases e with
  | error m d => simp [outboxRows] at hx
  | condition now holds value dbNow =>
    cases built with
    | false => simp [outboxRows] at hx
    | true =>
      simp only [outboxRows, ↓reduceIte, List.mem_map] at hx
      obtain ⟨_, _, rfl⟩ := hx
      rfl

/-- The rows of `alert_state` when each evaluation starts from what the one before left. -/
def seqStates (τ : Timing) (row : AlertState) : List (Evaluation × Bool) → List AlertState
  | [] => []
  | (e, _) :: es => (evalStep τ row e).1 :: seqStates τ (evalStep τ row e).1 es

/-- The outbox rows of the same sequential execution. -/
def seqRows {ι : Type*} (r : ι) (τ : Timing) (row : AlertState) :
    List (Evaluation × Bool) → List (OutboxRow ι)
  | [] => []
  | (e, built) :: es =>
    outboxRows r e ((evalStep τ row e).2.map Prod.snd) built ++
      seqRows r τ (evalStep τ row e).1 es

/-- What was written for every rule is what some sequential execution writes. -/
def Sequential {ι : Type*} [DecidableEq ι] (rules : ι → Rule) (w : World ι) : Prop :=
  ∀ r, ∃ es, w.writesOf r = seqStates (rules r).timing initialState es ∧
    w.rowsOf r = seqRows r (rules r).timing initialState es

theorem length_seqStates (τ : Timing) (row : AlertState) (es : List (Evaluation × Bool)) :
    (seqStates τ row es).length = es.length := by
  induction es generalizing row with
  | nil => rfl
  | cons x es ih => exact congrArg Nat.succ (ih _)

theorem seqStates_snoc (τ : Timing) (row : AlertState) (es : List (Evaluation × Bool))
    (x : Evaluation × Bool) :
    seqStates τ row (es ++ [x]) =
      seqStates τ row es ++ [(evalStep τ (stateAfter τ row (es.map Prod.fst)) x.1).1] := by
  induction es generalizing row with
  | nil => rfl
  | cons y es ih => simp [seqStates, stateAfter, ih]

theorem seqRows_snoc {ι : Type*} (r : ι) (τ : Timing) (row : AlertState)
    (es : List (Evaluation × Bool)) (x : Evaluation × Bool) :
    seqRows r τ row (es ++ [x]) = seqRows r τ row es ++ outboxRows r x.1
      ((evalStep τ (stateAfter τ row (es.map Prod.fst)) x.1).2.map Prod.snd) x.2 := by
  induction es generalizing row with
  | nil => simp [seqRows, stateAfter]
  | cons y es ih => simp [seqRows, stateAfter, ih]

end CairnObs.Alerting
